import Mevent.EventLoop.Closing
import Mevent.EventLoop.Messages

/-!
# What a session leaves to the next one

A connection on the free list is as its constructor leaves it, so that a client that gets
it finds no trace of an earlier one.  This fails when an HTTP handler closes its
connection: the worker then ends the response of a connection that is free already.
-/

namespace Mevent

open Library

/-- The request, the response, the WebSocket, the buffers, the flag, the descriptor and
`ssl_` are as the constructor leaves them. -/
structure Connection.AsConstructed (connection : Connection) : Prop where
  req : connection.req = new.req
  resp : connection.resp = new.resp
  ws : connection.ws = new.ws
  writeBufferChain : connection.writeBufferChain = new.writeBufferChain
  evWritable : connection.evWritable = new.evWritable
  fd : connection.fd = new.fd
  ssl : connection.ssl = new.ssl

namespace EventLoop

variable {config : Config} {el later : EventLoop} {free : List ConnId} {conn : ConnId}

/-- Whatever is on the free list is as it was constructed. -/
def IsolatesSessions (el : EventLoop) : Prop :=
  ∀ conn, el.pool.OnFreeList conn → (el.connections conn).AsConstructed

/-- A step in which no connection is closed under a handler that goes on with it.  The
worker itself goes on behind an HTTP handler, so that a function that it calls must not close
the connection at all, and `ResetConnection` goes on behind `on_close_func_`.  A client that
`Accept` has to refuse must not have the descriptor 0, with which `Connection::Reset` leaves the
connection as it is. -/
def ClosesLast (config : Config) (el : EventLoop) : Action → Prop
  | .install _ clifd _ _ ready => ready = true ∨ clifd ≠ 0
  | .onRead _ input => NoClose input.onClose
  | .onWrite _ _ onClose | .expire onClose => NoClose onClose
  | .runTask input => NoClose input.onClose ∧ ∀ task ∈ el.worker,
      0 < (el.connections task.conn).fd →
        config.routes (el.connections task.conn).req.path ≠ none → NoClose input.script
  | .runWsTask input => NoClose input.onClose ∧ ∀ item ∈ el.wsWorker,
      0 < (el.connections item.session.conn).fd →
        (el.connections item.session.conn).ws.handlerFor item.task.opcode ≠ none →
          ClosesCleanly config.limits input.script
  | _ => True

instance (config : Config) (el : EventLoop) : DecidablePred (el.ClosesLast config)
  | .install _ clifd _ _ ready => inferInstanceAs (Decidable (ready = true ∨ clifd ≠ 0))
  | .onRead _ input => inferInstanceAs (Decidable (NoClose input.onClose))
  | .onWrite _ _ onClose | .expire onClose => inferInstanceAs (Decidable (NoClose onClose))
  | .runTask input => inferInstanceAs (Decidable (NoClose input.onClose ∧ ∀ task ∈ el.worker,
      0 < (el.connections task.conn).fd →
        config.routes (el.connections task.conn).req.path ≠ none → NoClose input.script))
  | .runWsTask input => inferInstanceAs (Decidable (NoClose input.onClose ∧ ∀ item ∈ el.wsWorker,
      0 < (el.connections item.session.conn).fd →
        (el.connections item.session.conn).ws.handlerFor item.task.opcode ≠ none →
          ClosesCleanly config.limits input.script))
  | .poll _ | .beginAccept | .accepted _ | .wouldBlock | .updateErase _ | .updatePush _
  | .takeTask | .takeWsTask | .timeoutCheck _ | .checkFirst | .peek | .checkNext
  | .safeWrite .. => inferInstanceAs (Decidable True)

structure Apart (el : EventLoop) (free : List ConnId) : Prop where
  chain : el.pool.FreeList free
  nodup : free.Nodup
  fresh : ∀ conn ∈ free, el.connections conn = .new ∧ conn < el.pool.count
  unused : ∀ conn, el.pool.count ≤ conn → el.connections conn = .new
  popped : ∀ conn clifd, el.loop = .popped conn clifd → conn ∉ free ∧
    el.connections conn = .new ∧ conn < el.pool.count ∧ 0 ≤ clifd

def KeptApart (el : EventLoop) : Prop := ∃ free, el.Apart free

theorem KeptApart.isolatesSessions (kept : el.KeptApart) : el.IsolatesSessions := by
  intro conn listed
  obtain ⟨free, apart⟩ := kept
  have new := (apart.fresh conn (mem_of_met apart.chain listed)).1
  constructor <;> rw [new]

theorem KeptApart.initial (config : Config) : (initial config).KeptApart := by
  refine ⟨[], ?_⟩
  exact {
    chain := ConnectionPool.freeList_new config.maxWorkerConnections
    nodup := List.nodup_nil
    fresh := nofun
    unused := fun _ _ => rfl
    popped := nofun }

theorem KeptApart.frame (kept : el.KeptApart) (same : el.pool.SameFree later.pool)
    (connections : later.connections = el.connections)
    (popped : ∀ conn clifd, later.loop = .popped conn clifd → later.loop = el.loop) :
    later.KeptApart := by
  obtain ⟨free, apart⟩ := kept
  refine ⟨free, ?_⟩
  exact {
    chain := same.freeList.mpr apart.chain
    nodup := apart.nodup
    fresh := by
      rw [connections, same.count]
      exact apart.fresh
    unused := by
      rw [connections, same.count]
      exact apart.unused
    popped := by
      intro conn clifd at_loop
      rw [connections, same.count]
      exact apart.popped conn clifd ((popped conn clifd at_loop).symm.trans at_loop) }

theorem new_put {held : Held} (new : el.connections conn = .new → held.connection = .new)
    (other : ConnId) (other_new : el.connections other = .new) :
    (el.put conn held).connections other = .new := by
  by_cases same : other = conn
  · subst same
    simpa using new other_new
  · simpa [same] using other_new

theorem KeptApart.frees (kept : el.KeptApart) {held : Held}
    (freed : Held.Freed conn (el.hold conn) held) : (el.put conn held).KeptApart := by
  obtain ⟨free, apart⟩ := kept
  obtain ⟨opened, new, released⟩ := freed
  have not_new : el.connections conn ≠ .new := by
    intro new
    simp only [hold, new] at opened
    exact absurd opened (by decide)
  have outside : conn ∉ free := fun inside => not_new (apart.fresh conn inside).1
  have used : conn < el.pool.count :=
    Nat.lt_of_not_le fun unused => not_new (apart.unused conn unused)
  have count : held.pool.count = el.pool.count := by simp [released, hold]
  have kept_new := @new_put el conn held fun contrary => (not_new contrary).elim
  refine ⟨conn :: free, ?_⟩
  exact {
    chain := by
      rw [put, released]
      exact ConnectionPool.freeList_activeListErase.mpr
        (ConnectionPool.freeList_push apart.chain outside)
    nodup := List.nodup_cons.mpr ⟨outside, apart.nodup⟩
    fresh := by
      intro other inside
      rcases List.mem_cons.mp inside with same | inside
      · subst same
        exact ⟨by simpa using new, count.symm ▸ used⟩
      · obtain ⟨other_new, other_used⟩ := apart.fresh other inside
        exact ⟨kept_new other other_new, count.symm ▸ other_used⟩
    unused := by
      intro other unused
      exact kept_new other (apart.unused other (count ▸ unused))
    popped := by
      intro other clifd at_loop
      obtain ⟨other_outside, other_new, other_used, descriptor⟩ := apart.popped other clifd at_loop
      refine ⟨?_, kept_new other other_new, count.symm ▸ other_used, descriptor⟩
      intro inside
      rcases List.mem_cons.mp inside with same | inside
      · subst same
        exact not_new other_new
      · exact other_outside inside }

theorem KeptApart.tidy (kept : el.KeptApart) {held : Held}
    (tidy : Held.Tidy conn (el.hold conn) held) : (el.put conn held).KeptApart := by
  rcases tidy with freed | ⟨same_pool, stays_new⟩
  · exact kept.frees freed
  obtain ⟨free, apart⟩ := kept
  have kept_new := @new_put el conn held stays_new
  have pool : (el.put conn held).pool = el.pool := same_pool
  refine ⟨free, ?_⟩
  exact {
    chain := pool.symm ▸ apart.chain
    nodup := apart.nodup
    fresh := by
      intro other inside
      obtain ⟨other_new, other_used⟩ := apart.fresh other inside
      exact ⟨kept_new other other_new, pool.symm ▸ other_used⟩
    unused := by
      intro other unused
      exact kept_new other (apart.unused other (pool ▸ unused))
    popped := by
      intro other clifd at_loop
      obtain ⟨other_outside, other_new, other_used, descriptor⟩ := apart.popped other clifd at_loop
      exact ⟨other_outside, kept_new other other_new, pool.symm ▸ other_used, descriptor⟩ }

/-- `Accept` takes a connection from the free list, or a new one. -/
theorem KeptApart.pops (kept : el.KeptApart) {clifd : Int} (descriptor : 0 ≤ clifd)
    {pool : ConnectionPool} (popped : el.pool.freeListPop = (some conn, pool)) :
    KeptApart { el with pool := pool, loop := .popped conn clifd } := by
  obtain ⟨free, apart⟩ := kept
  rcases ConnectionPool.freeListPop_cases apart.chain with
    ⟨first, rest, same, taken, remaining⟩ | ⟨none_free, none_left | created⟩
  · subst same
    rw [popped] at taken remaining
    cases taken
    obtain ⟨outside, nodup⟩ := List.nodup_cons.mp apart.nodup
    obtain ⟨first_new, first_used⟩ := apart.fresh conn List.mem_cons_self
    refine ⟨rest, ?_⟩
    exact {
      chain := remaining
      nodup := nodup
      fresh := by
        intro other inside
        exact apart.fresh other (List.mem_cons_of_mem _ inside)
      unused := apart.unused
      popped := by
        intro other otherfd at_loop
        cases at_loop
        exact ⟨outside, first_new, first_used, descriptor⟩ }
  · rw [popped] at none_left
    cases none_left
  · rw [popped] at created
    cases created
    subst none_free
    refine ⟨[], ?_⟩
    exact {
      chain := apart.chain
      nodup := List.nodup_nil
      fresh := nofun
      unused := by
        intro other unused
        exact apart.unused other (Nat.le_of_succ_le unused)
      popped := by
        intro other otherfd at_loop
        cases at_loop
        exact ⟨List.not_mem_nil, apart.unused _ (Nat.le_refl _), Nat.lt_succ_self _, descriptor⟩ }

/-- `Accept` keeps the connection, or puts it back as a new one. -/
theorem KeptApart.installs (kept : el.KeptApart) {clifd : Int} {addr : UInt32} {now : Int}
    {ready : Bool} (at_loop : el.loop = .popped conn clifd)
    (closes : ready = true ∨ clifd ≠ 0) :
    KeptApart { el.put conn (installIn config conn clifd addr now ready (el.hold conn)) with
      loop := .accepting
      installs := Function.update el.installs conn (el.installs conn + 1) } := by
  obtain ⟨free, apart⟩ := kept
  obtain ⟨outside, new, used, descriptor⟩ := apart.popped conn clifd at_loop
  cases ready with
  | true =>
      refine ⟨free, ?_⟩
      exact {
        chain := ConnectionPool.freeList_activeListPush.mpr apart.chain
        nodup := apart.nodup
        fresh := by
          intro other inside
          have different : other ≠ conn := fun same => outside (same ▸ inside)
          simpa [installIn, put, hold, different] using apart.fresh other inside
        unused := by
          intro other unused
          have unused : el.pool.count ≤ other := by simpa [installIn, put, hold] using unused
          have different : other ≠ conn := fun same => Nat.not_lt.mpr unused (same ▸ used)
          simpa [different] using apart.unused other unused
        popped := nofun }
  | false =>
      have opened : 0 < clifd :=
        Int.lt_iff_le_and_ne.mpr ⟨descriptor, (closes.resolve_left nofun).symm⟩
      have kept_new := @new_put el conn
        (installIn config conn clifd addr now false (el.hold conn))
        fun _ => Connection.reset_of_open opened
      refine ⟨conn :: free, ?_⟩
      exact {
        chain := ConnectionPool.freeList_push apart.chain outside
        nodup := List.nodup_cons.mpr ⟨outside, apart.nodup⟩
        fresh := by
          intro other inside
          rcases List.mem_cons.mp inside with same | inside
          · subst same
            exact ⟨kept_new other new, used⟩
          · obtain ⟨other_new, other_used⟩ := apart.fresh other inside
            exact ⟨kept_new other other_new, other_used⟩
        unused := by
          intro other unused
          exact kept_new other (apart.unused other unused)
        popped := nofun }

/-- A step that closes a connection last keeps the free list apart. -/
theorem KeptApart.step (kept : el.KeptApart) {action : Action}
    (last : el.ClosesLast config action) (stepped : el.step config action = some later) :
    later.KeptApart := by
  cases effect_of_step stepped with
  | moves pool batch loop timeout same popped => exact kept.frame same rfl popped
  | pops conn clifd pool descriptor popped => exact kept.pops descriptor popped
  | installs conn clifd addr now ready at_loop => exact kept.installs at_loop last
  | writes conn writes onClose held writing =>
      exact (kept.tidy (Held.tidy_onWrite last writing)).frame (.refl _) rfl (fun _ _ _ => rfl)
  | expires conn now onClose held reset =>
      have tidy := Held.tidy_of_reset (el.hold conn) rfl rfl id
        (Held.resetConnection_of_noClose last reset)
      exact (kept.tidy tidy).frame (.refl _) rfl (fun _ _ _ => rfl)
  | sends conn data writes =>
      refine kept.tidy (.inr ⟨rfl, ?_⟩)
      intro new
      have at_conn : el.connections conn = .new := new
      simp only [at_conn, Connection.writeString_new, Connection.flush_new]
  | reads conn input read reading =>
      refine (kept.tidy (Held.tidy_onRead last reading)).frame ?_ ?_ nofun
      · cases read.pushed <;> exact .refl _
      · cases read.pushed <;> rfl
  | takesTask | dropsTask | takesWsTask | dropsWsTask =>
      exact kept.frame (.refl _) rfl (fun _ _ _ => rfl)
  | runsTask input task held held_task descriptor worked =>
      have tidy := Held.tidy_work (last.2 task held_task) last.1 descriptor worked
      exact (kept.tidy tidy).frame (.refl _) rfl (fun _ _ _ => rfl)
  | runsWsTask input item held held_item descriptor worked =>
      have tidy := Held.tidy_wsWork (last.2 item held_item) last.1 descriptor worked
      exact (kept.tidy tidy).frame (.refl _) rfl (fun _ _ _ => rfl)

/-- For `WorkerThread` the condition is the exact one: a handler leaves nothing behind if and
only if it does not close its connection. -/
theorem isolatesSessions_runTask_iff {config : Config} {el later : EventLoop} {task : Session}
    {input : WorkInput} (kept : el.KeptApart) (held_task : el.worker = some task)
    (opened : 0 < (el.connections task.conn).fd)
    (routed : config.routes (el.connections task.conn).req.path ≠ none)
    (onClose : NoClose input.onClose) (stepped : el.step config (.runTask input) = some later) :
    later.IsolatesSessions ↔ NoClose input.script := by
  constructor
  · intro isolates
    by_contra closes
    rw [step_runTask held_task (Int.not_lt.mpr (Int.le_of_lt opened))] at stepped
    obtain ⟨held, worked, same⟩ := Option.map_eq_some_iff.mp stepped
    subst same
    obtain ⟨head, finished⟩ := Held.work_of_closes opened routed closes worked
    have listed : held.pool.OnFreeList task.conn := by
      unfold ConnectionPool.OnFreeList
      rw [head]
      exact .here task.conn
    have unfinished := (isolates task.conn listed).resp
    simp only [put_connections, Function.update_self] at unfinished
    rw [unfinished] at finished
    cases finished
  · intro script
    have last : el.ClosesLast config (.runTask input) := ⟨onClose, fun _ _ _ _ => script⟩
    exact (kept.step last stepped).isolatesSessions

/-- As long as connections are closed last, no session leaves anything to the next one. -/
theorem isolatesSessions_of_closesLast {config : Config} {el : EventLoop}
    (reached : Reaches (EventLoop.step config) (ClosesLast config) (initial config) el) :
    el.IsolatesSessions := by
  have kept : el.KeptApart := by
    refine reached.invariant (KeptApart.initial config) ?_
    intro state action later kept last stepped
    exact kept.step last stepped
  exact kept.isolatesSessions

/-- A WebSocket handler closes its connection, and the connection is on the free list. -/
theorem isolatesSessions_closing_message : ∃ el : EventLoop,
    el.pool.freeListHead = some 0 ∧ el.IsolatesSessions := by
  have freed : (replay (EventLoop.step chatConfig) (ClosesLast chatConfig) (initial chatConfig)
      (joining 5 1 ++ reading (arrival 2 textFrame) ++
        [.takeWsTask, .runWsTask ⟨[.close []], [], [], []⟩])).map (·.pool.freeListHead) =
      some (some 0) := by decide +kernel
  obtain ⟨el, replayed, head⟩ := Option.map_eq_some_iff.mp freed
  exact ⟨el, head, isolatesSessions_of_closesLast (reaches_of_replay replayed)⟩

/-- An HTTP handler closes its connection; the worker ends the response of the connection
that is on the free list by then. -/
theorem not_isolatesSessions_closing_handler :
    ¬ ∀ (config : Config) (el : EventLoop),
      Reaches (EventLoop.step config) (fun _ _ => True) (initial config) el →
        el.IsolatesSessions := by
  intro isolates
  have freed : (replay (EventLoop.step chatConfig) (fun _ _ => True) (initial chatConfig)
      (accepting 5 1 ++ reading (arrival 2 smallRequest) ++
        [.takeTask, .runTask ⟨[.close []], [], [], []⟩])).map
          (fun el => (el.pool.freeListHead, (el.connections 0).resp.finish)) =
      some (some 0, true) := by decide +kernel
  obtain ⟨el, replayed, same⟩ := Option.map_eq_some_iff.mp freed
  obtain ⟨head, finished⟩ := Prod.mk.inj same
  have listed : el.pool.OnFreeList 0 := by
    unfold ConnectionPool.OnFreeList
    rw [head]
    exact .here 0
  have unfinished := (isolates chatConfig el (reaches_of_replay replayed) 0 listed).resp
  rw [unfinished] at finished
  exact absurd finished (by decide)

end EventLoop

end Mevent
