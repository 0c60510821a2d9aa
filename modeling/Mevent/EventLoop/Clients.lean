import Mevent.EventLoop.Steps
import Mevent.Library.Shares

/-!
# The sockets of the clients

Which sockets of clients an event loop has open, and what each of its steps does to them.  Only
`Accept` adds one, and it may lose another that a connection still holds.
-/

namespace Mevent

open Library

namespace ConnectionPool

variable {pool later : ConnectionPool} {conn : ConnId} {bound : Nat}

/-- The free list leads to no connection from a number on. -/
structure FreeBelow (pool : ConnectionPool) (bound : Nat) : Prop where
  head : ∀ conn, pool.freeListHead = some conn → conn < bound
  next : ∀ conn next, pool.freeNext conn = some next → next < bound

theorem SameFree.freeBelow (same : pool.SameFree later) :
    later.FreeBelow bound ↔ pool.FreeBelow bound := by
  constructor
  · rintro ⟨head, next⟩
    exact ⟨same.freeListHead ▸ head, same.freeNext ▸ next⟩
  · rintro ⟨head, next⟩
    exact ⟨same.freeListHead ▸ head, same.freeNext ▸ next⟩

theorem FreeBelow.mono {more : Nat} (below : pool.FreeBelow bound) (fewer : bound ≤ more) :
    pool.FreeBelow more where
  head := fun conn found => (below.head conn found).trans_le fewer
  next := fun conn next found => (below.next conn next found).trans_le fewer

theorem FreeBelow.push (below : pool.FreeBelow bound) (inside : conn < bound) :
    (pool.freeListPush conn).FreeBelow bound where
  head := by
    intro other found
    cases found
    exact inside
  next := by
    intro other next found
    by_cases same : other = conn
    · subst same
      exact below.head next (by simpa [freeListPush] using found)
    · exact below.next other next (by simpa [freeListPush, same] using found)

/-- `FreeListPop` hands out a connection of the free list or creates the next one. -/
theorem FreeBelow.pop (below : pool.FreeBelow pool.count)
    (popped : pool.freeListPop = (some conn, later)) :
    conn < later.count ∧ later.FreeBelow later.count ∧
      (later.count = pool.count ∨ conn = pool.count ∧ later.count = pool.count + 1) := by
  unfold freeListPop at popped
  split at popped
  · rename_i first head
    cases popped
    exact ⟨below.head conn head, ⟨fun other found => below.next conn other found, below.next⟩,
      .inl rfl⟩
  · rename_i empty
    split at popped
    · cases popped
    · cases popped
      have grown := below.mono (Nat.le_succ pool.count)
      exact ⟨Nat.lt_succ_self _, ⟨grown.head, grown.next⟩, .inr ⟨rfl, rfl⟩⟩

end ConnectionPool

namespace Held

/-- A section keeps the descriptor of its connection or takes it away, and it puts the connection
on the free list only if it has had a descriptor. -/
structure Confined (conn : ConnId) (held later : Held) : Prop where
  fd : later.connection.fd < 0 ∨ later.connection.fd = held.connection.fd
  count : later.pool.count = held.pool.count
  free : ∀ bound, (0 < held.connection.fd → conn < bound) → held.pool.FreeBelow bound →
    later.pool.FreeBelow bound

variable {limits : Limits} {conn : ConnId} {held middle later : Held}

theorem Confined.refl (held : Held) : Confined conn held held := ⟨.inr rfl, rfl, fun _ _ => id⟩

theorem Confined.trans (first : Confined conn held middle) (second : Confined conn middle later) :
    Confined conn held later where
  fd := by
    rcases second.fd with gone | same
    · exact .inl gone
    · exact same ▸ first.fd
  count := second.count.trans first.count
  free := by
    intro bound created below
    refine second.free bound (fun opened => created ?_) (first.free bound created below)
    rcases first.fd with gone | same
    · omega
    · exact same ▸ opened

theorem Confined.of_same (fd : later.connection.fd = held.connection.fd)
    (pool : later.pool = held.pool) : Confined conn held later :=
  ⟨.inr fd, congrArg (·.count) pool, fun _ _ => pool ▸ id⟩

theorem Confined.release (confined : Confined conn held middle)
    (opened : 0 < held.connection.fd) : Confined conn held (middle.release conn) where
  fd := by
    refine .inl (Connection.fd_reset ?_)
    rcases confined.fd with gone | same
    · exact Int.ne_of_lt gone
    · rw [same]
      exact Int.ne_of_gt opened
  count := by
    have same : (middle.pool.freeListPush conn).SameFree (middle.release conn).pool :=
      ConnectionPool.sameFree_activeListErase
    exact same.count.trans confined.count
  free := by
    intro bound created below
    have pushed := (confined.free bound created below).push (created opened)
    exact ConnectionPool.sameFree_activeListErase.freeBelow.mpr pushed

mutual

theorem confined_runOp (op : HandlerOp) (held later : Held)
    (ran : held.runOp limits conn op = some later) : Confined conn held later := by
  cases op with
  | call call =>
      rw [runOp] at ran
      obtain ⟨connection, called, rfl⟩ := Option.map_eq_some_iff.mp ran
      exact .of_same (Connection.call_effect called).fd rfl
  | close onClose =>
      rw [runOp] at ran
      split at ran
      next opened =>
        split at ran
        next upgraded =>
          split at ran
          · cases ran
          · obtain ⟨closed, closing, rfl⟩ := Option.map_eq_some_iff.mp ran
            exact (confined_runOps onClose held closed closing).release opened
        next not_upgraded =>
          cases ran
          exact (Confined.refl held).release opened
      next closed =>
        cases ran
        exact .refl held

theorem confined_runOps (ops : List HandlerOp) (held later : Held)
    (ran : held.runOps limits conn ops = some later) : Confined conn held later := by
  cases ops with
  | nil =>
      rw [runOps] at ran
      cases ran
      exact .refl held
  | cons op ops =>
      rw [runOps] at ran
      obtain ⟨middle, first, rest⟩ := Option.bind_eq_some_iff.mp ran
      exact (confined_runOp op held middle first).trans (confined_runOps ops middle later rest)

end

theorem confined_resetConnection {onClose : List HandlerOp}
    (reset : held.resetConnection limits conn onClose = some later) : Confined conn held later :=
  confined_runOp (.close onClose) held later reset

theorem confined_resetUnlessAgain {onClose : List HandlerOp} {status : ConnStatus}
    (reset : held.resetUnlessAgain limits conn onClose status = some later) :
    Confined conn held later := by
  unfold resetUnlessAgain at reset
  split at reset
  · cases reset
    exact .refl held
  · exact confined_resetConnection reset

theorem confined_onWrite {writes : List WriteResult} {onClose : List HandlerOp}
    (wrote : held.onWrite limits conn writes onClose = some later) : Confined conn held later := by
  have flushed : Confined conn held
      { held with connection := (held.connection.flush writes).2 } :=
    .of_same (Connection.fd_flush ..) rfl
  exact flushed.trans (confined_resetUnlessAgain wrote)

theorem confined_onRead {input : ReadInput} {result : OnReadResult}
    (read : held.onRead limits conn input = some result) : Confined conn held result.held := by
  obtain ⟨data, reading, answering⟩ := Option.bind_eq_some_iff.mp read
  obtain ⟨closed, closing, rfl⟩ := Option.map_eq_some_iff.mp answering
  have answered : Confined conn held
      { held with connection := (answer data.status input.date input.writes data.conn).2 } :=
    .of_same (answer_effect.1.trans (Connection.fd_readData reading)) rfl
  exact answered.trans (confined_resetUnlessAgain closing)

theorem confined_finishWork {writes : List WriteResult} {onClose : List HandlerOp}
    (finished : held.finishWork limits conn writes onClose = some later) :
    Confined conn held later := by
  have flushed : Confined conn held
      { held with connection := (held.connection.flush writes).2 } :=
    .of_same (Connection.fd_flush ..) rfl
  unfold finishWork at finished
  simp only at finished
  split at finished
  · cases finished
    exact .of_same (Connection.fd_flush ..) rfl
  · cases finished
    exact flushed
  · exact flushed.trans (confined_resetConnection finished)

theorem confined_work {config : Config} {input : WorkInput}
    (worked : held.work config conn input = some later) : Confined conn held later := by
  obtain ⟨middle, handling, finished⟩ := Option.bind_eq_some_iff.mp worked
  have first : Confined conn held middle := by
    unfold handleRequest at handling
    split at handling
    · exact confined_runOps _ _ _ handling
    · cases handling
      exact .of_same (Connection.fd_writeErrorMessage ..) rfl
  have second : Confined conn middle (middle.flushUnlessUpgraded input.date) := by
    unfold flushUnlessUpgraded
    split
    · exact .refl middle
    · exact .of_same (Connection.fd_flushResponse ..) rfl
  exact (first.trans second).trans (confined_finishWork finished)

theorem confined_wsWork {config : Config} {opcode : WebSocketOpcodeType} {input : WorkInput}
    (worked : held.wsWork config conn opcode input = some later) : Confined conn held later := by
  obtain ⟨middle, handling, finished⟩ := Option.bind_eq_some_iff.mp worked
  have first : Confined conn held middle := by
    unfold handleMessage at handling
    split at handling
    · exact confined_runOps _ _ _ handling
    · cases handling
      exact .refl held
  exact first.trans (confined_finishWork finished)

end Held

namespace EventLoop

def socketOf (el : EventLoop) (conn : ConnId) : List Nat :=
  ((el.connections conn).fd.toNat?).toList

def installedSockets (el : EventLoop) : List Nat := (List.range el.pool.count).flatMap el.socketOf

/-- The socket that `Accept` is about to install. -/
def incomingSocket : Pool.LoopPoint → List Nat
  | .popped _ clifd => [clifd.toNat]
  | _ => []

/-- The sockets of clients that an event loop has open. -/
def clients (el : EventLoop) : List Nat := el.installedSockets ++ incomingSocket el.loop

/-- The socket that `Accept` writes over in the connection that it installs a client in; nobody
closes it any more. -/
def overwritten (el : EventLoop) : Action → List Nat
  | .install conn _ _ _ _ => el.socketOf conn
  | _ => []

/-- The socket that `accept` returns. -/
def brought : Action → List Nat
  | .accepted clifd => [clifd.toNat]
  | _ => []

/-- Only connections that the pool has created hold sockets, and only such connections are on the
free list or about to be installed. -/
structure Numbered (el : EventLoop) : Prop where
  holders : ∀ conn, 0 ≤ (el.connections conn).fd → conn < el.pool.count
  free : el.pool.FreeBelow el.pool.count
  popped : ∀ conn clifd, el.loop = .popped conn clifd → conn < el.pool.count ∧ 0 ≤ clifd

section Sockets

variable {config : Config} {el later : EventLoop} {conn : ConnId}

theorem numbered_initial (config : Config) : (initial config).Numbered where
  holders := fun _ opened => absurd opened (show ¬ (0 : Int) ≤ -1 by decide)
  free := ⟨nofun, nofun⟩
  popped := nofun

theorem socketOf_of_negative (closed : (el.connections conn).fd < 0) : el.socketOf conn = [] := by
  unfold socketOf
  cases same : (el.connections conn).fd with
  | ofNat fd =>
      rw [same] at closed
      exact absurd closed (Int.not_lt.mpr (Int.natCast_nonneg fd))
  | negSucc fd => rfl

theorem socketOf_eq {fd : Nat} (opened : (el.connections conn).fd = fd) :
    el.socketOf conn = [fd] := by
  rw [socketOf, opened]
  rfl

theorem socketOf_congr (same : (later.connections conn).fd = (el.connections conn).fd) :
    later.socketOf conn = el.socketOf conn := by
  rw [socketOf, same, socketOf]

theorem installedSockets_congr (connections : later.connections = el.connections)
    (count : later.pool.count = el.pool.count) :
    later.installedSockets = el.installedSockets := by
  have sockets : later.socketOf = el.socketOf :=
    funext fun conn => socketOf_congr (by rw [connections])
  rw [installedSockets, count, sockets, installedSockets]

theorem perm_installedSockets (count : later.pool.count = el.pool.count)
    (inside : conn < el.pool.count)
    (others : ∀ other, other ≠ conn → later.connections other = el.connections other) :
    (el.socketOf conn ++ later.installedSockets).Perm
      (later.socketOf conn ++ el.installedSockets) := by
  unfold installedSockets
  rw [count]
  refine perm_flatMap_of_agrees List.nodup_range (List.mem_range.mpr inside) ?_
  intro other different
  exact socketOf_congr (by rw [others other different])

theorem subperm_put {held : Held} (confined : Held.Confined conn (el.hold conn) held)
    (numbered : el.Numbered) :
    (el.put conn held).installedSockets.Subperm el.installedSockets := by
  have count : (el.put conn held).pool.count = el.pool.count := confined.count
  have others : ∀ other, other ≠ conn →
      (el.put conn held).connections other = el.connections other := by
    intro other different
    simp [different]
  have own : (el.put conn held).connections conn = held.connection := by simp
  rcases confined.fd with gone | same
  · by_cases inside : conn < el.pool.count
    · have changed := perm_installedSockets count inside others
      have closed : (el.put conn held).socketOf conn = [] :=
        socketOf_of_negative (by rw [own]; exact gone)
      rw [closed, List.nil_append] at changed
      exact (List.sublist_append_right (el.socketOf conn) _).subperm.trans changed.subperm
    · have closed : (el.connections conn).fd < 0 :=
        Int.not_le.mp fun opened => inside (numbered.holders conn opened)
      unfold installedSockets
      rw [count]
      refine List.Perm.subperm (List.Perm.of_eq (List.flatMap_congr fun other among => ?_))
      have different : other ≠ conn := fun same => inside (same ▸ List.mem_range.mp among)
      exact socketOf_congr (by rw [others other different])
  · unfold installedSockets
    rw [count]
    refine List.Perm.subperm (List.Perm.of_eq (List.flatMap_congr fun other _ => ?_))
    apply socketOf_congr
    by_cases here : other = conn
    · rw [here, own]
      exact same
    · rw [others other here]

/-- What a step does to the numbers of the connections and to the sockets. -/
structure Holds (el : EventLoop) (action : Action) (later : EventLoop) : Prop where
  numbered : later.Numbered
  clients : (el.overwritten action ++ later.clients).Subperm (brought action ++ el.clients)

theorem Numbered.section {action : Action} {held : Held} (numbered : el.Numbered)
    (confined : Held.Confined conn (el.hold conn) held)
    (pool : later.pool = held.pool)
    (connections : later.connections = Function.update el.connections conn held.connection)
    (loop : later.loop = el.loop ∨ incomingSocket later.loop = [] ∧
      ∀ conn clifd, later.loop ≠ .popped conn clifd)
    (keeps : el.overwritten action = []) : Holds el action later where
  numbered := {
    holders := by
      intro other opened
      rw [pool, confined.count]
      apply numbered.holders other
      rw [connections] at opened
      by_cases same : other = conn
      · subst same
        rw [Function.update_self] at opened
        rcases confined.fd with gone | same
        · omega
        · exact same ▸ opened
      · rwa [Function.update_of_ne same] at opened
    free := by
      rw [pool, confined.count]
      refine confined.free _ (fun opened => ?_) numbered.free
      exact numbered.holders conn (Int.le_of_lt opened)
    popped := by
      intro other clifd at_loop
      rw [pool, confined.count]
      rcases loop with same | ⟨-, elsewhere⟩
      · exact numbered.popped other clifd (same ▸ at_loop)
      · exact absurd at_loop (elsewhere other clifd) }
  clients := by
    have installed : later.installedSockets = (el.put conn held).installedSockets :=
      installedSockets_congr connections (congrArg (·.count) pool)
    have fewer := subperm_put confined numbered
    have incoming : (incomingSocket later.loop).Subperm (incomingSocket el.loop) := by
      rcases loop with same | ⟨none, -⟩
      · rw [same]
      · rw [none]
        exact List.nil_subperm
    rw [keeps, List.nil_append, clients, installed]
    exact (fewer.append incoming).trans (List.sublist_append_right _ _).subperm

/-- `Accept` has popped a connection for the client that it has accepted. -/
theorem Numbered.pops {clifd : Int} {pool : ConnectionPool} (numbered : el.Numbered)
    (descriptor : 0 ≤ clifd) (popped : el.pool.freeListPop = (some conn, pool)) :
    Holds el (.accepted clifd) { el with pool := pool, loop := .popped conn clifd } := by
  obtain ⟨inside, below, grows⟩ := numbered.free.pop popped
  have more : el.pool.count ≤ pool.count := by omega
  have installed : installedSockets { el with pool := pool, loop := .popped conn clifd } =
      el.installedSockets := by
    rcases grows with same | ⟨created, grown⟩
    · exact installedSockets_congr rfl same
    · have closed : (el.connections el.pool.count).fd < 0 :=
        Int.not_le.mp fun opened => Nat.lt_irrefl _ (numbered.holders _ opened)
      change (List.range pool.count).flatMap el.socketOf = el.installedSockets
      rw [grown, List.range_succ, List.flatMap_append, List.flatMap_singleton,
        socketOf_of_negative closed, List.append_nil, installedSockets]
  refine ⟨⟨fun other opened => (numbered.holders other opened).trans_le more, below, ?_⟩, ?_⟩
  · intro other otherfd at_loop
    cases at_loop
    exact ⟨inside, descriptor⟩
  · change (clients _).Subperm ([clifd.toNat] ++ el.clients)
    rw [clients, installed, clients]
    refine (List.perm_append_comm.subperm).trans ?_
    exact (List.subperm_append_left _).mpr (List.sublist_append_left _ _).subperm

/-- `Accept` has installed a client, or has had to refuse it. -/
theorem Numbered.installs {clifd : Int} {addr : UInt32} {now : Int} {ready : Bool}
    (numbered : el.Numbered) (at_loop : el.loop = .popped conn clifd)
    (installed : later = { el.put conn (installIn config conn clifd addr now ready
        (el.hold conn)) with
      loop := .accepting
      installs := Function.update el.installs conn (el.installs conn + 1) }) :
    Holds el (.install conn clifd addr now ready) later := by
  obtain ⟨inside, descriptor⟩ := numbered.popped conn clifd at_loop
  have own : later.connections conn =
      (installIn config conn clifd addr now ready (el.hold conn)).connection := by
    simp [installed]
  have others : ∀ other, other ≠ conn → later.connections other = el.connections other := by
    intro other different
    simp [installed, different]
  have fd : (later.connections conn).fd < 0 ∨ (later.connections conn).fd = clifd := by
    rw [own]
    cases ready with
    | true => exact .inr rfl
    | false =>
        by_cases zero : clifd = 0
        · subst zero
          exact .inr (by simp [installIn, Connection.reset])
        · exact .inl (Connection.fd_reset zero)
  have pool : later.pool =
      (installIn config conn clifd addr now ready (el.hold conn)).pool := by
    rw [installed]
    rfl
  have count : later.pool.count = el.pool.count := by
    rw [pool]
    cases ready with
    | true => exact ConnectionPool.sameFree_activeListPush.count
    | false => rfl
  have free : later.pool.FreeBelow el.pool.count := by
    rw [pool]
    cases ready with
    | true => exact ConnectionPool.sameFree_activeListPush.freeBelow.mpr numbered.free
    | false => exact numbered.free.push inside
  have at_later : later.loop = .accepting := by rw [installed]
  refine ⟨⟨?_, ?_, ?_⟩, ?_⟩
  · intro other opened
    rw [count]
    by_cases same : other = conn
    · exact same ▸ inside
    · exact numbered.holders other (others other same ▸ opened)
  · rw [count]
    exact free
  · intro other otherfd popped
    rw [at_later] at popped
    cases popped
  · -- the connection gives up the socket that is lost, and takes up the one that has come
    have moved := perm_installedSockets count inside others
    have taken : (later.socketOf conn).Subperm [clifd.toNat] := by
      rcases fd with gone | same
      · rw [socketOf_of_negative gone]
        exact List.nil_subperm
      · have numeral : (later.connections conn).fd = clifd.toNat := by
          rw [same, Int.toNat_of_nonneg descriptor]
        rw [socketOf_eq numeral]
    have nothing : incomingSocket .accepting = [] := rfl
    have arrived : incomingSocket (.popped conn clifd) = [clifd.toNat] := rfl
    change (el.socketOf conn ++ later.clients).Subperm ([] ++ el.clients)
    rw [List.nil_append, clients, clients, at_later, at_loop, nothing, arrived, List.append_nil]
    refine (moved.subperm.trans ((List.subperm_append_right _).mpr taken)).trans ?_
    exact List.perm_append_comm.subperm

theorem step_install {clifd : Int} {addr : UInt32} {now : Int} {ready : Bool}
    (stepped : el.step config (.install conn clifd addr now ready) = some later) :
    el.loop = .popped conn clifd ∧
      later = { el.put conn (installIn config conn clifd addr now ready (el.hold conn)) with
        loop := .accepting
        installs := Function.update el.installs conn (el.installs conn + 1) } := by
  have at_loop := (installs_of_step stepped).1
  refine ⟨at_loop, ?_⟩
  simp only [step, stepLoop, stepWorker, stepWsWorker, stepTimeout, stepApplication,
    if_pos at_loop, Option.or_none, Option.some.injEq] at stepped
  exact stepped.symm

theorem Numbered.idle {action : Action} (numbered : el.Numbered)
    (same : el.pool.SameFree later.pool) (connections : later.connections = el.connections)
    (loop : ∀ conn clifd, later.loop = .popped conn clifd → later.loop = el.loop)
    (keeps : el.overwritten action = []) : Holds el action later where
  numbered := {
    holders := by
      rw [connections, same.count]
      exact numbered.holders
    free := by
      rw [same.count]
      exact same.freeBelow.mpr numbered.free
    popped := by
      intro conn clifd at_loop
      rw [same.count]
      exact numbered.popped conn clifd ((loop conn clifd at_loop).symm.trans at_loop) }
  clients := by
    have incoming : (incomingSocket later.loop).Subperm (incomingSocket el.loop) := by
      cases at_loop : later.loop with
      | popped conn clifd => rw [← loop conn clifd at_loop, at_loop]
      | between | accepting | moving | moved => exact List.nil_subperm
    rw [keeps, List.nil_append, clients, installedSockets_congr connections same.count]
    exact ((List.subperm_append_left _).mpr incoming).trans
      (List.sublist_append_right _ _).subperm

/-- Every step keeps the numbers, and no socket turns up that `accept` has not returned. -/
theorem Numbered.step {action : Action} (numbered : el.Numbered)
    (stepped : el.step config action = some later) : Holds el action later := by
  by_cases install : ∃ conn clifd addr now ready, action = .install conn clifd addr now ready
  · obtain ⟨conn, clifd, addr, now, ready, rfl⟩ := install
    obtain ⟨at_loop, installed⟩ := step_install stepped
    exact numbered.installs at_loop installed
  have keeps : el.overwritten action = [] := by
    unfold overwritten
    split
    · exact absurd ⟨_, _, _, _, _, rfl⟩ install
    · rfl
  cases EventLoop.effect_of_step stepped with
  | moves pool batch loop timeout same popped => exact numbered.idle same rfl popped keeps
  | pops conn clifd pool descriptor popped => exact numbered.pops descriptor popped
  | installs conn clifd addr now ready at_loop =>
      exact absurd ⟨conn, clifd, addr, now, ready, rfl⟩ install
  | writes conn writes onClose held writing =>
      exact numbered.section (Held.confined_onWrite writing) rfl rfl (.inl rfl) keeps
  | expires conn now onClose held reset =>
      exact numbered.section (Held.confined_resetConnection reset) rfl rfl (.inl rfl) keeps
  | sends conn data writes =>
      have confined : Held.Confined conn (el.hold conn)
          ⟨(((el.connections conn).writeString data).flush writes).2, el.pool⟩ :=
        .of_same ((Connection.fd_flush ..).trans (Connection.fd_writeString ..)) rfl
      exact numbered.section confined rfl rfl (.inl rfl) keeps
  | reads conn input read reading =>
      refine numbered.section (Held.confined_onRead reading) ?_ ?_ (.inr ⟨rfl, nofun⟩) keeps
      · cases read.pushed <;> rfl
      · cases read.pushed <;> rfl
  | takesTask | dropsTask | takesWsTask | dropsWsTask =>
      exact numbered.idle (.refl _) rfl (fun _ _ _ => rfl) keeps
  | runsTask input task held held_task descriptor worked =>
      exact numbered.section (Held.confined_work worked) rfl rfl (.inl rfl) keeps
  | runsWsTask input item held held_item descriptor worked =>
      exact numbered.section (Held.confined_wsWork worked) rfl rfl (.inl rfl) keeps

end Sockets

end EventLoop

end Mevent
