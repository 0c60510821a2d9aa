import Mevent.EventLoop.Leftovers
import Mevent.EventLoop.Messages

/-!
# Stranded output

As long as `OUT` is registered for what is left in a queue, and an event for both `IN` and
`OUT` is not spent on `IN`, an event or a task leads to the call of `Flush` that writes it.
-/

namespace Mevent

open Library

/-- A call to the socket would block when `Flush` stops. -/
theorem FlushSite.blocks_of_writesPartly {site : FlushSite} (sane : site.connection.Sane)
    (possible : site.connection.Feasible site.results) (steady : site.Steady)
    (partly : site.connection.WritesPartly site.results) : site.Blocks := by
  have unstalled : ∀ writing ∈ site.connection.writings site.results, ¬ writing.Stalls := by
    cases tls : site.connection.ssl with
    | true => exact steady tls
    | false =>
        obtain ⟨small, within⟩ := possible tls
        unfold Connection.writings at within ⊢
        by_cases closed : site.connection.fd < 0
        · rw [if_pos closed]
          exact fun _ listed => absurd listed List.not_mem_nil
        · rw [if_neg closed, tls] at within ⊢
          apply Connection.not_stalls _ within
          exact fun wb listed => sane.waiting tls wb listed (small wb listed)
  obtain ⟨unfailed, writing, listed, partly⟩ := partly
  by_contra unblocked
  refine unstalled writing listed ⟨unfailed writing listed, partly, ?_⟩
  exact fun blocks => unblocked ⟨writing, listed, blocks⟩

namespace EventLoop

variable {config : Config} {el later : EventLoop} {action : Action}

theorem enabled_of_poll {events : List Pool.Event}
    (stepped : el.step config (.poll events) = some later) :
    el.batch = [] ∧ later = { el with batch := events } := by
  rw [step, stepLoop] at stepped
  split at stepped
  next enabled =>
    rw [Option.some_or] at stepped
    cases stepped
    exact ⟨enabled.2.1, rfl⟩
  next => simp [stepWorker, stepWsWorker, stepTimeout, stepApplication] at stepped

/-- A fetched event for `OUT` is not dropped before `OnWrite`. -/
theorem mem_batch_of_stepLoop {conn : ConnId} (listed : .writable conn ∈ el.batch)
    (unwritten : ∀ writes onClose, action ≠ .onWrite conn writes onClose)
    (stepped : el.stepLoop config action = some later) : .writable conn ∈ later.batch := by
  have behind : ∀ event, el.batch.head? = some event → event ≠ .writable conn →
      .writable conn ∈ el.batch.tail := by
    intro event head different
    obtain ⟨rest, batch⟩ := List.head?_eq_some_iff.mp head
    rw [batch] at listed ⊢
    exact (List.mem_cons.mp listed).resolve_left different.symm
  cases action <;>
    simp only [stepLoop, Option.ite_none_right_eq_some, Option.some.injEq, Option.map_eq_some_iff,
      reduceCtorEq] at stepped
  case poll events =>
    obtain ⟨⟨-, empty, -⟩, -⟩ := stepped
    rw [empty] at listed
    cases listed
  case beginAccept =>
    obtain ⟨⟨-, head⟩, rfl⟩ := stepped
    exact behind _ head (by simp)
  case accepted clifd =>
    obtain ⟨-, rfl⟩ := stepped
    split
    · exact listed
    · exact listed
  case wouldBlock =>
    obtain ⟨-, rfl⟩ := stepped
    exact listed
  case install conn clifd addr now ready =>
    obtain ⟨-, rfl⟩ := stepped
    exact listed
  case updateErase other =>
    obtain ⟨⟨-, head⟩, rfl⟩ := stepped
    exact behind _ head (by simp)
  case updatePush other =>
    obtain ⟨-, rfl⟩ := stepped
    exact listed
  case onRead other input =>
    obtain ⟨-, read, -, rfl⟩ := stepped
    dsimp only
    rw [push_batch]
    exact listed
  case onWrite other writes onClose =>
    obtain ⟨⟨-, head⟩, held, -, rfl⟩ := stepped
    refine behind _ head ?_
    rintro same
    cases same
    exact unwritten writes onClose rfl

theorem batch_of_stepWorker (stepped : el.stepWorker config action = some later) :
    later.batch = el.batch := by
  cases action <;> simp only [stepWorker, Option.ite_none_right_eq_some, reduceCtorEq] at stepped
  case takeTask =>
    obtain ⟨-, taken⟩ := stepped
    split at taken
    · cases taken
    · cases taken
      rfl
  case runTask input =>
    split at stepped
    · cases stepped
    · split at stepped
      · cases stepped
        rfl
      · obtain ⟨held, -, same⟩ := Option.map_eq_some_iff.mp stepped
        subst same
        rfl

theorem batch_of_stepWsWorker (stepped : el.stepWsWorker config action = some later) :
    later.batch = el.batch := by
  cases action <;>
    simp only [stepWsWorker, Option.ite_none_right_eq_some, reduceCtorEq] at stepped
  case takeWsTask =>
    obtain ⟨-, taken⟩ := stepped
    split at taken
    · cases taken
    · cases taken
      rfl
  case runWsTask input =>
    split at stepped
    · cases stepped
    · split at stepped
      · cases stepped
        rfl
      · obtain ⟨held, -, same⟩ := Option.map_eq_some_iff.mp stepped
        subst same
        rfl

theorem batch_of_stepTimeout (stepped : el.stepTimeout config action = some later) :
    later.batch = el.batch := by
  cases action <;>
    simp only [stepTimeout, Option.ite_none_right_eq_some, Option.some.injEq,
      reduceCtorEq] at stepped
  case timeoutCheck now =>
    obtain ⟨-, rfl⟩ := stepped
    rfl
  case checkFirst | checkNext =>
    split at stepped
    · cases stepped
      rfl
    · cases stepped
  case peek =>
    split at stepped
    · split at stepped
      · cases stepped
        rfl
      · cases stepped
        rfl
    · cases stepped
  case expire onClose =>
    split at stepped
    next now conn _ =>
      unfold checkTimeout at stepped
      simp only at stepped
      split at stepped
      · split at stepped
        · obtain ⟨held, -, same⟩ := Option.map_eq_some_iff.mp stepped
          subst same
          rfl
        · cases stepped
          rfl
      · cases stepped
        rfl
    next => cases stepped

theorem mem_batch_of_step {conn : ConnId} (listed : .writable conn ∈ el.batch)
    (unwritten : ∀ writes onClose, action ≠ .onWrite conn writes onClose)
    (stepped : el.step config action = some later) : .writable conn ∈ later.batch := by
  rcases Option.or_eq_some_iff.mp stepped with loop | ⟨-, stepped⟩
  · exact mem_batch_of_stepLoop listed unwritten loop
  rcases Option.or_eq_some_iff.mp stepped with worker | ⟨-, stepped⟩
  · rwa [batch_of_stepWorker worker]
  rcases Option.or_eq_some_iff.mp stepped with wsWorker | ⟨-, stepped⟩
  · rwa [batch_of_stepWsWorker wsWorker]
  rcases Option.or_eq_some_iff.mp stepped with timeout | ⟨-, application⟩
  · rwa [batch_of_stepTimeout timeout]
  · cases action with
    | safeWrite conn data writes =>
        cases application
        exact listed
    | _ => simp [stepApplication] at application

theorem locked_of_onWrite {conn : ConnId} {writes : List WriteResult} {onClose : List HandlerOp}
    (stepped : el.step config (.onWrite conn writes onClose) = some later) :
    ∃ locked, el.lockedSection config (.onWrite conn writes onClose) = some locked ∧
      locked.conn = conn :=
  ⟨_, if_pos (enabled_of_onWrite stepped), rfl⟩

theorem locked_of_onRead {conn : ConnId} {input : ReadInput}
    (stepped : el.step config (.onRead conn input) = some later) :
    ∃ locked, el.lockedSection config (.onRead conn input) = some locked ∧ locked.conn = conn :=
  ⟨_, if_pos (enabled_of_onRead stepped), rfl⟩

theorem conn_of_flushSite {locked : LockedSection} {site : FlushSite}
    (found : el.lockedSection config action = some locked)
    (flushes : el.flushSite config action = some site) : site.conn = locked.conn := by
  cases locks_of_lockedSection found with
  | reads =>
      obtain ⟨reply, -, rfl⟩ := Option.map_eq_some_iff.mp flushes
      rfl
  | writes =>
      cases flushes
      rfl
  | works input task held_task descriptor =>
      rw [flushSite, held_task, Option.bind_some, if_neg descriptor] at flushes
      obtain ⟨reply, -, rfl⟩ := Option.map_eq_some_iff.mp flushes
      rfl
  | wsWorks input item held_item descriptor =>
      rw [flushSite, held_item, Option.bind_some, if_neg descriptor] at flushes
      obtain ⟨reply, -, rfl⟩ := Option.map_eq_some_iff.mp flushes
      rfl
  | expires => cases flushes

end EventLoop

namespace Polled

variable {config : Config} {polled : Polled}

/-- The call of `Flush` in a step is possible. -/
def Feasible (config : Config) (polled : Polled) : PollAction → Prop
  | .run action _ => ∀ site ∈ polled.el.flushSite config action,
      site.connection.Feasible site.results
  | .poll _ | .rise _ => True

instance (config : Config) (polled : Polled) : DecidablePred (polled.Feasible config)
  | .run action _ => inferInstanceAs (Decidable (∀ site ∈ polled.el.flushSite config action,
      site.connection.Feasible site.results))
  | .poll _ | .rise _ => inferInstanceAs (Decidable True)

/-- `Accept` finds a closed connection.  `OnRead` is not called for an event with both masks
while the socket takes what is in the queue.  `OUT` is registered when the answer of `OnRead`
or a call of the application is not written at once. -/
def AttendsTo (config : Config) (polled : Polled) : Action → Prop
  | .install conn clifd _ _ _ => 0 < clifd ∧ (polled.el.connections conn).fd < 0
  | .onRead conn input =>
      (polled.merged conn = true → (polled.el.connections conn).writeBufferChain = [] ∨
        (polled.sockets conn).ready = false) ∧
      ∀ reply ∈ (polled.el.hold conn).readReply config.limits input,
        reply.WritesPartly input.writes → (polled.el.connections conn).evWritable = true
  | .safeWrite conn data writes =>
      (polled.el.connections conn).fd < 0 ∨
        ((polled.el.connections conn).writeString data).WritesAll writes ∨
          ((polled.el.connections conn).writeString data).WritesPartly writes ∧
            (polled.el.connections conn).evWritable = true
  | _ => True

instance (config : Config) (polled : Polled) : DecidablePred (polled.AttendsTo config)
  | .install .. => inferInstanceAs (Decidable (_ ∧ _))
  | .onRead conn input => inferInstanceAs (Decidable ((_ → _ ∨ _) ∧
      ∀ reply ∈ (polled.el.hold conn).readReply config.limits input, _ → _))
  | .safeWrite .. => inferInstanceAs (Decidable (_ ∨ _ ∨ _ ∧ _))
  | .poll _ | .beginAccept | .accepted _ | .wouldBlock | .updateErase _ | .updatePush _
  | .onWrite .. | .takeTask | .runTask _ | .takeWsTask | .runWsTask _ | .timeoutCheck _
  | .checkFirst | .peek | .expire _ | .checkNext => inferInstanceAs (Decidable True)

/-- What a step leaves in a queue is attended to. -/
def Attends (config : Config) (polled : Polled) : PollAction → Prop
  | .run action _ => polled.AttendsTo config action ∧
      ∀ site ∈ polled.el.flushSite config action, site.Steady
  | .poll _ | .rise _ => True

instance (config : Config) (polled : Polled) : DecidablePred (polled.Attends config)
  | .run action _ => inferInstanceAs (Decidable (polled.AttendsTo config action ∧
      ∀ site ∈ polled.el.flushSite config action, site.Steady))
  | .poll _ | .rise _ => inferInstanceAs (Decidable True)

/-- `OUT` is registered if `ev_writable_` is set, and what is left in the queue is watched. -/
structure Served (connection : Connection) (socket : Readiness) (fetched : Prop) : Prop where
  sane : connection.Sane
  interest : ¬ connection.fd < 0 → socket.interest = connection.evWritable
  watched : connection.writeBufferChain ≠ [] → socket.Watched fetched

section Served

variable {connection : Connection} {socket : Readiness} {fetched : Prop}

theorem served_of_closed (sane : connection.Sane) (closed : connection.fd < 0) :
    Served connection socket fetched where
  sane := sane
  interest opened := absurd closed opened
  watched output := absurd (sane.closed closed).1 output

/-- `OUT` is registered for what is left in a queue. -/
theorem Served.registered (served : Served connection socket fetched)
    (output : connection.writeBufferChain ≠ []) : connection.evWritable = true := by
  have opened : ¬ connection.fd < 0 := fun closed => output (served.sane.closed closed).1
  exact (served.interest opened).symm.trans (served.watched output).interest

end Served

def Attended (polled : Polled) : Prop :=
  ∀ conn, Served (polled.el.connections conn) (polled.sockets conn) (polled.Fetched conn)

theorem not_stranded_of_attended (attended : polled.Attended) (conn : ConnId) :
    ¬ polled.Stranded conn := by
  intro stranded
  rcases ((attended conn).watched stranded.output).signal stranded.ready with signalled | fetched
  · exact stranded.unsignalled signalled
  · exact stranded.unfetched fetched

theorem attended_initial : (initial config).Attended := by
  have closed : Connection.new.fd < 0 := by decide
  exact fun _ => served_of_closed Connection.sane_new closed

section Flushed

variable {action : Action} {still : Bool} {conn : ConnId}

theorem interest_flushed :
    (polled.flushed config action still conn).interest = (polled.sockets conn).interest := by
  unfold flushed
  split
  · split
    · rfl
    · rfl
  · rfl

theorem watched_flushed {fetched : Prop} (watched : (polled.sockets conn).Watched fetched) :
    (polled.flushed config action still conn).Watched fetched := by
  unfold flushed
  split
  · split
    · exact watched.weaken _
    · exact watched
  · exact watched

theorem ready_flushed {site : FlushSite}
    (flushes : polled.el.flushSite config action = some site) (at_conn : site.conn = conn)
    (blocks : site.Blocks) : (polled.flushed config action still conn).ready = false := by
  unfold flushed
  rw [flushes]
  dsimp only
  rw [if_pos at_conn]
  simp [Readiness.weaken, blocks]

theorem served_settle {later : EventLoop} {fetched : Prop}
    (before : Served (polled.el.connections conn) (polled.sockets conn) (polled.Fetched conn))
    (sane : (later.connections conn).Sane)
    (installs : later.installs conn = polled.el.installs conn)
    (fd : (later.connections conn).fd = (polled.el.connections conn).fd)
    (evWritable : (later.connections conn).evWritable = (polled.el.connections conn).evWritable ∨
      (later.connections conn).evWritable = true)
    (output : (later.connections conn).writeBufferChain ≠ [] →
      (later.connections conn).evWritable = true ∧
        ((polled.flushed config action still conn).ready = true →
          (polled.flushed config action still conn).signalled = true ∨ fetched)) :
    Served (later.connections conn) (polled.settle config later action still conn) fetched := by
  by_cases closed : (later.connections conn).fd < 0
  · exact served_of_closed sane closed
  · unfold settle
    rw [if_neg closed, if_neg (not_not.mpr installs)]
    split
    next registers => exact ⟨sane, fun _ => registers.2.symm, fun _ => Readiness.watched_register⟩
    next registered =>
      have interest : (polled.flushed config action still conn).interest =
          (later.connections conn).evWritable := by
        rw [interest_flushed, before.interest (fd ▸ closed)]
        rcases evWritable with same | sets
        · exact same.symm
        · have set_before : (polled.el.connections conn).evWritable ≠ false :=
            fun unset => registered ⟨unset, sets⟩
          rw [sets]
          exact Bool.eq_true_of_not_eq_false set_before
      refine ⟨sane, fun _ => interest, fun nonempty => ?_⟩
      obtain ⟨registered, signal⟩ := output nonempty
      exact ⟨interest.trans registered, signal⟩

theorem served_kept {later : EventLoop} {fetched : Prop}
    (before : Served (polled.el.connections conn) (polled.sockets conn) (polled.Fetched conn))
    (connection : later.connections conn = polled.el.connections conn)
    (installs : later.installs conn = polled.el.installs conn)
    (kept : polled.Fetched conn → fetched) :
    Served (later.connections conn) (polled.settle config later action still conn) fetched := by
  refine served_settle before (connection ▸ before.sane) installs (by rw [connection])
    (.inl (by rw [connection])) ?_
  intro nonempty
  rw [connection] at nonempty ⊢
  refine ⟨before.registered nonempty, fun ready => ?_⟩
  exact ((watched_flushed (before.watched nonempty)).signal ready).imp_right kept

theorem served_outcome {later : EventLoop} {fetched : Prop}
    (before : Served (polled.el.connections conn) (polled.sockets conn) (polled.Fetched conn))
    (sane : (later.connections conn).Sane)
    (installs : later.installs conn = polled.el.installs conn)
    (outcome : EventLoop.Outcome (polled.el.connections conn)
      (polled.el.flushSite config action) (later.connections conn))
    (at_conn : ∀ site, polled.el.flushSite config action = some site → site.conn = conn)
    (possible : polled.Feasible config (.run action still))
    (attends : polled.Attends config (.run action still))
    (kept : polled.el.flushSite config action = none →
      (polled.el.connections conn).writeBufferChain ≠ [] → (polled.sockets conn).ready = true →
        polled.Fetched conn → fetched) :
    Served (later.connections conn) (polled.settle config later action still conn) fetched := by
  cases outcome with
  | closed gone => exact served_of_closed sane gone
  | kept unflushed fd chain evWritable =>
      refine served_settle before sane installs fd (.inl evWritable) ?_
      intro nonempty
      rw [chain] at nonempty
      have alone : polled.flushed config action still conn = polled.sockets conn := by
        rw [flushed, unflushed]
      rw [alone, evWritable]
      refine ⟨before.registered nonempty, fun ready => ?_⟩
      exact ((before.watched nonempty).signal ready).imp_right (kept unflushed nonempty ready)
  | emptied fd evWritable empty =>
      exact served_settle before sane installs fd evWritable
        (fun nonempty => absurd empty nonempty)
  | waits site flushes site_sane partly fd evWritable =>
      have blocks := FlushSite.blocks_of_writesPartly site_sane (possible site flushes)
        (attends.2 site flushes) partly
      have full : (polled.flushed config action still conn).ready = false :=
        ready_flushed flushes (at_conn site flushes) blocks
      refine served_settle before sane installs fd (.inr evWritable) ?_
      refine fun _ => ⟨evWritable, fun ready => ?_⟩
      rw [full] at ready
      cases ready

end Flushed

section Step

variable {later : EventLoop} {action : Action} {still : Bool} {conn : ConnId}

/-- An event for `OUT` that has been fetched is not lost before `OnWrite`, unless it is
spent on `IN`. -/
theorem fetched_run (fetched : polled.Fetched conn)
    (stepped : polled.el.step config action = some later)
    (unwritten : ∀ writes onClose, action ≠ .onWrite conn writes onClose)
    (unmerged : ∀ input, action = .onRead conn input → ¬ polled.merged conn = true) :
    .writable conn ∈ later.batch ∨ mergedAfter polled.merged action conn = true := by
  rcases fetched with listed | merged
  · exact .inl (EventLoop.mem_batch_of_step listed unwritten stepped)
  · refine .inr ?_
    cases action with
    | onRead other input =>
        have apart : conn ≠ other := by
          rintro rfl
          exact unmerged input rfl merged
        rw [mergedAfter, Function.update_of_ne apart]
        exact merged
    | _ => exact merged

theorem served_apart (attended : polled.Attended)
    (stepped : polled.el.step config action = some later)
    (connection : later.connections conn = polled.el.connections conn)
    (installs : later.installs conn = polled.el.installs conn)
    (apart : ∀ locked, polled.el.lockedSection config action = some locked →
      locked.conn ≠ conn) :
    Served (later.connections conn) (polled.settle config later action still conn)
      (.writable conn ∈ later.batch ∨ mergedAfter polled.merged action conn = true) := by
  refine served_kept (attended conn) connection installs fun fetched => ?_
  apply fetched_run fetched stepped
  · rintro writes onClose rfl
    obtain ⟨locked, found, same⟩ := EventLoop.locked_of_onWrite stepped
    exact apart locked found same
  · rintro input rfl
    obtain ⟨locked, found, same⟩ := EventLoop.locked_of_onRead stepped
    exact absurd same (apart locked found)

/-- `Accept` brings a client to a closed connection. -/
theorem served_install {clifd : Int} {addr : UInt32} {now : Int} {ready : Bool} {fetched : Prop}
    (sane : (polled.el.connections conn).Sane) (descriptor : 0 < clifd)
    (closed : (polled.el.connections conn).fd < 0)
    (connection : later.connections conn =
      (EventLoop.installIn config conn clifd addr now ready (polled.el.hold conn)).connection)
    (installs : later.installs conn = polled.el.installs conn + 1) :
    Served (later.connections conn) (polled.settle config later action still conn) fetched := by
  obtain ⟨empty, unregistered⟩ := sane.closed closed
  have opened : ∀ connection : Connection, connection.fd = clifd →
      connection.writeBufferChain = (polled.el.connections conn).writeBufferChain →
      connection.Sane := by
    intro connection fd chain
    refine ⟨?_, fun gone => ?_, fun _ wb listed => ?_⟩
    · rw [fd]
      exact Int.ne_of_gt descriptor
    · rw [fd] at gone
      exact absurd gone (Int.not_lt.mpr (Int.le_of_lt descriptor))
    · rw [chain, empty] at listed
      cases listed
  rw [EventLoop.installIn] at connection
  cases ready with
  | true =>
      rw [if_pos rfl] at connection
      unfold settle
      rw [installs, connection]
      rw [if_neg (Int.not_lt.mpr (Int.le_of_lt descriptor)), if_pos (Nat.succ_ne_self _)]
      exact ⟨opened _ rfl rfl, fun _ => unregistered.symm, fun output => absurd empty output⟩
  | false =>
      rw [if_neg Bool.false_ne_true] at connection
      rw [connection]
      have installed : Connection.Sane { polled.el.connections conn with
          activeTime := now
          fd := clifd
          req := { (polled.el.connections conn).req with addr := addr } } := opened _ rfl rfl
      exact served_of_closed installed.reset (Connection.fd_reset installed.closable)

/-- A call of the application writes everything, or leaves the rest with `OUT` registered. -/
theorem outcome_safeWrite {data : Bytes} {writes : List WriteResult}
    (sane : (polled.el.connections conn).Sane)
    (possible : polled.Feasible config (.run (.safeWrite conn data writes) still))
    (attends : polled.Attends config (.run (.safeWrite conn data writes) still)) :
    (((polled.el.connections conn).writeString data).flush writes).2.Sane ∧
      EventLoop.Outcome (polled.el.connections conn)
        (polled.el.flushSite config (.safeWrite conn data writes))
        (((polled.el.connections conn).writeString data).flush writes).2 := by
  have queues := Connection.queues_writeString (polled.el.connections conn) data
  have written_sane := queues.sane sane
  refine ⟨Connection.sane_flush written_sane (possible _ rfl), ?_⟩
  have fd : (((polled.el.connections conn).writeString data).flush writes).2.fd =
      (polled.el.connections conn).fd := (Connection.fd_flush _ _).trans queues.fd
  by_cases closed : (polled.el.connections conn).fd < 0
  · exact .closed (fd ▸ closed)
  · rcases attends.1 with gone | all | ⟨partly, registered⟩
    · exact absurd gone closed
    · rw [Connection.flush_of_writesAll (queues.fd ▸ closed) all]
      exact .emptied queues.fd (.inl queues.evWritable) rfl
    · have set : (((polled.el.connections conn).writeString data).flush writes).2.evWritable =
          true := by
        rw [Connection.evWritable_flush, queues.evWritable, registered]
      exact .waits _ rfl written_sane partly fd set

theorem served_locked (attended : polled.Attended)
    (possible : polled.Feasible config (.run action still))
    (attends : polled.Attends config (.run action still)) {locked : LockedSection}
    (found : polled.el.lockedSection config action = some locked)
    (stepped : polled.el.step config action = some later) :
    Served (later.connections conn) (polled.settle config later action still conn)
      (.writable conn ∈ later.batch ∨ mergedAfter polled.merged action conn = true) := by
  have back := EventLoop.putsBack_step found
  unfold EventLoop.PutsBack at back
  split at back
  next held result =>
    obtain ⟨other, taken, connections, installs⟩ := back
    cases taken.symm.trans stepped
    by_cases same : conn = locked.conn
    · subst same
      have before := attended locked.conn
      have answers : ∀ conn input, action = .onRead conn input →
          ∀ reply ∈ (polled.el.hold conn).readReply config.limits input,
            reply.WritesPartly input.writes → (polled.el.connections conn).evWritable = true := by
        rintro conn input rfl
        exact attends.1.2
      have outcome := EventLoop.outcome_lockedSection found result before.sane
        before.registered possible answers
      have connection : later.connections locked.conn = held.connection := by
        rw [connections, Function.update_self]
      refine served_outcome before (connection ▸ outcome.1) (by rw [installs])
        (connection ▸ outcome.2) (fun site => EventLoop.conn_of_flushSite found) possible
          attends ?_
      intro unflushed nonempty ready fetched
      apply fetched_run fetched stepped
      · rintro writes onClose rfl
        cases unflushed
      · rintro input rfl merged
        rcases attends.1.1 merged with empty | full
        · exact nonempty empty
        · rw [full] at ready
          cases ready
    · refine served_apart attended stepped ?_ (by rw [installs]) ?_
      · rw [connections, Function.update_of_ne same]
      · intro other also
        cases found.symm.trans also
        exact Ne.symm same
  next => cases back.symm.trans stepped

theorem served_unlocked (attended : polled.Attended)
    (possible : polled.Feasible config (.run action still))
    (attends : polled.Attends config (.run action still))
    (found : polled.el.lockedSection config action = none)
    (stepped : polled.el.step config action = some later) :
    Served (later.connections conn) (polled.settle config later action still conn)
      (.writable conn ∈ later.batch ∨ mergedAfter polled.merged action conn = true) := by
  have apart : ∀ locked, polled.el.lockedSection config action = some locked →
      locked.conn ≠ conn := by
    intro locked also
    cases found.symm.trans also
  cases EventLoop.unlocked_of_step found stepped with
  | same connections installs =>
      exact served_apart attended stepped (by rw [connections]) (by rw [installs]) apart
  | installs other clifd addr now ready connections installs =>
      by_cases same : conn = other
      · subst same
        apply served_install (attended conn).sane attends.1.1 attends.1.2
        · rw [connections, Function.update_self]
        · rw [installs, Function.update_self]
      · refine served_apart attended stepped ?_ ?_ apart
        · rw [connections, Function.update_of_ne same]
        · rw [installs, Function.update_of_ne same]
  | sends other data writes connections installs =>
      by_cases same : conn = other
      · subst same
        have outcome := outcome_safeWrite (attended conn).sane possible attends
        have connection : later.connections conn =
            (((polled.el.connections conn).writeString data).flush writes).2 := by
          rw [connections, Function.update_self]
        refine served_outcome (attended conn) (connection ▸ outcome.1) (by rw [installs])
          (connection ▸ outcome.2) ?_ possible attends ?_
        · intro site flushes
          rw [← Option.some.inj flushes]
        · exact fun unflushed => absurd unflushed (Option.some_ne_none _)
      · refine served_apart attended stepped ?_ (by rw [installs]) apart
        rw [connections, Function.update_of_ne same]

end Step

variable {later : Polled}

theorem Attended.run {action : Action} {still : Bool} (attended : polled.Attended)
    (possible : polled.Feasible config (.run action still))
    (attends : polled.Attends config (.run action still))
    (stepped : polled.step config (.run action still) = some later) : later.Attended := by
  obtain ⟨el, taken, rfl⟩ := taken_of_run stepped
  intro conn
  cases found : polled.el.lockedSection config action with
  | none => exact served_unlocked attended possible attends found taken
  | some locked => exact served_locked attended possible attends found taken

theorem fetched_of_writable {events : List PolledEvent} {conn : ConnId}
    (listed : conn ∈ events.filterMap PolledEvent.writable) :
    .writable conn ∈ events.map PolledEvent.taken ∨ .ready conn .both ∈ events := by
  obtain ⟨event, member, writable⟩ := List.mem_filterMap.mp listed
  cases event with
  | listening => cases writable
  | ready other mask =>
      cases mask with
      | readable => cases writable
      | writable =>
          cases writable
          exact .inl (List.mem_map_of_mem member)
      | both =>
          cases writable
          exact .inr member

theorem Attended.poll {events : List PolledEvent} (attended : polled.Attended)
    (stepped : polled.step config (.poll events) = some later) : later.Attended := by
  obtain ⟨-, taken⟩ := Option.ite_none_right_eq_some.mp stepped
  obtain ⟨el, polls, same⟩ := Option.map_eq_some_iff.mp taken
  subst same
  obtain ⟨empty, rfl⟩ := EventLoop.enabled_of_poll polls
  intro conn
  have before := attended conn
  by_cases listed : conn ∈ events.filterMap PolledEvent.writable
  · refine ⟨before.sane, ?_, fun output => ?_⟩
    · simp only [if_pos listed]
      exact before.interest
    · simp only [if_pos listed]
      refine (before.watched output).fetch fun _ => ?_
      refine (fetched_of_writable listed).imp_right fun both => ?_
      simp [both]
  · refine ⟨before.sane, ?_, fun output => ?_⟩
    · simp only [if_neg listed]
      exact before.interest
    · simp only [if_neg listed]
      refine (before.watched output).mono ?_
      rintro (listed | merged)
      · rw [empty] at listed
        cases listed
      · refine .inr ?_
        simp [merged]

theorem Attended.rise {conn : ConnId} (attended : polled.Attended)
    (stepped : polled.step config (.rise conn) = some later) : later.Attended := by
  obtain ⟨-, same⟩ := Option.ite_none_right_eq_some.mp stepped
  cases same
  intro other
  have before := attended other
  by_cases same : other = conn
  · subst same
    refine ⟨before.sane, ?_, fun output => ?_⟩
    · simp only [Function.update_self]
      exact before.interest
    · simp only [Function.update_self]
      exact (before.watched output).rise
  · refine ⟨before.sane, ?_, fun output => ?_⟩
    · simp only [Function.update_of_ne same]
      exact before.interest
    · simp only [Function.update_of_ne same]
      exact before.watched output

theorem Attended.step {action : PollAction} (attended : polled.Attended)
    (possible : polled.Feasible config action) (attends : polled.Attends config action)
    (stepped : polled.step config action = some later) : later.Attended := by
  cases action with
  | poll events => exact attended.poll stepped
  | run action still => exact attended.run possible attends stepped
  | rise conn => exact attended.rise stepped

/-- As long as what a step leaves in a queue is attended to, no output is stranded. -/
theorem not_stranded_of_attends
    (reached : Reaches (step config)
      (fun polled action => polled.Feasible config action ∧ polled.Attends config action)
      (initial config) polled) (conn : ConnId) : ¬ polled.Stranded conn := by
  have attended : polled.Attended :=
    reached.invariant attended_initial
      (fun _ _ _ attended allowed stepped => attended.step allowed.1 allowed.2 stepped)
  exact not_stranded_of_attended attended conn

def ofAction : Action → PollAction
  | .poll events => .poll <| events.map fun
      | .listening => .listening
      | .readable conn => .ready conn .readable
      | .writable conn => .ready conn .writable
  | action => .run action true

def drains : List PollAction := (EventLoop.joining 5 1).map ofAction ++ [.rise 0]

/-- There is an event for what is left of the handshake. -/
theorem not_stranded_drains : ∃ polled : Polled,
    (polled.el.connections 0).writeBufferChain ≠ [] ∧ (polled.sockets 0).ready = true ∧
      ¬ polled.Stranded 0 := by
  have left : ∃ polled ∈ replay (step EventLoop.chatConfig)
      (fun polled action => polled.Feasible EventLoop.chatConfig action ∧
        polled.Attends EventLoop.chatConfig action)
      (initial EventLoop.chatConfig) drains,
        (polled.el.connections 0).writeBufferChain ≠ [] ∧ (polled.sockets 0).ready = true := by
    decide +kernel
  obtain ⟨polled, replayed, output, ready⟩ := left
  exact ⟨polled, output, ready, not_stranded_of_attends (reaches_of_replay replayed) 0⟩

/-- A client opens a WebSocket; its socket is full when the application sends it the text
frame `a`, and takes output again. -/
def sendsAtOnce : List PollAction :=
  (EventLoop.accepting 5 1 ++ EventLoop.reading (EventLoop.arrival 1 EventLoop.upgradeRequest) ++
    ([.takeTask, .runTask { EventLoop.chatHandler with writes := [.accepted 181] },
      .safeWrite 0 [0x81, 0x01, 97] [.failed .other .again]] : List Action)).map ofAction ++
    [.rise 0]

/-- The frame is left in the queue, and `OUT` has not been registered. -/
theorem stranded_sendsAtOnce :
    ¬ ∀ (config : Config) (polled : Polled),
      Reaches (step config) (fun polled action => polled.Feasible config action)
        (initial config) polled → ∀ conn, ¬ polled.Stranded conn := by
  intro claim
  have stranded : ∃ polled ∈ replay (step EventLoop.chatConfig)
      (fun polled action => polled.Feasible EventLoop.chatConfig action)
      (initial EventLoop.chatConfig) sendsAtOnce, polled.Stranded 0 := by decide +kernel
  obtain ⟨polled, replayed, stranded⟩ := stranded
  exact claim EventLoop.chatConfig polled (reaches_of_replay replayed) 0 stranded

end Polled

end Mevent
