import Mevent.EventLoop.Closing

/-!
# Sections and the time of a connection

`active_time_` is set by `Accept` and `ReadData` and cleared by `Reset`.  Under a
connection's lock a thread resets it once or leaves its descriptor, its time and the pool
alone, unless `on_close_func_` resets it again.
-/

namespace Mevent

/-- Whatever `on_close_func_` a `Close` leads to does not close the connection again. -/
def HandlerOp.ClosesOnce : HandlerOp → Prop
  | .call _ => True
  | .close onClose => NoClose onClose

instance : DecidablePred HandlerOp.ClosesOnce
  | .call _ => inferInstanceAs (Decidable True)
  | .close onClose => inferInstanceAs (Decidable (NoClose onClose))

/-- A handler whose calls of `Close` reset the connection once each. -/
def ClosesOnce (ops : List HandlerOp) : Prop := ∀ op ∈ ops, op.ClosesOnce

instance (ops : List HandlerOp) : Decidable (ClosesOnce ops) :=
  inferInstanceAs (Decidable (∀ op ∈ ops, op.ClosesOnce))

namespace Connection

variable {limits : Limits} {conn later : Connection}

@[simp]
theorem activeTime_writeString (conn : Connection) (str : Bytes) :
    (conn.writeString str).activeTime = conn.activeTime := by
  unfold writeString
  split
  · rfl
  · rfl

@[simp]
theorem activeTime_flush (conn : Connection) (results : List WriteResult) :
    (conn.flush results).2.activeTime = conn.activeTime := by
  unfold flush
  split
  · rfl
  · rfl

@[simp]
theorem activeTime_writeErrorMessage (conn : Connection) (code : Int) (date : Bytes) :
    (conn.writeErrorMessage code date).activeTime = conn.activeTime :=
  activeTime_writeString conn _

@[simp]
theorem activeTime_flushResponse (conn : Connection) (date : Bytes) :
    (conn.flushResponse date).activeTime = conn.activeTime := by
  have folded : ∀ (strs : List Bytes) (conn : Connection),
      (strs.foldl writeString conn).activeTime = conn.activeTime := by
    intro strs
    induction strs with
    | nil => exact fun _ => rfl
    | cons str strs inductionHypothesis =>
        intro conn
        exact (inductionHypothesis (conn.writeString str)).trans (activeTime_writeString conn str)
  exact folded _ _

theorem activeTime_call {call : Call} (called : conn.call limits call = some later) :
    later.activeTime = conn.activeTime := by
  cases call with
  | parseHeader | parsePostForm =>
      obtain ⟨req, -, same⟩ := Option.map_eq_some_iff.mp called
      subst same
      rfl
  | upgrade date =>
      cases called
      unfold upgrade
      split
      · rfl
      · exact activeTime_writeString _ _
  | writeErrorMessage code date =>
      cases called
      exact activeTime_writeErrorMessage conn code date
  | sendPong str | sendPing str | writeString str =>
      cases called
      exact activeTime_writeString conn _
  | _ =>
      cases called
      rfl

/-- `ReadData` stamps a connection that has a descriptor. -/
theorem activeTime_readData {now : Int} {reads : List ReadResult} {read : ReadDataResult}
    (received : conn.readData limits now reads = some read) :
    read.conn.activeTime = if conn.fd < 0 then conn.activeTime else now := by
  unfold readData at received
  split at received
  next closed =>
    cases received
    exact (if_pos closed).symm
  next opened =>
    rw [if_neg opened]
    split at received
    · obtain ⟨ws, -, same⟩ := Option.map_eq_some_iff.mp received
      subst same
      rfl
    · obtain ⟨req, -, same⟩ := Option.map_eq_some_iff.mp received
      subst same
      rfl

end Connection

namespace Held

variable {limits : Limits} {conn : ConnId} {held middle later : Held}

structure Untouched (held later : Held) : Prop where
  fd : later.connection.fd = held.connection.fd
  activeTime : later.connection.activeTime = held.connection.activeTime
  pool : later.pool = held.pool

structure Resets (conn : ConnId) (held later : Held) : Prop where
  opened : 0 < held.connection.fd
  closed : later.connection.fd < 0
  activeTime : later.connection.activeTime = 0
  pool : later.pool = (held.pool.freeListPush conn).activeListErase conn

/-- The connection has been reset once, or not at all. -/
def Settles (conn : ConnId) (held later : Held) : Prop :=
  held.Untouched later ∨ held.Resets conn later

theorem Untouched.refl (held : Held) : held.Untouched held := ⟨rfl, rfl, rfl⟩

theorem Untouched.settles (first : held.Untouched middle) (second : middle.Settles conn later) :
    held.Settles conn later := by
  rcases second with same | reset
  · exact .inl ⟨same.fd.trans first.fd, same.activeTime.trans first.activeTime,
      same.pool.trans first.pool⟩
  · exact .inr ⟨first.fd ▸ reset.opened, reset.closed, reset.activeTime, first.pool ▸ reset.pool⟩

theorem Settles.trans (first : held.Settles conn middle) (second : middle.Settles conn later) :
    held.Settles conn later := by
  rcases first with same | reset
  · exact same.settles second
  · rcases second with same | again
    · exact .inr ⟨reset.opened, same.fd ▸ reset.closed, same.activeTime.trans reset.activeTime,
        same.pool.trans reset.pool⟩
    · exact absurd again.opened (Int.not_lt.mpr (Int.le_of_lt reset.closed))

theorem Freed.resets (freed : Freed conn held later) : held.Resets conn later := by
  obtain ⟨opened, new, pool⟩ := freed
  refine ⟨opened, ?_, ?_, pool⟩
  · rw [new]
    decide
  · rw [new]
    rfl

theorem settles_resetConnection {onClose : List HandlerOp} (noClose : NoClose onClose)
    (reset : held.resetConnection limits conn onClose = some later) :
    held.Settles conn later := by
  rcases resetConnection_of_noClose noClose reset with same | freed
  · exact .inl (same ▸ .refl held)
  · exact .inr freed.resets

/-- `ResetConnection` has an effect, unless the descriptor is 0. -/
theorem closed_of_resetConnection {onClose : List HandlerOp}
    (reset : held.resetConnection limits conn onClose = some later)
    (descriptor : held.connection.fd ≠ 0) : later.connection.fd < 0 := by
  rcases resetConnection_cases reset with closed | same
  · exact closed
  · rw [same]
    refine Int.lt_iff_le_and_ne.mpr ⟨?_, descriptor⟩
    by_contra opened
    have released := released_of_close (Int.not_le.mp opened) reset
    rw [same] at released
    exact opened (Int.le_of_lt released.fd)

theorem settles_unlessAgain {onClose : List HandlerOp} {status : ConnStatus}
    (noClose : NoClose onClose)
    (reset : held.resetUnlessAgain limits conn onClose status = some later) :
    held.Settles conn later := by
  rcases resetUnlessAgain_of_noClose noClose reset with same | freed
  · exact .inl (same ▸ .refl held)
  · exact .inr freed.resets

theorem settles_runOps {ops : List HandlerOp} (once : ClosesOnce ops)
    (ran : held.runOps limits conn ops = some later) : held.Settles conn later := by
  induction ops generalizing held with
  | nil =>
      rw [runOps] at ran
      cases ran
      exact .inl (.refl _)
  | cons op ops inductionHypothesis =>
      rw [runOps] at ran
      obtain ⟨middle, first, rest⟩ := Option.bind_eq_some_iff.mp ran
      obtain ⟨op_once, others⟩ := List.forall_mem_cons.mp once
      have settles : held.Settles conn middle := by
        cases op with
        | call call =>
            rw [runOp] at first
            obtain ⟨connection, called, same⟩ := Option.map_eq_some_iff.mp first
            subst same
            have same_fd := (Connection.call_effect called).fd
            exact .inl ⟨same_fd, Connection.activeTime_call called, rfl⟩
        | close onClose => exact settles_resetConnection op_once first
      exact settles.trans (inductionHypothesis others rest)

theorem settles_onWrite {writes : List WriteResult} {onClose : List HandlerOp}
    (noClose : NoClose onClose) (wrote : held.onWrite limits conn writes onClose = some later) :
    held.Settles conn later := by
  have flushed : held.Untouched { held with connection := (held.connection.flush writes).2 } :=
    ⟨Connection.fd_flush _ _, Connection.activeTime_flush _ _, rfl⟩
  exact flushed.settles (settles_unlessAgain noClose wrote)

/-- `OnRead` stamps a connection that has a descriptor, and may reset it then. -/
theorem settles_onRead {input : ReadInput} {result : OnReadResult}
    (noClose : NoClose input.onClose) (read : held.onRead limits conn input = some result) :
    ∃ stamped : Held, stamped.connection.fd = held.connection.fd ∧
      stamped.connection.activeTime =
        (if held.connection.fd < 0 then held.connection.activeTime else input.now) ∧
      stamped.pool = held.pool ∧ stamped.Settles conn result.held := by
  obtain ⟨data, reading, answering⟩ := Option.bind_eq_some_iff.mp read
  obtain ⟨closed, closing, same⟩ := Option.map_eq_some_iff.mp answering
  subst same
  refine ⟨⟨(answer data.status input.date input.writes data.conn).2, held.pool⟩, ?_, ?_, rfl,
    settles_unlessAgain noClose closing⟩
  · exact answer_effect.1.trans (Connection.fd_readData reading)
  · refine Eq.trans ?_ (Connection.activeTime_readData reading)
    unfold answer
    split
    · simp
    · rfl

theorem settles_finishWork {writes : List WriteResult} {onClose : List HandlerOp}
    (noClose : NoClose onClose)
    (finished : held.finishWork limits conn writes onClose = some later) :
    held.Settles conn later := by
  have flushed : held.Untouched { held with connection := (held.connection.flush writes).2 } :=
    ⟨Connection.fd_flush _ _, Connection.activeTime_flush _ _, rfl⟩
  refine flushed.settles ?_
  unfold finishWork at finished
  simp only at finished
  split at finished
  · cases finished
    exact .inl ⟨rfl, rfl, rfl⟩
  · cases finished
    exact .inl (.refl _)
  · exact settles_resetConnection noClose finished

theorem settles_work {config : Config} {input : WorkInput} (script : ClosesOnce input.script)
    (noClose : NoClose input.onClose) (worked : held.work config conn input = some later) :
    held.Settles conn later := by
  obtain ⟨middle, handling, finished⟩ := Option.bind_eq_some_iff.mp worked
  have handled : held.Settles conn middle := by
    unfold handleRequest at handling
    split at handling
    · exact settles_runOps script handling
    · cases handling
      exact .inl ⟨by simp, by simp, rfl⟩
  have flushed : middle.Untouched (middle.flushUnlessUpgraded input.date) := by
    unfold flushUnlessUpgraded
    split
    · exact .refl middle
    · exact ⟨by simp, by simp, rfl⟩
  exact handled.trans (flushed.settles (settles_finishWork noClose finished))

theorem settles_wsWork {config : Config} {opcode : WebSocketOpcodeType} {input : WorkInput}
    (script : ClosesOnce input.script) (noClose : NoClose input.onClose)
    (worked : held.wsWork config conn opcode input = some later) : held.Settles conn later := by
  obtain ⟨middle, handling, finished⟩ := Option.bind_eq_some_iff.mp worked
  have handled : held.Settles conn middle := by
    unfold handleMessage at handling
    split at handling
    · exact settles_runOps script handling
    · cases handling
      exact .inl (.refl held)
  exact handled.trans (settles_finishWork noClose finished)

end Held

end Mevent
