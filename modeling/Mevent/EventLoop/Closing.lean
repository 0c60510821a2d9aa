import Mevent.EventLoop.Effects

/-!
# Handlers that close their connection

`Connection::Reset` puts a connection back into the state of a new one, and
`ResetConnection` puts it on the free list.  A section leaves it there as a new one unless
the handler, or the worker behind the handler, goes on with it.
-/

namespace Mevent

namespace HandlerOp

/-- The operation is not `Connection::Close`. -/
def IsCall : HandlerOp → Prop
  | .call _ => True
  | .close _ => False

instance : DecidablePred IsCall
  | .call _ => inferInstanceAs (Decidable True)
  | .close _ => inferInstanceAs (Decidable False)

end HandlerOp

/-- A handler that does not call `Connection::Close`. -/
def NoClose (ops : List HandlerOp) : Prop := ∀ op ∈ ops, op.IsCall

instance (ops : List HandlerOp) : Decidable (NoClose ops) :=
  inferInstanceAs (Decidable (∀ op ∈ ops, op.IsCall))

namespace Connection

/-- What a handler does to a connection without a descriptor. -/
def callAll (limits : Limits) : List HandlerOp → Connection → Option Connection
  | [], connection => some connection
  | .call call :: ops, connection => (connection.call limits call).bind (callAll limits ops)
  | .close _ :: ops, connection => callAll limits ops connection

theorem reset_of_open {connection : Connection} (opened : 0 < connection.fd) :
    connection.reset = .new := by
  simp only [reset, if_pos opened]
  rfl

theorem flush_new (results : List WriteResult) : new.flush results = (.closed, .new) := rfl

theorem writeString_new (str : Bytes) : new.writeString str = .new := by
  unfold writeString
  split
  next => rfl
  next written => exact (written (.inr (by decide))).elim

end Connection

namespace Held

variable {limits : Limits} {conn : ConnId} {held later : Held}

theorem runOps_of_noClose {ops : List HandlerOp} (noClose : NoClose ops)
    (ran : held.runOps limits conn ops = some later) :
    later.pool = held.pool ∧ later.connection.fd = held.connection.fd := by
  induction ops generalizing held with
  | nil =>
      rw [runOps] at ran
      cases ran
      exact ⟨rfl, rfl⟩
  | cons op ops inductionHypothesis =>
      rw [runOps] at ran
      obtain ⟨middle, first, rest⟩ := Option.bind_eq_some_iff.mp ran
      obtain ⟨is_call, others⟩ := List.forall_mem_cons.mp noClose
      cases op with
      | close onClose => exact is_call.elim
      | call call =>
          rw [runOp] at first
          obtain ⟨connection, called, same⟩ := Option.map_eq_some_iff.mp first
          subst same
          obtain ⟨same_pool, same_fd⟩ := inductionHypothesis others rest
          exact ⟨same_pool, same_fd.trans (Connection.call_effect called).fd⟩

/-- Without a descriptor, `Close` does nothing. -/
theorem runOps_of_closed {ops : List HandlerOp} (closed : ¬ 0 < held.connection.fd)
    (ran : held.runOps limits conn ops = some later) :
    held.connection.callAll limits ops = some later.connection ∧
      later.pool = held.pool ∧ later.connection.fd = held.connection.fd := by
  induction ops generalizing held with
  | nil =>
      rw [runOps] at ran
      cases ran
      exact ⟨rfl, rfl, rfl⟩
  | cons op ops inductionHypothesis =>
      rw [runOps] at ran
      obtain ⟨middle, first, rest⟩ := Option.bind_eq_some_iff.mp ran
      cases op with
      | call call =>
          rw [runOp] at first
          obtain ⟨connection, called, same⟩ := Option.map_eq_some_iff.mp first
          subst same
          have same_fd := (Connection.call_effect called).fd
          obtain ⟨all, kept_pool, kept_fd⟩ :=
            inductionHypothesis (same_fd.symm ▸ closed : ¬ 0 < connection.fd) rest
          refine ⟨?_, kept_pool, kept_fd.trans same_fd⟩
          rw [Connection.callAll, called]
          exact all
      | close onClose =>
          rw [runOp, if_neg closed] at first
          cases first
          exact inductionHypothesis closed rest

def Freed (conn : ConnId) (held later : Held) : Prop :=
  0 < held.connection.fd ∧ later.connection = .new ∧
    later.pool = (held.pool.freeListPush conn).activeListErase conn

/-- `ResetConnection` on a connection with a descriptor, when `on_close_func_` does not
close it again. -/
theorem freed_of_close {onClose : List HandlerOp} (opened : 0 < held.connection.fd)
    (noClose : NoClose onClose) (reset : held.runOp limits conn (.close onClose) = some later) :
    Freed conn held later := by
  rw [runOp, if_pos opened] at reset
  split at reset
  · split at reset
    · cases reset
    · obtain ⟨closed, closing, same⟩ := Option.map_eq_some_iff.mp reset
      subst same
      obtain ⟨same_pool, same_fd⟩ := runOps_of_noClose noClose closing
      have still : 0 < closed.connection.fd := same_fd ▸ opened
      exact ⟨opened, Connection.reset_of_open still, by rw [release, same_pool]⟩
  · cases reset
    exact ⟨opened, Connection.reset_of_open opened, rfl⟩

theorem resetConnection_of_noClose {onClose : List HandlerOp} (noClose : NoClose onClose)
    (reset : held.resetConnection limits conn onClose = some later) :
    later = held ∨ Freed conn held later := by
  by_cases opened : 0 < held.connection.fd
  · exact .inr (freed_of_close opened noClose reset)
  · rw [resetConnection, runOp, if_neg opened] at reset
    cases reset
    exact .inl rfl

def Tidy (conn : ConnId) (held later : Held) : Prop :=
  Freed conn held later ∨
    later.pool = held.pool ∧ (held.connection = .new → later.connection = .new)

/-- A section up to a call of `ResetConnection` with which it ends. -/
theorem tidy_of_reset (middle : Held) (pool : middle.pool = held.pool)
    (fd : middle.connection.fd = held.connection.fd)
    (new : held.connection = .new → middle.connection = .new)
    (reset : later = middle ∨ Freed conn middle later) : Tidy conn held later := by
  rcases reset with same | ⟨opened, fresh, released⟩
  · subst same
    exact .inr ⟨pool, new⟩
  · exact .inl ⟨fd ▸ opened, fresh, pool ▸ released⟩

theorem resetUnlessAgain_of_noClose {onClose : List HandlerOp} {status : ConnStatus}
    (noClose : NoClose onClose)
    (reset : held.resetUnlessAgain limits conn onClose status = some later) :
    later = held ∨ Freed conn held later := by
  unfold resetUnlessAgain at reset
  split at reset
  · cases reset
    exact .inl rfl
  · exact resetConnection_of_noClose noClose reset

theorem tidy_onWrite {writes : List WriteResult} {onClose : List HandlerOp}
    (noClose : NoClose onClose) (wrote : held.onWrite limits conn writes onClose = some later) :
    Tidy conn held later := by
  refine tidy_of_reset { held with connection := (held.connection.flush writes).2 } rfl
    (Connection.fd_flush held.connection writes) ?_ (resetUnlessAgain_of_noClose noClose wrote)
  intro new
  rw [new, Connection.flush_new]

theorem tidy_onRead {input : ReadInput} {result : OnReadResult} (noClose : NoClose input.onClose)
    (read : held.onRead limits conn input = some result) : Tidy conn held result.held := by
  obtain ⟨data, reading, answering⟩ := Option.bind_eq_some_iff.mp read
  obtain ⟨closed, closing, same⟩ := Option.map_eq_some_iff.mp answering
  subst same
  have data_fd := Connection.fd_readData reading
  refine tidy_of_reset ⟨(answer data.status input.date input.writes data.conn).2, held.pool⟩
    rfl (answer_effect.1.trans data_fd) ?_ (resetUnlessAgain_of_noClose noClose closing)
  intro new
  have unread : data = ⟨.new, .closed, false, []⟩ := by
    rw [new] at reading
    exact (Option.some.inj reading).symm
  rw [unread]
  rfl

theorem not_new_of_descriptor (descriptor : ¬ held.connection.fd < 0) :
    held.connection ≠ .new := by
  intro new
  rw [new] at descriptor
  exact descriptor (by decide)

theorem finishWork_of_noClose {writes : List WriteResult} {onClose : List HandlerOp}
    (noClose : NoClose onClose)
    (finished : held.finishWork limits conn writes onClose = some later) :
    Freed conn held later ∨ later.pool = held.pool := by
  unfold finishWork at finished
  simp only at finished
  split at finished
  · cases finished
    exact .inr rfl
  · cases finished
    exact .inr rfl
  · rcases resetConnection_of_noClose noClose finished with same | ⟨opened, fresh, released⟩
    · subst same
      exact .inr rfl
    · exact .inl ⟨Connection.fd_flush held.connection writes ▸ opened, fresh, released⟩

theorem finishWork_new {writes : List WriteResult} {onClose : List HandlerOp}
    (new : held.connection = .new)
    (finished : held.finishWork limits conn writes onClose = some later) : later = held := by
  have flushed : ({ held with connection := .new } : Held) = held := by rw [← new]
  unfold finishWork at finished
  simp only [new, Connection.flush_new, flushed] at finished
  rw [resetConnection, runOp, if_neg (by rw [new]; decide)] at finished
  cases finished
  rfl

/-- `WorkerThread`, when the handler does not close the connection. -/
theorem tidy_work {config : Config} {input : WorkInput}
    (script : 0 < held.connection.fd → config.routes held.connection.req.path ≠ none →
      NoClose input.script)
    (noClose : NoClose input.onClose) (descriptor : ¬ held.connection.fd < 0)
    (worked : held.work config conn input = some later) : Tidy conn held later := by
  obtain ⟨middle, handling, finished⟩ := Option.bind_eq_some_iff.mp worked
  have handled : middle.pool = held.pool ∧ middle.connection.fd = held.connection.fd := by
    unfold handleRequest at handling
    split at handling
    · rename_i func routed
      by_cases opened : 0 < held.connection.fd
      · exact runOps_of_noClose (script opened (routed ▸ Option.some_ne_none func)) handling
      · exact (runOps_of_closed opened handling).2
    · cases handling
      exact ⟨rfl, by simp⟩
  have flushed : (middle.flushUnlessUpgraded input.date).pool = held.pool ∧
      (middle.flushUnlessUpgraded input.date).connection.fd = held.connection.fd := by
    unfold flushUnlessUpgraded
    split
    · exact handled
    · exact ⟨handled.1, by simpa using handled.2⟩
  rcases finishWork_of_noClose noClose finished with ⟨opened, fresh, released⟩ | same
  · exact .inl ⟨flushed.2 ▸ opened, fresh, flushed.1 ▸ released⟩
  · exact .inr ⟨same.trans flushed.1, fun new => (not_new_of_descriptor descriptor new).elim⟩

end Held

/-- A handler that does not close the connection, or goes on behind the first `Close` with
calls that leave a new connection new. -/
def ClosesCleanly (limits : Limits) : List HandlerOp → Prop
  | [] => True
  | .call _ :: ops => ClosesCleanly limits ops
  | .close onClose :: ops =>
      NoClose onClose ∧ ∀ later ∈ Connection.new.callAll limits ops, later = .new

instance decidableClosesCleanly (limits : Limits) :
    (ops : List HandlerOp) → Decidable (ClosesCleanly limits ops)
  | [] => inferInstanceAs (Decidable True)
  | .call _ :: ops => decidableClosesCleanly limits ops
  | .close onClose :: ops => inferInstanceAs (Decidable (NoClose onClose ∧
      ∀ later ∈ Connection.new.callAll limits ops, later = .new))

namespace Held

variable {limits : Limits} {conn : ConnId} {held later : Held}

theorem runOps_of_closesCleanly {ops : List HandlerOp} (opened : 0 < held.connection.fd)
    (clean : ClosesCleanly limits ops) (ran : held.runOps limits conn ops = some later) :
    Freed conn held later ∨
      later.pool = held.pool ∧ later.connection.fd = held.connection.fd := by
  induction ops generalizing held with
  | nil =>
      rw [runOps] at ran
      cases ran
      exact .inr ⟨rfl, rfl⟩
  | cons op ops inductionHypothesis =>
      rw [runOps] at ran
      obtain ⟨middle, first, rest⟩ := Option.bind_eq_some_iff.mp ran
      cases op with
      | call call =>
          rw [runOp] at first
          obtain ⟨connection, called, same⟩ := Option.map_eq_some_iff.mp first
          subst same
          have same_fd := (Connection.call_effect called).fd
          rcases inductionHypothesis (same_fd.symm ▸ opened : 0 < connection.fd) clean rest with
            ⟨-, fresh, released⟩ | ⟨kept_pool, kept_fd⟩
          · exact .inl ⟨opened, fresh, released⟩
          · exact .inr ⟨kept_pool, kept_fd.trans same_fd⟩
      | close onClose =>
          obtain ⟨noClose, behind⟩ := clean
          obtain ⟨-, fresh, released⟩ := freed_of_close opened noClose first
          have closed : ¬ 0 < middle.connection.fd := by
            rw [fresh]
            decide
          obtain ⟨all, kept_pool, -⟩ := runOps_of_closed closed rest
          rw [fresh] at all
          exact .inl ⟨opened, behind _ all, kept_pool.trans released⟩

/-- `WebSocketWorkerThread`, when the handler closes the connection cleanly. -/
theorem tidy_wsWork {config : Config} {opcode : WebSocketOpcodeType} {input : WorkInput}
    (script : 0 < held.connection.fd → held.connection.ws.handlerFor opcode ≠ none →
      ClosesCleanly config.limits input.script)
    (noClose : NoClose input.onClose) (descriptor : ¬ held.connection.fd < 0)
    (worked : held.wsWork config conn opcode input = some later) : Tidy conn held later := by
  obtain ⟨middle, handling, finished⟩ := Option.bind_eq_some_iff.mp worked
  have handled : Freed conn held middle ∨
      middle.pool = held.pool ∧ middle.connection.fd = held.connection.fd := by
    unfold handleMessage at handling
    split at handling
    · rename_i func handler
      by_cases opened : 0 < held.connection.fd
      · exact runOps_of_closesCleanly opened
          (script opened (handler ▸ Option.some_ne_none func)) handling
      · exact .inr (runOps_of_closed opened handling).2
    · cases handling
      exact .inr ⟨rfl, rfl⟩
  rcases handled with freed | ⟨same_pool, same_fd⟩
  · rw [finishWork_new freed.2.1 finished]
    exact .inl freed
  rcases finishWork_of_noClose noClose finished with ⟨opened, fresh, released⟩ | same
  · exact .inl ⟨same_fd ▸ opened, fresh, same_pool ▸ released⟩
  · exact .inr ⟨same.trans same_pool, fun new => (not_new_of_descriptor descriptor new).elim⟩

/-- The connection is on the free list, and its request cannot be upgraded. -/
structure Released (conn : ConnId) (held : Held) : Prop where
  head : held.pool.freeListHead = some conn
  fd : held.connection.fd < 0
  status : held.connection.req.status ≠ .upgrade
  key : held.connection.req.secWebsocketKey = []

theorem released_release (closing : held.connection.fd ≠ 0) :
    Released conn (held.release conn) where
  head := ConnectionPool.sameFree_activeListErase.freeListHead
  fd := Connection.fd_reset closing
  status := nofun
  key := rfl

theorem released_of_close {onClose : List HandlerOp} (opened : 0 < held.connection.fd)
    (closed : held.runOp limits conn (.close onClose) = some later) : Released conn later := by
  rw [runOp, if_pos opened] at closed
  split at closed
  · split at closed
    · cases closed
    · obtain ⟨middle, closing, same⟩ := Option.map_eq_some_iff.mp closed
      subst same
      exact released_release ((handled_runOps onClose held middle closing).fd_ne_zero opened)
  · cases closed
    exact released_release (Int.ne_of_gt opened)

theorem Released.runOps {ops : List HandlerOp} (released : Released conn held)
    (ran : held.runOps limits conn ops = some later) : Released conn later := by
  induction ops generalizing held with
  | nil =>
      rw [Held.runOps] at ran
      cases ran
      exact released
  | cons op ops inductionHypothesis =>
      rw [Held.runOps] at ran
      obtain ⟨middle, first, rest⟩ := Option.bind_eq_some_iff.mp ran
      refine inductionHypothesis ?_ rest
      cases op with
      | call call =>
          rw [runOp] at first
          obtain ⟨connection, called, same⟩ := Option.map_eq_some_iff.mp first
          subst same
          have effect := Connection.call_effect called
          refine ⟨released.head, effect.fd ▸ released.fd, ?_, effect.key.trans released.key⟩
          rcases effect.status with same_status | ⟨has_key, -⟩
          · exact same_status ▸ released.status
          · exact (has_key released.key).elim
      | close onClose =>
          rw [runOp, if_neg (Int.not_lt.mpr (Int.le_of_lt released.fd))] at first
          cases first
          exact released

theorem released_of_closes {ops : List HandlerOp} (opened : 0 < held.connection.fd)
    (closes : ¬ NoClose ops) (ran : held.runOps limits conn ops = some later) :
    Released conn later := by
  induction ops generalizing held with
  | nil => exact (closes (List.forall_mem_nil _)).elim
  | cons op ops inductionHypothesis =>
      rw [runOps] at ran
      obtain ⟨middle, first, rest⟩ := Option.bind_eq_some_iff.mp ran
      cases op with
      | call call =>
          rw [runOp] at first
          obtain ⟨connection, called, same⟩ := Option.map_eq_some_iff.mp first
          subst same
          have same_fd := (Connection.call_effect called).fd
          apply inductionHypothesis (same_fd.symm ▸ opened : 0 < connection.fd) _ rest
          intro noClose
          exact closes (List.forall_mem_cons.mpr ⟨trivial, noClose⟩)
      | close onClose => exact (released_of_close opened first).runOps rest

/-- `WorkerThread` ends the response of a connection that its handler has closed. -/
theorem work_of_closes {config : Config} {input : WorkInput} (opened : 0 < held.connection.fd)
    (routed : config.routes held.connection.req.path ≠ none) (closes : ¬ NoClose input.script)
    (worked : held.work config conn input = some later) :
    later.pool.freeListHead = some conn ∧ later.connection.resp.finish = true := by
  obtain ⟨middle, handling, finished⟩ := Option.bind_eq_some_iff.mp worked
  have released : Released conn middle := by
    unfold handleRequest at handling
    split at handling
    next => exact released_of_closes opened closes handling
    next unrouted => exact (routed unrouted).elim
  have flushed : middle.flushUnlessUpgraded input.date =
      { middle with connection := middle.connection.flushResponse input.date } :=
    if_neg released.status
  have closed : (middle.connection.flushResponse input.date).fd < 0 := by
    rw [Connection.fd_flushResponse]
    exact released.fd
  rw [flushed] at finished
  simp only [finishWork, Connection.flush, if_pos closed, resetConnection, runOp,
    if_neg (Int.not_lt.mpr (Int.le_of_lt closed))] at finished
  cases finished
  exact ⟨released.head, Connection.finish_flushResponse _ _⟩

end Held

end Mevent
