import Mevent.EventLoop.Model

/-!
# The effects of a section

What a section under a connection's lock can do to the descriptor and to the status of
the request.  A handler may take the descriptor away, by closing the connection, and may
upgrade the request; it does nothing else to either.
-/

namespace Mevent

namespace Connection

variable {limits : Limits} {conn later : Connection}

@[simp]
theorem fd_writeString (conn : Connection) (str : Bytes) :
    (conn.writeString str).fd = conn.fd := by
  unfold writeString
  split
  · rfl
  · rfl

@[simp]
theorem req_writeString (conn : Connection) (str : Bytes) :
    (conn.writeString str).req = conn.req := by
  unfold writeString
  split
  · rfl
  · rfl

@[simp]
theorem fd_flush (conn : Connection) (results : List WriteResult) :
    (conn.flush results).2.fd = conn.fd := by
  unfold flush
  split
  · rfl
  · rfl

@[simp]
theorem req_flush (conn : Connection) (results : List WriteResult) :
    (conn.flush results).2.req = conn.req := by
  unfold flush
  split
  · rfl
  · rfl

@[simp]
theorem fd_writeErrorMessage (conn : Connection) (code : Int) (date : Bytes) :
    (conn.writeErrorMessage code date).fd = conn.fd :=
  fd_writeString conn _

@[simp]
theorem req_writeErrorMessage (conn : Connection) (code : Int) (date : Bytes) :
    (conn.writeErrorMessage code date).req = conn.req :=
  req_writeString conn _

@[simp]
theorem resp_writeString (conn : Connection) (str : Bytes) :
    (conn.writeString str).resp = conn.resp := by
  unfold writeString
  split
  · rfl
  · rfl

theorem foldl_writeString (strs : List Bytes) (conn : Connection) :
    (strs.foldl writeString conn).fd = conn.fd ∧
      (strs.foldl writeString conn).req = conn.req ∧
        (strs.foldl writeString conn).resp = conn.resp := by
  induction strs generalizing conn with
  | nil => exact ⟨rfl, rfl, rfl⟩
  | cons str strs inductionHypothesis =>
      obtain ⟨same_fd, same_req, same_resp⟩ := inductionHypothesis (conn.writeString str)
      exact ⟨same_fd.trans (fd_writeString conn str), same_req.trans (req_writeString conn str),
        same_resp.trans (resp_writeString conn str)⟩

@[simp]
theorem fd_flushResponse (conn : Connection) (date : Bytes) :
    (conn.flushResponse date).fd = conn.fd :=
  (foldl_writeString _ _).1

@[simp]
theorem req_flushResponse (conn : Connection) (date : Bytes) :
    (conn.flushResponse date).req = conn.req :=
  (foldl_writeString _ _).2.1

theorem finish_flushResponse (conn : Connection) (date : Bytes) :
    (conn.flushResponse date).resp.finish = true := by
  have same_resp := (foldl_writeString (conn.resp.flush date).2
    { conn with resp := (conn.resp.flush date).1 }).2.2
  unfold flushResponse
  rw [same_resp]
  exact Response.finish_flush conn.resp date

/-- A call of a handler leaves the descriptor alone, and changes the status of the request
only by upgrading it, for which the request must have a key. -/
structure CallEffect (conn later : Connection) : Prop where
  fd : later.fd = conn.fd
  key : later.req.secWebsocketKey = conn.req.secWebsocketKey
  status : later.req.status = conn.req.status ∨
    conn.req.secWebsocketKey ≠ [] ∧ later.req.status = .upgrade

theorem CallEffect.of_same_req (fd : later.fd = conn.fd) (req : later.req = conn.req) :
    conn.CallEffect later := by
  refine ⟨fd, ?_, .inl ?_⟩
  · rw [req]
  · rw [req]

theorem call_effect {call : Call} (called : conn.call limits call = some later) :
    conn.CallEffect later := by
  cases call with
  | parseHeader =>
      obtain ⟨req, parsed, same⟩ := Option.map_eq_some_iff.mp called
      subst same
      unfold Request.parseHeader at parsed
      split at parsed
      · cases parsed
      · cases parsed
        exact ⟨rfl, rfl, .inl rfl⟩
  | parsePostForm =>
      obtain ⟨req, parsed, same⟩ := Option.map_eq_some_iff.mp called
      subst same
      unfold Request.parsePostForm at parsed
      split at parsed
      · cases parsed
        exact ⟨rfl, rfl, .inl rfl⟩
      · split at parsed
        · cases parsed
        · cases parsed
          exact ⟨rfl, rfl, .inl rfl⟩
  | parseQueryString =>
      cases called
      unfold Request.parseQueryString
      split
      · exact ⟨rfl, rfl, .inl rfl⟩
      · exact ⟨rfl, rfl, .inl rfl⟩
  | upgrade date =>
      cases called
      unfold upgrade
      split
      next => exact .of_same_req rfl rfl
      next has_key =>
        refine ⟨fd_writeString _ _, ?_, .inr ⟨has_key, ?_⟩⟩
        · rw [req_writeString]
        · rw [req_writeString]
  | writeErrorMessage code date =>
      cases called
      exact .of_same_req (fd_writeErrorMessage ..) (req_writeErrorMessage ..)
  | sendPong str | sendPing str | writeString str =>
      cases called
      exact .of_same_req (fd_writeString ..) (req_writeString ..)
  | _ =>
      cases called
      exact .of_same_req rfl rfl

theorem fd_readData {now : Int} {reads : List ReadResult} {read : ReadDataResult}
    (received : conn.readData limits now reads = some read) : read.conn.fd = conn.fd := by
  unfold readData at received
  split at received
  · cases received
    rfl
  · split at received
    · obtain ⟨ws, -, same⟩ := Option.map_eq_some_iff.mp received
      subst same
      rfl
    · obtain ⟨req, -, same⟩ := Option.map_eq_some_iff.mp received
      subst same
      rfl

theorem fd_reset (closing : conn.fd ≠ 0) : conn.reset.fd < 0 := by
  simp only [reset]
  split
  · decide
  · omega

end Connection

namespace Held

variable {limits : Limits} {conn : ConnId} {held later : Held}

/-- The descriptor is gone, or it is the same and the request has kept its status or has
been upgraded. -/
def Handled (held later : Held) : Prop :=
  later.connection.fd < 0 ∨
    later.connection.fd = held.connection.fd ∧
      (later.connection.req.status = held.connection.req.status ∨
        later.connection.req.status = .upgrade)

theorem Handled.refl (held : Held) : held.Handled held := .inr ⟨rfl, .inl rfl⟩

theorem Handled.trans {middle : Held} (first : held.Handled middle)
    (second : middle.Handled later) : held.Handled later := by
  rcases second with gone | ⟨same_fd, same_status | upgraded⟩
  · exact .inl gone
  · rcases first with gone | ⟨first_fd, first_status⟩
    · exact .inl (same_fd ▸ gone)
    · exact .inr ⟨same_fd.trans first_fd, by rwa [same_status]⟩
  · rcases first with gone | ⟨first_fd, -⟩
    · exact .inl (same_fd ▸ gone)
    · exact .inr ⟨same_fd.trans first_fd, .inr upgraded⟩

theorem Handled.fd_ne_zero (handled : held.Handled later) (opened : 0 < held.connection.fd) :
    later.connection.fd ≠ 0 := by
  rcases handled with gone | ⟨same_fd, -⟩
  · exact Int.ne_of_lt gone
  · rw [same_fd]
    exact Int.ne_of_gt opened

mutual

theorem handled_runOp (op : HandlerOp) (held later : Held)
    (ran : held.runOp limits conn op = some later) : held.Handled later := by
  cases op with
  | call call =>
      rw [runOp] at ran
      obtain ⟨connection, called, same⟩ := Option.map_eq_some_iff.mp ran
      subst same
      have effect := Connection.call_effect called
      exact .inr ⟨effect.fd, effect.status.imp_right And.right⟩
  | close onClose =>
      rw [runOp] at ran
      split at ran
      next opened =>
        split at ran
        next upgraded =>
          split at ran
          · cases ran
          · obtain ⟨closed, closing, same⟩ := Option.map_eq_some_iff.mp ran
            subst same
            have handled := handled_runOps onClose held closed closing
            exact .inl (Connection.fd_reset (handled.fd_ne_zero opened))
        next not_upgraded =>
          cases ran
          exact .inl (Connection.fd_reset (Int.ne_of_gt opened))
      next closed =>
        cases ran
        exact .refl held

theorem handled_runOps (ops : List HandlerOp) (held later : Held)
    (ran : held.runOps limits conn ops = some later) : held.Handled later := by
  cases ops with
  | nil =>
      rw [runOps] at ran
      cases ran
      exact .refl held
  | cons op ops =>
      rw [runOps] at ran
      obtain ⟨middle, first, rest⟩ := Option.bind_eq_some_iff.mp ran
      exact (handled_runOp op held middle first).trans (handled_runOps ops middle later rest)

end

/-- `ResetConnection` takes the descriptor away or does nothing. -/
theorem resetConnection_cases {onClose : List HandlerOp}
    (reset : held.resetConnection limits conn onClose = some later) :
    later.connection.fd < 0 ∨ later = held := by
  rw [resetConnection, runOp] at reset
  split at reset
  next opened =>
    left
    split at reset
    · split at reset
      · cases reset
      · obtain ⟨closed, closing, same⟩ := Option.map_eq_some_iff.mp reset
        subst same
        exact Connection.fd_reset ((handled_runOps onClose held closed closing).fd_ne_zero opened)
    · cases reset
      exact Connection.fd_reset (Int.ne_of_gt opened)
  next closed =>
    cases reset
    exact .inr rfl

theorem resetUnlessAgain_cases {onClose : List HandlerOp} {status : ConnStatus}
    (reset : held.resetUnlessAgain limits conn onClose status = some later) :
    later.connection.fd < 0 ∨ later = held := by
  unfold resetUnlessAgain at reset
  split at reset
  · cases reset
    exact .inr rfl
  · exact resetConnection_cases reset

/-- The descriptor is gone, or it and the request are the same. -/
def Kept (held later : Held) : Prop :=
  later.connection.fd < 0 ∨
    later.connection.fd = held.connection.fd ∧ later.connection.req = held.connection.req

theorem kept_onWrite {writes : List WriteResult} {onClose : List HandlerOp}
    (wrote : held.onWrite limits conn writes onClose = some later) : held.Kept later := by
  unfold onWrite at wrote
  rcases resetUnlessAgain_cases wrote with gone | same
  · exact .inl gone
  · subst same
    exact .inr ⟨Connection.fd_flush .., Connection.req_flush ..⟩

theorem kept_resetConnection {onClose : List HandlerOp}
    (reset : held.resetConnection limits conn onClose = some later) : held.Kept later := by
  rcases resetConnection_cases reset with gone | same
  · exact .inl gone
  · exact .inr (same ▸ ⟨rfl, rfl⟩)

theorem kept_send (held : Held) (data : Bytes) (writes : List WriteResult) :
    held.Kept { held with connection := ((held.connection.writeString data).flush writes).2 } :=
  .inr ⟨(Connection.fd_flush ..).trans (Connection.fd_writeString ..),
    (Connection.req_flush ..).trans (Connection.req_writeString ..)⟩

theorem kept_finishWork {writes : List WriteResult} {onClose : List HandlerOp}
    (finished : held.finishWork limits conn writes onClose = some later) : held.Kept later := by
  unfold finishWork at finished
  simp only at finished
  split at finished
  · cases finished
    exact .inr ⟨Connection.fd_flush .., Connection.req_flush ..⟩
  · cases finished
    exact .inr ⟨Connection.fd_flush .., Connection.req_flush ..⟩
  · rcases resetConnection_cases finished with gone | same
    · exact .inl gone
    · subst same
      exact .inr ⟨Connection.fd_flush .., Connection.req_flush ..⟩

theorem Kept.handled (kept : held.Kept later) : held.Handled later :=
  kept.imp_right fun same => ⟨same.1, .inl (by rw [same.2])⟩

theorem handled_work {config : Config} {input : WorkInput}
    (worked : held.work config conn input = some later) : held.Handled later := by
  obtain ⟨middle, handling, finished⟩ := Option.bind_eq_some_iff.mp worked
  have first : held.Handled middle := by
    unfold handleRequest at handling
    split at handling
    · exact handled_runOps _ _ _ handling
    · cases handling
      exact .inr ⟨by simp, .inl (by simp)⟩
  have second : middle.Handled (middle.flushUnlessUpgraded input.date) := by
    unfold flushUnlessUpgraded
    split
    · exact .refl middle
    · exact .inr ⟨by simp, .inl (by simp)⟩
  exact (first.trans second).trans (kept_finishWork finished).handled

theorem handled_wsWork {config : Config} {opcode : WebSocketOpcodeType} {input : WorkInput}
    (worked : held.wsWork config conn opcode input = some later) : held.Handled later := by
  obtain ⟨middle, handling, finished⟩ := Option.bind_eq_some_iff.mp worked
  have first : held.Handled middle := by
    unfold handleMessage at handling
    split at handling
    · exact handled_runOps _ _ _ handling
    · cases handling
      exact .refl held
  exact first.trans (kept_finishWork finished).handled

/-- What `OnRead` pushes and how it leaves the request. -/
structure ReadEffect (held : Held) (result : OnReadResult) : Prop where
  fd : result.held.connection.fd < 0 ∨ result.held.connection.fd = held.connection.fd
  pushed : result.pushed = true → held.connection.req.Receiving ∧
    0 ≤ held.connection.fd ∧ result.held.connection.req.status = .bodyReceived
  quiet : result.pushed = false → result.held.connection.fd < 0 ∨
    result.held.connection.req.status = held.connection.req.status ∨
      held.connection.req.Receiving ∧ result.held.connection.req.Receiving

theorem answer_effect {status : ConnStatus} {date : Bytes} {writes : List WriteResult}
    {connection : Connection} :
    (answer status date writes connection).2.fd = connection.fd ∧
      (answer status date writes connection).2.req = connection.req := by
  unfold answer
  split
  · exact ⟨by simp, by simp⟩
  · exact ⟨rfl, rfl⟩

theorem readEffect_onRead {input : ReadInput} {result : OnReadResult}
    (read : held.onRead limits conn input = some result) : held.ReadEffect result := by
  obtain ⟨data, reading, answering⟩ := Option.bind_eq_some_iff.mp read
  obtain ⟨closed, closing, same⟩ := Option.map_eq_some_iff.mp answering
  subst same
  obtain ⟨answer_fd, answer_req⟩ := @answer_effect data.status input.date input.writes data.conn
  unfold Connection.readData at reading
  split at reading
  next no_descriptor =>
    cases reading
    have gone : closed.connection.fd < 0 := by
      rcases resetUnlessAgain_cases closing with gone | same
      · exact gone
      · rw [same]
        exact answer_fd ▸ no_descriptor
    exact ⟨.inl gone, nofun, fun _ => .inl gone⟩
  next descriptor =>
    split at reading
    next upgraded =>
      obtain ⟨ws, -, same⟩ := Option.map_eq_some_iff.mp reading
      subst same
      rcases resetUnlessAgain_cases closing with gone | same
      · exact ⟨.inl gone, nofun, fun _ => .inl gone⟩
      · subst same
        exact ⟨.inr answer_fd, nofun, fun _ => .inr (.inl (by rw [answer_req]))⟩
    next not_upgraded =>
      obtain ⟨result, received, same⟩ := Option.map_eq_some_iff.mp reading
      subst same
      rcases Request.readData_cases received with
        ⟨receiving, ⟨pushed, status, again⟩ | ⟨not_pushed, still⟩⟩ | ⟨not_receiving, same⟩
      · have unanswered : closed = ⟨{ held.connection with
            activeTime := input.now, req := result.req }, held.pool⟩ := by
          simpa [resetUnlessAgain, answer, again] using closing.symm
        subst unanswered
        refine ⟨.inr rfl, fun _ => ⟨receiving, Int.not_lt.mp descriptor, status⟩, ?_⟩
        intro not_pushed
        exact absurd (pushed.symm.trans not_pushed) (by simp)
      · have contrary : result.pushed ≠ true := by simp [not_pushed]
        rcases resetUnlessAgain_cases closing with gone | same
        · exact ⟨.inl gone, fun pushed => (contrary pushed).elim, fun _ => .inl gone⟩
        · subst same
          refine ⟨.inr answer_fd, fun pushed => (contrary pushed).elim, fun _ => ?_⟩
          exact .inr (.inr ⟨receiving, by rw [answer_req]; exact still⟩)
      · subst same
        rcases resetUnlessAgain_cases closing with gone | same
        · exact ⟨.inl gone, nofun, fun _ => .inl gone⟩
        · subst same
          exact ⟨.inr answer_fd, nofun, fun _ => .inr (.inl (by rw [answer_req]))⟩

end Held

end Mevent
