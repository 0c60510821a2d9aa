import Mevent.Connection.Flushing
import Mevent.EventLoop.Incidents
import Mevent.EventLoop.Messages

/-!
# What closes a WebSocket

The four callers of `Flush` do not agree on `UPGRADE`: the workers keep the connection, and
`OnWrite` closes it when the last queued byte has been written.
-/

namespace Mevent

open Library

namespace Connection

/-- The socket of an open connection takes all of its queue. -/
def Drains (conn : Connection) (results : List WriteResult) : Prop :=
  0 < conn.fd ∧ conn.WritesAll results

instance (conn : Connection) (results : List WriteResult) : Decidable (conn.Drains results) :=
  inferInstanceAs (Decidable (_ ∧ ∀ writing ∈ conn.writings results, writing.Whole))

end Connection

namespace WebSocket

/-- A call of `Readn` by `ReadData` fails: the peer has closed, or a read fails. -/
def ReadFails (tls : Bool) (ws : WebSocket) (results : List ReadResult) : Prop :=
  ∃ reading, (reader tls).Visits ⟨ws, results, []⟩ reading ∧
    (Connection.readn tls readBufferSize reading.results).ret < 0

/-- A call of `Parse` by `ReadData` returns false. -/
def ParseFails (tls : Bool) (ws : WebSocket) (results : List ReadResult) : Prop :=
  ∃ reading, (reader tls).Visits ⟨ws, results, []⟩ reading ∧
    0 < (Connection.readn tls readBufferSize reading.results).ret ∧
    (reading.ws.append
      (Connection.readn tls readBufferSize reading.results).bytes).parse.verdict =
      .returnsFalse

theorem readRound_fails {tls : Bool} {reading last : Reading} {status : ConnStatus}
    (left : readRound tls reading = .leave last (.returns status)) (stops : status ≠ .again) :
    let got := Connection.readn tls readBufferSize reading.results
    got.ret < 0 ∨ 0 < got.ret ∧ (reading.ws.append got.bytes).parse.verdict = .returnsFalse := by
  simp only [readRound] at left
  split at left
  next some_bytes =>
    unfold frameParsed at left
    split at left
    next =>
      split at left
      · cases left
      · cases left
        exact absurd rfl stops
    next failed => exact .inr ⟨some_bytes, failed⟩
    next => cases left
  next =>
    split at left
    next failed => exact .inl failed
    next =>
      cases left
      exact absurd rfl stops

/-- `ReadData` returns `AGAIN` unless a read or the parser fails. -/
theorem readData_fails {tls : Bool} {ws : WebSocket} {results : List ReadResult}
    {read : ReadDataResult} (returned : ws.readData tls results = some read)
    (stops : read.status ≠ .again) : ws.ReadFails tls results ∨ ws.ParseFails tls results := by
  obtain ⟨reading, visited, left⟩ := (reader tls).exists_visits_leave ⟨ws, results, []⟩
  unfold readData at returned
  dsimp only at returned
  split at returned
  next status verdict =>
    cases returned
    rw [verdict] at left
    rcases readRound_fails left stops with failed | failed
    · exact .inl ⟨reading, visited, failed⟩
    · exact .inr ⟨reading, visited, failed⟩
  next => cases returned

end WebSocket

/-- What a connection with an open WebSocket may be closed for. -/
def ResetCaller.Justified (config : Config) : ResetCaller → Prop
  | .onRead connection reads => connection.ws.ReadFails connection.ssl reads ∨
      connection.ws.ParseFails connection.ssl reads
  | .onWrite connection writes => connection.WriteFails writes
  | .worker connection writes => connection.WriteFails writes
  | .timeout idle => config.idleTimeout ≤ idle
  | .close => True

/-- The connection is closed as one without a WebSocket, or for a good reason. -/
def Incident.Justified (config : Config) : Incident → Prop
  | .reset upgraded caller => upgraded = true → caller.Justified config
  | .onClose _ => True

namespace Held

variable {config : Config} {limits : Limits} {conn : ConnId} {held : Held}

theorem justified_closingIncidents {caller : ResetCaller} {nested : List Incident}
    (justified : held.connection.req.status = .upgrade → 0 < held.connection.fd →
      caller.Justified config)
    (others : ∀ incident ∈ nested, incident.Justified config) :
    ∀ incident ∈ held.closingIncidents caller nested, incident.Justified config := by
  intro incident listed
  unfold closingIncidents at listed
  split at listed
  next opened =>
    rcases List.mem_cons.mp listed with rfl | listed
    · exact fun upgraded => justified (of_decide_eq_true upgraded) opened
    · split at listed
      · rcases List.mem_cons.mp listed with rfl | listed
        · exact trivial
        · split at listed
          · cases listed
          · exact others incident listed
      · cases listed
  next => cases listed

mutual

theorem justified_opIncidents (op : HandlerOp) (held : Held) :
    ∀ incident ∈ held.opIncidents limits conn op, incident.Justified config := by
  cases op with
  | call call =>
      intro incident listed
      rw [opIncidents] at listed
      cases listed
  | close onClose =>
      have justified : ResetCaller.close.Justified config := trivial
      intro incident listed
      rw [opIncidents] at listed
      exact justified_closingIncidents (fun _ _ => justified)
        (justified_opsIncidents onClose held) incident listed

theorem justified_opsIncidents (ops : List HandlerOp) (held : Held) :
    ∀ incident ∈ held.opsIncidents limits conn ops, incident.Justified config := by
  cases ops with
  | nil =>
      intro incident listed
      rw [opsIncidents] at listed
      cases listed
  | cons op ops =>
      intro incident listed
      rw [opsIncidents] at listed
      rcases List.mem_append.mp listed with first | later
      · exact justified_opIncidents op held incident first
      · split at later
        · exact justified_opsIncidents ops _ incident later
        · cases later

end

theorem justified_resetIncidents {caller : ResetCaller} {onClose : List HandlerOp}
    (justified : held.connection.req.status = .upgrade → 0 < held.connection.fd →
      caller.Justified config) :
    ∀ incident ∈ held.resetIncidents limits conn caller onClose, incident.Justified config :=
  justified_closingIncidents justified (justified_opsIncidents onClose held)

theorem justified_onWrite {writes : List WriteResult} {onClose : List HandlerOp}
    (lasting : held.connection.req.status = .upgrade → ¬ held.connection.Drains writes) :
    ∀ incident ∈ held.onWriteIncidents limits conn writes onClose, incident.Justified config := by
  intro incident listed
  simp only [onWriteIncidents, unlessAgainIncidents] at listed
  split at listed
  next => cases listed
  next stops =>
    apply justified_resetIncidents _ incident listed
    intro upgraded opened
    have ends := held.connection.flushEnds writes
    generalize held.connection.flush writes = flushed at stops upgraded opened ends
    cases ends with
    | closed closed => exact absurd opened (Int.not_lt.mpr (Int.le_of_lt closed))
    | drained all => exact absurd ⟨opened, all⟩ (lasting upgraded)
    | waits => exact absurd rfl stops
    | fails _ _ failed => exact failed

theorem justified_finish {writes : List WriteResult} {onClose : List HandlerOp} :
    ∀ incident ∈ held.finishIncidents limits conn writes onClose, incident.Justified config := by
  intro incident listed
  simp only [finishIncidents] at listed
  split at listed
  next => cases listed
  next => cases listed
  next stops notUpgrade =>
    apply justified_resetIncidents _ incident listed
    intro upgraded opened
    have ends := held.connection.flushEnds writes
    generalize held.connection.flush writes = flushed at stops notUpgrade upgraded opened ends
    cases ends with
    | closed closed => exact absurd opened (Int.not_lt.mpr (Int.le_of_lt closed))
    | drained all => exact absurd (if_pos upgraded) notUpgrade
    | waits => exact absurd rfl stops
    | fails _ _ failed => exact failed

/-- `ReadData` does not upgrade a request, and reads frames if it has been upgraded. -/
theorem readData_upgraded {now : Int} {reads : List ReadResult}
    {read : Connection.ReadDataResult}
    (received : held.connection.readData limits now reads = some read)
    (upgraded : read.conn.req.status = .upgrade) (opened : 0 < read.conn.fd)
    (stops : read.status ≠ .again) :
    (ResetCaller.onRead held.connection reads).Justified config := by
  unfold Connection.readData at received
  split at received
  next closed =>
    cases received
    exact absurd opened (Int.not_lt.mpr (Int.le_of_lt closed))
  next =>
    split at received
    next =>
      obtain ⟨result, parsed, same⟩ := Option.map_eq_some_iff.mp received
      subst same
      exact WebSocket.readData_fails parsed stops
    next plain =>
      obtain ⟨result, parsed, same⟩ := Option.map_eq_some_iff.mp received
      subst same
      exact absurd upgraded (Request.status_readData plain parsed)

theorem justified_onRead {input : ReadInput} :
    ∀ incident ∈ held.onReadIncidents limits conn input, incident.Justified config := by
  intro incident listed
  unfold onReadIncidents at listed
  split at listed
  next read received =>
    simp only [unlessAgainIncidents] at listed
    split at listed
    next => cases listed
    next stops =>
      apply justified_resetIncidents _ incident listed
      intro upgraded opened
      obtain ⟨same_fd, same_req⟩ := @answer_effect read.status input.date input.writes read.conn
      rw [same_req] at upgraded
      rw [same_fd] at opened
      apply readData_upgraded received upgraded opened
      intro again
      apply stops
      rw [again, answer, if_neg (fun both => absurd both.1 (by decide))]
  next => cases listed

theorem justified_work {input : WorkInput} :
    ∀ incident ∈ held.workIncidents conn config input, incident.Justified config := by
  intro incident listed
  unfold workIncidents at listed
  rcases List.mem_append.mp listed with handling | finishing
  · unfold requestIncidents at handling
    split at handling
    · exact justified_opsIncidents _ _ incident handling
    · cases handling
  · split at finishing
    · exact justified_finish incident finishing
    · cases finishing

theorem justified_wsWork {opcode : WebSocketOpcodeType} {input : WorkInput} :
    ∀ incident ∈ held.wsWorkIncidents conn config opcode input, incident.Justified config := by
  intro incident listed
  unfold wsWorkIncidents at listed
  rcases List.mem_append.mp listed with handling | finishing
  · unfold messageIncidents at handling
    split at handling
    · rcases List.mem_append.mp handling with called | ran
      · split at called
        · rw [List.mem_singleton.mp called]
          exact trivial
        · cases called
      · exact justified_opsIncidents _ _ incident ran
    · cases handling
  · split at finishing
    · exact justified_finish incident finishing
    · cases finishing

end Held

namespace EventLoop

variable {config : Config} {el : EventLoop}

/-- `OnWrite` does not empty the queue of a connection whose WebSocket is open. -/
def Lasting (el : EventLoop) : Action → Prop
  | .onWrite conn writes _ =>
      (el.connections conn).req.status = .upgrade → ¬ (el.connections conn).Drains writes
  | _ => True

instance (el : EventLoop) : DecidablePred el.Lasting
  | .onWrite conn writes _ => inferInstanceAs (Decidable
      ((el.connections conn).req.status = .upgrade → ¬ (el.connections conn).Drains writes))
  | .poll _ | .beginAccept | .accepted _ | .wouldBlock | .install .. | .updateErase _
  | .updatePush _ | .onRead .. | .takeTask | .runTask _ | .takeWsTask | .runWsTask _
  | .timeoutCheck _ | .checkFirst | .peek | .expire _ | .checkNext | .safeWrite .. =>
      inferInstanceAs (Decidable True)

theorem mem_incidents {action : Action} {incident : Session × Incident}
    (listed : incident ∈ el.incidents config action) :
    ∃ locked, el.lockedSection config action = some locked ∧ incident.2 ∈ locked.incidents := by
  unfold incidents at listed
  split at listed
  next locked found =>
    obtain ⟨other, member, rfl⟩ := List.mem_map.mp listed
    exact ⟨locked, found, member⟩
  next => cases listed

/-- A step closes an open WebSocket for a good reason. -/
theorem justified_incidents {action : Action} (lasting : el.Lasting action) :
    ∀ incident ∈ el.incidents config action, incident.2.Justified config := by
  intro incident listed
  obtain ⟨locked, found, member⟩ := mem_incidents listed
  cases locks_of_lockedSection found with
  | reads => exact Held.justified_onRead _ member
  | writes conn writes onClose =>
      have held : (el.hold conn).connection.req.status = .upgrade →
        ¬ (el.hold conn).connection.Drains writes := lasting
      exact Held.justified_onWrite held _ member
  | works => exact Held.justified_work _ member
  | wsWorks => exact Held.justified_wsWork _ member
  | expires conn now onClose checking active idle =>
      have expired : (ResetCaller.timeout (now - (el.connections conn).activeTime)).Justified
        config := idle
      exact Held.justified_resetIncidents (fun _ _ => expired) _ member

/-- `OnWrite` that empties the queue closes the WebSocket. -/
theorem incidents_of_not_lasting {conn : ConnId} {writes : List WriteResult}
    {onClose : List HandlerOp}
    (enabled : el.loop = .between ∧ el.batch.head? = some (.writable conn))
    (drained : ¬ el.Lasting (.onWrite conn writes onClose)) :
    ∃ incident ∈ el.incidents config (.onWrite conn writes onClose),
      ¬ incident.2.Justified config := by
  obtain ⟨upgraded, drains⟩ : (el.connections conn).req.status = .upgrade ∧
      (el.connections conn).Drains writes :=
    Decidable.not_imp_iff_and_not.mp drained |>.imp_right not_not.mp
  have status : ((el.connections conn).flush writes).1 = .upgrade := by
    have opened : ¬ (el.connections conn).fd < 0 := Int.not_lt.mpr (Int.le_of_lt drains.1)
    rw [Connection.flush_of_writesAll opened drains.2, Connection.drainedStatus, if_pos upgraded]
  refine ⟨(el.occupant conn, .reset true (.onWrite (el.connections conn) writes)), ?_, ?_⟩
  · simp only [incidents, lockedSection, if_pos enabled]
    apply List.mem_map_of_mem
    simp [Held.onWriteIncidents, Held.unlessAgainIncidents, hold, status, Held.resetIncidents,
      Held.closingIncidents, drains.1, upgraded]
  · intro justified
    obtain ⟨writing, listed, failed⟩ := justified rfl
    exact absurd (drains.2 writing listed).1 (Int.not_le.mpr failed)

end EventLoop

namespace Recorded

variable {config : Config} {recorded : Recorded}

/-- No open WebSocket has been closed but because its peer has closed, a read or a write has
failed, `Parse` has returned false, the connection has been idle, or `Close` has been called. -/
def ClosedForCause (config : Config) (recorded : Recorded) : Prop :=
  ∀ incident ∈ recorded.incidents, incident.2.Justified config

theorem closedForCause_initial : (initial config).ClosedForCause config := by
  intro incident listed
  cases listed

theorem enabled_of_onWrite {later : Recorded} {conn : ConnId} {writes : List WriteResult}
    {onClose : List HandlerOp}
    (stepped : recorded.step config (.onWrite conn writes onClose) = some later) :
    recorded.el.loop = .between ∧ recorded.el.batch.head? = some (.writable conn) := by
  by_contra disabled
  have untaken : recorded.el.step config (.onWrite conn writes onClose) = none := by
    simp only [EventLoop.step, EventLoop.stepLoop, if_neg disabled]
    rfl
  have uneventful : recorded.el.incidents config (.onWrite conn writes onClose) = [] := by
    simp only [EventLoop.incidents, EventLoop.lockedSection, if_neg disabled]
  simp [step, untaken, uneventful] at stepped

/-- A step closes a WebSocket without a cause exactly when `OnWrite` empties its queue. -/
theorem closedForCause_step {later : Recorded} {action : Action}
    (stepped : recorded.step config action = some later) :
    later.ClosedForCause config ↔
      recorded.ClosedForCause config ∧ recorded.el.Lasting action := by
  unfold ClosedForCause
  rw [incidents_of_step stepped, List.forall_mem_append]
  apply and_congr_right
  intro _
  constructor
  · intro justified
    by_contra drained
    cases action with
    | onWrite conn writes onClose =>
        obtain ⟨incident, listed, unjustified⟩ :=
          EventLoop.incidents_of_not_lasting (enabled_of_onWrite stepped) drained
        exact unjustified (justified incident listed)
    | _ => exact drained trivial
  · exact EventLoop.justified_incidents

/-- The runs in which every WebSocket is closed for a cause are those in which `OnWrite`
never empties the queue of one. -/
theorem closedForCause_iff_lasting :
    Reaches (step config) (fun _ _ => True) (initial config) recorded ∧
        recorded.ClosedForCause config ↔
      Reaches (step config) (fun recorded action => recorded.el.Lasting action) (initial config)
        recorded := by
  constructor
  · rintro ⟨reached, forCause⟩
    induction reached with
    | refl => exact .refl
    | next action _ _ stepped inductionHypothesis =>
        obtain ⟨before, lasting⟩ := (closedForCause_step stepped).mp forCause
        exact (inductionHypothesis before).next action lasting stepped
  · intro reached
    refine ⟨?_, ?_⟩
    · exact reached.mono (fun _ _ _ => trivial)
    · exact reached.invariant closedForCause_initial
        (fun _ _ _ before lasting stepped => (closedForCause_step stepped).mpr ⟨before, lasting⟩)

/-- The socket of the client takes no output when its WebSocket is opened, and becomes
writable; what `Flush` has left of the handshake is 182 bytes long. -/
def writtenLater : List Action := EventLoop.joining 5 1 ++ [.poll [.writable 0]]

def writesTheRest : Action := .onWrite 0 [.accepted 181] []

/-- A WebSocket is closed because its handshake has been written. -/
theorem not_closedForCause_written_later :
    ¬ ∀ (config : Config) (recorded : Recorded),
      Reaches (step config) (fun _ _ => True) (initial config) recorded →
        recorded.ClosedForCause config := by
  intro claim
  have drained : ∃ recorded ∈ replay (step EventLoop.chatConfig) (fun _ _ => True)
      (initial EventLoop.chatConfig) writtenLater,
        ¬ recorded.el.Lasting writesTheRest ∧
          (recorded.step EventLoop.chatConfig writesTheRest).isSome := by decide +kernel
  obtain ⟨recorded, replayed, drained, taken⟩ := drained
  obtain ⟨later, stepped⟩ := Option.isSome_iff_exists.mp taken
  have reached := (reaches_of_replay replayed).next writesTheRest trivial stepped
  have forCause := claim EventLoop.chatConfig later reached
  exact drained ((closedForCause_step stepped).mp forCause).2

end Recorded

end Mevent
