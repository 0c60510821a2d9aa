import Mevent.EventLoop.Incidents
import Mevent.EventLoop.Messages
import Mevent.EventLoop.Closing

/-!
# The close callback

`on_close_func_` is called for a `CLOSE` task, and called again when the connection is
closed; `OnClose` calls it whether it is set or not.  An application that sets it before its
handlers end, and whose clients send no `CLOSE` frame, sees it called once a session.
-/

namespace Mevent

open Library

namespace Incident

/-- `on_close_func_` is called. -/
def isOnClose : Incident → Bool
  | .onClose _ => true
  | .reset _ _ => false

end Incident

/-- An open WebSocket has its `on_close_func_`. -/
def Connection.HasOnClose (connection : Connection) : Prop :=
  connection.req.status = .upgrade → connection.ws.onCloseFunc ≠ none

instance (connection : Connection) : Decidable connection.HasOnClose :=
  inferInstanceAs (Decidable (_ → _))

namespace Connection

theorem HasOnClose.of_same {conn later : Connection} (has : conn.HasOnClose)
    (req : later.req = conn.req) (ws : later.ws = conn.ws) : later.HasOnClose := by
  unfold HasOnClose
  rw [req, ws]
  exact has

@[simp]
theorem ws_writeString (conn : Connection) (str : Bytes) :
    (conn.writeString str).ws = conn.ws := by
  unfold writeString
  split
  · rfl
  · rfl

@[simp]
theorem ws_flush (conn : Connection) (results : List WriteResult) :
    (conn.flush results).2.ws = conn.ws := by
  unfold flush
  split
  · rfl
  · rfl

theorem ws_foldl_writeString (strs : List Bytes) (conn : Connection) :
    (strs.foldl writeString conn).ws = conn.ws := by
  induction strs generalizing conn with
  | nil => rfl
  | cons str strs inductionHypothesis =>
      exact (inductionHypothesis (conn.writeString str)).trans (ws_writeString conn str)

theorem hasOnClose_flush {conn : Connection} (has : conn.HasOnClose)
    (results : List WriteResult) : (conn.flush results).2.HasOnClose :=
  has.of_same (req_flush conn results) (ws_flush conn results)

theorem hasOnClose_writeString {conn : Connection} (has : conn.HasOnClose) (str : Bytes) :
    (conn.writeString str).HasOnClose :=
  has.of_same (req_writeString conn str) (ws_writeString conn str)

theorem hasOnClose_flushResponse {conn : Connection} (has : conn.HasOnClose) (date : Bytes) :
    (conn.flushResponse date).HasOnClose :=
  has.of_same (req_flushResponse conn date) (ws_foldl_writeString _ _)

theorem hasOnClose_new : new.HasOnClose := nofun

theorem hasOnClose_reset (conn : Connection) : conn.reset.HasOnClose := nofun

end Connection

namespace Held

/-- What a section leaves of the promise that `on_close_func_` is called once, and when it
is set. -/
structure CallsOnce (held : Held) (incidents : List Incident) (result : Option Held) : Prop where
  set : .onClose none ∉ incidents
  once : incidents.countP Incident.isOnClose ≤ 1
  closed : ¬ 0 < held.connection.fd → incidents.countP Incident.isOnClose = 0
  quiet : ∀ later ∈ result, 0 < later.connection.fd → 0 < held.connection.fd ∧
    incidents.countP Incident.isOnClose = 0
  has : ∀ later ∈ result, later.connection.HasOnClose

variable {limits : Limits} {conn : ConnId} {held middle later : Held}
  {first second : List Incident} {result : Option Held}

theorem CallsOnce.none (set : .onClose none ∉ first)
    (once : first.countP Incident.isOnClose ≤ 1)
    (closed : ¬ 0 < held.connection.fd → first.countP Incident.isOnClose = 0) :
    held.CallsOnce first none := by
  refine ⟨set, once, closed, ?_, ?_⟩
  · intro later ends
    cases ends
  · intro later ends
    cases ends

theorem callsOnce_nil (fd : later.connection.fd = held.connection.fd)
    (has : later.connection.HasOnClose) : held.CallsOnce [] (some later) := by
  refine ⟨List.not_mem_nil, Nat.zero_le 1, fun _ => rfl, ?_, ?_⟩
  · intro other same
    cases same
    rw [fd]
    exact fun opened => ⟨opened, rfl⟩
  · intro other same
    cases same
    exact has

theorem CallsOnce.append (before : held.CallsOnce first (some middle))
    (behind : middle.CallsOnce second result) : held.CallsOnce (first ++ second) result := by
  have total : (first ++ second).countP Incident.isOnClose =
      first.countP Incident.isOnClose + second.countP Incident.isOnClose := List.countP_append
  refine ⟨?_, ?_, ?_, ?_, behind.has⟩
  · intro listed
    rcases List.mem_append.mp listed with early | late
    · exact before.set early
    · exact behind.set late
  · rw [total]
    by_cases opened : 0 < middle.connection.fd
    · rw [(before.quiet middle rfl opened).2, Nat.zero_add]
      exact behind.once
    · rw [behind.closed opened, Nat.add_zero]
      exact before.once
  · intro closed
    have still : ¬ 0 < middle.connection.fd :=
      fun opened => closed (before.quiet middle rfl opened).1
    rw [total, before.closed closed, behind.closed still]
  · intro later ends opened
    obtain ⟨middle_opened, second_quiet⟩ := behind.quiet later ends opened
    obtain ⟨held_opened, first_quiet⟩ := before.quiet middle rfl middle_opened
    exact ⟨held_opened, by rw [total, first_quiet, second_quiet]⟩

theorem CallsOnce.of_fd (calls : middle.CallsOnce first result)
    (fd : middle.connection.fd = held.connection.fd) : held.CallsOnce first result := by
  refine ⟨calls.set, calls.once, ?_, ?_, calls.has⟩
  · rw [← fd]
    exact calls.closed
  · rw [← fd]
    exact calls.quiet

theorem opsIncidents_of_noClose {ops : List HandlerOp} (noClose : NoClose ops) (held : Held) :
    held.opsIncidents limits conn ops = [] := by
  induction ops generalizing held with
  | nil => rw [opsIncidents]
  | cons op ops inductionHypothesis =>
      obtain ⟨is_call, others⟩ := List.forall_mem_cons.mp noClose
      rw [opsIncidents]
      cases op with
      | close onClose => exact is_call.elim
      | call call =>
          rw [opIncidents, List.nil_append]
          split
          next middle _ => exact inductionHypothesis others middle
          next => rfl

/-- `ResetConnection` calls `on_close_func_` once, if the WebSocket is open. -/
theorem callsOnce_reset {caller : ResetCaller} {onClose : List HandlerOp}
    (has : held.connection.HasOnClose) (noClose : NoClose onClose) :
    held.CallsOnce (held.resetIncidents limits conn caller onClose)
      (held.resetConnection limits conn onClose) := by
  by_cases opened : 0 < held.connection.fd
  · have fresh : ∀ later ∈ held.resetConnection limits conn onClose, later.connection = .new :=
      fun later ends => (freed_of_close opened noClose ends).2.1
    rw [resetIncidents, opsIncidents_of_noClose noClose, closingIncidents, if_pos opened]
    refine ⟨?_, ?_, fun closed => absurd opened closed, ?_, ?_⟩
    · by_cases upgraded : held.connection.req.status = .upgrade
      · rw [if_pos upgraded]
        simp [(has upgraded).symm]
      · simp [upgraded]
    · by_cases upgraded : held.connection.req.status = .upgrade
      · simp [upgraded, Incident.isOnClose]
      · simp [upgraded, Incident.isOnClose]
    · intro later ends still
      rw [fresh later ends] at still
      exact absurd still (by decide)
    · intro later ends
      rw [fresh later ends]
      exact Connection.hasOnClose_new
  · rw [resetIncidents, closingIncidents, resetConnection, runOp, if_neg opened, if_neg opened]
    exact callsOnce_nil rfl has

theorem callsOnce_unlessAgain {caller : ResetCaller} {onClose : List HandlerOp}
    {status : ConnStatus} (has : held.connection.HasOnClose) (noClose : NoClose onClose) :
    held.CallsOnce (held.unlessAgainIncidents limits conn caller onClose status)
      (held.resetUnlessAgain limits conn onClose status) := by
  unfold unlessAgainIncidents resetUnlessAgain
  split
  next => exact callsOnce_nil rfl has
  next => exact callsOnce_reset has noClose

theorem callsOnce_onWrite {writes : List WriteResult} {onClose : List HandlerOp}
    (has : held.connection.HasOnClose) (noClose : NoClose onClose) :
    held.CallsOnce (held.onWriteIncidents limits conn writes onClose)
      (held.onWrite limits conn writes onClose) := by
  have flushed := Connection.hasOnClose_flush has writes
  exact (callsOnce_unlessAgain flushed noClose).of_fd (Connection.fd_flush ..)

theorem hasOnClose_readData {now : Int} {reads : List ReadResult}
    {read : Connection.ReadDataResult} (has : held.connection.HasOnClose)
    (received : held.connection.readData limits now reads = some read) :
    read.conn.HasOnClose := by
  unfold Connection.readData at received
  split at received
  next =>
    cases received
    exact has
  next =>
    split at received
    next upgraded =>
      obtain ⟨result, parsed, same⟩ := Option.map_eq_some_iff.mp received
      subst same
      intro _
      exact WebSocket.onCloseFunc_readData parsed ▸ has upgraded
    next plain =>
      obtain ⟨result, parsed, same⟩ := Option.map_eq_some_iff.mp received
      subst same
      intro upgraded
      exact absurd upgraded (Request.status_readData plain parsed)

theorem ws_answer (status : ConnStatus) (date : Bytes) (writes : List WriteResult)
    (connection : Connection) : (answer status date writes connection).2.ws = connection.ws := by
  unfold answer
  split
  · exact (Connection.ws_flush _ _).trans (Connection.ws_writeString _ _)
  · rfl

theorem callsOnce_onRead {input : ReadInput} (has : held.connection.HasOnClose)
    (noClose : NoClose input.onClose) :
    held.CallsOnce (held.onReadIncidents limits conn input)
      ((held.onRead limits conn input).map OnReadResult.held) := by
  unfold onReadIncidents onRead
  cases received : held.connection.readData limits input.now input.reads with
  | none => exact .none List.not_mem_nil (Nat.zero_le 1) (fun _ => rfl)
  | some read =>
      obtain ⟨same_fd, same_req⟩ := @answer_effect read.status input.date input.writes read.conn
      have answered : (answer read.status input.date input.writes read.conn).2.HasOnClose :=
        (hasOnClose_readData has received).of_same same_req (ws_answer ..)
      have calls := @callsOnce_unlessAgain limits conn
        { held with connection := (answer read.status input.date input.writes read.conn).2 }
        (.onRead held.connection input.reads) input.onClose
        (answer read.status input.date input.writes read.conn).1 answered noClose
      rw [Option.bind_some, Option.map_map]
      have results : (OnReadResult.held ∘ fun held =>
          OnReadResult.mk held read.pushed read.wsPushed) = id := rfl
      rw [results, Option.map_id]
      exact calls.of_fd (same_fd.trans (Connection.fd_readData received))

theorem callsOnce_finish {writes : List WriteResult} {onClose : List HandlerOp}
    (has : held.connection.HasOnClose) (noClose : NoClose onClose) :
    held.CallsOnce (held.finishIncidents limits conn writes onClose)
      (held.finishWork limits conn writes onClose) := by
  have flushed : ({ held with connection := (held.connection.flush writes).2 } :
    Held).connection.HasOnClose := Connection.hasOnClose_flush has writes
  have same_fd : ({ held with connection := (held.connection.flush writes).2 } :
    Held).connection.fd = held.connection.fd := Connection.fd_flush held.connection writes
  have reset := (@callsOnce_reset limits conn _ (.worker held.connection writes) _ flushed
    noClose).of_fd same_fd
  unfold finishIncidents finishWork
  dsimp only
  generalize (held.connection.flush writes).1 = status
  cases status with
  | again =>
      refine callsOnce_nil ?_ ?_
      · exact same_fd
      · exact flushed
  | upgrade => exact callsOnce_nil same_fd flushed
  | finished => exact reset
  | error => exact reset
  | closed => exact reset

end Held

/-- A handler that does not end, and does not call `Close`, with an open WebSocket without
its `on_close_func_`; nor does that function call `Close`. -/
def KeepsOnClose (limits : Limits) (conn : ConnId) : List HandlerOp → Held → Prop
  | [], held => held.connection.HasOnClose
  | .call call :: ops, held => ∀ connection ∈ held.connection.call limits call,
      KeepsOnClose limits conn ops { held with connection := connection }
  | .close onClose :: ops, held =>
      held.connection.HasOnClose ∧ NoClose onClose ∧
        ∀ later ∈ held.resetConnection limits conn onClose, KeepsOnClose limits conn ops later

instance decidableKeepsOnClose (limits : Limits) (conn : ConnId) :
    (ops : List HandlerOp) → (held : Held) → Decidable (KeepsOnClose limits conn ops held)
  | [], held => inferInstanceAs (Decidable held.connection.HasOnClose)
  | .call call :: ops, held =>
      let _ := fun held => decidableKeepsOnClose limits conn ops held
      inferInstanceAs (Decidable (∀ connection ∈ held.connection.call limits call,
        KeepsOnClose limits conn ops { held with connection := connection }))
  | .close onClose :: ops, held =>
      let _ := fun held => decidableKeepsOnClose limits conn ops held
      inferInstanceAs (Decidable (held.connection.HasOnClose ∧ NoClose onClose ∧
        ∀ later ∈ held.resetConnection limits conn onClose, KeepsOnClose limits conn ops later))

namespace Held

variable {limits : Limits} {conn : ConnId} {held : Held}

theorem callsOnce_runOps {ops : List HandlerOp} (keeps : KeepsOnClose limits conn ops held) :
    held.CallsOnce (held.opsIncidents limits conn ops) (held.runOps limits conn ops) := by
  induction ops generalizing held with
  | nil =>
      rw [opsIncidents, runOps]
      exact callsOnce_nil rfl keeps
  | cons op ops inductionHypothesis =>
      rw [opsIncidents, runOps]
      cases op with
      | call call =>
          rw [opIncidents, runOp, List.nil_append]
          cases called : held.connection.call limits call with
          | none => exact .none List.not_mem_nil (Nat.zero_le 1) (fun _ => rfl)
          | some connection =>
              exact (inductionHypothesis (keeps connection called)).of_fd
                (Connection.call_effect called).fd
      | close onClose =>
          obtain ⟨has, noClose, keeps⟩ := keeps
          have first : held.CallsOnce (held.opIncidents limits conn (.close onClose))
              (held.runOp limits conn (.close onClose)) := by
            rw [opIncidents]
            exact callsOnce_reset has noClose
          cases closed : held.runOp limits conn (.close onClose) with
          | none =>
              rw [closed] at first
              simpa using first
          | some later =>
              rw [closed] at first
              exact first.append (inductionHypothesis (keeps later closed))

/-- If the request has a handler, that handler keeps to `on_close_func_`. -/
def HandlesRequest (config : Config) (conn : ConnId) (input : WorkInput) (held : Held) : Prop :=
  config.routes held.connection.req.path ≠ none →
    KeepsOnClose config.limits conn input.script held

instance (config : Config) (conn : ConnId) (input : WorkInput) (held : Held) :
    Decidable (held.HandlesRequest config conn input) := inferInstanceAs (Decidable (_ → _))

/-- If the task has a handler, it is not `on_close_func_`, and keeps to it. -/
def HandlesMessage (config : Config) (conn : ConnId) (opcode : WebSocketOpcodeType)
    (input : WorkInput) (held : Held) : Prop :=
  held.connection.ws.handlerFor opcode ≠ none →
    opcode ≠ .close ∧ KeepsOnClose config.limits conn input.script held

instance (config : Config) (conn : ConnId) (opcode : WebSocketOpcodeType) (input : WorkInput)
    (held : Held) : Decidable (held.HandlesMessage config conn opcode input) :=
  inferInstanceAs (Decidable (_ → _))

variable {config : Config} {input : WorkInput}

theorem callsOnce_request (has : held.connection.HasOnClose)
    (handles : held.HandlesRequest config conn input) :
    held.CallsOnce (held.requestIncidents conn config input)
      (held.handleRequest config conn input) := by
  unfold requestIncidents handleRequest
  cases routed : config.routes held.connection.req.path with
  | some func => exact callsOnce_runOps (handles (by simp [routed]))
  | none =>
      apply callsOnce_nil (Connection.fd_writeErrorMessage ..)
      exact Connection.hasOnClose_writeString has _

theorem callsOnce_work (has : held.connection.HasOnClose) (noClose : NoClose input.onClose)
    (handles : held.HandlesRequest config conn input) :
    held.CallsOnce (held.workIncidents conn config input) (held.work config conn input) := by
  have first := callsOnce_request has handles
  unfold workIncidents work
  cases handling : held.handleRequest config conn input with
  | none =>
      rw [handling] at first
      simpa using first
  | some handled =>
      rw [handling] at first
      refine first.append ?_
      have handled_has := first.has handled rfl
      have flushed : (handled.flushUnlessUpgraded input.date).connection.HasOnClose ∧
          (handled.flushUnlessUpgraded input.date).connection.fd = handled.connection.fd := by
        unfold flushUnlessUpgraded
        split
        · exact ⟨handled_has, rfl⟩
        · exact ⟨Connection.hasOnClose_flushResponse handled_has _,
            Connection.fd_flushResponse ..⟩
      exact (callsOnce_finish flushed.1 noClose).of_fd flushed.2

theorem callsOnce_message {opcode : WebSocketOpcodeType} (has : held.connection.HasOnClose)
    (handles : held.HandlesMessage config conn opcode input) :
    held.CallsOnce (held.messageIncidents conn config opcode input)
      (held.handleMessage config conn opcode input) := by
  unfold messageIncidents handleMessage
  cases set : held.connection.ws.handlerFor opcode with
  | some func =>
      obtain ⟨notClose, keeps⟩ := handles (by simp [set])
      simp only [if_neg notClose, List.nil_append]
      exact callsOnce_runOps keeps
  | none => exact callsOnce_nil rfl has

theorem callsOnce_wsWork {opcode : WebSocketOpcodeType} (has : held.connection.HasOnClose)
    (noClose : NoClose input.onClose) (handles : held.HandlesMessage config conn opcode input) :
    held.CallsOnce (held.wsWorkIncidents conn config opcode input)
      (held.wsWork config conn opcode input) := by
  have first := callsOnce_message has handles
  unfold wsWorkIncidents wsWork
  cases handling : held.handleMessage config conn opcode input with
  | none =>
      rw [handling] at first
      simpa using first
  | some handled =>
      rw [handling] at first
      exact first.append (callsOnce_finish (first.has handled rfl) noClose)

end Held

namespace EventLoop

variable {config : Config} {el later : EventLoop} {action : Action}

/-- The handlers leave no WebSocket without its `on_close_func_`, that function does not call
`Close`, and no `CLOSE` task is handed to it. -/
def KeepsFarewell (config : Config) (el : EventLoop) : Action → Prop
  | .onRead _ input => NoClose input.onClose
  | .onWrite _ _ onClose => NoClose onClose
  | .expire onClose => NoClose onClose
  | .runTask input => NoClose input.onClose ∧ ∀ task ∈ el.worker,
      ¬ (el.connections task.conn).fd < 0 →
        (el.hold task.conn).HandlesRequest config task.conn input
  | .runWsTask input => NoClose input.onClose ∧ ∀ item ∈ el.wsWorker,
      ¬ (el.connections item.session.conn).fd < 0 →
        (el.hold item.session.conn).HandlesMessage config item.session.conn item.task.opcode input
  | _ => True

instance (config : Config) (el : EventLoop) : DecidablePred (el.KeepsFarewell config)
  | .onRead _ input => inferInstanceAs (Decidable (NoClose input.onClose))
  | .onWrite _ _ onClose => inferInstanceAs (Decidable (NoClose onClose))
  | .expire onClose => inferInstanceAs (Decidable (NoClose onClose))
  | .runTask input => inferInstanceAs (Decidable (NoClose input.onClose ∧ ∀ task ∈ el.worker,
      ¬ (el.connections task.conn).fd < 0 →
        (el.hold task.conn).HandlesRequest config task.conn input))
  | .runWsTask input => inferInstanceAs (Decidable (NoClose input.onClose ∧
      ∀ item ∈ el.wsWorker, ¬ (el.connections item.session.conn).fd < 0 →
        (el.hold item.session.conn).HandlesMessage config item.session.conn item.task.opcode
          input))
  | .poll _ | .beginAccept | .accepted _ | .wouldBlock | .install .. | .updateErase _
  | .updatePush _ | .takeTask | .takeWsTask | .timeoutCheck _ | .checkFirst | .peek
  | .checkNext | .safeWrite .. => inferInstanceAs (Decidable True)

theorem callsOnce_lockedSection {locked : LockedSection}
    (has : ∀ conn, (el.connections conn).HasOnClose) (keeps : el.KeepsFarewell config action)
    (found : el.lockedSection config action = some locked) :
    (el.hold locked.conn).CallsOnce locked.incidents locked.result := by
  cases locks_of_lockedSection found with
  | reads conn => exact Held.callsOnce_onRead (has conn) keeps
  | writes conn => exact Held.callsOnce_onWrite (has conn) keeps
  | works input task held_task descriptor =>
      exact Held.callsOnce_work (has task.conn) keeps.1 (keeps.2 task held_task descriptor)
  | wsWorks input item held_item descriptor =>
      exact Held.callsOnce_wsWork (has item.session.conn) keeps.1
        (keeps.2 item held_item descriptor)
  | expires conn => exact Held.callsOnce_reset (has conn) keeps

end EventLoop

theorem hasOnClose_update {connections : ConnId → Connection} {other : ConnId}
    {connection : Connection} (has : ∀ conn, (connections conn).HasOnClose)
    (put : connection.HasOnClose) :
    ∀ conn, (Function.update connections other connection conn).HasOnClose := by
  intro conn
  by_cases same : conn = other
  · rw [same, Function.update_self]
    exact put
  · rw [Function.update_of_ne same]
    exact has conn

theorem EventLoop.occupant_of_installs {el later : EventLoop}
    (installs : later.installs = el.installs) (conn : ConnId) :
    later.occupant conn = el.occupant conn := by
  unfold occupant
  rw [installs]

/-- How often `on_close_func_` has been called in a session. -/
def farewells (incidents : List (Session × Incident)) (session : Session) : Nat :=
  incidents.countP fun incident => incident.1 = session && incident.2.isOnClose

theorem farewells_append (first second : List (Session × Incident)) (session : Session) :
    farewells (first ++ second) session = farewells first session + farewells second session :=
  List.countP_append

theorem farewells_map (incidents : List Incident) (occupant session : Session) :
    farewells (incidents.map (Prod.mk occupant)) session =
      if session = occupant then incidents.countP Incident.isOnClose else 0 := by
  unfold farewells
  rw [List.countP_map]
  split
  next same =>
    subst same
    congr 1
    funext incident
    simp
  next other =>
    apply List.countP_eq_zero.mpr
    intro incident _
    simp [Ne.symm other]

namespace Recorded

/-- `on_close_func_` has been called at most once a session, and only when set. -/
structure CallsOnCloseOnce (recorded : Recorded) : Prop where
  once : ∀ session, farewells recorded.incidents session ≤ 1
  set : ∀ incident ∈ recorded.incidents, incident.2 ≠ .onClose none

/-- What holds as long as the handlers keep to `on_close_func_`. -/
structure Quiet (recorded : Recorded) : Prop extends recorded.CallsOnCloseOnce where
  has : ∀ conn, (recorded.el.connections conn).HasOnClose
  opened : recorded.ended = false → ∀ conn, 0 < (recorded.el.connections conn).fd →
    farewells recorded.incidents (recorded.el.occupant conn) = 0
  past : ∀ incident ∈ recorded.incidents,
    incident.1.number ≤ recorded.el.installs incident.1.conn

variable {config : Config} {recorded later : Recorded} {action : Action}

theorem quiet_initial : (initial config).Quiet := by
  refine ⟨⟨fun _ => Nat.zero_le 1, ?_⟩, fun _ => nofun, fun _ _ _ => rfl, ?_⟩
  · intro incident listed
    cases listed
  · intro incident listed
    cases listed

/-- The session that a new client begins has not had its `on_close_func_` called. -/
theorem Quiet.next_session (quiet : recorded.Quiet) (conn : ConnId) :
    farewells recorded.incidents ⟨conn, recorded.el.installs conn + 1⟩ = 0 := by
  apply List.countP_eq_zero.mpr
  intro incident listed counted
  have same : incident.1 = ⟨conn, recorded.el.installs conn + 1⟩ := by
    simpa using (Bool.and_eq_true_iff.mp counted).1
  have past := quiet.past incident listed
  rw [same] at past
  exact absurd past (Nat.not_succ_le_self _)

theorem Quiet.once_noted (quiet : recorded.Quiet) (running : recorded.ended = false)
    {locked : LockedSection}
    (calls : (recorded.el.hold locked.conn).CallsOnce locked.incidents locked.result)
    (session : Session) :
    farewells (recorded.incidents ++
      locked.incidents.map (Prod.mk (recorded.el.occupant locked.conn))) session ≤ 1 := by
  rw [farewells_append, farewells_map]
  split
  next same =>
    by_cases opened : 0 < (recorded.el.connections locked.conn).fd
    · rw [same, quiet.opened running locked.conn opened, Nat.zero_add]
      exact calls.once
    · rw [calls.closed opened, Nat.add_zero]
      exact quiet.once session
  next => exact quiet.once session

theorem Quiet.set_noted (quiet : recorded.Quiet) {locked : LockedSection}
    (calls : (recorded.el.hold locked.conn).CallsOnce locked.incidents locked.result) :
    ∀ incident ∈ recorded.incidents ++
      locked.incidents.map (Prod.mk (recorded.el.occupant locked.conn)),
        incident.2 ≠ .onClose none := by
  intro incident listed
  rcases List.mem_append.mp listed with early | late
  · exact quiet.set incident early
  · obtain ⟨other, member, rfl⟩ := List.mem_map.mp late
    intro unset
    exact calls.set (unset ▸ member)

theorem Quiet.past_noted (quiet : recorded.Quiet) (locked : LockedSection) :
    ∀ incident ∈ recorded.incidents ++
      locked.incidents.map (Prod.mk (recorded.el.occupant locked.conn)),
        incident.1.number ≤ recorded.el.installs incident.1.conn := by
  intro incident listed
  rcases List.mem_append.mp listed with early | late
  · exact quiet.past incident early
  · obtain ⟨other, member, rfl⟩ := List.mem_map.mp late
    exact Nat.le_refl _

theorem Quiet.locked (quiet : recorded.Quiet) (running : recorded.ended = false)
    {locked : LockedSection} (found : recorded.el.lockedSection config action = some locked)
    (calls : (recorded.el.hold locked.conn).CallsOnce locked.incidents locked.result)
    (stepped : recorded.step config action = some later) : later.Quiet := by
  have noted : recorded.el.incidents config action =
      locked.incidents.map (Prod.mk (recorded.el.occupant locked.conn)) := by
    rw [EventLoop.incidents, found]
  have back := EventLoop.putsBack_step found
  unfold EventLoop.PutsBack at back
  unfold Recorded.step at stepped
  rw [noted, if_neg (by simp [running])] at stepped
  dsimp only at stepped
  split at back
  next held result =>
    obtain ⟨el, taken, connections, installs⟩ := back
    rw [taken] at stepped
    cases stepped
    refine ⟨⟨quiet.once_noted running calls, quiet.set_noted calls⟩, ?_, ?_, ?_⟩
    · rw [connections]
      exact hasOnClose_update quiet.has (calls.has held result)
    · intro _ conn opened
      rw [connections] at opened
      rw [EventLoop.occupant_of_installs installs, farewells_append, farewells_map]
      by_cases same : conn = locked.conn
      · subst same
        rw [Function.update_self] at opened
        obtain ⟨before, silent⟩ := calls.quiet held result opened
        rw [quiet.opened running locked.conn before, if_pos rfl, silent]
      · rw [Function.update_of_ne same] at opened
        rw [quiet.opened running conn opened,
          if_neg (fun equal => same (congrArg Session.conn equal))]
    · rw [installs]
      exact quiet.past_noted locked
  next =>
    rw [back] at stepped
    obtain ⟨-, same⟩ := Option.ite_none_left_eq_some.mp stepped
    cases same
    exact ⟨⟨quiet.once_noted running calls, quiet.set_noted calls⟩, quiet.has,
      fun running => absurd running.symm Bool.false_ne_true, quiet.past_noted locked⟩

theorem Quiet.same {el : EventLoop} (quiet : recorded.Quiet) (running : recorded.ended = false)
    (connections : el.connections = recorded.el.connections)
    (installs : el.installs = recorded.el.installs) :
    Quiet ⟨el, recorded.incidents, false⟩ := by
  refine ⟨⟨quiet.once, quiet.set⟩, ?_, ?_, ?_⟩
  · rw [connections]
    exact quiet.has
  · intro _ conn opened
    rw [connections] at opened
    rw [EventLoop.occupant_of_installs installs]
    exact quiet.opened running conn opened
  · rw [installs]
    exact quiet.past

theorem Quiet.installs {el : EventLoop} {conn : ConnId} {connection : Connection}
    (quiet : recorded.Quiet) (running : recorded.ended = false) (has : connection.HasOnClose)
    (connections : el.connections = Function.update recorded.el.connections conn connection)
    (installs : el.installs =
      Function.update recorded.el.installs conn (recorded.el.installs conn + 1)) :
    Quiet ⟨el, recorded.incidents, false⟩ := by
  refine ⟨⟨quiet.once, quiet.set⟩, ?_, ?_, ?_⟩
  · rw [connections]
    exact hasOnClose_update quiet.has has
  · intro _ other opened
    unfold EventLoop.occupant
    rw [installs]
    by_cases same : other = conn
    · subst same
      rw [Function.update_self]
      exact quiet.next_session other
    · rw [connections, Function.update_of_ne same] at opened
      rw [Function.update_of_ne same]
      exact quiet.opened running other opened
  · intro incident listed
    rw [installs]
    have past := quiet.past incident listed
    by_cases same : incident.1.conn = conn
    · rw [same] at past ⊢
      rw [Function.update_self]
      exact Nat.le_succ_of_le past
    · rw [Function.update_of_ne same]
      exact past

theorem Quiet.sends {el : EventLoop} {conn : ConnId} {connection : Connection}
    (quiet : recorded.Quiet) (running : recorded.ended = false) (has : connection.HasOnClose)
    (fd : connection.fd = (recorded.el.connections conn).fd)
    (connections : el.connections = Function.update recorded.el.connections conn connection)
    (installs : el.installs = recorded.el.installs) :
    Quiet ⟨el, recorded.incidents, false⟩ := by
  refine ⟨⟨quiet.once, quiet.set⟩, ?_, ?_, ?_⟩
  · rw [connections]
    exact hasOnClose_update quiet.has has
  · intro _ other opened
    rw [EventLoop.occupant_of_installs installs]
    apply quiet.opened running other
    rw [connections] at opened
    by_cases same : other = conn
    · subst same
      rw [Function.update_self, fd] at opened
      exact opened
    · rwa [Function.update_of_ne same] at opened
  · rw [installs]
    exact quiet.past

theorem Quiet.unlocked (quiet : recorded.Quiet) (running : recorded.ended = false)
    (found : recorded.el.lockedSection config action = none)
    (stepped : recorded.step config action = some later) : later.Quiet := by
  have noted : recorded.el.incidents config action = [] := by
    rw [EventLoop.incidents, found]
  unfold Recorded.step at stepped
  rw [noted, if_neg (by simp [running]), List.append_nil] at stepped
  dsimp only at stepped
  rw [if_pos rfl] at stepped
  split at stepped
  next el taken =>
    cases stepped
    cases EventLoop.unlocked_of_step found taken with
    | same connections installs => exact quiet.same running connections installs
    | installs conn clifd addr now ready connections installs =>
        refine quiet.installs running ?_ connections installs
        unfold EventLoop.installIn
        split
        · exact quiet.has conn
        · exact Connection.hasOnClose_reset _
    | sends conn data writes connections installs =>
        refine quiet.sends running ?_ ?_ connections installs
        · apply Connection.hasOnClose_flush
          exact Connection.hasOnClose_writeString (quiet.has conn) data
        · rw [Connection.fd_flush, Connection.fd_writeString]
  next => cases stepped

theorem Quiet.step (quiet : recorded.Quiet) (keeps : recorded.el.KeepsFarewell config action)
    (stepped : recorded.step config action = some later) : later.Quiet := by
  have running : recorded.ended = false :=
    Bool.eq_false_iff.mpr (Option.ite_none_left_eq_some.mp stepped).1
  cases found : recorded.el.lockedSection config action with
  | none => exact quiet.unlocked running found stepped
  | some locked =>
      exact quiet.locked running found
        (EventLoop.callsOnce_lockedSection quiet.has keeps found) stepped

/-- As long as handlers leave no open WebSocket without its `on_close_func_`, that function
does not call `Close` and no `CLOSE` task is handed to it, it is called once a session. -/
theorem callsOnCloseOnce_of_keepsFarewell
    (reached : Reaches (step config)
      (fun recorded action => recorded.el.KeepsFarewell config action) (initial config)
      recorded) : recorded.CallsOnCloseOnce := by
  have quiet : recorded.Quiet :=
    reached.invariant quiet_initial (fun _ _ _ quiet keeps stepped => quiet.step keeps stepped)
  exact quiet.toCallsOnCloseOnce

/-- A client opens a WebSocket and goes away. -/
def leaves : List Action :=
  EventLoop.joining 5 1 ++ EventLoop.reading (EventLoop.arrival 2 [.ended .other])

/-- The application is told once. -/
theorem callsOnCloseOnce_leaves : ∃ recorded : Recorded,
    farewells recorded.incidents ⟨0, 1⟩ = 1 ∧ recorded.CallsOnCloseOnce := by
  have told : ∃ recorded ∈ replay (step EventLoop.chatConfig)
      (fun recorded action => recorded.el.KeepsFarewell EventLoop.chatConfig action)
      (initial EventLoop.chatConfig) leaves,
        farewells recorded.incidents ⟨0, 1⟩ = 1 := by decide +kernel
  obtain ⟨recorded, replayed, told⟩ := told
  exact ⟨recorded, told, callsOnCloseOnce_of_keepsFarewell (reaches_of_replay replayed)⟩

/-- A client sends an empty `CLOSE` frame, and goes away when it has been handled. -/
def saysGoodbye : List Action :=
  EventLoop.joining 5 1 ++
    EventLoop.reading (EventLoop.arrival 2 [.delivered 0x88 [0x00]]) ++
    [.takeWsTask, .runWsTask ⟨[], [], [], []⟩] ++
    EventLoop.reading (EventLoop.arrival 3 [.ended .other])

/-- The application is told twice. -/
theorem not_callsOnCloseOnce_close_frame :
    ¬ ∀ (config : Config) (recorded : Recorded),
      Reaches (step config) (fun _ _ => True) (initial config) recorded →
        recorded.CallsOnCloseOnce := by
  intro claim
  have told : ∃ recorded ∈ replay (step EventLoop.chatConfig) (fun _ _ => True)
      (initial EventLoop.chatConfig) saysGoodbye,
        farewells recorded.incidents ⟨0, 1⟩ = 2 := by decide +kernel
  obtain ⟨recorded, replayed, twice⟩ := told
  have once := (claim EventLoop.chatConfig recorded (reaches_of_replay replayed)).once ⟨0, 1⟩
  rw [twice] at once
  exact absurd once (by decide)

end Recorded

end Mevent
