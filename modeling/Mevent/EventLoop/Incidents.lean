import Mevent.EventLoop.Steps
import Mevent.Connection.Sending

/-!
# Incidents

What a section does beside its effect on the connection: it goes into the branch of
`ResetConnection` that closes the connection, or it calls `on_close_func_`.  A run that
records its incidents goes on until a section does not come to its end.
-/

namespace Mevent

open Library

/-- Who passes a connection to `ResetConnection`, and what it has gone by: the connection
that it has read from or flushed, and the seconds that the connection has been idle. -/
inductive ResetCaller where
  | onRead (connection : Connection) (reads : List ReadResult)
  | onWrite (connection : Connection) (writes : List WriteResult)
  | worker (connection : Connection) (writes : List WriteResult)
  | timeout (idle : Int)
  | close
  deriving DecidableEq, Repr

/-- `ResetConnection` closes a connection, or `on_close_func_` is called. -/
inductive Incident where
  | reset (upgraded : Bool) (caller : ResetCaller)
  | onClose (func : Option FuncId)
  deriving DecidableEq, Repr

namespace Held

/-- The incidents of `ResetConnection`; `nested` are those of `on_close_func_`. -/
def closingIncidents (caller : ResetCaller) (nested : List Incident) (held : Held) :
    List Incident :=
  if 0 < held.connection.fd then
    .reset (held.connection.req.status = .upgrade) caller ::
      if held.connection.req.status = .upgrade then
        .onClose held.connection.ws.onCloseFunc ::
          if held.connection.ws.onCloseFunc = none then [] else nested
      else
        []
  else
    []

variable (limits : Limits) (conn : ConnId)

mutual

def opIncidents : HandlerOp → Held → List Incident
  | .call _, _ => []
  | .close onClose, held => held.closingIncidents .close (opsIncidents onClose held)

def opsIncidents : List HandlerOp → Held → List Incident
  | [], _ => []
  | op :: ops, held =>
      opIncidents op held ++
        match held.runOp limits conn op with
        | some middle => opsIncidents ops middle
        | none => []

end

def resetIncidents (caller : ResetCaller) (onClose : List HandlerOp) (held : Held) :
    List Incident :=
  held.closingIncidents caller (opsIncidents limits conn onClose held)

def unlessAgainIncidents (caller : ResetCaller) (onClose : List HandlerOp)
    (status : ConnStatus) (held : Held) : List Incident :=
  if status = .again then [] else held.resetIncidents limits conn caller onClose

def onWriteIncidents (writes : List WriteResult) (onClose : List HandlerOp) (held : Held) :
    List Incident :=
  let flushed := held.connection.flush writes
  { held with connection := flushed.2 }.unlessAgainIncidents limits conn
    (.onWrite held.connection writes) onClose flushed.1

def onReadIncidents (input : ReadInput) (held : Held) : List Incident :=
  match held.connection.readData limits input.now input.reads with
  | some read =>
      let answered := answer read.status input.date input.writes read.conn
      { held with connection := answered.2 }.unlessAgainIncidents limits conn
        (.onRead held.connection input.reads) input.onClose answered.1
  | none => []

def finishIncidents (writes : List WriteResult) (onClose : List HandlerOp) (held : Held) :
    List Incident :=
  let flushed := held.connection.flush writes
  match flushed.1 with
  | .again => []
  | .upgrade => []
  | _ => { held with connection := flushed.2 }.resetIncidents limits conn
      (.worker held.connection writes) onClose

def requestIncidents (config : Config) (input : WorkInput) (held : Held) : List Incident :=
  match config.routes held.connection.req.path with
  | some _ => held.opsIncidents config.limits conn input.script
  | none => []

def workIncidents (config : Config) (input : WorkInput) (held : Held) : List Incident :=
  held.requestIncidents conn config input ++
    match held.handleRequest config conn input with
    | some handled =>
        (handled.flushUnlessUpgraded input.date).finishIncidents config.limits conn input.writes
          input.onClose
    | none => []

/-- The incidents of `handleMessage`: a `CLOSE` task is handed to `on_close_func_`. -/
def messageIncidents (config : Config) (opcode : WebSocketOpcodeType) (input : WorkInput)
    (held : Held) : List Incident :=
  match held.connection.ws.handlerFor opcode with
  | some func =>
      (if opcode = .close then [.onClose (some func)] else []) ++
        held.opsIncidents config.limits conn input.script
  | none => []

def wsWorkIncidents (config : Config) (opcode : WebSocketOpcodeType) (input : WorkInput)
    (held : Held) : List Incident :=
  held.messageIncidents conn config opcode input ++
    match held.handleMessage config conn opcode input with
    | some handled => handled.finishIncidents config.limits conn input.writes input.onClose
    | none => []

end Held

/-- A section under a connection's lock: its incidents and what it leaves behind, if the
process comes to its end. -/
structure LockedSection where
  conn : ConnId
  incidents : List Incident
  result : Option Held

namespace EventLoop

/-- The section of a step that may have incidents. -/
def lockedSection (config : Config) (el : EventLoop) : Action → Option LockedSection
  | .onRead conn input =>
      if el.loop = .moved conn then
        some ⟨conn, (el.hold conn).onReadIncidents config.limits conn input,
          ((el.hold conn).onRead config.limits conn input).map OnReadResult.held⟩
      else
        none
  | .onWrite conn writes onClose =>
      if el.loop = .between ∧ el.batch.head? = some (.writable conn) then
        some ⟨conn, (el.hold conn).onWriteIncidents config.limits conn writes onClose,
          (el.hold conn).onWrite config.limits conn writes onClose⟩
      else
        none
  | .runTask input =>
      el.worker.bind fun task =>
        if (el.connections task.conn).fd < 0 then
          none
        else
          some ⟨task.conn, (el.hold task.conn).workIncidents task.conn config input,
            (el.hold task.conn).work config task.conn input⟩
  | .runWsTask input =>
      el.wsWorker.bind fun item =>
        let conn := item.session.conn
        if (el.connections conn).fd < 0 then
          none
        else
          some ⟨conn, (el.hold conn).wsWorkIncidents conn config item.task.opcode input,
            (el.hold conn).wsWork config conn item.task.opcode input⟩
  | .expire onClose =>
      match el.timeout with
      | .checking now conn =>
          let activeTime := (el.connections conn).activeTime
          if 0 < activeTime ∧ config.idleTimeout ≤ now - activeTime then
            some ⟨conn, (el.hold conn).resetIncidents config.limits conn
              (.timeout (now - activeTime)) onClose,
              (el.hold conn).resetConnection config.limits conn onClose⟩
          else
            none
      | _ => none
  | _ => none

/-- The incidents of a step, each with the session that occupies the connection. -/
def incidents (config : Config) (el : EventLoop) (action : Action) :
    List (Session × Incident) :=
  match el.lockedSection config action with
  | some locked => locked.incidents.map (Prod.mk (el.occupant locked.conn))
  | none => []

end EventLoop

namespace Incident

def IsReset : Incident → Prop
  | .reset _ _ => True
  | .onClose _ => False

end Incident

namespace Held

variable {limits : Limits} {conn : ConnId} {held later : Held}

/-- If the descriptor of an open connection is gone, an incident tells that it has been
closed. -/
def Noted (held later : Held) (incidents : List Incident) : Prop :=
  0 < held.connection.fd → later.connection.fd < 0 → ∃ incident ∈ incidents, incident.IsReset

theorem Noted.of_fd {incidents : List Incident} (fd : later.connection.fd = held.connection.fd) :
    held.Noted later incidents := by
  intro opened closed
  rw [fd] at closed
  exact absurd closed (Int.not_lt.mpr (Int.le_of_lt opened))

theorem Noted.trans {middle : Held} {first second : List Incident}
    (handled : held.Handled middle) (before : held.Noted middle first)
    (behind : middle.Noted later second) : held.Noted later (first ++ second) := by
  intro opened closed
  rcases handled with gone | ⟨same_fd, -⟩
  · obtain ⟨incident, listed, is_reset⟩ := before opened gone
    exact ⟨incident, List.mem_append_left _ listed, is_reset⟩
  · obtain ⟨incident, listed, is_reset⟩ := behind (same_fd ▸ opened) closed
    exact ⟨incident, List.mem_append_right _ listed, is_reset⟩

theorem noted_closing (caller : ResetCaller) (nested : List Incident) :
    held.Noted later (held.closingIncidents caller nested) := by
  intro opened _
  rw [closingIncidents, if_pos opened]
  exact ⟨_, List.mem_cons_self, trivial⟩

theorem noted_runOps {ops : List HandlerOp} (ran : held.runOps limits conn ops = some later) :
    held.Noted later (held.opsIncidents limits conn ops) := by
  induction ops generalizing held with
  | nil =>
      rw [runOps] at ran
      cases ran
      exact .of_fd rfl
  | cons op ops inductionHypothesis =>
      rw [runOps] at ran
      obtain ⟨middle, first, rest⟩ := Option.bind_eq_some_iff.mp ran
      rw [opsIncidents, first]
      refine .trans (handled_runOp op held middle first) ?_ (inductionHypothesis rest)
      cases op with
      | call call =>
          rw [runOp] at first
          obtain ⟨connection, called, same⟩ := Option.map_eq_some_iff.mp first
          subst same
          exact .of_fd (Connection.call_effect called).fd
      | close onClose =>
          rw [opIncidents]
          exact noted_closing _ _

theorem noted_unlessAgain {caller : ResetCaller} {onClose : List HandlerOp} {status : ConnStatus}
    (reset : held.resetUnlessAgain limits conn onClose status = some later) :
    held.Noted later (held.unlessAgainIncidents limits conn caller onClose status) := by
  unfold resetUnlessAgain at reset
  unfold unlessAgainIncidents
  split at reset
  next =>
    cases reset
    exact .of_fd rfl
  next stops =>
    rw [if_neg stops]
    exact noted_closing _ _

theorem noted_onWrite {writes : List WriteResult} {onClose : List HandlerOp}
    (wrote : held.onWrite limits conn writes onClose = some later) :
    held.Noted later (held.onWriteIncidents limits conn writes onClose) := by
  have noted := @noted_unlessAgain _ _ _ _ (.onWrite held.connection writes) _ _ wrote
  intro opened closed
  have still : 0 < (held.connection.flush writes).2.fd := by rwa [Connection.fd_flush]
  exact noted still closed

theorem noted_onRead {input : ReadInput} {result : OnReadResult}
    (read : held.onRead limits conn input = some result) :
    held.Noted result.held (held.onReadIncidents limits conn input) := by
  obtain ⟨data, reading, answering⟩ := Option.bind_eq_some_iff.mp read
  obtain ⟨closed, closing, same⟩ := Option.map_eq_some_iff.mp answering
  subst same
  have noted := @noted_unlessAgain _ _ _ _ (.onRead held.connection input.reads) _ _ closing
  unfold onReadIncidents
  rw [reading]
  intro opened gone
  refine noted ?_ gone
  have same_fd : data.conn.fd = held.connection.fd := Connection.fd_readData reading
  have still : 0 < (answer data.status input.date input.writes data.conn).2.fd := by
    rwa [answer_effect.1, same_fd]
  exact still

theorem noted_finishWork {writes : List WriteResult} {onClose : List HandlerOp}
    (finished : held.finishWork limits conn writes onClose = some later) :
    held.Noted later (held.finishIncidents limits conn writes onClose) := by
  unfold finishWork at finished
  unfold finishIncidents
  dsimp only at finished ⊢
  cases status : (held.connection.flush writes).1 with
  | again =>
      rw [status] at finished
      cases finished
      exact .of_fd (Connection.fd_flush ..)
  | upgrade =>
      rw [status] at finished
      cases finished
      exact .of_fd (Connection.fd_flush ..)
  | _ =>
      intro opened closed
      have still : 0 < (held.connection.flush writes).2.fd := by rwa [Connection.fd_flush]
      exact @noted_closing _ later _ _ still closed

theorem noted_handleRequest {config : Config} {input : WorkInput}
    (handling : held.handleRequest config conn input = some later) :
    held.Handled later ∧ held.Noted later (held.requestIncidents conn config input) := by
  unfold handleRequest at handling
  unfold requestIncidents
  cases routed : config.routes held.connection.req.path with
  | some func =>
      rw [routed] at handling
      exact ⟨handled_runOps _ _ _ handling, noted_runOps handling⟩
  | none =>
      rw [routed] at handling
      cases handling
      have same_fd := Connection.fd_writeErrorMessage held.connection 404 input.date
      exact ⟨.inr ⟨same_fd, .inl (by rw [Connection.req_writeErrorMessage])⟩, .of_fd same_fd⟩

theorem noted_work {config : Config} {input : WorkInput}
    (worked : held.work config conn input = some later) :
    held.Noted later (held.workIncidents conn config input) := by
  obtain ⟨handled, handling, finished⟩ := Option.bind_eq_some_iff.mp worked
  obtain ⟨is_handled, noted⟩ := noted_handleRequest handling
  have same_fd : (handled.flushUnlessUpgraded input.date).connection.fd =
      handled.connection.fd := by
    unfold flushUnlessUpgraded
    split
    · rfl
    · exact Connection.fd_flushResponse ..
  unfold workIncidents
  rw [handling]
  refine .trans is_handled noted ?_
  intro opened closed
  exact noted_finishWork finished (same_fd.symm ▸ opened) closed

theorem noted_handleMessage {config : Config} {opcode : WebSocketOpcodeType} {input : WorkInput}
    (handling : held.handleMessage config conn opcode input = some later) :
    held.Handled later ∧ held.Noted later (held.messageIncidents conn config opcode input) := by
  unfold handleMessage at handling
  unfold messageIncidents
  cases set : held.connection.ws.handlerFor opcode with
  | some func =>
      rw [set] at handling
      refine ⟨handled_runOps _ _ _ handling, ?_⟩
      intro opened closed
      obtain ⟨incident, listed, is_reset⟩ := noted_runOps handling opened closed
      exact ⟨incident, List.mem_append_right _ listed, is_reset⟩
  | none =>
      rw [set] at handling
      cases handling
      exact ⟨.refl held, .of_fd rfl⟩

theorem noted_wsWork {config : Config} {opcode : WebSocketOpcodeType} {input : WorkInput}
    (worked : held.wsWork config conn opcode input = some later) :
    held.Noted later (held.wsWorkIncidents conn config opcode input) := by
  obtain ⟨handled, handling, finished⟩ := Option.bind_eq_some_iff.mp worked
  obtain ⟨is_handled, noted⟩ := noted_handleMessage handling
  unfold wsWorkIncidents
  rw [handling]
  exact noted.trans is_handled (noted_finishWork finished)

end Held

namespace EventLoop

variable {config : Config} {el later : EventLoop} {action : Action}

def PutsBack (el : EventLoop) (locked : LockedSection) (step : Option EventLoop) : Prop :=
  match locked.result with
  | some held => ∃ later, step = some later ∧
      later.connections = Function.update el.connections locked.conn held.connection ∧
      later.installs = el.installs
  | none => step = none

theorem putsBack_map {conn : ConnId} {incidents : List Incident} {result : Option Held}
    {ending : Held → EventLoop}
    (connections : ∀ held, (ending held).connections =
      Function.update el.connections conn held.connection)
    (installs : ∀ held, (ending held).installs = el.installs) :
    el.PutsBack ⟨conn, incidents, result⟩ (result.map ending) := by
  cases result with
  | none => exact rfl
  | some held => exact ⟨_, rfl, connections held, installs held⟩

/-- The sections that may have incidents, and when a step enters them. -/
inductive Locks (config : Config) (el : EventLoop) : Action → LockedSection → Prop where
  | reads (conn : ConnId) (input : ReadInput) : el.loop = .moved conn →
      Locks config el (.onRead conn input)
        ⟨conn, (el.hold conn).onReadIncidents config.limits conn input,
          ((el.hold conn).onRead config.limits conn input).map OnReadResult.held⟩
  | writes (conn : ConnId) (writes : List WriteResult) (onClose : List HandlerOp) :
      el.loop = .between ∧ el.batch.head? = some (.writable conn) →
      Locks config el (.onWrite conn writes onClose)
        ⟨conn, (el.hold conn).onWriteIncidents config.limits conn writes onClose,
          (el.hold conn).onWrite config.limits conn writes onClose⟩
  | works (input : WorkInput) (task : Session) : el.worker = some task →
      ¬ (el.connections task.conn).fd < 0 →
      Locks config el (.runTask input)
        ⟨task.conn, (el.hold task.conn).workIncidents task.conn config input,
          (el.hold task.conn).work config task.conn input⟩
  | wsWorks (input : WorkInput) (item : WebSocketTaskItem) : el.wsWorker = some item →
      ¬ (el.connections item.session.conn).fd < 0 →
      Locks config el (.runWsTask input)
        ⟨item.session.conn,
          (el.hold item.session.conn).wsWorkIncidents item.session.conn config item.task.opcode
            input,
          (el.hold item.session.conn).wsWork config item.session.conn item.task.opcode input⟩
  | expires (conn : ConnId) (now : Int) (onClose : List HandlerOp) :
      el.timeout = .checking now conn → 0 < (el.connections conn).activeTime →
      config.idleTimeout ≤ now - (el.connections conn).activeTime →
      Locks config el (.expire onClose)
        ⟨conn, (el.hold conn).resetIncidents config.limits conn
            (.timeout (now - (el.connections conn).activeTime)) onClose,
          (el.hold conn).resetConnection config.limits conn onClose⟩

theorem locks_of_lockedSection {locked : LockedSection}
    (found : el.lockedSection config action = some locked) : Locks config el action locked := by
  cases action <;> simp only [lockedSection, Option.ite_none_right_eq_some,
    Option.ite_none_left_eq_some, Option.bind_eq_some_iff, Option.some.injEq,
    reduceCtorEq] at found
  case onRead conn input =>
    obtain ⟨enabled, rfl⟩ := found
    exact .reads conn input enabled
  case onWrite conn writes onClose =>
    obtain ⟨enabled, rfl⟩ := found
    exact .writes conn writes onClose enabled
  case runTask input =>
    obtain ⟨task, held_task, descriptor, rfl⟩ := found
    exact .works input task held_task descriptor
  case runWsTask input =>
    obtain ⟨item, held_item, descriptor, rfl⟩ := found
    exact .wsWorks input item held_item descriptor
  case expire onClose =>
    split at found
    next now conn checking =>
      obtain ⟨⟨active, idle⟩, same⟩ := Option.ite_none_right_eq_some.mp found
      cases same
      exact .expires conn now onClose checking active idle
    next => cases found

theorem putsBack_step {locked : LockedSection}
    (found : el.lockedSection config action = some locked) :
    el.PutsBack locked (el.step config action) := by
  cases locks_of_lockedSection found with
  | reads conn input enabled =>
      rw [step_onRead enabled]
      cases (el.hold conn).onRead config.limits conn input with
      | none => exact rfl
      | some read =>
          exact ⟨_, rfl, push_connections _ conn read.pushed read.wsPushed,
            push_installs _ conn read.pushed read.wsPushed⟩
  | writes conn writes onClose enabled =>
      rw [step_onWrite enabled]
      exact putsBack_map (fun _ => rfl) (fun _ => rfl)
  | works input task held_task descriptor =>
      rw [step_runTask held_task descriptor]
      exact putsBack_map (fun _ => rfl) (fun _ => rfl)
  | wsWorks input item held_item descriptor =>
      rw [step_runWsTask held_item descriptor]
      exact putsBack_map (fun _ => rfl) (fun _ => rfl)
  | expires conn now onClose checking active idle =>
      rw [step_expire checking, checkTimeout]
      simp only [if_pos active, if_pos idle]
      exact putsBack_map (fun _ => rfl) (fun _ => rfl)

/-- What a step does to the connections without a section that may have incidents. -/
inductive Unlocked (config : Config) (el : EventLoop) : Action → EventLoop → Prop where
  | same {action : Action} {later : EventLoop} : later.connections = el.connections →
      later.installs = el.installs → Unlocked config el action later
  | installs {later : EventLoop} (conn : ConnId) (clifd : Int) (addr : UInt32) (now : Int)
      (ready : Bool) :
      later.connections = Function.update el.connections conn
        (installIn config conn clifd addr now ready (el.hold conn)).connection →
      later.installs = Function.update el.installs conn (el.installs conn + 1) →
      Unlocked config el (.install conn clifd addr now ready) later
  | sends {later : EventLoop} (conn : ConnId) (data : Bytes) (writes : List WriteResult) :
      later.connections = Function.update el.connections conn
        (((el.connections conn).writeString data).flush writes).2 →
      later.installs = el.installs → Unlocked config el (.safeWrite conn data writes) later

theorem enabled_of_onWrite {conn : ConnId} {writes : List WriteResult}
    {onClose : List HandlerOp}
    (stepped : el.step config (.onWrite conn writes onClose) = some later) :
    el.loop = .between ∧ el.batch.head? = some (.writable conn) := by
  by_contra disabled
  simp [step, stepLoop, if_neg disabled, stepWorker, stepWsWorker, stepTimeout,
    stepApplication] at stepped

theorem enabled_of_onRead {conn : ConnId} {input : ReadInput}
    (stepped : el.step config (.onRead conn input) = some later) : el.loop = .moved conn := by
  by_contra disabled
  simp [step, stepLoop, if_neg disabled, stepWorker, stepWsWorker, stepTimeout,
    stepApplication] at stepped

theorem connections_of_expire {onClose : List HandlerOp}
    (unlocked : el.lockedSection config (.expire onClose) = none)
    (stepped : el.step config (.expire onClose) = some later) :
    later.connections = el.connections ∧ later.installs = el.installs := by
  cases timeout : el.timeout with
  | checking now conn =>
      rw [step_expire timeout, checkTimeout] at stepped
      simp only [lockedSection, timeout, ite_eq_right_iff, reduceCtorEq, imp_false,
        not_and] at unlocked
      dsimp only at stepped
      split at stepped
      next active =>
        rw [if_neg (unlocked active)] at stepped
        cases stepped
        exact ⟨rfl, rfl⟩
      next =>
        cases stepped
        exact ⟨rfl, rfl⟩
  | _ => simp [step, stepLoop, stepWorker, stepWsWorker, stepTimeout, stepApplication,
      timeout] at stepped

theorem unlocked_of_step (unlocked : el.lockedSection config action = none)
    (stepped : el.step config action = some later) : Unlocked config el action later := by
  cases effect_of_step stepped with
  | moves => exact .same rfl rfl
  | pops => exact .same rfl rfl
  | installs conn clifd addr now ready => exact .installs conn clifd addr now ready rfl rfl
  | writes conn writes onClose held wrote =>
      simp [lockedSection, enabled_of_onWrite stepped] at unlocked
  | expires conn now onClose held reset =>
      obtain ⟨connections, installs⟩ := connections_of_expire unlocked stepped
      exact .same connections installs
  | sends conn data writes => exact .sends conn data writes rfl rfl
  | reads conn input read received =>
      simp [lockedSection, enabled_of_onRead stepped] at unlocked
  | takesTask => exact .same rfl rfl
  | dropsTask => exact .same rfl rfl
  | runsTask input task held held_task descriptor worked =>
      simp [lockedSection, held_task, descriptor] at unlocked
  | takesWsTask => exact .same rfl rfl
  | dropsWsTask => exact .same rfl rfl
  | runsWsTask input item held held_item descriptor worked =>
      simp [lockedSection, held_item, descriptor] at unlocked

theorem noted_lockedSection {locked : LockedSection} {held : Held}
    (found : el.lockedSection config action = some locked) (result : locked.result = some held) :
    (el.hold locked.conn).Noted held locked.incidents := by
  cases locks_of_lockedSection found with
  | reads conn input =>
      obtain ⟨read, received, same⟩ := Option.map_eq_some_iff.mp result
      subst same
      exact Held.noted_onRead received
  | writes => exact Held.noted_onWrite result
  | works => exact Held.noted_work result
  | wsWorks => exact Held.noted_wsWork result
  | expires => exact Held.noted_closing _ _

theorem of_update {connections : ConnId → Connection} {conn other : ConnId}
    {connection : Connection} (opened : ¬ (connections conn).fd < 0)
    (closed : (Function.update connections other connection conn).fd < 0) :
    other = conn ∧ connection.fd < 0 := by
  by_cases same : conn = other
  · subst same
    rw [Function.update_self] at closed
    exact ⟨rfl, closed⟩
  · rw [Function.update_of_ne same] at closed
    exact absurd closed opened

/-- A step that closes a connection has an incident that tells it, unless `Accept` gives
up a client. -/
theorem exists_reset_of_step {conn : ConnId} (stepped : el.step config action = some later)
    (opened : 0 < (el.connections conn).fd) (closed : (later.connections conn).fd < 0)
    (accepted : later.installs = el.installs) :
    ∃ incident ∈ el.incidents config action,
      incident.1 = el.occupant conn ∧ incident.2.IsReset := by
  have unchanged : ¬ (el.connections conn).fd < 0 := Int.not_lt.mpr (Int.le_of_lt opened)
  cases found : el.lockedSection config action with
  | none =>
      cases unlocked_of_step found stepped with
      | same connections => exact absurd (connections ▸ closed) unchanged
      | installs other clifd addr now ready _ installs =>
          have one_more := congrFun (accepted.symm.trans installs) other
          rw [Function.update_self] at one_more
          exact absurd one_more (Nat.ne_of_lt (Nat.lt_succ_self _))
      | sends other data writes connections =>
          obtain ⟨same, gone⟩ := of_update unchanged (connections ▸ closed)
          subst same
          rw [Connection.fd_flush, Connection.fd_writeString] at gone
          exact absurd gone unchanged
  | some locked =>
      have back := putsBack_step found
      unfold PutsBack at back
      split at back
      next held result =>
        obtain ⟨other, taken, connections, -⟩ := back
        cases taken.symm.trans stepped
        obtain ⟨same, gone⟩ := of_update unchanged (connections ▸ closed)
        subst same
        obtain ⟨incident, listed, is_reset⟩ := noted_lockedSection found result opened gone
        refine ⟨(el.occupant locked.conn, incident), ?_, rfl, is_reset⟩
        rw [incidents, found]
        exact List.mem_map_of_mem listed
      next => cases back.symm.trans stepped

end EventLoop

/-- A run with its incidents.  It has ended when the process has been aborted in a section
that had incidents before. -/
structure Recorded where
  el : EventLoop
  incidents : List (Session × Incident)
  ended : Bool

namespace Recorded

def initial (config : Config) : Recorded := ⟨.initial config, [], false⟩

/-- One step with its incidents.  There is none when the step is not enabled. -/
def step (config : Config) (recorded : Recorded) (action : Action) : Option Recorded :=
  if recorded.ended then
    none
  else
    let noted := recorded.incidents ++ recorded.el.incidents config action
    match recorded.el.step config action with
    | some later => some ⟨later, noted, false⟩
    | none =>
        if recorded.el.incidents config action = [] then none else some ⟨recorded.el, noted, true⟩

variable {config : Config} {recorded later : Recorded} {action : Action}

theorem incidents_of_step (stepped : recorded.step config action = some later) :
    later.incidents = recorded.incidents ++ recorded.el.incidents config action := by
  obtain ⟨-, stepped⟩ := Option.ite_none_left_eq_some.mp stepped
  split at stepped
  next => exact (Option.some.inj stepped) ▸ rfl
  next =>
    obtain ⟨-, same⟩ := Option.ite_none_left_eq_some.mp stepped
    exact (Option.some.inj same) ▸ rfl

theorem el_of_step (stepped : recorded.step config action = some later) :
    recorded.el.step config action = some later.el ∨ later.el = recorded.el := by
  obtain ⟨-, stepped⟩ := Option.ite_none_left_eq_some.mp stepped
  split at stepped
  next taken =>
    rw [taken, ← Option.some.inj stepped]
    exact .inl rfl
  next =>
    obtain ⟨-, same⟩ := Option.ite_none_left_eq_some.mp stepped
    exact .inr ((Option.some.inj same) ▸ rfl)

/-- A recorded run is a run of the event loop. -/
theorem reaches_el {allowed : Recorded → Action → Prop}
    (reached : Reaches (step config) allowed (initial config) recorded) :
    Reaches (EventLoop.step config) (fun _ _ => True) (.initial config) recorded.el := by
  refine reached.project Recorded.el ?_
  intro state action next stepped
  rcases el_of_step stepped with taken | same
  · exact .inr ⟨action, taken⟩
  · exact .inl same

end Recorded

end Mevent
