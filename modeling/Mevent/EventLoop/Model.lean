import Mevent.EventLoop.Sections
import Mevent.Pool.Threads

/-!
# `EventLoop`

The loop thread, the two workers and the timeout thread of an event loop.  Every section
under a mutex is one step; a section under a connection's lock includes the sections that
are nested in it.

Beside the state of the program the model keeps a history: how many descriptors `Accept`
has installed in each connection, which numbers the sessions of its clients, and what has
been pushed on and taken from the two queues.
-/

namespace Mevent

open Library

/-- A session: the period in which one client occupies a connection. -/
structure Session where
  conn : ConnId
  number : Nat
  deriving DecidableEq, Repr

/-- A `WebSocketTaskItem`, with the session that has pushed it. -/
structure WebSocketTaskItem where
  session : Session
  task : WebSocketTask
  deriving DecidableEq, Repr

/-- What `WorkerThread` finds when it runs a handler or answers with 404: whose task it
has taken, which session occupies the connection, and the status of the request. -/
structure HandlerRun where
  task : Session
  occupant : Session
  status : RequestStatus
  deriving DecidableEq, Repr

/-- What `WebSocketWorkerThread` does with an item that it has taken: it hands it to the
handler for its opcode while `occupant` occupies the connection, or it drops it because
the connection has no descriptor. -/
structure Processed where
  item : WebSocketTaskItem
  occupant : Option Session
  deriving DecidableEq, Repr

/-- Where `CheckConnectionTimeout` is, with its variable `now`. -/
inductive TimeoutPoint where
  | starting
  | first (now : Int)
  | peeking (now : Int) (conn : ConnId)
  | checking (now : Int) (conn : ConnId)
  | following (now : Int)
  deriving DecidableEq, Repr

/-- `EventLoop`, its threads and its history. -/
structure EventLoop where
  pool : ConnectionPool
  connections : ConnId → Connection
  taskQue : List Session
  wsTaskQue : List WebSocketTaskItem
  batch : List Pool.Event
  loop : Pool.LoopPoint
  worker : Option Session
  wsWorker : Option WebSocketTaskItem
  timeout : TimeoutPoint
  installs : ConnId → Nat
  pushed : List Session
  runs : List HandlerRun
  wsPushed : List WebSocketTaskItem
  processed : List Processed

/-- The steps of the threads.  `safeWrite` is a call of one of the functions of
`WebSocket` that take the lock themselves, by a thread of the application. -/
inductive Action where
  | poll (events : List Pool.Event)
  | beginAccept
  | accepted (clifd : Int)
  | wouldBlock
  | install (conn : ConnId) (clifd : Int) (addr : UInt32) (now : Int) (ready : Bool)
  | updateErase (conn : ConnId)
  | updatePush (conn : ConnId)
  | onRead (conn : ConnId) (input : ReadInput)
  | onWrite (conn : ConnId) (writes : List WriteResult) (onClose : List HandlerOp)
  | takeTask
  | runTask (input : WorkInput)
  | takeWsTask
  | runWsTask (input : WorkInput)
  | timeoutCheck (now : Int)
  | checkFirst
  | peek
  | expire (onClose : List HandlerOp)
  | checkNext
  | safeWrite (conn : ConnId) (data : Bytes) (writes : List WriteResult)

namespace EventLoop

/-- Behind the start of the threads in `Loop`. -/
def initial (config : Config) : EventLoop where
  pool := .new config.maxWorkerConnections
  connections := fun _ => .new
  taskQue := []
  wsTaskQue := []
  batch := []
  loop := .between
  worker := none
  wsWorker := none
  timeout := .starting
  installs := fun _ => 0
  pushed := []
  runs := []
  wsPushed := []
  processed := []

/-- The session that occupies a connection, or the last one that has. -/
def occupant (el : EventLoop) (conn : ConnId) : Session := ⟨conn, el.installs conn⟩

/-- `Poll` reports only descriptors that are registered, hence open. -/
def Reports (el : EventLoop) : Pool.Event → Prop
  | .listening => True
  | .readable conn | .writable conn => 0 ≤ (el.connections conn).fd

instance (el : EventLoop) : DecidablePred el.Reports
  | .listening => inferInstanceAs (Decidable True)
  | .readable conn | .writable conn => inferInstanceAs (Decidable (0 ≤ (el.connections conn).fd))

/-- The connection as a section finds it. -/
def hold (el : EventLoop) (conn : ConnId) : Held := ⟨el.connections conn, el.pool⟩

/-- What a section under the lock of `conn` leaves behind. -/
def put (el : EventLoop) (conn : ConnId) (held : Held) : EventLoop :=
  { el with
    pool := held.pool
    connections := Function.update el.connections conn held.connection }

section Put

variable (el : EventLoop) (conn : ConnId) (held : Held)

@[simp]
theorem put_taskQue : (el.put conn held).taskQue = el.taskQue := rfl

@[simp]
theorem put_wsTaskQue : (el.put conn held).wsTaskQue = el.wsTaskQue := rfl

@[simp]
theorem put_worker : (el.put conn held).worker = el.worker := rfl

@[simp]
theorem put_wsWorker : (el.put conn held).wsWorker = el.wsWorker := rfl

@[simp]
theorem put_installs : (el.put conn held).installs = el.installs := rfl

@[simp]
theorem put_pushed : (el.put conn held).pushed = el.pushed := rfl

@[simp]
theorem put_runs : (el.put conn held).runs = el.runs := rfl

@[simp]
theorem put_wsPushed : (el.put conn held).wsPushed = el.wsPushed := rfl

@[simp]
theorem put_processed : (el.put conn held).processed = el.processed := rfl

@[simp]
theorem put_connections : (el.put conn held).connections =
    Function.update el.connections conn held.connection := rfl

end Put

/-- `TaskPush`, if it is called. -/
def taskPush (el : EventLoop) (conn : ConnId) (pushed : Bool) : EventLoop :=
  if pushed then
    { el with
      taskQue := el.taskQue ++ [el.occupant conn]
      pushed := el.pushed ++ [el.occupant conn] }
  else
    el

/-- `WebSocketTaskPush`, for each of the tasks. -/
def wsTaskPush (el : EventLoop) (conn : ConnId) (tasks : List WebSocketTask) : EventLoop :=
  let items := tasks.map (WebSocketTaskItem.mk (el.occupant conn))
  { el with
    wsTaskQue := el.wsTaskQue ++ items
    wsPushed := el.wsPushed ++ items }

/-- The section of `Accept` under the connection's lock.  `ready` tells whether
`set_nonblock`, `setsockopt`, `Add` and `CreateSSL` all succeed. -/
def installIn (config : Config) (conn : ConnId) (clifd : Int) (addr : UInt32) (now : Int)
    (ready : Bool) (held : Held) : Held :=
  let installed := { held.connection with
    activeTime := now
    fd := clifd
    req := { held.connection.req with addr := addr } }
  if ready then
    { connection := { installed with ssl := config.tls }
      pool := held.pool.activeListPush conn }
  else
    { connection := installed.reset
      pool := held.pool.freeListPush conn }

/-- `Loop` and `Accept`. -/
def stepLoop (config : Config) (el : EventLoop) : Action → Option EventLoop
  | .poll events =>
      if el.loop = .between ∧ el.batch = [] ∧ ∀ event ∈ events, el.Reports event then
        some { el with batch := events }
      else
        none
  | .beginAccept =>
      if el.loop = .between ∧ el.batch.head? = some .listening then
        some { el with batch := el.batch.tail, loop := .accepting }
      else
        none
  | .accepted clifd =>
      if el.loop = .accepting ∧ 0 ≤ clifd then
        some <| match el.pool.freeListPop with
          | (none, pool) => { el with pool := pool, loop := .between }
          | (some conn, pool) => { el with pool := pool, loop := .popped conn clifd }
      else
        none
  | .wouldBlock => if el.loop = .accepting then some { el with loop := .between } else none
  | .install conn clifd addr now ready =>
      if el.loop = .popped conn clifd then
        some { el.put conn (installIn config conn clifd addr now ready (el.hold conn)) with
          loop := .accepting
          installs := Function.update el.installs conn (el.installs conn + 1) }
      else
        none
  | .updateErase conn =>
      if el.loop = .between ∧ el.batch.head? = some (.readable conn) then
        some { el with
          pool := el.pool.activeListErase conn
          batch := el.batch.tail
          loop := .moving conn }
      else
        none
  | .updatePush conn =>
      if el.loop = .moving conn then
        some { el with pool := el.pool.activeListPush conn, loop := .moved conn }
      else
        none
  | .onRead conn input =>
      if el.loop = .moved conn then
        ((el.hold conn).onRead config.limits conn input).map fun read =>
          { ((el.put conn read.held).taskPush conn read.pushed).wsTaskPush conn
              read.wsPushed with loop := .between }
      else
        none
  | .onWrite conn writes onClose =>
      if el.loop = .between ∧ el.batch.head? = some (.writable conn) then
        ((el.hold conn).onWrite config.limits conn writes onClose).map fun held =>
          { el.put conn held with batch := el.batch.tail }
      else
        none
  | _ => none

/-- `WorkerThread`. -/
def stepWorker (config : Config) (el : EventLoop) : Action → Option EventLoop
  | .takeTask =>
      if el.worker = none then
        match el.taskQue with
        | [] => none
        | task :: rest => some { el with taskQue := rest, worker := some task }
      else
        none
  | .runTask input =>
      match el.worker with
      | none => none
      | some task =>
          if (el.connections task.conn).fd < 0 then
            some { el with worker := none }
          else
            ((el.hold task.conn).work config task.conn input).map fun held =>
              { el.put task.conn held with
                worker := none
                runs := el.runs ++
                  [⟨task, el.occupant task.conn, (el.connections task.conn).req.status⟩] }
  | _ => none

/-- `WebSocketWorkerThread`. -/
def stepWsWorker (config : Config) (el : EventLoop) : Action → Option EventLoop
  | .takeWsTask =>
      if el.wsWorker = none then
        match el.wsTaskQue with
        | [] => none
        | item :: rest => some { el with wsTaskQue := rest, wsWorker := some item }
      else
        none
  | .runWsTask input =>
      match el.wsWorker with
      | none => none
      | some item =>
          let conn := item.session.conn
          if (el.connections conn).fd < 0 then
            some { el with wsWorker := none, processed := el.processed ++ [⟨item, none⟩] }
          else
            ((el.hold conn).wsWork config conn item.task.opcode input).map fun held =>
              { el.put conn held with
                wsWorker := none
                processed := el.processed ++ [⟨item, some (el.occupant conn)⟩] }
  | _ => none

/-- A connection that `CheckConnectionTimeout` has locked in its inner loop. -/
def checkTimeout (config : Config) (el : EventLoop) (now : Int) (conn : ConnId)
    (onClose : List HandlerOp) : Option EventLoop :=
  let activeTime := (el.connections conn).activeTime
  if 0 < activeTime then
    if config.idleTimeout ≤ now - activeTime then
      ((el.hold conn).resetConnection config.limits conn onClose).map fun held =>
        { el.put conn held with timeout := .following now }
    else
      some { el with timeout := .starting }
  else
    some { el with timeout := .following now }

/-- `CheckConnectionTimeout`. -/
def stepTimeout (config : Config) (el : EventLoop) : Action → Option EventLoop
  | .timeoutCheck now =>
      if el.timeout = .starting then
        some { el with pool := el.pool.activeListTimeoutCheck, timeout := .first now }
      else
        none
  | .checkFirst =>
      match el.timeout with
      | .first now =>
          some { el with
            pool := el.pool.activeListCheckNext.2
            timeout :=
              match el.pool.activeListCheckNext.1 with
              | some conn => .peeking now conn
              | none => .starting }
      | _ => none
  | .peek =>
      match el.timeout with
      | .peeking now conn =>
          let activeTime := (el.connections conn).activeTime
          if 0 < activeTime ∧ now - activeTime < config.idleTimeout then
            some { el with timeout := .starting }
          else
            some { el with timeout := .checking now conn }
      | _ => none
  | .expire onClose =>
      match el.timeout with
      | .checking now conn => el.checkTimeout config now conn onClose
      | _ => none
  | .checkNext =>
      match el.timeout with
      | .following now =>
          some { el with
            pool := el.pool.activeListCheckNext.2
            timeout :=
              match el.pool.activeListCheckNext.1 with
              | some conn => .checking now conn
              | none => .starting }
      | _ => none
  | _ => none

/-- The functions of `WebSocket` that any thread of the application may call. -/
def stepApplication (el : EventLoop) : Action → Option EventLoop
  | .safeWrite conn data writes =>
      let written := (el.connections conn).writeString data
      some (el.put conn ⟨(written.flush writes).2, el.pool⟩)
  | _ => none

def step (config : Config) (el : EventLoop) (action : Action) : Option EventLoop :=
  (el.stepLoop config action).or <| (el.stepWorker config action).or <|
    (el.stepWsWorker config action).or <| (el.stepTimeout config action).or <|
      el.stepApplication action

end EventLoop

end Mevent
