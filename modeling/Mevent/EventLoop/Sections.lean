import Mevent.Connection.Model
import Mevent.Pool.Lists

/-!
# What a thread does under a connection's lock

`ResetConnection`, `OnRead`, `OnWrite` and the bodies of the workers.  A handler is given
by the calls that it makes on its connection; each `Close` among them carries the calls
of the `on_close_func_` that it may lead to.
-/

namespace Mevent

inductive HandlerOp where
  | close (onClose : List HandlerOp)
  | call (call : Call)

/-- The settings of an event loop: the limits, the functions of its handler by path,
and whether `ssl_ctx_` is set. -/
structure Config where
  limits : Limits
  routes : Bytes → Option FuncId
  tls : Bool
  idleTimeout : Int
  maxWorkerConnections : Nat

/-- The connection that a thread has locked, and the pool. -/
structure Held where
  connection : Connection
  pool : ConnectionPool

namespace Held

/-- `ResetConnection` behind `OnClose`. -/
def release (conn : ConnId) (held : Held) : Held where
  connection := held.connection.reset
  pool := (held.pool.freeListPush conn).activeListErase conn

variable (limits : Limits) (conn : ConnId)

mutual

/-- One call of a handler.  `Close` is `ResetConnection`, which has no effect on a
connection without a descriptor.  There is no result when `OnClose` calls an empty
function. -/
def runOp : HandlerOp → Held → Option Held
  | .call call, held =>
      (held.connection.call limits call).map fun connection =>
        { held with connection := connection }
  | .close onClose, held =>
      if 0 < held.connection.fd then
        if held.connection.req.status = .upgrade then
          if held.connection.ws.onCloseFunc = none then
            none
          else
            (runOps onClose held).map (release conn)
        else
          some (held.release conn)
      else
        some held

def runOps : List HandlerOp → Held → Option Held
  | [], held => some held
  | op :: ops, held => (runOp op held).bind (runOps ops)

end

/-- `EventLoop::ResetConnection`; `onClose` is what `on_close_func_` does. -/
def resetConnection (onClose : List HandlerOp) (held : Held) : Option Held :=
  held.runOp limits conn (.close onClose)

/-- `ResetConnection`, unless a status is `AGAIN`. -/
def resetUnlessAgain (onClose : List HandlerOp) (status : ConnStatus) (held : Held) :
    Option Held :=
  if status = .again then some held else held.resetConnection limits conn onClose

/-- `EventLoop::OnWrite`. -/
def onWrite (writes : List WriteResult) (onClose : List HandlerOp) (held : Held) :
    Option Held :=
  let flushed := held.connection.flush writes
  { held with connection := flushed.2 }.resetUnlessAgain limits conn onClose flushed.1

/-- What `EventLoop::OnRead` does with the status that `ReadData` returns. -/
def answer (status : ConnStatus) (date : Bytes) (writes : List WriteResult)
    (connection : Connection) : ConnStatus × Connection :=
  if status = .error ∧ connection.req.errorCode ≠ 0 then
    (connection.writeErrorMessage connection.req.errorCode date).flush writes
  else
    (status, connection)

end Held

/-- What the calls of one `OnRead` return: the clock, the socket, and what
`on_close_func_` does if it is called. -/
structure ReadInput where
  now : Int
  date : Bytes
  reads : List ReadResult
  writes : List WriteResult
  onClose : List HandlerOp

/-- What `OnRead` leaves behind: the connection and the pool, whether a task has been
pushed, and the WebSocket tasks that have been pushed. -/
structure OnReadResult where
  held : Held
  pushed : Bool
  wsPushed : List WebSocketTask

namespace Held

/-- `EventLoop::OnRead`. -/
def onRead (limits : Limits) (conn : ConnId) (input : ReadInput) (held : Held) :
    Option OnReadResult :=
  (held.connection.readData limits input.now input.reads).bind fun read =>
    let answered := answer read.status input.date input.writes read.conn
    ({ held with connection := answered.2 }.resetUnlessAgain limits conn input.onClose
      answered.1).map fun held => ⟨held, read.pushed, read.wsPushed⟩

/-- The end of the bodies of both workers. -/
def finishWork (limits : Limits) (conn : ConnId) (writes : List WriteResult)
    (onClose : List HandlerOp) (held : Held) : Option Held :=
  let flushed := held.connection.flush writes
  let kept := { held with connection := flushed.2 }
  match flushed.1 with
  | .again => some { kept with connection.evWritable := true }
  | .upgrade => some kept
  | _ => kept.resetConnection limits conn onClose

end Held

/-- What a worker's section depends on: what the handler does, the clock, the socket, and
what `on_close_func_` does if it is called. -/
structure WorkInput where
  script : List HandlerOp
  date : Bytes
  writes : List WriteResult
  onClose : List HandlerOp

namespace Held

def handleRequest (config : Config) (conn : ConnId) (input : WorkInput) (held : Held) :
    Option Held :=
  match config.routes held.connection.req.path with
  | some _ => held.runOps config.limits conn input.script
  | none => some { held with connection := held.connection.writeErrorMessage 404 input.date }

/-- `resp->Flush()`, unless the request has been upgraded. -/
def flushUnlessUpgraded (date : Bytes) (held : Held) : Held :=
  if held.connection.req.status = .upgrade then
    held
  else
    { held with connection := held.connection.flushResponse date }

/-- The body of `WorkerThread` on a connection with a descriptor. -/
def work (config : Config) (conn : ConnId) (input : WorkInput) (held : Held) : Option Held :=
  (held.handleRequest config conn input).bind fun handled =>
    (handled.flushUnlessUpgraded input.date).finishWork config.limits conn input.writes
      input.onClose

end Held

/-- The function that `WebSocketWorkerThread` calls for an opcode. -/
def WebSocket.handlerFor (ws : WebSocket) : WebSocketOpcodeType → Option FuncId
  | .binaryFrame | .continuation | .textFrame => ws.onMessageFunc
  | .ping => ws.pingFunc
  | .pong => ws.pongFunc
  | .close => ws.onCloseFunc
  | .reserved _ => none

namespace Held

def handleMessage (config : Config) (conn : ConnId) (opcode : WebSocketOpcodeType)
    (input : WorkInput) (held : Held) : Option Held :=
  match held.connection.ws.handlerFor opcode with
  | some _ => held.runOps config.limits conn input.script
  | none => some held

/-- The body of `WebSocketWorkerThread` on a connection with a descriptor. -/
def wsWork (config : Config) (conn : ConnId) (opcode : WebSocketOpcodeType)
    (input : WorkInput) (held : Held) : Option Held :=
  (held.handleMessage config conn opcode input).bind fun handled =>
    handled.finishWork config.limits conn input.writes input.onClose

end Held

end Mevent
