import Mevent.Request.ReadData
import Mevent.Request.Forms
import Mevent.WebSocket.ReadData
import Mevent.WebSocket.Upgrade

/-!
# `Connection`

A connection holds one request, one response and one WebSocket, the strings that are
yet to be written, and its descriptor.  What the calls to the socket return is given to
each operation as a list of results.
-/

namespace Mevent

open Library

/-- `WriteBuffer`. -/
structure WriteBuffer where
  str : Bytes
  len : Nat
  writeLen : Nat
  deriving DecidableEq, Repr

/-- `WriteBuffer::WriteBuffer`. -/
def WriteBuffer.new (str : Bytes) : WriteBuffer := ⟨str, str.length, 0⟩

/-- `Connection`, without its lock and its pointers.  `ssl` tells whether `ssl_` is set. -/
structure Connection where
  fd : Int
  writeBufferChain : List WriteBuffer
  req : Request
  resp : Response
  ws : WebSocket
  activeTime : Int
  evWritable : Bool
  ssl : Bool
  deriving DecidableEq, Repr

/-- What a connection needs to know of its event loop and of the libraries it uses:
the limits for a request, and OpenSSL's digest. -/
structure Limits where
  maxHeaderSize : Nat
  maxPostSize : Nat
  sha1 : Bytes → Bytes

namespace Connection

/-- `Connection::Connection`. -/
def new : Connection where
  fd := -1
  writeBufferChain := []
  req := .reset
  resp := .reset
  ws := .reset
  activeTime := 0
  evWritable := false
  ssl := false

/-- `Connection::Reset`. -/
def reset (conn : Connection) : Connection :=
  { new with fd := if 0 < conn.fd then -1 else conn.fd }

/-- `Connection::WriteString` and `Connection::WriteData`. -/
def writeString (conn : Connection) (str : Bytes) : Connection :=
  if str = [] ∨ conn.fd < 0 then
    conn
  else
    { conn with writeBufferChain := conn.writeBufferChain ++ [.new str] }

/-- The loop of `Flush`: what it returns before the chain is empty, and the chain. -/
def flushChain (tls : Bool) :
    List WriteBuffer → List WriteResult → Option ConnStatus × List WriteBuffer
  | [], _ => (none, [])
  | wb :: chain, results =>
      let written := writen tls (wrap64 (wb.len + 2 ^ 64 - wb.writeLen)) results
      if 0 ≤ written.ret then
        let advanced := { wb with writeLen := wrap64 (wb.writeLen + written.ret.toNat) }
        if advanced.writeLen = wb.len then
          flushChain tls chain written.rest
        else
          (some .again, advanced :: chain)
      else
        (some .error, wb :: chain)

/-- What `Flush` returns when everything is written. -/
def drainedStatus (conn : Connection) : ConnStatus :=
  if conn.req.status = .upgrade then .upgrade
  else if conn.resp.finish then .finished
  else .again

/-- `Connection::Flush`. -/
def flush (conn : Connection) (results : List WriteResult) : ConnStatus × Connection :=
  if conn.fd < 0 then
    (.closed, conn)
  else
    let flushed := flushChain conn.ssl conn.writeBufferChain results
    (flushed.1.getD conn.drainedStatus, { conn with writeBufferChain := flushed.2 })

/-- What `ReadData` leaves behind: the connection, the value it returns, whether it has
called `TaskPush`, and what it has handed to `WebSocketTaskPush`. -/
structure ReadDataResult where
  conn : Connection
  status : ConnStatus
  pushed : Bool
  wsPushed : List WebSocketTask
  deriving DecidableEq, Repr

/-- `Connection::ReadData` at the time `now`. -/
def readData (limits : Limits) (conn : Connection) (now : Int) (results : List ReadResult) :
    Option ReadDataResult :=
  if conn.fd < 0 then
    some ⟨conn, .closed, false, []⟩
  else if conn.req.status = .upgrade then
    (conn.ws.readData conn.ssl results).map fun read =>
      ⟨{ conn with activeTime := now, ws := read.ws }, read.status, false, read.pushed⟩
  else
    (conn.req.readData conn.ssl limits.maxHeaderSize limits.maxPostSize results).map fun read =>
      ⟨{ conn with activeTime := now, req := read.req }, read.status, read.pushed, []⟩

/-- `Response::WriteErrorMessage`. -/
def writeErrorMessage (conn : Connection) (code : Int) (date : Bytes) : Connection :=
  let written := conn.writeString (Response.errorText code date)
  { written with resp := written.resp.writeErrorMessage }

/-- `Response::Flush`. -/
def flushResponse (conn : Connection) (date : Bytes) : Connection :=
  let flushed := conn.resp.flush date
  flushed.2.foldl writeString { conn with resp := flushed.1 }

/-- `WebSocket::Upgrade`. -/
def upgrade (limits : Limits) (conn : Connection) (date : Bytes) : Connection :=
  if conn.req.secWebsocketKey = [] then
    conn
  else
    let upgraded := { conn with req := { conn.req with status := .upgrade } }
    upgraded.writeString (WebSocket.handshake limits.sha1 conn.req.secWebsocketKey date)

/-- `WebSocket::WriteString`, `SendPing` and `SendPong`, by the opcode. -/
def sendFrame (conn : Connection) (opcode : WebSocketOpcodeType) (str : Bytes) : Connection :=
  conn.writeString (WebSocket.makeFrame [] str (UInt8.ofNat opcode.code))

end Connection

/-- The calls, other than `Connection::Close`, with which a handler changes its
connection.  Those that only read it are left out. -/
inductive Call where
  | parseHeader
  | parseQueryString
  | parsePostForm
  | resetResponse
  | writeErrorMessage (code : Int) (date : Bytes)
  | writeResponse (bytes : Bytes)
  | setHeader (field value : Bytes)
  | addHeader (field value : Bytes)
  | delHeader (field : Bytes)
  | upgrade (date : Bytes)
  | sendPong (str : Bytes)
  | sendPing (str : Bytes)
  | writeString (str : Bytes)
  | setOnMessageHandler (func : Option FuncId)
  | setPingHandler (func : Option FuncId)
  | setPongHandler (func : Option FuncId)
  | setOnCloseHandler (func : Option FuncId)
  | setMaxBufferSize (size : Nat)
  deriving DecidableEq, Repr

namespace Connection

/-- One call of a handler.  There is no result when the process ends in it. -/
def call (limits : Limits) (conn : Connection) : Call → Option Connection
  | .parseHeader => conn.req.parseHeader.map fun req => { conn with req := req }
  | .parseQueryString => some { conn with req := conn.req.parseQueryString }
  | .parsePostForm => conn.req.parsePostForm.map fun req => { conn with req := req }
  | .resetResponse => some { conn with resp := .reset }
  | .writeErrorMessage code date => some (conn.writeErrorMessage code date)
  | .writeResponse bytes => some { conn with resp := conn.resp.write bytes }
  | .setHeader field value => some { conn with resp := conn.resp.setHeader field value }
  | .addHeader field value => some { conn with resp := conn.resp.addHeader field value }
  | .delHeader field => some { conn with resp := conn.resp.delHeader field }
  | .upgrade date => some (conn.upgrade limits date)
  | .sendPong str => some (conn.sendFrame .pong str)
  | .sendPing str => some (conn.sendFrame .ping str)
  | .writeString str => some (conn.sendFrame .textFrame str)
  | .setOnMessageHandler func => some { conn with ws.onMessageFunc := func }
  | .setPingHandler func => some { conn with ws.pingFunc := func }
  | .setPongHandler func => some { conn with ws.pongFunc := func }
  | .setOnCloseHandler func => some { conn with ws.onCloseFunc := func }
  | .setMaxBufferSize size => some { conn with ws.maxBufferSize := size }

end Connection

end Mevent
