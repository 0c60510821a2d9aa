import Mevent.Basic
import Mevent.Library.Scanner

/-!
# `WebSocket`: making and parsing frames

`WebSocket::MakeFrame` puts a header in front of a message.
`WebSocket::Parse` consumes complete frames from the front of `rbuf_`, collects
their payloads in `cache_str_` and pushes a task whenever a payload is complete.
Every access to `rbuf_` is checked: an index or a range outside the buffer, or a
range that ends before it begins, ends the run with `outOfRange`.
-/

namespace Mevent

open Library

/-- `WebSocketOpcodeType`.  The enumeration is unscoped, so the four opcode bits
of a frame may also carry a value without a name. -/
inductive WebSocketOpcodeType where
  | continuation
  | textFrame
  | binaryFrame
  | close
  | ping
  | pong
  | reserved (code : Nat)
  deriving DecidableEq, Repr

namespace WebSocketOpcodeType

/-- `static_cast<WebSocketOpcodeType>`. -/
def ofCode : Nat → WebSocketOpcodeType
  | 0x0 => .continuation
  | 0x1 => .textFrame
  | 0x2 => .binaryFrame
  | 0x8 => .close
  | 0x9 => .ping
  | 0xa => .pong
  | code => .reserved code

def code : WebSocketOpcodeType → Nat
  | .continuation => 0x0
  | .textFrame => 0x1
  | .binaryFrame => 0x2
  | .close => 0x8
  | .ping => 0x9
  | .pong => 0xa
  | .reserved code => code

/-- The opcodes whose payloads are parts of a message. -/
def isData : WebSocketOpcodeType → Bool
  | .binaryFrame | .textFrame | .continuation => true
  | _ => false

end WebSocketOpcodeType

/-- `WebSocketHeader`. -/
structure WebSocketHeader where
  headerSize : Nat
  fin : Bool
  mask : Bool
  opcode : WebSocketOpcodeType
  len0 : Nat
  len : Nat
  maskingKey : Vector UInt8 4
  deriving DecidableEq

/-- The opcode and the message of a `WebSocketTaskItem`. -/
structure WebSocketTask where
  opcode : WebSocketOpcodeType
  msg : Bytes
  deriving DecidableEq, Repr

/-- `WebSocket`, without the pointer to its connection. -/
structure WebSocket where
  maxBufferSize : Nat
  rbuf : Bytes
  cacheStr : Bytes
  onMessageFunc : Option FuncId
  pingFunc : Option FuncId
  pongFunc : Option FuncId
  onCloseFunc : Option FuncId
  deriving DecidableEq, Repr

/-- Why `WebSocket::Parse` stops: it returns one of its two values, or it has
touched memory outside `rbuf_`. -/
inductive ParseExit where
  | returnsTrue
  | returnsFalse
  | outOfRange
  deriving DecidableEq, Repr

namespace WebSocket

/-- `WebSocket::Reset`, which the constructor calls as well. -/
def reset : WebSocket where
  maxBufferSize := 8192
  rbuf := []
  cacheStr := []
  onMessageFunc := none
  pingFunc := none
  pongFunc := none
  onCloseFunc := none

/-- `WebSocket::MakeFrame`. -/
def makeFrame (frameData message : Bytes) (opcode : UInt8) : Bytes :=
  let messageLen := message.length
  let byte (shift : Nat) : UInt8 := UInt8.ofNat ((messageLen >>> shift) &&& 0xff)
  let header : Bytes :=
    if messageLen < 126 then
      [0x80 ||| opcode, byte 0]
    else if messageLen < 65536 then
      [0x80 ||| opcode, 126, byte 8, byte 0]
    else
      [0x80 ||| opcode, 127, byte 56, byte 48, byte 40, byte 32,
        byte 24, byte 16, byte 8, byte 0]
  frameData ++ header ++ message

/-- `rbuf_[index]`. -/
def readByte (rbuf : Bytes) (index : Nat) : Except ParseExit UInt8 :=
  match rbuf[index]? with
  | some byte => .ok byte
  | none => .error .outOfRange

/-- The `|=` of `count` bytes from `index` on, the first one shifted furthest.
No two of the shifted bytes share a bit, so the disjunction is a sum. -/
def readLength (rbuf : Bytes) : (index count acc : Nat) → Except ParseExit Nat
  | _, 0, acc => .ok acc
  | index, count + 1, acc => do
      let byte ← readByte rbuf index
      readLength rbuf (index + 1) count (acc * 256 + byte.toNat)

/-- `wsh.masking_key[i] = data[index + i]`. -/
def readMaskingKey (rbuf : Bytes) (index : Nat) : Except ParseExit (Vector UInt8 4) := do
  let key0 ← readByte rbuf index
  let key1 ← readByte rbuf (index + 1)
  let key2 ← readByte rbuf (index + 2)
  let key3 ← readByte rbuf (index + 3)
  return #v[key0, key1, key2, key3]

/-- `wsh.header_size` before the header is complete. -/
def headerSizeOf (len0 : Nat) (mask : Bool) : Nat :=
  2 + (if len0 = 126 then 2 else if len0 = 127 then 8 else 0) + (if mask then 4 else 0)

/-- `wsh.len`, once the header is complete. -/
def readLen (rbuf : Bytes) (len0 : Nat) : Except ParseExit Nat :=
  if len0 < 126 then .ok len0
  else if len0 = 126 then readLength rbuf 2 2 0
  else if len0 = 127 then readLength rbuf 2 8 0
  else .ok 0

/-- A `wsh.masking_key` that is not read. -/
def noMaskingKey : Vector UInt8 4 := #v[0, 0, 0, 0]

/-- `wsh.masking_key`, which stays without a value in an unmasked frame. -/
def readKey (rbuf : Bytes) (mask : Bool) (headerSize : Nat) :
    Except ParseExit (Vector UInt8 4) :=
  if mask then readMaskingKey rbuf (headerSize - 4) else .ok noMaskingKey

/-- The part of one round that fills the `WebSocketHeader`. -/
def readHeader (rbuf : Bytes) : Except ParseExit WebSocketHeader :=
  if rbuf.length < 2 then
    .error .returnsTrue
  else do
    let data0 ← readByte rbuf 0
    let data1 ← readByte rbuf 1
    let mask := data1 &&& 0x80 == 0x80
    let len0 := (data1 &&& 0x7f).toNat
    let headerSize := headerSizeOf len0 mask
    if rbuf.length < headerSize then
      .error .returnsTrue
    else
      let len ← readLen rbuf len0
      let maskingKey ← readKey rbuf mask headerSize
      return {
        headerSize := headerSize
        fin := data0 &&& 0x80 == 0x80
        mask := mask
        opcode := .ofCode (data0 &&& 0x0f).toNat
        len0 := len0
        len := len
        maskingKey := maskingKey }

/-- `wsh.masking_key[i & 0x3]`. -/
def keyByte (maskingKey : Vector UInt8 4) (index : Nat) : UInt8 :=
  maskingKey.get ⟨index % 4, Nat.mod_lt _ (by decide)⟩

/-- The unmasking loop, with `count` rounds to go from `i = index` on. -/
def unmask (wsh : WebSocketHeader) :
    (count index : Nat) → Bytes → Except ParseExit Bytes
  | 0, _, rbuf => .ok rbuf
  | count + 1, index, rbuf => do
      let position := wrap64 (index + wsh.headerSize)
      let byte ← readByte rbuf position
      unmask wsh count (index + 1)
        (rbuf.set position (byte ^^^ keyByte wsh.maskingKey index))

/-- `if (wsh.mask && wsh.len > 0)` and the loop under it. -/
def unmaskFrame (wsh : WebSocketHeader) (rbuf : Bytes) : Except ParseExit Bytes :=
  if wsh.mask ∧ 0 < wsh.len then unmask wsh wsh.len 0 rbuf else .ok rbuf

/-- The bytes between two iterators of `rbuf_`, given by their distances from
`rbuf_.begin()`. -/
def copyRange (rbuf : Bytes) (first last : Nat) : Except ParseExit Bytes :=
  if first ≤ last ∧ last ≤ rbuf.length then
    .ok ((rbuf.take last).drop first)
  else
    .error .outOfRange

/-- `rbuf_.erase(rbuf_.begin(), rbuf_.begin() + last)`. -/
def eraseFront (rbuf : Bytes) (last : Nat) : Except ParseExit Bytes :=
  if last ≤ rbuf.length then .ok (rbuf.drop last) else .error .outOfRange

/-- The tasks pushed for a frame, and `cache_str_` afterwards. -/
def dispatch (opcode : WebSocketOpcodeType) (fin : Bool) (cacheStr : Bytes) :
    List WebSocketTask × Bytes :=
  match opcode with
  | .binaryFrame | .textFrame | .continuation =>
      if fin then ([⟨opcode, cacheStr⟩], []) else ([], cacheStr)
  | .ping => ([⟨.ping, cacheStr⟩], [])
  | .pong => ([⟨.pong, cacheStr⟩], cacheStr)
  | .close => ([⟨.close, cacheStr⟩], cacheStr)
  | .reserved _ => ([⟨.close, cacheStr⟩], cacheStr)

/-- The part of one round behind the length guards; `last` is
`wsh.header_size + wsh.len`. -/
def consumeFrame (ws : WebSocket) (wsh : WebSocketHeader) (last : Nat) :
    Except ParseExit (WebSocket × List WebSocketTask) := do
  let rbuf ← unmaskFrame wsh ws.rbuf
  let payload ← copyRange rbuf wsh.headerSize last
  let pushed := dispatch wsh.opcode wsh.fin (ws.cacheStr ++ payload)
  let rbuf ← eraseFront rbuf last
  return ({ ws with rbuf := rbuf, cacheStr := pushed.2 }, pushed.1)

/-- One round of the `while (true)` of `WebSocket::Parse`. -/
def parseFrame (ws : WebSocket) : Except ParseExit (WebSocket × List WebSocketTask) := do
  let wsh ← readHeader ws.rbuf
  let last := wrap64 (wsh.headerSize + wsh.len)
  if ws.rbuf.length < last then
    .error .returnsTrue
  else if ws.maxBufferSize < wrap64 (ws.cacheStr.length + wsh.len) then
    .error .returnsFalse
  else
    consumeFrame ws wsh last

end WebSocket

end Mevent
