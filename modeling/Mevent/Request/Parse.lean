import Mevent.Request.Tables
import Mevent.Library.OrderedMap
import Mevent.Library.Scanner

/-!
# The request parser

`Request::Parse` is a resumable state machine over `rbuf_`.  It has one handler
for each state, which looks at the byte at `parse_offset_`.  A handler reads the
buffer through checked accesses: an index outside the buffer or a subtraction of
offsets that would wrap ends the run with `outOfRange`.
-/

namespace Mevent

open Library

/-- `RequestStatus`. -/
inductive RequestStatus where
  | headerReceiving
  | bodyReceiving
  | bodyReceived
  | upgrade
  deriving DecidableEq, Repr

/-- `RequestParseStatus`. -/
inductive RequestParseStatus where
  | start
  | method
  | methodP
  | path
  | queryString
  | contentLength
  | contentLengthV
  | contentType
  | contentTypeV
  | secWebsocketKey
  | secWebsocketKeyV
  | upgrade
  | eol
  | headerField
  | eoh
  deriving DecidableEq, Repr

/-- `HTTPParserStatus`, and the end of a run that has left the buffer. -/
inductive HTTPParserStatus where
  | continues
  | error
  | finished
  | outOfRange
  deriving DecidableEq, Repr

/-- `Request`, without the pointer to its connection. -/
structure Request where
  status : RequestStatus
  addr : UInt32
  rbuf : Bytes
  rbufLen : Nat
  method : RequestMethod
  path : Bytes
  queryString : Bytes
  contentLength : Nat
  headerLen : Nat
  parseStatus : RequestParseStatus
  parseOffset : Nat
  parseMatch : Nat
  errorCode : Nat
  contentType : Bytes
  secWebsocketKey : Bytes
  headerMap : OrderedMap Bytes Bytes
  getFormMap : OrderedMap Bytes Bytes
  postFormMap : OrderedMap Bytes Bytes
  deriving DecidableEq, Repr

namespace Request

/-- `Request::Reset`, which the constructor calls as well. -/
def reset : Request where
  status := .headerReceiving
  addr := 0
  rbuf := []
  rbufLen := 0
  method := .unknown
  path := []
  queryString := []
  contentLength := 0
  headerLen := 0
  parseStatus := .start
  parseOffset := 0
  parseMatch := 0
  errorCode := 0
  contentType := []
  secWebsocketKey := []
  headerMap := []
  getFormMap := []
  postFormMap := []

/-- How a handler leaves the body of the `while` loop: at its end, where
`parse_offset_` is incremented, by `continue`, or by `break`. -/
inductive Handled where
  | bottom (req : Request)
  | again (req : Request)
  | break (req : Request) (status : HTTPParserStatus)

/-- `rbuf_[index]`, handed to the rest of the handler. -/
def withByte (req : Request) (index : Nat) (rest : UInt8 → Handled) : Handled :=
  match req.rbuf[index]? with
  | some ch => rest ch
  | none => .break req .outOfRange

/-- `parse_offset_ - parse_match_`, handed to the rest of the handler. -/
def withDistance (req : Request) (rest : Nat → Handled) : Handled :=
  if req.parseMatch ≤ req.parseOffset then rest (req.parseOffset - req.parseMatch)
  else .break req .outOfRange

/-- `name[index]`, where the terminating zero may be read as well. -/
def withNameByte (req : Request) (name : Bytes) (index : Nat)
    (rest : UInt8 → Handled) : Handled :=
  match (name ++ [0])[index]? with
  | some c => rest c
  | none => .break req .outOfRange

/-- `S_EOL`. -/
def handleEol (req : Request) (c : UInt8) : Handled :=
  if c = lf then
    if req.parseOffset = 0 then
      .break req .outOfRange
    else
      req.withByte (req.parseOffset - 1) fun previous =>
        if previous = cr then
          .bottom { req with parseStatus := .headerField, parseMatch := req.parseOffset }
        else
          .break req .error
  else
    .bottom req

/-- `S_START`. -/
def handleStart (req : Request) (c : UInt8) : Handled :=
  let req := { req with parseStatus := .method }
  if c = 'g'.toUInt8 then .bottom { req with method := .get }
  else if c = 'p'.toUInt8 then .bottom { req with parseStatus := .methodP }
  else if c = 'h'.toUInt8 then .bottom { req with method := .head }
  else if c = 'd'.toUInt8 then .bottom { req with method := .delete }
  else if c = 'c'.toUInt8 then .bottom { req with method := .connect }
  else if c = 'o'.toUInt8 then .bottom { req with method := .options }
  else if c = 't'.toUInt8 then .bottom { req with method := .trace }
  else if c = 'p'.toUInt8 then .bottom { req with method := .patch }
  else .break { req with parseStatus := .start } .error

/-- `S_METHOD`. -/
def handleMethod (req : Request) (c : UInt8) : Handled :=
  match req.method.name with
  | none => .break req .error
  | some name =>
      if name.length - 1 < req.parseOffset then
        if c ≠ space then
          if req.parseOffset = name.length then
            .break req .error
          else
            .again { req with parseStatus := .path, parseMatch := req.parseOffset }
        else
          .bottom req
      else
        req.withDistance fun distance =>
          req.withNameByte name distance fun expected =>
            if expected ≠ c then .break req .error else .bottom req

/-- `S_METHOD_P`. -/
def handleMethodP (req : Request) (c : UInt8) : Handled :=
  let req := { req with parseStatus := .method }
  if c = 'o'.toUInt8 then .bottom { req with method := .post }
  else if c = 'u'.toUInt8 then .bottom { req with method := .put }
  else if c = 'a'.toUInt8 then .bottom { req with method := .patch }
  else .break req .error

/-- `S_PATH`. -/
def handlePath (req : Request) (ch : UInt8) : Handled :=
  if ch ≠ space then
    if isUrlChar ch then
      .bottom { req with path := req.path ++ [ch] }
    else if ch = '?'.toUInt8 then
      .again { req with parseStatus := .queryString, parseOffset := req.parseOffset + 1 }
    else
      .break req .error
  else if req.path ≠ [] then
    .bottom { req with parseStatus := .eol }
  else
    .break req .error

/-- `S_QUERY_STRING`. -/
def handleQueryString (req : Request) (ch : UInt8) : Handled :=
  if ch ≠ space then
    if isUrlChar ch then
      .bottom { req with queryString := req.queryString ++ [ch] }
    else
      .break req .error
  else
    .bottom { req with parseStatus := .eol }

/-- The comparison `TOKEN(rbuf_[parse_offset_ + index]) == expected && …` for a
list of expected bytes. -/
def lookAhead (req : Request) :
    (index : Nat) → (expected : Bytes) → (found missed : Handled) → Handled
  | _, [], found, _ => found
  | index, c :: rest, found, missed =>
      req.withByte (req.parseOffset + index) fun ch =>
        if token ch = c then lookAhead req (index + 1) rest found missed else missed

/-- `S_HEADER_FIELD` on a `c` with nine bytes in the buffer. -/
def handleContent (req : Request) : Handled :=
  req.lookAhead 1 (ascii ['o', 'n', 't', 'e', 'n', 't', '-'])
    (req.withByte (req.parseOffset + 8) fun ch =>
      if token ch = 'l'.toUInt8 then
        .bottom { req with parseStatus := .contentLength, parseMatch := req.parseOffset }
      else if token ch = 't'.toUInt8 then
        .bottom { req with parseStatus := .contentType, parseMatch := req.parseOffset }
      else
        .bottom { req with parseStatus := .eol })
    (.bottom { req with parseStatus := .eol })

/-- `S_HEADER_FIELD`. -/
def handleHeaderField (req : Request) (c : UInt8) : Handled :=
  if c = cr then
    .bottom { req with parseStatus := .eoh }
  else if c = 'c'.toUInt8 then
    if req.rbufLen - req.parseOffset < 9 then
      .again { req with parseOffset := req.parseOffset + 1 }
    else
      req.handleContent
  else if c = 's'.toUInt8 then
    .bottom { req with parseStatus := .secWebsocketKey, parseMatch := req.parseOffset }
  else
    .bottom { req with parseStatus := .eol }

/-- `S_EOH`. -/
def handleEoh (req : Request) (c : UInt8) : Handled :=
  if c = lf then
    .break { req with headerLen := req.parseOffset + 1 } .finished
  else
    .break req .error

/-- The states that compare a line with a field name, and skip the blanks and
colons behind it. -/
def handleName (name : Bytes) (value : RequestParseStatus)
    (req : Request) (c : UInt8) : Handled :=
  req.withDistance fun distance =>
    if name.length - 1 < distance then
      if c ≠ space ∧ c ≠ ':'.toUInt8 then
        .again { req with parseStatus := value, parseMatch := req.parseOffset }
      else
        .bottom req
    else
      req.withNameByte name distance fun expected =>
        if expected ≠ c then .bottom { req with parseStatus := .eol } else .bottom req

/-- `S_CONTENT_LENGTH`. -/
def handleContentLength : Request → UInt8 → Handled :=
  handleName contentLengthName .contentLengthV

/-- `S_SEC_WEBSOCKET_KEY`. -/
def handleSecWebsocketKey : Request → UInt8 → Handled :=
  handleName secWebsocketKeyName .secWebsocketKeyV

/-- `S_CONTENT_TYPE`. -/
def handleContentType : Request → UInt8 → Handled :=
  handleName contentTypeName .contentTypeV

/-- `S_CONTNET_LENGTH_V`; the sum is a `uint32_t`. -/
def handleContentLengthV (req : Request) (c : UInt8) : Handled :=
  if c = space ∨ c = cr then
    .bottom { req with parseStatus := .eol }
  else if isNum c then
    .bottom { req with
      contentLength := wrap32 (wrap32 (req.contentLength * 10) + (c.toNat - 48)) }
  else
    .break req .error

/-- `S_SEC_WEBSOCKET_KEY_V`. -/
def handleSecWebsocketKeyV (req : Request) (ch c : UInt8) : Handled :=
  if c = space ∨ c = cr then
    .bottom { req with parseStatus := .eol }
  else
    .bottom { req with secWebsocketKey := req.secWebsocketKey ++ [ch] }

/-- `S_CONTENT_TYPE_V`. -/
def handleContentTypeV (req : Request) (ch c : UInt8) : Handled :=
  if c = space ∨ c = cr then
    .bottom { req with parseStatus := .eol }
  else
    .bottom { req with contentType := req.contentType ++ [ch] }

/-- The chain of `if`s over `parse_status_`; `c` is `TOKEN(ch)`. -/
def handleAt (status : RequestParseStatus) (req : Request) (ch c : UInt8) : Handled :=
  match status with
  | .eol => req.handleEol c
  | .start => req.handleStart c
  | .method => req.handleMethod c
  | .methodP => req.handleMethodP c
  | .path => req.handlePath ch
  | .queryString => req.handleQueryString ch
  | .headerField => req.handleHeaderField c
  | .eoh => req.handleEoh c
  | .contentLength => req.handleContentLength c
  | .contentLengthV => req.handleContentLengthV c
  | .secWebsocketKey => req.handleSecWebsocketKey c
  | .secWebsocketKeyV => req.handleSecWebsocketKeyV ch c
  | .contentType => req.handleContentType c
  | .contentTypeV => req.handleContentTypeV ch c
  | .upgrade => .bottom req

def handle (req : Request) (ch c : UInt8) : Handled := handleAt req.parseStatus req ch c

def Handled.finish : Handled → Round Request Empty HTTPParserStatus
  | .bottom req => .advance { req with parseOffset := req.parseOffset + 1 } []
  | .again req => .advance req []
  | .break req status => .leave req status

/-- One round of the `while` loop of `Request::Parse`. -/
def parseByte (req : Request) : Round Request Empty HTTPParserStatus :=
  if req.parseOffset < req.rbufLen then
    (req.withByte req.parseOffset fun ch =>
      if token ch = 0 then .break req .error else req.handle ch (token ch)).finish
  else
    .leave req .continues

end Request

end Mevent
