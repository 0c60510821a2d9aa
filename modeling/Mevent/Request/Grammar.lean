import Mevent.Request.Parse

/-!
# Request heads, line by line

The lines of a request head and what the parser makes of each of them.  The
parser itself sees only bytes and offsets; `Mevent.Request.Lines` shows that it
reads heads in this way.
-/

namespace Mevent.Request

def crlf : Bytes := [cr, lf]

/-- A request line and header lines, without the line ends.  A blank line would
end the head. -/
structure Head where
  requestLine : Bytes
  headerLines : List Bytes
  unbroken : ∀ line ∈ requestLine :: headerLines, ¬ crlf <:+: line
  filled : ∀ line ∈ headerLines, line ≠ []

/-- Header lines as they are sent, with the blank line behind them. -/
def joinLines (lines : List Bytes) : Bytes :=
  lines.flatMap (· ++ crlf) ++ crlf

def Head.bytes (head : Head) : Bytes :=
  head.requestLine ++ crlf ++ joinLines head.headerLines

inductive Field where
  | contentLength
  | secWebsocketKey
  | contentType
  deriving DecidableEq, Repr

def Field.name : Field → Bytes
  | .contentLength => contentLengthName
  | .secWebsocketKey => secWebsocketKeyName
  | .contentType => contentTypeName

def Field.nameStatus : Field → RequestParseStatus
  | .contentLength => .contentLength
  | .secWebsocketKey => .secWebsocketKey
  | .contentType => .contentType

def Field.valueStatus : Field → RequestParseStatus
  | .contentLength => .contentLengthV
  | .secWebsocketKey => .secWebsocketKeyV
  | .contentType => .contentTypeV

/-- The field that a line is compared with, by its first bytes. -/
def fieldOf (line : Bytes) : Option Field :=
  if (line.head?).map token = some 's'.toUInt8 then some .secWebsocketKey
  else if (line.take 9).map token = contentLengthName.take 9 then some .contentLength
  else if (line.take 9).map token = contentTypeName.take 9 then some .contentType
  else none

def isSeparator (ch : UInt8) : Bool := token ch = space || token ch = ':'.toUInt8

def inValue (ch : UInt8) : Bool := token ch ≠ space && token ch ≠ cr

/-- The value behind a field name and its separators, if the line has that name,
and the bytes behind everything that was compared. -/
def readField : (name line : Bytes) → Option Bytes × Bytes
  | [], line =>
      let value := line.dropWhile isSeparator
      (some (value.takeWhile inValue), (value.dropWhile inValue).tail)
  | c :: name, ch :: line => if token ch = c then readField name line else (none, line)
  | _ :: _, [] => (none, [])

/-- The field and the value on a line, if it has one, and the bytes that the
parser only passes over. -/
def readLine (line : Bytes) : Option (Field × Bytes) × Bytes :=
  match fieldOf line with
  | none => (none, line.tail)
  | some field =>
      ((readField field.name line).1.map fun value => (field, value),
        (readField field.name line).2)

/-- Every byte is one that `TOKEN` accepts. -/
def Clean (bytes : Bytes) : Prop := ∀ ch ∈ bytes, token ch ≠ 0

instance (bytes : Bytes) : Decidable (Clean bytes) :=
  inferInstanceAs (Decidable (∀ ch ∈ bytes, token ch ≠ 0))

/-- The value of a `Content-Length` is made of digits; the other fields may have
any value. -/
def Readable : Option (Field × Bytes) → Prop
  | some (.contentLength, value) => ∀ ch ∈ value, isNum (token ch) = true
  | _ => True

instance : (entry : Option (Field × Bytes)) → Decidable (Readable entry)
  | some (.contentLength, value) =>
      inferInstanceAs (Decidable (∀ ch ∈ value, isNum (token ch) = true))
  | some (.secWebsocketKey, _) => inferInstanceAs (Decidable True)
  | some (.contentType, _) => inferInstanceAs (Decidable True)
  | none => inferInstanceAs (Decidable True)

/-- A header line, with its carriage return, that the parser does not stop at. -/
def LineAccepted (line : Bytes) : Prop :=
  Clean line ∧ line.head? ≠ some cr ∧ lf ∉ (readLine line).2 ∧ Readable (readLine line).1

instance (line : Bytes) : Decidable (LineAccepted line) := by
  unfold LineAccepted
  infer_instance

/-- One more digit of a `Content-Length`; the sum is a `uint32_t`. -/
def addDigit (sum : Nat) (ch : UInt8) : Nat :=
  wrap32 (wrap32 (sum * 10) + ((token ch).toNat - 48))

/-- What the value on a line adds to the request. -/
def store (req : Request) : Option (Field × Bytes) → Request
  | none => req
  | some (.contentLength, value) =>
      { req with contentLength := value.foldl addDigit req.contentLength }
  | some (.secWebsocketKey, value) =>
      { req with secWebsocketKey := req.secWebsocketKey ++ value }
  | some (.contentType, value) =>
      { req with contentType := req.contentType ++ value }

/-- The part of a line that is read as a line.  A `c` with less than nine bytes
from there to the end of the input is skipped. -/
def seenPart (line : Bytes) (left : Nat) : Bytes :=
  if left < 9 then line.dropWhile (fun ch => token ch = 'c'.toUInt8) else line

/-- Read the header lines in front of `behind` more bytes.  A line of which
nothing but its end is seen ends the head. -/
def readLines (behind : Nat) (req : Request) : List Bytes → Option Request
  | [] => some req
  | line :: rest =>
      let seen := seenPart (line ++ [cr]) ((joinLines (line :: rest)).length + behind)
      if seen = [cr] then some req
      else if LineAccepted seen then readLines behind (req.store (readLine seen).1) rest
      else none

/-- The method that the first bytes of a request stand for. -/
def methodOf (first second : UInt8) : RequestMethod :=
  if first = 'g'.toUInt8 then .get
  else if first = 'p'.toUInt8 then
    if second = 'o'.toUInt8 then .post
    else if second = 'u'.toUInt8 then .put
    else if second = 'a'.toUInt8 then .patch
    else .unknown
  else if first = 'h'.toUInt8 then .head
  else if first = 'd'.toUInt8 then .delete
  else if first = 'c'.toUInt8 then .connect
  else if first = 'o'.toUInt8 then .options
  else if first = 't'.toUInt8 then .trace
  else .unknown

/-- The method at the beginning of a request line, and the bytes behind it. -/
def readMethod (line : Bytes) : Option (RequestMethod × Bytes) :=
  let method := methodOf (token (line.getD 0 0)) (token (line.getD 1 0))
  match method.name with
  | none => none
  | some name =>
      if (line.take name.length).map token = name then some (method, line.drop name.length)
      else none

/-- A query string, the space behind it, and the rest of the line. -/
def readQuery (req : Request) (line : Bytes) : Option Request :=
  if Clean line then
    match line.dropWhile isUrlChar with
    | [] => none
    | ch :: left =>
        if ch = space ∧ lf ∉ left then
          some { req with queryString := req.queryString ++ line.takeWhile isUrlChar }
        else
          none
  else
    none

/-- A path and the space behind it, or a query string. -/
def readPath (req : Request) (line : Bytes) : Option Request :=
  if Clean line then
    match line.dropWhile isUrlChar with
    | [] => none
    | ch :: left =>
        let req := { req with path := req.path ++ line.takeWhile isUrlChar }
        if ch = space then
          if req.path ≠ [] ∧ lf ∉ left then some req else none
        else if ch = '?'.toUInt8 then
          readQuery req left
        else
          none
  else
    none

def readRequestLine (req : Request) (line : Bytes) : Option Request :=
  match readMethod line with
  | none => none
  | some (method, behind) =>
      if behind.head? = some space then
        readPath { req with method } (behind.dropWhile (· = space))
      else
        none

/-- Read a head in front of `behind` more bytes. -/
def Head.read (head : Head) (behind : Nat) : Option Request :=
  (readRequestLine reset (head.requestLine ++ [cr])).bind fun req =>
    readLines behind req head.headerLines

end Mevent.Request
