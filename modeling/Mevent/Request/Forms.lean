import Mevent.Request.Parse

/-!
# Header fields and forms

`Request::ParseHeader`, `ParseQueryString` and `ParsePostForm` fill the maps of a request.
All of them read a string through a pointer to its characters, up to its first NUL.
-/

namespace Mevent

open Library

/-- What a loop over `*pos` sees of a string. -/
def cString (str : Bytes) : Bytes := str.takeWhile (· ≠ 0)

namespace Util

/-- `isxdigit`. -/
def isXDigit (c : UInt8) : Bool :=
  48 ≤ c && c ≤ 57 || 65 ≤ c && c ≤ 70 || 97 ≤ c && c ≤ 102

/-- The value that `Htoi` gives one of its two digits. -/
def htoiDigit (digit : UInt8) : UInt8 :=
  let c := if 65 ≤ digit && digit ≤ 90 then digit + 32 else digit
  if 48 ≤ c && c ≤ 57 then c - 48 else c - 97 + 10

/-- `Htoi`. -/
def htoi (high low : UInt8) : UInt8 := htoiDigit high * 16 + htoiDigit low

/-- `util::URLDecode`. -/
def urlDecode : Bytes → Bytes
  | [] => []
  | [c] => [if c = 43 then 32 else c]
  | [c, d] => [if c = 43 then 32 else c, if d = 43 then 32 else d]
  | c :: high :: low :: rest =>
      if c = 43 then
        32 :: urlDecode (high :: low :: rest)
      else if c = 37 ∧ isXDigit high ∧ isXDigit low then
        htoi high low :: urlDecode rest
      else
        c :: urlDecode (high :: low :: rest)

example : urlDecode (ascii ['a', '%', '4', '1', '+', '%', '4']) =
    ascii ['a', 'A', ' ', '%', '4'] := by decide

end Util

namespace Request

/-- The local variables of the loops that collect fields and values. -/
structure Collecting where
  isField : Bool
  field : Bytes
  value : Bytes
  map : OrderedMap Bytes Bytes
  deriving DecidableEq, Repr

/-- The end of a pair: it is stored if it has a name and a value. -/
def Collecting.store (collecting : Collecting) (decode : Bytes → Bytes) : Collecting where
  isField := true
  field := []
  value := []
  map :=
    if collecting.field ≠ [] ∧ collecting.value ≠ [] then
      collecting.map.insert collecting.field (decode collecting.value)
    else
      collecting.map

/-- One round of the loop of `ParseHeader`. -/
def Collecting.headerByte (collecting : Collecting) (c : UInt8) : Collecting :=
  if c = 58 ∧ collecting.isField then
    { collecting with isField := false }
  else if c = 13 then
    collecting
  else if c = 10 then
    collecting.store id
  else if collecting.isField then
    { collecting with field := collecting.field ++ [c] }
  else if collecting.value = [] ∧ c = 32 then
    collecting
  else
    { collecting with value := collecting.value ++ [c] }

/-- `Request::ParseHeader`.  There is no result when `strchr` finds no line feed and the
loop reads through a null pointer. -/
def parseHeader (req : Request) : Option Request :=
  match (cString req.rbuf).dropWhile (· ≠ 10) with
  | [] => none
  | lines =>
      let collected := lines.foldl Collecting.headerByte ⟨true, [], [], req.headerMap⟩
      some { req with headerMap := collected.map }

/-- One round of the loop of `ParseFormUrlencoded`. -/
def Collecting.formByte (collecting : Collecting) (c : UInt8) : Collecting :=
  if c = 61 then
    { collecting with isField := false }
  else if c = 38 then
    collecting.store Util.urlDecode
  else if collecting.isField then
    { collecting with field := collecting.field ++ [c] }
  else
    { collecting with value := collecting.value ++ [c] }

/-- `Request::ParseFormUrlencoded`. -/
def parseFormUrlencoded (map : OrderedMap Bytes Bytes) (str : Bytes) :
    OrderedMap Bytes Bytes :=
  (((cString str).foldl Collecting.formByte ⟨true, [], [], map⟩).store Util.urlDecode).map

/-- `Request::ParseQueryString`. -/
def parseQueryString (req : Request) : Request :=
  if req.queryString = [] then
    req
  else
    { req with getFormMap := parseFormUrlencoded req.getFormMap req.queryString }

/-- The content type that `ParsePostForm` looks for. -/
def urlencodedType : Bytes := ascii "application/x-www-form-urlencoded".toList

/-- `Request::ParsePostForm`.  There is no result when `substr` throws. -/
def parsePostForm (req : Request) : Option Request :=
  if req.contentType ≠ urlencodedType then
    some req
  else if req.rbuf.length < req.headerLen then
    none
  else
    some { req with
      postFormMap := parseFormUrlencoded req.postFormMap (req.rbuf.drop req.headerLen) }

end Request

end Mevent
