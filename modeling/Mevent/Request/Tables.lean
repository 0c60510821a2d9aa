import Mevent.Basic

/-!
The character tables of the request parser and the names it compares with.
-/

namespace Mevent

def ascii (chars : List Char) : Bytes := chars.map Char.toUInt8

namespace Request

def space : UInt8 := 32
def cr : UInt8 := 13
def lf : UInt8 := 10

/-- `tokens`, sixteen entries a row.  The source lists the first 128 entries;
the other ones are zero. -/
def tokens : List UInt8 :=
  [0, 0, 0, 0, 0, 0, 0, 0, 0, 0, 10, 0, 0, 13, 0, 0,
    0, 0, 0, 0, 0, 0, 0, 0, 0, 0, 0, 0, 0, 0, 0, 0,
    0, 33, 34, 35, 36, 37, 38, 39, 40, 41, 42, 43, 44, 45, 46, 47,
    48, 49, 50, 51, 52, 53, 54, 55, 56, 57, 58, 59, 60, 61, 62, 63,
    64, 97, 98, 99, 100, 101, 102, 103, 104, 105, 106, 107, 108, 109, 110, 111,
    112, 113, 114, 115, 116, 117, 118, 119, 120, 121, 122, 91, 0, 93, 94, 95,
    96, 97, 98, 99, 100, 101, 102, 103, 104, 105, 106, 107, 108, 109, 110, 111,
    112, 113, 114, 115, 116, 117, 118, 119, 120, 121, 122, 123, 124, 125, 126, 0]

/-- `TOKEN`: letters in lower case, and zero for the characters that are not
accepted anywhere. -/
def token (ch : UInt8) : UInt8 :=
  if ch = space then space else tokens.getD ch.toNat 0

/-- `normal_url_char`, one bit for each character.  The source lists the first
sixteen bytes; the other ones are zero. -/
def normalUrlChar : List Nat :=
  [0, 0, 0, 0, 2 + 4 + 16 + 32 + 64 + 128, 255, 255, 127,
    255, 255, 255, 255, 255, 255, 255, 127]

/-- `IS_URL_CHAR`. -/
def isUrlChar (ch : UInt8) : Bool :=
  normalUrlChar.getD (ch.toNat >>> 3) 0 &&& (1 <<< (ch.toNat &&& 7)) != 0

/-- `IS_NUM`. -/
def isNum (c : UInt8) : Bool := 48 ≤ c && c ≤ 57

/-- `CONTENT_LENGTH`. -/
def contentLengthName : Bytes :=
  ascii ['c', 'o', 'n', 't', 'e', 'n', 't', '-', 'l', 'e', 'n', 'g', 't', 'h']

/-- `SEC_WEBSOCKET_KEY`. -/
def secWebsocketKeyName : Bytes :=
  ascii ['s', 'e', 'c', '-', 'w', 'e', 'b', 's', 'o', 'c', 'k', 'e', 't', '-', 'k', 'e', 'y']

/-- `CONTENT_TYPE`. -/
def contentTypeName : Bytes :=
  ascii ['c', 'o', 'n', 't', 'e', 'n', 't', '-', 't', 'y', 'p', 'e']

end Request

/-- `RequestMethod`. -/
inductive RequestMethod where
  | get
  | post
  | head
  | put
  | delete
  | connect
  | options
  | trace
  | patch
  | unknown
  deriving DecidableEq, Repr

/-- The lower case name of a method, `METHOD_GET` to `METHOD_PATCH`. -/
def RequestMethod.name : RequestMethod → Option Bytes
  | .get => some (ascii ['g', 'e', 't'])
  | .post => some (ascii ['p', 'o', 's', 't'])
  | .head => some (ascii ['h', 'e', 'a', 'd'])
  | .put => some (ascii ['p', 'u', 't'])
  | .delete => some (ascii ['d', 'e', 'l', 'e', 't', 'e'])
  | .connect => some (ascii ['c', 'o', 'n', 'n', 'e', 'c', 't'])
  | .options => some (ascii ['o', 'p', 't', 'i', 'o', 'n', 's'])
  | .trace => some (ascii ['t', 'r', 'a', 'c', 'e'])
  | .patch => some (ascii ['p', 'a', 't', 'c', 'h'])
  | .unknown => none

end Mevent
