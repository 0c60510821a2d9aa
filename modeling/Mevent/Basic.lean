import Mathlib

/-!
Byte strings, machine words and the status values shared by all components.

Lengths and offsets are natural numbers.  Where the source adds two numbers of
type `uint64_t`, `size_t` or `uint32_t` and the sum may exceed the type, the
model reduces it explicitly.
-/

namespace Mevent

/-- The contents of a `std::string` or a `std::vector<uint8_t>`. -/
abbrev Bytes := List UInt8

/-- Arithmetic of `uint64_t` and of `size_t`. -/
def wrap64 (value : Nat) : Nat := value % 2 ^ 64

theorem wrap64_of_lt {value : Nat} (small : value < 2 ^ 64) : wrap64 value = value :=
  Nat.mod_eq_of_lt small

/-- Arithmetic of `uint32_t`. -/
def wrap32 (value : Nat) : Nat := value % 2 ^ 32

theorem wrap64_le (value : Nat) : wrap64 value ≤ value := Nat.mod_le _ _

/-- A `char`, which is signed, as an expression promotes it to `int`. -/
def promote (c : UInt8) : Int := c.toInt8.toInt

/-- The largest number of bytes that a `std::vector<uint8_t>` can hold,
`std::vector<uint8_t>::max_size()`. -/
def vectorMaxSize : Nat := 2 ^ 63 - 1

/-- `READ_BUFFER_SIZE`, the size of the stack buffer of both `ReadData`
functions. -/
def readBufferSize : Nat := 2048

/-- One of the application's functions, as stored in a `std::function`. -/
abbrev FuncId := Nat

/-- `ConnStatus`. -/
inductive ConnStatus where
  | again
  | upgrade
  | finished
  | error
  | closed
  deriving DecidableEq, Repr

end Mevent
