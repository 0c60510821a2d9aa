import Mathlib.Logic.Equiv.Basic
import Mathlib.Algebra.Group.End
import Mathlib.Algebra.GroupWithZero.Nat
import Mathlib.Data.Fin.Basic

/-!
# RC4

A permutation of the numbers below `n` and an index into it.  A round moves the index by what
stands at a second one and exchanges the two entries.  The key schedule and the keystream
consist of such rounds, so that the table remains a permutation.
-/

namespace Mevent.Library

/-- A permutation, and the index that is moved by what is read. -/
structure Rc4 (n : Nat) where
  table : Equiv.Perm (Fin n)
  j : Fin n

namespace Rc4

variable {n : Nat} [NeZero n]

/-- One round at the index `i`; the key schedule adds a symbol of the key. -/
def exchange (i offset : Fin n) (rc4 : Rc4 n) : Rc4 n :=
  let j := rc4.j + rc4.table i + offset
  ⟨rc4.table * Equiv.swap i j, j⟩

/-- The first rounds of the key schedule, for a key that is repeated as often as needed. -/
def scheduled (key : Nat → Fin n) : Nat → Rc4 n
  | 0 => ⟨1, 0⟩
  | count + 1 => (scheduled key count).exchange (Fin.ofNat n count) (key count)

/-- The symbols that are generated behind the index `i`. -/
def generate (i : Fin n) (rc4 : Rc4 n) : Nat → List (Fin n)
  | 0 => []
  | count + 1 =>
      let next := rc4.exchange (i + 1) 0
      next.table (next.table (i + 1) + next.table next.j) :: generate (i + 1) next count

def keystream (key : Nat → Fin n) (length : Nat) : List (Fin n) :=
  generate 0 ⟨(scheduled key n).table, 0⟩ length

@[simp]
theorem length_generate (i : Fin n) (rc4 : Rc4 n) (count : Nat) :
    (rc4.generate i count).length = count := by
  induction count generalizing i rc4 with
  | zero => rfl
  | succ count inductionHypothesis => simp [generate, inductionHypothesis]

@[simp]
theorem length_keystream (key : Nat → Fin n) (length : Nat) :
    (keystream key length).length = length :=
  length_generate _ _ _

end Rc4

end Mevent.Library
