import Mathlib.Data.List.Basic
import Mathlib.Tactic.Ring

/-!
# Numbers as groups of bits

A sequence of numbers of the same width is a sequence of bits, the highest of each first.
Read in groups of another width, it is a sequence of other numbers: what is left over when
there is no whole group is dropped.
-/

namespace Mevent.Library

/-- The lowest `width` bits of a number, the highest one first. -/
def bits : Nat → Nat → List Bool
  | 0, _ => []
  | width + 1, number => number.testBit width :: bits width number

/-- The number that has the bits. -/
def ofBits : List Bool → Nat
  | [] => 0
  | bit :: rest => bit.toNat * 2 ^ rest.length + ofBits rest

@[simp]
theorem length_bits (width number : Nat) : (bits width number).length = width := by
  induction width with
  | zero => rfl
  | succ width inductionHypothesis => simp [bits, inductionHypothesis]

theorem ofBits_lt (sequence : List Bool) : ofBits sequence < 2 ^ sequence.length := by
  induction sequence with
  | nil => exact Nat.one_pos
  | cons bit rest inductionHypothesis =>
      have bounded : bit.toNat ≤ 1 := Bool.toNat_le bit
      have scaled : bit.toNat * 2 ^ rest.length ≤ 1 * 2 ^ rest.length :=
        Nat.mul_le_mul_right _ bounded
      rw [ofBits, List.length_cons, Nat.pow_succ]
      omega

theorem ofBits_bits (width number : Nat) : ofBits (bits width number) = number % 2 ^ width := by
  induction width with
  | zero => simp [bits, ofBits, Nat.mod_one]
  | succ width inductionHypothesis =>
      rw [bits, ofBits, length_bits, inductionHypothesis, Nat.toNat_testBit, Nat.mod_pow_succ,
        Nat.mul_comm, Nat.add_comm]

theorem ofBits_bits_of_lt {width number : Nat} (small : number < 2 ^ width) :
    ofBits (bits width number) = number := by
  rw [ofBits_bits, Nat.mod_eq_of_lt small]

theorem bits_add (high low number : Nat) :
    bits (high + low) number = bits high (number / 2 ^ low) ++ bits low number := by
  induction high with
  | zero => simp [bits]
  | succ high inductionHypothesis =>
      rw [Nat.add_right_comm, bits, bits, inductionHypothesis, List.cons_append,
        Nat.testBit_div_two_pow]

theorem bits_mod (width number : Nat) : bits width (number % 2 ^ width) = bits width number := by
  have general : ∀ lower ≤ width, bits lower (number % 2 ^ width) = bits lower number := by
    intro lower
    induction lower with
    | zero => exact fun _ => rfl
    | succ lower inductionHypothesis =>
        intro within
        rw [bits, bits, inductionHypothesis (by omega), Nat.testBit_mod_two_pow]
        simp [show lower < width by omega]
  exact general width le_rfl

theorem bits_join (high : Nat) {low front back : Nat} (small : back < 2 ^ low) :
    bits (high + low) (front * 2 ^ low + back) = bits high front ++ bits low back := by
  have above : (front * 2 ^ low + back) / 2 ^ low = front := by
    rw [Nat.mul_comm, Nat.mul_add_div (Nat.two_pow_pos low), Nat.div_eq_of_lt small, Nat.add_zero]
  have below : (front * 2 ^ low + back) % 2 ^ low = back := by
    rw [Nat.mul_comm, Nat.mul_add_mod, Nat.mod_eq_of_lt small]
  rw [bits_add, above, ← bits_mod low, below]

theorem bits_ofBits (sequence : List Bool) : bits sequence.length (ofBits sequence) = sequence := by
  induction sequence with
  | nil => rfl
  | cons bit rest inductionHypothesis =>
      have small := ofBits_lt rest
      have low : ofBits (bit :: rest) % 2 ^ rest.length = ofBits rest := by
        rw [ofBits, Nat.mul_comm, Nat.mul_add_mod, Nat.mod_eq_of_lt small]
      have high : (ofBits (bit :: rest)).testBit rest.length = bit := by
        rw [ofBits, Nat.mul_comm, Nat.testBit_two_pow_mul_add _ small, if_neg (lt_irrefl _),
          Nat.sub_self]
        cases bit with
        | false => rfl
        | true => rfl
      rw [List.length_cons, bits, high, ← bits_mod, low, inductionHypothesis]

def groups (width : Nat) (sequence : List Bool) : List Nat :=
  (List.range (sequence.length / width)).map fun index =>
    ofBits ((sequence.drop (index * width)).take width)

def stream (width : Nat) (numbers : List Nat) : List Bool := numbers.flatMap (bits width)

section Groups

variable {width : Nat}

@[simp]
theorem length_stream (numbers : List Nat) :
    (stream width numbers).length = width * numbers.length := by
  induction numbers with
  | nil => simp [stream]
  | cons number numbers inductionHypothesis =>
      rw [stream] at inductionHypothesis ⊢
      rw [List.flatMap_cons, List.length_append, length_bits, inductionHypothesis,
        List.length_cons]
      ring

theorem stream_append (first second : List Nat) :
    stream width (first ++ second) = stream width first ++ stream width second :=
  List.flatMap_append ..

theorem groups_of_lt {rest : List Bool} (short : rest.length < width) : groups width rest = [] := by
  rw [groups, Nat.div_eq_of_lt short]
  rfl

theorem groups_append (positive : 0 < width) {first : List Bool} (whole : first.length = width)
    (rest : List Bool) : groups width (first ++ rest) = ofBits first :: groups width rest := by
  have count : (first ++ rest).length / width = rest.length / width + 1 := by
    rw [List.length_append, whole, Nat.add_div_left _ positive]
  rw [groups, count, List.range_succ_eq_map, List.map_cons, List.map_map]
  congr 1
  · simp [← whole]
  · refine List.map_congr_left fun index _ => ?_
    have beyond : (index + 1) * width = first.length + index * width := by
      rw [whole]
      ring
    simp only [Function.comp_apply, Nat.succ_eq_add_one, beyond, List.drop_length_add_append]

/-- What has been put into the bits is read from them. -/
theorem groups_stream_append (positive : 0 < width) {numbers : List Nat}
    (small : ∀ number ∈ numbers, number < 2 ^ width) (rest : List Bool) :
    groups width (stream width numbers ++ rest) = numbers ++ groups width rest := by
  induction numbers with
  | nil => rfl
  | cons number numbers inductionHypothesis =>
      rw [stream, List.flatMap_cons, List.append_assoc,
        groups_append positive (length_bits width number),
        ofBits_bits_of_lt (small number (by simp)), ← stream, inductionHypothesis fun other membership =>
          small other (List.mem_cons_of_mem number membership), List.cons_append]

theorem groups_stream (positive : 0 < width) {numbers : List Nat}
    (small : ∀ number ∈ numbers, number < 2 ^ width) {rest : List Bool}
    (short : rest.length < width) : groups width (stream width numbers ++ rest) = numbers := by
  rw [groups_stream_append positive small, groups_of_lt short, List.append_nil]

theorem groups_of_stream_eq (positive : 0 < width) {numbers : List Nat}
    (small : ∀ number ∈ numbers, number < 2 ^ width) {sequence : List Bool}
    (same : stream width numbers = sequence) : groups width sequence = numbers := by
  have read := groups_stream positive small (show ([] : List Bool).length < width from positive)
  rwa [List.append_nil, same] at read

theorem stream_take (numbers : List Nat) (count : Nat) :
    stream width (numbers.take count) = (stream width numbers).take (width * count) := by
  by_cases within : count ≤ numbers.length
  · have parts := List.take_append_drop count numbers
    have front : (stream width (numbers.take count)).length = width * count := by
      rw [length_stream, List.length_take, Nat.min_eq_left within]
    conv_rhs => rw [← parts, stream_append, ← front, List.take_left]
  · have beyond : numbers.length ≤ count := by omega
    rw [List.take_of_length_le beyond, List.take_of_length_le]
    rw [length_stream]
    exact Nat.mul_le_mul_left width beyond

theorem stream_groups (positive : 0 < width) (sequence : List Bool) {count : Nat}
    (whole : sequence.length = width * count) :
    stream width (groups width sequence) = sequence := by
  induction count generalizing sequence with
  | zero =>
      rw [List.length_eq_zero_iff.mp whole, groups_of_lt (by simpa using positive)]
      rfl
  | succ count inductionHypothesis =>
      have parts := List.take_append_drop width sequence
      have front : (sequence.take width).length = width := by
        rw [List.length_take, whole, Nat.mul_succ]
        omega
      have back : (sequence.drop width).length = width * count := by
        rw [List.length_drop, whole, Nat.mul_succ]
        omega
      have bitsFront := bits_ofBits (sequence.take width)
      rw [front] at bitsFront
      rw [← parts, groups_append positive front, stream, List.flatMap_cons, bitsFront, ← stream,
        inductionHypothesis _ back]

theorem lt_of_mem_groups (sequence : List Bool) :
    ∀ number ∈ groups width sequence, number < 2 ^ width := by
  intro number membership
  obtain ⟨index, -, rfl⟩ := List.mem_map.mp membership
  refine (ofBits_lt _).trans_le (Nat.pow_le_pow_right Nat.two_pos ?_)
  exact List.length_take_le ..

/-- The stream of what is read from a sequence is its whole groups. -/
theorem stream_groups_eq_take (positive : 0 < width) (sequence : List Bool) :
    stream width (groups width sequence) =
      sequence.take (width * (sequence.length / width)) := by
  have parts := List.take_append_drop (width * (sequence.length / width)) sequence
  have front : (sequence.take (width * (sequence.length / width))).length =
      width * (sequence.length / width) := by
    rw [List.length_take, Nat.min_eq_left (Nat.mul_div_le _ _)]
  have back : (sequence.drop (width * (sequence.length / width))).length < width := by
    rw [List.length_drop, ← Nat.mod_eq_sub_mul_div]
    exact Nat.mod_lt _ positive
  have whole := stream_groups positive _ front
  conv_lhs => rw [← parts, ← whole, groups_stream positive (lt_of_mem_groups _) back]
  exact whole

end Groups

end Mevent.Library
