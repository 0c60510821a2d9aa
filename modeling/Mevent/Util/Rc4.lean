import Mevent.Basic
import Mevent.Library.Rc4

/-!
# `RC4`

The key is read as `char`, which is signed, and the remainder of a negative number is not
positive.  The indices stay within the table just when the sums of the key schedule are not
negative.
-/

namespace Mevent.Util

open Library

/-- `unsigned char s[256]`. -/
abbrev Table := Vector UInt8 256

/-- The variables `x`, `y` and `s` of `RC4`. -/
structure Rc4State where
  x : Nat
  y : Int
  s : Table

/-- The entry of `s` at an index, if it has one. -/
def entry? (index : Int) : Option (Fin 256) :=
  if inside : 0 ≤ index ∧ index < 256 then some ⟨index.toNat, by omega⟩ else none

/-- Two entries are exchanged by way of `tmp`. -/
def exchanged (s : Table) (i j : Fin 256) : Table := (s.set i s[j]).set j s[i]

namespace Rc4State

def initial : Rc4State := ⟨0, 0, Vector.ofFn UInt8.ofFin⟩

/-- One round of the first loop.  There is no result when `y` is not an index of `s`. -/
def scheduleRound (key : Bytes) (state : Rc4State) (i : Fin 256) : Option Rc4State := do
  let char ← key[state.x]?
  let y := (promote char + state.s[i].toNat + state.y).tmod 256
  let entry ← entry? y
  some ⟨(state.x + 1) % key.length, y, exchanged state.s i entry⟩

/-- The first rounds of the first loop. -/
def schedule (key : Bytes) (rounds : Nat) : Option Rc4State :=
  ((List.finRange 256).take rounds).foldlM (scheduleRound key) initial

def restart (state : Rc4State) : Rc4State := { state with x := 0, y := 0 }

/-- One round of the second loop, with the byte that it leaves in `buf`. -/
def outputRound (state : Rc4State) (byte : UInt8) : Option (Rc4State × UInt8) := do
  let x := (state.x + 1) % 256
  let first ← entry? x
  let y := (state.s[first].toNat + state.y).tmod 256
  let second ← entry? y
  let s := exchanged state.s first second
  let third ← entry? ((s[first].toNat + s[second].toNat : Int).tmod 256)
  some (⟨x, y, s⟩, byte ^^^ s[third])

def output (state : Rc4State) : Bytes → Option (Rc4State × Bytes)
  | [] => some (state, [])
  | byte :: rest => do
      let (next, masked) ← state.outputRound byte
      let (last, more) ← output next rest
      some (last, masked :: more)

end Rc4State

/-- `util::RC4`. -/
def rc4 (key src dest : Bytes) : Option Bytes := do
  let scheduled ← Rc4State.schedule key 256
  let (_, buf) ← scheduled.restart.output src
  some (dest ++ buf)

def keyAt (key : Bytes) (count : Nat) : UInt8 := key.getD (count % key.length) 0

def keySymbol (key : Bytes) (count : Nat) : Fin 256 := (keyAt key count).toFin

def keystream (key : Bytes) (length : Nat) : Bytes :=
  (Rc4.keystream (keySymbol key) length).map UInt8.ofFin

/-- The indices are within the table, which is a permutation. -/
structure Rc4State.InRange (state : Rc4State) : Prop where
  x : state.x ≤ 255
  y : 0 ≤ state.y ∧ state.y ≤ 255
  s : Function.Bijective fun i : Fin 256 => state.s[i]

/-- What `RC4` is for: every round leaves the variables in range, `dest` gets the source under
the standard keystream, and a second pass with the same key gives the source back. -/
structure Enciphers (key src dest : Bytes) : Prop where
  schedule : ∀ rounds ≤ 256, ∃ state, Rc4State.schedule key rounds = some state ∧ state.InRange
  output : ∃ scheduled, Rc4State.schedule key 256 = some scheduled ∧
    ∀ count ≤ src.length, ∃ state buf,
      scheduled.restart.output (src.take count) = some (state, buf) ∧ state.InRange
  appends : rc4 key src dest =
    some (dest ++ List.zipWith (· ^^^ ·) src (keystream key src.length))
  twice : ∃ cipher, rc4 key src [] = some cipher ∧ rc4 key cipher [] = some src

/-- The sum of a round of the standard key schedule, with the key read as the source reads
it. -/
def signedSum (key : Bytes) (i : Fin 256) : Int :=
  let rc4 := Rc4.scheduled (keySymbol key) i
  promote (keyAt key i) + (rc4.table i).val + rc4.j.val

/-! ### One round -/

/-- The variables against the permutation and the index that they stand for. -/
structure Rc4State.Represents (state : Rc4State) (rc4 : Rc4 256) : Prop where
  y : state.y = rc4.j.val
  s : ∀ i : Fin 256, state.s[i] = UInt8.ofFin (rc4.table i)

theorem entry?_val (i : Fin 256) : entry? i.val = some i := by
  unfold entry?
  rw [dif_pos (by omega)]
  simp

theorem entry?_eq_none {index : Int} (negative : index < 0) : entry? index = none :=
  dif_neg fun inside => absurd inside.1 (by omega)

theorem promote_eq (c : UInt8) : promote c = c.toFin.val ∨
    128 ≤ c.toFin.val ∧ promote c = (c.toFin.val : Int) - 256 := by
  have cases : promote c = if 2 * c.toNat < 2 ^ 8 then (c.toNat : Int) else c.toNat - 2 ^ 8 :=
    BitVec.toInt_eq_toNat_cond c.toBitVec
  rw [cases, UInt8.toFin_val]
  split
  next => exact .inl rfl
  next large => exact .inr ⟨by omega, rfl⟩

theorem tmod_sum {c : UInt8} {i j : Fin 256} (nonneg : 0 ≤ promote c + i.val + j.val) :
    (promote c + i.val + j.val).tmod 256 = (j + i + c.toFin).val := by
  rw [Int.tmod_eq_emod_of_nonneg nonneg, Fin.val_add, Fin.val_add]
  rcases promote_eq c with same | ⟨-, same⟩
  · rw [same]
    omega
  · rw [same]
    omega

theorem tmod_neg_sum {c : UInt8} {i j : Fin 256} (negative : promote c + i.val + j.val < 0) :
    (promote c + i.val + j.val).tmod 256 < 0 := by
  have least : 0 ≤ 255 + promote c := by
    rcases promote_eq c with same | ⟨large, same⟩
    · omega
    · omega
  have opposite : (-(promote c + i.val + j.val)).tmod 256 = -(promote c + i.val + j.val) :=
    Int.tmod_eq_of_lt (by omega) (by omega)
  rw [Int.neg_tmod] at opposite
  omega

theorem exchanged_eq {s : Table} {table : Equiv.Perm (Fin 256)}
    (same : ∀ i : Fin 256, s[i] = UInt8.ofFin (table i)) (i j k : Fin 256) :
    (exchanged s i j)[k] = UInt8.ofFin ((table * Equiv.swap i j) k) := by
  rw [Equiv.Perm.mul_apply, Equiv.swap_apply_def]
  simp only [exchanged, Fin.getElem_fin, Vector.getElem_set, Fin.val_inj] at same ⊢
  by_cases at_j : k = j
  · subst at_j
    by_cases at_i : k = i
    · simp [at_i, same]
    · simp [at_i, same]
  · by_cases at_i : k = i
    · subst at_i
      simp [Ne.symm at_j, same]
    · rw [if_neg (Ne.symm at_j), if_neg (Ne.symm at_i), if_neg at_i, if_neg at_j]
      exact same k

namespace Rc4State

variable {key src dest : Bytes} {state : Rc4State} {rc4 : Rc4 256}

theorem Represents.toNat_entry (represents : state.Represents rc4) (i : Fin 256) :
    (state.s[i].toNat : Int) = (rc4.table i).val := by
  rw [represents.s i, UInt8.toNat_ofFin]

theorem Represents.inRange (represents : state.Represents rc4) (x : state.x ≤ 255) :
    state.InRange where
  x := x
  y := by
    rw [represents.y]
    omega
  s := by
    have entries : (fun i : Fin 256 => state.s[i]) = UInt8.ofFin ∘ rc4.table :=
      funext represents.s
    rw [entries]
    refine Function.Bijective.comp ⟨?_, ?_⟩ rc4.table.bijective
    · exact fun first second same => congrArg UInt8.toFin same
    · exact fun byte => ⟨byte.toFin, UInt8.ofFin_toFin byte⟩

theorem scheduleRound_of_nonneg (represents : state.Represents rc4) {char : UInt8}
    (at_char : key[state.x]? = some char) {i : Fin 256}
    (nonneg : 0 ≤ promote char + (rc4.table i).val + rc4.j.val) :
    ∃ next, scheduleRound key state i = some next ∧ next.x = (state.x + 1) % key.length ∧
      next.Represents (rc4.exchange i char.toFin) := by
  have index : (promote char + state.s[i].toNat + state.y).tmod 256 =
      (rc4.j + rc4.table i + char.toFin).val := by
    rw [represents.toNat_entry, represents.y]
    exact tmod_sum nonneg
  refine ⟨⟨(state.x + 1) % key.length, (rc4.j + rc4.table i + char.toFin).val,
    exchanged state.s i (rc4.j + rc4.table i + char.toFin)⟩, ?_, rfl, rfl, ?_⟩
  · simp only [scheduleRound, at_char, index, entry?_val, Option.bind_eq_bind, Option.bind_some]
  · exact exchanged_eq represents.s i _

theorem scheduleRound_of_neg (represents : state.Represents rc4) {char : UInt8}
    (at_char : key[state.x]? = some char) {i : Fin 256}
    (negative : promote char + (rc4.table i).val + rc4.j.val < 0) :
    scheduleRound key state i = none := by
  have index : (promote char + state.s[i].toNat + state.y).tmod 256 < 0 := by
    rw [represents.toNat_entry, represents.y]
    exact tmod_neg_sum negative
  simp only [scheduleRound, at_char, Option.bind_eq_bind, Option.bind_some,
    entry?_eq_none index, Option.bind_none]

/-! ### The first loop -/

theorem schedule_succ {rounds : Nat} (inside : rounds < 256) : schedule key (rounds + 1) =
    (schedule key rounds).bind fun state => scheduleRound key state ⟨rounds, inside⟩ := by
  have more : (List.finRange 256).take (rounds + 1) =
      (List.finRange 256).take rounds ++ [⟨rounds, inside⟩] := by
    rw [List.take_succ_eq_append_getElem (by simpa using inside)]
    simp
  rw [schedule, more, List.foldlM_append]
  simp [schedule]

theorem keyAt_eq (nonempty : key ≠ []) (count : Nat) :
    key[count % key.length]? = some (keyAt key count) := by
  have inside : count % key.length < key.length :=
    Nat.mod_lt _ (List.length_pos_iff.mpr nonempty)
  rw [keyAt, List.getD_eq_getElem?_getD, List.getElem?_eq_getElem inside, Option.getD_some]

/-- While no sum is negative, the first loop is the standard key schedule. -/
theorem schedule_of_nonneg (nonempty : key ≠ []) {rounds : Nat} (most : rounds ≤ 256)
    (nonneg : ∀ i : Fin 256, i.val < rounds → 0 ≤ signedSum key i) :
    ∃ state, schedule key rounds = some state ∧ state.x = rounds % key.length ∧
      state.Represents (Rc4.scheduled (keySymbol key) rounds) := by
  induction rounds with
  | zero => exact ⟨initial, rfl, (Nat.zero_mod _).symm, rfl, fun i => Vector.getElem_ofFn i.isLt⟩
  | succ rounds inductionHypothesis =>
      obtain ⟨state, scheduled, x, represents⟩ :=
        inductionHypothesis (by omega) fun i earlier => nonneg i (by omega)
      have inside : rounds < 256 := most
      have at_char : key[state.x]? = some (keyAt key rounds) := by
        rw [x]
        exact keyAt_eq nonempty rounds
      obtain ⟨next, stepped, next_x, next_represents⟩ :=
        scheduleRound_of_nonneg represents at_char (nonneg ⟨rounds, inside⟩ (Nat.lt_succ_self _))
      refine ⟨next, ?_, ?_, ?_⟩
      · rw [schedule_succ inside, scheduled, Option.bind_some, stepped]
      · rw [next_x, x, Nat.mod_add_mod]
      · have same : Fin.ofNat 256 rounds = ⟨rounds, inside⟩ :=
          Fin.ext (Nat.mod_eq_of_lt inside)
        rw [Rc4.scheduled, same]
        exact next_represents

/-- The first loop leaves the table at the first sum that is negative. -/
theorem schedule_of_neg (nonempty : key ≠ []) {i : Fin 256}
    (nonneg : ∀ earlier : Fin 256, earlier < i → 0 ≤ signedSum key earlier)
    (negative : signedSum key i < 0) : schedule key (i + 1) = none := by
  obtain ⟨state, scheduled, x, represents⟩ := schedule_of_nonneg nonempty i.isLt.le nonneg
  have at_char : key[state.x]? = some (keyAt key i) := by
    rw [x]
    exact keyAt_eq nonempty i
  rw [schedule_succ i.isLt, scheduled, Option.bind_some]
  exact scheduleRound_of_neg represents at_char negative

/-! ### The second loop -/

theorem tmod_add (i j : Fin 256) : (i.val + j.val : Int).tmod 256 = (i + j).val := by
  rw [Int.tmod_eq_emod_of_nonneg (by omega), Fin.val_add]
  omega

/-- A round of the second loop is one of the standard keystream. -/
theorem outputRound_eq (represents : state.Represents rc4) {i : Fin 256} (x : state.x = i.val)
    (byte : UInt8) : ∃ next, outputRound state byte =
        some (next, byte ^^^ UInt8.ofFin ((rc4.exchange (i + 1) 0).table
          ((rc4.exchange (i + 1) 0).table (i + 1) +
            (rc4.exchange (i + 1) 0).table (rc4.exchange (i + 1) 0).j))) ∧
      next.x = (i + 1).val ∧ next.Represents (rc4.exchange (i + 1) 0) := by
  have next_x : (state.x + 1) % 256 = (i + 1).val := by
    rw [x, Fin.val_add]
    rfl
  have next_j : (rc4.exchange (i + 1) 0).j = rc4.table (i + 1) + rc4.j := by
    change rc4.j + rc4.table (i + 1) + 0 = _
    rw [add_zero, add_comm]
  have next_y : ((state.s[i + 1].toNat : Int) + state.y).tmod 256 =
      (rc4.exchange (i + 1) 0).j.val := by
    rw [represents.toNat_entry, represents.y, next_j]
    exact tmod_add _ _
  have next_represents : Represents ⟨(state.x + 1) % 256, (rc4.exchange (i + 1) 0).j.val,
      exchanged state.s (i + 1) (rc4.exchange (i + 1) 0).j⟩ (rc4.exchange (i + 1) 0) :=
    ⟨rfl, exchanged_eq represents.s (i + 1) _⟩
  refine ⟨_, ?_, next_x, next_represents⟩
  have third := tmod_add ((rc4.exchange (i + 1) 0).table (i + 1))
    ((rc4.exchange (i + 1) 0).table (rc4.exchange (i + 1) 0).j)
  rw [← next_represents.toNat_entry, ← next_represents.toNat_entry] at third
  have masked := next_represents.s ((rc4.exchange (i + 1) 0).table (i + 1) +
    (rc4.exchange (i + 1) 0).table (rc4.exchange (i + 1) 0).j)
  simp only [outputRound, next_x, entry?_val, next_y, third, Option.bind_eq_bind,
    Option.bind_some]
  rw [masked]

theorem output_eq (src : Bytes) {state : Rc4State} {rc4 : Rc4 256}
    (represents : state.Represents rc4) {i : Fin 256} (x : state.x = i.val) :
    ∃ last, state.output src = some (last,
        List.zipWith (· ^^^ ·) src ((rc4.generate i src.length).map UInt8.ofFin)) ∧
      last.InRange := by
  induction src generalizing state rc4 i with
  | nil => exact ⟨state, rfl, represents.inRange (by omega)⟩
  | cons byte rest inductionHypothesis =>
      obtain ⟨next, stepped, next_x, next_represents⟩ := outputRound_eq represents x byte
      obtain ⟨last, finished, inRange⟩ := inductionHypothesis next_represents next_x
      refine ⟨last, ?_, inRange⟩
      simp only [output, stepped, finished, Option.bind_eq_bind, Option.bind_some]
      rfl

end Rc4State

/-! ### Both loops -/

variable {key src dest : Bytes}

theorem zipWith_xor_twice {bytes mask : Bytes} (enough : bytes.length = mask.length) :
    List.zipWith (· ^^^ ·) (List.zipWith (· ^^^ ·) bytes mask) mask = bytes := by
  induction bytes generalizing mask with
  | nil => rfl
  | cons byte rest inductionHypothesis =>
      cases mask with
      | nil => cases enough
      | cons first mask =>
          have shorter : rest.length = mask.length := Nat.succ.inj enough
          simp [inductionHypothesis shorter]

@[simp]
theorem length_keystream (key : Bytes) (length : Nat) :
    (keystream key length).length = length := by
  simp [keystream]

theorem output_restart (nonempty : key ≠ []) (nonneg : ∀ i, 0 ≤ signedSum key i) :
    ∃ scheduled, Rc4State.schedule key 256 = some scheduled ∧ ∀ src : Bytes, ∃ last,
      scheduled.restart.output src =
        some (last, List.zipWith (· ^^^ ·) src (keystream key src.length)) ∧ last.InRange := by
  obtain ⟨scheduled, finished, -, represents⟩ :=
    Rc4State.schedule_of_nonneg nonempty le_rfl fun i _ => nonneg i
  refine ⟨scheduled, finished, ?_⟩
  intro src
  have restarted : scheduled.restart.Represents
      ⟨(Rc4.scheduled (keySymbol key) 256).table, 0⟩ := ⟨rfl, represents.s⟩
  have fresh : scheduled.restart.x = (0 : Fin 256).val := rfl
  exact Rc4State.output_eq src restarted fresh

theorem rc4_of_nonneg (nonempty : key ≠ []) (nonneg : ∀ i, 0 ≤ signedSum key i)
    (src dest : Bytes) : rc4 key src dest =
      some (dest ++ List.zipWith (· ^^^ ·) src (keystream key src.length)) := by
  obtain ⟨scheduled, finished, masks⟩ := output_restart nonempty nonneg
  obtain ⟨last, masked, -⟩ := masks src
  simp only [rc4, finished, masked, Option.bind_eq_bind, Option.bind_some]

/-- `RC4` does what it is for just when the key is no longer than the table and no sum of its
schedule is negative. -/
theorem enciphers_iff (nonempty : key ≠ []) : Enciphers key src dest ↔
    key.length ≤ 256 ∧ ∀ i, 0 ≤ signedSum key i := by
  constructor
  · intro enciphers
    have nonneg : ∀ i, 0 ≤ signedSum key i := by
      intro i
      induction i using WellFoundedLT.induction with
      | ind i inductionHypothesis =>
          by_contra negative
          obtain ⟨state, scheduled, -⟩ := enciphers.schedule (i + 1) i.isLt
          rw [Rc4State.schedule_of_neg nonempty inductionHypothesis (not_le.mp negative)]
            at scheduled
          cases scheduled
    refine ⟨?_, nonneg⟩
    obtain ⟨state, scheduled, inRange⟩ := enciphers.schedule 256 le_rfl
    obtain ⟨same, finished, x, -⟩ :=
      Rc4State.schedule_of_nonneg nonempty le_rfl fun i _ => nonneg i
    rw [scheduled] at finished
    cases finished
    by_contra long
    have last : state.x = 256 := by
      rw [x]
      exact Nat.mod_eq_of_lt (not_le.mp long)
    have within := inRange.x
    omega
  · rintro ⟨short, nonneg⟩
    obtain ⟨scheduled, finished, masks⟩ := output_restart nonempty nonneg
    constructor
    · intro rounds most
      obtain ⟨state, reached, x, represents⟩ :=
        Rc4State.schedule_of_nonneg nonempty most fun i _ => nonneg i
      refine ⟨state, reached, represents.inRange ?_⟩
      have within := Nat.mod_lt rounds (List.length_pos_iff.mpr nonempty)
      omega
    · refine ⟨scheduled, finished, ?_⟩
      intro count most
      obtain ⟨last, masked, inRange⟩ := masks (src.take count)
      exact ⟨last, _, masked, inRange⟩
    · exact rc4_of_nonneg nonempty nonneg src dest
    · refine ⟨_, rc4_of_nonneg nonempty nonneg src [], ?_⟩
      rw [rc4_of_nonneg nonempty nonneg]
      simp [zipWith_xor_twice]

theorem signedSum_of_ascii (nonempty : key ≠ []) (ascii : ∀ c ∈ key, c < 128) (i : Fin 256) :
    0 ≤ signedSum key i := by
  have small : keyAt key i < 128 :=
    ascii _ (List.mem_of_getElem? (Rc4State.keyAt_eq nonempty i))
  rcases promote_eq (keyAt key i) with same | ⟨large, -⟩
  · simp only [signedSum, same]
    omega
  · exact absurd (UInt8.lt_iff_toNat_lt.mp small) (Nat.not_lt.mpr large)

theorem enciphers_plain : Enciphers [75, 101, 121] [80, 108, 97, 105, 110] [] := by
  have nonempty : ([75, 101, 121] : Bytes) ≠ [] := List.cons_ne_nil _ _
  have ascii : ∀ c ∈ ([75, 101, 121] : Bytes), c < 128 := by decide +kernel
  have short : ([75, 101, 121] : Bytes).length ≤ 256 := by simp
  exact (enciphers_iff nonempty).mpr ⟨short, signedSum_of_ascii nonempty ascii⟩

/-- The first byte of the key is read as -128, and so is the first index. -/
theorem not_enciphers_high_byte : ¬ Enciphers [128] [1] [] := by
  intro enciphers
  have negative : signedSum [128] 0 < 0 := by decide
  have left := Rc4State.schedule_of_neg (List.cons_ne_nil _ _)
    (fun earlier before => absurd before (Fin.not_lt_zero earlier)) negative
  obtain ⟨state, scheduled, -⟩ := enciphers.schedule ((0 : Fin 256).val + 1) (by simp)
  rw [left] at scheduled
  cases scheduled

end Mevent.Util
