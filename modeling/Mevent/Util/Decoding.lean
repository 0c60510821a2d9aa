import Mevent.Library.Transition
import Mevent.Request.Urlencoded

/-!
# The loop of `URLDecode`

The loop keeps a pointer to the characters of a string and the number of those that are left,
and takes one of them or the three of an escape.  Its test is `len--`.
-/

namespace Mevent.Util

open Library Request

/-- Whether the test of the loop comes next, its body or nothing. -/
inductive Place where
  | test
  | body
  | done
  deriving DecidableEq, Repr

/-- The local variables of `URLDecode`, `data` as the distance to the first character. -/
structure Decoding where
  place : Place
  data : Nat
  len : Nat
  dest : Bytes
  deriving DecidableEq, Repr

namespace Decoding

def start (str : Bytes) : Decoding where
  place := .test
  data := 0
  len := str.length
  dest := []

/-- `*(data + ahead)`, which is the terminator at the end of the string and cannot be read
behind it. -/
def char? (str : Bytes) (decoding : Decoding) (ahead : Nat) : Option UInt8 :=
  (str ++ [0])[decoding.data + ahead]?

/-- The test `len--`. -/
def test (decoding : Decoding) : Decoding :=
  { decoding with
    place := if decoding.len = 0 then .done else .body
    len := wrap64 (decoding.len + 2 ^ 64 - 1) }

/-- The byte that an escape stands for, if `data` points to one. -/
def escape (str : Bytes) (decoding : Decoding) (c : UInt8) : Option (Option UInt8) :=
  if c = 37 ∧ 2 ≤ decoding.len then do
    let high ← decoding.char? str 1
    if isXDigit high then
      let low ← decoding.char? str 2
      some (if isXDigit low then some (htoi high low) else none)
    else
      some none
  else
    some none

/-- The body of the loop.  There is no result when it reads behind the terminator. -/
def body (str : Bytes) (decoding : Decoding) : Option Decoding := do
  let c ← decoding.char? str 0
  if c = 43 then
    some { decoding with
      place := .test, data := decoding.data + 1, dest := decoding.dest ++ [32] }
  else
    match ← decoding.escape str c with
    | some value =>
        some {
          place := .test
          data := decoding.data + 3
          len := wrap64 (decoding.len + 2 ^ 64 - 2)
          dest := decoding.dest ++ [value] }
    | none =>
        some { decoding with
          place := .test
          data := decoding.data + 1
          dest := decoding.dest ++ [c] }

def step (str : Bytes) (decoding : Decoding) (_ : Unit) : Option Decoding :=
  match decoding.place with
  | .test => some decoding.test
  | .body => decoding.body str
  | .done => none

abbrev Reached (str : Bytes) (decoding : Decoding) : Prop :=
  Reaches (step str) (fun _ _ => True) (start str) decoding

end Decoding

/-! ### The reference decoder -/

/-- A percent sign with two hexadecimal digits behind it. -/
def EscapeAhead (c : UInt8) (rest : Bytes) : Prop :=
  c = 37 ∧ ∃ high low later first second,
    rest = high :: low :: later ∧ HexDigit high first ∧ HexDigit low second

/-- What a string decodes to, read from left to right. -/
inductive Decodes : Bytes → Bytes → Prop
  | nil : Decodes [] []
  | plus {rest text : Bytes} : Decodes rest text → Decodes (43 :: rest) (space :: text)
  | escape {high low : UInt8} {first second : Nat} {rest text : Bytes} :
      HexDigit high first → HexDigit low second → Decodes rest text →
      Decodes (37 :: high :: low :: rest) (UInt8.ofNat (16 * first + second) :: text)
  | copy {c : UInt8} {rest text : Bytes} : c ≠ 43 → ¬ EscapeAhead c rest →
      Decodes rest text → Decodes (c :: rest) (c :: text)

/-- The ways to write a byte that `URLDecode` undoes. -/
inductive WritesByte : UInt8 → Bytes → Prop
  | literal {c : UInt8} : c ≠ 37 → c ≠ 43 → WritesByte c [c]
  | percent {c high low : UInt8} : HexDigit high (c.toNat / 16) →
      HexDigit low (c.toNat % 16) → WritesByte c [37, high, low]
  | plus : WritesByte space [43]

/-- The ways to write a string, byte by byte. -/
inductive Writes : Bytes → Bytes → Prop
  | nil : Writes [] []
  | cons {c : UInt8} {code rest text : Bytes} : WritesByte c code → Writes rest text →
      Writes (c :: rest) (code ++ text)

theorem exists_hexDigit {digit : UInt8} (hex : isXDigit digit) :
    ∃ value, HexDigit digit value := by
  have all : ∀ digit : UInt8, isXDigit digit → ∃ value : Fin 16, HexDigit digit value := by
    apply forall_byte
    unfold HexDigit
    decide +kernel
  obtain ⟨value, holds⟩ := all digit hex
  exact ⟨value, holds⟩

theorem escapeAhead_iff {c high low : UInt8} {rest : Bytes} :
    EscapeAhead c (high :: low :: rest) ↔ c = 37 ∧ isXDigit high ∧ isXDigit low := by
  constructor
  · rintro ⟨percent, high, low, later, first, second, parts, one, other⟩
    cases parts
    exact ⟨percent, (isXDigit_of_hexDigit one).1, (isXDigit_of_hexDigit other).1⟩
  · rintro ⟨percent, one, other⟩
    obtain ⟨first, holds⟩ := exists_hexDigit one
    obtain ⟨second, holds'⟩ := exists_hexDigit other
    exact ⟨percent, high, low, rest, first, second, rfl, holds, holds'⟩

theorem htoi_eq {high low : UInt8} {first second : Nat} (one : HexDigit high first)
    (other : HexDigit low second) : htoi high low = UInt8.ofNat (16 * first + second) := by
  rw [htoi, (isXDigit_of_hexDigit one).2, (isXDigit_of_hexDigit other).2]
  apply UInt8.toNat_inj.mp
  simp only [UInt8.toNat_add, UInt8.toNat_mul, UInt8.toNat_ofNat']
  have sixteen : (16 : UInt8).toNat = 16 := rfl
  rw [sixteen]
  omega

theorem not_escapeAhead_of_short {rest : Bytes} (short : rest.length < 2) (c : UInt8) :
    ¬ EscapeAhead c rest := by
  rintro ⟨-, high, low, later, -, -, rfl, -⟩
  simp at short

theorem urlDecode_copy {c : UInt8} {rest : Bytes} (plus : c ≠ 43)
    (none : ¬ EscapeAhead c rest) : urlDecode (c :: rest) = c :: urlDecode rest := by
  match rest with
  | [] => simp [urlDecode, plus]
  | [d] => simp [urlDecode, plus]
  | high :: low :: rest =>
      rw [escapeAhead_iff] at none
      rw [urlDecode, if_neg plus, if_neg none]

theorem Decodes.one {c : UInt8} {rest text : Bytes} (none : ¬ EscapeAhead c rest)
    (later : Decodes rest text) :
    Decodes (c :: rest) ((if c = 43 then 32 else c) :: text) := by
  by_cases plus : c = 43
  · subst plus
    exact .plus later
  · rw [if_neg plus]
    exact .copy plus none later

/-- `URLDecode` is the reference decoder. -/
theorem decodes_iff {str text : Bytes} : Decodes str text ↔ urlDecode str = text := by
  constructor
  · intro decodes
    induction decodes with
    | nil => rfl
    | plus later inductionHypothesis => rw [urlDecode_plus, inductionHypothesis]; rfl
    | escape one other later inductionHypothesis =>
        rw [urlDecode_escape (isXDigit_of_hexDigit one).1 (isXDigit_of_hexDigit other).1,
          htoi_eq one other, inductionHypothesis]
    | copy plus none later inductionHypothesis =>
        rw [urlDecode_copy plus none, inductionHypothesis]
  · rintro rfl
    fun_induction urlDecode str with
    | case1 => exact .nil
    | case2 c => exact Decodes.nil.one (not_escapeAhead_of_short (by decide) c)
    | case3 c d =>
        have last := Decodes.nil.one (not_escapeAhead_of_short (by decide) d)
        exact last.one (not_escapeAhead_of_short (by simp) c)
    | case4 high low rest inductionHypothesis => exact .plus inductionHypothesis
    | case5 c high low rest plus ahead inductionHypothesis =>
        obtain ⟨rfl, one, other⟩ := ahead
        obtain ⟨first, holds⟩ := exists_hexDigit one
        obtain ⟨second, holds'⟩ := exists_hexDigit other
        rw [htoi_eq holds holds']
        exact .escape holds holds' inductionHypothesis
    | case6 c high low rest plus none inductionHypothesis =>
        exact .copy plus (fun ahead => none (escapeAhead_iff.mp ahead)) inductionHypothesis

theorem urlDecode_of_writes {bytes text : Bytes} (writes : Writes bytes text) :
    urlDecode text = bytes := by
  induction writes with
  | nil => rfl
  | @cons c code rest text byte later inductionHypothesis =>
      cases byte with
      | literal percent plus =>
          rw [List.singleton_append, urlDecode_cons plus percent, inductionHypothesis]
      | percent first second =>
          simp only [List.cons_append, List.nil_append]
          rw [urlDecode_escape (isXDigit_of_hexDigit first).1 (isXDigit_of_hexDigit second).1,
            htoi_of_hexDigits first second, inductionHypothesis]
      | plus => rw [List.singleton_append, urlDecode_plus, inductionHypothesis]; rfl

/-! ### The loop -/

namespace Decoding

/-- Where the pointer and the length stand: together they make up the string, and what is
behind the pointer is still to be decoded. -/
structure Sound (str : Bytes) (decoding : Decoding) : Prop where
  test : decoding.place = .test → decoding.data + decoding.len = str.length
  body : decoding.place = .body → decoding.data + decoding.len + 1 = str.length
  done : decoding.place = .done → decoding.data = str.length ∧ decoding.len = 2 ^ 64 - 1
  decoded : decoding.dest ++ urlDecode (str.drop decoding.data) = urlDecode str

theorem sound_start (str : Bytes) : (start str).Sound str where
  test _ := Nat.zero_add _
  body here := by cases here
  done here := by cases here
  decoded := rfl

theorem char?_eq {str : Bytes} {decoding : Decoding} (within : decoding.data ≤ str.length)
    (ahead : Nat) : decoding.char? str ahead = (str.drop decoding.data ++ [0])[ahead]? := by
  rw [char?, ← List.drop_append_of_le_length within, List.getElem?_drop]

section Body

variable {str rest : Bytes} {decoding : Decoding} {c : UInt8}

theorem data_lt_of_drop (left : str.drop decoding.data = c :: rest) :
    decoding.data + rest.length + 1 = str.length := by
  have lengths := congrArg List.length left
  rw [List.length_drop, List.length_cons] at lengths
  omega

theorem drop_data_succ (left : str.drop decoding.data = c :: rest) :
    str.drop (decoding.data + 1) = rest := by
  rw [← List.drop_drop, left]
  rfl

theorem escape_eq_none (left : str.drop decoding.data = c :: rest)
    (len : decoding.len = rest.length) (alone : ¬ EscapeAhead c rest) :
    decoding.escape str c = some none := by
  have bound := data_lt_of_drop left
  match rest with
  | [] => rw [escape, if_neg (by simp [len])]
  | [d] => rw [escape, if_neg (by simp [len])]
  | high :: low :: later =>
      rw [escapeAhead_iff] at alone
      simp only [escape, char?_eq (by omega : decoding.data ≤ str.length), left]
      by_cases percent : c = 37
      · by_cases one : isXDigit high
        · have other : ¬ isXDigit low := fun other => alone ⟨percent, one, other⟩
          simp [percent, len, other]
        · simp [percent, len, one]
      · simp [percent]

theorem escape_eq_some {high low : UInt8} {later : Bytes}
    (left : str.drop decoding.data = 37 :: high :: low :: later)
    (len : decoding.len = later.length + 2) (one : isXDigit high) (other : isXDigit low) :
    decoding.escape str 37 = some (some (htoi high low)) := by
  have bound := data_lt_of_drop left
  simp [escape, char?_eq (by omega : decoding.data ≤ str.length), left, len, one, other]

theorem body_cases (left : str.drop decoding.data = c :: rest)
    (len : decoding.len = rest.length) (small : str.length < 2 ^ 64) :
    (∃ byte, urlDecode (c :: rest) = byte :: urlDecode rest ∧
      decoding.body str = some { decoding with
        place := .test
        data := decoding.data + 1
        dest := decoding.dest ++ [byte] }) ∨
    ∃ byte later, urlDecode (c :: rest) = byte :: urlDecode later ∧
      str.drop (decoding.data + 3) = later ∧ rest.length = later.length + 2 ∧
      decoding.body str = some {
        place := .test
        data := decoding.data + 3
        len := decoding.len - 2
        dest := decoding.dest ++ [byte] } := by
  have bound := data_lt_of_drop left
  have here : decoding.char? str 0 = some c := by
    rw [char?_eq (by omega), left]
    rfl
  by_cases plus : c = 43
  · subst plus
    refine .inl ⟨32, urlDecode_plus rest, ?_⟩
    simp [body, here]
  · by_cases ahead : EscapeAhead c rest
    · obtain ⟨rfl, high, low, later, first, second, rfl, one, other⟩ := ahead
      have digits := (isXDigit_of_hexDigit one).1
      have digits' := (isXDigit_of_hexDigit other).1
      have less : wrap64 (decoding.len + 2 ^ 64 - 2) = decoding.len - 2 := by
        simp only [List.length_cons] at len bound
        rw [wrap64]
        omega
      refine .inr ⟨_, later, urlDecode_escape digits digits' later, ?_, rfl, ?_⟩
      · rw [← List.drop_drop, left]
        rfl
      · simpa [body, here, escape_eq_some left len digits digits'] using less
    · refine .inl ⟨c, urlDecode_copy plus ahead, ?_⟩
      simp [body, here, plus, escape_eq_none left len ahead]

end Body

/-! ### Every state of the loop -/

section Steps

variable {str : Bytes} {decoding later : Decoding}

theorem Sound.place_cases (sound : decoding.Sound str) :
    (decoding.place = .test ∧ decoding.data + decoding.len = str.length) ∨
      (decoding.place = .body ∧ ∃ c rest, str.drop decoding.data = c :: rest ∧
        decoding.len = rest.length) ∨
      decoding.place = .done ∧ decoding.data = str.length ∧ decoding.len = 2 ^ 64 - 1 := by
  cases place : decoding.place with
  | test => exact .inl ⟨rfl, sound.test place⟩
  | body =>
      have parts := sound.body place
      have within : decoding.data < str.length := by omega
      refine .inr (.inl ⟨rfl, str[decoding.data], str.drop (decoding.data + 1), ?_, ?_⟩)
      · exact List.drop_eq_getElem_cons within
      · rw [List.length_drop]
        omega
  | done => exact .inr (.inr ⟨rfl, sound.done place⟩)

theorem Sound.data_le (sound : decoding.Sound str) : decoding.data ≤ str.length := by
  rcases sound.place_cases with ⟨-, parts⟩ | ⟨-, c, rest, left, -⟩ | ⟨-, ends, -⟩
  · omega
  · have := data_lt_of_drop left
    omega
  · exact ends.le

theorem Sound.test_cases (sound : decoding.Sound str) (small : str.length < 2 ^ 64)
    (place : decoding.place = .test) :
    (decoding.len = 0 ∧ decoding.test = { decoding with place := .done, len := 2 ^ 64 - 1 }) ∨
      0 < decoding.len ∧
        decoding.test = { decoding with place := .body, len := decoding.len - 1 } := by
  have parts := sound.test place
  by_cases empty : decoding.len = 0
  · left
    refine ⟨empty, ?_⟩
    rw [Decoding.test, if_pos empty, empty]
    rfl
  · right
    have less : wrap64 (decoding.len + 2 ^ 64 - 1) = decoding.len - 1 := by
      rw [wrap64]
      omega
    refine ⟨by omega, ?_⟩
    rw [Decoding.test, if_neg empty, less]

theorem Sound.step (sound : decoding.Sound str) (small : str.length < 2 ^ 64)
    (stepped : decoding.step str () = some later) : later.Sound str := by
  rcases sound.place_cases with ⟨place, parts⟩ | ⟨place, c, rest, left, len⟩ | ⟨place, -⟩
  · rw [Decoding.step, place] at stepped
    cases stepped
    rcases sound.test_cases small place with ⟨empty, taken⟩ | ⟨filled, taken⟩
    · rw [taken]
      exact {
        test := fun here => by cases here
        body := fun here => by cases here
        done := fun _ => ⟨by simpa [empty] using parts, rfl⟩
        decoded := sound.decoded }
    · rw [taken]
      exact {
        test := fun here => by cases here
        body := fun _ => by dsimp only; omega
        done := fun here => by cases here
        decoded := sound.decoded }
  · rw [Decoding.step, place] at stepped
    have bound := data_lt_of_drop left
    have decoded := sound.decoded
    rw [left] at decoded
    rcases body_cases left len small with
      ⟨byte, split, taken⟩ | ⟨byte, behind, split, next, lengths, taken⟩
    · rw [taken] at stepped
      cases stepped
      exact {
        test := fun _ => by dsimp only; omega
        body := fun here => by cases here
        done := fun here => by cases here
        decoded := by
          rw [drop_data_succ left, List.append_assoc, List.singleton_append, ← split, decoded] }
    · rw [taken] at stepped
      cases stepped
      exact {
        test := fun _ => by dsimp only; omega
        body := fun here => by cases here
        done := fun here => by cases here
        decoded := by
          rw [next, List.append_assoc, List.singleton_append, ← split, decoded] }
  · rw [Decoding.step, place] at stepped
    cases stepped

theorem sound_of_reached (reached : Reached str decoding) (small : str.length < 2 ^ 64) :
    decoding.Sound str := by
  refine reached.invariant (sound_start str) ?_
  intro decoding label later sound _ stepped
  exact sound.step small stepped

/-- Every state but the last has a next one, with a length that is smaller unless it has been
zero and the loop ends. -/
theorem Sound.progress (sound : decoding.Sound str) (small : str.length < 2 ^ 64)
    (running : decoding.place ≠ .done) :
    ∃ later, decoding.step str () = some later ∧
      (later.len ≤ decoding.len ∨ decoding.len = 0 ∧ later.place = .done) := by
  rcases sound.place_cases with ⟨place, parts⟩ | ⟨place, c, rest, left, len⟩ | ⟨place, -⟩
  · rw [Decoding.step, place]
    rcases sound.test_cases small place with ⟨empty, taken⟩ | ⟨filled, taken⟩
    · exact ⟨_, rfl, .inr ⟨empty, by rw [taken]⟩⟩
    · exact ⟨_, rfl, .inl (by rw [taken]; exact Nat.sub_le _ _)⟩
  · rw [Decoding.step, place]
    rcases body_cases left len small with ⟨byte, -, taken⟩ | ⟨byte, behind, -, -, -, taken⟩
    · exact ⟨_, taken, .inl (le_refl _)⟩
    · exact ⟨_, taken, .inl (Nat.sub_le _ _)⟩
  · exact absurd place running

/-- What the loop leaves is what the string decodes to. -/
theorem Sound.dest_eq (sound : decoding.Sound str) (place : decoding.place = .done) :
    decoding.dest = urlDecode str := by
  have decoded := sound.decoded
  rw [(sound.done place).1, List.drop_length] at decoded
  exact (List.append_nil _).symm.trans decoded

/-- The loop ends. -/
theorem exists_done (small : str.length < 2 ^ 64) :
    ∃ decoding, Reached str decoding ∧ decoding.place = .done := by
  have ends : ∀ left (decoding : Decoding), Reached str decoding → decoding.place = .test →
      decoding.len = left → ∃ last, Reached str last ∧ last.place = .done := by
    intro left
    induction left using Nat.strong_induction_on with
    | _ left inductionHypothesis =>
        intro decoding reached place len
        have tested : decoding.step str () = some decoding.test := by rw [Decoding.step, place]
        have next := reached.next () trivial tested
        rcases (sound_of_reached reached small).test_cases small place with
          ⟨-, taken⟩ | ⟨filled, taken⟩
        · exact ⟨_, next, by rw [taken]⟩
        · have sound := sound_of_reached next small
          rw [taken] at next sound
          rcases sound.place_cases with ⟨here, -⟩ | ⟨-, c, rest, behind, length⟩ | ⟨here, -⟩
          · cases here
          · have stepped : ∀ last, Decoding.body str { decoding with
                  place := .body, len := decoding.len - 1 } = some last →
                last.place = .test → last.len < decoding.len →
                  ∃ last, Reached str last ∧ last.place = .done := by
              intro last taken there less
              exact inductionHypothesis last.len (len ▸ less) last
                (next.next () trivial taken) there rfl
            rcases body_cases behind length small with
              ⟨byte, -, taken⟩ | ⟨byte, later, -, -, -, taken⟩
            · exact stepped _ taken rfl (by dsimp only; omega)
            · exact stepped _ taken rfl (by dsimp only; omega)
          · cases here
  exact ends _ (start str) .refl rfl rfl

end Steps

end Decoding

/-- `URLDecode` ends on every string with what the reference decoder makes of it, having read
nothing behind the terminator, and gives back what has been written in any way.  The length
never falls below zero before the test that ends the loop, and always there. -/
theorem urlDecode_loop {str : Bytes} (small : str.length < 2 ^ 64) :
    (∃ decoding, Decoding.Reached str decoding ∧ decoding.place = .done) ∧
      ∀ decoding, Decoding.Reached str decoding →
        decoding.data ≤ str.length ∧
        (decoding.place ≠ .done → ∃ later, decoding.step str () = some later ∧
          (later.len ≤ decoding.len ∨ decoding.len = 0 ∧ later.place = .done)) ∧
        (decoding.place = .done → decoding.len = 2 ^ 64 - 1 ∧
          (∀ text, Decodes str text ↔ decoding.dest = text) ∧
          ∀ bytes, Writes bytes str → decoding.dest = bytes) := by
  refine ⟨Decoding.exists_done small, ?_⟩
  intro decoding reached
  have sound := Decoding.sound_of_reached reached small
  refine ⟨sound.data_le, sound.progress small, ?_⟩
  intro place
  rw [sound.dest_eq place]
  refine ⟨(sound.done place).2, ?_, ?_⟩
  · intro text
    exact decodes_iff
  · intro bytes writes
    exact urlDecode_of_writes writes

/-- The truncated escape in `%4+%4`. -/
theorem urlDecode_loop_truncated :
    (∃ decoding, Decoding.Reached [37, 52, 43, 37, 52] decoding ∧ decoding.place = .done) ∧
      ∀ decoding, Decoding.Reached [37, 52, 43, 37, 52] decoding →
        decoding.data ≤ [37, 52, 43, 37, 52].length ∧
        (decoding.place ≠ .done → ∃ later, decoding.step [37, 52, 43, 37, 52] () = some later ∧
          (later.len ≤ decoding.len ∨ decoding.len = 0 ∧ later.place = .done)) ∧
        (decoding.place = .done → decoding.len = 2 ^ 64 - 1 ∧
          (∀ text, Decodes [37, 52, 43, 37, 52] text ↔ decoding.dest = text) ∧
          ∀ bytes, Writes bytes [37, 52, 43, 37, 52] → decoding.dest = bytes) :=
  urlDecode_loop (by decide)

/-- Behind the only byte of a string the test takes one off a length of zero. -/
theorem length_wraps_at_end :
    ∃ decoding later, Decoding.Reached [97] decoding ∧
      decoding.step [97] () = some later ∧ decoding.len = 0 ∧ later.len = 2 ^ 64 - 1 := by
  have replayed : replay (Decoding.step [97]) (fun _ _ => True) (Decoding.start [97]) [(), ()] =
      some ⟨.test, 1, 0, [97]⟩ := by decide +kernel
  exact ⟨_, ⟨.done, 1, 2 ^ 64 - 1, [97]⟩, reaches_of_replay replayed, by decide +kernel, rfl, rfl⟩

end Mevent.Util
