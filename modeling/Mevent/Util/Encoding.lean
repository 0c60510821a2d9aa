import Mevent.Request.Urlencoded

/-!
# `URLEncode`

A byte that a form cannot hold is written as a percent sign and two characters of a table.
The place of the first of them is computed with a shift to the left.
-/

namespace Mevent.Util

open Request

/-- `hexchars` with its terminator. -/
def hexchars : Bytes := ascii "0123456789ABCDEF".toList ++ [0]

/-- `toascii`. -/
def toascii (c : UInt8) : UInt8 := c &&& 127

/-- Whether `URLEncode` escapes a byte. -/
def escaped (c : UInt8) : Bool :=
  c ≠ 32 &&
    (c < 48 && c ≠ 45 && c ≠ 46 || c < 65 && c > 57 || c > 90 && c < 97 && c ≠ 95 || c > 122)

def hexIndices (c : UInt8) : Nat × Nat := ((toascii c).toNat <<< 4, (toascii c).toNat &&& 15)

/-- One round of the loop of `URLEncode`.  There is no result when it reads behind the
table. -/
def urlEncodeByte (dest : Bytes) (c : UInt8) : Option Bytes :=
  if c = 32 then
    some (dest ++ [43])
  else if escaped c then do
    let high ← hexchars[(hexIndices c).1]?
    let low ← hexchars[(hexIndices c).2]?
    some (dest ++ [37, high, low])
  else
    some (dest ++ [c])

/-- `util::URLEncode`. -/
def urlEncode (str : Bytes) : Option Bytes := str.foldlM urlEncodeByte []

/-- The places of the table that are read for a string. -/
def usedIndices (str : Bytes) : List Nat :=
  (str.filter escaped).flatMap fun c => [(hexIndices c).1, (hexIndices c).2]

/-- Text of letters, digits, `-`, `.`, `_`, `+` and escapes. -/
inductive FormText : Bytes → Prop
  | nil : FormText []
  | plain {c : UInt8} {text : Bytes} : isPlain c → FormText text → FormText (c :: text)
  | plus {text : Bytes} : FormText text → FormText (43 :: text)
  | escape {high low : UInt8} {text : Bytes} : isXDigit high → isXDigit low →
      FormText text → FormText (37 :: high :: low :: text)

/-- What `URLEncode` is for: it stays within the sixteen digits and writes text of a form
that `URLDecode` reads back. -/
def RoundTrips (str : Bytes) : Prop :=
  (∀ index ∈ usedIndices str, index < 16) ∧
    ∃ text, urlEncode str = some text ∧ FormText text ∧ urlDecode text = str

/-! ### One byte -/

theorem escaped_iff (c : UInt8) : escaped c ↔ isPlain c = false ∧ c ≠ 32 := by
  revert c
  apply forall_byte
  decide +kernel

/-- The first place is outside of the digits unless the byte is zero in its last seven bits. -/
theorem hexIndices_lt_iff (c : UInt8) :
    (hexIndices c).1 < 16 ∧ (hexIndices c).2 < 16 ↔ c = 0 ∨ c = 128 := by
  revert c
  apply forall_byte
  decide +kernel

def unitOf (c : UInt8) : Bytes :=
  if c = 32 then [43] else if escaped c then [37, 48, 48] else [c]

theorem urlEncodeByte_eq {c : UInt8}
    (within : escaped c → (hexIndices c).1 < 16 ∧ (hexIndices c).2 < 16) (dest : Bytes) :
    urlEncodeByte dest c = some (dest ++ unitOf c) := by
  rw [urlEncodeByte, unitOf]
  split
  next => rfl
  next =>
    split
    next escapes =>
      rcases (hexIndices_lt_iff c).mp (within escapes) with rfl | rfl <;> rfl
    next => rfl

/-! ### A string -/

theorem urlEncode_eq {str : Bytes} (within : ∀ index ∈ usedIndices str, index < 16) :
    urlEncode str = some (str.flatMap unitOf) := by
  have run : ∀ (str dest : Bytes), (∀ index ∈ usedIndices str, index < 16) →
      str.foldlM urlEncodeByte dest = some (dest ++ str.flatMap unitOf) := by
    intro str
    induction str with
    | nil => simp
    | cons c rest inductionHypothesis =>
        intro dest within
        have here : escaped c → (hexIndices c).1 < 16 ∧ (hexIndices c).2 < 16 := by
          intro escapes
          constructor <;> (apply within; simp [usedIndices, escapes])
        have later : ∀ index ∈ usedIndices rest, index < 16 := by
          intro index member
          apply within
          rw [usedIndices, List.filter_cons]
          split
          next => exact List.mem_append_right _ member
          next => exact member
        rw [List.foldlM_cons, urlEncodeByte_eq here]
        simp [inductionHypothesis _ later]
  exact run str [] within

theorem formText_flatMap (str : Bytes) : FormText (str.flatMap unitOf) := by
  induction str with
  | nil => exact .nil
  | cons c rest inductionHypothesis =>
      rw [List.flatMap_cons, unitOf]
      split
      next => exact .plus inductionHypothesis
      next space =>
        split
        next => exact .escape (by decide) (by decide) inductionHypothesis
        next literal =>
          have plain : isPlain c := by
            by_contra other
            exact literal ((escaped_iff c).mpr ⟨by simpa using other, space⟩)
          exact .plain plain inductionHypothesis

theorem urlDecode_flatMap (str : Bytes) :
    urlDecode (str.flatMap unitOf) = str.map fun c => if escaped c then 0 else c := by
  induction str with
  | nil => rfl
  | cons c rest inductionHypothesis =>
      rw [List.flatMap_cons, List.map_cons, unitOf]
      split
      next space =>
        subst space
        rw [List.singleton_append, urlDecode_plus, inductionHypothesis]
        rfl
      next space =>
        split
        next escapes =>
          simp only [List.cons_append, List.nil_append]
          rw [urlDecode_escape (by decide) (by decide), inductionHypothesis]
          rfl
        next literal =>
          have plain : isPlain c := by
            by_contra other
            exact literal ((escaped_iff c).mpr ⟨by simpa using other, space⟩)
          obtain ⟨-, percent, -, plus, -⟩ := plain_bytes plain
          rw [List.singleton_append, urlDecode_cons plus percent, inductionHypothesis]

/-- `URLEncode` does what it is for exactly on strings of bytes that it copies, spaces and
zeros. -/
theorem urlEncode_roundTrips_iff (str : Bytes) :
    RoundTrips str ↔ ∀ c ∈ str, isPlain c ∨ c = 32 ∨ c = 0 := by
  constructor
  · rintro ⟨within, text, encoded, -, decoded⟩ c member
    rw [urlEncode_eq within] at encoded
    cases encoded
    rw [urlDecode_flatMap] at decoded
    have kept : (if escaped c then 0 else c) = c :=
      List.map_inj_left.mp (decoded.trans (List.map_id str).symm) c member
    by_cases escapes : escaped c
    · rw [if_pos escapes] at kept
      exact .inr (.inr kept.symm)
    · rw [escaped_iff] at escapes
      by_cases space : c = 32
      · exact .inr (.inl space)
      · exact .inl (by simpa [space] using escapes)
  · intro kinds
    have zero : ∀ c ∈ str, escaped c → c = 0 := by
      intro c member escapes
      obtain ⟨other, space⟩ := (escaped_iff c).mp escapes
      rcases kinds c member with plain | same | same
      · exact absurd (plain.symm.trans other) (by decide)
      · exact absurd same space
      · exact same
    have within : ∀ index ∈ usedIndices str, index < 16 := by
      intro index member
      obtain ⟨c, listed, among⟩ := List.mem_flatMap.mp member
      obtain ⟨inside, escapes⟩ := List.mem_filter.mp listed
      have digits := (hexIndices_lt_iff c).mpr (.inl (zero c inside escapes))
      rcases List.mem_cons.mp among with rfl | last
      · exact digits.1
      · rw [List.mem_singleton.mp last]
        exact digits.2
    refine ⟨within, _, urlEncode_eq within, formText_flatMap str, ?_⟩
    rw [urlDecode_flatMap]
    have kept : ∀ c ∈ str, (if escaped c then 0 else c) = id c := by
      intro c member
      split
      next escapes => exact (zero c member escapes).symm
      next => rfl
    rw [List.map_congr_left kept, List.map_id]

/-- A slash is looked up at place 752 of a table of seventeen characters. -/
theorem not_roundTrips_slash : usedIndices [47] = [752, 15] ∧ urlEncode [47] = none ∧
    ¬ RoundTrips [47] := by
  have none : urlEncode [47] = none := by decide +kernel
  refine ⟨by decide +kernel, none, ?_⟩
  rintro ⟨-, text, encoded, -⟩
  rw [none] at encoded
  cases encoded

end Mevent.Util
