import Mevent.Request.Forms
import Mevent.Request.Lines

/-!
# Forms that are read back

A form is a list of names and values.  Its encodings write each byte of a name or a value as
itself, as `+` or as a percent sign and two hexadecimal digits, and join the results with `=`
and `&`.  `ParseFormUrlencoded` decodes the values of a pair and not its name.
-/

namespace Mevent.Request

open Library

/-- Letters, digits, `-`, `.` and `_` stand for themselves in a form. -/
def isPlain (c : UInt8) : Bool :=
  48 ≤ c && c ≤ 57 || 65 ≤ c && c ≤ 90 || 97 ≤ c && c ≤ 122 || c = 45 || c = 46 || c = 95

def HexDigit (digit : UInt8) (value : Nat) : Prop :=
  value < 10 ∧ digit.toNat = value + 48 ∨
    10 ≤ value ∧ value < 16 ∧ (digit.toNat = value + 55 ∨ digit.toNat = value + 87)

/-- The ways to write a byte in a form. -/
inductive EncodesByte : UInt8 → Bytes → Prop
  | plain {c : UInt8} (stands : isPlain c) : EncodesByte c [c]
  | plus : EncodesByte space [43]
  | percent {c high low : UInt8} (other : isPlain c = false)
      (first : HexDigit high (c.toNat / 16)) (second : HexDigit low (c.toNat % 16)) :
      EncodesByte c [37, high, low]

/-- The ways to write a name or a value. -/
inductive Encodes : Bytes → Bytes → Prop
  | nil : Encodes [] []
  | cons {c : UInt8} {code rest text : Bytes} (byte : EncodesByte c code)
      (bytes : Encodes rest text) : Encodes (c :: rest) (code ++ text)

/-- The name and the value of a pair are written each on its own. -/
def EncodesPair (pair encoded : Bytes × Bytes) : Prop :=
  Encodes pair.1 encoded.1 ∧ Encodes pair.2 encoded.2

/-- Pairs joined with `=` and `&`. -/
def joined (pairs : List (Bytes × Bytes)) : Bytes :=
  [38].intercalate (pairs.map fun pair => pair.1 ++ 61 :: pair.2)

/-- The map sends every name to its value and has no other entry. -/
def Recovers (map : OrderedMap Bytes Bytes) (pairs : List (Bytes × Bytes)) : Prop :=
  (∀ pair ∈ pairs, map.find? pair.1 = some pair.2) ∧ ∀ entry ∈ map, entry ∈ pairs

/-! ### Decoding -/

theorem isXDigit_of_hexDigit {digit : UInt8} {value : Nat} (hex : HexDigit digit value) :
    Util.isXDigit digit ∧ Util.htoiDigit digit = UInt8.ofNat value := by
  have all : ∀ (digit : UInt8) (value : Fin 16), HexDigit digit value →
      Util.isXDigit digit ∧ Util.htoiDigit digit = UInt8.ofNat value := by
    apply forall_byte
    unfold HexDigit
    decide +kernel
  have bound : value < 16 := by
    rcases hex with small | large <;> omega
  exact all digit ⟨value, bound⟩ hex

theorem htoi_of_hexDigits {c high low : UInt8} (first : HexDigit high (c.toNat / 16))
    (second : HexDigit low (c.toNat % 16)) : Util.htoi high low = c := by
  rw [Util.htoi, (isXDigit_of_hexDigit first).2, (isXDigit_of_hexDigit second).2]
  apply UInt8.toNat_inj.mp
  have sixteen : (16 : UInt8).toNat = 16 := rfl
  have bound := c.toNat_lt
  simp only [UInt8.toNat_add, UInt8.toNat_mul, UInt8.toNat_ofNat', sixteen]
  omega

theorem urlDecode_cons {c : UInt8} (plus : c ≠ 43) (percent : c ≠ 37) (rest : Bytes) :
    Util.urlDecode (c :: rest) = c :: Util.urlDecode rest := by
  match rest with
  | [] => simp [Util.urlDecode, plus]
  | [d] => simp [Util.urlDecode, plus]
  | high :: low :: rest => rw [Util.urlDecode, if_neg plus, if_neg (by simp [percent])]

theorem urlDecode_plus (rest : Bytes) :
    Util.urlDecode (43 :: rest) = 32 :: Util.urlDecode rest := by
  match rest with
  | [] => rfl
  | [d] => simp [Util.urlDecode]
  | high :: low :: rest => rw [Util.urlDecode, if_pos rfl]

/-- A hexadecimal digit is neither `+` nor a percent sign nor `=`. -/
theorem isXDigit_ne {digit : UInt8} (hex : Util.isXDigit digit) :
    digit ≠ 43 ∧ digit ≠ 37 ∧ digit ≠ 61 := by
  refine ⟨?_, ?_, ?_⟩ <;> (rintro rfl; revert hex; decide)

theorem urlDecode_escape {high low : UInt8} (first : Util.isXDigit high)
    (second : Util.isXDigit low) (rest : Bytes) :
    Util.urlDecode (37 :: high :: low :: rest) = Util.htoi high low :: Util.urlDecode rest := by
  rw [Util.urlDecode, if_neg (by decide), if_pos ⟨rfl, first, second⟩]

theorem plain_bytes {c : UInt8} (stands : isPlain c) :
    c ≠ 0 ∧ c ≠ 37 ∧ c ≠ 38 ∧ c ≠ 43 ∧ c ≠ 61 := by
  refine ⟨?_, ?_, ?_, ?_, ?_⟩ <;> (rintro rfl; revert stands; decide)

theorem urlDecode_of_encodesByte {c : UInt8} {code : Bytes} (byte : EncodesByte c code)
    (rest : Bytes) : Util.urlDecode (code ++ rest) = c :: Util.urlDecode rest := by
  cases byte with
  | plain stands =>
      obtain ⟨-, percent, -, plus, -⟩ := plain_bytes stands
      exact urlDecode_cons plus percent rest
  | plus => exact urlDecode_plus rest
  | percent other first second =>
      simp only [List.cons_append, List.nil_append]
      rw [urlDecode_escape (isXDigit_of_hexDigit first).1 (isXDigit_of_hexDigit second).1,
        htoi_of_hexDigits first second]

theorem urlDecode_of_encodes {bytes text : Bytes} (encodes : Encodes bytes text) :
    Util.urlDecode text = bytes := by
  induction encodes with
  | nil => rfl
  | cons byte bytes inductionHypothesis =>
      rw [urlDecode_of_encodesByte byte, inductionHypothesis]

theorem Encodes.injective {first second text : Bytes} (one : Encodes first text)
    (other : Encodes second text) : first = second :=
  (urlDecode_of_encodes one).symm.trans (urlDecode_of_encodes other)

/-! ### What an encoding contains -/

/-- A byte that neither ends a string nor separates the parts of a form. -/
def Inside (c : UInt8) : Prop := c ≠ 0 ∧ c ≠ 38 ∧ c ≠ 61

theorem inside_of_hexDigit {digit : UInt8} {value : Nat} (hex : HexDigit digit value) :
    Inside digit := by
  have digits := (isXDigit_of_hexDigit hex).1
  refine ⟨?_, ?_, ?_⟩ <;> (rintro rfl; revert digits; decide)

theorem inside_of_encodesByte {c : UInt8} {code : Bytes} (byte : EncodesByte c code) :
    ∀ ch ∈ code, Inside ch := by
  cases byte with
  | plain stands =>
      obtain ⟨zero, -, ampersand, -, equals⟩ := plain_bytes stands
      simpa using ⟨zero, ampersand, equals⟩
  | plus => simp [Inside]
  | percent other first second =>
      simp only [List.forall_mem_cons, List.not_mem_nil, false_implies, implies_true, and_true]
      exact ⟨by simp [Inside], inside_of_hexDigit first, inside_of_hexDigit second⟩

theorem inside_of_encodes {bytes text : Bytes} (encodes : Encodes bytes text) :
    ∀ ch ∈ text, Inside ch := by
  induction encodes with
  | nil => simp
  | cons byte bytes inductionHypothesis =>
      intro ch member
      rcases List.mem_append.mp member with first | later
      · exact inside_of_encodesByte byte ch first
      · exact inductionHypothesis ch later

theorem length_of_encodesByte {c : UInt8} {code : Bytes} (byte : EncodesByte c code) :
    1 ≤ code.length ∧ (code.length = 1 → isPlain c ∨ 43 ∈ code) := by
  cases byte with
  | plain stands => exact ⟨le_refl 1, fun _ => .inl stands⟩
  | plus => exact ⟨le_refl 1, fun _ => .inr List.mem_cons_self⟩
  | percent other first second => simp

/-- An encoding that is as short as what it stands for writes every other byte as `+`. -/
theorem length_of_encodes {bytes text : Bytes} (encodes : Encodes bytes text) :
    bytes.length ≤ text.length ∧
      (text.length = bytes.length → 43 ∉ text → ∀ c ∈ bytes, isPlain c) := by
  induction encodes with
  | nil => simp
  | @cons c code rest text byte bytes inductionHypothesis =>
      obtain ⟨notShorter, plain⟩ := inductionHypothesis
      obtain ⟨atLeast, single⟩ := length_of_encodesByte byte
      simp only [List.length_append, List.length_cons, List.mem_append, not_or,
        List.forall_mem_cons]
      refine ⟨by omega, ?_⟩
      rintro same ⟨noPlus, noLaterPlus⟩
      have one : code.length = 1 := by omega
      refine ⟨?_, plain (by omega) noLaterPlus⟩
      exact (single one).resolve_right noPlus

/-- A name with a `+` needs a longer encoding. -/
theorem Encodes.not_mem_plus {bytes text : Bytes} (encodes : Encodes bytes text)
    (same : text.length = bytes.length) : 43 ∉ bytes := by
  induction encodes with
  | nil => simp
  | @cons c code rest text byte bytes inductionHypothesis =>
      have notShorter := (length_of_encodes bytes).1
      obtain ⟨atLeast, single⟩ := length_of_encodesByte byte
      simp only [List.length_append, List.length_cons] at same
      have one : code.length = 1 := by omega
      have different : 43 ≠ c := by
        rintro rfl
        cases byte with
        | plain stands => exact absurd stands (by decide)
        | percent other first second => simp at one
      simpa [different] using inductionHypothesis (by omega)

theorem Encodes.of_plain {bytes text : Bytes} (encodes : Encodes bytes text)
    (plain : ∀ c ∈ bytes, isPlain c) : text = bytes := by
  induction encodes with
  | nil => rfl
  | @cons c code rest text byte bytes inductionHypothesis =>
      obtain ⟨first, later⟩ := List.forall_mem_cons.mp plain
      rw [inductionHypothesis later]
      cases byte with
      | plain => rfl
      | plus => exact absurd first (by decide)
      | percent other => exact absurd first (by simp [other])

/-! ### Reading pairs -/

def entered (map : OrderedMap Bytes Bytes) (encoded : List (Bytes × Bytes)) :
    OrderedMap Bytes Bytes :=
  encoded.foldl (fun map pair => map.insert pair.1 (Util.urlDecode pair.2)) map

theorem foldl_formByte {part : Bytes} (inside : ∀ ch ∈ part, Inside ch)
    (collecting : Collecting) :
    part.foldl Collecting.formByte collecting =
      if collecting.isField then { collecting with field := collecting.field ++ part }
      else { collecting with value := collecting.value ++ part } := by
  induction part generalizing collecting with
  | nil => simp
  | cons c rest inductionHypothesis =>
      obtain ⟨⟨-, ampersand, equals⟩, later⟩ := List.forall_mem_cons.mp inside
      rw [List.foldl_cons, inductionHypothesis later]
      cases asked : collecting.isField <;>
        simp [Collecting.formByte, ampersand, equals, asked]

/-- A name, `=` and a value are read as such. -/
theorem foldl_formByte_pair {pair : Bytes × Bytes} (name : ∀ ch ∈ pair.1, Inside ch)
    (value : ∀ ch ∈ pair.2, Inside ch) (map : OrderedMap Bytes Bytes) :
    (pair.1 ++ 61 :: pair.2).foldl Collecting.formByte ⟨true, [], [], map⟩ =
      ⟨false, pair.1, pair.2, map⟩ := by
  rw [List.foldl_append, foldl_formByte name, List.foldl_cons]
  simp [Collecting.formByte, foldl_formByte value]

/-- A pair with a name and a value, neither with a separator in it. -/
def ReadablePair (pair : Bytes × Bytes) : Prop :=
  (pair.1 ≠ [] ∧ pair.2 ≠ []) ∧ (∀ ch ∈ pair.1, Inside ch) ∧ ∀ ch ∈ pair.2, Inside ch

theorem foldl_formByte_joined {pairs : List (Bytes × Bytes)} (nonempty : pairs ≠ [])
    (readable : ∀ pair ∈ pairs, ReadablePair pair) (map : OrderedMap Bytes Bytes) :
    (((joined pairs).foldl Collecting.formByte ⟨true, [], [], map⟩).store
      Util.urlDecode).map = entered map pairs := by
  induction pairs generalizing map with
  | nil => exact absurd rfl nonempty
  | cons pair rest inductionHypothesis =>
      obtain ⟨⟨filled, name, value⟩, later⟩ := List.forall_mem_cons.mp readable
      cases rest with
      | nil =>
          rw [joined, List.map_singleton, List.intercalate_singleton,
            foldl_formByte_pair name value]
          simp [Collecting.store, entered, filled]
      | cons next rest =>
          have step : joined (pair :: next :: rest) =
              (pair.1 ++ 61 :: pair.2) ++ 38 :: joined (next :: rest) := by
            simp [joined, List.intercalate_cons_cons]
          have stored : (⟨false, pair.1, pair.2, map⟩ : Collecting).formByte 38 =
              ⟨true, [], [], map.insert pair.1 (Util.urlDecode pair.2)⟩ := by
            simp [Collecting.formByte, Collecting.store, filled]
          rw [step, List.foldl_append, foldl_formByte_pair name value, List.foldl_cons, stored,
            inductionHypothesis (List.cons_ne_nil _ _) later]
          rfl

theorem inside_joined {pairs : List (Bytes × Bytes)}
    (readable : ∀ pair ∈ pairs, ReadablePair pair) :
    ∀ ch ∈ joined pairs, ch ≠ 0 := by
  induction pairs with
  | nil => simp [joined]
  | cons pair rest inductionHypothesis =>
      obtain ⟨⟨-, name, value⟩, later⟩ := List.forall_mem_cons.mp readable
      have first : ∀ ch ∈ pair.1 ++ 61 :: pair.2, ch ≠ 0 := by
        intro ch member
        rcases List.mem_append.mp member with inName | rest
        · exact (name ch inName).1
        · rcases List.mem_cons.mp rest with rfl | inValue
          · decide
          · exact (value ch inValue).1
      cases rest with
      | nil => simpa [joined] using first
      | cons next rest =>
          have step : joined (pair :: next :: rest) =
              (pair.1 ++ 61 :: pair.2) ++ 38 :: joined (next :: rest) := by
            simp [joined, List.intercalate_cons_cons]
          intro ch member
          rw [step] at member
          rcases List.mem_append.mp member with here | behind
          · exact first ch here
          · rcases List.mem_cons.mp behind with rfl | behind
            · decide
            · exact inductionHypothesis later ch behind

/-- The pairs of a form are entered one after the other, their values decoded. -/
theorem parseFormUrlencoded_joined {pairs : List (Bytes × Bytes)}
    (readable : ∀ pair ∈ pairs, ReadablePair pair) (map : OrderedMap Bytes Bytes) :
    parseFormUrlencoded map (joined pairs) = entered map pairs := by
  have whole : cString (joined pairs) = joined pairs := by
    apply List.takeWhile_eq_self_iff.mpr
    intro ch member
    simpa using inside_joined readable ch member
  rw [parseFormUrlencoded, whole]
  cases pairs with
  | nil => simp [joined, Collecting.store, entered]
  | cons pair rest => exact foldl_formByte_joined (List.cons_ne_nil _ _) readable map

theorem entered_eq (map : OrderedMap Bytes Bytes) (encoded : List (Bytes × Bytes)) :
    entered map encoded =
      (encoded.map fun pair => (pair.1, Util.urlDecode pair.2)).foldl
        (fun map entry => map.insert entry.1 entry.2) map := by
  rw [List.foldl_map]
  rfl

theorem map_fst_decoded (encoded : List (Bytes × Bytes)) :
    (encoded.map fun pair => (pair.1, Util.urlDecode pair.2)).map Prod.fst =
      encoded.map Prod.fst := by
  rw [List.map_map]
  rfl

theorem find?_entered_of_absent {encoded : List (Bytes × Bytes)} {name : Bytes}
    (absent : name ∉ encoded.map Prod.fst) (map : OrderedMap Bytes Bytes) :
    (entered map encoded).find? name = map.find? name := by
  rw [← map_fst_decoded] at absent
  rw [entered_eq, OrderedMap.find?_foldl_insert, OrderedMap.lastOf_eq_none absent, Option.none_or]

theorem find?_entered {encoded : List (Bytes × Bytes)}
    (distinct : (encoded.map Prod.fst).Nodup) {pair : Bytes × Bytes} (member : pair ∈ encoded)
    (map : OrderedMap Bytes Bytes) :
    (entered map encoded).find? pair.1 = some (Util.urlDecode pair.2) := by
  rw [← map_fst_decoded] at distinct
  have last := OrderedMap.lastOf_of_mem distinct
    (List.mem_map_of_mem (f := fun pair => (pair.1, Util.urlDecode pair.2)) member)
  rw [entered_eq, OrderedMap.find?_foldl_insert, last, Option.some_or]

theorem mem_entered {encoded : List (Bytes × Bytes)} {map : OrderedMap Bytes Bytes}
    {entry : Bytes × Bytes} (member : entry ∈ entered map encoded) :
    entry ∈ map ∨ ∃ pair ∈ encoded, entry = (pair.1, Util.urlDecode pair.2) := by
  rw [entered_eq] at member
  rcases OrderedMap.mem_foldl_insert member with stored | listed
  · exact .inl stored
  · obtain ⟨pair, among, same⟩ := List.mem_map.mp listed
    exact .inr ⟨pair, among, same.symm⟩

/-! ### Names -/

theorem exists_of_forall₂ {Left Right : Type} {relation : Left → Right → Prop}
    {left : List Left} {right : List Right} (related : List.Forall₂ relation left right)
    {first : Left} (member : first ∈ left) : ∃ second ∈ right, relation first second := by
  induction related with
  | nil => cases member
  | @cons head other left right here later inductionHypothesis =>
      rcases List.mem_cons.mp member with rfl | behind
      · exact ⟨other, List.mem_cons_self, here⟩
      · obtain ⟨second, listed, holds⟩ := inductionHypothesis behind
        exact ⟨second, List.mem_cons_of_mem _ listed, holds⟩

theorem nodup_of_encodes {names codes : List Bytes} (encodes : List.Forall₂ Encodes names codes)
    (distinct : names.Nodup) : codes.Nodup := by
  induction encodes with
  | nil => exact List.nodup_nil
  | @cons name code names codes first later inductionHypothesis =>
      obtain ⟨fresh, distinctRest⟩ := List.nodup_cons.mp distinct
      refine List.nodup_cons.mpr ⟨?_, inductionHypothesis distinctRest⟩
      intro member
      obtain ⟨other, listed, same⟩ := exists_of_forall₂ later.flip member
      exact fresh (first.injective same ▸ listed)

theorem lengths_of_encodes {names codes : List Bytes}
    (encodes : List.Forall₂ Encodes names codes) :
    (names.map List.length).sum ≤ (codes.map List.length).sum ∧
      ((codes.map List.length).sum = (names.map List.length).sum →
        List.Forall₂ (fun name code => Encodes name code ∧ code.length = name.length)
          names codes) := by
  induction encodes with
  | nil => simp
  | @cons name code names codes first later inductionHypothesis =>
      obtain ⟨notShorter, same⟩ := inductionHypothesis
      have := (length_of_encodes first).1
      simp only [List.map_cons, List.sum_cons]
      refine ⟨by omega, ?_⟩
      intro total
      exact .cons ⟨first, by omega⟩ (same (by omega))

theorem plain_of_subset {names codes : List Bytes} (encodes : List.Forall₂ Encodes names codes)
    (distinct : names.Nodup) (subset : ∀ name ∈ names, name ∈ codes) :
    ∀ name ∈ names, ∀ c ∈ name, isPlain c := by
  have same : names.Perm codes :=
    (List.subperm_of_subset distinct subset).perm_of_length_le encodes.length_eq.ge
  have matching := (lengths_of_encodes encodes).2 (same.map List.length).sum_eq.symm
  have noPlus : ∀ name ∈ names, 43 ∉ name := by
    intro name member
    obtain ⟨code, -, encodes, length⟩ := exists_of_forall₂ matching member
    exact encodes.not_mem_plus length
  intro name member
  obtain ⟨code, listed, encodes, length⟩ := exists_of_forall₂ matching member
  exact (length_of_encodes encodes).2 length (noPlus code (same.mem_iff.mpr listed))

/-! ### The round trip -/

section RoundTrip

variable {pairs encoded : List (Bytes × Bytes)}

theorem names_of_encodesPair (encodes : List.Forall₂ EncodesPair pairs encoded) :
    List.Forall₂ Encodes (pairs.map Prod.fst) (encoded.map Prod.fst) := by
  rw [List.forall₂_map_left_iff, List.forall₂_map_right_iff]
  exact encodes.imp fun _ _ related => related.1

theorem readable_of_encodesPair (nonempty : ∀ pair ∈ pairs, pair.1 ≠ [] ∧ pair.2 ≠ [])
    (encodes : List.Forall₂ EncodesPair pairs encoded) :
    ∀ pair ∈ encoded, ReadablePair pair := by
  intro code member
  obtain ⟨pair, listed, name, value⟩ := exists_of_forall₂ encodes.flip member
  have filled := nonempty pair listed
  refine ⟨⟨?_, ?_⟩, inside_of_encodes name, inside_of_encodes value⟩
  · intro empty
    rw [empty] at name
    exact filled.1 (List.length_eq_zero_iff.mp (Nat.le_zero.mp (length_of_encodes name).1))
  · intro empty
    rw [empty] at value
    exact filled.2 (List.length_eq_zero_iff.mp (Nat.le_zero.mp (length_of_encodes value).1))

theorem recovers_entered (encodes : List.Forall₂ EncodesPair pairs encoded)
    (distinct : (pairs.map Prod.fst).Nodup)
    (plain : ∀ pair ∈ pairs, ∀ c ∈ pair.1, isPlain c) :
    Recovers (entered [] encoded) pairs := by
  have codes := nodup_of_encodes (names_of_encodesPair encodes) distinct
  constructor
  · intro pair member
    obtain ⟨code, listed, name, value⟩ := exists_of_forall₂ encodes member
    rw [← name.of_plain (plain pair member), find?_entered codes listed,
      urlDecode_of_encodes value]
  · intro entry member
    rcases mem_entered member with stored | ⟨code, listed, rfl⟩
    · cases stored
    · obtain ⟨pair, listed, name, value⟩ := exists_of_forall₂ encodes.flip listed
      rw [name.of_plain (plain pair listed), urlDecode_of_encodes value]
      exact listed

/-- A form is read back exactly when its names need no encoding. -/
theorem parseFormUrlencoded_recovers_iff
    (nonempty : ∀ pair ∈ pairs, pair.1 ≠ [] ∧ pair.2 ≠ [])
    (distinct : (pairs.map Prod.fst).Nodup)
    (encodes : List.Forall₂ EncodesPair pairs encoded) :
    Recovers (parseFormUrlencoded [] (joined encoded)) pairs ↔
      ∀ pair ∈ pairs, ∀ c ∈ pair.1, isPlain c := by
  rw [parseFormUrlencoded_joined (readable_of_encodesPair nonempty encodes)]
  constructor
  · rintro ⟨found, -⟩
    have subset : ∀ name ∈ pairs.map Prod.fst, name ∈ encoded.map Prod.fst := by
      intro name member
      obtain ⟨pair, listed, rfl⟩ := List.mem_map.mp member
      by_contra absent
      have missing := find?_entered_of_absent absent ([] : OrderedMap Bytes Bytes)
      rw [found pair listed] at missing
      cases missing
    have plain := plain_of_subset (names_of_encodesPair encodes) distinct subset
    intro pair member
    exact plain pair.1 (List.mem_map_of_mem member)
  · exact recovers_entered encodes distinct

/-- The pair of `a` and a space and a percent sign. -/
theorem parseFormUrlencoded_recovers_percent :
    Recovers (parseFormUrlencoded [] (joined [([97], [43, 37, 50, 53])]))
        [([97], [32, 37])] ↔
      ∀ pair ∈ [(([97], [32, 37]) : Bytes × Bytes)], ∀ c ∈ pair.1, isPlain c := by
  have name : Encodes [97] ([97] ++ []) := .cons (.plain (by decide)) .nil
  have value : Encodes [32, 37] ([43] ++ ([37, 50, 53] ++ [])) :=
    .cons .plus (.cons (.percent (by decide) (by unfold HexDigit; decide)
      (by unfold HexDigit; decide)) .nil)
  exact parseFormUrlencoded_recovers_iff (by decide) (by decide) (.cons ⟨name, value⟩ .nil)

/-- The name `a b` is entered as `a+b`. -/
theorem not_recovers_space_in_name :
    List.Forall₂ EncodesPair [([97, 32, 98], [120])] [([97, 43, 98], [120])] ∧
      parseFormUrlencoded [] (joined [([97, 43, 98], [120])]) = [([97, 43, 98], [120])] ∧
      ¬ Recovers (parseFormUrlencoded [] (joined [([97, 43, 98], [120])]))
        [([97, 32, 98], [120])] := by
  have name : Encodes [97, 32, 98] ([97] ++ ([43] ++ ([98] ++ []))) :=
    .cons (.plain (by decide)) (.cons .plus (.cons (.plain (by decide)) .nil))
  have value : Encodes [120] ([120] ++ []) := .cons (.plain (by decide)) .nil
  have entries : parseFormUrlencoded [] (joined [([97, 43, 98], [120])]) =
      [([97, 43, 98], [120])] := by decide
  refine ⟨.cons ⟨name, value⟩ .nil, entries, ?_⟩
  rw [entries]
  rintro ⟨found, -⟩
  exact absurd (found ([97, 32, 98], [120]) List.mem_cons_self) (by decide)

end RoundTrip

end Mevent.Request
