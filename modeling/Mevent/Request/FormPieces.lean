import Mevent.Request.Urlencoded

/-!
# The pieces of a form

A form is split at every `&` and each of its pieces at the first `=`.
`ParseFormUrlencoded` reads the characters one after the other and leaves out every `=`.
-/

namespace Mevent.Request

open Library

/-- What stands before the first `=` of a piece and what stands behind it. -/
def splitPiece (piece : Bytes) : Bytes × Bytes :=
  (piece.takeWhile (· ≠ 61), (piece.dropWhile (· ≠ 61)).drop 1)

/-- The pieces of a form that have a name and a value. -/
def formPairs (str : Bytes) : List (Bytes × Bytes) :=
  ((str.splitOn 38).map splitPiece).filter fun pair => pair.1 ≠ [] ∧ pair.2 ≠ []

/-- The map that the pieces of a form stand for, a later piece in the place of an earlier. -/
def readForm (map : OrderedMap Bytes Bytes) (str : Bytes) : OrderedMap Bytes Bytes :=
  entered map (formPairs str)

/-- A value without its `=`. -/
def withoutEquals (value : Bytes) : Bytes := value.filter (· ≠ 61)

/-- The pairs whose value is more than a row of `=`, without the `=`. -/
def strippedPairs (pairs : List (Bytes × Bytes)) : List (Bytes × Bytes) :=
  (pairs.map fun pair => (pair.1, withoutEquals pair.2)).filter fun pair => pair.2 ≠ []

/-- A value with a `=` is the last one of its name only where it is a row of `=` and the
piece before it, or the map that is filled, has that value already. -/
def EqualsRepeated (map : OrderedMap Bytes Bytes) (pairs : List (Bytes × Bytes)) : Prop :=
  ∀ name value, OrderedMap.lastOf pairs name = some value → 61 ∈ value →
    (∀ c ∈ value, c = 61) ∧
      ((OrderedMap.lastOf (strippedPairs pairs) name).map Util.urlDecode).or
        (map.find? name) = some value

/-! ### One piece -/

def Collecting.ofPiece (piece : Bytes) (map : OrderedMap Bytes Bytes) : Collecting where
  isField := 61 ∉ piece
  field := (splitPiece piece).1
  value := withoutEquals (splitPiece piece).2
  map := map

theorem splitPiece_of_not_mem {piece : Bytes} (absent : 61 ∉ piece) :
    splitPiece piece = (piece, []) := by
  have all : ∀ c ∈ piece, decide (c ≠ 61) = true := by
    rintro c member
    exact decide_eq_true (fun same => absent (same ▸ member))
  rw [splitPiece, List.takeWhile_eq_self_iff.mpr all, List.dropWhile_eq_nil_iff.mpr all]
  rfl

theorem splitPiece_cons (name value : Bytes) (absent : 61 ∉ name) :
    splitPiece (name ++ 61 :: value) = (name, value) := by
  have all : ∀ c ∈ name, decide (c ≠ 61) = true := by
    rintro c member
    exact decide_eq_true (fun same => absent (same ▸ member))
  rw [splitPiece, List.takeWhile_append_of_pos all, List.dropWhile_append_of_pos all]
  simp

/-- A piece with a `=` has a part before the first one and a part behind it. -/
theorem exists_split_of_mem {piece : Bytes} (member : 61 ∈ piece) :
    ∃ name value, piece = name ++ 61 :: value ∧ 61 ∉ name := by
  obtain ⟨name, value, parts, absent⟩ := List.eq_append_cons_of_mem member
  exact ⟨name, value, parts, absent⟩

theorem formByte_ofPiece {c : UInt8} (inside : c ≠ 38) (piece : Bytes)
    (map : OrderedMap Bytes Bytes) :
    (Collecting.ofPiece piece map).formByte c = .ofPiece (piece ++ [c]) map := by
  by_cases member : 61 ∈ piece
  · obtain ⟨name, value, rfl, absent⟩ := exists_split_of_mem member
    have longer : name ++ 61 :: value ++ [c] = name ++ 61 :: (value ++ [c]) := by simp
    by_cases equals : c = 61
    · subst equals
      rw [longer, Collecting.ofPiece, Collecting.ofPiece, splitPiece_cons _ _ absent,
        splitPiece_cons _ _ absent]
      simp [Collecting.formByte, withoutEquals]
    · rw [longer, Collecting.ofPiece, Collecting.ofPiece, splitPiece_cons _ _ absent,
        splitPiece_cons _ _ absent]
      simp [Collecting.formByte, withoutEquals, equals, inside]
  · by_cases equals : c = 61
    · subst equals
      rw [Collecting.ofPiece, Collecting.ofPiece, splitPiece_cons _ _ member,
        splitPiece_of_not_mem member]
      simp [Collecting.formByte, member]
    · have still : 61 ∉ piece ++ [c] := by simp [member, Ne.symm equals]
      rw [Collecting.ofPiece, Collecting.ofPiece, splitPiece_of_not_mem member,
        splitPiece_of_not_mem still]
      simp [Collecting.formByte, member, equals, inside, Ne.symm equals]

/-! ### All pieces -/

/-- What the loop stores of a list of pieces. -/
def scannedPairs (pieces : List Bytes) : List (Bytes × Bytes) :=
  (pieces.map fun piece => ((splitPiece piece).1, withoutEquals (splitPiece piece).2)).filter
    fun pair => pair.1 ≠ [] ∧ pair.2 ≠ []

theorem store_ofPiece (piece : Bytes) (map : OrderedMap Bytes Bytes) :
    (Collecting.ofPiece piece map).store Util.urlDecode =
      .ofPiece [] (entered map (scannedPairs [piece])) := by
  have fresh : ∀ map, Collecting.ofPiece [] map = ⟨true, [], [], map⟩ := by
    intro map
    simp [Collecting.ofPiece, splitPiece, withoutEquals]
  rw [fresh, scannedPairs, List.map_singleton]
  by_cases filled : (splitPiece piece).1 ≠ [] ∧ withoutEquals (splitPiece piece).2 ≠ []
  · rw [List.filter_cons_of_pos (by simpa using filled), List.filter_nil]
    rw [Collecting.store, Collecting.ofPiece, if_pos filled]
    rfl
  · rw [List.filter_cons_of_neg (by simpa using filled), List.filter_nil]
    rw [Collecting.store, Collecting.ofPiece, if_neg filled]
    rfl

theorem entered_append (map : OrderedMap Bytes Bytes) (first later : List (Bytes × Bytes)) :
    entered map (first ++ later) = entered (entered map first) later :=
  List.foldl_append

/-- The loop and its last store enter what is left of the pieces, the first of which has
begun. -/
theorem foldl_formByte_ofPiece (str piece : Bytes) (map : OrderedMap Bytes Bytes) :
    ((str.foldl Collecting.formByte (.ofPiece piece map)).store Util.urlDecode).map =
      entered map (scannedPairs ((str.splitOn 38).modifyHead (piece ++ ·))) := by
  induction str generalizing piece map with
  | nil =>
      rw [List.foldl_nil, store_ofPiece, List.splitOn_nil, List.modifyHead_cons,
        List.append_nil]
      rfl
  | cons c rest inductionHypothesis =>
      rw [List.foldl_cons, List.splitOn_cons_eq_if_modifyHead]
      by_cases ends : c = 38
      · subst ends
        have stored : (Collecting.ofPiece piece map).formByte 38 =
            .ofPiece [] (entered map (scannedPairs [piece])) := store_ofPiece piece map
        have nothing : (rest.splitOn 38).modifyHead ([] ++ ·) = rest.splitOn 38 := by
          cases rest.splitOn 38 <;> rfl
        have pieces : scannedPairs (piece :: rest.splitOn 38) =
            scannedPairs [piece] ++ scannedPairs (rest.splitOn 38) := by
          simp [scannedPairs, ← List.filter_append]
        rw [stored, inductionHypothesis, nothing, if_pos (by rfl), List.modifyHead_cons,
          List.append_nil, pieces, entered_append]
      · rw [formByte_ofPiece ends, inductionHypothesis, if_neg (by simpa using ends),
          List.modifyHead_modifyHead]
        congr 3
        funext text
        simp

/-- Leaving out every `=` of a piece is leaving out those of its value. -/
theorem scannedPairs_splitOn (str : Bytes) :
    scannedPairs (str.splitOn 38) = strippedPairs (formPairs str) := by
  simp only [scannedPairs, strippedPairs, formPairs]
  induction str.splitOn 38 with
  | nil => rfl
  | cons piece pieces inductionHypothesis =>
      by_cases named : (splitPiece piece).1 = []
      · simpa [named] using inductionHypothesis
      · by_cases empty : (splitPiece piece).2 = []
        · simpa [named, empty, withoutEquals] using inductionHypothesis
        · by_cases row : withoutEquals (splitPiece piece).2 = []
          · simpa [named, empty, row] using inductionHypothesis
          · simpa [named, empty, row] using inductionHypothesis

/-- `ParseFormUrlencoded` enters the pieces of a form without their further `=`. -/
theorem parseFormUrlencoded_eq {str : Bytes} (nulFree : 0 ∉ str)
    (map : OrderedMap Bytes Bytes) :
    parseFormUrlencoded map str = entered map (strippedPairs (formPairs str)) := by
  have whole : cString str = str := by
    apply List.takeWhile_eq_self_iff.mpr
    intro c member
    exact decide_eq_true (fun zero => nulFree (zero ▸ member))
  have nothing : (str.splitOn 38).modifyHead ([] ++ ·) = str.splitOn 38 := by
    cases str.splitOn 38 <;> rfl
  have run := foldl_formByte_ofPiece str [] map
  rw [nothing, scannedPairs_splitOn] at run
  rw [parseFormUrlencoded, whole, ← run]
  rfl

/-! ### Values without `=` -/

theorem length_urlDecode_cons_le (c : UInt8) (rest : Bytes) :
    (Util.urlDecode (c :: rest)).length ≤ (Util.urlDecode rest).length + 1 := by
  match rest with
  | [] => simp [Util.urlDecode]
  | [d] => simp [Util.urlDecode]
  | high :: low :: rest =>
      rw [Util.urlDecode]
      split
      next => simp
      next =>
        split
        next escape =>
          obtain ⟨plus, percent, -⟩ := isXDigit_ne escape.2.1
          obtain ⟨plus', percent', -⟩ := isXDigit_ne escape.2.2
          rw [urlDecode_cons plus percent, urlDecode_cons plus' percent']
          simp only [List.length_cons]
          omega
        next => exact le_refl _

theorem length_urlDecode_le (value : Bytes) : (Util.urlDecode value).length ≤ value.length := by
  induction value with
  | nil => exact le_refl 0
  | cons c rest inductionHypothesis =>
      have := length_urlDecode_cons_le c rest
      rw [List.length_cons]
      omega

@[simp]
theorem withoutEquals_cons (c : UInt8) (rest : Bytes) :
    withoutEquals (c :: rest) =
      if c = 61 then withoutEquals rest else c :: withoutEquals rest := by
  rw [withoutEquals, List.filter_cons]
  by_cases equals : c = 61 <;> simp [equals, withoutEquals]

theorem length_withoutEquals (value : Bytes) :
    (withoutEquals value).length + value.count 61 = value.length := by
  induction value with
  | nil => rfl
  | cons c rest inductionHypothesis =>
      rw [withoutEquals_cons, List.count_cons, List.length_cons]
      by_cases equals : c = 61
      · simp only [equals, if_true, beq_self_eq_true]
        omega
      · rw [if_neg equals, if_neg (by simpa using equals), List.length_cons]
        omega

/-- No escape has a `=` in it: every `=` that is left out is missing from what is decoded. -/
theorem length_urlDecode_withoutEquals (value : Bytes) :
    (Util.urlDecode (withoutEquals value)).length + value.count 61 ≤
      (Util.urlDecode value).length := by
  have short : ∀ value : Bytes, (Util.urlDecode value).length = value.length →
      (Util.urlDecode (withoutEquals value)).length + value.count 61 ≤
        (Util.urlDecode value).length := by
    intro value whole
    have := length_urlDecode_le (withoutEquals value)
    have := length_withoutEquals value
    omega
  fun_induction Util.urlDecode value with
  | case1 => exact short [] rfl
  | case2 c => exact short [c] rfl
  | case3 c d => exact short [c, d] rfl
  | case4 high low rest inductionHypothesis =>
      rw [withoutEquals_cons, if_neg (by decide), urlDecode_plus, List.count_cons_of_ne (by decide),
        List.length_cons, List.length_cons]
      omega
  | case5 c high low rest plus escape inductionHypothesis =>
      obtain ⟨rfl, first, second⟩ := escape
      obtain ⟨-, -, equals⟩ := isXDigit_ne first
      obtain ⟨-, -, equals'⟩ := isXDigit_ne second
      rw [withoutEquals_cons, if_neg (by decide), withoutEquals_cons, if_neg equals,
        withoutEquals_cons, if_neg equals', urlDecode_escape first second,
        List.count_cons_of_ne (by decide), List.count_cons_of_ne equals,
        List.count_cons_of_ne equals', List.length_cons, List.length_cons]
      omega
  | case6 c high low rest plus escape inductionHypothesis =>
      rw [withoutEquals_cons, List.length_cons]
      by_cases equals : c = 61
      · rw [if_pos equals, equals, List.count_cons_self]
        omega
      · have := length_urlDecode_cons_le c (withoutEquals (high :: low :: rest))
        rw [if_neg equals, List.count_cons_of_ne equals]
        omega

/-- A row of `=` stands for itself. -/
theorem urlDecode_row {value : Bytes} (row : ∀ c ∈ value, c = 61) :
    Util.urlDecode value = value := by
  induction value with
  | nil => rfl
  | cons c rest inductionHypothesis =>
      obtain ⟨rfl, later⟩ := List.forall_mem_cons.mp row
      rw [urlDecode_cons (by decide) (by decide), inductionHypothesis later]

/-! ### The map of a form -/

theorem find?_entered_eq (map : OrderedMap Bytes Bytes) (pairs : List (Bytes × Bytes))
    (name : Bytes) :
    (entered map pairs).find? name =
      ((OrderedMap.lastOf pairs name).map Util.urlDecode).or (map.find? name) := by
  rw [entered_eq, OrderedMap.find?_foldl_insert, OrderedMap.lastOf_map]

theorem increasing_entered {map : OrderedMap Bytes Bytes} (increasing : map.Increasing)
    (pairs : List (Bytes × Bytes)) : (entered map pairs).Increasing := by
  unfold entered
  induction pairs generalizing map with
  | nil => exact increasing
  | cons pair rest inductionHypothesis => exact inductionHypothesis (increasing.insert _ _)

theorem lastOf_strippedPairs_eq_none {pairs : List (Bytes × Bytes)} {name : Bytes}
    (missing : OrderedMap.lastOf pairs name = none) :
    OrderedMap.lastOf (strippedPairs pairs) name = none := by
  apply OrderedMap.lastOf_filter_eq_none
  rw [OrderedMap.lastOf_map, missing, Option.map_none]

theorem lastOf_strippedPairs {pairs : List (Bytes × Bytes)} {name value : Bytes}
    (last : OrderedMap.lastOf pairs name = some value) (more : withoutEquals value ≠ []) :
    OrderedMap.lastOf (strippedPairs pairs) name = some (withoutEquals value) := by
  apply OrderedMap.lastOf_filter_of_lastOf
  · rw [OrderedMap.lastOf_map, last, Option.map_some]
  · simpa using more

/-- The loop leaves what a form stands for under a name, as long as no value with a `=` is
the last one of that name and not a repetition. -/
theorem find?_stripped_iff (map : OrderedMap Bytes Bytes) {str : Bytes} (name : Bytes) :
    (entered map (strippedPairs (formPairs str))).find? name = (readForm map str).find? name ↔
      ∀ value, OrderedMap.lastOf (formPairs str) name = some value → 61 ∈ value →
        (∀ c ∈ value, c = 61) ∧
          ((OrderedMap.lastOf (strippedPairs (formPairs str)) name).map Util.urlDecode).or
            (map.find? name) = some value := by
  rw [readForm, find?_entered_eq, find?_entered_eq]
  cases last : OrderedMap.lastOf (formPairs str) name with
  | none => simp [lastOf_strippedPairs_eq_none last]
  | some value =>
      simp only [Option.some.injEq, forall_eq', Option.map_some, Option.some_or]
      by_cases equals : 61 ∈ value
      · by_cases row : ∀ c ∈ value, c = 61
        · rw [urlDecode_row row]
          exact ⟨fun same _ => ⟨row, same⟩, fun condition => (condition equals).2⟩
        · have more : withoutEquals value ≠ [] := by
            intro nothing
            apply row
            intro c member
            have := List.filter_eq_nil_iff.mp nothing c member
            simpa using this
          have shorter := length_urlDecode_withoutEquals value
          have counted := List.count_pos_iff.mpr equals
          rw [lastOf_strippedPairs last more]
          simp only [equals, row, false_and, forall_const, iff_false, Option.map_some,
            Option.some_or, Option.some.injEq]
          intro same
          rw [same] at shorter
          omega
      · have unchanged : withoutEquals value = value := by
          apply List.filter_eq_self.mpr
          intro c member
          exact decide_eq_true (fun same => equals (same ▸ member))
        have filled : value ≠ [] := by
          have kept := (List.mem_filter.mp (OrderedMap.mem_of_lastOf last)).2
          exact (of_decide_eq_true kept).2
        rw [lastOf_strippedPairs last (unchanged.symm ▸ filled), unchanged]
        simp [equals]

/-- `ParseFormUrlencoded` reads a form at every `&` and every first `=` exactly when no value
with a further `=` counts, or one that counts repeats what is there without it. -/
theorem parseFormUrlencoded_eq_readForm_iff {map : OrderedMap Bytes Bytes} {str : Bytes}
    (increasing : map.Increasing) (nulFree : 0 ∉ str) :
    parseFormUrlencoded map str = readForm map str ↔ EqualsRepeated map (formPairs str) := by
  rw [parseFormUrlencoded_eq nulFree]
  constructor
  · intro same name
    exact (find?_stripped_iff map name).mp (congrArg (OrderedMap.find? · name) same)
  · intro repeated
    apply (increasing_entered increasing _).ext (increasing_entered increasing _)
    intro name
    exact (find?_stripped_iff map name).mpr (repeated name)

/-- The second `a` has nothing but a `=`, which the first one has written as an escape. -/
theorem parseFormUrlencoded_eq_readForm_row :
    parseFormUrlencoded [] (ascii "a=%3D&a==&b=c".toList) =
        readForm [] (ascii "a=%3D&a==&b=c".toList) ↔
      EqualsRepeated [] (formPairs (ascii "a=%3D&a==&b=c".toList)) :=
  parseFormUrlencoded_eq_readForm_iff List.Pairwise.nil (by decide +kernel)

/-- The value of `a=b=c` loses its `=`. -/
theorem not_readForm_further_equals :
    0 ∉ ascii "a=b=c".toList ∧
      parseFormUrlencoded [] (ascii "a=b=c".toList) =
        [(ascii "a".toList, ascii "bc".toList)] ∧
      readForm [] (ascii "a=b=c".toList) = [(ascii "a".toList, ascii "b=c".toList)] ∧
      parseFormUrlencoded [] (ascii "a=b=c".toList) ≠ readForm [] (ascii "a=b=c".toList) := by
  decide +kernel

end Mevent.Request
