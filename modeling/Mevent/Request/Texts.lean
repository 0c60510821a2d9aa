import Mevent.Request.ContentLength
import Mevent.Request.Target

/-!
# The `Content-Type` and the `Sec-WebSocket-Key` of a request

The values that header lines give these fields, and what the parser appends to
`content_type_` and `sec_websocket_key_` line by line.  It compares a line with the name and
does not look whether the name ends there.
-/

namespace Mevent.Request

/-- The value of a header line whose whole name is `name` in any case, up to its first space.
The spaces in front of the value do not belong to it. -/
def textOf (name line : Bytes) : Option Bytes :=
  match line.dropWhile (· ≠ ':'.toUInt8) with
  | [] => none
  | _ :: value =>
      if (line.takeWhile (· ≠ ':'.toUInt8)).map lowerCase = name then
        some ((value.dropWhile (· = space)).takeWhile (· ≠ space))
      else
        none

/-- The text that the parser keeps of a field; a `Content-Length` is kept as a number. -/
def text (req : Request) : Field → Bytes
  | .contentLength => []
  | .secWebsocketKey => req.secWebsocketKey
  | .contentType => req.contentType

/-- The text that a head gives a field. -/
def Head.text (head : Head) (field : Field) : Bytes :=
  ((head.headerLines.filterMap (textOf field.name)).head?).getD []

/-- What follows the name in any case at the beginning of a line. -/
def behindName : (name line : Bytes) → Option Bytes
  | [], line => some line
  | c :: name, ch :: line => if lowerCase ch = c then behindName name line else none
  | _ :: _, [] => none

/-- What follows the name on a header line: a colon and a value that does not begin with
another one and has no carriage return in its first word, or else nothing but spaces and
colons, perhaps in front of a carriage return. -/
def EndsName : Bytes → Prop
  | [] => True
  | ch :: rest =>
      if ch = ':'.toUInt8 then
        (rest.dropWhile (· = space)).head? ≠ some ':'.toUInt8 ∧
          cr ∉ (rest.dropWhile (· = space)).takeWhile (· ≠ space)
      else
        ∀ first, ((ch :: rest).dropWhile fun ch => ch = space || ch = ':'.toUInt8).head? =
          some first → first = cr

/-- A line that begins with the name goes on as a line of that field, or gives it no text. -/
def PlainlyNamed (name line : Bytes) : Prop :=
  ∀ rest, behindName name line = some rest → EndsName rest

section Bytes

theorem token_eq (ch : UInt8) :
    token ch = if token (lowerCase ch) = 0 then 0 else lowerCase ch := by
  revert ch
  apply forall_byte
  decide +kernel

theorem token_eq_iff {c : UInt8} (known : token c ≠ 0) (ch : UInt8) :
    token ch = c ↔ lowerCase ch = c := by
  rw [token_eq]
  constructor
  · intro same
    split at same
    · exact absurd (same ▸ rfl) known
    · exact same
  · rintro rfl
    rw [if_neg known]

theorem lowerCase_eq_colon_iff (ch : UInt8) : lowerCase ch = ':'.toUInt8 ↔ ch = ':'.toUInt8 := by
  rw [lowerCase]
  split
  next upper =>
      simp only [Bool.and_eq_true, decide_eq_true_eq, UInt8.le_iff_toNat_le] at upper
      obtain ⟨lower, higher⟩ := upper
      have first : 'A'.toUInt8.toNat = 65 := rfl
      have last : 'Z'.toUInt8.toNat = 90 := rfl
      have colon : ':'.toUInt8.toNat = 58 := rfl
      have distance : (32 : UInt8).toNat = 32 := rfl
      rw [← UInt8.toNat_inj, ← UInt8.toNat_inj, UInt8.toNat_add]
      omega
  next => rfl

theorem token_eq_colon_iff (ch : UInt8) : token ch = ':'.toUInt8 ↔ ch = ':'.toUInt8 :=
  (token_eq_iff (by decide) ch).trans (lowerCase_eq_colon_iff ch)

theorem isSeparator_eq (ch : UInt8) :
    isSeparator ch = (decide (ch = space) || decide (ch = ':'.toUInt8)) := by
  rw [isSeparator]
  simp only [token_eq_space_iff, token_eq_colon_iff]

theorem inValue_eq (ch : UInt8) : inValue ch = (decide (ch ≠ space) && decide (ch ≠ cr)) := by
  rw [inValue]
  simp only [ne_eq, token_eq_space_iff, token_eq_cr_iff]

def InName (c : UInt8) : Prop := ∀ ch, token ch = c ↔ lowerCase ch = c

theorem inName_name (field : Field) : ∀ c ∈ field.name, InName c ∧ c ≠ ':'.toUInt8 ∧ c ≠ cr := by
  have known : ∀ c ∈ field.name, token c ≠ 0 ∧ c ≠ ':'.toUInt8 ∧ c ≠ cr := by
    cases field <;> decide +kernel
  intro c among
  obtain ⟨inTable, apart⟩ := known c among
  exact ⟨token_eq_iff inTable, apart⟩

end Bytes

section Lines

/-- The text that the parser finds behind a name. -/
def foundText (rest : Bytes) : Bytes := ((rest ++ [cr]).dropWhile isSeparator).takeWhile inValue

/-- The parser compares a line with a name as `behindName` does. -/
theorem readField_eq {name : Bytes} (plain : ∀ c ∈ name, InName c ∧ c ≠ ':'.toUInt8 ∧ c ≠ cr)
    (line : Bytes) :
    (readField name (line ++ [cr])).1 = (behindName name line).map foundText := by
  induction name generalizing line with
  | nil => rfl
  | cons c name inductionHypothesis =>
      obtain ⟨⟨inName, -, notCr⟩, later⟩ := List.forall_mem_cons.mp plain
      cases line with
      | nil =>
          rw [List.nil_append, readField, if_neg]
          · rfl
          · rw [show token cr = cr from rfl]
            exact Ne.symm notCr
      | cons ch line =>
          rw [List.cons_append, readField, behindName]
          by_cases same : token ch = c
          · rw [if_pos same, if_pos ((inName ch).mp same), inductionHypothesis later]
          · rw [if_neg same, if_neg fun lower => same ((inName ch).mpr lower)]
            rfl

theorem behindName_eq_some_iff {name line rest : Bytes} :
    behindName name line = some rest ↔
      ∃ spelled, spelled.map lowerCase = name ∧ line = spelled ++ rest := by
  induction name generalizing line with
  | nil =>
      rw [behindName]
      constructor
      · intro same
        exact ⟨[], rfl, Option.some.inj same⟩
      · rintro ⟨spelled, spells, rfl⟩
        rw [List.map_eq_nil_iff.mp spells, List.nil_append]
  | cons c name inductionHypothesis =>
      cases line with
      | nil =>
          constructor
          · intro impossible
            cases impossible
          · rintro ⟨spelled, spells, same⟩
            rw [(List.append_eq_nil_iff.mp same.symm).1] at spells
            cases spells
      | cons ch line =>
          rw [behindName]
          constructor
          · intro behind
            split at behind
            next same =>
              obtain ⟨spelled, spells, rfl⟩ := inductionHypothesis.mp behind
              exact ⟨ch :: spelled, by rw [List.map_cons, same, spells], rfl⟩
            next => cases behind
          · rintro ⟨spelled, spells, same⟩
            cases spelled with
            | nil => cases spells
            | cons first spelled =>
                obtain ⟨rfl, rfl⟩ := List.cons.inj same
                obtain ⟨sameFirst, spells⟩ := List.cons.inj spells
                rw [if_pos sameFirst, inductionHypothesis]
                exact ⟨spelled, spells, rfl⟩

theorem map_token_spelled {field : Field} {spelled : Bytes}
    (spells : spelled.map lowerCase = field.name) : spelled.map token = field.name := by
  rw [← spells]
  apply List.map_congr_left
  intro ch among
  have inName := (inName_name field (lowerCase ch)
    (spells ▸ List.mem_map_of_mem among)).1
  exact (inName ch).mpr rfl

theorem fieldOf_of_behindName {field : Field} {line rest : Bytes}
    (behind : behindName field.name line = some rest) : fieldOf (line ++ [cr]) = some field := by
  obtain ⟨spelled, spells, rfl⟩ := behindName_eq_some_iff.mp behind
  have tokens := map_token_spelled spells
  have long : 9 ≤ spelled.length := by
    rw [← List.length_map token, tokens]
    cases field <;> decide
  have front : ((spelled ++ rest ++ [cr]).take 9).map token = field.name.take 9 := by
    rw [List.append_assoc, List.take_append_of_le_length long, List.map_take, tokens]
  have first : ((spelled ++ rest ++ [cr]).head?).map token = field.name.head? := by
    cases spelled with
    | nil => cases long
    | cons ch spelled => exact (congrArg List.head? tokens : _)
  rw [fieldOf, front, first]
  cases field <;> decide

def entryText (field : Field) : Option (Field × Bytes) → Bytes
  | some (other, value) => if other = field then value else []
  | none => []

def textPart (field : Field) (line : Bytes) : Bytes := entryText field (readLine line).1

theorem textPart_eq (field : Field) (line : Bytes) :
    textPart field (line ++ [cr]) = ((behindName field.name line).map foundText).getD [] := by
  cases behind : behindName field.name line with
  | some rest =>
      rw [textPart, readLine, fieldOf_of_behindName behind]
      simp only
      rw [readField_eq (inName_name field), behind]
      simp [entryText]
  | none =>
      rw [textPart, readLine]
      cases compared : fieldOf (line ++ [cr]) with
      | none => rfl
      | some other =>
          simp only
          by_cases same : other = field
          · rw [same, readField_eq (inName_name field), behind]
            rfl
          · cases (readField other.name (line ++ [cr])).1 with
            | none => rfl
            | some value => exact if_neg same

theorem textPart_of_short {field : Field} {line : Bytes} (short : line.length < 9) :
    textPart field (line ++ [cr]) = [] := by
  rw [textPart_eq]
  cases behind : behindName field.name line with
  | none => rfl
  | some rest =>
      obtain ⟨spelled, spells, rfl⟩ := behindName_eq_some_iff.mp behind
      have long : 9 ≤ spelled.length := by
        rw [← List.length_map lowerCase, spells]
        cases field <;> decide
      rw [List.length_append] at short
      omega

theorem takeWhile_colon {spelled rest : Bytes} (outside : ':'.toUInt8 ∉ spelled) :
    (spelled ++ ':'.toUInt8 :: rest).takeWhile (· ≠ ':'.toUInt8) = spelled ∧
      (spelled ++ ':'.toUInt8 :: rest).dropWhile (· ≠ ':'.toUInt8) = ':'.toUInt8 :: rest := by
  have all : ∀ ch ∈ spelled, (decide (ch ≠ ':'.toUInt8)) = true := by
    intro ch among
    apply decide_eq_true
    rintro rfl
    exact outside among
  rw [List.takeWhile_append_of_pos all, List.dropWhile_append_of_pos all]
  simp

theorem textOf_eq_some_iff {name line value : Bytes} (plain : ∀ c ∈ name, c ≠ ':'.toUInt8) :
    textOf name line = some value ↔
      ∃ rest, behindName name line = some (':'.toUInt8 :: rest) ∧
        value = (rest.dropWhile (· = space)).takeWhile (· ≠ space) := by
  constructor
  · intro has
    have whole := @List.takeWhile_append_dropWhile _ (· ≠ ':'.toUInt8) line
    have colon := List.head?_dropWhile_not (· ≠ ':'.toUInt8) line
    unfold textOf at has
    cases dropped : line.dropWhile (· ≠ ':'.toUInt8) with
    | nil =>
        rw [dropped] at has
        cases has
    | cons ch rest =>
        rw [dropped] at has whole colon
        simp at colon
        simp only at has
        split at has
        next spells =>
          cases has
          subst colon
          exact ⟨rest, behindName_eq_some_iff.mpr ⟨_, spells, whole.symm⟩, rfl⟩
        next => cases has
  · rintro ⟨rest, behind, rfl⟩
    obtain ⟨spelled, spells, rfl⟩ := behindName_eq_some_iff.mp behind
    have outside : ':'.toUInt8 ∉ spelled := by
      intro among
      refine plain ':'.toUInt8 ?_ rfl
      rw [← spells]
      exact List.mem_map.mpr ⟨_, among, rfl⟩
    obtain ⟨front, later⟩ := @takeWhile_colon spelled rest outside
    rw [textOf, later, front]
    exact if_pos spells

theorem dropWhile_isSeparator {rest : Bytes}
    (single : (rest.dropWhile (· = space)).head? ≠ some ':'.toUInt8) :
    (':'.toUInt8 :: rest ++ [cr]).dropWhile isSeparator =
      rest.dropWhile (· = space) ++ [cr] := by
  rw [List.cons_append, List.dropWhile_cons, if_pos (by decide)]
  induction rest with
  | nil => rfl
  | cons ch rest inductionHypothesis =>
      rw [List.cons_append, List.dropWhile_cons, isSeparator_eq]
      by_cases isSpace : ch = space
      · rw [isSpace, dropWhile_space] at single ⊢
        rw [if_pos (by decide)]
        exact inductionHypothesis single
      · rw [dropWhile_of_ne_space isSpace] at single ⊢
        rw [if_neg]
        · rfl
        · simpa [isSpace] using single

theorem takeWhile_inValue {value : Bytes} (noCr : cr ∉ value.takeWhile (· ≠ space)) :
    (value ++ [cr]).takeWhile inValue = value.takeWhile (· ≠ space) := by
  induction value with
  | nil => rfl
  | cons ch value inductionHypothesis =>
      rw [List.cons_append, List.takeWhile_cons, List.takeWhile_cons, inValue_eq]
      by_cases isSpace : ch = space
      · simp [isSpace]
      · rw [List.takeWhile_cons, if_pos (by simpa using isSpace)] at noCr
        obtain ⟨notCr, later⟩ := List.ne_and_not_mem_of_not_mem_cons noCr
        simp [isSpace, Ne.symm notCr, inductionHypothesis later]

theorem foundText_of_colon {rest : Bytes} (ends : EndsName (':'.toUInt8 :: rest)) :
    foundText (':'.toUInt8 :: rest) = (rest.dropWhile (· = space)).takeWhile (· ≠ space) := by
  rw [EndsName, if_pos rfl] at ends
  rw [foundText, dropWhile_isSeparator ends.1, takeWhile_inValue ends.2]

theorem foundText_plain (rest : Bytes) :
    cr ∉ foundText rest ∧ (foundText rest).head? ≠ some ':'.toUInt8 := by
  constructor
  · intro among
    have inside := List.mem_takeWhile_imp among
    revert inside
    decide
  · intro first
    unfold foundText at first
    have kept := List.head?_dropWhile_not isSeparator (rest ++ [cr])
    cases dropped : (rest ++ [cr]).dropWhile isSeparator with
    | nil =>
        rw [dropped] at first
        cases first
    | cons ch later =>
        rw [dropped] at first kept
        rw [List.takeWhile_cons] at first
        split at first
        · cases first
          simp at kept
          revert kept
          decide
        · cases first

theorem foundText_eq_nil_iff {rest : Bytes} (notColon : rest.head? ≠ some ':'.toUInt8) :
    foundText rest = [] ↔ EndsName rest := by
  have same : (fun ch => decide (ch = space) || decide (ch = ':'.toUInt8)) = isSeparator :=
    funext fun ch => (isSeparator_eq ch).symm
  cases rest with
  | nil => exact iff_of_true rfl trivial
  | cons ch rest =>
      have other : ch ≠ ':'.toUInt8 := fun isColon => notColon (congrArg some isColon)
      rw [EndsName, if_neg other, same, foundText, List.dropWhile_append]
      have kept := List.head?_dropWhile_not isSeparator (ch :: rest)
      cases dropped : (ch :: rest).dropWhile isSeparator with
      | nil => exact iff_of_true rfl (by simp)
      | cons first later =>
          rw [dropped] at kept
          have notSpace : first ≠ space := by
            rintro rfl
            simp [isSeparator_eq] at kept
          rw [if_neg (by simp), List.cons_append, List.takeWhile_cons, inValue_eq]
          simp [notSpace]

variable {field : Field} {line : Bytes}

theorem textPart_plain (field : Field) (line : Bytes) :
    cr ∉ textPart field (line ++ [cr]) ∧
      (textPart field (line ++ [cr])).head? ≠ some ':'.toUInt8 := by
  rw [textPart_eq]
  cases behindName field.name line with
  | none => simp
  | some rest => exact foundText_plain rest

theorem textPart_of_textOf {value : Bytes} (has : textOf field.name line = some value)
    (plain : PlainlyNamed field.name line) : textPart field (line ++ [cr]) = value := by
  obtain ⟨rest, behind, rfl⟩ :=
    (textOf_eq_some_iff fun c among => (inName_name field c among).2.1).mp has
  rw [textPart_eq, behind]
  exact foundText_of_colon (plain _ behind)

theorem value_of_not_plain {value : Bytes} (has : textOf field.name line = some value)
    (notPlain : ¬ PlainlyNamed field.name line) :
    cr ∈ value ∨ value.head? = some ':'.toUInt8 := by
  obtain ⟨rest, behind, rfl⟩ :=
    (textOf_eq_some_iff fun c among => (inName_name field c among).2.1).mp has
  by_contra neither
  obtain ⟨noCr, noColon⟩ := not_or.mp neither
  apply notPlain
  intro other otherBehind
  rw [behind] at otherBehind
  cases otherBehind
  rw [EndsName, if_pos rfl]
  refine ⟨?_, noCr⟩
  intro first
  apply noColon
  rw [← List.cons_head?_tail first, List.takeWhile_cons, if_pos (by decide), List.head?_cons]

theorem textPart_of_none (has : textOf field.name line = none) :
    textPart field (line ++ [cr]) = [] ↔ PlainlyNamed field.name line := by
  rw [textPart_eq]
  cases behind : behindName field.name line with
  | none =>
      refine iff_of_true rfl fun rest impossible => ?_
      rw [behind] at impossible
      cases impossible
  | some rest =>
      have notColon : rest.head? ≠ some ':'.toUInt8 := by
        intro first
        have named : textOf field.name line = some _ :=
          (textOf_eq_some_iff fun c among => (inName_name field c among).2.1).mpr
            ⟨rest.tail, by rw [behind, List.cons_head?_tail first], rfl⟩
        rw [named] at has
        cases has
      rw [Option.map_some, Option.getD_some, foundText_eq_nil_iff notColon]
      constructor
      · intro ends other otherBehind
        rw [behind] at otherBehind
        cases otherBehind
        exact ends
      · intro plain
        exact plain rest behind

end Lines

section Heads

variable {field : Field} {lines : List Bytes}

/-- The text that the lines of a head add to a field. -/
def foundTexts (field : Field) (lines : List Bytes) : Bytes :=
  lines.flatMap fun line => textPart field (line ++ [cr])

theorem foundTexts_cons (field : Field) (line : Bytes) (lines : List Bytes) :
    foundTexts field (line :: lines) = textPart field (line ++ [cr]) ++ foundTexts field lines :=
  rfl

theorem foundTexts_plain (field : Field) (lines : List Bytes) :
    cr ∉ foundTexts field lines ∧ (foundTexts field lines).head? ≠ some ':'.toUInt8 := by
  induction lines with
  | nil => simp [foundTexts]
  | cons line lines inductionHypothesis =>
      obtain ⟨noCr, noColon⟩ := textPart_plain field line
      rw [foundTexts_cons]
      constructor
      · rw [List.mem_append, not_or]
        exact ⟨noCr, inductionHypothesis.1⟩
      · cases found : textPart field (line ++ [cr]) with
        | nil => exact inductionHypothesis.2
        | cons ch rest =>
            rw [found] at noColon
            exact noColon

theorem foundTexts_of_none (none : ∀ line ∈ lines, textOf field.name line = none) :
    foundTexts field lines = [] ↔ ∀ line ∈ lines, PlainlyNamed field.name line := by
  rw [foundTexts, List.flatMap_eq_nil_iff]
  exact forall₂_congr fun line among => textPart_of_none (none line among)

/-- Of lines with one value at most, the text that is found is that value exactly when all of
them are plainly named. -/
theorem foundTexts_eq_iff (single : (lines.filterMap (textOf field.name)).length ≤ 1) :
    foundTexts field lines = ((lines.filterMap (textOf field.name)).head?).getD [] ↔
      ∀ line ∈ lines, PlainlyNamed field.name line := by
  cases values : lines.filterMap (textOf field.name) with
  | nil => exact foundTexts_of_none (List.filterMap_eq_nil_iff.mp values)
  | cons value others =>
      rw [values, List.length_cons] at single
      have noOthers : others = [] := List.eq_nil_of_length_eq_zero (by omega)
      obtain ⟨before, line, behind, rfl, noneBefore, has, laterValues⟩ :=
        List.filterMap_eq_cons_iff.mp values
      rw [noOthers] at laterValues
      have noneBehind := List.filterMap_eq_nil_iff.mp laterValues
      have found : foundTexts field (before ++ line :: behind) =
          foundTexts field before ++ textPart field (line ++ [cr]) ++ foundTexts field behind := by
        simp [foundTexts]
      rw [List.head?_cons, Option.getD_some, found, List.forall_mem_append, List.forall_mem_cons,
        ← foundTexts_of_none noneBefore, ← foundTexts_of_none noneBehind]
      constructor
      · intro same
        have plain : PlainlyNamed field.name line := by
          by_contra notPlain
          obtain ⟨noCr, noColon⟩ := foundTexts_plain field (before ++ line :: behind)
          rw [found, same] at noCr noColon
          rcases value_of_not_plain has notPlain with hasCr | hasColon
          · exact noCr hasCr
          · exact noColon hasColon
        rw [textPart_of_textOf has plain] at same
        have lengths := congrArg List.length same
        rw [List.length_append, List.length_append] at lengths
        exact ⟨List.eq_nil_of_length_eq_zero (by omega), plain,
          List.eq_nil_of_length_eq_zero (by omega)⟩
      · rintro ⟨first, plain, last⟩
        rw [first, last, textPart_of_textOf has plain]
        simp

theorem store_text (kept : field ≠ .contentLength) (req : Request)
    (entry : Option (Field × Bytes)) :
    (req.store entry).text field = req.text field ++ entryText field entry := by
  rcases entry with _ | ⟨other, value⟩
  · simp [store, entryText]
  · cases field with
    | contentLength => exact absurd rfl kept
    | secWebsocketKey => cases other <;> simp [store, text, entryText]
    | contentType => cases other <;> simp [store, text, entryText]

theorem length_joinLines_cons (line : Bytes) (rest : List Bytes) :
    (joinLines (line :: rest)).length = line.length + 2 + (joinLines rest).length := by
  simp [joinLines, crlf]
  omega

theorem foundTexts_of_short {behind : Nat} (short : (joinLines lines).length + behind < 9) :
    foundTexts field lines = [] := by
  induction lines with
  | nil => rfl
  | cons line rest inductionHypothesis =>
      rw [length_joinLines_cons] at short
      rw [foundTexts_cons, inductionHypothesis (by omega), textPart_of_short (by omega)]
      rfl

theorem textPart_seenPart {line : Bytes} {rest : List Bytes} {behind : Nat} :
    textPart field (seenPart (line ++ [cr]) ((joinLines (line :: rest)).length + behind)) =
      textPart field (line ++ [cr]) := by
  rw [length_joinLines_cons]
  unfold seenPart
  split
  next short =>
    have isShort : line.length < 9 := by omega
    rw [textPart_of_short isShort]
    by_cases isC : ∃ kept, (line ++ [cr]).dropWhile (fun ch => token ch = 'c'.toUInt8) =
        kept ++ [cr] ∧ kept.length < 9
    · obtain ⟨kept, same, keptShort⟩ := isC
      rw [same, textPart_of_short keptShort]
    · exfalso
      apply isC
      rw [List.dropWhile_append]
      split
      · exact ⟨[], by decide, by simp⟩
      · refine ⟨_, rfl, ?_⟩
        exact Nat.lt_of_le_of_lt (List.length_dropWhile_le _ _) isShort
  next => rfl

/-- The parser appends what it finds line by line. -/
theorem readLines_text (kept : field ≠ .contentLength) (filled : ∀ line ∈ lines, line ≠ [])
    {behind : Nat} {req final : Request} (read : readLines behind req lines = some final) :
    final.text field = req.text field ++ foundTexts field lines := by
  induction lines generalizing req with
  | nil =>
      cases read
      simp [foundTexts]
  | cons line rest inductionHypothesis =>
      obtain ⟨filledLine, filledRest⟩ := List.forall_mem_cons.mp filled
      have part := @textPart_seenPart field line rest behind
      rw [readLines] at read
      by_cases blank : seenPart (line ++ [cr]) ((joinLines (line :: rest)).length + behind) = [cr]
      · rw [if_pos blank] at read
        cases read
        have short : (joinLines (line :: rest)).length + behind < 9 := by
          by_contra long
          rw [seenPart, if_neg long] at blank
          exact filledLine (List.append_left_eq_self.mp blank)
        rw [foundTexts_of_short short, List.append_nil]
      · rw [if_neg blank] at read
        split at read
        · rw [inductionHypothesis filledRest read, store_text kept, foundTexts_cons, ← part,
            List.append_assoc]
          rfl
        · cases read

end Heads

section Parsing

/-- What a head in one piece leaves in the fields. -/
theorem text_parse {field : Field} (kept : field ≠ .contentLength) {head : Head} {behind : Bytes}
    (finished : (reset.append (head.bytes ++ behind)).parse.verdict = .finished) :
    (reset.append (head.bytes ++ behind)).parse.state.text field =
      foundTexts field head.headerLines := by
  have parsed := parse_head head behind
  rw [reset_append] at finished ⊢
  cases read : head.read behind.length with
  | none =>
      rw [read] at parsed
      rw [parsed] at finished
      cases finished
  | some final =>
      rw [read] at parsed
      obtain ⟨status, offset, headerLen, front, rest, whole⟩ := parsed
      obtain ⟨req, requestLine, lines⟩ := Option.bind_eq_some_iff.mp read
      obtain ⟨method, path, query, rfl⟩ := readRequestLine_keeps requestLine
      have texts := readLines_text kept head.filled lines
      have fresh :
          text { reset with method := method, path := path, queryString := query } field = [] := by
        cases field <;> rfl
      rw [fresh, List.nil_append] at texts
      rw [parse, whole, ← texts]
      cases field <;> rfl

end Parsing

/-- A head in one piece gives a field the value of its line exactly when all lines that begin
with the name of the field are plainly named. -/
theorem text_parse_eq_iff {head : Head} {field : Field} (kept : field ≠ .contentLength)
    (behind : Bytes)
    (finished : (reset.append (head.bytes ++ behind)).parse.verdict = .finished)
    (single : (head.headerLines.filterMap (textOf field.name)).length ≤ 1) :
    (reset.append (head.bytes ++ behind)).parse.state.text field = head.text field ↔
      ∀ line ∈ head.headerLines, PlainlyNamed field.name line := by
  rw [text_parse kept finished]
  exact foundTexts_eq_iff single

/-- A head with one `Content-Type` line. -/
theorem text_parse_eq_iff_content_type :
    ∃ head : Head, head.headerLines =
        [ascii ['C', 'o', 'n', 't', 'e', 'n', 't', '-', 'T', 'y', 'p', 'e', ':', ' ', 'a']] ∧
      ((reset.append (head.bytes ++ [])).parse.state.text .contentType = head.text .contentType ↔
        ∀ line ∈ head.headerLines, PlainlyNamed contentTypeName line) :=
  ⟨{ requestLine := ascii ['G', 'E', 'T', ' ', '/', ' ']
     headerLines :=
       [ascii ['C', 'o', 'n', 't', 'e', 'n', 't', '-', 'T', 'y', 'p', 'e', ':', ' ', 'a']]
     unbroken := by decide +kernel
     filled := by decide +kernel }, rfl,
    text_parse_eq_iff (by decide) [] (by decide +kernel) (by decide +kernel)⟩

/-- A line with a longer name gives its value to `content_type_`. -/
theorem not_text_parse_eq_longer_name :
    ¬ ∀ (head : Head) (field : Field), field ≠ .contentLength →
      (reset.append head.bytes).parse.verdict = .finished →
      (head.headerLines.filterMap (textOf field.name)).length ≤ 1 →
      (reset.append head.bytes).parse.state.text field = head.text field := by
  intro claim
  have same := claim
    { requestLine := ascii ['G', 'E', 'T', ' ', '/', ' ']
      headerLines :=
        [ascii ['C', 'o', 'n', 't', 'e', 'n', 't', '-', 'T', 'y', 'p', 'e', 'X', ':', ' ', 'a']]
      unbroken := by decide +kernel
      filled := by decide +kernel } .contentType (by decide) (by decide +kernel)
    (by decide +kernel)
  revert same
  decide +kernel

end Mevent.Request
