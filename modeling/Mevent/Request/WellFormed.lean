import Mevent.Request.Texts

/-!
# Well-formed heads

The request heads of HTTP/1.1, byte by byte: a method, a path and a query string of URI
characters, and header fields whose names are tokens.  The parser gets through most of them;
its table knows neither tabs, backslashes nor bytes above ASCII, its query strings have no
question mark, and it takes a longer name for a `Content-Length`.
-/

namespace Mevent.Request

open Library

section Characters

def apostrophe : UInt8 := 39
def backslash : UInt8 := 92
def backquote : UInt8 := 96

def isAlphaNum (ch : UInt8) : Bool :=
  48 ≤ ch && ch ≤ 57 || 65 ≤ ch && ch ≤ 90 || 97 ≤ ch && ch ≤ 122

/-- A character of a path: `/`, `:`, `@`, `%`, or one that is unreserved or a delimiter. -/
def isPathByte (ch : UInt8) : Bool :=
  isAlphaNum ch || ch = apostrophe || (ascii ['-', '.', '_', '~', '%', '!', '$', '&', '(', ')',
    '*', '+', ',', ';', '=', ':', '@', '/']).contains ch

def isQueryByte (ch : UInt8) : Bool := isPathByte ch || ch = '?'.toUInt8

def isTokenByte (ch : UInt8) : Bool :=
  isAlphaNum ch || ch = apostrophe || ch = backquote || (ascii ['!', '#', '$', '%', '&', '*', '+',
    '-', '.', '^', '_', '|', '~']).contains ch

/-- A byte of a field value: a visible character, a byte above ASCII, a space or a tab. -/
def isFieldByte (ch : UInt8) : Bool := 33 ≤ ch && ch ≤ 126 || 128 ≤ ch || isBlank ch

theorem url_of_isPathByte {ch : UInt8} (inPath : isPathByte ch = true) :
    token ch ≠ 0 ∧ isUrlChar ch = true ∧ ch ≠ lf := by
  revert inPath
  revert ch
  apply forall_byte
  decide +kernel

theorem token_of_isTokenByte {ch : UInt8} (inToken : isTokenByte ch = true) :
    token ch ≠ 0 ∧ isSeparator ch = false ∧ inValue ch = true ∧ ch ≠ ':'.toUInt8 ∧ ch ≠ cr ∧
      ch ≠ lf := by
  revert inToken
  revert ch
  apply forall_byte
  decide +kernel

/-- The bytes of values that `TOKEN` accepts. -/
theorem token_of_isFieldByte {ch : UInt8} (inField : isFieldByte ch = true) :
    (token ch ≠ 0 ↔ ch ≠ 9 ∧ ch ≠ backslash ∧ ch < 128) ∧ ch ≠ lf ∧ ch ≠ cr := by
  revert inField
  revert ch
  apply forall_byte
  decide +kernel

end Characters

/-- A header field.  The blanks around the value are part of `value` here. -/
structure HeaderField where
  name : Bytes
  value : Bytes
  filled : name ≠ []
  isToken : ∀ ch ∈ name, isTokenByte ch = true
  isValue : ∀ ch ∈ value, isFieldByte ch = true
  length : name.map lowerCase = contentLengthName →
    ∃ length, decimal (trim value) = some length ∧ length < 2 ^ 32

def HeaderField.line (field : HeaderField) : Bytes := field.name ++ ':'.toUInt8 :: field.value

/-- A head of HTTP/1.1 with a target in origin form. -/
structure WellFormed where
  method : RequestMethod
  name : Bytes
  path : Bytes
  query : Option Bytes
  fields : List HeaderField
  named : method.name = some (name.map token)
  absolute : path.head? = some '/'.toUInt8
  isPath : ∀ ch ∈ path, isPathByte ch = true
  isQuery : ∀ ch ∈ query.getD [], isQueryByte ch = true

def version : Bytes := ascii ['H', 'T', 'T', 'P', '/', '1', '.', '1']

def WellFormed.requestLine (request : WellFormed) : Bytes :=
  request.name ++ space :: (request.path ++ queryBytes request.query ++ space :: version)

def WellFormed.bytes (request : WellFormed) : Bytes :=
  request.requestLine ++ crlf ++ joinLines (request.fields.map HeaderField.line)

/-- The parser finishes at the end of the head. -/
def WellFormed.Accepted (request : WellFormed) : Prop :=
  (reset.append request.bytes).parse.verdict = .finished ∧
    (reset.append request.bytes).parse.state.headerLen = request.bytes.length

/-- The value has no tab, no backslash and no byte above ASCII, and the name is not a longer
one than `Content-Length` that begins with it. -/
def HeaderField.Tolerated (field : HeaderField) : Prop :=
  (∀ ch ∈ field.value, ch ≠ 9 ∧ ch ≠ backslash ∧ ch < 128) ∧
    ∀ ch rest, behindName contentLengthName field.name ≠ some (ch :: rest)

/-- The header fields are tolerated, and there is no second question mark. -/
def WellFormed.Tolerated (request : WellFormed) : Prop :=
  '?'.toUInt8 ∉ request.query.getD [] ∧ ∀ field ∈ request.fields, field.Tolerated

section Targets

variable (request : WellFormed)

theorem dropWhile_url {chars rest : Bytes} {ch : UInt8} (url : ∀ c ∈ chars, isUrlChar c = true)
    (other : isUrlChar ch = false) :
    (chars ++ ch :: rest).dropWhile isUrlChar = ch :: rest ∧
      (chars ++ ch :: rest).takeWhile isUrlChar = chars := by
  rw [List.dropWhile_append_of_pos url, List.takeWhile_append_of_pos url, List.dropWhile_cons,
    List.takeWhile_cons, other]
  simp

theorem clean_version : Clean (version ++ [cr]) ∧ lf ∉ version ++ [cr] := by decide +kernel

theorem clean_append {first second : Bytes} :
    Clean (first ++ second) ↔ Clean first ∧ Clean second := List.forall_mem_append

theorem readQuery_isSome_iff (req : Request) {query : Bytes}
    (isQuery : ∀ ch ∈ query, isQueryByte ch = true) :
    (readQuery req (query ++ space :: version ++ [cr])).isSome ↔ '?'.toUInt8 ∉ query := by
  have clean : Clean (query ++ space :: version ++ [cr]) := by
    rw [List.append_assoc, clean_append, List.cons_append, clean_cons]
    refine ⟨?_, by decide, clean_version.1⟩
    intro ch among
    rcases Bool.or_eq_true_iff.mp (isQuery ch among) with inPath | isMark
    · exact (url_of_isPathByte inPath).1
    · rw [of_decide_eq_true isMark]
      decide
  rw [readQuery, if_pos clean, List.append_assoc]
  by_cases asks : '?'.toUInt8 ∈ query
  · have stops : (query.dropWhile isUrlChar).head? = some '?'.toUInt8 := by
      have kept := List.head?_dropWhile_not isUrlChar query
      cases dropped : query.dropWhile isUrlChar with
      | nil =>
          have url := List.dropWhile_eq_nil_iff.mp dropped _ asks
          exact absurd url (by decide)
      | cons ch rest =>
          rw [dropped] at kept
          have among : ch ∈ query :=
            (List.dropWhile_suffix isUrlChar).subset (dropped ▸ List.mem_cons_self)
          rcases Bool.or_eq_true_iff.mp (isQuery ch among) with inPath | isMark
          · simp [(url_of_isPathByte inPath).2.1] at kept
          · rw [List.head?_cons, of_decide_eq_true isMark]
    rw [List.dropWhile_append, ← List.cons_head?_tail stops]
    simp [asks, show '?'.toUInt8 ≠ space by decide]
  · have url : ∀ ch ∈ query, isUrlChar ch = true := by
      intro ch among
      rcases Bool.or_eq_true_iff.mp (isQuery ch among) with inPath | isMark
      · exact (url_of_isPathByte inPath).2.1
      · exact absurd (of_decide_eq_true isMark ▸ among) asks
    rw [List.cons_append, (dropWhile_url url (by decide)).1]
    simp [asks, clean_version.2]

theorem readPath_isSome_iff (req : Request) (fresh : req.path = []) :
    (readPath req (request.path ++ queryBytes request.query ++ space :: version ++ [cr])).isSome ↔
      '?'.toUInt8 ∉ request.query.getD [] := by
  have cleanPath : Clean request.path := fun ch among =>
    (url_of_isPathByte (request.isPath ch among)).1
  have url : ∀ ch ∈ request.path, isUrlChar ch = true := fun ch among =>
    (url_of_isPathByte (request.isPath ch among)).2.1
  have filled : request.path ≠ [] := by
    intro empty
    have absolute := request.absolute
    rw [empty] at absolute
    cases absolute
  have isQuery := request.isQuery
  cases asked : request.query with
  | none =>
      have clean : Clean (request.path ++ (space :: version ++ [cr])) := by
        rw [clean_append, List.cons_append, clean_cons]
        exact ⟨cleanPath, by decide, clean_version.1⟩
      rw [queryBytes, List.append_nil, List.append_assoc, readPath, if_pos clean,
        List.cons_append, (dropWhile_url url (by decide)).1, (dropWhile_url url (by decide)).2]
      simp [fresh, filled, clean_version.2]
  | some query =>
      rw [asked] at isQuery
      have cleanQuery : Clean (query ++ space :: version ++ [cr]) := by
        rw [List.append_assoc, clean_append, List.cons_append, clean_cons]
        refine ⟨?_, by decide, clean_version.1⟩
        intro ch among
        rcases Bool.or_eq_true_iff.mp (isQuery ch among) with inPath | isMark
        · exact (url_of_isPathByte inPath).1
        · rw [of_decide_eq_true isMark]
          decide
      have whole : request.path ++ queryBytes (some query) ++ space :: version ++ [cr] =
          request.path ++ '?'.toUInt8 :: (query ++ space :: version ++ [cr]) := by
        simp [queryBytes]
      have clean : Clean (request.path ++ '?'.toUInt8 :: (query ++ space :: version ++ [cr])) := by
        rw [clean_append, clean_cons]
        exact ⟨cleanPath, by decide, cleanQuery⟩
      rw [whole, readPath, if_pos clean, (dropWhile_url url (by decide)).1]
      simp only
      rw [if_neg (by decide), if_pos trivial]
      exact readQuery_isSome_iff _ isQuery

/-- The request line is read unless its query string has a question mark. -/
theorem readRequestLine_isSome_iff :
    (readRequestLine reset (request.requestLine ++ [cr])).isSome ↔
      '?'.toUInt8 ∉ request.query.getD [] := by
  obtain ⟨known, long⟩ := methodOf_name request.named
  rw [List.length_map] at long
  have line : request.requestLine ++ [cr] = request.name ++
      space :: (request.path ++ queryBytes request.query ++ space :: version ++ [cr]) := by
    simp [WellFormed.requestLine]
  have front : request.name <+: request.requestLine ++ [cr] := by
    rw [line]
    exact List.prefix_append _ _
  have method : methodOf (token ((request.requestLine ++ [cr]).getD 0 0))
      (token ((request.requestLine ++ [cr]).getD 1 0)) = request.method := by
    rw [token_getD (by omega) front, token_getD (by omega) front, known]
  have read : readMethod (request.requestLine ++ [cr]) = some (request.method,
      space :: (request.path ++ queryBytes request.query ++ space :: version ++ [cr])) := by
    rw [readMethod, method]
    simp only [request.named]
    rw [line, List.length_map, List.take_left, List.drop_left, if_pos rfl]
  obtain ⟨rest, begins⟩ : ∃ rest, request.path ++ queryBytes request.query ++ space :: version ++
      [cr] = '/'.toUInt8 :: rest := by
    rw [← List.cons_head?_tail request.absolute]
    exact ⟨_, rfl⟩
  rw [readRequestLine, read]
  simp only [List.head?_cons, if_true]
  rw [dropWhile_space, begins, dropWhile_of_ne_space (by decide), ← begins]
  exact readPath_isSome_iff request _ rfl

end Targets

section Fields

variable (field : HeaderField)

theorem seenPart_line (left : Nat) :
    ∃ kept, kept <:+ field.name ∧
      seenPart (field.line ++ [cr]) left = kept ++ ':'.toUInt8 :: (field.value ++ [cr]) := by
  have line : field.line ++ [cr] = field.name ++ ':'.toUInt8 :: (field.value ++ [cr]) := by
    simp [HeaderField.line]
  rw [line, seenPart]
  split
  · refine ⟨field.name.dropWhile fun ch => token ch = 'c'.toUInt8, List.dropWhile_suffix _, ?_⟩
    rw [List.dropWhile_append]
    split
    next empty =>
      rw [List.isEmpty_iff.mp empty, List.dropWhile_cons, if_neg (by decide)]
      rfl
    next => rfl
  · exact ⟨field.name, List.suffix_refl _, rfl⟩

theorem mem_readField {name line : Bytes} {ch : UInt8} (among : ch ∈ (readField name line).2) :
    ch ∈ line := by
  induction name generalizing line with
  | nil =>
      have inside := List.mem_of_mem_tail among
      exact (List.dropWhile_suffix isSeparator).subset
        ((List.dropWhile_suffix inValue).subset inside)
  | cons c name inductionHypothesis =>
      cases line with
      | nil => cases among
      | cons first line =>
          rw [readField] at among
          split at among
          · exact List.mem_cons_of_mem first (inductionHypothesis among)
          · exact List.mem_cons_of_mem first among

theorem mem_readLine {line : Bytes} {ch : UInt8} (among : ch ∈ (readLine line).2) :
    ch ∈ line := by
  unfold readLine at among
  cases compared : fieldOf line with
  | none =>
      rw [compared] at among
      exact List.mem_of_mem_tail among
  | some known =>
      rw [compared] at among
      exact mem_readField among

theorem readable_iff (line : Bytes) :
    Readable (readLine line).1 ↔
      ∀ ch ∈ textPart .contentLength line, isNum (token ch) = true := by
  rw [textPart]
  rcases (readLine line).1 with _ | ⟨known, value⟩
  · exact iff_of_true trivial (by simp [entryText])
  · cases known with
    | contentLength => exact Iff.rfl
    | secWebsocketKey => exact iff_of_true trivial (by simp [entryText])
    | contentType => exact iff_of_true trivial (by simp [entryText])

theorem mem_dropWhile {keep : UInt8 → Bool} {bytes : Bytes} {ch : UInt8} (among : ch ∈ bytes)
    (kept : keep ch = false) : ch ∈ bytes.dropWhile keep := by
  rw [← List.takeWhile_append_dropWhile (p := keep) (l := bytes)] at among
  rcases List.mem_append.mp among with front | later
  · rw [List.mem_takeWhile_imp front] at kept
    cases kept
  · exact later

theorem mem_trim {value : Bytes} {ch : UInt8} (among : ch ∈ value) (kept : isBlank ch = false) :
    ch ∈ trim value := by
  rw [trim, List.mem_reverse]
  apply mem_dropWhile _ kept
  rw [List.mem_reverse]
  exact mem_dropWhile among kept

theorem mem_foundText {rest : Bytes} {ch : UInt8} (among : ch ∈ foundText rest) :
    inValue ch = true ∧ ch ∈ rest.dropWhile isSeparator := by
  have inside := List.mem_takeWhile_imp among
  have later := (List.takeWhile_prefix inValue).subset among
  refine ⟨inside, ?_⟩
  have notCr : ch ≠ cr := by
    rintro rfl
    revert inside
    decide
  rw [List.dropWhile_append] at later
  split at later
  · rw [List.dropWhile_cons, if_neg (by decide)] at later
    exact absurd (List.mem_singleton.mp later) notCr
  · exact (List.mem_append.mp later).resolve_right fun last => notCr (List.mem_singleton.mp last)

theorem isNum_token {ch : UInt8} (digit : isNum ch = true) : isNum (token ch) = true := by
  revert digit
  revert ch
  apply forall_byte
  decide +kernel

/-- The value of a `Content-Length` is read digit by digit. -/
theorem digits_of_length {value : Bytes} (clean : Clean value) {length : Nat}
    (isDecimal : decimal (trim value) = some length) :
    ∀ ch ∈ foundText (':'.toUInt8 :: value), isNum (token ch) = true := by
  intro ch among
  obtain ⟨inside, later⟩ := mem_foundText among
  rw [List.dropWhile_cons, if_pos (by decide)] at later
  have inValue_ : ch ∈ value := (List.dropWhile_suffix isSeparator).subset later
  have notBlank : isBlank ch = false := by
    have notTab : ch ≠ 9 := by
      rintro rfl
      exact clean 9 inValue_ rfl
    rw [inValue_eq] at inside
    simp at inside
    simp [isBlank, inside.1, notTab]
  unfold decimal at isDecimal
  split at isDecimal
  next digits => exact isNum_token (digits.2 ch (mem_trim inValue_ notBlank))
  next => cases isDecimal

theorem colon_mem_foundText {ch : UInt8} {rest value : Bytes}
    (isToken : ∀ c ∈ ch :: rest, isTokenByte c = true) :
    ':'.toUInt8 ∈ foundText (ch :: rest ++ ':'.toUInt8 :: value) := by
  have all : ∀ c ∈ ch :: rest, inValue c = true := fun c among =>
    (token_of_isTokenByte (isToken c among)).2.2.1
  have first := (token_of_isTokenByte (isToken ch List.mem_cons_self)).2.1
  have stays : (ch :: rest ++ ':'.toUInt8 :: value ++ [cr]).dropWhile isSeparator =
      ch :: rest ++ ':'.toUInt8 :: value ++ [cr] := by
    rw [List.cons_append, List.cons_append, List.dropWhile_cons, if_neg (by simp [first])]
  have colon : (':'.toUInt8 :: value ++ [cr]).takeWhile inValue =
      ':'.toUInt8 :: (value ++ [cr]).takeWhile inValue := by
    rw [List.cons_append, List.takeWhile_cons, if_pos (by decide)]
  rw [foundText, stays, List.append_assoc, List.takeWhile_append_of_pos all, colon]
  exact List.mem_append_right _ List.mem_cons_self

theorem behindName_line (field : HeaderField) :
    behindName contentLengthName field.line =
      (behindName contentLengthName field.name).map (· ++ ':'.toUInt8 :: field.value) := by
  cases behind : behindName contentLengthName field.name with
  | some rest =>
      obtain ⟨spelled, spells, same⟩ := behindName_eq_some_iff.mp behind
      refine behindName_eq_some_iff.mpr ⟨spelled, spells, ?_⟩
      rw [HeaderField.line, same, List.append_assoc]
  | none =>
      rw [Option.map_none, Option.eq_none_iff_forall_ne_some]
      intro rest found
      obtain ⟨spelled, spells, same⟩ := behindName_eq_some_iff.mp found
      rcases List.append_eq_append_iff.mp same with ⟨more, longer, colon⟩ | ⟨more, shorter, -⟩
      · cases more with
        | nil =>
            rw [List.append_nil] at longer
            have known := behindName_eq_some_iff.mpr ⟨spelled, spells,
              (longer.symm.trans (List.append_nil _).symm : field.name = spelled ++ [])⟩
            rw [behind] at known
            cases known
        | cons ch more =>
            obtain ⟨rfl, -⟩ := List.cons.inj colon
            have among : lowerCase ':'.toUInt8 ∈ contentLengthName := by
              rw [← spells, longer]
              exact List.mem_map.mpr ⟨_, List.mem_append_right _ List.mem_cons_self, rfl⟩
            revert among
            decide
      · have known := behindName_eq_some_iff.mpr ⟨spelled, spells, shorter⟩
        rw [behind] at known
        cases known

theorem digits_iff (field : HeaderField) (clean : Clean field.value) :
    (∀ ch ∈ textPart .contentLength (field.line ++ [cr]), isNum (token ch) = true) ↔
      ∀ ch rest, behindName contentLengthName field.name ≠ some (ch :: rest) := by
  rw [textPart_eq, Field.name, behindName_line]
  cases behind : behindName contentLengthName field.name with
  | none => simp
  | some rest =>
      obtain ⟨spelled, spells, same⟩ := behindName_eq_some_iff.mp behind
      rw [Option.map_some, Option.map_some, Option.getD_some]
      cases rest with
      | nil =>
          rw [List.append_nil] at same
          obtain ⟨length, isDecimal, -⟩ := field.length (same ▸ spells)
          exact iff_of_true (digits_of_length clean isDecimal) (by simp)
      | cons ch rest =>
          have isToken : ∀ c ∈ ch :: rest, isTokenByte c = true := fun c among =>
            field.isToken c (same ▸ List.mem_append_right _ among)
          constructor
          · intro digits
            have wrong := digits _ (colon_mem_foundText isToken)
            exact absurd wrong (by decide)
          · intro never
            exact absurd rfl (never ch rest)

theorem clean_value_iff (field : HeaderField) :
    Clean field.value ↔ ∀ ch ∈ field.value, ch ≠ 9 ∧ ch ≠ backslash ∧ ch < 128 :=
  forall₂_congr fun ch among => (token_of_isFieldByte (field.isValue ch among)).1

theorem lineAccepted_iff (field : HeaderField) (rest : List Bytes) (behind : Nat) :
    LineAccepted (seenPart (field.line ++ [cr])
        ((joinLines (field.line :: rest)).length + behind)) ↔ field.Tolerated := by
  have part := @textPart_seenPart .contentLength field.line rest behind
  obtain ⟨kept, suffix, seen⟩ := seenPart_line field
    ((joinLines (field.line :: rest)).length + behind)
  have isToken : ∀ ch ∈ kept, isTokenByte ch = true := fun ch among =>
    field.isToken ch (suffix.subset among)
  rw [LineAccepted, readable_iff, part, HeaderField.Tolerated, ← clean_value_iff]
  have clean : Clean (seenPart (field.line ++ [cr])
      ((joinLines (field.line :: rest)).length + behind)) ↔ Clean field.value := by
    have cleanKept : Clean kept := fun ch among => (token_of_isTokenByte (isToken ch among)).1
    rw [seen, clean_append, clean_cons, clean_append]
    exact ⟨fun all => all.2.2.1, fun value => ⟨cleanKept, by decide, value, by decide +kernel⟩⟩
  rw [clean]
  have notCr : (seenPart (field.line ++ [cr])
      ((joinLines (field.line :: rest)).length + behind)).head? ≠ some cr := by
    rw [seen]
    cases kept with
    | nil => simp [show ':'.toUInt8 ≠ cr by decide]
    | cons ch kept =>
        intro first
        exact (token_of_isTokenByte (isToken ch List.mem_cons_self)).2.2.2.2.1
          (Option.some.inj first)
  have noLf : lf ∉ (readLine (seenPart (field.line ++ [cr])
      ((joinLines (field.line :: rest)).length + behind))).2 := by
    intro among
    have inside := mem_readLine among
    rw [seen, List.mem_append, List.mem_cons, List.mem_append] at inside
    rcases inside with name | colon | value | last
    · exact (token_of_isTokenByte (isToken lf name)).2.2.2.2.2 rfl
    · revert colon
      decide
    · exact (token_of_isFieldByte (field.isValue lf value)).2.1 rfl
    · revert last
      decide
  constructor
  · rintro ⟨value, -, -, digits⟩
    exact ⟨value, (digits_iff field value).mp digits⟩
  · rintro ⟨value, never⟩
    exact ⟨value, notCr, noLf, (digits_iff field value).mpr never⟩

theorem seenPart_ne_cr (field : HeaderField) (left : Nat) :
    seenPart (field.line ++ [cr]) left ≠ [cr] := by
  obtain ⟨kept, -, seen⟩ := seenPart_line field left
  rw [seen]
  intro blank
  have length := congrArg List.length blank
  simp at length
  omega

end Fields

section Heads

theorem readLines_isSome_iff (behind : Nat) (req : Request) (fields : List HeaderField) :
    (readLines behind req (fields.map HeaderField.line)).isSome ↔
      ∀ field ∈ fields, field.Tolerated := by
  induction fields generalizing req with
  | nil => simp [readLines]
  | cons field fields inductionHypothesis =>
      rw [List.map_cons, readLines, if_neg (seenPart_ne_cr field _), List.forall_mem_cons]
      by_cases tolerated : field.Tolerated
      · rw [if_pos ((lineAccepted_iff field _ behind).mpr tolerated), inductionHypothesis]
        simp [tolerated]
      · rw [if_neg fun accepted => tolerated ((lineAccepted_iff field _ behind).mp accepted)]
        simp [tolerated]

theorem run_to_blank {lines : List Bytes} {req final : Request} {behind : Bytes}
    (unbroken : ∀ line ∈ lines, ¬ crlf <:+: line)
    (filled : ∀ line ∈ lines, ∀ left, seenPart (line ++ [cr]) left ≠ [cr])
    (read : readLines behind.length req lines = some final) (front : Bytes) :
    ∃ newFront, parser.run (req.lineStart front (joinLines lines ++ behind)) =
      parser.run (final.lineStart newFront (cr :: lf :: behind)) := by
  induction lines generalizing req front with
  | nil =>
      cases read
      exact ⟨front, rfl⟩
  | cons line rest inductionHypothesis =>
      have whole : (joinLines (line :: rest)).length + behind.length =
          (line ++ [cr] ++ lf :: (joinLines rest ++ behind)).length := by
        rw [← joinLines_cons, List.length_append]
      rw [readLines, if_neg (filled line List.mem_cons_self _), whole] at read
      split at read
      next accepted =>
        obtain ⟨-, passes⟩ := run_headerLine req
          (Ended.of_unbroken (unbroken line List.mem_cons_self)) front (joinLines rest ++ behind)
        obtain ⟨middle, passed⟩ := passes (filled line List.mem_cons_self _)
        obtain ⟨newFront, later⟩ := inductionHypothesis
          (fun other among => unbroken other (List.mem_cons_of_mem line among))
          (fun other among => filled other (List.mem_cons_of_mem line among)) read middle
        rw [joinLines_cons]
        exact ⟨newFront, (passed.onward accepted).trans later⟩
      next => cases read

variable (request : WellFormed)

theorem lf_not_mem_line (field : HeaderField) : lf ∉ field.line := by
  rw [HeaderField.line, List.mem_append, List.mem_cons]
  rintro (name | colon | value)
  · exact (token_of_isTokenByte (field.isToken lf name)).2.2.2.2.2 rfl
  · revert colon
    decide
  · exact (token_of_isFieldByte (field.isValue lf value)).2.1 rfl

theorem lf_not_mem_methodName {method : RequestMethod} {name : Bytes}
    (named : method.name = some name) : lf ∉ name := by
  cases method <;> cases named <;> decide

theorem lf_not_mem_requestLine : lf ∉ request.requestLine := by
  have name : lf ∉ request.name := by
    intro among
    exact lf_not_mem_methodName request.named (List.mem_map.mpr ⟨lf, among, rfl⟩)
  have query : lf ∉ queryBytes request.query := by
    have isQuery := request.isQuery
    cases asked : request.query with
    | none => simp [queryBytes]
    | some query =>
        rw [asked] at isQuery
        rw [queryBytes, List.mem_cons]
        rintro (isMark | among)
        · revert isMark
          decide
        · rcases Bool.or_eq_true_iff.mp (isQuery lf among) with inPath | isMark
          · exact (url_of_isPathByte inPath).2.2 rfl
          · revert isMark
            decide
  have path : lf ∉ request.path := fun among =>
    (url_of_isPathByte (request.isPath lf among)).2.2 rfl
  simp only [WellFormed.requestLine, List.mem_append, List.mem_cons, not_or]
  exact ⟨name, by decide, ⟨path, query⟩, by decide, by decide⟩

theorem not_crlf_of_lf {line : Bytes} (noLf : lf ∉ line) : ¬ crlf <:+: line := by
  intro inside
  exact noLf (inside.subset (by decide))

def WellFormed.head : Head where
  requestLine := request.requestLine
  headerLines := request.fields.map HeaderField.line
  unbroken := by
    rintro line (_ | ⟨_, among⟩)
    · exact not_crlf_of_lf (lf_not_mem_requestLine request)
    · obtain ⟨field, -, rfl⟩ := List.mem_map.mp among
      exact not_crlf_of_lf (lf_not_mem_line field)
  filled := by
    intro line among
    obtain ⟨field, -, rfl⟩ := List.mem_map.mp among
    simp [HeaderField.line]

theorem head_bytes : request.head.bytes = request.bytes := rfl

theorem head_read_isSome_iff : (request.head.read 0).isSome ↔ request.Tolerated := by
  unfold Head.read WellFormed.Tolerated
  rw [← readRequestLine_isSome_iff request]
  change (((readRequestLine reset (request.requestLine ++ [cr])).bind fun req =>
    readLines 0 req (request.fields.map HeaderField.line)).isSome ↔ _)
  cases read : readRequestLine reset (request.requestLine ++ [cr]) with
  | none => simp
  | some req =>
      rw [Option.bind_some, readLines_isSome_iff]
      simp

/-- The parser comes to the blank line of a head that is read, and finishes behind it. -/
theorem accepted_of_read {final : Request} (read : request.head.read 0 = some final) :
    request.Accepted := by
  have whole : request.bytes = request.requestLine ++ [cr] ++
      lf :: (joinLines (request.fields.map HeaderField.line) ++ []) := by
    simp [WellFormed.bytes, crlf]
  have filled : ∀ line ∈ request.fields.map HeaderField.line, ∀ left,
      seenPart (line ++ [cr]) left ≠ [cr] := by
    intro line among
    obtain ⟨field, -, rfl⟩ := List.mem_map.mp among
    exact seenPart_ne_cr field
  obtain ⟨req, requestLine, lines⟩ := Option.bind_eq_some_iff.mp read
  have leads : Leads (reset.reading [] _) _ _ _ := leads_requestLine rfl rfl
    (Ended.of_unbroken (request.head.unbroken _ List.mem_cons_self))
    (joinLines (request.fields.map HeaderField.line) ++ [])
  rw [requestLine] at leads
  obtain ⟨front, blank⟩ := @run_to_blank _ req final []
    (fun line among => request.head.unbroken line (List.mem_cons_of_mem _ among)) filled lines
    (request.head.requestLine ++ [cr] ++ [lf])
  have onLine : ({ final with
      parseStatus := .headerField
      parseMatch := front.length - 1 } : Request).parseStatus = .headerField := rfl
  have ended := leads.trans (blank.trans (run_of_blank onLine front []))
  have start : reset.append request.bytes =
      reset.reading [] (request.head.requestLine ++ [cr] ++
        lf :: (joinLines (request.fields.map HeaderField.line) ++ [])) := by
    rw [reset_append, whole]
    rfl
  rw [← start] at ended
  have buffer := (rbuf_parse (reset.append request.bytes)).1
  rw [parse, ended] at buffer
  have length : (front ++ [cr] ++ [lf]).length = request.bytes.length :=
    congrArg List.length buffer
  rw [WellFormed.Accepted, parse, ended]
  refine ⟨rfl, ?_⟩
  rw [← length, List.append_assoc]
  rfl

/-- A well-formed head is accepted, and its length found, exactly when it is one that the tables
and the names of the parser tolerate. -/
theorem accepted_iff : request.Accepted ↔ request.Tolerated := by
  rw [← head_read_isSome_iff]
  cases read : request.head.read 0 with
  | none =>
      have parsed := parse_head request.head []
      rw [List.length_nil, read, List.append_nil, head_bytes] at parsed
      rw [WellFormed.Accepted, reset_append, parsed]
      simp
  | some final => exact iff_of_true (accepted_of_read request read) rfl

/-- A tab in a value is an error. -/
theorem not_accepted_tab : ¬ ∀ request : WellFormed, request.Accepted := by
  intro claim
  have accepted := claim
    { method := .get
      name := ascii ['G', 'E', 'T']
      path := ascii ['/']
      query := none
      fields := [{
        name := ascii ['H', 'o', 's', 't']
        value := [9, 97]
        filled := by decide
        isToken := by decide +kernel
        isValue := by decide +kernel
        length := fun same => absurd same (by decide) }]
      named := by decide
      absolute := by decide
      isPath := by decide +kernel
      isQuery := by simp }
  have verdict := accepted.1
  revert verdict
  decide +kernel

end Heads

end Mevent.Request
