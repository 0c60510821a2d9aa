import Mevent.Library.Lines
import Mevent.Request.Body

/-!
# The fields of a request

`ParseHeader` goes over `rbuf_` once more, from its first line feed to its first NUL, and takes
every line on its way for a header line.
-/

namespace Mevent.Request

open Library

/-- `Request::HeaderValue`. -/
def headerValue (req : Request) (field : Bytes) : Bytes :=
  (req.headerMap.find? field).getD []

/-- The name and the value of a header line that has both.  The spaces in front of the value
do not belong to it. -/
def entryOf (line : Bytes) : Option (Bytes × Bytes) :=
  match line.dropWhile (· ≠ ':'.toUInt8) with
  | [] => none
  | _ :: value =>
      if line.takeWhile (· ≠ ':'.toUInt8) ≠ [] ∧ value.dropWhile (· = space) ≠ [] then
        some (line.takeWhile (· ≠ ':'.toUInt8), value.dropWhile (· = space))
      else
        none

def chomp (line : Bytes) : Bytes :=
  if line.getLast? = some cr then line.dropLast else line

def withoutCr (line : Bytes) : Bytes := line.filter (· ≠ cr)

/-- The lines of the head behind the request line. -/
def headLines (req : Request) : List Bytes :=
  (endedLines lf (req.rbuf.take req.headerLen)).tail

/-- The lines behind the head, up to the first NUL. -/
def bodyLines (req : Request) : List Bytes :=
  endedLines lf (cString (req.rbuf.drop req.headerLen))

/-- The values are those of the header lines of the head. -/
def ReadsHead (req parsed : Request) : Prop :=
  ∀ field, parsed.headerValue field =
    (OrderedMap.lastOf (req.headLines.filterMap fun line => entryOf (chomp line)) field).getD []

/-- What the lines behind the head say about a field is what the head says, and so is what
the head says without its carriage returns about the other fields. -/
structure HeadDecides (req : Request) : Prop where
  named : ∀ field value,
    OrderedMap.lastOf (req.bodyLines.filterMap fun line => entryOf (withoutCr line)) field =
        some value →
      OrderedMap.lastOf (req.headLines.filterMap fun line => entryOf (chomp line)) field =
        some value
  others : ∀ field,
    OrderedMap.lastOf (req.bodyLines.filterMap fun line => entryOf (withoutCr line)) field =
        none →
      OrderedMap.lastOf (req.headLines.filterMap fun line => entryOf (withoutCr line)) field =
        OrderedMap.lastOf (req.headLines.filterMap fun line => entryOf (chomp line)) field

section Collecting

theorem foldl_headerByte_value {line : Bytes} (inside : lf ∉ line) (field value : Bytes)
    (map : OrderedMap Bytes Bytes) :
    line.foldl Collecting.headerByte ⟨false, field, value, map⟩ =
      ⟨false, field,
        if value = [] then (withoutCr line).dropWhile (· = space) else value ++ withoutCr line,
        map⟩ := by
  induction line generalizing value with
  | nil => by_cases empty : value = [] <;> simp [withoutCr, empty]
  | cons ch line inductionHypothesis =>
      obtain ⟨notLf, insideLine⟩ := List.ne_and_not_mem_of_not_mem_cons inside
      have notTen : ¬ ch = 10 := Ne.symm notLf
      rw [List.foldl_cons]
      by_cases isCr : ch = cr
      · have step : (⟨false, field, value, map⟩ : Collecting).headerByte ch =
            ⟨false, field, value, map⟩ := by
          simp [Collecting.headerByte, isCr, cr]
        rw [step, inductionHypothesis insideLine]
        simp [withoutCr, isCr]
      · have notThirteen : ¬ ch = 13 := isCr
        by_cases skipped : value = [] ∧ ch = space
        · obtain ⟨rfl, rfl⟩ := skipped
          have step : (⟨false, field, [], map⟩ : Collecting).headerByte space =
              ⟨false, field, [], map⟩ := by
            simp [Collecting.headerByte, space]
          rw [step, inductionHypothesis insideLine]
          simp [withoutCr, isCr]
        · have notSpace : ¬ (value = [] ∧ ch = 32) := skipped
          have step : (⟨false, field, value, map⟩ : Collecting).headerByte ch =
              ⟨false, field, value ++ [ch], map⟩ := by
            simp [Collecting.headerByte, notThirteen, notTen]
            simpa using notSpace
          rw [step, inductionHypothesis insideLine]
          by_cases empty : value = []
          · have notSpace : ¬ ch = space := fun isSpace => skipped ⟨empty, isSpace⟩
            simp [withoutCr, isCr, empty, notSpace]
          · simp [withoutCr, isCr, empty]

theorem foldl_headerByte {line : Bytes} (inside : lf ∉ line) (field : Bytes)
    (map : OrderedMap Bytes Bytes) :
    line.foldl Collecting.headerByte ⟨true, field, [], map⟩ =
      match (withoutCr line).dropWhile (· ≠ ':'.toUInt8) with
      | [] => ⟨true, field ++ withoutCr line, [], map⟩
      | _ :: value => ⟨false, field ++ (withoutCr line).takeWhile (· ≠ ':'.toUInt8),
          value.dropWhile (· = space), map⟩ := by
  induction line generalizing field with
  | nil => simp [withoutCr]
  | cons ch line inductionHypothesis =>
      obtain ⟨notLf, insideLine⟩ := List.ne_and_not_mem_of_not_mem_cons inside
      have notTen : ¬ ch = 10 := Ne.symm notLf
      rw [List.foldl_cons]
      by_cases isColon : ch = ':'.toUInt8
      · subst isColon
        have step : (⟨true, field, [], map⟩ : Collecting).headerByte ':'.toUInt8 =
            ⟨false, field, [], map⟩ := rfl
        have notCr : ':'.toUInt8 ≠ cr := by decide
        rw [step, foldl_headerByte_value insideLine]
        simp [withoutCr, notCr]
      · have notColon : ¬ ch = 58 := isColon
        by_cases isCr : ch = cr
        · have step : (⟨true, field, [], map⟩ : Collecting).headerByte ch =
              ⟨true, field, [], map⟩ := by
            simp [Collecting.headerByte, isCr, cr]
          rw [step, inductionHypothesis insideLine]
          simp [withoutCr, isCr]
        · have notThirteen : ¬ ch = 13 := isCr
          have step : (⟨true, field, [], map⟩ : Collecting).headerByte ch =
              ⟨true, field ++ [ch], [], map⟩ := by
            simp [Collecting.headerByte, notThirteen, notTen, notColon]
          rw [step, inductionHypothesis insideLine]
          have kept : withoutCr (ch :: line) = ch :: withoutCr line := by
            simp [withoutCr, isCr]
          rw [kept, List.dropWhile_cons_of_pos (by simpa using isColon),
            List.takeWhile_cons_of_pos (by simpa using isColon)]
          cases (withoutCr line).dropWhile (· ≠ ':'.toUInt8) with
          | nil => simp
          | cons colon value => simp

theorem map_store {line : Bytes} (inside : lf ∉ line) (map : OrderedMap Bytes Bytes) :
    ((line.foldl Collecting.headerByte ⟨true, [], [], map⟩).headerByte lf).map =
      match entryOf (withoutCr line) with
      | none => map
      | some entry => map.insert entry.1 entry.2 := by
  have stores : ∀ collecting : Collecting,
      collecting.headerByte lf = collecting.store id := fun _ => rfl
  rw [stores, foldl_headerByte inside, entryOf]
  cases (withoutCr line).dropWhile (· ≠ ':'.toUInt8) with
  | nil => simp [Collecting.store]
  | cons colon value =>
      by_cases whole : (withoutCr line).takeWhile (· ≠ ':'.toUInt8) ≠ [] ∧
          value.dropWhile (· = space) ≠ []
      · simp only [Collecting.store, List.nil_append, if_pos whole, id]
      · simp only [Collecting.store, List.nil_append, if_neg whole]

theorem map_foldl_headerByte (text : Bytes) (map : OrderedMap Bytes Bytes) :
    (text.foldl Collecting.headerByte ⟨true, [], [], map⟩).map =
      ((endedLines lf text).filterMap fun line => entryOf (withoutCr line)).foldl
        (fun map entry => map.insert entry.1 entry.2) map := by
  have keeps : ∀ (map : OrderedMap Bytes Bytes) (line : Bytes), lf ∉ line →
      (line.foldl Collecting.headerByte ⟨true, [], [], map⟩).map = map := by
    intro map line inside
    rw [foldl_headerByte inside]
    cases (withoutCr line).dropWhile (· ≠ ':'.toUInt8) <;> rfl
  have lines := foldl_linesFrom lf Collecting.headerByte
    (fun map => (⟨true, [], [], map⟩ : Collecting)) Collecting.map (fun _ => rfl) keeps
    List.not_mem_nil text map
  rw [List.foldl_nil] at lines
  rw [lines]
  change (endedLines lf text).foldl _ map = _
  have inside : ∀ line ∈ endedLines lf text, lf ∉ line :=
    not_mem_of_linesFrom lf List.not_mem_nil
  clear lines
  generalize endedLines lf text = lines at inside ⊢
  induction lines generalizing map with
  | nil => rfl
  | cons line rest inductionHypothesis =>
      obtain ⟨insideLine, insideRest⟩ := List.forall_mem_cons.mp inside
      rw [List.foldl_cons, map_store insideLine, inductionHypothesis _ insideRest]
      cases entry : entryOf (withoutCr line) with
      | none => simp [entry]
      | some stored => simp [entry]

end Collecting

section Heads

variable {maxHeaderSize maxPostSize : Nat} {req : Request} {all : List Bytes}

theorem Receives.headRead (received : Receives maxHeaderSize maxPostSize req all) :
    (req.status = .headerReceiving → req.CleanFront) ∧
      (req.status ≠ .headerReceiving → req.HeadRead) := by
  have accepted : ∀ (req : Request) (piece : Bytes), req.Standing → req.CleanFront →
      (req.accept piece).CleanFront := by
    intro req piece standing clean
    have same : (req.accept piece).rbuf.take (req.accept piece).parseOffset =
        req.rbuf.take req.parseOffset := List.take_append_of_le_length standing.within
    unfold CleanFront
    rw [same]
    exact clean
  induction received with
  | fresh =>
      refine ⟨fun _ ch among => ?_, fun impossible => absurd rfl impossible⟩
      cases among
  | @head req before piece received here _ continues inductionHypothesis =>
      have clean := accepted req piece received.standing (inductionHypothesis.1 here)
      refine ⟨fun _ => (cleanFront_parse clean).1 continues, fun impossible => ?_⟩
      exact absurd ((status_parse (req.accept piece)).trans here) impossible
  | @headEnd req before piece received here _ finished inductionHypothesis =>
      have clean := accepted req piece received.standing (inductionHypothesis.1 here)
      have read := (cleanFront_parse clean).2 finished
      refine ⟨?_, fun _ => ⟨read.clean, read.ends⟩⟩
      intro impossible
      cases impossible
  | @body req before piece received here _ _ inductionHypothesis =>
      have notHead : req.status ≠ .headerReceiving := by
        rw [here]
        decide
      have read := inductionHypothesis.2 notHead
      have same : (req.accept piece).rbuf.take (req.accept piece).headerLen =
          req.rbuf.take req.headerLen :=
        List.take_append_of_le_length received.standing.headed
      refine ⟨fun impossible => absurd impossible notHead, fun _ => ⟨?_, ?_⟩⟩
      · rw [same]
        exact read.clean
      · rw [same]
        exact read.ends
  | @complete req before received here _ _ inductionHypothesis =>
      have notHead : req.status ≠ .headerReceiving := by
        rw [here]
        decide
      have read := inductionHypothesis.2 notHead
      refine ⟨?_, fun _ => ⟨read.clean, read.ends⟩⟩
      intro impossible
      cases impossible

theorem Receives.others (received : Receives maxHeaderSize maxPostSize req all) :
    req.others = reset.others := by
  induction received with
  | fresh => rfl
  | head _ _ _ _ inductionHypothesis => exact (keeps_parse _).1.trans inductionHypothesis
  | headEnd _ _ _ _ inductionHypothesis =>
      exact (keeps_parse (accept _ _)).1.trans inductionHypothesis
  | body _ _ _ _ inductionHypothesis => exact inductionHypothesis
  | complete _ _ _ _ inductionHypothesis => exact inductionHypothesis

/-- The head is a part of what a pointer to `rbuf_` sees. -/
theorem cString_of_headRead (read : req.HeadRead) :
    cString req.rbuf =
      req.rbuf.take req.headerLen ++ cString (req.rbuf.drop req.headerLen) := by
  have whole : req.rbuf = req.rbuf.take req.headerLen ++ req.rbuf.drop req.headerLen :=
    (List.take_append_drop _ _).symm
  have nonzero : ∀ ch ∈ req.rbuf.take req.headerLen, decide (ch ≠ 0) = true := by
    intro ch among
    have accepted := read.clean ch among
    rw [decide_eq_true_iff]
    rintro rfl
    exact accepted (by decide)
  unfold cString
  conv => lhs; rw [whole]
  exact List.takeWhile_append_of_pos nonzero

/-- `ParseHeader` stores the entries of the lines of the head and of those behind it. -/
theorem parseHeader_of_headRead (read : req.HeadRead) :
    req.parseHeader = some { req with
      headerMap := ((req.headLines ++ req.bodyLines).filterMap fun line =>
        entryOf (withoutCr line)).foldl (fun map entry => map.insert entry.1 entry.2)
          req.headerMap } := by
  have nonempty : ∀ {text : Bytes}, lf ∈ text → ∃ front rest,
      text = front ++ lf :: rest ∧ lf ∉ front ∧
        endedLines lf text = front :: endedLines lf rest := by
    intro text some_lf
    obtain ⟨front, rest, split, inside⟩ := List.eq_append_cons_of_mem some_lf
    refine ⟨front, rest, split, inside, ?_⟩
    rw [split]
    exact linesFrom_of_line lf inside [] rest
  have inHead : lf ∈ req.rbuf.take req.headerLen := read.ends.mem List.mem_cons_self
  have seen := cString_of_headRead read
  obtain ⟨front, rest, split, inside, lines⟩ := nonempty (seen ▸ List.mem_append_left _ inHead)
  obtain ⟨requestLine, others, -, -, headed⟩ := nonempty inHead
  have later : endedLines lf rest = req.headLines ++ req.bodyLines := by
    have whole := endedLines_append lf read.ends (cString (req.rbuf.drop req.headerLen))
    rw [← seen, lines, headed, List.cons_append] at whole
    rw [headLines, bodyLines, headed, List.tail_cons]
    exact (List.cons.inj whole).2
  have found : (cString req.rbuf).dropWhile (· ≠ 10) = lf :: rest := by
    have before : ∀ ch ∈ front, decide (ch ≠ 10) = true := by
      intro ch among
      rw [decide_eq_true_iff]
      rintro rfl
      exact inside among
    rw [split, List.dropWhile_append_of_pos before]
    exact List.dropWhile_cons_of_neg (by decide)
  have started : ∀ map, (⟨true, [], [], map⟩ : Collecting).headerByte lf =
      ⟨true, [], [], map⟩ := fun _ => rfl
  unfold parseHeader
  rw [found]
  simp only [List.foldl_cons, started]
  rw [map_foldl_headerByte, later]

/-- The value that `HeaderValue` returns then. -/
theorem headerValue_of_headRead (read : req.HeadRead) (fresh : req.headerMap = []) :
    ∃ parsed, req.parseHeader = some parsed ∧ ∀ field, parsed.headerValue field =
      ((OrderedMap.lastOf (req.bodyLines.filterMap fun line => entryOf (withoutCr line))
          field).or
        (OrderedMap.lastOf (req.headLines.filterMap fun line => entryOf (withoutCr line))
          field)).getD [] := by
  refine ⟨_, parseHeader_of_headRead read, fun field => ?_⟩
  rw [headerValue, OrderedMap.find?_foldl_insert, fresh, List.filterMap_append,
    OrderedMap.lastOf_append]
  rw [show OrderedMap.find? ([] : OrderedMap Bytes Bytes) field = none from rfl, Option.or_none]

theorem value_ne_nil {lines : List Bytes} (read : Bytes → Bytes) {field value : Bytes}
    (last : OrderedMap.lastOf (lines.filterMap fun line => entryOf (read line)) field =
      some value) : value ≠ [] := by
  obtain ⟨entry, found, rfl⟩ := Option.map_eq_some_iff.mp last
  obtain ⟨line, -, isEntry⟩ :=
    List.mem_filterMap.mp (List.mem_reverse.mp (List.mem_of_find?_eq_some found))
  unfold entryOf at isEntry
  split at isEntry
  · cases isEntry
  · split at isEntry
    next filled =>
      cases isEntry
      exact filled.2
    next => cases isEntry

theorem getD_eq_iff {first second : Option Bytes} (firstFilled : ∀ value, first = some value →
    value ≠ []) (secondFilled : ∀ value, second = some value → value ≠ []) :
    first.getD [] = second.getD [] ↔ first = second := by
  constructor
  · intro same
    cases isFirst : first with
    | none =>
        cases isSecond : second with
        | none => rfl
        | some value =>
            rw [isFirst, isSecond] at same
            exact absurd same.symm (secondFilled value isSecond)
    | some value =>
        cases isSecond : second with
        | none =>
            rw [isFirst, isSecond] at same
            exact absurd same (firstFilled value isFirst)
        | some other =>
            rw [isFirst, isSecond] at same
            exact congrArg some same
  · rintro rfl
    rfl

theorem headDecides_iff (req : Request) :
    req.HeadDecides ↔ ∀ field,
      (OrderedMap.lastOf (req.bodyLines.filterMap fun line => entryOf (withoutCr line))
          field).or
        (OrderedMap.lastOf (req.headLines.filterMap fun line => entryOf (withoutCr line))
          field) =
      OrderedMap.lastOf (req.headLines.filterMap fun line => entryOf (chomp line)) field := by
  constructor
  · rintro ⟨named, others⟩ field
    cases isNamed : OrderedMap.lastOf
        (req.bodyLines.filterMap fun line => entryOf (withoutCr line)) field with
    | none => exact others field isNamed
    | some value => exact (named field value isNamed).symm
  · intro same
    constructor
    · intro field value isNamed
      rw [← same field, isNamed, Option.some_or]
    · intro field isNamed
      rw [← same field, isNamed, Option.none_or]

end Heads

section Requests

variable {tls : Bool} {maxHeaderSize maxPostSize : Nat}

/-- `ParseHeader` reads the head of a complete request exactly when the head decides. -/
theorem readsHead_iff {state : Request × List Bytes}
    (reads : Reads tls maxHeaderSize maxPostSize (fun _ _ => True) state)
    (complete : state.1.status = .bodyReceived) :
    ∃ parsed, state.1.parseHeader = some parsed ∧
      (state.1.ReadsHead parsed ↔ state.1.HeadDecides) := by
  have received := receives_of_reads reads
  have read := received.headRead.2 (by rw [complete]; decide)
  have fresh : state.1.headerMap = [] := congrArg (·.2.2.1) received.others
  obtain ⟨parsed, isParsed, values⟩ := headerValue_of_headRead read fresh
  refine ⟨parsed, isParsed, ?_⟩
  rw [headDecides_iff]
  refine forall_congr' fun field => ?_
  rw [values field]
  apply getD_eq_iff
  · intro value last
    rcases Option.or_eq_some_iff.mp last with named | ⟨-, headed⟩
    · exact value_ne_nil withoutCr named
    · exact value_ne_nil withoutCr headed
  · intro value last
    exact value_ne_nil chomp last

/-- The body of one byte names no field. -/
theorem readsHead_iff_put :
    ∃ parsed, (putReceived []).parseHeader = some parsed ∧
      ((putReceived []).ReadsHead parsed ↔ (putReceived []).HeadDecides) :=
  readsHead_iff reads_put rfl

/-- The body `A:b` and a line feed give the request a field `A` that its head does not have. -/
theorem not_readsHead_body :
    ∃ state parsed, Reads false 2048 8192 (fun _ _ => True) state ∧
      state.1.status = .bodyReceived ∧ state.1.body = some (ascii ['A', ':', 'b', '\n']) ∧
      state.1.parseHeader = some parsed ∧ parsed.headerValue ['A'.toUInt8] = ['b'.toUInt8] ∧
      ¬ state.1.ReadsHead parsed := by
  have taken : (readStep false 2048 8192 (reset, [])
      [.delivered 80 (ascii ['U', 'T', ' ', '/', ' ', '\r', '\n', 'C', 'o', 'n', 't', 'e', 'n',
        't', '-', 'L', 'e', 'n', 'g', 't', 'h', ':', '4', '\r', '\n', '\r', '\n', 'A', ':',
        'b', '\n'])]).map (fun state => (state.1.status, state.1.body,
          state.1.parseHeader.map (·.headerValue ['A'.toUInt8]),
          OrderedMap.lastOf (state.1.headLines.filterMap fun line => entryOf (chomp line))
            ['A'.toUInt8])) =
      some (.bodyReceived, some (ascii ['A', ':', 'b', '\n']), some ['b'.toUInt8], none) := by
    decide +kernel
  obtain ⟨state, step, values⟩ := Option.map_eq_some_iff.mp taken
  simp only [Prod.mk.injEq] at values
  obtain ⟨complete, body, value, absent⟩ := values
  obtain ⟨parsed, isParsed, isValue⟩ := Option.map_eq_some_iff.mp value
  have reads : Reads false 2048 8192 (fun _ _ => True) state := Reaches.refl.next _ trivial step
  refine ⟨state, parsed, reads, complete, body, isParsed, isValue, ?_⟩
  intro same
  have empty := same ['A'.toUInt8]
  rw [absent, isValue] at empty
  cases empty

end Requests

end Mevent.Request
