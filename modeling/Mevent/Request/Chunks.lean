import Mevent.Request.Rounds

/-!
# `Request::Parse` over the chunks of a connection

The parser is run once for every chunk that is appended to `rbuf_`, until it
returns something else than `CONTINUE`.  In `S_HEADER_FIELD` it looks nine bytes
ahead of a `c`, and takes a line for a different one when they are not there yet.
-/

namespace Mevent.Request

open Library

/-- Append a chunk to `rbuf_`.  `rbuf_len_` is a `uint32_t`, so that runs over chunks stand for
the parser as long as fewer than `2 ^ 32` bytes have come. -/
def append (req : Request) (bytes : Bytes) : Request :=
  { req with rbuf := req.rbuf ++ bytes, rbufLen := req.rbufLen + bytes.length }

def Handled.append (bytes : Bytes) : Handled → Handled
  | .bottom req => .bottom (req.append bytes)
  | .again req => .again (req.append bytes)
  | .break req status => .break (req.append bytes) status

/-- Run the parser after every chunk, until it leaves `CONTINUE`. -/
def parseChunks (req : Request) (chunks : List Bytes) :
    Scanned Request Empty HTTPParserStatus :=
  parser.feed append (· = .continues) .continues req chunks

/-- What the parser has found out about a request. -/
structure Outcome where
  status : HTTPParserStatus
  method : RequestMethod
  path : Bytes
  queryString : Bytes
  contentLength : Nat
  contentType : Bytes
  secWebsocketKey : Bytes
  headerLen : Nat
  deriving DecidableEq, Repr

def outcome (scanned : Scanned Request Empty HTTPParserStatus) : Outcome where
  status := scanned.verdict
  method := scanned.state.method
  path := scanned.state.path
  queryString := scanned.state.queryString
  contentLength := scanned.state.contentLength
  contentType := scanned.state.contentType
  secWebsocketKey := scanned.state.secWebsocketKey
  headerLen := scanned.state.headerLen

/-- `rbuf_len_` is the length of `rbuf_`. -/
def Synced (req : Request) : Prop := req.rbufLen = req.rbuf.length

/-- The parser stands on a `c` that begins a line, with less than nine bytes
from there in the buffer. -/
def Skips (req : Request) : Prop :=
  req.parseStatus = .headerField ∧ req.parseOffset < req.rbufLen ∧
    req.rbufLen - req.parseOffset < 9 ∧
    (req.rbuf[req.parseOffset]?).map token = some 'c'.toUInt8

/-- A line that the parser passes over with or without its first byte: it names
no field that begins like `Content-Length` or `Content-Type`, and its second byte
alone is nothing that the parser looks for. -/
def Unremarkable (line : Bytes) : Prop :=
  (line.take 9).map token ≠ contentLengthName.take 9 ∧
    (line.take 9).map token ≠ contentTypeName.take 9 ∧
    (line.tail.head?.map token).getD 0 ∉ [0, cr, lf, 'c'.toUInt8, 's'.toUInt8]

/-- The parser skips a `c` although the bytes it wants to see are on their way,
and the line matters. -/
def Misreads (req : Request) (awaited : Bytes) : Prop :=
  req.Skips ∧ 9 ≤ req.rbufLen - req.parseOffset + awaited.length ∧
    ¬ Unremarkable ((req.rbuf ++ awaited).drop req.parseOffset)

instance (req : Request) : Decidable req.Skips := by
  unfold Skips
  infer_instance

instance (line : Bytes) : Decidable (Unremarkable line) := by
  unfold Unremarkable
  infer_instance

instance (req : Request) (awaited : Bytes) : Decidable (req.Misreads awaited) := by
  unfold Misreads
  infer_instance

section Growth

variable {req : Request} (bytes : Bytes)

@[simp]
theorem append_rbuf : (req.append bytes).rbuf = req.rbuf ++ bytes := rfl

@[simp]
theorem append_rbufLen : (req.append bytes).rbufLen = req.rbufLen + bytes.length := rfl

@[simp]
theorem append_parseOffset : (req.append bytes).parseOffset = req.parseOffset := rfl

@[simp]
theorem append_parseStatus : (req.append bytes).parseStatus = req.parseStatus := rfl

theorem append_append (first second : Bytes) :
    (req.append first).append second = req.append (first ++ second) := by
  simp [append, Nat.add_assoc]

theorem append_nil : req.append [] = req := by
  simp [append]

theorem synced_append (synced : req.Synced) : (req.append bytes).Synced := by
  unfold Synced at *
  rw [append_rbufLen, append_rbuf, List.length_append, synced]

theorem withByte_append {index : Nat} {rest grown : UInt8 → Handled}
    (inside : index < req.rbuf.length)
    (same : ∀ ch, grown ch = (rest ch).append bytes) :
    (req.append bytes).withByte index grown = (req.withByte index rest).append bytes := by
  unfold withByte
  rw [append_rbuf, List.getElem?_append_left inside, List.getElem?_eq_getElem inside]
  exact same _

theorem withDistance_append {rest grown : Nat → Handled}
    (same : ∀ distance, grown distance = (rest distance).append bytes) :
    (req.append bytes).withDistance grown = (req.withDistance rest).append bytes := by
  unfold withDistance
  rw [apply_ite (Handled.append bytes), ← same]
  rfl

theorem withNameByte_append {name : Bytes} {index : Nat} {rest grown : UInt8 → Handled}
    (same : ∀ c, grown c = (rest c).append bytes) :
    (req.append bytes).withNameByte name index grown =
      (req.withNameByte name index rest).append bytes := by
  unfold withNameByte
  split
  · exact same _
  · rfl

theorem lookAhead_append {index : Nat} {expected : Bytes}
    {found missed foundGrown missedGrown : Handled}
    (inside : req.parseOffset + index + expected.length ≤ req.rbuf.length)
    (sameFound : foundGrown = found.append bytes)
    (sameMissed : missedGrown = missed.append bytes) :
    (req.append bytes).lookAhead index expected foundGrown missedGrown =
      (req.lookAhead index expected found missed).append bytes := by
  induction expected generalizing index with
  | nil => exact sameFound
  | cons c rest inductionHypothesis =>
      rw [List.length_cons] at inside
      have byteInside : req.parseOffset + index < req.rbuf.length := by omega
      apply withByte_append bytes byteInside
      intro ch
      rw [apply_ite (Handled.append bytes), ← sameMissed]
      rw [inductionHypothesis (by omega)]

theorem handleName_append (name : Bytes) (value : RequestParseStatus) (c : UInt8) :
    (req.append bytes).handleName name value c =
      (req.handleName name value c).append bytes := by
  apply withDistance_append
  intro distance
  rw [apply_ite (Handled.append bytes), apply_ite (Handled.append bytes)]
  rw [← withNameByte_append bytes fun _ => (apply_ite (Handled.append bytes) _ _ _).symm]
  rfl

theorem handleEol_append (synced : req.Synced) (more : req.parseOffset < req.rbufLen)
    (c : UInt8) : (req.append bytes).handleEol c = (req.handleEol c).append bytes := by
  have inside : req.parseOffset - 1 < req.rbuf.length := by
    unfold Synced at synced
    omega
  unfold handleEol
  rw [apply_ite (Handled.append bytes), apply_ite (Handled.append bytes)]
  rw [← withByte_append bytes inside fun _ => (apply_ite (Handled.append bytes) _ _ _).symm]
  rfl

theorem handleMethod_append (c : UInt8) :
    (req.append bytes).handleMethod c = (req.handleMethod c).append bytes := by
  have same : (req.append bytes).method = req.method := rfl
  unfold handleMethod
  rw [same]
  cases req.method.name with
  | none => rfl
  | some name =>
      change _ = Handled.append bytes (if _ then if _ then if _ then _ else _ else _ else _)
      rw [apply_ite (Handled.append bytes), apply_ite (Handled.append bytes),
        apply_ite (Handled.append bytes)]
      rw [← withDistance_append bytes fun _ => withNameByte_append bytes fun _ =>
        (apply_ite (Handled.append bytes) _ _ _).symm]
      rfl

theorem handleContent_append (inside : req.parseOffset + 9 ≤ req.rbuf.length) :
    (req.append bytes).handleContent = req.handleContent.append bytes := by
  have last : req.parseOffset + 8 < req.rbuf.length := by omega
  apply lookAhead_append bytes
  · change req.parseOffset + 1 + 7 ≤ _
    omega
  · apply withByte_append bytes last
    intro ch
    rw [apply_ite (Handled.append bytes), apply_ite (Handled.append bytes)]
    rfl
  · rfl

theorem handleHeaderField_append (synced : req.Synced) (c : UInt8)
    (sees : c = 'c'.toUInt8 → 9 ≤ req.rbufLen - req.parseOffset) :
    (req.append bytes).handleHeaderField c = (req.handleHeaderField c).append bytes := by
  by_cases isC : c = 'c'.toUInt8
  · have ahead := sees isC
    have grown : 9 ≤ (req.append bytes).rbufLen - (req.append bytes).parseOffset := by
      rw [append_rbufLen, append_parseOffset]
      omega
    rw [isC, handleHeaderField_of_long ahead, handleHeaderField_of_long grown]
    unfold Synced at synced
    exact handleContent_append bytes (by omega)
  · unfold handleHeaderField
    rw [if_neg isC, if_neg isC]
    rw [apply_ite (Handled.append bytes), apply_ite (Handled.append bytes)]
    rfl

theorem handle_append (synced : req.Synced) (more : req.parseOffset < req.rbufLen)
    (ch c : UInt8)
    (sees : req.parseStatus = .headerField → c = 'c'.toUInt8 →
      9 ≤ req.rbufLen - req.parseOffset) :
    (req.append bytes).handle ch c = (req.handle ch c).append bytes := by
  unfold handle handleAt
  rw [append_parseStatus]
  cases here : req.parseStatus with
  | eol => exact handleEol_append bytes synced more c
  | start =>
      unfold handleStart
      simp only [apply_ite (Handled.append bytes)]
      rfl
  | method => exact handleMethod_append bytes c
  | methodP =>
      unfold handleMethodP
      simp only [apply_ite (Handled.append bytes)]
      rfl
  | path =>
      unfold handlePath
      simp only [apply_ite (Handled.append bytes)]
      rfl
  | queryString =>
      unfold handleQueryString
      simp only [apply_ite (Handled.append bytes)]
      rfl
  | headerField => exact handleHeaderField_append bytes synced c (sees here)
  | eoh =>
      unfold handleEoh
      simp only [apply_ite (Handled.append bytes)]
      rfl
  | contentLength => exact handleName_append bytes _ _ c
  | contentLengthV =>
      unfold handleContentLengthV
      simp only [apply_ite (Handled.append bytes)]
      rfl
  | secWebsocketKey => exact handleName_append bytes _ _ c
  | secWebsocketKeyV =>
      unfold handleSecWebsocketKeyV
      simp only [apply_ite (Handled.append bytes)]
      rfl
  | contentType => exact handleName_append bytes _ _ c
  | contentTypeV =>
      unfold handleContentTypeV
      simp only [apply_ite (Handled.append bytes)]
      rfl
  | upgrade => rfl

end Growth

theorem finish_append (handled : Handled) (bytes : Bytes) :
    (handled.append bytes).finish =
      match handled.finish with
      | .advance next outputs => .advance (next.append bytes) outputs
      | .leave last status => .leave (last.append bytes) status := by
  cases handled with
  | bottom next => rfl
  | again next => rfl
  | «break» last status => rfl

/-- A round that does not have to skip a byte is the same with more input. -/
theorem parser_round_append {req : Request} (synced : req.Synced)
    (more : req.parseOffset < req.rbufLen) (sees : ¬ req.Skips) (bytes : Bytes) :
    parser.round (req.append bytes) =
      match parser.round req with
      | .advance next outputs => .advance (next.append bytes) outputs
      | .leave last status => .leave (last.append bytes) status := by
  have inside : req.parseOffset < req.rbuf.length := synced ▸ more
  have read : req.rbuf[req.parseOffset]? = some req.rbuf[req.parseOffset] :=
    List.getElem?_eq_getElem inside
  have readGrown : (req.append bytes).rbuf[(req.append bytes).parseOffset]? =
      some req.rbuf[req.parseOffset] := by
    rw [append_rbuf, append_parseOffset, List.getElem?_append_left inside, read]
  have moreGrown : (req.append bytes).parseOffset < (req.append bytes).rbufLen :=
    Nat.lt_of_lt_of_le more (Nat.le_add_right _ _)
  rw [parser_round, parser_round, parseByte_of_byte moreGrown readGrown,
    parseByte_of_byte more read, ← finish_append, apply_ite (Handled.append bytes)]
  rw [handle_append bytes synced more]
  · rfl
  · intro here isC
    by_contra short
    exact sees ⟨here, more, Nat.not_le.mp short, by rw [read, Option.map_some, isC]⟩

theorem parser_resumable {req : Request} (synced : req.Synced)
    (sees : ¬ req.Skips) : parser.Resumable append (· = .continues) req := by
  by_cases more : req.parseOffset < req.rbufLen
  · have grown := parser_round_append synced more sees
    refine ⟨?_, ?_, ?_⟩
    · intro next outputs bytes taken
      rw [grown, taken]
    · intro last status bytes left _
      rw [grown, left]
    · intro last status left waiting
      rcases req.parseByte_cases with ⟨ended, _⟩ | ⟨_, handled, frames, round⟩
      · exact absurd more (Nat.not_lt.mpr ended)
      · rw [parser_round, round] at left
        cases handled with
        | bottom next => cases left
        | again next => cases left
        | «break» next verdict =>
            cases left
            exact absurd waiting frames.2.2.2
  · have ended := parseByte_of_end (Nat.not_lt.mp more)
    refine ⟨?_, ?_, ?_⟩
    · intro next outputs bytes taken
      rw [parser_round, ended] at taken
      cases taken
    · intro last status bytes left ends
      rw [parser_round, ended] at left
      cases left
      exact absurd rfl ends
    · intro last status left _
      rw [parser_round, ended] at left
      cases left
      rfl

section HeaderField

variable {req : Request}

theorem parser_round_of_headerField {ch : UInt8}
    (here : req.parseStatus = .headerField) (more : req.parseOffset < req.rbufLen)
    (read : req.rbuf[req.parseOffset]? = some ch) (accepted : token ch ≠ 0) :
    parser.round req = (req.handleHeaderField (token ch)).finish := by
  have dispatched : req.handle ch (token ch) = req.handleHeaderField (token ch) := by
    rw [handle, here]
    rfl
  rw [parser_round, parseByte_of_byte more read, if_neg accepted, dispatched]

theorem parser_round_of_skips (skips : req.Skips) :
    parser.round req = .advance { req with parseOffset := req.parseOffset + 1 } [] := by
  obtain ⟨here, more, short, isC⟩ := skips
  obtain ⟨ch, read, named⟩ := Option.map_eq_some_iff.mp isC
  rw [parser_round_of_headerField here more read (by rw [named]; decide), named]
  rw [handleHeaderField_of_short short]
  rfl

theorem parser_round_of_unremarkable (synced : req.Synced)
    (here : req.parseStatus = .headerField)
    (long : 9 ≤ req.rbufLen - req.parseOffset)
    (isC : (req.rbuf[req.parseOffset]?).map token = some 'c'.toUInt8)
    (plain : Unremarkable (req.rbuf.drop req.parseOffset)) :
    parser.round req =
      .advance { req with parseStatus := .eol, parseOffset := req.parseOffset + 1 } [] := by
  obtain ⟨ch, read, named⟩ := Option.map_eq_some_iff.mp isC
  have inside : req.parseOffset + 9 ≤ req.rbuf.length := by
    unfold Synced at synced
    omega
  rw [parser_round_of_headerField here (by omega) read (by rw [named]; decide), named]
  rw [handleHeaderField_of_long long, handleContent_of_inside inside isC]
  rw [if_neg plain.1, if_neg plain.2.1]
  rfl

theorem run_of_unremarkable (synced : req.Synced)
    (here : req.parseStatus = .headerField)
    (long : 9 ≤ req.rbufLen - req.parseOffset)
    (isC : (req.rbuf[req.parseOffset]?).map token = some 'c'.toUInt8)
    (plain : Unremarkable (req.rbuf.drop req.parseOffset)) :
    parser.run req = parser.run { req with parseOffset := req.parseOffset + 1 } := by
  have inside : req.parseOffset + 1 < req.rbuf.length := by
    unfold Synced at synced
    omega
  have read := List.getElem?_eq_getElem inside
  have second := plain.2.2
  rw [List.tail_drop, List.head?_drop, read, Option.map_some, Option.getD_some] at second
  simp only [List.mem_cons, List.not_mem_nil, or_false, not_or] at second
  obtain ⟨accepted, notCr, notLf, notC, notS⟩ := second
  have moreInside : req.parseOffset + 1 < req.rbufLen := by
    omega
  have fromLine : parser.round
      { req with parseStatus := .eol, parseOffset := req.parseOffset + 1 } =
      .advance { req with parseStatus := .eol, parseOffset := req.parseOffset + 1 + 1 } [] := by
    rw [parser_round, parseByte_of_byte moreInside read, if_neg accepted]
    simp only [handle, handleAt, handleEol, if_neg notLf]
    rfl
  have fromSecond : parser.round { req with parseOffset := req.parseOffset + 1 } =
      .advance { req with parseStatus := .eol, parseOffset := req.parseOffset + 1 + 1 } [] := by
    have hereSecond : { req with parseOffset := req.parseOffset + 1 }.parseStatus =
        .headerField := here
    rw [parser_round_of_headerField hereSecond moreInside read accepted]
    rw [handleHeaderField_of_plain notCr notC notS]
    rfl
  rw [parser.run_of_advance (parser_round_of_unremarkable synced here long isC plain)]
  rw [parser.run_of_advance fromLine, parser.run_of_advance fromSecond]
  rfl

end HeaderField

theorem parser_continues {req : Request} (synced : req.Synced) {awaited : Bytes}
    (reads : ¬ req.Misreads awaited) :
    parser.Continues append (· = .continues) awaited req := by
  by_cases skips : req.Skips
  · have taken := parser_round_of_skips skips
    obtain ⟨here, more, short, isC⟩ := skips
    have isCGrown : ((req.append awaited).rbuf[(req.append awaited).parseOffset]?).map token =
        some 'c'.toUInt8 := by
      rw [append_rbuf, append_parseOffset, List.getElem?_append_left (synced ▸ more), isC]
    refine ⟨?_, ?_, ?_⟩
    · intro next outputs alsoTaken
      rw [taken] at alsoTaken
      cases alsoTaken
      by_cases long : 9 ≤ (req.append awaited).rbufLen - (req.append awaited).parseOffset
      · have plain : Unremarkable ((req.append awaited).rbuf.drop req.parseOffset) := by
          by_contra remarkable
          exact reads ⟨⟨here, more, short, isC⟩, by simp at long; omega, remarkable⟩
        rw [run_of_unremarkable (synced_append awaited synced) here long isCGrown plain]
        rfl
      · have skipsGrown : (req.append awaited).Skips :=
          ⟨here, Nat.lt_of_lt_of_le more (Nat.le_add_right _ _), Nat.not_le.mp long, isCGrown⟩
        exact parser.run_of_advance (parser_round_of_skips skipsGrown)
    · intro last status left
      rw [taken] at left
      cases left
    · intro last status left
      rw [taken] at left
      cases left
  · exact (parser_resumable synced skips).continues _ _ _ awaited

theorem synced_of_feedVisits {req visited : Request} {chunks awaited : List Bytes}
    (synced : req.Synced)
    (reached : parser.FeedVisits append (· = .continues) req chunks visited awaited) :
    visited.Synced := by
  induction reached with
  | now reached =>
      obtain ⟨sameBuffer, sameLength⟩ := rbuf_of_visits reached
      unfold Synced
      rw [sameBuffer, sameLength]
      exact synced_append _ synced
  | later _ _ inductionHypothesis =>
      apply inductionHypothesis
      obtain ⟨sameBuffer, sameLength⟩ := rbuf_parse (Request.append _ _)
      unfold Synced
      rw [← parse, sameBuffer, sameLength]
      exact synced_append _ synced

/-- The states in front of the rounds of these runs, with what has not arrived
yet. -/
def Examines (chunks : List Bytes) (examined : Request) (awaited : Bytes) : Prop :=
  ∃ rest, parser.FeedVisits append (· = .continues) reset chunks examined rest ∧
    awaited = rest.flatten

/-- Cutting the input there does not make the parser take a line for another. -/
def ReadsLines (chunks : List Bytes) : Prop :=
  ∀ examined awaited, Examines chunks examined awaited → ¬ examined.Misreads awaited

instance (chunks : List Bytes) : Decidable (ReadsLines chunks) :=
  decidable_of_iff
    (∀ examined ∈ parser.feedTrace append (· = .continues) reset chunks,
      ¬ examined.1.Misreads examined.2.flatten) <| by
    constructor
    · rintro reads examined awaited ⟨rest, reached, rfl⟩
      exact reads (examined, rest) ((parser.mem_feedTrace_iff _ _).mpr reached)
    · rintro reads ⟨examined, rest⟩ reached
      exact reads examined rest.flatten ⟨rest, (parser.mem_feedTrace_iff _ _).mp reached, rfl⟩

/-- A cut that hides no line from the parser is not seen by it. -/
theorem outcome_parseChunks {chunks : List Bytes} (reads : ReadsLines chunks) :
    outcome (reset.parseChunks chunks) = outcome (reset.append chunks.flatten).parse := by
  have nothing : parser.run reset = ⟨reset, [], .continues⟩ :=
    parser.run_of_leave (parseByte_of_end (Nat.le_refl reset.rbufLen))
  have synced : reset.Synced := rfl
  obtain ⟨behind, whole, _⟩ := parser.run_flatten_eq_feed append (· = .continues) .continues
    (fun _ first second => append_append first second) (fun _ => append_nil) nothing
    (fun _ waiting => waiting)
    (fun visited awaited reached =>
      parser_continues (synced_of_feedVisits synced reached)
        (reads visited awaited.flatten ⟨awaited, reached, rfl⟩))
  unfold parse parseChunks
  rw [whole]
  rfl

/-- Two cuts of one stream that hide no line from the parser end alike. -/
theorem outcome_parseChunks_eq {first second : List Bytes}
    (same : first.flatten = second.flatten)
    (firstReads : ReadsLines first) (secondReads : ReadsLines second) :
    outcome (reset.parseChunks first) = outcome (reset.parseChunks second) := by
  rw [outcome_parseChunks firstReads, outcome_parseChunks secondReads, same]

/-- A `Cookie` line may be cut behind its first byte. -/
theorem outcome_parseChunks_eq_cookie :
    outcome (reset.parseChunks
        [ascii ['P', 'U', 'T', ' ', '/', ' ', '\r', '\n', 'C'],
          ascii ['o', 'o', 'k', 'i', 'e', ':', '1', '\r', '\n', '\r', '\n']]) =
      outcome (reset.parseChunks
        [ascii ['P', 'U'],
          ascii ['T', ' ', '/', ' ', '\r', '\n', 'C', 'o', 'o', 'k', 'i', 'e', ':', '1',
            '\r', '\n', '\r', '\n']]) :=
  outcome_parseChunks_eq (by decide) (by decide +kernel) (by decide +kernel)

/-- A `Content-Length` line is not seen when a chunk ends behind its first byte. -/
theorem not_outcome_parseChunks_eq_content_length :
    ¬ ∀ first second : List Bytes,
      (∀ chunk ∈ first, chunk ≠ []) → (∀ chunk ∈ second, chunk ≠ []) →
      first.flatten = second.flatten →
      (reset.parseChunks first).verdict ≠ .continues →
      (reset.parseChunks second).verdict ≠ .continues →
      outcome (reset.parseChunks first) = outcome (reset.parseChunks second) := by
  intro claim
  have same := claim
    [ascii ['G', 'E', 'T', ' ', '/', ' ', 'H', 'T', 'T', 'P', '\r', '\n', 'C',
      'o', 'n', 't', 'e', 'n', 't', '-', 'L', 'e', 'n', 'g', 't', 'h', ':', '5',
      '\r', '\n', '\r', '\n']]
    [ascii ['G', 'E', 'T', ' ', '/', ' ', 'H', 'T', 'T', 'P', '\r', '\n', 'C'],
      ascii ['o', 'n', 't', 'e', 'n', 't', '-', 'L', 'e', 'n', 'g', 't', 'h', ':', '5',
      '\r', '\n', '\r', '\n']]
    (by decide) (by decide) (by decide) (by decide +kernel) (by decide +kernel)
  revert same
  decide +kernel

end Mevent.Request
