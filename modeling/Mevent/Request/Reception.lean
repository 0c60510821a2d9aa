import Mevent.Request.Forms
import Mevent.Request.Limits
import Mevent.Request.TargetRuns

/-!
# The request line in the course of `ReadData`

Whatever `Readn` returns, one call after the other, the parser stands where the bytes that it
has been given lead: inside the request line, or behind it with its parts.
-/

namespace Mevent.Request

open Library

/-- The parser stands where a stream leads, in a request that has not been refused. -/
inductive LineRead (maxHeaderSize : Nat) (stream : Bytes) (req : Request) : Prop where
  | along : req.rbuf = stream → req.status = .headerReceiving → req.Along →
      req.parseOffset = req.rbuf.length → req.rbufLen ≤ maxHeaderSize →
      (∀ more, reset.await (stream ++ more) = req.await more) →
      LineRead maxHeaderSize stream req
  | behind (found : Parts) : req.rbuf = stream → req.Behind found →
      (∀ more, reset.await (stream ++ more) = some found) → LineRead maxHeaderSize stream req

section Pieces

variable {maxHeaderSize : Nat} {stream piece : Bytes} {req : Request}

theorem lineRead_reset (maxHeaderSize : Nat) (addr : UInt32) :
    LineRead maxHeaderSize [] { reset with addr := addr } :=
  .along rfl rfl along_reset rfl (Nat.zero_le _) fun _ => rfl

theorem LineRead.grows {later : Request} {found : Parts} (behind : req.Behind found)
    (finds : ∀ more, reset.await (stream ++ more) = some found)
    (rbuf : later.rbuf = stream ++ piece)
    (parts : later.parts = req.parts) (parseStatus : later.parseStatus = req.parseStatus) :
    LineRead maxHeaderSize (stream ++ piece) later := by
  refine .behind found rbuf ⟨parts.trans behind.1, ?_⟩ fun more => ?_
  · rw [parseStatus]
    exact behind.2
  · rw [List.append_assoc]
    exact finds _

theorem LineRead.rbuf (read : LineRead maxHeaderSize stream req) : req.rbuf = stream := by
  cases read with
  | along rbuf => exact rbuf
  | behind _ rbuf => exact rbuf

theorem LineRead.of_same (read : LineRead maxHeaderSize stream req) {later : Request}
    (past : req.status ≠ .headerReceiving) (rbuf : later.rbuf = req.rbuf ++ piece)
    (parts : later.parts = req.parts) (parseStatus : later.parseStatus = req.parseStatus) :
    LineRead maxHeaderSize (stream ++ piece) later := by
  have whole : later.rbuf = stream ++ piece := by rw [rbuf, read.rbuf]
  cases read with
  | along _ here => exact absurd here past
  | behind found _ behind finds => exact .grows behind finds whole parts parseStatus

theorem LineRead.parse (read : LineRead maxHeaderSize stream req)
    (here : req.status = .headerReceiving) (within : (req.accept piece).rbufLen ≤ maxHeaderSize)
    (small : maxHeaderSize + piece.length < 2 ^ 32) :
    (req.accept piece).parse.verdict = .error ∨
      (req.accept piece).parse.verdict = .continues ∧
        LineRead maxHeaderSize (stream ++ piece) (req.accept piece).parse.state ∨
      ∃ found, (req.accept piece).parse.state.rbuf = stream ++ piece ∧
        (req.accept piece).parse.state.Behind found ∧
          ∀ more, reset.await (stream ++ piece ++ more) = some found := by
  have rbuf : (req.accept piece).parse.state.rbuf = stream ++ piece := by
    rw [(rbuf_parse _).1, ← read.rbuf]
    rfl
  cases read with
  | behind found _ behind finds =>
      have accepted : (req.accept piece).Behind found := behind
      refine .inr (.inr ⟨found, rbuf, behind_parse accepted, fun more => ?_⟩)
      rw [List.append_assoc]
      exact finds _
  | along _ _ along ended inside awaits =>
      have appended : req.accept piece = req.append piece := accept_eq_append (by omega)
      rw [appended] at within rbuf ⊢
      have grown : (req.append piece).Along := ⟨synced_append piece along.1, along.2⟩
      have offset : (req.append piece).parseOffset ≤ (req.append piece).rbuf.length := by
        rw [append_rbuf, append_parseOffset, ended, List.length_append]
        exact Nat.le_add_right _ _
      have new : (req.append piece).unread = piece := by
        rw [unread, append_rbuf, append_parseOffset, ended, List.drop_left]
      have comes := comes_run (req.append piece) grown offset
      rw [new] at comes
      have streams : ∀ more, reset.await (stream ++ piece ++ more) =
          (req.append piece).await (piece ++ more) := by
        intro more
        rw [List.append_assoc, awaits]
        rfl
      cases comes with
      | behind found _ _ last finds =>
          exact .inr (.inr ⟨found, rbuf, last, fun more => (streams more).trans (finds more)⟩)
      | refused _ isError _ => exact .inl isError
      | inside _ waits alongLast endedLast finds =>
          refine .inr (.inl ⟨waits, .along rbuf ?_ alongLast endedLast ?_ fun more => ?_⟩)
          · exact (status_parse _).trans here
          · rw [(rbuf_parse _).2]
            exact within
          · exact (streams more).trans (finds more)

end Pieces

section Loops

variable {tls : Bool} {maxHeaderSize maxPostSize : Nat}

/-- How a loop of `ReadData` leaves a request, unless it refuses it. -/
def Kept (maxHeaderSize : Nat) (stream : Bytes) (last : Request) (verdict : ReadExit) : Prop :=
  verdict = .returns .error ∧ last.errorCode ≠ 0 ∨ LineRead maxHeaderSize stream last

def RoundKept (maxHeaderSize : Nat) (goesOn : Request → Prop) (stream : Bytes) :
    Round Reading Empty ReadExit → Prop
  | .advance next _ => goesOn next.1 ∧ LineRead maxHeaderSize stream next.1
  | .leave last verdict => Kept maxHeaderSize stream last.1 verdict

theorem kept_headerRound {reading : Reading} {stream : Bytes}
    (small : maxHeaderSize + readBufferSize < 2 ^ 32)
    (short : ∀ piece ∈ (delivered tls reading).toList, piece.length ≤ readBufferSize)
    (read : LineRead maxHeaderSize stream reading.1)
    (here : reading.1.status = .headerReceiving) :
    RoundKept maxHeaderSize (·.status = .headerReceiving)
      (stream ++ (delivered tls reading).toList.flatten)
      (headerRound tls maxHeaderSize reading) := by
  by_cases some_bytes : 0 < (Connection.readn tls readBufferSize reading.2).ret
  · obtain ⟨piece, isPiece, bytes, ret⟩ := delivered_of_pos some_bytes
    have fits : piece.length ≤ readBufferSize := short piece (by simp [isPiece])
    have whole : stream ++ (delivered tls reading).toList.flatten = stream ++ piece := by
      simp [isPiece]
    rw [headerRound_of_piece some_bytes bytes ret, whole]
    split
    next exceeded =>
      have refused : (500 : Nat) ≠ 0 := by decide
      exact .inl ⟨rfl, refused⟩
    next within =>
      have status : (reading.1.accept piece).parse.state.status = .headerReceiving :=
        (status_parse _).trans here
      rcases read.parse here (Nat.not_lt.mp within) (by omega) with
        isError | ⟨waits, read⟩ | ⟨found, rbuf, behind, finds⟩
      · have refused : (400 : Nat) ≠ 0 := by decide
        rw [isError]
        exact .inl ⟨rfl, refused⟩
      · rw [waits, headerParsed]
        split
        · exact ⟨status, read⟩
        · exact .inr read
      · have read : LineRead maxHeaderSize (stream ++ piece)
            (reading.1.accept piece).parse.state := .behind found rbuf behind finds
        cases verdict : (reading.1.accept piece).parse.verdict with
        | error =>
            have refused : (400 : Nat) ≠ 0 := by decide
            exact .inl ⟨rfl, refused⟩
        | outOfRange => exact .inr read
        | finished => exact .inr (.behind found rbuf behind finds)
        | continues =>
            rw [headerParsed]
            split
            · exact ⟨status, read⟩
            · exact .inr read
  · rw [delivered_of_not_pos some_bytes, Option.toList_none, List.flatten_nil, List.append_nil]
    obtain ⟨rest, proceeds | closed⟩ :=
      @headerRound_of_nothing tls maxHeaderSize reading some_bytes
    · rw [proceeds]
      exact .inr read
    · rw [closed]
      exact .inr read

theorem kept_bodyRound {reading : Reading} {stream : Bytes}
    (read : LineRead maxHeaderSize stream reading.1)
    (here : reading.1.status = .bodyReceiving) :
    RoundKept maxHeaderSize (·.status = .bodyReceiving)
      (stream ++ (delivered tls reading).toList.flatten) (bodyRound tls reading) := by
  have past : reading.1.status ≠ .headerReceiving := by
    rw [here]
    decide
  by_cases some_bytes : 0 < (Connection.readn tls readBufferSize reading.2).ret
  · obtain ⟨piece, isPiece, bytes, ret⟩ := delivered_of_pos some_bytes
    have whole : stream ++ (delivered tls reading).toList.flatten = stream ++ piece := by
      simp [isPiece]
    rw [bodyRound_of_piece some_bytes bytes ret, whole]
    split
    next => exact .inr (read.of_same past rfl rfl rfl)
    next =>
      split
      · exact ⟨here, read.of_same past rfl rfl rfl⟩
      · exact .inr (read.of_same past rfl rfl rfl)
  · rw [delivered_of_not_pos some_bytes, Option.toList_none, List.flatten_nil, List.append_nil]
    obtain ⟨rest, proceeds | closed⟩ := bodyRound_of_nothing some_bytes
    · rw [proceeds]
      exact .inr read
    · rw [closed]
      exact .inr read

theorem kept_run (tls : Bool) (scanner : Scanner Reading Empty ReadExit)
    {goesOn : Request → Prop} (fits : Bytes → Prop)
    (rounds : ∀ (reading : Reading) stream, LineRead maxHeaderSize stream reading.1 →
      goesOn reading.1 → (∀ piece ∈ (delivered tls reading).toList, fits piece) →
        RoundKept maxHeaderSize goesOn (stream ++ (delivered tls reading).toList.flatten)
          (scanner.round reading))
    {reading : Reading} {stream : Bytes} (read : LineRead maxHeaderSize stream reading.1)
    (starts : goesOn reading.1)
    (short : ∀ piece ∈ (scanner.trace reading).filterMap (delivered tls), fits piece) :
    Kept maxHeaderSize
      (stream ++ ((scanner.trace reading).filterMap (delivered tls)).flatten)
      (scanner.run reading).state.1 (scanner.run reading).verdict := by
  induction reading using scanner.run_induction generalizing stream with
  | leave reading last verdict left =>
      have single : [reading].filterMap (delivered tls) = (delivered tls reading).toList := by
        cases piece : delivered tls reading <;> simp [piece]
      rw [scanner.trace_of_leave left, single] at short ⊢
      have round := rounds reading stream read starts short
      rw [left] at round
      rw [scanner.run_of_leave left]
      exact round
  | advance reading next outputs taken inductionHypothesis =>
      have split : (scanner.trace reading).filterMap (delivered tls) =
          (delivered tls reading).toList ++
            (scanner.trace next).filterMap (delivered tls) := by
        rw [scanner.trace_of_advance taken]
        cases piece : delivered tls reading <;> simp [piece]
      rw [split] at short ⊢
      have round := rounds reading stream read starts fun piece among =>
        short piece (List.mem_append_left _ among)
      rw [taken] at round
      have later := inductionHypothesis round.2 round.1 fun piece among =>
        short piece (List.mem_append_right _ among)
      rw [List.append_assoc, ← List.flatten_append] at later
      rw [scanner.run_of_advance taken]
      exact later

/-- `ReadData` has refused the request, or its request line is the one that the bytes of
the stream begin with. -/
def CallKept (maxHeaderSize : Nat) (stream : Bytes) (result : ReadDataResult) : Prop :=
  result.status = .error ∧ result.req.errorCode ≠ 0 ∨ LineRead maxHeaderSize stream result.req

theorem kept_readBody {reading : Reading} {stream : Bytes}
    (read : LineRead maxHeaderSize stream reading.1) :
    CallKept maxHeaderSize (stream ++ (bodyPieces tls maxPostSize reading).flatten)
      (readBody tls maxPostSize reading) := by
  unfold readBody bodyPieces
  by_cases here : reading.1.status = .bodyReceiving
  · rw [if_pos here]
    by_cases tooLarge : maxPostSize < reading.1.contentLength
    · rw [if_pos tooLarge]
      have refused : (500 : Nat) ≠ 0 := by decide
      exact .inl ⟨rfl, refused⟩
    · rw [if_neg tooLarge]
      cases complete : reading.1.bodyComplete with
      | true =>
          have past : reading.1.status ≠ .headerReceiving := by
            rw [here]
            decide
          rw [if_pos rfl, if_neg (fun awaits => by cases awaits.2.2), List.flatten_nil]
          exact .inr (read.of_same past (List.append_nil _).symm rfl rfl)
      | false =>
          have kept := kept_run tls (bodyReader tls) (fun _ => True)
            (fun _ _ read here _ => kept_bodyRound read here) read here (fun _ _ => trivial)
          rw [if_neg Bool.false_ne_true, if_pos ⟨here, Nat.not_lt.mp tooLarge, rfl⟩]
          unfold Kept at kept
          cases verdict : ((bodyReader tls).run reading).verdict with
          | proceeds =>
              rw [verdict] at kept
              simp only [verdict]
              exact .inr (kept.resolve_left nofun)
          | outOfRange =>
              rw [verdict] at kept
              simp only [verdict]
              exact .inr (kept.resolve_left nofun)
          | returns status =>
              rw [verdict] at kept
              simp only [verdict]
              exact kept.imp_left fun ⟨same, refused⟩ => ⟨ReadExit.returns.inj same, refused⟩
  · rw [if_neg here, if_neg (fun awaits => here awaits.1), List.flatten_nil, List.append_nil]
    exact .inr read

/-- A call to `ReadData` whose calls to `Readn` return no more than the buffer holds. -/
theorem kept_readData {req : Request} {stream : Bytes} {results : List ReadResult}
    {result : ReadDataResult} (small : maxHeaderSize + readBufferSize < 2 ^ 32)
    (short : ∀ piece ∈ req.pieces tls maxHeaderSize maxPostSize results,
      piece.length ≤ readBufferSize)
    (read : LineRead maxHeaderSize stream req)
    (received : req.readData tls maxHeaderSize maxPostSize results = some result) :
    CallKept maxHeaderSize
      (stream ++ (req.pieces tls maxHeaderSize maxPostSize results).flatten) result := by
  unfold readData at received
  unfold pieces at short ⊢
  by_cases head : req.status = .headerReceiving
  · rw [if_pos head] at received short ⊢
    simp only at received short ⊢
    have starts : LineRead maxHeaderSize stream ((req, results) : Reading).1 := read
    have kept := kept_run tls (headerReader tls maxHeaderSize) (·.length ≤ readBufferSize)
      (fun _ _ read here short => kept_headerRound small short read here) starts head
      fun piece among => short piece (List.mem_append_left _ among)
    unfold Kept at kept
    cases verdict : ((headerReader tls maxHeaderSize).run (req, results)).verdict with
    | proceeds =>
        rw [verdict] at received kept
        cases received
        rw [if_pos rfl, List.flatten_append, ← List.append_assoc]
        exact kept_readBody (kept.resolve_left nofun)
    | outOfRange =>
        rw [verdict] at received
        cases received
    | returns status =>
        rw [verdict] at received kept
        cases received
        rw [if_neg nofun, List.append_nil]
        exact kept.imp_left fun ⟨same, refused⟩ => ⟨ReadExit.returns.inj same, refused⟩
  · rw [if_neg head] at received ⊢
    by_cases body : req.status = .bodyReceiving
    · rw [if_pos body] at received
      cases received
      have starts : LineRead maxHeaderSize stream ((req, results) : Reading).1 := read
      exact kept_readBody starts
    · rw [if_neg body] at received
      cases received
      rw [bodyPieces, if_neg (fun awaits => body awaits.1), List.flatten_nil, List.append_nil]
      exact .inr read

end Loops

section Handlers

/-- What the calls of a handler may change of its request. -/
def HandledAs (req later : Request) : Prop :=
  ∃ status headerMap getFormMap postFormMap, later = { req with
    status := status, headerMap := headerMap, getFormMap := getFormMap, postFormMap := postFormMap }

variable {req later : Request}

theorem HandledAs.refl (req : Request) : req.HandledAs req := ⟨_, _, _, _, rfl⟩

theorem HandledAs.trans {middle : Request} (first : req.HandledAs middle)
    (second : middle.HandledAs later) : req.HandledAs later := by
  obtain ⟨_, _, _, _, rfl⟩ := first
  obtain ⟨_, _, _, _, rfl⟩ := second
  exact ⟨_, _, _, _, rfl⟩

theorem handledAs_parseHeader (parsed : req.parseHeader = some later) :
    req.HandledAs later := by
  unfold parseHeader at parsed
  split at parsed
  · cases parsed
  · cases parsed
    exact ⟨_, _, _, _, rfl⟩

theorem handledAs_parseQueryString (req : Request) : req.HandledAs req.parseQueryString := by
  unfold parseQueryString
  split
  · exact .refl req
  · exact ⟨_, _, _, _, rfl⟩

theorem handledAs_parsePostForm (parsed : req.parsePostForm = some later) :
    req.HandledAs later := by
  unfold parsePostForm at parsed
  split at parsed
  · cases parsed
    exact .refl _
  · split at parsed
    · cases parsed
    · cases parsed
      exact ⟨_, _, _, _, rfl⟩

theorem LineRead.handled {maxHeaderSize : Nat} {stream : Bytes}
    (read : LineRead maxHeaderSize stream req) (handled : req.HandledAs later)
    (status : later.status = req.status) : LineRead maxHeaderSize stream later := by
  obtain ⟨_, _, _, _, rfl⟩ := handled
  cases read with
  | along rbuf here along ended inside awaits =>
      exact .along rbuf (status.trans here) along ended inside awaits
  | behind found rbuf behind finds => exact .behind found rbuf behind finds

end Handlers

/-- A request that has been received has the request line that the stream begins with. -/
theorem LineRead.target {maxHeaderSize : Nat} {stream : Bytes} {req : Request}
    (read : LineRead maxHeaderSize stream req) (past : req.status ≠ .headerReceiving) :
    ∃ target : Target, target.bytes <+: stream ∧ target.parts = req.parts := by
  cases read with
  | along _ here => exact absurd here past
  | behind found _ behind finds =>
      have ended := finds []
      rw [List.append_nil] at ended
      obtain ⟨target, -, front, same⟩ := await_reset_eq_some_iff.mp ended
      exact ⟨target, front, same.trans behind.1.symm⟩

end Mevent.Request
