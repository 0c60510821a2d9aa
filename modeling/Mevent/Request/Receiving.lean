import Mevent.Library.Transition
import Mevent.Request.Bounds
import Mevent.Request.ReadData

/-!
# Requests piece by piece

`ReadData` is called again and again, and calls `Readn` as long as it fills the buffer.  What
becomes of a request depends only on the pieces that these calls return, one after the other.
-/

namespace Mevent.Request

open Library

/-- What the call to `Readn` in a round returns. -/
def delivered (tls : Bool) (reading : Reading) : Option Bytes :=
  if 0 < (Connection.readn tls readBufferSize reading.2).ret then
    some (Connection.readn tls readBufferSize reading.2).bytes
  else
    none

def headerPieces (tls : Bool) (maxHeaderSize : Nat) (reading : Reading) : List Bytes :=
  ((headerReader tls maxHeaderSize).trace reading).filterMap (delivered tls)

/-- What `ReadData` reads behind that loop. -/
def bodyPieces (tls : Bool) (maxPostSize : Nat) (reading : Reading) : List Bytes :=
  if reading.1.status = .bodyReceiving ∧ reading.1.contentLength ≤ maxPostSize ∧
      reading.1.bodyComplete = false then
    ((bodyReader tls).trace reading).filterMap (delivered tls)
  else
    []

/-- What the calls to `Readn` in a call to `ReadData` return. -/
def pieces (tls : Bool) (maxHeaderSize maxPostSize : Nat) (req : Request)
    (results : List ReadResult) : List Bytes :=
  if req.status = .headerReceiving then
    let head := (headerReader tls maxHeaderSize).run (req, results)
    headerPieces tls maxHeaderSize (req, results) ++
      if head.verdict = .proceeds then bodyPieces tls maxPostSize head.state else []
  else
    bodyPieces tls maxPostSize (req, results)

/-- `rbuf_len_ += n; rbuf_.append(buf, n)`. -/
def accept (req : Request) (piece : Bytes) : Request :=
  (req.count piece.length).rbufAppend piece

/-- A fresh request becomes this one by these pieces, none of which is refused. -/
inductive Receives (maxHeaderSize maxPostSize : Nat) : Request → List Bytes → Prop
  | fresh : Receives maxHeaderSize maxPostSize reset []
  | head {req : Request} {before : List Bytes} {piece : Bytes} :
      Receives maxHeaderSize maxPostSize req before → req.status = .headerReceiving →
      (req.accept piece).rbufLen ≤ maxHeaderSize →
      (req.accept piece).parse.verdict = .continues →
      Receives maxHeaderSize maxPostSize (req.accept piece).parse.state (before ++ [piece])
  | headEnd {req : Request} {before : List Bytes} {piece : Bytes} :
      Receives maxHeaderSize maxPostSize req before → req.status = .headerReceiving →
      (req.accept piece).rbufLen ≤ maxHeaderSize →
      (req.accept piece).parse.verdict = .finished →
      Receives maxHeaderSize maxPostSize
        { (req.accept piece).parse.state with status := .bodyReceiving } (before ++ [piece])
  | body {req : Request} {before : List Bytes} {piece : Bytes} :
      Receives maxHeaderSize maxPostSize req before → req.status = .bodyReceiving →
      req.contentLength ≤ maxPostSize → req.bodyComplete = false →
      Receives maxHeaderSize maxPostSize (req.accept piece) (before ++ [piece])
  | complete {req : Request} {before : List Bytes} :
      Receives maxHeaderSize maxPostSize req before → req.status = .bodyReceiving →
      req.contentLength ≤ maxPostSize → req.bodyComplete = true →
      Receives maxHeaderSize maxPostSize { req with status := .bodyReceived } before

/-- A request is refused, with its error code, behind these pieces. -/
inductive Refuses (maxHeaderSize maxPostSize : Nat) : Request → List Bytes → Prop
  | tooLarge {req : Request} {before : List Bytes} {piece : Bytes} :
      Receives maxHeaderSize maxPostSize req before → req.status = .headerReceiving →
      maxHeaderSize < (req.accept piece).rbufLen →
      Refuses maxHeaderSize maxPostSize
        { req.count piece.length with errorCode := 500 } (before ++ [piece])
  | malformed {req : Request} {before : List Bytes} {piece : Bytes} :
      Receives maxHeaderSize maxPostSize req before → req.status = .headerReceiving →
      (req.accept piece).rbufLen ≤ maxHeaderSize →
      (req.accept piece).parse.verdict = .error →
      Refuses maxHeaderSize maxPostSize
        { (req.accept piece).parse.state with errorCode := 400 } (before ++ [piece])
  | bodyTooLarge {req : Request} {before : List Bytes} :
      Receives maxHeaderSize maxPostSize req before → req.status = .bodyReceiving →
      maxPostSize < req.contentLength →
      Refuses maxHeaderSize maxPostSize { req with errorCode := 500 } before

section Standing

variable {maxHeaderSize maxPostSize : Nat} {req : Request}

theorem Standing.of_fields (standing : req.Standing) {next : Request}
    (rbuf : next.rbuf = req.rbuf) (rbufLen : next.rbufLen = req.rbufLen)
    (headerLen : next.headerLen = req.headerLen) (offset : next.parseOffset = req.parseOffset)
    (sameMatch : next.parseMatch = req.parseMatch)
    (parseStatus : next.parseStatus = req.parseStatus) : next.Standing where
  filled := by rw [rbuf, rbufLen]; exact standing.filled
  within := by rw [rbuf, offset]; exact standing.within
  matched := by rw [sameMatch, offset]; exact standing.matched
  headed := by rw [rbuf, headerLen]; exact standing.headed
  begun := by rw [parseStatus, offset]; exact standing.begun

theorem standing_accept (standing : req.Standing) (piece : Bytes) :
    (req.accept piece).Standing := by
  have grown := standing_append standing piece
  refine ⟨?_, grown.within, grown.matched, grown.headed, grown.begun⟩
  calc (req.accept piece).rbufLen ≤ req.rbufLen + piece.length := Nat.mod_le _ _
    _ ≤ _ := grown.filled

theorem Receives.standing {all : List Bytes}
    (received : Receives maxHeaderSize maxPostSize req all) : req.Standing := by
  induction received with
  | fresh => exact standing_reset
  | head _ _ _ _ inductionHypothesis =>
      exact (standing_parse (standing_accept inductionHypothesis _)).1
  | headEnd _ _ _ _ inductionHypothesis =>
      exact (standing_parse (standing_accept inductionHypothesis _)).1.of_fields
        rfl rfl rfl rfl rfl rfl
  | body _ _ _ _ inductionHypothesis => exact standing_accept inductionHypothesis _
  | complete _ _ _ _ inductionHypothesis =>
      exact inductionHypothesis.of_fields rfl rfl rfl rfl rfl rfl

end Standing

section Rounds

variable {tls : Bool} {maxHeaderSize maxPostSize : Nat}

theorem delivered_of_pos {reading : Reading}
    (some_bytes : 0 < (Connection.readn tls readBufferSize reading.2).ret) :
    ∃ piece, delivered tls reading = some piece ∧
      (Connection.readn tls readBufferSize reading.2).bytes = piece ∧
      (Connection.readn tls readBufferSize reading.2).ret = piece.length := by
  refine ⟨_, if_pos some_bytes, rfl, ?_⟩
  rcases Connection.ret_readnFrom tls readBufferSize 0 reading.2 with failed | counted
  · change (Connection.readn tls readBufferSize reading.2).ret = -1 at failed
    omega
  · simpa [Connection.readn] using counted

theorem delivered_of_not_pos {reading : Reading}
    (nothing : ¬ 0 < (Connection.readn tls readBufferSize reading.2).ret) :
    delivered tls reading = none := if_neg nothing

theorem headerRound_of_piece {reading : Reading} {piece : Bytes}
    (some_bytes : 0 < (Connection.readn tls readBufferSize reading.2).ret)
    (bytes : (Connection.readn tls readBufferSize reading.2).bytes = piece)
    (ret : (Connection.readn tls readBufferSize reading.2).ret = piece.length) :
    headerRound tls maxHeaderSize reading =
      if maxHeaderSize < (reading.1.accept piece).rbufLen then
        .leave ({ reading.1.count piece.length with errorCode := 500 },
          (Connection.readn tls readBufferSize reading.2).rest) (.returns .error)
      else
        headerParsed piece.length (reading.1.accept piece).parse.state
          (Connection.readn tls readBufferSize reading.2).rest
          (reading.1.accept piece).parse.verdict := by
  unfold headerRound
  simp only [if_pos some_bytes]
  rw [ret, bytes]
  rfl

theorem headerRound_of_nothing {reading : Reading}
    (nothing : ¬ 0 < (Connection.readn tls readBufferSize reading.2).ret) :
    ∃ rest, headerRound tls maxHeaderSize reading = .leave (reading.1, rest) .proceeds ∨
      headerRound tls maxHeaderSize reading = .leave (reading.1, rest) (.returns .closed) := by
  refine ⟨(Connection.readn tls readBufferSize reading.2).rest, ?_⟩
  unfold headerRound
  simp only [if_neg nothing]
  by_cases failed : (Connection.readn tls readBufferSize reading.2).ret < 0
  · right
    rw [if_pos failed]
  · left
    rw [if_neg failed]

theorem bodyRound_of_piece {reading : Reading} {piece : Bytes}
    (some_bytes : 0 < (Connection.readn tls readBufferSize reading.2).ret)
    (bytes : (Connection.readn tls readBufferSize reading.2).bytes = piece)
    (ret : (Connection.readn tls readBufferSize reading.2).ret = piece.length) :
    bodyRound tls reading =
      if (reading.1.accept piece).bodyComplete then
        .leave ({ reading.1.accept piece with status := .bodyReceived },
          (Connection.readn tls readBufferSize reading.2).rest) .proceeds
      else if (piece.length : Int) = readBufferSize then
        .advance (reading.1.accept piece,
          (Connection.readn tls readBufferSize reading.2).rest) []
      else
        .leave (reading.1.accept piece,
          (Connection.readn tls readBufferSize reading.2).rest) .proceeds := by
  unfold bodyRound
  simp only [if_pos some_bytes]
  rw [ret, bytes]
  rfl

theorem bodyRound_of_nothing {reading : Reading}
    (nothing : ¬ 0 < (Connection.readn tls readBufferSize reading.2).ret) :
    ∃ rest, bodyRound tls reading = .leave (reading.1, rest) .proceeds ∨
      bodyRound tls reading = .leave (reading.1, rest) (.returns .closed) := by
  refine ⟨(Connection.readn tls readBufferSize reading.2).rest, ?_⟩
  unfold bodyRound
  simp only [if_neg nothing]
  by_cases failed : (Connection.readn tls readBufferSize reading.2).ret < 0
  · right
    rw [if_pos failed]
  · left
    rw [if_neg failed]

end Rounds

section Loops

variable {tls : Bool} {maxHeaderSize maxPostSize : Nat}

/-- How a loop of `ReadData` leaves a request.  The parser does not leave its buffer. -/
def Ends (maxHeaderSize maxPostSize : Nat) (last : Request) (all : List Bytes) :
    ReadExit → Prop
  | .proceeds => Receives maxHeaderSize maxPostSize last all
  | .returns status =>
      status = .closed ∧ Receives maxHeaderSize maxPostSize last all ∨
        status = .error ∧ Refuses maxHeaderSize maxPostSize last all
  | .outOfRange => False

/-- How one round of a loop leaves a request, for which the loop goes on. -/
def RoundEnds (maxHeaderSize maxPostSize : Nat) (goesOn : Request → Prop) (all : List Bytes) :
    Round Reading Empty ReadExit → Prop
  | .advance next _ => goesOn next.1 ∧ Receives maxHeaderSize maxPostSize next.1 all
  | .leave last verdict => Ends maxHeaderSize maxPostSize last.1 all verdict

theorem receives_headerRound {reading : Reading} {before : List Bytes}
    (received : Receives maxHeaderSize maxPostSize reading.1 before)
    (here : reading.1.status = .headerReceiving) :
    RoundEnds maxHeaderSize maxPostSize (·.status = .headerReceiving)
      (before ++ (delivered tls reading).toList) (headerRound tls maxHeaderSize reading) := by
  by_cases some_bytes : 0 < (Connection.readn tls readBufferSize reading.2).ret
  · obtain ⟨piece, isPiece, bytes, ret⟩ := delivered_of_pos some_bytes
    rw [headerRound_of_piece some_bytes bytes ret, isPiece, Option.toList_some]
    split
    next exceeded => exact .inr ⟨rfl, .tooLarge received here exceeded⟩
    next within =>
      have within := Nat.not_lt.mp within
      have kept : (reading.1.accept piece).parse.state.status = .headerReceiving :=
        (status_parse _).trans here
      cases parsed : (reading.1.accept piece).parse.verdict with
      | finished => exact .headEnd received here within parsed
      | error => exact .inr ⟨rfl, .malformed received here within parsed⟩
      | outOfRange => exact absurd parsed (standing_parse (standing_accept received.standing _)).2
      | continues =>
          simp only [headerParsed]
          split
          · exact ⟨kept, .head received here within parsed⟩
          · exact .head received here within parsed
  · rw [delivered_of_not_pos some_bytes, Option.toList_none, List.append_nil]
    obtain ⟨rest, proceeds | closed⟩ :=
      @headerRound_of_nothing tls maxHeaderSize reading some_bytes
    · rw [proceeds]
      exact received
    · rw [closed]
      exact .inl ⟨rfl, received⟩

/-- The body is not complete, and may be received. -/
structure Awaits (maxPostSize : Nat) (req : Request) : Prop where
  here : req.status = .bodyReceiving
  within : req.contentLength ≤ maxPostSize
  incomplete : req.bodyComplete = false

theorem receives_bodyRound {reading : Reading} {before : List Bytes}
    (received : Receives maxHeaderSize maxPostSize reading.1 before)
    (awaits : reading.1.Awaits maxPostSize) :
    RoundEnds maxHeaderSize maxPostSize (·.Awaits maxPostSize)
      (before ++ (delivered tls reading).toList) (bodyRound tls reading) := by
  obtain ⟨here, within, incomplete⟩ := awaits
  by_cases some_bytes : 0 < (Connection.readn tls readBufferSize reading.2).ret
  · obtain ⟨piece, isPiece, bytes, ret⟩ := delivered_of_pos some_bytes
    rw [bodyRound_of_piece some_bytes bytes ret, isPiece, Option.toList_some]
    have grown : Receives maxHeaderSize maxPostSize (reading.1.accept piece)
        (before ++ [piece]) := .body received here within incomplete
    split
    next complete => exact .complete grown here within complete
    next stillIncomplete =>
      split
      · exact ⟨⟨here, within, Bool.eq_false_of_not_eq_true stillIncomplete⟩, grown⟩
      · exact grown
  · rw [delivered_of_not_pos some_bytes, Option.toList_none, List.append_nil]
    obtain ⟨rest, proceeds | closed⟩ := bodyRound_of_nothing some_bytes
    · rw [proceeds]
      exact received
    · rw [closed]
      exact .inl ⟨rfl, received⟩

theorem ends_run (tls : Bool) (scanner : Scanner Reading Empty ReadExit) {goesOn : Request → Prop}
    (rounds : ∀ (reading : Reading) before,
      Receives maxHeaderSize maxPostSize reading.1 before → goesOn reading.1 →
        RoundEnds maxHeaderSize maxPostSize goesOn (before ++ (delivered tls reading).toList)
          (scanner.round reading))
    {reading : Reading} {before : List Bytes}
    (received : Receives maxHeaderSize maxPostSize reading.1 before)
    (starts : goesOn reading.1) :
    Ends maxHeaderSize maxPostSize (scanner.run reading).state.1
      (before ++ (scanner.trace reading).filterMap (delivered tls))
      (scanner.run reading).verdict := by
  induction reading using scanner.run_induction generalizing before with
  | leave reading last verdict left =>
      have round := rounds reading before received starts
      rw [left] at round
      have single : [reading].filterMap (delivered tls) = (delivered tls reading).toList := by
        cases piece : delivered tls reading <;> simp [piece]
      rw [scanner.run_of_leave left, scanner.trace_of_leave left, single]
      exact round
  | advance reading next outputs taken inductionHypothesis =>
      have round := rounds reading before received starts
      rw [taken] at round
      obtain ⟨goes, grown⟩ := round
      have later := inductionHypothesis grown goes
      rw [scanner.run_of_advance taken, scanner.trace_of_advance taken]
      cases piece : delivered tls reading with
      | none => simpa [piece] using later
      | some bytes => simpa [piece] using later

/-- What a call to `ReadData` leads to. -/
def CallEnds (maxHeaderSize maxPostSize : Nat) (result : ReadDataResult) (all : List Bytes) :
    Prop :=
  (result.status = .again ∨ result.status = .closed) ∧
      Receives maxHeaderSize maxPostSize result.req all ∨
    result.status = .error ∧ Refuses maxHeaderSize maxPostSize result.req all

/-- The part of `ReadData` that is behind the head. -/
theorem ends_readBody {reading : Reading} {before : List Bytes}
    (received : Receives maxHeaderSize maxPostSize reading.1 before) :
    CallEnds maxHeaderSize maxPostSize (readBody tls maxPostSize reading)
      (before ++ bodyPieces tls maxPostSize reading) := by
  unfold readBody bodyPieces
  by_cases here : reading.1.status = .bodyReceiving
  · rw [if_pos here]
    by_cases tooLarge : maxPostSize < reading.1.contentLength
    · rw [if_pos tooLarge, if_neg (fun awaits => Nat.not_le.mpr tooLarge awaits.2.1),
        List.append_nil]
      exact .inr ⟨rfl, .bodyTooLarge received here tooLarge⟩
    · have within := Nat.not_lt.mp tooLarge
      rw [if_neg tooLarge]
      cases complete : reading.1.bodyComplete with
      | true =>
          rw [if_pos rfl, if_neg (fun awaits => by cases awaits.2.2), List.append_nil]
          exact .inl ⟨.inl rfl, .complete received here within complete⟩
      | false =>
          have read := ends_run tls (bodyReader tls)
            (fun _ _ received awaits => receives_bodyRound received awaits) received
            ⟨here, within, complete⟩
          rw [if_neg Bool.false_ne_true, if_pos ⟨here, within, rfl⟩]
          cases verdict : ((bodyReader tls).run reading).verdict with
          | proceeds =>
              rw [verdict] at read
              simp only [verdict]
              exact .inl ⟨.inl rfl, read⟩
          | outOfRange =>
              rw [verdict] at read
              exact read.elim
          | returns status =>
              rw [verdict] at read
              simp only [verdict]
              rcases read with ⟨rfl, received⟩ | ⟨rfl, refused⟩
              · exact .inl ⟨.inr rfl, received⟩
              · exact .inr ⟨rfl, refused⟩
  · rw [if_neg here, if_neg (fun awaits => here awaits.1), List.append_nil]
    exact .inl ⟨.inl rfl, received⟩

/-- A call to `ReadData` on a request that is being received takes its pieces one after the
other, and does not leave the buffer. -/
theorem ends_readData {req : Request} {before : List Bytes}
    (received : Receives maxHeaderSize maxPostSize req before) (receiving : req.Receiving)
    (results : List ReadResult) :
    ∃ result, req.readData tls maxHeaderSize maxPostSize results = some result ∧
      CallEnds maxHeaderSize maxPostSize result
        (before ++ req.pieces tls maxHeaderSize maxPostSize results) := by
  unfold readData pieces
  rcases receiving with head | body
  · have starts : Receives maxHeaderSize maxPostSize ((req, results) : Reading).1 before :=
      received
    have read := ends_run tls (headerReader tls maxHeaderSize)
      (fun _ _ received here => receives_headerRound received here) starts head
    rw [if_pos head, if_pos head]
    simp only
    cases verdict : ((headerReader tls maxHeaderSize).run (req, results)).verdict with
    | proceeds =>
        rw [verdict] at read
        rw [if_pos rfl, ← List.append_assoc]
        exact ⟨_, rfl, ends_readBody read⟩
    | outOfRange =>
        rw [verdict] at read
        exact read.elim
    | returns status =>
        rw [verdict] at read
        rw [if_neg (by simp), List.append_nil]
        rcases read with ⟨rfl, received⟩ | ⟨rfl, refused⟩
        · exact ⟨_, rfl, .inl ⟨.inr rfl, received⟩⟩
        · exact ⟨_, rfl, .inr ⟨rfl, refused⟩⟩
  · have notHead : req.status ≠ .headerReceiving := by
      rw [body]
      decide
    rw [if_neg notHead, if_neg notHead, if_pos body]
    exact ⟨_, rfl, ends_readBody received⟩

/-- A call to `ReadData` that returns `AGAIN`, on a request and what has been read of it. -/
def readStep (tls : Bool) (maxHeaderSize maxPostSize : Nat) (state : Request × List Bytes)
    (results : List ReadResult) : Option (Request × List Bytes) :=
  (state.1.readData tls maxHeaderSize maxPostSize results).bind fun result =>
    if result.status = .again then
      some (result.req, state.2 ++ state.1.pieces tls maxHeaderSize maxPostSize results)
    else
      none

theorem receiving_of_readStep {state next : Request × List Bytes} {results : List ReadResult}
    (taken : readStep tls maxHeaderSize maxPostSize state results = some next) :
    state.1.Receiving := by
  obtain ⟨result, read, again⟩ := Option.bind_eq_some_iff.mp taken
  rcases readData_cases read with ⟨receiving, -⟩ | ⟨-, rfl⟩
  · exact receiving
  · rw [if_neg (by simp)] at again
    cases again

/-- A fresh request becomes this one by calls to `ReadData` that return `AGAIN`. -/
abbrev Reads (tls : Bool) (maxHeaderSize maxPostSize : Nat)
    (allowed : Request × List Bytes → List ReadResult → Prop) :
    Request × List Bytes → Prop :=
  Reaches (readStep tls maxHeaderSize maxPostSize) allowed (reset, [])

theorem receives_of_reads {allowed : Request × List Bytes → List ReadResult → Prop}
    {state : Request × List Bytes} (reads : Reads tls maxHeaderSize maxPostSize allowed state) :
    Receives maxHeaderSize maxPostSize state.1 state.2 := by
  induction reads with
  | refl => exact .fresh
  | next results _ _ taken received =>
      obtain ⟨result, read, ends⟩ :=
        @ends_readData tls _ _ _ _ received (receiving_of_readStep taken) results
      rw [readStep, read, Option.bind_some] at taken
      split at taken
      next again =>
        cases taken
        rcases ends with ⟨-, grown⟩ | ⟨failed, -⟩
        · exact grown
        · rw [again] at failed
          cases failed
      next => cases taken

end Loops

end Mevent.Request
