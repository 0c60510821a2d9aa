import Mevent.Request.Rounds
import Mevent.Connection.IO

/-!
# `Request::ReadData`

Both loops of `ReadData` go on as long as `Readn` fills the stack buffer.  The first
one reads until the parser has seen the end of the head, the second one until the body
is complete.
-/

namespace Mevent.Request

open Library

/-- How a part of `ReadData` ends: it goes on with the next part, returns, or the
parser has left its buffer. -/
inductive ReadExit where
  | proceeds
  | returns (status : ConnStatus)
  | outOfRange
  deriving DecidableEq, Repr

/-- A request and the results that its connection's calls are yet to return. -/
abbrev Reading := Request × List ReadResult

/-- `rbuf_len_ += n`. -/
def count (req : Request) (n : Int) : Request :=
  { req with rbufLen := wrap32 (req.rbufLen + n.toNat) }

/-- `rbuf_.append(buf, n)`. -/
def rbufAppend (req : Request) (bytes : Bytes) : Request :=
  { req with rbuf := req.rbuf ++ bytes }

/-- `rbuf_len_ - header_len_ >= content_length_`. -/
def bodyComplete (req : Request) : Bool :=
  req.contentLength ≤ wrap64 (req.rbufLen + 2 ^ 64 - req.headerLen)

/-- What the header loop does with the verdict of the parser, when `Readn` has returned
`n`. -/
def headerParsed (n : Int) (req : Request) (rest : List ReadResult) :
    HTTPParserStatus → Round Reading Empty ReadExit
  | .finished => .leave ({ req with status := .bodyReceiving }, rest) .proceeds
  | .error => .leave ({ req with errorCode := 400 }, rest) (.returns .error)
  | .outOfRange => .leave (req, rest) .outOfRange
  | .continues =>
      if n = readBufferSize then .advance (req, rest) [] else .leave (req, rest) .proceeds

def headerRound (tls : Bool) (maxHeaderSize : Nat) (reading : Reading) :
    Round Reading Empty ReadExit :=
  let got := Connection.readn tls readBufferSize reading.2
  if 0 < got.ret then
    let counted := reading.1.count got.ret
    if maxHeaderSize < counted.rbufLen then
      .leave ({ counted with errorCode := 500 }, got.rest) (.returns .error)
    else
      let parsed := (counted.rbufAppend got.bytes).parse
      headerParsed got.ret parsed.state got.rest parsed.verdict
  else if got.ret < 0 then
    .leave (reading.1, got.rest) (.returns .closed)
  else
    .leave (reading.1, got.rest) .proceeds

def bodyRound (tls : Bool) (reading : Reading) : Round Reading Empty ReadExit :=
  let got := Connection.readn tls readBufferSize reading.2
  if 0 < got.ret then
    let received := (reading.1.count got.ret).rbufAppend got.bytes
    if received.bodyComplete then
      .leave ({ received with status := .bodyReceived }, got.rest) .proceeds
    else if got.ret = readBufferSize then
      .advance (received, got.rest) []
    else
      .leave (received, got.rest) .proceeds
  else if got.ret < 0 then
    .leave (reading.1, got.rest) (.returns .closed)
  else
    .leave (reading.1, got.rest) .proceeds

theorem headerRound_of_advance {tls : Bool} {maxHeaderSize : Nat} {reading next : Reading}
    {outputs : List Empty}
    (taken : headerRound tls maxHeaderSize reading = .advance next outputs) :
    0 < (Connection.readn tls readBufferSize reading.2).ret ∧
      next = (((reading.1.count (Connection.readn tls readBufferSize reading.2).ret).rbufAppend
        (Connection.readn tls readBufferSize reading.2).bytes).parse.state,
          (Connection.readn tls readBufferSize reading.2).rest) := by
  simp only [headerRound] at taken
  split at taken
  next some_bytes =>
    split at taken
    next exceeded => cases taken
    next within =>
      refine ⟨some_bytes, ?_⟩
      unfold headerParsed at taken
      split at taken
      · cases taken
      · cases taken
      · cases taken
      · split at taken
        · cases taken
          rfl
        · cases taken
  next nothing =>
    split at taken
    · cases taken
    · cases taken

theorem bodyRound_of_advance {tls : Bool} {reading next : Reading} {outputs : List Empty}
    (taken : bodyRound tls reading = .advance next outputs) :
    0 < (Connection.readn tls readBufferSize reading.2).ret ∧
      next = ((reading.1.count (Connection.readn tls readBufferSize reading.2).ret).rbufAppend
        (Connection.readn tls readBufferSize reading.2).bytes,
          (Connection.readn tls readBufferSize reading.2).rest) := by
  simp only [bodyRound] at taken
  split at taken
  next some_bytes =>
    refine ⟨some_bytes, ?_⟩
    split at taken
    · cases taken
    · split at taken
      · cases taken
        rfl
      · cases taken
  next nothing =>
    split at taken
    · cases taken
    · cases taken

def headerReader (tls : Bool) (maxHeaderSize : Nat) : Scanner Reading Empty ReadExit where
  round := headerRound tls maxHeaderSize
  remaining reading := reading.2.length
  decreases := by
    intro reading next outputs taken
    obtain ⟨some_bytes, same⟩ := headerRound_of_advance taken
    rw [same]
    exact Connection.length_rest_readn_lt tls readBufferSize some_bytes

def bodyReader (tls : Bool) : Scanner Reading Empty ReadExit where
  round := bodyRound tls
  remaining reading := reading.2.length
  decreases := by
    intro reading next outputs taken
    obtain ⟨some_bytes, same⟩ := bodyRound_of_advance taken
    rw [same]
    exact Connection.length_rest_readn_lt tls readBufferSize some_bytes

/-- What `ReadData` leaves behind: the request, the value it returns, and whether it
has called `TaskPush`. -/
structure ReadDataResult where
  req : Request
  status : ConnStatus
  pushed : Bool
  deriving DecidableEq, Repr

/-- `ReadData` behind the loop that receives the head. -/
def readBody (tls : Bool) (maxPostSize : Nat) (reading : Reading) : ReadDataResult :=
  if reading.1.status = .bodyReceiving then
    if maxPostSize < reading.1.contentLength then
      ⟨{ reading.1 with errorCode := 500 }, .error, false⟩
    else if reading.1.bodyComplete then
      ⟨{ reading.1 with status := .bodyReceived }, .again, true⟩
    else
      let read := (bodyReader tls).run reading
      match read.verdict with
      | .returns status => ⟨read.state.1, status, false⟩
      | _ => ⟨read.state.1, .again, read.state.1.status = .bodyReceived⟩
  else
    ⟨reading.1, .again, false⟩

/-- `Request::ReadData`, with the limits of its event loop.  There is no result when
the parser leaves its buffer. -/
def readData (tls : Bool) (maxHeaderSize maxPostSize : Nat) (req : Request)
    (results : List ReadResult) : Option ReadDataResult :=
  if req.status = .headerReceiving then
    let head := (headerReader tls maxHeaderSize).run (req, results)
    match head.verdict with
    | .proceeds => some (readBody tls maxPostSize head.state)
    | .returns status => some ⟨head.state.1, status, false⟩
    | .outOfRange => none
  else if req.status = .bodyReceiving then
    some (readBody tls maxPostSize (req, results))
  else
    some ⟨req, .error, false⟩

/-- `ReadData` is yet to receive a part of the request. -/
def Receiving (req : Request) : Prop :=
  req.status = .headerReceiving ∨ req.status = .bodyReceiving

theorem receiving_headerReader (tls : Bool) (maxHeaderSize : Nat) (reading : Reading)
    (receiving : reading.1.status = .headerReceiving) :
    ((headerReader tls maxHeaderSize).run reading).state.1.Receiving := by
  refine (headerReader tls maxHeaderSize).run_invariant (·.1.status = .headerReceiving)
    (fun last _ => last.1.Receiving) ?_ ?_ receiving
  · intro state next outputs same taken
    rw [(headerRound_of_advance taken).2]
    exact (status_parse _).trans same
  · intro state last verdict same left
    simp only [headerReader, headerRound] at left
    split at left
    · split at left
      · cases left
        exact .inl same
      · unfold headerParsed at left
        have kept := (status_parse ((state.1.count
          (Connection.readn tls readBufferSize state.2).ret).rbufAppend
            (Connection.readn tls readBufferSize state.2).bytes)).trans same
        split at left
        · cases left
          exact .inr rfl
        · cases left
          exact .inl kept
        · cases left
          exact .inl kept
        · split at left
          · cases left
          · cases left
            exact .inl kept
    · split at left
      · cases left
        exact .inl same
      · cases left
        exact .inl same

theorem status_bodyReader (tls : Bool) {reading : Reading}
    (receiving : reading.1.status = .bodyReceiving) :
    let read := (bodyReader tls).run reading
    read.state.1.status = .bodyReceiving ∨
      read.state.1.status = .bodyReceived ∧ read.verdict = .proceeds := by
  refine (bodyReader tls).run_invariant (·.1.status = .bodyReceiving)
    (fun last verdict => last.1.status = .bodyReceiving ∨
      last.1.status = .bodyReceived ∧ verdict = .proceeds) ?_ ?_ receiving
  · intro state next outputs same taken
    rw [(bodyRound_of_advance taken).2]
    exact same
  · intro state last verdict same left
    simp only [bodyReader, bodyRound] at left
    split at left
    · split at left
      · cases left
        exact .inr ⟨rfl, rfl⟩
      · split at left
        · cases left
        · cases left
          exact .inl same
    · split at left
      · cases left
        exact .inl same
      · cases left
        exact .inl same

/-- What a call to `ReadData` on a request that is being received leads to: it is
received and pushed, or still being received and not pushed. -/
def ReadDataResult.Received (result : ReadDataResult) : Prop :=
  result.pushed = true ∧ result.req.status = .bodyReceived ∧ result.status = .again ∨
    result.pushed = false ∧ result.req.Receiving

theorem received_readBody {tls : Bool} {maxPostSize : Nat} {reading : Reading}
    (receiving : reading.1.Receiving) : (readBody tls maxPostSize reading).Received := by
  unfold readBody
  split
  next body =>
    split
    · exact .inr ⟨rfl, .inr body⟩
    · split
      · exact .inl ⟨rfl, rfl, rfl⟩
      · have read := status_bodyReader tls body
        simp only
        rcases read with still | ⟨received, proceeds⟩
        · split
          · exact .inr ⟨rfl, .inr still⟩
          · exact .inr ⟨by simp [still], .inr still⟩
        · simp only [proceeds]
          exact .inl ⟨by simp [received], received, rfl⟩
  next body => exact .inr ⟨rfl, receiving⟩

/-- `ReadData` pushes a task in exactly the calls in which the request becomes
complete. -/
theorem readData_cases {tls : Bool} {maxHeaderSize maxPostSize : Nat} {req : Request}
    {results : List ReadResult} {result : ReadDataResult}
    (read : req.readData tls maxHeaderSize maxPostSize results = some result) :
    req.Receiving ∧ result.Received ∨ ¬ req.Receiving ∧ result = ⟨req, .error, false⟩ := by
  unfold readData at read
  split at read
  next head =>
    left
    refine ⟨.inl head, ?_⟩
    have receiving := receiving_headerReader tls maxHeaderSize (req, results) head
    simp only at read
    split at read
    · cases read
      exact received_readBody receiving
    · cases read
      exact .inr ⟨rfl, receiving⟩
    · cases read
  next not_head =>
    split at read
    next body =>
      cases read
      exact .inl ⟨.inr body, received_readBody (.inr body)⟩
    next not_body =>
      cases read
      exact .inr ⟨not_or.mpr ⟨not_head, not_body⟩, rfl⟩

/-- `ReadData` does not upgrade a request. -/
theorem status_readData {tls : Bool} {maxHeaderSize maxPostSize : Nat} {req : Request}
    {results : List ReadResult} {result : ReadDataResult} (plain : req.status ≠ .upgrade)
    (read : req.readData tls maxHeaderSize maxPostSize results = some result) :
    result.req.status ≠ .upgrade := by
  rcases readData_cases read with ⟨-, ⟨-, received, -⟩ | ⟨-, receiving⟩⟩ | ⟨-, same⟩
  · rw [received]
    exact nofun
  · rcases receiving with head | body
    · rw [head]
      exact nofun
    · rw [body]
      exact nofun
  · rw [same]
    exact plain

end Mevent.Request
