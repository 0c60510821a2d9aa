import Mevent.WebSocket.Reading
import Mevent.Connection.IO

/-!
# `WebSocket::ReadData`

Every read that delivers bytes is followed by a run of the parser.
-/

namespace Mevent.WebSocket

open Library

/-- A WebSocket, the results that its connection's calls are yet to return, and the
tasks pushed so far. -/
structure Reading where
  ws : WebSocket
  results : List ReadResult
  pushed : List WebSocketTask
  deriving DecidableEq, Repr

/-- How the loop of `ReadData` ends: the function returns, or the parser has left its
buffer. -/
inductive ReadExit where
  | returns (status : ConnStatus)
  | outOfRange
  deriving DecidableEq, Repr

/-- What `ReadData` does with the value of `Parse`, when `Readn` has returned `n`. -/
def frameParsed (n : Int) (reading : Reading) : ParseExit → Round Reading Empty ReadExit
  | .returnsTrue =>
      if n = readBufferSize then .advance reading [] else .leave reading (.returns .again)
  | .returnsFalse => .leave reading (.returns .error)
  | .outOfRange => .leave reading .outOfRange

/-- One round of the loop of `ReadData`. -/
def readRound (tls : Bool) (reading : Reading) : Round Reading Empty ReadExit :=
  let got := Connection.readn tls readBufferSize reading.results
  if 0 < got.ret then
    let parsed := (reading.ws.append got.bytes).parse
    frameParsed got.ret ⟨parsed.state, got.rest, reading.pushed ++ parsed.outputs⟩ parsed.verdict
  else if got.ret < 0 then
    .leave { reading with results := got.rest } (.returns .closed)
  else
    .leave { reading with results := got.rest } (.returns .again)

theorem readRound_of_advance {tls : Bool} {reading next : Reading} {outputs : List Empty}
    (taken : readRound tls reading = .advance next outputs) :
    0 < (Connection.readn tls readBufferSize reading.results).ret ∧
      next.results = (Connection.readn tls readBufferSize reading.results).rest := by
  simp only [readRound] at taken
  split at taken
  next some_bytes =>
    refine ⟨some_bytes, ?_⟩
    unfold frameParsed at taken
    split at taken
    · split at taken
      · cases taken
        rfl
      · cases taken
    · cases taken
    · cases taken
  next nothing =>
    split at taken
    · cases taken
    · cases taken

/-- The loop of `ReadData`. -/
def reader (tls : Bool) : Scanner Reading Empty ReadExit where
  round := readRound tls
  remaining reading := reading.results.length
  decreases := by
    intro reading next outputs taken
    obtain ⟨some_bytes, same⟩ := readRound_of_advance taken
    rw [same]
    exact Connection.length_rest_readn_lt tls readBufferSize some_bytes

/-- What `ReadData` leaves behind: the WebSocket, the value it returns, and the tasks
it has pushed. -/
structure ReadDataResult where
  ws : WebSocket
  status : ConnStatus
  pushed : List WebSocketTask
  deriving DecidableEq, Repr

/-- `WebSocket::ReadData`.  There is no result when the parser leaves its buffer. -/
def readData (tls : Bool) (ws : WebSocket) (results : List ReadResult) :
    Option ReadDataResult :=
  let read := (reader tls).run ⟨ws, results, []⟩
  match read.verdict with
  | .returns status => some ⟨read.state.ws, status, read.state.pushed⟩
  | .outOfRange => none

/-- `Parse` leaves `on_close_func_` alone. -/
theorem onCloseFunc_parse (ws : WebSocket) : ws.parse.state.onCloseFunc = ws.onCloseFunc := by
  refine parser.run_invariant (fun visited => visited.onCloseFunc = ws.onCloseFunc)
    (fun last _ => last.onCloseFunc = ws.onCloseFunc) ?_ ?_ rfl
  · intro visited next tasks same taken
    unfold parser at taken
    dsimp only at taken
    split at taken
    next parsedNext parsedTasks parsed =>
      cases taken
      rcases visited.parseFrame_cases with waits | ⟨_, _, _, _, refuses⟩ |
        ⟨wsh, front, payload, behind, buffer, _, reached, _, lower, _, _, consumed⟩ | ⟨_, strays⟩
      · cases waits.symm.trans parsed
      · cases refuses.symm.trans parsed
      · cases consumed.symm.trans parsed
        exact same
      · cases strays.symm.trans parsed
    next => cases taken
  · intro visited last verdict same left
    unfold parser at left
    dsimp only at left
    split at left
    next => cases left
    next =>
      cases left
      exact same

/-- The state behind a round of `ReadData`. -/
def afterRound : Round Reading Empty ReadExit → Reading
  | .advance next _ => next
  | .leave last _ => last

theorem onCloseFunc_readRound (tls : Bool) (reading : Reading) :
    (afterRound (readRound tls reading)).ws.onCloseFunc = reading.ws.onCloseFunc := by
  unfold readRound
  dsimp only
  split
  · have parsed := onCloseFunc_parse
      (reading.ws.append (Connection.readn tls readBufferSize reading.results).bytes)
    unfold frameParsed
    split
    · split
      · exact parsed
      · exact parsed
    · exact parsed
    · exact parsed
  · split
    · rfl
    · rfl

/-- `ReadData` leaves `on_close_func_` alone. -/
theorem onCloseFunc_readData {tls : Bool} {ws : WebSocket} {results : List ReadResult}
    {read : ReadDataResult} (returned : ws.readData tls results = some read) :
    read.ws.onCloseFunc = ws.onCloseFunc := by
  have kept : ((reader tls).run ⟨ws, results, []⟩).state.ws.onCloseFunc = ws.onCloseFunc := by
    refine (reader tls).run_invariant (fun reading => reading.ws.onCloseFunc = ws.onCloseFunc)
      (fun reading _ => reading.ws.onCloseFunc = ws.onCloseFunc) ?_ ?_ rfl
    · intro reading next outputs same taken
      have round := onCloseFunc_readRound tls reading
      have taken' : readRound tls reading = .advance next outputs := taken
      rw [taken'] at round
      exact round.trans same
    · intro reading last verdict same left
      have round := onCloseFunc_readRound tls reading
      have left' : readRound tls reading = .leave last verdict := left
      rw [left'] at round
      exact round.trans same
  unfold readData at returned
  dsimp only at returned
  split at returned
  · cases returned
    exact kept
  · cases returned

end Mevent.WebSocket
