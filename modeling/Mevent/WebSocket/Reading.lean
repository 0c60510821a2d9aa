import Mevent.WebSocket.Rounds

/-!
# `WebSocket::Parse` over the life of an upgraded connection

The parser is run once for every chunk that `WebSocket::ReadData` appends to
`rbuf_`, until it returns `false`.
-/

namespace Mevent.WebSocket

open Library

theorem length_rbuf_of_parseFrame {ws next : WebSocket} {tasks : List WebSocketTask}
    (parsed : ws.parseFrame = .ok (next, tasks)) :
    next.rbuf.length < ws.rbuf.length := by
  rcases ws.parseFrame_cases with waits | ⟨_, _, _, _, refuses⟩ |
    ⟨wsh, front, payload, behind, buffer, _, reached, _, lower, _, _, consumed⟩ | ⟨_, strays⟩
  · rw [waits] at parsed
    cases parsed
  · rw [refuses] at parsed
    cases parsed
  · rw [consumed] at parsed
    cases parsed
    rw [buffer]
    simp
    omega
  · rw [strays] at parsed
    cases parsed

/-- The loop of `WebSocket::Parse`. -/
def parser : Scanner WebSocket WebSocketTask ParseExit where
  round ws :=
    match ws.parseFrame with
    | .ok (next, tasks) => .advance next tasks
    | .error reason => .leave ws reason
  remaining ws := ws.rbuf.length
  decreases := by
    intro ws next tasks taken
    split at taken
    next parsedNext parsedTasks parsed =>
      cases taken
      exact length_rbuf_of_parseFrame parsed
    next reason stopped => cases taken

theorem parser_round_of_ok {ws next : WebSocket} {tasks : List WebSocketTask}
    (parsed : ws.parseFrame = .ok (next, tasks)) :
    parser.round ws = .advance next tasks := by
  simp only [parser, parsed]

theorem parser_round_of_error {ws : WebSocket} {reason : ParseExit}
    (stopped : ws.parseFrame = .error reason) :
    parser.round ws = .leave ws reason := by
  simp only [parser, stopped]

/-- `WebSocket::Parse`, with the tasks it pushes. -/
def parse (ws : WebSocket) : Scanned WebSocket WebSocketTask ParseExit :=
  parser.run ws

/-- `rbuf_.insert(rbuf_.end(), buf, buf + n)`. -/
def append (ws : WebSocket) (bytes : Bytes) : WebSocket :=
  { ws with rbuf := ws.rbuf ++ bytes }

/-- Run the parser after every chunk, until it returns `false`. -/
def parseChunks (ws : WebSocket) (chunks : List Bytes) :
    Scanned WebSocket WebSocketTask ParseExit :=
  parser.feed append (· = .returnsTrue) .returnsTrue ws chunks

/-- What happens to a WebSocket between two runs of the parser: the handlers may
have called `SetMaxBufferSize`, and `ReadData` appends the bytes it has read. -/
structure Arrival where
  maxBufferSize : Nat
  bytes : Bytes
  deriving DecidableEq, Repr

def receive (ws : WebSocket) (arrival : Arrival) : WebSocket :=
  { ws with maxBufferSize := arrival.maxBufferSize }.append arrival.bytes

/-- Run the parser after every arrival, until it returns `false`. -/
def receiveAll (ws : WebSocket) (arrivals : List Arrival) :
    Scanned WebSocket WebSocketTask ParseExit :=
  parser.feed receive (· = .returnsTrue) .returnsTrue ws arrivals

/-- The states of the WebSocket in front of the rounds of these runs. -/
def Examines (ws : WebSocket) (arrivals : List Arrival) (examined : WebSocket) : Prop :=
  ∃ awaited, parser.FeedVisits receive (· = .returnsTrue) ws arrivals examined awaited

/-- Every byte that the parser reads, unmasks, copies or erases lies inside
`rbuf_`, and no range ends before it begins. -/
def StaysInRange (ws : WebSocket) (arrivals : List Arrival) : Prop :=
  (ws.receiveAll arrivals).verdict ≠ .outOfRange

instance (ws : WebSocket) (arrivals : List Arrival) :
    Decidable (ws.StaysInRange arrivals) :=
  inferInstanceAs (Decidable (_ ≠ _))

theorem parseFrame_outOfRange_iff (ws : WebSocket) :
    ws.parseFrame = .error .outOfRange ↔ ws.Overflows := by
  constructor
  · intro strays
    rcases ws.parseFrame_cases with waits | ⟨_, _, _, _, refuses⟩ |
      ⟨_, _, _, _, _, _, _, _, _, _, _, consumed⟩ | ⟨overflows, _⟩
    · rw [waits] at strays
      cases strays
    · rw [refuses] at strays
      cases strays
    · rw [consumed] at strays
      cases strays
    · exact overflows
  · rintro ⟨wsh, header, wraps, passesFirst, passesSecond⟩
    rw [parseFrame, header]
    change (if ws.rbuf.length < wrap64 (wsh.headerSize + wsh.len) then _ else _) = _
    rw [if_neg (Nat.not_lt.mpr passesFirst), if_neg (Nat.not_lt.mpr passesSecond)]
    apply consumeFrame_of_wrapped
    rcases readHeader_cases ws.rbuf with incomplete | ⟨other, otherHeader, _, _, _, small⟩
    · rw [incomplete] at header
      cases header
    · rw [otherHeader] at header
      cases header
      unfold wrap64
      omega

theorem parser_round_outOfRange_iff (ws : WebSocket) :
    (∃ last, parser.round ws = .leave last .outOfRange) ↔ ws.Overflows := by
  rw [← parseFrame_outOfRange_iff]
  constructor
  · rintro ⟨last, left⟩
    cases stopped : ws.parseFrame with
    | ok result =>
        rcases result with ⟨next, tasks⟩
        rw [parser_round_of_ok stopped] at left
        cases left
    | error reason =>
        rw [parser_round_of_error stopped] at left
        cases left
        rfl
  · intro stopped
    exact ⟨ws, parser_round_of_error stopped⟩

/-- The parser stays inside `rbuf_` exactly as long as it never meets a declared
length that wraps both guards. -/
theorem staysInRange_iff (ws : WebSocket) (arrivals : List Arrival) :
    ws.StaysInRange arrivals ↔
      ∀ examined, ws.Examines arrivals examined → ¬ examined.Overflows := by
  have strays := parser.feed_verdict_eq_iff receive (· = .returnsTrue) .returnsTrue
    .outOfRange (by simp) (by simp) ws arrivals
  unfold StaysInRange receiveAll Examines
  rw [Ne, strays]
  constructor
  · rintro stays examined ⟨awaited, reached⟩ overflows
    obtain ⟨last, left⟩ := (parser_round_outOfRange_iff examined).mpr overflows
    exact stays ⟨examined, awaited, last, reached, left⟩
  · rintro never ⟨examined, awaited, last, reached, left⟩
    apply never examined ⟨awaited, reached⟩
    exact (parser_round_outOfRange_iff examined).mp ⟨last, left⟩

/-- A first fragment of one byte, then an unmasked frame that declares
`2 ^ 64 - 1` bytes: the range that `insert` is given ends before it begins. -/
theorem not_staysInRange_wrapped_length :
    ¬ ∀ (ws : WebSocket) (arrivals : List Arrival), ws.StaysInRange arrivals := by
  intro claim
  have stays := claim reset
    [⟨8192, [0x01, 0x01, 0x61]⟩,
      ⟨8192, [0x80, 0x7f, 0xff, 0xff, 0xff, 0xff, 0xff, 0xff, 0xff, 0xff]⟩]
  revert stays
  decide

theorem parser_resumable (ws : WebSocket) :
    parser.Resumable append (· = .returnsTrue) ws where
  advance := by
    intro next tasks more taken
    rcases ws.parseFrame_cases with waits | ⟨_, _, _, _, refuses⟩ |
      ⟨wsh, front, payload, behind, buffer, header, reached, length, _, small, accepted,
        consumed⟩ | ⟨_, strays⟩
    · rw [parser_round_of_error waits] at taken
      cases taken
    · rw [parser_round_of_error refuses] at taken
      cases taken
    · rw [parser_round_of_ok consumed] at taken
      cases taken
      have longerBuffer : (ws.append more).rbuf = front ++ payload ++ (behind ++ more) := by
        simp [append, buffer]
      have sameHeader := readHeader_append header more
      exact parser_round_of_ok (parseFrame_of_buffered (ws.append more) longerBuffer
        sameHeader reached length small accepted)
    · rw [parser_round_of_error strays] at taken
      cases taken
  leave := by
    intro last verdict more left ends
    rcases ws.parseFrame_cases with waits | ⟨wsh, header, complete, exceeds, refuses⟩ |
      ⟨_, _, _, _, _, _, _, _, _, _, _, consumed⟩ |
      ⟨⟨wsh, header, wraps, complete, accepted⟩, strays⟩
    · rw [parser_round_of_error waits] at left
      cases left
      exact absurd rfl ends
    · rw [parser_round_of_error refuses] at left
      cases left
      apply parser_round_of_error
      rw [parseFrame, append, readHeader_append header more]
      change (if (ws.rbuf ++ more).length < wrap64 (wsh.headerSize + wsh.len)
        then _ else _) = _
      rw [if_neg (by rw [List.length_append]; omega)]
      exact if_pos exceeds
    · rw [parser_round_of_ok consumed] at left
      cases left
    · rw [parser_round_of_error strays] at left
      cases left
      apply parser_round_of_error
      apply (parseFrame_outOfRange_iff _).mpr
      refine ⟨wsh, readHeader_append header more, wraps, ?_, accepted⟩
      rw [append, List.length_append]
      omega
  wait := by
    intro last verdict left _
    cases stopped : ws.parseFrame with
    | ok result =>
        rcases result with ⟨next, tasks⟩
        rw [parser_round_of_ok stopped] at left
        cases left
    | error reason =>
        rw [parser_round_of_error stopped] at left
        cases left
        rfl

/-- The parser does not see how its input was cut into chunks. -/
theorem parseChunks_eq_parse (ws : WebSocket) (chunks : List Bytes)
    (empty : ws.rbuf = []) :
    ∃ behind,
      (ws.append chunks.flatten).parse =
        { ws.parseChunks chunks with
          state := (ws.parseChunks chunks).state.append behind } ∧
      ((ws.parseChunks chunks).verdict = .returnsTrue → behind = []) := by
  have nothing : ws.parseFrame = .error .returnsTrue := by
    rw [parseFrame, empty]
    rfl
  exact parser.run_flatten_eq_feed append (· = .returnsTrue) .returnsTrue
    (by simp [append]) (by simp [append])
    (parser.run_of_leave (parser_round_of_error nothing)) (by simp)
    (fun visited awaited _ => (parser_resumable visited).continues _ _ _ awaited.flatten)

end Mevent.WebSocket
