import Mevent.WebSocket.ReadData

/-!
# The frames of a stream

Where the frames of a stream begin depends on their headers alone.  The parser walks
from one of these places to the next, however the stream is cut into chunks.
-/

namespace Mevent.WebSocket

open Library

def frameRound (stream : Bytes) : Round Bytes WebSocketHeader Unit :=
  match readHeader stream with
  | .ok wsh =>
      if stream.length < wsh.headerSize + wsh.len then
        .leave stream ()
      else
        .advance (stream.drop (wsh.headerSize + wsh.len)) [wsh]
  | .error _ => .leave stream ()

theorem headerSize_of_readHeader {rbuf : Bytes} {wsh : WebSocketHeader}
    (header : readHeader rbuf = .ok wsh) :
    2 ≤ wsh.headerSize ∧ wsh.headerSize ≤ 14 ∧ wsh.headerSize ≤ rbuf.length := by
  rcases readHeader_cases rbuf with incomplete | ⟨other, otherHeader, lower, upper, inside, _⟩
  · rw [incomplete] at header
    cases header
  · rw [otherHeader] at header
    cases header
    exact ⟨lower, upper, inside⟩

theorem frameRound_of_complete {stream : Bytes} {wsh : WebSocketHeader}
    (header : readHeader stream = .ok wsh)
    (complete : wsh.headerSize + wsh.len ≤ stream.length) :
    frameRound stream = .advance (stream.drop (wsh.headerSize + wsh.len)) [wsh] := by
  simp only [frameRound, header]
  exact if_neg (Nat.not_lt.mpr complete)

/-- The walk over the frames of a stream. -/
def framing : Scanner Bytes WebSocketHeader Unit where
  round := frameRound
  remaining stream := stream.length
  decreases := by
    intro stream next headers taken
    unfold frameRound at taken
    split at taken
    next wsh header =>
      split at taken
      · cases taken
      next complete =>
        cases taken
        have sizes := headerSize_of_readHeader header
        rw [List.length_drop]
        omega
    next => cases taken

/-- The bytes of a stream behind its last complete frame. -/
def unfinished (stream : Bytes) : Bytes := (framing.run stream).state

/-- Every length that a frame of the stream declares is below the bound. -/
def DeclaresBelow (bound : Nat) (stream : Bytes) : Prop :=
  ∀ rest, framing.Visits stream rest → ∀ wsh, readHeader rest = .ok wsh → wsh.len < bound

theorem declaresBelow_iff_trace (bound : Nat) (stream : Bytes) :
    (∀ rest ∈ framing.trace stream, ∀ wsh ∈ (readHeader rest).toOption, wsh.len < bound) ↔
      DeclaresBelow bound stream := by
  have declares : ∀ rest wsh, wsh ∈ (readHeader rest).toOption ↔ readHeader rest = .ok wsh := by
    intro rest wsh
    cases readHeader rest <;> simp [Except.toOption]
  simp only [DeclaresBelow, framing.mem_trace_iff, declares]

instance (bound : Nat) (stream : Bytes) : Decidable (DeclaresBelow bound stream) :=
  decidable_of_iff _ (declaresBelow_iff_trace bound stream)

theorem visits_framing {ws examined : WebSocket}
    (reached : parser.Visits ws examined) : framing.Visits ws.rbuf examined.rbuf := by
  induction reached with
  | here => exact .here
  | @later ws next tasks examined taken _ inductionHypothesis =>
      rcases ws.parseFrame_cases with waits | ⟨_, _, _, _, refuses⟩ |
        ⟨wsh, front, payload, behind, buffer, header, size, length, _, _, _, consumed⟩ |
        ⟨_, strays⟩
      · rw [parser_round_of_error waits] at taken
        cases taken
      · rw [parser_round_of_error refuses] at taken
        cases taken
      · rw [parser_round_of_ok consumed] at taken
        cases taken
        have lengths : (front ++ payload).length = wsh.headerSize + wsh.len := by
          rw [List.length_append, size, length]
        have complete : wsh.headerSize + wsh.len ≤ ws.rbuf.length := by
          rw [buffer, List.length_append, lengths]
          exact Nat.le_add_right _ _
        have walked := frameRound_of_complete header complete
        have rest : ws.rbuf.drop (wsh.headerSize + wsh.len) = behind := by
          rw [buffer, ← lengths, List.drop_left]
        rw [rest] at walked
        exact .later walked inductionHypothesis
      · rw [parser_round_of_error strays] at taken
        cases taken

/-- A stream without huge frames never makes the parser leave its buffer. -/
theorem parse_verdict_of_declaresBelow {ws : WebSocket}
    (declared : DeclaresBelow (2 ^ 63) ws.rbuf) : ws.parse.verdict ≠ .outOfRange := by
  intro strays
  obtain ⟨examined, last, reached, left⟩ := (parser.run_verdict_eq_iff ws _).mp strays
  obtain ⟨wsh, header, wraps, -, -⟩ :=
    (parser_round_outOfRange_iff examined).mp ⟨last, left⟩
  have below := declared _ (visits_framing reached) wsh header
  have sizes := headerSize_of_readHeader header
  omega

@[simp]
theorem append_nil (ws : WebSocket) : ws.append [] = ws := by
  simp [append]

/-- Two runs over one stream that cannot be told apart: they push the same tasks and
return the same value, and where that is `true` they leave the same WebSocket. -/
structure Agrees (first second : Scanned WebSocket WebSocketTask ParseExit) : Prop where
  tasks : first.outputs = second.outputs
  verdict : first.verdict = second.verdict
  returns : first.verdict ≠ .outOfRange
  rbuf : first.verdict = .returnsTrue → first.state.rbuf = second.state.rbuf
  cacheStr : first.verdict = .returnsTrue → first.state.cacheStr = second.state.cacheStr

/-- The cuts between the chunks of a stream make no difference. -/
theorem agrees_of_same_stream (ws : WebSocket) (first second : List Bytes)
    (empty : ws.rbuf = []) (same : first.flatten = second.flatten)
    (declared : DeclaresBelow (2 ^ 63) first.flatten) :
    Agrees (ws.parseChunks first) (ws.parseChunks second) := by
  obtain ⟨behind, whole, nothing⟩ := ws.parseChunks_eq_parse first empty
  obtain ⟨otherBehind, otherWhole, otherNothing⟩ := ws.parseChunks_eq_parse second empty
  rw [← same, whole] at otherWhole
  simp only [Scanned.mk.injEq] at otherWhole
  obtain ⟨states, tasks, verdict⟩ := otherWhole
  have sameState : (ws.parseChunks first).verdict = .returnsTrue →
      (ws.parseChunks first).state = (ws.parseChunks second).state := by
    intro waiting
    rw [nothing waiting, otherNothing (verdict ▸ waiting)] at states
    rwa [append_nil, append_nil] at states
  refine ⟨tasks, verdict, ?_, ?_, ?_⟩
  · have inside : (ws.append first.flatten).parse.verdict ≠ .outOfRange := by
      apply parse_verdict_of_declaresBelow
      rw [append, empty]
      exact declared
    rw [whole] at inside
    exact inside
  · intro waiting
    rw [sameState waiting]
  · intro waiting
    rw [sameState waiting]

/-- A masked text frame behind an empty final one, cut inside its masking key. -/
theorem agrees_masked_text :
    Agrees (reset.parseChunks [[0x80, 0x00, 0x81, 0x81, 0x01, 0x02, 0x03, 0x04, 0x60]])
      (reset.parseChunks [[0x80], [0x00, 0x81, 0x81, 0x01], [], [0x02, 0x03, 0x04, 0x60]]) :=
  agrees_of_same_stream reset _ _ rfl rfl (by decide)

end Mevent.WebSocket
