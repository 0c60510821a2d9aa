import Mevent.WebSocket.Framing
import Mevent.WebSocket.Frames

/-!
# What `max_buffer_size_` bounds

The parser compares a frame with `max_buffer_size_` once the frame has arrived.  This
bounds `cache_str_`; it bounds `rbuf_` only as long as no frame that is too long is on its
way.
-/

namespace Mevent.WebSocket

open Library

/-- The chunks that the loop of `ReadData` moves to `rbuf_`, with a bound on its rounds. -/
def receivedFor (tls : Bool) : (bound : Nat) → List ReadResult → List Bytes
  | 0, _ => []
  | bound + 1, results =>
      let got := Connection.readn tls readBufferSize results
      if 0 < got.ret then
        got.bytes :: if got.ret = readBufferSize then receivedFor tls bound got.rest else []
      else
        []

/-- The chunks that `ReadData` moves to `rbuf_`, if the parser accepts all of them. -/
def received (tls : Bool) (results : List ReadResult) : List Bytes :=
  receivedFor tls (results.length + 1) results

/-- A `ReadData` that returns `AGAIN` has run the parser over every chunk. -/
theorem reader_run_again {tls : Bool} {bound : Nat} {reading : Reading}
    (bounded : reading.results.length < bound)
    (again : ((reader tls).run reading).verdict = .returns .again) :
    (reading.ws.parseChunks (receivedFor tls bound reading.results)).verdict = .returnsTrue ∧
      (reading.ws.parseChunks (receivedFor tls bound reading.results)).state =
        ((reader tls).run reading).state.ws := by
  induction bound generalizing reading with
  | zero => exact absurd bounded (Nat.not_lt_zero _)
  | succ bound inductionHypothesis =>
      have round : (reader tls).round reading = readRound tls reading := rfl
      rw [receivedFor]
      unfold readRound at round
      simp only at round ⊢
      split at round
      next some_bytes =>
        rw [if_pos some_bytes]
        cases parsed : (reading.ws.append
            (Connection.readn tls readBufferSize reading.results).bytes).parse.verdict with
        | returnsTrue =>
            have waiting : (parser.run (reading.ws.append
                (Connection.readn tls readBufferSize reading.results).bytes)).verdict =
                .returnsTrue := parsed
            have fed := parser.feed_cons_of_waits append (· = .returnsTrue) .returnsTrue waiting
            rw [parsed, frameParsed] at round
            unfold parseChunks at inductionHypothesis ⊢
            rw [fed]
            split at round
            next full =>
              have fewer := Connection.length_rest_readn_lt tls readBufferSize some_bytes
              rw [(reader tls).run_of_quiet_advance round] at again ⊢
              rw [if_pos full]
              exact inductionHypothesis (Nat.lt_of_lt_of_le fewer (Nat.le_of_lt_succ bounded))
                again
            next partly =>
              rw [(reader tls).run_of_leave round, if_neg partly]
              exact ⟨rfl, rfl⟩
        | returnsFalse =>
            rw [parsed, frameParsed] at round
            rw [(reader tls).run_of_leave round] at again
            cases again
        | outOfRange =>
            rw [parsed, frameParsed] at round
            rw [(reader tls).run_of_leave round] at again
            cases again
      next nothing =>
        rw [if_neg nothing]
        split at round
        next failed =>
          rw [(reader tls).run_of_leave round] at again
          cases again
        next =>
          rw [(reader tls).run_of_leave round]
          exact ⟨rfl, rfl⟩

/-- Successive calls of `ReadData`, each of which returns `AGAIN`. -/
def readAgain (tls : Bool) : WebSocket → List (List ReadResult) → Option WebSocket
  | ws, [] => some ws
  | ws, results :: calls =>
      match ws.readData tls results with
      | some ⟨later, .again, _⟩ => readAgain tls later calls
      | _ => none

/-- The chunks that these calls move to `rbuf_`. -/
def receivedAll (tls : Bool) (calls : List (List ReadResult)) : List Bytes :=
  calls.flatMap (received tls)

/-- Calls that all return `AGAIN` have run the parser over every chunk. -/
theorem parseChunks_of_readAgain {tls : Bool} {ws later : WebSocket}
    {calls : List (List ReadResult)} (again : ws.readAgain tls calls = some later) :
    (ws.parseChunks (receivedAll tls calls)).verdict = .returnsTrue ∧
      (ws.parseChunks (receivedAll tls calls)).state = later := by
  induction calls generalizing ws with
  | nil =>
      cases again
      exact ⟨rfl, rfl⟩
  | cons results calls inductionHypothesis =>
      rw [readAgain] at again
      split at again
      next read middle pushed returned =>
        have verdict : ((reader tls).run ⟨ws, results, []⟩).verdict = .returns .again ∧
            ((reader tls).run ⟨ws, results, []⟩).state.ws = middle := by
          simp only [readData] at returned
          split at returned
          next status ended =>
            cases returned
            exact ⟨ended, rfl⟩
          next => cases returned
        have first := reader_run_again (Nat.lt_succ_self results.length) verdict.1
        rw [verdict.2] at first
        have second := inductionHypothesis again
        have both := parser.feed_append_of_waits append (· = .returnsTrue) .returnsTrue first.1
          (receivedAll tls calls)
        change ws.parseChunks _ = _ at both
        have chunks : receivedAll tls (results :: calls) =
            receivedFor tls (results.length + 1) results ++ receivedAll tls calls := rfl
        rw [chunks, both]
        change (parser.feed _ _ _ (ws.parseChunks _).state _).verdict = _ ∧
          (parser.feed _ _ _ (ws.parseChunks _).state _).state = _
        rw [first.2]
        exact second
      next => cases again

theorem copyRange_error {rbuf : Bytes} {first last : Nat} {reason : ParseExit}
    (stopped : copyRange rbuf first last = .error reason) : reason = .outOfRange := by
  unfold copyRange at stopped
  split at stopped
  · cases stopped
  · cases stopped
    rfl

theorem eraseFront_error {rbuf : Bytes} {last : Nat} {reason : ParseExit}
    (stopped : eraseFront rbuf last = .error reason) : reason = .outOfRange := by
  unfold eraseFront at stopped
  split at stopped
  · cases stopped
  · cases stopped
    rfl

theorem consumeFrame_error {ws : WebSocket} {wsh : WebSocketHeader} {last : Nat}
    {reason : ParseExit} (stopped : ws.consumeFrame wsh last = .error reason) :
    reason = .outOfRange := by
  rw [consumeFrame] at stopped
  cases unmasked : unmaskFrame wsh ws.rbuf with
  | error other =>
      rw [unmasked] at stopped
      cases stopped
      exact unmaskFrame_error unmasked
  | ok rbuf =>
      rw [unmasked] at stopped
      change (copyRange _ _ _ >>= _) = _ at stopped
      cases copied : copyRange rbuf wsh.headerSize last with
      | error other =>
          rw [copied] at stopped
          cases stopped
          exact copyRange_error copied
      | ok payload =>
          rw [copied] at stopped
          change (eraseFront _ _ >>= _) = _ at stopped
          cases erased : eraseFront rbuf last with
          | error other =>
              rw [erased] at stopped
              cases stopped
              exact eraseFront_error erased
          | ok rest =>
              rw [erased] at stopped
              cases stopped

theorem frameRound_of_waits {ws : WebSocket} (waits : ws.parseFrame = .error .returnsTrue) :
    frameRound ws.rbuf = .leave ws.rbuf () := by
  unfold frameRound
  split
  next wsh header =>
    apply if_pos
    by_contra complete
    rw [parseFrame, header] at waits
    change (if ws.rbuf.length < wrap64 (wsh.headerSize + wsh.len) then _ else _) = _ at waits
    have passes := wrap64_le (wsh.headerSize + wsh.len)
    rw [if_neg (by omega)] at waits
    split at waits
    · cases waits
    · cases consumeFrame_error waits
  next => rfl

theorem rbuf_of_parse {ws : WebSocket} (waiting : ws.parse.verdict = .returnsTrue) :
    ws.parse.state.rbuf = unfinished ws.rbuf := by
  obtain ⟨examined, reached, left⟩ := parser.exists_visits_leave ws
  unfold parse at waiting ⊢
  rw [waiting] at left
  cases stopped : examined.parseFrame with
  | ok result =>
      rcases result with ⟨next, tasks⟩
      rw [parser_round_of_ok stopped] at left
      cases left
  | error reason =>
      rw [parser_round_of_error stopped] at left
      simp only [Round.leave.injEq] at left
      obtain ⟨same, rfl⟩ := left
      have ends := framing.run_of_leave (frameRound_of_waits stopped)
      have together := framing.run_state_of_visits (visits_framing reached)
      rw [← same]
      unfold unfinished
      rw [← together.1, ends]

/-- The sizes that `rbuf_` and `cache_str_` have in front of the parser's rounds are sizes
that a vector or a string can have. -/
def InMemory (ws : WebSocket) (chunks : List Bytes) : Prop :=
  ∀ examined awaited,
    parser.FeedVisits append (· = .returnsTrue) ws chunks examined awaited →
      examined.rbuf.length ≤ vectorMaxSize ∧ examined.cacheStr.length ≤ vectorMaxSize

theorem inMemory_iff_trace (ws : WebSocket) (chunks : List Bytes) :
    (∀ visit ∈ parser.feedTrace append (· = .returnsTrue) ws chunks,
      visit.1.rbuf.length ≤ vectorMaxSize ∧ visit.1.cacheStr.length ≤ vectorMaxSize) ↔
        ws.InMemory chunks := by
  constructor
  · intro all examined awaited reached
    exact all (examined, awaited) ((parser.mem_feedTrace_iff append _).mpr reached)
  · rintro inMemory ⟨examined, awaited⟩ reached
    exact inMemory examined awaited ((parser.mem_feedTrace_iff append _).mp reached)

instance (ws : WebSocket) (chunks : List Bytes) : Decidable (ws.InMemory chunks) :=
  decidable_of_iff _ (inMemory_iff_trace ws chunks)

/-- `cache_str_` is within the limit. -/
def CacheWithin (limit : Nat) (ws : WebSocket) : Prop :=
  ws.maxBufferSize = limit ∧ ws.cacheStr.length ≤ limit

theorem cacheWithin_of_parseFrame {limit : Nat} {ws next : WebSocket}
    {tasks : List WebSocketTask} (within : ws.CacheWithin limit)
    (inMemory : ws.rbuf.length ≤ vectorMaxSize ∧ ws.cacheStr.length ≤ vectorMaxSize)
    (parsed : ws.parseFrame = .ok (next, tasks)) : next.CacheWithin limit := by
  rcases ws.parseFrame_cases with waits | ⟨_, _, _, _, refuses⟩ |
    ⟨wsh, front, payload, behind, buffer, _, _, length, _, _, accepted, consumed⟩ | ⟨_, strays⟩
  · rw [waits] at parsed
    cases parsed
  · rw [refuses] at parsed
    cases parsed
  · rw [consumed] at parsed
    cases parsed
    refine ⟨within.1, ?_⟩
    have lengths : ws.rbuf.length = front.length + wsh.len + behind.length := by
      rw [buffer, List.length_append, List.length_append, length]
    -- Neither summand is large enough for the sum to wrap.
    have exact_sum : wrap64 (ws.cacheStr.length + wsh.len) = ws.cacheStr.length + wsh.len := by
      apply wrap64_of_lt
      unfold vectorMaxSize at inMemory
      omega
    have kept := length_dispatch_le wsh.opcode wsh.fin (ws.cacheStr ++ plain wsh payload)
    rw [List.length_append, length_plain, length] at kept
    rw [exact_sum, within.1] at accepted
    exact Nat.le_trans kept accepted
  · rw [strays] at parsed
    cases parsed

theorem cacheWithin_of_parse {limit : Nat} {ws : WebSocket} (within : ws.CacheWithin limit)
    (inMemory : ∀ examined, parser.Visits ws examined →
      examined.rbuf.length ≤ vectorMaxSize ∧ examined.cacheStr.length ≤ vectorMaxSize) :
    (parser.run ws).state.CacheWithin limit := by
  induction ws using parser.run_induction with
  | leave ws last verdict left =>
      rw [parser.run_of_leave left]
      cases stopped : ws.parseFrame with
      | ok result =>
          rcases result with ⟨next, tasks⟩
          rw [parser_round_of_ok stopped] at left
          cases left
      | error reason =>
          rw [parser_round_of_error stopped] at left
          cases left
          exact within
  | advance ws next tasks taken inductionHypothesis =>
      rw [parser.run_of_advance taken]
      apply inductionHypothesis
      · cases stopped : ws.parseFrame with
        | ok result =>
            rcases result with ⟨other, otherTasks⟩
            rw [parser_round_of_ok stopped] at taken
            cases taken
            exact cacheWithin_of_parseFrame within (inMemory ws .here) stopped
        | error reason =>
            rw [parser_round_of_error stopped] at taken
            cases taken
      · intro examined reached
        exact inMemory examined (.later taken reached)

theorem cacheWithin_of_parseChunks {limit : Nat} {ws : WebSocket} {chunks : List Bytes}
    (within : ws.CacheWithin limit) (inMemory : ws.InMemory chunks) :
    (ws.parseChunks chunks).state.CacheWithin limit := by
  unfold parseChunks
  induction chunks generalizing ws with
  | nil => exact within
  | cons chunk rest inductionHypothesis =>
      have first : (parser.run (ws.append chunk)).state.CacheWithin limit :=
        cacheWithin_of_parse within
          (fun examined reached => inMemory examined rest (.now reached))
      by_cases waiting : (parser.run (ws.append chunk)).verdict = .returnsTrue
      · rw [parser.feed_cons_of_waits append (· = .returnsTrue) .returnsTrue waiting]
        apply inductionHypothesis first
        intro examined awaited reached
        exact inMemory examined awaited (.later waiting reached)
      · rw [parser.feed_cons_of_leaves append (· = .returnsTrue) .returnsTrue waiting]
        exact first

/-- The stream breaks off in a frame that has announced more, though as many bytes of it
have arrived as a frame within the limit may have, its header included. -/
def BreaksOffLate (limit : Nat) (stream : Bytes) : Prop :=
  ∃ rest, framing.Visits stream rest ∧ ∃ wsh, readHeader rest = .ok wsh ∧
    rest.length < wsh.headerSize + wsh.len ∧ limit + 14 ≤ rest.length

theorem readHeader_of_long {rbuf : Bytes} (long : 14 ≤ rbuf.length) :
    ∃ wsh, readHeader rbuf = .ok wsh := by
  rw [readHeader_of_le (by omega)]
  have bounds := headerSizeOf_bounds (rbuf[1] &&& 0x7f).toNat (rbuf[1] &&& 0x80 == 0x80)
  have inside : headerSizeOf (rbuf[1] &&& 0x7f).toNat (rbuf[1] &&& 0x80 == 0x80) ≤
      rbuf.length := by omega
  rw [if_neg (Nat.not_lt.mpr inside)]
  obtain ⟨len, lenRead, -⟩ := readLen_of_le (and_127_lt _) inside
  obtain ⟨maskingKey, keyRead⟩ := readKey_of_le inside
  rw [lenRead, keyRead]
  exact ⟨_, rfl⟩

theorem breaksOffLate_iff (limit : Nat) (stream : Bytes) :
    BreaksOffLate limit stream ↔ limit + 14 ≤ (unfinished stream).length := by
  constructor
  · rintro ⟨rest, reached, wsh, header, incomplete, late⟩
    have left : framing.round rest = .leave rest () := by
      change frameRound rest = _
      simp only [frameRound, header]
      exact if_pos incomplete
    have together := framing.run_state_of_visits reached
    unfold unfinished
    rwa [← together.1, framing.run_of_leave left]
  · intro late
    obtain ⟨rest, reached, left⟩ := framing.exists_visits_leave stream
    change frameRound rest = .leave (unfinished stream) () at left
    unfold frameRound at left
    split at left
    next wsh header =>
      split at left
      next incomplete =>
        simp only [Round.leave.injEq, and_true] at left
        rw [← left] at late
        exact ⟨rest, reached, wsh, header, incomplete, late⟩
      next => cases left
    next reason unread =>
      simp only [Round.leave.injEq, and_true] at left
      rw [← left] at late
      obtain ⟨wsh, header⟩ := readHeader_of_long (by omega : 14 ≤ rest.length)
      rw [header] at unread
      cases unread

/-- What `max_buffer_size_` is to bound: the fragments of a message, and a frame with its
header. -/
structure Bounded (ws : WebSocket) : Prop where
  cacheStr : ws.cacheStr.length ≤ ws.maxBufferSize
  rbuf : ws.rbuf.length < ws.maxBufferSize + 14

/-- When `ReadData` has returned `AGAIN`, the buffers are bounded exactly unless the stream
breaks off late in a frame that has announced more. -/
theorem bounded_iff_not_breaksOffLate {tls : Bool} {ws later : WebSocket}
    {calls : List (List ReadResult)} (emptyBuffer : ws.rbuf = []) (emptyCache : ws.cacheStr = [])
    (inMemory : ws.InMemory (receivedAll tls calls))
    (again : ws.readAgain tls calls = some later) :
    later.Bounded ↔
      ¬ BreaksOffLate ws.maxBufferSize (receivedAll tls calls).flatten := by
  obtain ⟨waiting, same⟩ := parseChunks_of_readAgain again
  have within : ws.CacheWithin ws.maxBufferSize :=
    ⟨rfl, by rw [emptyCache]; exact Nat.zero_le _⟩
  have kept := cacheWithin_of_parseChunks within inMemory
  obtain ⟨behind, whole, nothing⟩ := ws.parseChunks_eq_parse (receivedAll tls calls) emptyBuffer
  rw [nothing waiting, append_nil] at whole
  have unparsed : later.rbuf = unfinished (receivedAll tls calls).flatten := by
    have returns : (ws.append (receivedAll tls calls).flatten).parse.verdict = .returnsTrue := by
      rw [whole]
      exact waiting
    have rest := rbuf_of_parse returns
    rw [whole, same] at rest
    rw [rest, append, emptyBuffer]
    rfl
  rw [same] at kept
  rw [breaksOffLate_iff, ← unparsed, Nat.not_le]
  constructor
  · intro bounded
    rw [← kept.1]
    exact bounded.rbuf
  · intro early
    refine ⟨?_, ?_⟩
    · rw [kept.1]
      exact kept.2
    · rw [kept.1]
      exact early

def oneByteLimit : WebSocket := { reset with maxBufferSize := 1 }

def longFrameCall : List ReadResult :=
  [.delivered 0x82 [0x7e, 0x00, 0x64, 0, 0, 0, 0, 0, 0, 0, 0, 0, 0, 0], .failed .syscall .again]

/-- A frame that can never be accepted is buffered beyond the limit. -/
theorem not_bounded_long_frame :
    ¬ ∀ (tls : Bool) (ws later : WebSocket) (calls : List (List ReadResult)),
      ws.rbuf = [] → ws.cacheStr = [] → ws.InMemory (receivedAll tls calls) →
        ws.readAgain tls calls = some later → later.Bounded := by
  intro claim
  obtain ⟨later, again⟩ : ∃ later, oneByteLimit.readAgain false [longFrameCall] = some later :=
    Option.isSome_iff_exists.mp (by decide +kernel)
  have bounded := claim false oneByteLimit later [longFrameCall] rfl rfl (by decide +kernel) again
  have length : (oneByteLimit.readAgain false [longFrameCall]).map
      (fun later => (later.rbuf.length, later.maxBufferSize)) = some (15, 1) := by
    decide +kernel
  rw [again] at length
  simp only [Option.map_some, Option.some.injEq, Prod.mk.injEq] at length
  have small := bounded.rbuf
  omega

def shortFrameCalls : List (List ReadResult) :=
  [[.delivered 0x82 [0x01], .failed .syscall .again],
    [.delivered 0x61 [], .failed .syscall .again]]

theorem bounded_short_frame :
    oneByteLimit.Bounded ↔
      ¬ BreaksOffLate oneByteLimit.maxBufferSize (receivedAll false shortFrameCalls).flatten :=
  @bounded_iff_not_breaksOffLate false oneByteLimit oneByteLimit shortFrameCalls rfl rfl
    (by decide +kernel) (by decide +kernel)

end Mevent.WebSocket
