import Mevent.Connection.Draining

/-!
# The bytes that `ReadData` loses

`ReadData` appends what a call of `Readn` returns to `rbuf_`.  When the stream ends behind
bytes that `Readn` has read, it returns -1 and these bytes are lost.  The bytes with which a
head becomes longer than `max_header_size_` are refused.
-/

namespace Mevent

open Library

theorem flatMap_eq_iff_of_part {Part Item : Type} {kept whole : Part → List Item}
    {parts : List Part} (part : ∀ one ∈ parts, kept one = whole one ∨ kept one = []) :
    parts.flatMap kept = parts.flatMap whole ↔ ∀ one ∈ parts, kept one = whole one := by
  have length_le : ∀ parts : List Part, (∀ one ∈ parts, kept one = whole one ∨ kept one = []) →
      (parts.flatMap kept).length ≤ (parts.flatMap whole).length := by
    intro parts part
    induction parts with
    | nil => exact Nat.le_refl _
    | cons one others inductionHypothesis =>
        have later := inductionHypothesis fun other among =>
          part other (List.mem_cons_of_mem _ among)
        rw [List.flatMap_cons, List.flatMap_cons, List.length_append, List.length_append]
        rcases part one List.mem_cons_self with same | missing
        · rw [same]
          omega
        · rw [missing, List.length_nil]
          omega
  induction parts with
  | nil => exact iff_of_true rfl (List.forall_mem_nil _)
  | cons one others inductionHypothesis =>
      obtain ⟨first, behind⟩ := List.forall_mem_cons.mp part
      have later := inductionHypothesis behind
      rw [List.flatMap_cons, List.flatMap_cons, List.forall_mem_cons]
      rcases first with same | missing
      · rw [same, List.append_cancel_left_eq, and_iff_right rfl]
        exact later
      · have fewer := length_le others behind
        constructor
        · intro all
          have nothing : whole one = [] := by
            have lengths := congrArg List.length all
            rw [missing, List.nil_append, List.length_append] at lengths
            exact List.length_eq_zero_iff.mp (by omega)
          rw [missing, nothing, List.append_cancel_left_eq] at all
          exact ⟨by rw [missing, nothing], later.mp all⟩
        · rintro ⟨same, rest⟩
          rw [same, later.mpr rest]

namespace Connection

/-- A call of `Readn` that is not cut short returns what it has read. -/
theorem cutShort_eq_false_iff {results : List ReadResult} :
    cutShort readBufferSize 0 results = false ↔
      0 < (readn false readBufferSize results).ret ∨
        (readn false readBufferSize results).bytes = [] := by
  have fails := @cutShort_iff readBufferSize 0 results
  rw [Nat.zero_add, List.length_pos_iff] at fails
  rw [← Bool.not_eq_true, fails]
  change ¬ ((readn false readBufferSize results).ret < 0 ∧ _ ≠ []) ↔ _
  rcases ret_readnFrom false readBufferSize 0 results with failed | counted
  · change (readn false readBufferSize results).ret = -1 at failed
    rw [failed, or_iff_right (by decide)]
    exact (not_and_not_right).trans (forall_prop_of_true (by decide))
  · rw [Nat.zero_add] at counted
    change (readn false readBufferSize results).ret =
      ((readn false readBufferSize results).bytes.length : Nat) at counted
    rw [counted]
    rcases (readn false readBufferSize results).bytes with _ | ⟨first, more⟩
    · simp
    · simp
      omega

end Connection

namespace Request

variable {maxHeaderSize maxPostSize : Nat}

/-- The bytes take the head past `max_header_size_`. -/
def Refused (maxHeaderSize : Nat) (reading : Reading) : Prop :=
  reading.1.status = .headerReceiving ∧
    0 < (Connection.readn false readBufferSize reading.2).ret ∧
    maxHeaderSize <
      (reading.1.count (Connection.readn false readBufferSize reading.2).ret).rbufLen

instance (maxHeaderSize : Nat) (reading : Reading) : Decidable (Refused maxHeaderSize reading) :=
  inferInstanceAs (Decidable (_ ∧ _ ∧ _))

/-- What a round of `ReadData` appends to `rbuf_`. -/
def taken (maxHeaderSize : Nat) (reading : Reading) : Bytes :=
  if 0 < (Connection.readn false readBufferSize reading.2).ret ∧
      ¬ Refused maxHeaderSize reading then
    (Connection.readn false readBufferSize reading.2).bytes
  else
    []

theorem taken_of_kept {reading : Reading}
    (some_bytes : 0 < (Connection.readn false readBufferSize reading.2).ret)
    (kept : ¬ Refused maxHeaderSize reading) :
    taken maxHeaderSize reading = (Connection.readn false readBufferSize reading.2).bytes :=
  if_pos ⟨some_bytes, kept⟩

theorem taken_of_refused {reading : Reading} (refused : Refused maxHeaderSize reading) :
    taken maxHeaderSize reading = [] :=
  if_neg fun kept => kept.2 refused

theorem taken_of_nothing {reading : Reading}
    (nothing : ¬ 0 < (Connection.readn false readBufferSize reading.2).ret) :
    taken maxHeaderSize reading = [] :=
  if_neg fun kept => nothing kept.1

theorem rbuf_headerRound {reading : Reading} (head : reading.1.status = .headerReceiving) :
    (headerRound false maxHeaderSize reading).state.1.rbuf =
      reading.1.rbuf ++ taken maxHeaderSize reading := by
  unfold headerRound
  dsimp only
  by_cases some_bytes : 0 < (Connection.readn false readBufferSize reading.2).ret
  · rw [if_pos some_bytes]
    by_cases exceeded : maxHeaderSize <
        (reading.1.count (Connection.readn false readBufferSize reading.2).ret).rbufLen
    · rw [if_pos exceeded, taken_of_refused ⟨head, some_bytes, exceeded⟩, List.append_nil]
      rfl
    · rw [if_neg exceeded, taken_of_kept some_bytes fun refused => exceeded refused.2.2]
      have parsed := (rbuf_parse ((reading.1.count
        (Connection.readn false readBufferSize reading.2).ret).rbufAppend
          (Connection.readn false readBufferSize reading.2).bytes)).1
      unfold headerParsed
      split
      · exact parsed
      · exact parsed
      · exact parsed
      · split
        · exact parsed
        · exact parsed
  · rw [if_neg some_bytes, taken_of_nothing some_bytes, List.append_nil]
    split
    · rfl
    · rfl

theorem rbuf_bodyRound {reading : Reading} (body : reading.1.status = .bodyReceiving) :
    (bodyRound false reading).state.1.rbuf = reading.1.rbuf ++ taken maxHeaderSize reading := by
  have kept : ¬ Refused maxHeaderSize reading := by
    intro refused
    have head := refused.1
    rw [body] at head
    cases head
  unfold bodyRound
  dsimp only
  by_cases some_bytes : 0 < (Connection.readn false readBufferSize reading.2).ret
  · rw [if_pos some_bytes, taken_of_kept some_bytes kept]
    split
    · rfl
    · split
      · rfl
      · rfl
  · rw [if_neg some_bytes, taken_of_nothing some_bytes, List.append_nil]
    split
    · rfl
    · rfl

/-- What a loop of `ReadData` appends to `rbuf_`. -/
theorem rbuf_run (scanner : Scanner Reading Empty ReadExit) (status : RequestStatus)
    (rounds : ∀ reading : Reading, reading.1.status = status →
      (scanner.round reading).state.1.rbuf = reading.1.rbuf ++ taken maxHeaderSize reading)
    (stays : ∀ (reading : Reading) next outputs, reading.1.status = status →
      scanner.round reading = .advance next outputs → next.1.status = status)
    {reading : Reading} (here : reading.1.status = status) :
    (scanner.run reading).state.1.rbuf =
      reading.1.rbuf ++ (scanner.trace reading).flatMap (taken maxHeaderSize) := by
  induction reading using scanner.run_induction with
  | leave reading last verdict left =>
      have round := rounds reading here
      rw [left] at round
      rw [scanner.run_of_leave left, scanner.trace_of_leave left, List.flatMap_singleton]
      exact round
  | advance reading next outputs taken' inductionHypothesis =>
      have round := rounds reading here
      rw [taken'] at round
      rw [scanner.run_of_advance taken', scanner.trace_of_advance taken', Scanned.after_state,
        inductionHypothesis (stays reading next outputs here taken'), List.flatMap_cons,
        ← List.append_assoc]
      exact congrArg (· ++ _) round

theorem rbuf_headerReader {reading : Reading} (head : reading.1.status = .headerReceiving) :
    ((headerReader false maxHeaderSize).run reading).state.1.rbuf = reading.1.rbuf ++
      ((headerReader false maxHeaderSize).trace reading).flatMap (taken maxHeaderSize) := by
  refine rbuf_run _ .headerReceiving (fun _ here => rbuf_headerRound here) ?_ head
  intro reading next outputs here advanced
  rw [(headerRound_of_advance advanced).2]
  exact (status_parse _).trans here

theorem rbuf_bodyReader {reading : Reading} (body : reading.1.status = .bodyReceiving) :
    ((bodyReader false).run reading).state.1.rbuf = reading.1.rbuf ++
      ((bodyReader false).trace reading).flatMap (taken maxHeaderSize) := by
  refine rbuf_run _ .bodyReceiving (fun _ here => rbuf_bodyRound here) ?_ body
  intro reading next outputs here advanced
  rw [(bodyRound_of_advance advanced).2]
  exact here

theorem rbuf_readBody (reading : Reading) :
    (readBody false maxPostSize reading).req.rbuf = reading.1.rbuf ++
      (bodyReadings false maxPostSize reading).flatMap (taken maxHeaderSize) := by
  unfold readBody bodyReadings
  by_cases body : reading.1.status = .bodyReceiving
  · rw [if_pos body]
    by_cases tooLarge : maxPostSize < reading.1.contentLength
    · rw [if_pos tooLarge, if_neg (fun awaits => Nat.not_le.mpr tooLarge awaits.2.1),
        List.flatMap_nil, List.append_nil]
    · rw [if_neg tooLarge]
      cases complete : reading.1.bodyComplete with
      | true =>
          rw [if_pos rfl, if_neg (fun awaits => Bool.noConfusion awaits.2.2), List.flatMap_nil,
            List.append_nil]
      | false =>
          rw [if_neg Bool.false_ne_true, if_pos ⟨body, Nat.not_lt.mp tooLarge, rfl⟩]
          have read := @rbuf_bodyReader maxHeaderSize _ body
          dsimp only
          split
          · exact read
          · exact read
  · rw [if_neg body, if_neg (fun awaits => body awaits.1), List.flatMap_nil, List.append_nil]

/-- What `ReadData` appends to `rbuf_`. -/
theorem rbuf_readData {req : Request} {results : List ReadResult} {result : ReadDataResult}
    (read : req.readData false maxHeaderSize maxPostSize results = some result) :
    result.req.rbuf = req.rbuf ++
      (req.readings false maxHeaderSize maxPostSize results).flatMap (taken maxHeaderSize) := by
  rcases readings_cases read with ⟨head, -, rfl, readings_eq⟩ |
    ⟨status, head, -, rfl, readings_eq⟩ | ⟨-, rfl, readings_eq⟩ | ⟨-, rfl, readings_eq⟩
  · have received := @rbuf_headerReader maxHeaderSize (req, results) head
    rw [readings_eq, List.flatMap_append, ← List.append_assoc, ← received]
    exact rbuf_readBody _
  · rw [readings_eq]
    exact @rbuf_headerReader maxHeaderSize (req, results) head
  · rw [readings_eq]
    exact rbuf_readBody _
  · rw [readings_eq, List.flatMap_nil, List.append_nil]

/-- `ReadData` appends to `rbuf_` all that `read(2)` delivers, other than the bytes with which
it refuses a head. -/
def KeepsReads (maxHeaderSize maxPostSize : Nat) (req : Request) (results : List ReadResult)
    (result : ReadDataResult) : Prop :=
  result.req.rbuf = req.rbuf ++ Connection.delivers
    (((req.readings false maxHeaderSize maxPostSize results).filter
      (¬ Refused maxHeaderSize ·)).map (·.2))

/-- `ReadData` appends to `rbuf_` all that `read(2)` delivers. -/
def KeepsAllReads (maxHeaderSize maxPostSize : Nat) (req : Request) (results : List ReadResult)
    (result : ReadDataResult) : Prop :=
  result.req.rbuf = req.rbuf ++ Connection.delivers
    ((req.readings false maxHeaderSize maxPostSize results).map (·.2))

theorem part_taken (reading : Reading) :
    taken maxHeaderSize reading = (Connection.readn false readBufferSize reading.2).bytes ∨
      taken maxHeaderSize reading = [] := by
  unfold taken
  split
  · exact .inl rfl
  · exact .inr rfl

theorem taken_eq_iff_of_kept {reading : Reading} (kept : ¬ Refused maxHeaderSize reading) :
    taken maxHeaderSize reading = (Connection.readn false readBufferSize reading.2).bytes ↔
      Connection.cutShort readBufferSize 0 reading.2 = false := by
  rw [Connection.cutShort_eq_false_iff]
  by_cases some_bytes : 0 < (Connection.readn false readBufferSize reading.2).ret
  · rw [taken_of_kept some_bytes kept]
    exact iff_of_true rfl (.inl some_bytes)
  · rw [taken_of_nothing some_bytes, or_iff_right some_bytes, eq_comm]

/-- A round appends all that it has read when its call of `Readn` is not cut short and the head
is not refused. -/
theorem taken_eq_iff (maxHeaderSize : Nat) (reading : Reading) :
    taken maxHeaderSize reading = (Connection.readn false readBufferSize reading.2).bytes ↔
      Connection.cutShort readBufferSize 0 reading.2 = false ∧
        ¬ Refused maxHeaderSize reading := by
  by_cases refused : Refused maxHeaderSize reading
  · rw [taken_of_refused refused]
    refine iff_of_false ?_ (fun both => both.2 refused)
    intro nothing
    obtain ⟨piece, -, bytes, ret⟩ := delivered_of_pos refused.2.1
    have some_bytes := refused.2.1
    rw [ret, ← bytes, ← nothing] at some_bytes
    exact absurd some_bytes (by decide)
  · rw [taken_eq_iff_of_kept refused, and_iff_left refused]

theorem flatMap_taken_filter (readings : List Reading) :
    readings.flatMap (taken maxHeaderSize) =
      (readings.filter (¬ Refused maxHeaderSize ·)).flatMap (taken maxHeaderSize) := by
  induction readings with
  | nil => rfl
  | cons reading readings inductionHypothesis =>
      rw [List.flatMap_cons, List.filter_cons, inductionHypothesis]
      by_cases refused : Refused maxHeaderSize reading
      · rw [taken_of_refused refused, if_neg (by simpa using refused), List.nil_append]
      · rw [if_pos (by simpa using refused), List.flatMap_cons]

/-- `ReadData` loses bytes when a call of `Readn` is cut short, and only then. -/
theorem keepsReads_iff {req : Request} {results : List ReadResult} {result : ReadDataResult}
    (read : req.readData false maxHeaderSize maxPostSize results = some result) :
    KeepsReads maxHeaderSize maxPostSize req results result ↔
      Connection.NoneCutShort
        ((req.readings false maxHeaderSize maxPostSize results).map (·.2)) := by
  rw [KeepsReads, Connection.delivers, List.flatMap_map, rbuf_readData read,
    List.append_cancel_left_eq, flatMap_taken_filter,
    flatMap_eq_iff_of_part fun reading _ => part_taken reading, Connection.NoneCutShort,
    List.forall_mem_map]
  constructor
  · intro all reading among
    by_cases refused : Refused maxHeaderSize reading
    · exact Connection.cutShort_eq_false_iff.mpr (.inl refused.2.1)
    · have listed : reading ∈ (req.readings false maxHeaderSize maxPostSize results).filter
          (¬ Refused maxHeaderSize ·) := List.mem_filter.mpr ⟨among, decide_eq_true refused⟩
      exact (taken_eq_iff_of_kept refused).mp (all reading listed)
  · intro all reading listed
    obtain ⟨among, kept⟩ := List.mem_filter.mp listed
    exact (taken_eq_iff_of_kept (of_decide_eq_true kept)).mpr (all reading among)

theorem keepsAllReads_iff {req : Request} {results : List ReadResult} {result : ReadDataResult}
    (read : req.readData false maxHeaderSize maxPostSize results = some result) :
    KeepsAllReads maxHeaderSize maxPostSize req results result ↔
      Connection.NoneCutShort
          ((req.readings false maxHeaderSize maxPostSize results).map (·.2)) ∧
        ∀ reading ∈ req.readings false maxHeaderSize maxPostSize results,
          ¬ Refused maxHeaderSize reading := by
  rw [KeepsAllReads, Connection.delivers, List.flatMap_map, rbuf_readData read,
    List.append_cancel_left_eq, flatMap_eq_iff_of_part fun reading _ => part_taken reading,
    Connection.NoneCutShort, List.forall_mem_map, ← forall₂_and]
  exact forall₂_congr fun reading _ => taken_eq_iff maxHeaderSize reading

end Request

namespace WebSocket

/-- What the call to `Readn` in a round returns. -/
def delivered (reading : Reading) : Option Bytes :=
  if 0 < (Connection.readn false readBufferSize reading.results).ret then
    some (Connection.readn false readBufferSize reading.results).bytes
  else
    none

/-- What `ReadData` inserts into `rbuf_`, piece by piece. -/
def pieces (ws : WebSocket) (results : List ReadResult) : List Bytes :=
  (ws.readings false results).filterMap delivered

theorem delivered_of_pos {reading : Reading}
    (some_bytes : 0 < (Connection.readn false readBufferSize reading.results).ret) :
    delivered reading = some (Connection.readn false readBufferSize reading.results).bytes :=
  if_pos some_bytes

theorem delivered_of_not_pos {reading : Reading}
    (nothing : ¬ 0 < (Connection.readn false readBufferSize reading.results).ret) :
    delivered reading = none :=
  if_neg nothing

theorem parse_of_advance {reading next : Reading} {outputs : List Empty}
    (taken : readRound false reading = .advance next outputs) :
    let parsed := (reading.ws.append
      (Connection.readn false readBufferSize reading.results).bytes).parse
    parsed.verdict = .returnsTrue ∧ parsed.state = next.ws := by
  unfold readRound frameParsed at taken
  dsimp only at taken ⊢
  split at taken
  · split at taken
    next parsed =>
      split at taken
      · cases taken
        exact ⟨parsed, rfl⟩
      · cases taken
    · cases taken
    · cases taken
  · split at taken
    · cases taken
    · cases taken

theorem ws_of_leave {reading last : Reading} {verdict : ReadExit}
    (left : readRound false reading = .leave last verdict) :
    last.ws = match delivered reading with
      | some piece => (reading.ws.append piece).parse.state
      | none => reading.ws := by
  unfold readRound frameParsed at left
  dsimp only at left
  split at left
  next some_bytes =>
    rw [delivered_of_pos some_bytes]
    split at left
    · split at left
      · cases left
      · cases left
        rfl
    · cases left
      rfl
    · cases left
      rfl
  next nothing =>
    rw [delivered_of_not_pos nothing]
    split at left
    · cases left
      rfl
    · cases left
      rfl

/-- `ReadData` runs the parser behind each piece, until it fails. -/
theorem parseChunks_of_trace (reading : Reading) :
    (reading.ws.parseChunks (((reader false).trace reading).filterMap delivered)).state =
      ((reader false).run reading).state.ws := by
  induction reading using (reader false).run_induction with
  | leave reading last verdict left =>
      rw [(reader false).trace_of_leave left, (reader false).run_of_leave left]
      have same := ws_of_leave left
      cases piece : delivered reading with
      | none =>
          rw [piece] at same
          rw [List.filterMap_cons_none piece]
          exact same.symm
      | some bytes =>
          rw [piece] at same
          rw [List.filterMap_cons_some piece, List.filterMap_nil, same]
          unfold parseChunks
          by_cases waiting : (parser.run (reading.ws.append bytes)).verdict = .returnsTrue
          · rw [parser.feed_cons_of_waits append (· = .returnsTrue) .returnsTrue waiting]
            rfl
          · rw [parser.feed_cons_of_leaves append (· = .returnsTrue) .returnsTrue waiting]
            rfl
  | advance reading next outputs taken inductionHypothesis =>
      obtain ⟨some_bytes, -⟩ := readRound_of_advance taken
      obtain ⟨waiting, same⟩ := parse_of_advance taken
      have fed := parser.feed_cons_of_waits append (· = .returnsTrue) .returnsTrue waiting
      rw [(reader false).trace_of_advance taken, (reader false).run_of_advance taken,
        List.filterMap_cons_some (delivered_of_pos some_bytes)]
      unfold parseChunks at inductionHypothesis ⊢
      unfold parse at same
      rw [fed, same]
      exact inductionHypothesis

/-- `ReadData` leaves what the parser makes of `rbuf_` with the pieces inserted one after the
other. -/
theorem parseChunks_pieces {ws : WebSocket} {results : List ReadResult} {result : ReadDataResult}
    (read : ws.readData false results = some result) :
    (ws.parseChunks (ws.pieces results)).state = result.ws := by
  have same := parseChunks_of_trace ⟨ws, results, []⟩
  unfold readData at read
  dsimp only at read
  split at read
  · cases read
    exact same
  · cases read

/-- `ReadData` inserts into `rbuf_` all that `read(2)` delivers. -/
def KeepsReads (ws : WebSocket) (results : List ReadResult) : Prop :=
  (ws.pieces results).flatten =
    Connection.delivers ((ws.readings false results).map (·.results))

theorem flatten_filterMap_delivered (readings : List Reading) :
    (readings.filterMap delivered).flatten =
      readings.flatMap fun reading => (delivered reading).getD [] := by
  induction readings with
  | nil => rfl
  | cons reading readings inductionHypothesis =>
      rw [List.flatMap_cons]
      cases piece : delivered reading with
      | none =>
          rw [List.filterMap_cons_none piece]
          exact inductionHypothesis
      | some bytes =>
          rw [List.filterMap_cons_some piece, List.flatten_cons, inductionHypothesis]
          rfl

theorem delivered_cases (reading : Reading) :
    ((delivered reading).getD [] =
        (Connection.readn false readBufferSize reading.results).bytes ∨
      (delivered reading).getD [] = []) ∧
    ((delivered reading).getD [] =
        (Connection.readn false readBufferSize reading.results).bytes ↔
      Connection.cutShort readBufferSize 0 reading.results = false) := by
  rw [Connection.cutShort_eq_false_iff]
  by_cases some_bytes : 0 < (Connection.readn false readBufferSize reading.results).ret
  · rw [delivered_of_pos some_bytes]
    exact ⟨.inl rfl, iff_of_true rfl (.inl some_bytes)⟩
  · rw [delivered_of_not_pos some_bytes, or_iff_right some_bytes]
    exact ⟨.inr rfl, eq_comm⟩

theorem keepsReads_iff (ws : WebSocket) (results : List ReadResult) :
    ws.KeepsReads results ↔
      Connection.NoneCutShort ((ws.readings false results).map (·.results)) := by
  rw [KeepsReads, pieces, flatten_filterMap_delivered, Connection.delivers, List.flatMap_map,
    flatMap_eq_iff_of_part fun reading _ => (delivered_cases reading).1,
    Connection.NoneCutShort, List.forall_mem_map]
  exact forall₂_congr fun reading _ => (delivered_cases reading).2

end WebSocket

namespace Connection

/-- A whole request, and the end of the file behind it. -/
def halfClosed : List ReadResult :=
  [.delivered 71 (ascii "ET / HTTP/1.0\r\n\r\n".toList), .ended .other]

/-- The same request, and the end of the file one call of `Readn` later. -/
def closedLater : List ReadResult :=
  [.delivered 71 (ascii "ET / HTTP/1.0\r\n\r\n".toList), .failed .other .again, .ended .other]

example : (Request.reset.readData false 1024 1024 closedLater).map (·.pushed) = some true := by
  decide +kernel

end Connection

end Mevent
