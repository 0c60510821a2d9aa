import Mevent.Request.Receiving
import Mevent.WebSocket.ReadData

/-!
# What `ReadData` makes of the reads

`Readn` returns either a number of bytes or the end of the stream.  On a plain socket it
returns fewer bytes than it is asked for only if the socket would block, so `ReadData` does
not return `AGAIN` before; and it loses what it has read when the stream ends in the same
call.
-/

namespace Mevent

open Library

namespace Connection

/-- Whether `Readn` has returned because `read(2)` has reported `EAGAIN` or `EWOULDBLOCK`, or
does so in the next call. -/
def readnBlocks (len : Nat) : (n : Nat) → List ReadResult → Bool
  | n, [] => decide ((n : Int) < asSsize len)
  | n, result :: rest =>
      if (n : Int) < asSsize len then
        match result with
        | .delivered _ more => readnBlocks len (n + (more.length + 1)) rest
        | .ended _ => false
        | .failed _ errno => decide (errno = .again)
      else
        false

/-- Whether the end of the file or an error follows bytes that `Readn` has read. -/
def cutShort (len : Nat) : (n : Nat) → List ReadResult → Bool
  | _, [] => false
  | n, result :: rest =>
      if (n : Int) < asSsize len then
        match result with
        | .delivered _ more => cutShort len (n + (more.length + 1)) rest
        | .ended _ => decide (0 < n)
        | .failed _ errno => decide (errno = .other ∧ 0 < n)
      else
        false

/-- `read(2)` delivers at most the bytes that it is asked for.  These are `len - n` when
`Readn` has read `n`; a call of `Readn` that returns is followed by the next one. -/
def Answers (len : Nat) : (n : Nat) → List ReadResult → Prop
  | _, [] => True
  | n, .delivered _ more :: rest =>
      n + (more.length + 1) ≤ len ∧ Answers len ((n + (more.length + 1)) % len) rest
  | _, .ended _ :: rest => Answers len 0 rest
  | _, .failed _ _ :: rest => Answers len 0 rest

instance answersDecidable (len : Nat) :
    (n : Nat) → (results : List ReadResult) → Decidable (Answers len n results)
  | _, [] => inferInstanceAs (Decidable True)
  | n, .delivered _ more :: rest =>
      have := answersDecidable len ((n + (more.length + 1)) % len) rest
      inferInstanceAs (Decidable (_ ∧ _))
  | _, .ended _ :: rest => answersDecidable len 0 rest
  | _, .failed _ _ :: rest => answersDecidable len 0 rest

section Readn

variable {len : Nat}

theorem answers_behind {result : ReadResult}
    (nothing : ∀ first more, result ≠ .delivered first more) {n : Nat} {rest : List ReadResult}
    (answers : Answers len n (result :: rest)) :
    Answers len 0 rest := by
  cases result with
  | delivered first more => exact absurd rfl (nothing first more)
  | ended sslError => exact answers
  | failed sslError errno => exact answers

/-- What is left to a call of `Readn`, and to the calls behind it. -/
theorem answers_readnFrom (size : asSsize len = len) {n : Nat} {results : List ReadResult}
    (within : n ≤ len) (answers : Answers len (n % len) results) :
    n + (readnFrom false len n results).bytes.length ≤ len ∧
      Answers len 0 (readnFrom false len n results).rest := by
  induction n, results using readnFrom_induction len with
  | drained n => exact ⟨within, trivial⟩
  | full n results full =>
      rw [size] at full
      have all : n = len := by omega
      rw [readnFrom_of_full (by rw [size]; exact full)]
      rw [all, Nat.mod_self] at answers
      exact ⟨within, answers⟩
  | stop n result rest room nothing =>
      obtain ⟨ret, -, same⟩ := readnFrom_stopped false room nothing rest
      rw [same]
      exact ⟨within, answers_behind nothing answers⟩
  | deliver n first more rest room inductionHypothesis =>
      rw [size] at room
      rw [Nat.mod_eq_of_lt (by omega)] at answers
      obtain ⟨fits, later⟩ := inductionHypothesis answers.1 answers.2
      rw [readnFrom_delivered (by rw [size]; exact room)]
      refine ⟨?_, later⟩
      dsimp only
      rw [List.length_append, List.length_cons]
      omega

/-- `Readn` returns fewer bytes than it is asked for only if the socket would block. -/
theorem readnBlocks_of_short (size : asSsize len = len) {n : Nat} {results : List ReadResult}
    (returned : 0 ≤ (readnFrom false len n results).ret)
    (short : n + (readnFrom false len n results).bytes.length < len) :
    readnBlocks len n results = true := by
  induction n, results using readnFrom_induction len with
  | drained n =>
      rw [readnBlocks, size]
      exact decide_eq_true (Int.ofNat_lt.mpr short)
  | full n results full =>
      rw [readnFrom_of_full full] at short
      rw [size] at full
      exact absurd (Int.ofNat_lt.mpr short) full
  | stop n result rest room nothing =>
      unfold readnBlocks
      unfold readnFrom at returned
      rw [if_pos room] at returned ⊢
      have negative : ¬ (0 : Int) ≤ -1 := by decide
      cases result with
      | delivered first more => exact absurd rfl (nothing first more)
      | ended sslError => exact absurd returned negative
      | failed sslError errno =>
          cases errno with
          | again => rfl
          | other => exact absurd returned negative
  | deliver n first more rest room inductionHypothesis =>
      rw [readnFrom_delivered room] at returned short
      rw [readnBlocks, if_pos room]
      dsimp only at returned short ⊢
      rw [List.length_append, List.length_cons] at short
      exact inductionHypothesis returned (by omega)

/-- `Readn` fails behind bytes exactly when the stream ends there. -/
theorem cutShort_iff {n : Nat} {results : List ReadResult} :
    cutShort len n results = true ↔
      (readnFrom false len n results).ret < 0 ∧
        0 < n + (readnFrom false len n results).bytes.length := by
  induction n, results using readnFrom_induction len with
  | drained n =>
      refine iff_of_false Bool.false_ne_true ?_
      rintro ⟨failed, -⟩
      exact absurd failed (Int.not_lt.mpr (Int.natCast_nonneg n))
  | full n results full =>
      have same : cutShort len n results = false := by
        cases results with
        | nil => rfl
        | cons result rest =>
            unfold cutShort
            exact if_neg full
      rw [same, readnFrom_of_full full]
      refine iff_of_false Bool.false_ne_true ?_
      rintro ⟨failed, -⟩
      exact absurd failed (Int.not_lt.mpr (Int.natCast_nonneg n))
  | stop n result rest room nothing =>
      unfold cutShort readnFrom
      rw [if_pos room, if_pos room]
      cases result with
      | delivered first more => exact absurd rfl (nothing first more)
      | ended sslError => simp [stopped]
      | failed sslError errno =>
          cases errno with
          | again => simp [stopped]
          | other => simp [stopped]
  | deliver n first more rest room inductionHypothesis =>
      rw [cutShort, if_pos room, readnFrom_delivered room]
      dsimp only
      rw [inductionHypothesis, List.length_append, List.length_cons]
      refine and_congr_right fun _ => ?_
      omega

end Readn

/-- A call of `Readn` that does not fill the buffer has drained the socket. -/
theorem readnBlocks_of_ret {results : List ReadResult} (answers : Answers readBufferSize 0 results)
    (returned : 0 ≤ (readn false readBufferSize results).ret)
    (short : (readn false readBufferSize results).ret ≠ readBufferSize) :
    readnBlocks readBufferSize 0 results = true := by
  have within := (answers_readnFrom asSsize_readBufferSize (Nat.zero_le _) answers).1
  apply readnBlocks_of_short asSsize_readBufferSize returned
  rcases ret_readnFrom false readBufferSize 0 results with failed | counted
  · unfold readn at returned
    omega
  · unfold readn at short
    omega

theorem readnBlocks_of_nothing {results : List ReadResult}
    (answers : Answers readBufferSize 0 results)
    (unfailed : ¬ (readn false readBufferSize results).ret < 0)
    (nothing : ¬ 0 < (readn false readBufferSize results).ret) :
    readnBlocks readBufferSize 0 results = true := by
  apply readnBlocks_of_ret answers (Int.not_lt.mp unfailed)
  unfold readBufferSize at nothing ⊢
  omega

theorem answers_readn {results : List ReadResult} (answers : Answers readBufferSize 0 results) :
    Answers readBufferSize 0 (readn false readBufferSize results).rest :=
  (answers_readnFrom asSsize_readBufferSize (Nat.zero_le _) answers).2

/-- The bytes that `read(2)` delivers in calls of `Readn`. -/
def delivers (calls : List (List ReadResult)) : Bytes :=
  calls.flatMap fun results => (readn false readBufferSize results).bytes

/-- The last of these calls of `Readn` has drained the socket. -/
def Drained (calls : List (List ReadResult)) : Prop :=
  ∃ last, calls.getLast? = some last ∧ readnBlocks readBufferSize 0 last = true

/-- None of these calls of `Readn` loses bytes to the end of the file or an error. -/
def NoneCutShort (calls : List (List ReadResult)) : Prop :=
  ∀ results ∈ calls, cutShort readBufferSize 0 results = false

instance (calls : List (List ReadResult)) : Decidable (NoneCutShort calls) :=
  inferInstanceAs (Decidable (∀ results ∈ calls, _))

theorem drained_concat {calls : List (List ReadResult)} {last : List ReadResult}
    (blocks : readnBlocks readBufferSize 0 last = true) : Drained (calls ++ [last]) :=
  ⟨last, List.getLast?_concat, blocks⟩

theorem Drained.append {calls : List (List ReadResult)} (drained : Drained calls)
    (before : List (List ReadResult)) : Drained (before ++ calls) := by
  obtain ⟨last, isLast, blocks⟩ := drained
  refine ⟨last, ?_, blocks⟩
  rw [List.getLast?_append, isLast, Option.some_or]

end Connection

namespace Request

/-- The calls of `Readn` behind the head, each with the request at that time. -/
def bodyReadings (tls : Bool) (maxPostSize : Nat) (reading : Reading) : List Reading :=
  if reading.1.status = .bodyReceiving ∧ reading.1.contentLength ≤ maxPostSize ∧
      reading.1.bodyComplete = false then
    (bodyReader tls).trace reading
  else
    []

/-- The calls of `Readn` in a call to `ReadData`, each with the request at that time. -/
def readings (tls : Bool) (maxHeaderSize maxPostSize : Nat) (req : Request)
    (results : List ReadResult) : List Reading :=
  if req.status = .headerReceiving then
    let head := (headerReader tls maxHeaderSize).run (req, results)
    (headerReader tls maxHeaderSize).trace (req, results) ++
      if head.verdict = .proceeds then bodyReadings tls maxPostSize head.state else []
  else
    bodyReadings tls maxPostSize (req, results)

theorem bodyReadings_of_status {tls : Bool} {maxPostSize : Nat} {reading : Reading}
    (other : reading.1.status ≠ .bodyReceiving) : bodyReadings tls maxPostSize reading = [] :=
  if_neg fun awaits => other awaits.1

/-- What `ReadData` returns, with its calls of `Readn`. -/
theorem readings_cases {tls : Bool} {maxHeaderSize maxPostSize : Nat} {req : Request}
    {results : List ReadResult} {result : ReadDataResult}
    (read : req.readData tls maxHeaderSize maxPostSize results = some result) :
    let head := (headerReader tls maxHeaderSize).run (req, results)
    let headReadings := (headerReader tls maxHeaderSize).trace (req, results)
    let readings := req.readings tls maxHeaderSize maxPostSize results
    req.status = .headerReceiving ∧ head.verdict = .proceeds ∧
        result = readBody tls maxPostSize head.state ∧
        readings = headReadings ++ bodyReadings tls maxPostSize head.state ∨
      (∃ status, req.status = .headerReceiving ∧ head.verdict = .returns status ∧
        result = ⟨head.state.1, status, false⟩ ∧ readings = headReadings) ∨
      req.status = .bodyReceiving ∧ result = readBody tls maxPostSize (req, results) ∧
        readings = bodyReadings tls maxPostSize (req, results) ∨
      ¬ req.Receiving ∧ result = ⟨req, .error, false⟩ ∧ readings = [] := by
  intro head headReadings readings
  unfold readData at read
  by_cases at_head : req.status = .headerReceiving
  · have readings_eq : readings = headReadings ++
        if head.verdict = .proceeds then bodyReadings tls maxPostSize head.state else [] :=
      if_pos at_head
    rw [if_pos at_head] at read
    cases verdict : head.verdict with
    | proceeds =>
        simp only [head, verdict, Option.some_inj] at read
        rw [verdict, if_pos rfl] at readings_eq
        exact .inl ⟨at_head, rfl, read.symm, readings_eq⟩
    | returns status =>
        simp only [head, verdict, Option.some_inj] at read
        rw [verdict, if_neg nofun, List.append_nil] at readings_eq
        exact .inr (.inl ⟨status, at_head, rfl, read.symm, readings_eq⟩)
    | outOfRange =>
        simp only [head, verdict] at read
        cases read
  · have readings_eq : readings = bodyReadings tls maxPostSize (req, results) := if_neg at_head
    rw [if_neg at_head] at read
    by_cases at_body : req.status = .bodyReceiving
    · rw [if_pos at_body, Option.some_inj] at read
      exact .inr (.inr (.inl ⟨at_body, read.symm, readings_eq⟩))
    · rw [if_neg at_body, Option.some_inj] at read
      rw [bodyReadings_of_status at_body] at readings_eq
      exact .inr (.inr (.inr ⟨not_or.mpr ⟨at_head, at_body⟩, read.symm, readings_eq⟩))

theorem bodyPieces_eq (tls : Bool) (maxPostSize : Nat) (reading : Reading) :
    bodyPieces tls maxPostSize reading =
      (bodyReadings tls maxPostSize reading).filterMap (delivered tls) := by
  unfold bodyPieces bodyReadings
  split
  · rfl
  · rfl

theorem pieces_eq (tls : Bool) (maxHeaderSize maxPostSize : Nat) (req : Request)
    (results : List ReadResult) :
    req.pieces tls maxHeaderSize maxPostSize results =
      (req.readings tls maxHeaderSize maxPostSize results).filterMap (delivered tls) := by
  unfold pieces readings headerPieces
  split
  · dsimp only
    rw [List.filterMap_append]
    split
    · rw [bodyPieces_eq]
    · rfl
  · exact bodyPieces_eq _ _ _

section Draining

variable {tls : Bool} {maxHeaderSize maxPostSize : Nat}

theorem headerRound_leaves {reading last : Reading} {verdict : ReadExit}
    (left : headerRound tls maxHeaderSize reading = .leave last verdict) :
    let got := Connection.readn tls readBufferSize reading.2
    last.2 = got.rest ∧ verdict ≠ .returns .again ∧
      (verdict = .proceeds →
        last.1.status = .bodyReceiving ∨ 0 ≤ got.ret ∧ got.ret ≠ readBufferSize) := by
  unfold headerRound headerParsed at left
  dsimp only at left
  split at left
  next some_bytes =>
    split at left
    · cases left
      exact ⟨rfl, by decide, nofun⟩
    · split at left
      · cases left
        exact ⟨rfl, by decide, fun _ => .inl rfl⟩
      · cases left
        exact ⟨rfl, by decide, nofun⟩
      · cases left
        exact ⟨rfl, by decide, nofun⟩
      · split at left
        · cases left
        next short =>
          cases left
          exact ⟨rfl, by decide, fun _ => .inr ⟨some_bytes.le, short⟩⟩
  next nothing =>
    split at left
    · cases left
      exact ⟨rfl, by decide, nofun⟩
    next unfailed =>
      cases left
      refine ⟨rfl, by decide, fun _ => .inr ⟨Int.not_lt.mp unfailed, ?_⟩⟩
      unfold readBufferSize at nothing ⊢
      omega

theorem bodyRound_drained {reading last : Reading} {verdict : ReadExit}
    (answers : Connection.Answers readBufferSize 0 reading.2)
    (left : bodyRound false reading = .leave last verdict) :
    verdict = .returns .closed ∨ verdict = .proceeds ∧
      (last.1.status = .bodyReceived ∨
        Connection.readnBlocks readBufferSize 0 reading.2 = true) := by
  unfold bodyRound at left
  dsimp only at left
  split at left
  next some_bytes =>
    split at left
    · cases left
      exact .inr ⟨rfl, .inl rfl⟩
    · split at left
      · cases left
      next short =>
        cases left
        exact .inr ⟨rfl, .inr (Connection.readnBlocks_of_ret answers some_bytes.le short)⟩
  next nothing =>
    split at left
    · cases left
      exact .inl rfl
    next unfailed =>
      cases left
      exact .inr ⟨rfl, .inr (Connection.readnBlocks_of_nothing answers unfailed nothing)⟩

/-- The call of `Readn` with which a loop of `ReadData` is left. -/
theorem exists_last_reading (scanner : Scanner Reading Empty ReadExit)
    (advances : ∀ reading next outputs, scanner.round reading = .advance next outputs →
      next.2 = (Connection.readn false readBufferSize reading.2).rest)
    {reading : Reading} (answers : Connection.Answers readBufferSize 0 reading.2) :
    ∃ front last, scanner.trace reading = front ++ [last] ∧
      Connection.Answers readBufferSize 0 last.2 ∧
      scanner.round last = .leave (scanner.run reading).state (scanner.run reading).verdict := by
  obtain ⟨front, last, same, -, left⟩ := scanner.exists_last_trace reading
  have answered : ∀ visited ∈ scanner.trace reading,
      Connection.Answers readBufferSize 0 visited.2 := by
    refine scanner.trace_invariant (Connection.Answers readBufferSize 0 ·.2) ?_ answers
    intro state next outputs answers taken
    rw [advances state next outputs taken]
    exact Connection.answers_readn answers
  refine ⟨front, last, same, answered last ?_, left⟩
  rw [same]
  exact List.mem_concat_self

theorem drained_of_headerReader {reading : Reading}
    (answers : Connection.Answers readBufferSize 0 reading.2)
    (proceeds : ((headerReader false maxHeaderSize).run reading).verdict = .proceeds) :
    let head := (headerReader false maxHeaderSize).run reading
    Connection.Answers readBufferSize 0 head.state.2 ∧
      (head.state.1.status = .bodyReceiving ∨
        Connection.Drained
          (((headerReader false maxHeaderSize).trace reading).map (·.2))) := by
  have advances : ∀ reading next outputs,
      (headerReader false maxHeaderSize).round reading = .advance next outputs →
        next.2 = (Connection.readn false readBufferSize reading.2).rest := by
    intro reading next outputs taken
    rw [(headerRound_of_advance taken).2]
  obtain ⟨front, last, same, here, left⟩ := exists_last_reading _ advances answers
  obtain ⟨rest, -, ends⟩ := headerRound_leaves left
  refine ⟨?_, (ends proceeds).imp_right fun short => ?_⟩
  · rw [rest]
    exact Connection.answers_readn here
  · rw [same, List.map_append]
    exact Connection.drained_concat (Connection.readnBlocks_of_ret here short.1 short.2)

theorem drained_of_bodyReader {reading : Reading}
    (answers : Connection.Answers readBufferSize 0 reading.2) :
    let read := (bodyReader false).run reading
    read.verdict = .returns .closed ∨ read.verdict = .proceeds ∧
      (read.state.1.status = .bodyReceived ∨
        Connection.Drained (((bodyReader false).trace reading).map (·.2))) := by
  have advances : ∀ reading next outputs,
      (bodyReader false).round reading = .advance next outputs →
        next.2 = (Connection.readn false readBufferSize reading.2).rest := by
    intro reading next outputs taken
    rw [(bodyRound_of_advance taken).2]
  obtain ⟨front, last, same, here, left⟩ := exists_last_reading _ advances answers
  refine (bodyRound_drained here left).imp_right (And.imp_right (Or.imp_right fun blocks => ?_))
  rw [same, List.map_append]
  exact Connection.drained_concat blocks

theorem drained_of_readBody {reading : Reading}
    (answers : Connection.Answers readBufferSize 0 reading.2)
    (again : (readBody false maxPostSize reading).status = .again)
    (incomplete : (readBody false maxPostSize reading).req.status ≠ .bodyReceived)
    (body : reading.1.status = .bodyReceiving) :
    Connection.Drained ((bodyReadings false maxPostSize reading).map (·.2)) := by
  unfold readBody at again incomplete
  unfold bodyReadings
  rw [if_pos body] at again incomplete
  by_cases tooLarge : maxPostSize < reading.1.contentLength
  · rw [if_pos tooLarge] at again
    cases again
  · rw [if_neg tooLarge] at again incomplete
    by_cases complete : reading.1.bodyComplete
    · rw [if_pos complete] at incomplete
      exact absurd rfl incomplete
    · rw [if_neg complete] at again incomplete
      rw [if_pos ⟨body, Nat.not_lt.mp tooLarge, Bool.eq_false_iff.mpr complete⟩]
      rcases drained_of_bodyReader answers with closed | ⟨proceeds, received | drained⟩
      · simp only [closed] at again
        cases again
      · simp only [proceeds] at incomplete
        exact absurd received incomplete
      · exact drained

/-- `ReadData` that returns `AGAIN` on a request that is not complete has drained the
socket. -/
theorem drained_of_readData {req : Request} {results : List ReadResult} {result : ReadDataResult}
    (answers : Connection.Answers readBufferSize 0 results)
    (read : req.readData false maxHeaderSize maxPostSize results = some result)
    (again : result.status = .again) (incomplete : result.req.status ≠ .bodyReceived) :
    Connection.Drained
      ((req.readings false maxHeaderSize maxPostSize results).map (·.2)) := by
  rcases readings_cases read with ⟨-, verdict, rfl, readings_eq⟩ |
    ⟨status, -, verdict, rfl, -⟩ | ⟨body, rfl, readings_eq⟩ | ⟨-, rfl, -⟩
  · obtain ⟨answersBehind, ends⟩ := drained_of_headerReader answers verdict
    rw [readings_eq, List.map_append]
    by_cases body :
      ((headerReader false maxHeaderSize).run (req, results)).state.1.status = .bodyReceiving
    · exact (drained_of_readBody answersBehind again incomplete body).append _
    · rw [bodyReadings_of_status body, List.map_nil, List.append_nil]
      exact ends.resolve_left body
  · obtain ⟨last, -, left⟩ :=
      (headerReader false maxHeaderSize).exists_visits_leave (req, results)
    rw [verdict] at left
    cases again
    exact absurd rfl (headerRound_leaves left).2.1
  · rw [readings_eq]
    exact drained_of_readBody answers again incomplete body
  · cases again

end Draining

end Request

namespace WebSocket

/-- The calls of `Readn` in a call to `ReadData`. -/
def readings (tls : Bool) (ws : WebSocket) (results : List ReadResult) : List Reading :=
  (reader tls).trace ⟨ws, results, []⟩

/-- `ReadData` returns `AGAIN` when the socket is drained. -/
theorem readRound_drained {reading last : Reading}
    (answers : Connection.Answers readBufferSize 0 reading.results)
    (left : readRound false reading = .leave last (.returns .again)) :
    Connection.readnBlocks readBufferSize 0 reading.results = true := by
  unfold readRound frameParsed at left
  dsimp only at left
  split at left
  next some_bytes =>
    split at left
    · split at left
      · cases left
      next short => exact Connection.readnBlocks_of_ret answers some_bytes.le short
    · cases left
    · cases left
  next nothing =>
    split at left
    · cases left
    next unfailed => exact Connection.readnBlocks_of_nothing answers unfailed nothing

theorem drained_of_readData {ws : WebSocket} {results : List ReadResult} {result : ReadDataResult}
    (answers : Connection.Answers readBufferSize 0 results)
    (read : ws.readData false results = some result) (again : result.status = .again) :
    Connection.Drained ((ws.readings false results).map (·.results)) := by
  obtain ⟨front, last, same, -, left⟩ := (reader false).exists_last_trace ⟨ws, results, []⟩
  have answered : ∀ visited ∈ (reader false).trace ⟨ws, results, []⟩,
      Connection.Answers readBufferSize 0 visited.results := by
    refine (reader false).trace_invariant (Connection.Answers readBufferSize 0 ·.results) ?_
      answers
    intro state next outputs answers taken
    rw [(readRound_of_advance taken).2]
    exact Connection.answers_readn answers
  have here := answered last (by rw [same]; exact List.mem_concat_self)
  unfold readData at read
  dsimp only at read
  split at read
  next status verdict =>
    cases read
    cases again
    rw [verdict] at left
    rw [readings, same, List.map_append]
    exact Connection.drained_concat (readRound_drained here left)
  next => cases read

end WebSocket

namespace Connection

/-- On a plain socket, `ReadData` returns `AGAIN` for a request that is not complete, and for
a WebSocket, only when the last call of `read(2)` has reported that it would block. -/
theorem drained_of_again {maxHeaderSize maxPostSize : Nat} {req : Request} {ws : WebSocket}
    {results : List ReadResult} (answers : Answers readBufferSize 0 results) :
    (∀ result, req.readData false maxHeaderSize maxPostSize results = some result →
      result.status = .again → result.req.status ≠ .bodyReceived →
        Drained ((req.readings false maxHeaderSize maxPostSize results).map (·.2))) ∧
    (∀ result, ws.readData false results = some result → result.status = .again →
      Drained ((ws.readings false results).map (·.results))) :=
  ⟨fun _ read again incomplete => Request.drained_of_readData answers read again incomplete,
    fun _ read again => WebSocket.drained_of_readData answers read again⟩

def twoBytes : List ReadResult := [.delivered 71 [69], .failed .other .again]

theorem drained_of_again_two_bytes :
    Drained ((Request.reset.readings false 1024 1024 twoBytes).map (·.2)) ∧
      Drained ((WebSocket.reset.readings false twoBytes).map (·.results)) := by
  have request : ∃ result, Request.reset.readData false 1024 1024 twoBytes = some result ∧
      result.status = .again ∧ result.req.status ≠ .bodyReceived := by
    refine ⟨_, rfl, ?_⟩
    decide +kernel
  have frame : ∃ result, WebSocket.reset.readData false twoBytes = some result ∧
      result.status = .again := by
    refine ⟨_, rfl, ?_⟩
    decide +kernel
  obtain ⟨result, read, again, incomplete⟩ := request
  obtain ⟨message, readFrame, againFrame⟩ := frame
  have answers : Answers readBufferSize 0 twoBytes := by decide +kernel
  have drained := @drained_of_again 1024 1024 .reset .reset twoBytes answers
  exact ⟨drained.1 result read again incomplete, drained.2 message readFrame againFrame⟩

end Connection

end Mevent
