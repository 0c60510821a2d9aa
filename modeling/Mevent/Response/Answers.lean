import Mevent.Response.Framing

/-!
# The answer in the write queue

What a client reads when it is sent the write queue: a head up to the first blank line, and the
body behind it.  The answer is complete if one line of the head gives its length.
-/

namespace Mevent

open Library

namespace Response

/-- The lines of a head behind the status line. -/
def headLines (head : Bytes) : List Bytes := (cut 13 10 head).tail

/-- A text is one response: its head ends at the first blank line, and of the lines of the head
just one announces a length, which is that of the body. -/
structure ReadsAs (text head body : Bytes) : Prop where
  split : FirstSplit blankLine text head body
  protocol : protocol <+: head
  contentLength : ∃ value, (headLines head).filterMap Request.contentLengthOf = [value] ∧
    Request.decimal value = some body.length

/-- A text is one complete response with this body. -/
def Complete (text body : Bytes) : Prop := ∃ head, ReadsAs text head body

theorem ne_nil_of_firstSplit {status head body line : Bytes} {lines : List Bytes}
    (split : FirstSplit blankLine (message status lines body) head body)
    (member : line ∈ lines) : line ≠ [] := by
  rintro rfl
  obtain ⟨earlier, later, rfl⟩ := List.append_of_mem member
  obtain ⟨front, ends⟩ := suffix_terminate crlf status earlier
  have written : terminate crlf (status :: (earlier ++ [] :: later)) =
      front ++ blankLine ++ terminate crlf later := by
    rw [← List.cons_append, terminate_append, ← ends, terminate_cons, blankLine]
    simp only [List.nil_append, List.append_assoc]
  have ahead : head ++ crlf = terminate crlf (status :: (earlier ++ [] :: later)) := by
    have same := split.split
    rw [message, blankLine, ← List.append_assoc head] at same
    exact (List.append_cancel_right (List.append_cancel_right same)).symm
  have early := split.first front (terminate crlf later ++ crlf ++ body) (by
    rw [message, written]
    simp only [List.append_assoc])
  have lengths := congrArg List.length (ahead.trans written)
  have two : crlf.length = 2 ∧ blankLine.length = 4 := by decide
  simp only [List.length_append] at lengths
  omega

theorem exists_split_message {words body : Bytes} {lines : List Bytes}
    (statusClean : Clean (statusLine words)) (clean : ∀ line ∈ lines, line ≠ [] ∧ Clean line) :
    ∃ head, FirstSplit blankLine (message (statusLine words) lines body) head body ∧
      protocol <+: head ∧ headLines head = lines := by
  obtain ⟨head, ends⟩ := suffix_terminate crlf (statusLine words) lines
  have nonempty : statusLine words ≠ [] := fun empty =>
    absurd (List.append_eq_nil_iff.mp empty).1 (by decide)
  have all : ∀ line ∈ statusLine words :: lines, line ≠ [] ∧ Clean line := by
    intro line member
    rcases List.mem_cons.mp member with rfl | listed
    · exact ⟨nonempty, statusClean⟩
    · exact clean line listed
  have parts : cut 13 10 head = statusLine words :: lines :=
    cut_of_terminate (by decide) (fun line member => (all line member).2) ends
  refine ⟨head, firstSplit_terminate (by decide) all ends, ?_, ?_⟩
  · have starts : protocol <+: head ++ crlf := by
      rw [ends, terminate_cons, statusLine]
      simp only [List.append_assoc]
      exact List.prefix_append _ _
    have lengths := congrArg List.length ends
    rw [terminate_cons, statusLine] at lengths
    simp only [List.length_append] at lengths
    exact List.prefix_of_prefix_length_le starts (List.prefix_append head crlf) (by omega)
  · rw [headLines, parts, List.tail_cons]

/-- A message with clean lines is complete when none of them is empty and just one of them
announces a length, that of the body. -/
theorem complete_message_iff {words body : Bytes} {lines : List Bytes}
    (statusClean : Clean (statusLine words)) (clean : ∀ line ∈ lines, Clean line) :
    Complete (message (statusLine words) lines body) body ↔
      (∀ line ∈ lines, line ≠ []) ∧
        ∃ value, lines.filterMap Request.contentLengthOf = [value] ∧
          Request.decimal value = some body.length := by
  constructor
  · rintro ⟨head, reads⟩
    have nonempty : ∀ line ∈ lines, line ≠ [] := fun line =>
      ne_nil_of_firstSplit reads.split
    obtain ⟨own, split, -, listed⟩ := exists_split_message statusClean
      fun line member => ⟨nonempty line member, clean line member⟩
    obtain ⟨rfl, -⟩ := reads.split.unique split
    have announced := reads.contentLength
    rw [listed] at announced
    exact ⟨nonempty, announced⟩
  · rintro ⟨nonempty, announced⟩
    obtain ⟨head, split, starts, listed⟩ := exists_split_message statusClean
      fun line member => ⟨nonempty line member, clean line member⟩
    exact ⟨head, split, starts, listed ▸ announced⟩

theorem message_flatMap_cut (status body : Bytes) (lines : List Bytes) :
    message status (lines.flatMap (cut 13 10)) body = message status lines body := by
  have same : terminate crlf (lines.flatMap (cut 13 10)) = terminate crlf lines := by
    induction lines with
    | nil => rfl
    | cons line lines inductionHypothesis =>
        rw [List.flatMap_cons, terminate_append, inductionHypothesis, terminate_cons]
        exact congrArg (· ++ terminate crlf lines) (terminate_cut line)
  rw [message, message, terminate_cons, terminate_cons, same]

/-- The page of an error message and what is queued behind it. -/
theorem complete_errorText_iff {date : Bytes} (cleanDate : Clean date) (code : Int)
    (behind body : Bytes) :
    Complete (errorText code date ++ behind) body ↔
      code ≠ 400 ∧ behind = [] ∧ body = errorPage (errorWords code) := by
  have clean : ∀ line ∈ (errorHeaders code date).map fieldLine, Clean line := by
    intro line member
    obtain ⟨header, given, rfl⟩ := List.mem_map.mp member
    exact clean_errorHeaders code cleanDate header given
  have nonempty : ∀ line ∈ (errorHeaders code date).map fieldLine, line ≠ [] := by
    intro line member
    obtain ⟨header, -, rfl⟩ := List.mem_map.mp member
    exact fieldLine_ne_nil header
  have text : errorText code date ++ behind = message (statusLine (errorWords code))
      ((errorHeaders code date).map fieldLine) (errorPage (errorWords code) ++ behind) := by
    rw [errorText_eq_message, message, message, List.append_assoc]
  have whole : ∀ other, Complete (errorText code date ++ behind) other →
      other = errorPage (errorWords code) ++ behind := by
    rintro other ⟨head, reads⟩
    obtain ⟨own, split, -⟩ := @exists_split_message _ (errorPage (errorWords code) ++ behind) _
      (clean_statusLine code).2 fun line member => ⟨nonempty line member, clean line member⟩
    exact ((text ▸ reads.split).unique split).2
  have lengths : Complete (errorText code date ++ behind)
      (errorPage (errorWords code) ++ behind) ↔
        (errorPage (measuredWords code)).length =
          (errorPage (errorWords code)).length + behind.length := by
    rw [text, complete_message_iff (clean_statusLine code).2 clean, and_iff_right nonempty,
      contentLengths_errorHeaders]
    simp [decimal_toString]
  have sizes : (errorPage (measuredWords code)).length =
      (errorPage (errorWords code)).length + behind.length ↔ code ≠ 400 ∧ behind = [] := by
    by_cases bad : code = 400
    · subst bad
      have shorter : (errorPage (measuredWords 400)).length <
          (errorPage (errorWords 400)).length := by decide +kernel
      exact iff_of_false (by omega) (fun both => both.1 rfl)
    · simp [measuredWords, bad, List.length_eq_zero_iff]
  constructor
  · intro complete
    have same := whole body complete
    subst same
    obtain ⟨other, rfl⟩ := sizes.mp (lengths.mp complete)
    exact ⟨other, rfl, List.append_nil _⟩
  · rintro ⟨other, rfl, rfl⟩
    have complete := lengths.mpr (sizes.mpr ⟨other, rfl⟩)
    rwa [List.append_nil (errorPage _)] at complete

/-- The lines that the fields of a handler take up in the head. -/
def keptLines (calls : List ResponseCall) : List Bytes :=
  ((headersKept calls).map fieldLine).flatMap (cut 13 10)

/-- The fields of a handler neither end the head nor announce a length. -/
def KeepsHead (calls : List ResponseCall) : Prop :=
  ∀ line ∈ keptLines calls, line ≠ [] ∧ Request.contentLengthOf line = none

instance (calls : List ResponseCall) : Decidable (KeepsHead calls) :=
  inferInstanceAs (Decidable (∀ line ∈ keptLines calls, _))

theorem flatMap_cut_of_clean {headers : List (Bytes × Bytes)}
    (clean : ∀ header ∈ headers, Clean (fieldLine header)) :
    (headers.map fieldLine).flatMap (cut 13 10) = headers.map fieldLine := by
  have single : ∀ line ∈ headers.map fieldLine, cut 13 10 line = [line] := by
    intro line member
    obtain ⟨header, given, rfl⟩ := List.mem_map.mp member
    exact cut_of_clean (clean header given)
  rw [List.flatMap_congr single, List.flatMap_singleton']

/-- The lines of an answer, of which `Response` adds some itself. -/
theorem exists_answerLines (calls : List ResponseCall) (length : Nat) {date : Bytes}
    (cleanDate : Clean date) :
    ∃ first last, ((answerHeaders calls length date).map fieldLine).flatMap (cut 13 10) =
        first ++ (keptLines calls ++ fieldLine (contentLengthField, toString length) :: last) ∧
      ∀ line ∈ first ++ last, line ≠ [] ∧ Request.contentLengthOf line = none := by
  have added : ∀ header ∈ defaultHeaders date, Clean (fieldLine header) ∧ ¬ NamesLength header.1 :=
    fun _ member => clean_defaultHeaders cleanDate member
  have lengthLine : Clean (fieldLine (contentLengthField, toString length)) := by
    have lengthName : Clean contentLengthField := by decide +kernel
    exact (clean_fieldLine_iff _).mpr ⟨lengthName, clean_toString length⟩
  have connection : Clean (fieldLine (connectionField, ascii "close".toList)) ∧
      ¬ NamesLength connectionField := by decide +kernel
  refine ⟨((defaultHeaders date).filter fun header =>
      ∀ set ∈ headersSet calls, set.1 ≠ header.1).map fieldLine,
    [fieldLine (connectionField, ascii "close".toList)], ?_, ?_⟩
  · rw [answerHeaders, List.map_append, List.flatMap_append,
      flatMap_cut_of_clean fun header member => (added header (List.mem_filter.mp member).1).1,
      List.map_append, List.map_append, List.flatMap_append, List.flatMap_append]
    simp only [List.map_cons, List.map_nil, List.flatMap_cons, List.flatMap_nil,
      cut_of_clean lengthLine, cut_of_clean connection.1, List.append_nil, List.append_assoc,
      List.singleton_append, keptLines]
  · intro line member
    rcases List.mem_append.mp member with default | closing
    · obtain ⟨header, listed, rfl⟩ := List.mem_map.mp default
      exact ⟨fieldLine_ne_nil header,
        contentLengthOf_other (added header (List.mem_filter.mp listed).1).2⟩
    · rw [List.mem_singleton.mp closing]
      exact ⟨fieldLine_ne_nil _, contentLengthOf_other connection.2⟩

/-- What `Response::Flush` queues is complete exactly when the fields of the handler keep to the
head. -/
theorem complete_flush_iff {date : Bytes} (cleanDate : Clean date) (calls : List ResponseCall)
    (written : (afterCalls calls).wbuf ≠ []) :
    Complete ((afterCalls calls).flush date).2.flatten (afterCalls calls).wbuf ↔
      KeepsHead calls := by
  have status : Clean (statusLine (ascii "200 OK".toList)) := by decide +kernel
  have clean : ∀ line ∈ (((afterCalls calls).announced.madeHeaders date).map fieldLine).flatMap
      (cut 13 10), Clean line := by
    intro line member
    obtain ⟨whole, -, listed⟩ := List.mem_flatMap.mp member
    exact clean_of_mem_cut listed
  have same := ((madeHeaders_perm calls date).map fieldLine).flatMap_right (cut 13 10)
  obtain ⟨first, last, lines, own⟩ :=
    exists_answerLines calls (afterCalls calls).wbuf.length cleanDate
  rw [lines] at same
  have ownLengths : ∀ line ∈ first ++ last, Request.contentLengthOf line = none :=
    fun line member => (own line member).2
  have lengths := same.filterMap Request.contentLengthOf
  have firstNone : first.filterMap Request.contentLengthOf = [] :=
    List.filterMap_eq_nil_iff.mpr fun line member =>
      ownLengths line (List.mem_append_left _ member)
  have lastNone : last.filterMap Request.contentLengthOf = [] :=
    List.filterMap_eq_nil_iff.mpr fun line member =>
      ownLengths line (List.mem_append_right _ member)
  rw [List.filterMap_append, List.filterMap_append, List.filterMap_cons, contentLengthOf_toString,
    firstNone, lastNone, List.nil_append] at lengths
  rw [flush_eq_message _ date written, ← message_flatMap_cut, complete_message_iff status clean]
  constructor
  · rintro ⟨nonempty, value, single, -⟩ line member
    rw [single] at lengths
    have none : (keptLines calls).filterMap Request.contentLengthOf = [] := by
      have count := lengths.length_eq
      rw [List.length_append] at count
      exact List.length_eq_zero_iff.mp (by simpa using count.symm)
    refine ⟨nonempty line (same.mem_iff.mpr ?_), List.filterMap_eq_nil_iff.mp none line member⟩
    exact List.mem_append_right _ (List.mem_append_left _ member)
  · intro keeps
    have none : (keptLines calls).filterMap Request.contentLengthOf = [] :=
      List.filterMap_eq_nil_iff.mpr fun line member => (keeps line member).2
    rw [none, List.nil_append] at lengths
    refine ⟨?_, _, List.perm_singleton.mp lengths, decimal_toString _⟩
    intro line member
    rcases List.mem_append.mp (same.mem_iff.mp member) with added | later
    · exact (own line (List.mem_append_left _ added)).1
    · rcases List.mem_append.mp later with kept | behind
      · exact (keeps line kept).1
      · rcases List.mem_cons.mp behind with rfl | closing
        · exact fieldLine_ne_nil _
        · exact (own line (List.mem_append_right _ closing)).1

theorem not_complete_nil (body : Bytes) : ¬ Complete [] body := by
  rintro ⟨head, reads⟩
  have lengths := congrArg List.length reads.split.split
  have four : blankLine.length = 4 := by decide
  simp only [List.length_append, List.length_nil] at lengths
  omega

theorem errorText_ne_nil (code : Int) (date : Bytes) : errorText code date ≠ [] := by
  intro empty
  rw [errorText_eq_message] at empty
  have behind := (List.append_eq_nil_iff.mp empty).1
  exact absurd (List.append_eq_nil_iff.mp behind).2 (by decide)

/-- `Response::Flush` queues no empty string, and nothing if nothing is written. -/
theorem flush_of_written {resp : Response} (written : resp.wbuf ≠ []) (date : Bytes) :
    (resp.flush date).2 ≠ [] ∧ ∀ str ∈ (resp.flush date).2, str ≠ [] := by
  unfold flush
  rw [if_neg written]
  refine ⟨List.cons_ne_nil _ _, ?_⟩
  intro str member
  simp only [List.mem_cons, List.not_mem_nil, or_false] at member
  rcases member with rfl | rfl
  · intro empty
    rw [makeHeader_eq_terminate] at empty
    exact absurd (List.append_eq_nil_iff.mp empty).2 (by decide)
  · exact written

theorem flush_of_nothing {resp : Response} (nothing : resp.wbuf = []) (date : Bytes) :
    (resp.flush date).2 = [] := by
  unfold flush
  rw [if_pos nothing]

theorem wbuf_foldl_respond (resp : Response) (calls : List ResponseCall) :
    (calls.foldl respond resp).wbuf = calls.foldl ResponseCall.writtenAfter resp.wbuf := by
  induction calls generalizing resp with
  | nil => rfl
  | cons call calls inductionHypothesis =>
      rw [List.foldl_cons, List.foldl_cons, inductionHypothesis]
      congr 1
      cases call with
      | setHeader field value | addHeader field value =>
          simp only [respond, setHeader, addHeader, ResponseCall.writtenAfter]
          split
          · rfl
          · rfl
      | _ => rfl

theorem wbuf_afterCalls (calls : List ResponseCall) :
    (afterCalls calls).wbuf = ResponseCall.writtenLast calls :=
  wbuf_foldl_respond .reset calls

end Response

namespace ResponseCall

/-- The handler asks for one error message, the code of which is not 400, and writes nothing
behind it; or it asks for none and writes something, with header fields that keep to the
head. -/
def AnswersOnce (calls : List ResponseCall) : Prop :=
  (∃ error, errorsOf calls = [error] ∧ error.1 ≠ 400) ∧ writtenLast calls = [] ∨
    errorsOf calls = [] ∧ writtenLast calls ≠ [] ∧ Response.KeepsHead calls

/-- What the handler may answer with: the page of one of its error messages, or what it has
written. -/
def bodies (calls : List ResponseCall) : List Bytes :=
  (errorsOf calls).map (fun error => Response.errorPage (Response.errorWords error.1)) ++
    [writtenLast calls]

end ResponseCall

namespace Connection

/-- The write queue holds one complete response, with a body that the handler means. -/
def QueuesOneResponse (conn : Connection) (calls : List ResponseCall) : Prop :=
  ∃ body ∈ ResponseCall.bodies calls, Response.Complete conn.queued.flatten body

/-- What the calls of a handler leave of a connection. -/
structure Answering (start : Connection) (calls : List ResponseCall) (conn : Connection) :
    Prop where
  fd : conn.fd = start.fd
  req : conn.req = start.req
  resp : conn.resp = calls.foldl Response.respond start.resp
  queued : conn.queued = start.queued ++
    (ResponseCall.errorsOf calls).map fun error => Response.errorText error.1 error.2

theorem answering_respondTo {start : Connection} (opened : ¬ start.fd < 0) (call : ResponseCall) :
    start.Answering [call] (start.respondTo call) := by
  cases call with
  | writeErrorMessage code date =>
      refine ⟨fd_writeErrorMessage start code date, req_writeErrorMessage start code date, ?_, ?_⟩
      · change (start.writeString _).resp.writeErrorMessage = start.resp.writeErrorMessage
        rw [resp_writeString]
      · exact queued_writeString opened (Response.errorText_ne_nil code date)
  | _ => exact ⟨rfl, rfl, rfl, (List.append_nil _).symm⟩

theorem answering_foldl {start : Connection} (opened : ¬ start.fd < 0)
    (calls : List ResponseCall) : start.Answering calls (calls.foldl respondTo start) := by
  induction calls generalizing start with
  | nil => exact ⟨rfl, rfl, rfl, (List.append_nil _).symm⟩
  | cons call calls inductionHypothesis =>
      have first := answering_respondTo opened call
      have rest := @inductionHypothesis (start.respondTo call) (first.fd ▸ opened)
      refine ⟨rest.fd.trans first.fd, rest.req.trans first.req, ?_, ?_⟩
      · rw [List.foldl_cons, rest.resp, first.resp]
        rfl
      · have errors : ResponseCall.errorsOf (call :: calls) =
            ResponseCall.errorsOf [call] ++ ResponseCall.errorsOf calls :=
          @List.filterMap_append _ _ [call] calls ResponseCall.errorOf
        rw [List.foldl_cons, rest.queued, first.queued, List.append_assoc, ← List.map_append,
          errors]

theorem queued_flushResponse {conn : Connection} (opened : ¬ conn.fd < 0) (date : Bytes) :
    (conn.flushResponse date).queued = conn.queued ++ (conn.resp.flush date).2 := by
  apply @queued_foldl_writeString { conn with resp := (conn.resp.flush date).1 } opened
  intro str listed
  by_cases written : conn.resp.wbuf = []
  · rw [Response.flush_of_nothing written] at listed
    cases listed
  · exact (Response.flush_of_written written date).2 str listed

end Connection

namespace Held

/-- The queue holds the error messages in their order, and behind them what `Flush` makes of the
bytes that have been written since. -/
theorem queued_respond (config : Config) (conn : ConnId) (held : Held)
    (calls : List ResponseCall) (date : Bytes) (opened : ¬ held.connection.fd < 0)
    (plain : held.connection.req.status ≠ .upgrade) (fresh : held.connection.resp = .reset)
    (empty : held.connection.writeBufferChain = []) :
    ∃ later, held.respond config conn calls date = some later ∧
      later.connection.queued = (ResponseCall.errorsOf calls).map
          (fun error => Response.errorText error.1 error.2) ++
        ((Response.afterCalls calls).flush date).2 := by
  have answering := Connection.answering_foldl opened calls
  rw [respond, runOps_responses, Option.map_some]
  refine ⟨_, rfl, ?_⟩
  have stillPlain :
      (calls.foldl Connection.respondTo held.connection).req.status ≠ .upgrade := by
    rwa [answering.req]
  have stillOpened : ¬ (calls.foldl Connection.respondTo held.connection).fd < 0 := by
    rwa [answering.fd]
  have nothing : held.connection.queued = [] := by rw [Connection.queued, empty, List.map_nil]
  rw [flushUnlessUpgraded, if_neg stillPlain]
  dsimp only
  rw [Connection.queued_flushResponse stillOpened, answering.queued, nothing, List.nil_append,
    answering.resp, fresh, Response.afterCalls]

theorem flatten_behind_eq_nil_iff (errors : List (Int × Bytes)) (resp : Response)
    (date : Bytes) :
    (errors.map fun error => Response.errorText error.1 error.2).flatten ++
        (resp.flush date).2.flatten = [] ↔ errors = [] ∧ resp.wbuf = [] := by
  rw [List.append_eq_nil_iff, List.flatten_eq_nil_iff, List.flatten_eq_nil_iff]
  constructor
  · rintro ⟨noErrors, nothing⟩
    constructor
    · cases errors with
      | nil => rfl
      | cons error errors =>
          exact absurd (noErrors _ List.mem_cons_self) (Response.errorText_ne_nil _ _)
    · by_contra written
      obtain ⟨some, all⟩ := Response.flush_of_written written date
      obtain ⟨str, member⟩ := List.exists_mem_of_ne_nil _ some
      exact all str member (nothing str member)
  · rintro ⟨rfl, nothing⟩
    rw [Response.flush_of_nothing nothing]
    exact ⟨nofun, nofun⟩

/-- A handler leaves exactly one response for its client exactly when it answers once. -/
theorem queuesOneResponse_iff_answersOnce (config : Config) (conn : ConnId) (held : Held)
    (calls : List ResponseCall) (date : Bytes) (opened : ¬ held.connection.fd < 0)
    (plain : held.connection.req.status ≠ .upgrade) (fresh : held.connection.resp = .reset)
    (empty : held.connection.writeBufferChain = []) (cleanDate : Response.Clean date)
    (cleanDates : ∀ error ∈ ResponseCall.errorsOf calls, Response.Clean error.2) :
    (∃ later, held.respond config conn calls date = some later ∧
      later.connection.QueuesOneResponse calls) ↔ ResponseCall.AnswersOnce calls := by
  obtain ⟨later, responded, queue⟩ := queued_respond config conn held calls date
    opened plain fresh empty
  have one : (∃ other, held.respond config conn calls date = some other ∧
      other.connection.QueuesOneResponse calls) ↔ later.connection.QueuesOneResponse calls := by
    rw [responded]
    simp
  have last := Response.wbuf_afterCalls calls
  rw [one, Connection.QueuesOneResponse, queue, ResponseCall.bodies, ResponseCall.AnswersOnce]
  cases errors : ResponseCall.errorsOf calls with
  | nil =>
      by_cases nothing : ResponseCall.writtenLast calls = []
      · rw [Response.flush_of_nothing (last.trans nothing)]
        simp [nothing, Response.not_complete_nil]
      · have written : (Response.afterCalls calls).wbuf ≠ [] := last ▸ nothing
        have flushed := Response.complete_flush_iff cleanDate calls written
        rw [last] at flushed
        simp [nothing, flushed]
  | cons error others =>
      have clean := cleanDates error (errors ▸ List.mem_cons_self)
      have complete := Response.complete_errorText_iff clean error.1
        ((others.map fun error => Response.errorText error.1 error.2).flatten ++
          ((Response.afterCalls calls).flush date).2.flatten)
      rw [flatten_behind_eq_nil_iff, last] at complete
      simp only [List.map_cons, List.cons_append, List.flatten_cons, List.flatten_append, complete]
      constructor
      · rintro ⟨body, -, other, ⟨rfl, nothing⟩, -⟩
        exact .inl ⟨⟨error, rfl, other⟩, nothing⟩
      · rintro (⟨⟨same, single, other⟩, nothing⟩ | ⟨none, -⟩)
        · cases single
          exact ⟨_, List.mem_cons_self, other, ⟨rfl, nothing⟩, rfl⟩
        · cases none

def accepted : Held := ⟨{ Connection.new with fd := 5 }, .new 1⟩

/-- A handler that sets a header field and writes two strings answers once. -/
theorem queuesOneResponse_two_strings :
    ∃ later, accepted.respond ⟨⟨0, 0, id⟩, fun _ => none, false, 30, 1⟩ 0
      [.setHeader [65] [66], .writeString [104], .writeString [105]] [49] = some later ∧
        later.connection.QueuesOneResponse
          [.setHeader [65] [66], .writeString [104], .writeString [105]] :=
  (queuesOneResponse_iff_answersOnce _ 0 accepted _ [49] (by decide) (by decide) rfl rfl
    (by decide) (by decide)).mpr (.inr ⟨rfl, by decide, by decide +kernel⟩)

/-- A handler that does nothing leaves its client without a response. -/
theorem not_queuesOneResponse_no_call :
    ¬ ∀ (config : Config) (conn : ConnId) (held : Held) (calls : List ResponseCall)
      (date : Bytes), ¬ held.connection.fd < 0 → held.connection.req.status ≠ .upgrade →
        held.connection.resp = .reset → held.connection.writeBufferChain = [] →
        Response.Clean date → (∀ error ∈ ResponseCall.errorsOf calls, Response.Clean error.2) →
          ∃ later, held.respond config conn calls date = some later ∧
            later.connection.QueuesOneResponse calls := by
  intro claim
  obtain ⟨later, responded, body, -, complete⟩ := claim ⟨⟨0, 0, id⟩, fun _ => none, false, 30, 1⟩
    0 accepted [] [] (by decide) (by decide) rfl rfl (by decide) nofun
  obtain ⟨other, otherResponded, queue⟩ := queued_respond
    ⟨⟨0, 0, id⟩, fun _ => none, false, 30, 1⟩ 0 accepted [] [] (by decide) (by decide) rfl rfl
  rw [responded, Option.some_inj] at otherResponded
  rw [otherResponded, queue] at complete
  exact Response.not_complete_nil body complete

end Held

end Mevent
