import Mevent.Response.Calls
import Mevent.Request.ContentLength
import Mevent.Library.Lines

/-!
# The framing of a response

How a client takes a response apart: the head ends at the first blank line, its lines give
the fields, and one of them gives the length of the body.  The fields of a handler flow into
the head as they are.
-/

namespace Mevent

open Library

namespace Response

/-- What separates the head of a response from its body. -/
def blankLine : Bytes := crlf ++ crlf

def protocol : Bytes := ascii "HTTP/1.1 ".toList

/-- A text that is kept on one line. -/
def Clean (text : Bytes) : Prop := ¬ crlf <:+: text

instance (text : Bytes) : Decidable (Clean text) := inferInstanceAs (Decidable (¬ _))

def fieldLine (header : Bytes × Bytes) : Bytes := header.1 ++ ascii ": ".toList ++ header.2

/-- The parts of a text: its head up to the first blank line, the lines of the head, and the
body behind it, the length of which one of the lines announces. -/
structure Framing (text status : Bytes) (headers : List (Bytes × Bytes)) (head body : Bytes)
    (lines : List Bytes) : Prop where
  split : FirstSplit blankLine text head body
  head : head ++ crlf = terminate crlf (status :: lines)
  clean : ∀ line ∈ lines, Clean line
  headers : lines.Perm (headers.map fieldLine)
  contentLength : ∃ value, lines.filterMap Request.contentLengthOf = [value] ∧
    Request.decimal value = some body.length

/-- The text consists of the status line, the header fields and a body of the announced
length. -/
def Framed (text status : Bytes) (headers : List (Bytes × Bytes)) : Prop :=
  ∃ head body lines, Framing text status headers head body lines

/-- A text made of lines, a blank line and a body. -/
def message (status : Bytes) (lines : List Bytes) (body : Bytes) : Bytes :=
  terminate crlf (status :: lines) ++ crlf ++ body

theorem clean_fieldLine_iff (header : Bytes × Bytes) :
    Clean (fieldLine header) ↔ Clean header.1 ∧ Clean header.2 := by
  have spread : fieldLine header = header.1 ++ 58 :: ([] ++ 32 :: header.2) := by
    rw [fieldLine, List.append_assoc]
    rfl
  rw [spread, Clean, crlf, mark_infix_iff (by decide) (by decide),
    mark_infix_iff (by decide) (by decide)]
  simp [Clean, crlf]

theorem fieldLine_ne_nil (header : Bytes × Bytes) : fieldLine header ≠ [] := by
  intro empty
  have colonEmpty := (List.append_eq_nil_iff.mp (List.append_eq_nil_iff.mp empty).1).2
  exact absurd colonEmpty (by decide)

/-- A message is framed as intended exactly when its lines are clean and one of them
announces the length of its body. -/
theorem framed_message_iff {status body : Bytes} {lines : List Bytes}
    {headers : List (Bytes × Bytes)} (statusClean : status ≠ [] ∧ Clean status)
    (same : lines.Perm (headers.map fieldLine)) :
    Framed (message status lines body) status headers ↔
      (∀ header ∈ headers, Clean (fieldLine header)) ∧
        ∃ value, (headers.map fieldLine).filterMap Request.contentLengthOf = [value] ∧
          Request.decimal value = some body.length := by
  have split : (∀ header ∈ headers, Clean (fieldLine header)) →
      ∃ head, head ++ crlf = terminate crlf (status :: lines) ∧
        FirstSplit blankLine (message status lines body) head body := by
    intro clean
    obtain ⟨head, ends⟩ := suffix_terminate crlf status lines
    refine ⟨head, ends, ?_⟩
    apply firstSplit_terminate (by decide) _ ends
    intro line member
    rcases List.mem_cons.mp member with rfl | listed
    · exact statusClean
    · obtain ⟨header, given, rfl⟩ := List.mem_map.mp (same.mem_iff.mp listed)
      exact ⟨fieldLine_ne_nil header, clean header given⟩
  constructor
  · rintro ⟨head, otherBody, otherLines, framing⟩
    have clean : ∀ header ∈ headers, Clean (fieldLine header) := by
      intro header member
      apply framing.clean
      exact framing.headers.mem_iff.mpr (List.mem_map_of_mem member)
    obtain ⟨ownHead, -, ownSplit⟩ := split clean
    obtain ⟨-, rfl⟩ := framing.split.unique ownSplit
    obtain ⟨value, single, announced⟩ := framing.contentLength
    refine ⟨clean, value, ?_, announced⟩
    have filtered := framing.headers.filterMap Request.contentLengthOf
    rw [single] at filtered
    exact List.perm_singleton.mp filtered.symm
  · rintro ⟨clean, value, single, announced⟩
    obtain ⟨head, ends, split⟩ := split clean
    refine ⟨head, body, lines, split, ends, ?_, same, value, ?_, announced⟩
    · intro line listed
      obtain ⟨header, member, rfl⟩ := List.mem_map.mp (same.mem_iff.mp listed)
      exact clean header member
    · have filtered := same.filterMap Request.contentLengthOf
      rw [single] at filtered
      exact List.perm_singleton.mp filtered

/-- A field name that a client takes for `Content-Length`: it compares what stands in front
of the first colon, in any case. -/
def NamesLength (field : Bytes) : Prop :=
  (field.takeWhile (· ≠ ':'.toUInt8)).map Request.lowerCase = Request.contentLengthName

instance (field : Bytes) : Decidable (NamesLength field) := inferInstanceAs (Decidable (_ = _))

theorem fieldLine_eq (header : Bytes × Bytes) :
    fieldLine header = header.1 ++ ':'.toUInt8 :: Request.space :: header.2 := by
  rw [fieldLine, List.append_assoc]
  rfl

theorem takeWhile_fieldLine (header : Bytes × Bytes) :
    (fieldLine header).takeWhile (· ≠ ':'.toUInt8) = header.1.takeWhile (· ≠ ':'.toUInt8) := by
  rw [fieldLine_eq, List.takeWhile_append]
  split
  next whole =>
    rw [List.takeWhile_cons_of_neg (by simp), List.append_nil]
    exact ((List.takeWhile_prefix _).eq_of_length whole).symm
  next => rfl

/-- Whether a line is a `Content-Length` field depends on its field name alone. -/
theorem isSome_contentLengthOf_iff (header : Bytes × Bytes) :
    (Request.contentLengthOf (fieldLine header)).isSome ↔ NamesLength header.1 := by
  unfold Request.contentLengthOf NamesLength
  rw [takeWhile_fieldLine]
  have colon : ':'.toUInt8 ∈ fieldLine header := by
    rw [fieldLine_eq]
    exact List.mem_append_right _ List.mem_cons_self
  split
  next nothing =>
    have all := List.dropWhile_eq_nil_iff.mp nothing _ colon
    simp at all
  next value _ =>
    split
    next names => exact iff_of_true rfl names
    next other => exact iff_of_false Bool.false_ne_true other

theorem trim_of_digits {digits : Bytes} (plain : ∀ c ∈ digits, Request.isBlank c = false) :
    Request.trim (Request.space :: digits) = digits := by
  have front : (Request.space :: digits).dropWhile Request.isBlank = digits := by
    rw [List.dropWhile_cons_of_pos (by decide)]
    apply List.dropWhile_eq_self_iff.mpr
    intro nonempty
    simp [plain _ (List.getElem_mem nonempty)]
  have back : digits.reverse.dropWhile Request.isBlank = digits.reverse := by
    apply List.dropWhile_eq_self_iff.mpr
    intro nonempty
    have member := plain _ (List.mem_reverse.mp (List.getElem_mem nonempty))
    simp only [member, Bool.false_eq_true, not_false_eq_true]
  rw [Request.trim, front, back, List.reverse_reverse]

theorem contentLengthOf_own {digits : Bytes}
    (plain : ∀ c ∈ digits, Request.isBlank c = false) :
    Request.contentLengthOf (fieldLine (contentLengthField, digits)) = some digits := by
  have line : fieldLine (contentLengthField, digits) =
      contentLengthField ++ ':'.toUInt8 :: Request.space :: digits := fieldLine_eq _
  have name : NamesLength contentLengthField := by decide
  have plainName : ∀ c ∈ contentLengthField, decide (c ≠ ':'.toUInt8) = true := by
    decide +kernel
  have behind : (fieldLine (contentLengthField, digits)).dropWhile (· ≠ ':'.toUInt8) =
      ':'.toUInt8 :: Request.space :: digits := by
    rw [line, List.dropWhile_append_of_pos plainName, List.dropWhile_cons_of_neg (by simp)]
  unfold Request.contentLengthOf
  rw [behind, takeWhile_fieldLine]
  exact (if_pos name).trans (congrArg some (trim_of_digits plain))

theorem contentLengthOf_other {header : Bytes × Bytes} (other : ¬ NamesLength header.1) :
    Request.contentLengthOf (fieldLine header) = none := by
  rw [← isSome_contentLengthOf_iff, Option.not_isSome_iff_eq_none] at other
  exact other

theorem digit_of_isDigit {c : Char} (digit : c.isDigit = true) :
    Request.isNum c.toUInt8 = true ∧ c.toUInt8.toNat = c.toNat := by
  have bounds : 48 ≤ c.toNat ∧ c.toNat ≤ 57 := by
    simpa [Char.isDigit, UInt32.le_iff_toNat_le] using digit
  have value : c.toUInt8.toNat = c.toNat := by
    change c.val.toUInt8.toNat = c.toNat
    rw [UInt32.toNat_toUInt8]
    exact Nat.mod_eq_of_lt (by change c.toNat < 256; omega)
  refine ⟨?_, value⟩
  simp only [Request.isNum, Bool.and_eq_true, decide_eq_true_eq, UInt8.le_iff_toNat_le, value]
  exact bounds

theorem isBlank_of_isNum {c : UInt8} (digit : Request.isNum c = true) :
    Request.isBlank c = false := by
  have all : ∀ c : UInt8, Request.isNum c = true → Request.isBlank c = false := by
    decide +kernel
  exact all c digit

theorem isNum_of_mem_toString {number : Nat} {c : UInt8} (member : c ∈ toString number) :
    Request.isNum c = true := by
  obtain ⟨digit, listed, rfl⟩ := List.mem_map.mp member
  exact (digit_of_isDigit (Nat.isDigit_of_mem_toDigits (by decide) (by decide) listed)).1

theorem clean_toString (number : Nat) : Clean (toString number) := by
  intro inside
  have carriageReturn : (13 : UInt8) ∈ toString number := inside.subset (by decide)
  exact absurd (isNum_of_mem_toString carriageReturn) (by decide)

theorem contentLengthOf_toString (number : Nat) :
    Request.contentLengthOf (fieldLine (contentLengthField, toString number)) =
      some (toString number) :=
  contentLengthOf_own fun _ member => isBlank_of_isNum (isNum_of_mem_toString member)

theorem foldl_toUInt8 {digits : List Char} (all : ∀ c ∈ digits, c.isDigit = true) (sum : Nat) :
    (digits.map Char.toUInt8).foldl (fun sum ch => sum * 10 + (ch.toNat - 48)) sum =
      Nat.ofDigitChars 10 digits sum := by
  induction digits generalizing sum with
  | nil => rfl
  | cons c digits inductionHypothesis =>
      rw [List.forall_mem_cons] at all
      rw [List.map_cons, List.foldl_cons, inductionHypothesis all.2, Nat.ofDigitChars_cons,
        (digit_of_isDigit all.1).2, Nat.mul_comm]
      rfl

/-- `std::to_string` writes a number in a form that can be read back. -/
theorem decimal_toString (number : Nat) :
    Request.decimal (toString number) = some number := by
  have digits : ∀ c ∈ Nat.toDigits 10 number, c.isDigit = true :=
    fun c member => Nat.isDigit_of_mem_toDigits (by decide) (by decide) member
  have nonempty : toString number ≠ [] := by
    simp [toString, ascii, Nat.toDigits_ne_nil]
  rw [Request.decimal, if_pos ⟨nonempty, fun c member => isNum_of_mem_toString member⟩]
  exact congrArg some ((foldl_toUInt8 digits 0).trans Nat.ofDigitChars_ten_toDigits)

section ErrorMessages

/-- The words of the status line that `WriteErrorMessage` chooses for a code. -/
def errorWords (code : Int) : Bytes :=
  if code = 400 then badRequest
  else if code = 403 then forbidden
  else if code = 404 then notFound
  else internalServerError

/-- The words of the message of which `WriteErrorMessage` takes the size. -/
def measuredWords (code : Int) : Bytes := if code = 400 then forbidden else errorWords code

def statusLine (words : Bytes) : Bytes := protocol ++ words

/-- The fields of an error message, all of which `Response` adds itself. -/
def errorHeaders (code : Int) (date : Bytes) : List (Bytes × Bytes) :=
  [(serverField, server), (contentTypeField, ascii "text/html".toList),
    (contentLengthField, toString (errorPage (measuredWords code)).length), (dateField, date),
    (connectionField, ascii "close".toList)]

theorem errorText_eq_message (code : Int) (date : Bytes) :
    errorText code date = message (statusLine (errorWords code))
      ((errorHeaders code date).map fieldLine) (errorPage (errorWords code)) := by
  have text : errorText code date = errorMessage (errorWords code)
      (errorPage (measuredWords code)) (errorPage (errorWords code)) date := by
    unfold errorText errorWords measuredWords errorWords
    split
    · rfl
    · split
      · rfl
      · split
        · rfl
        · rfl
  rw [text]
  simp [errorMessage, message, errorHeaders, statusLine, protocol, fieldLine, serverField,
    contentTypeField, contentLengthField, dateField, connectionField, ascii]

theorem clean_statusLine (code : Int) :
    statusLine (errorWords code) ≠ [] ∧ Clean (statusLine (errorWords code)) := by
  unfold errorWords
  split
  · decide +kernel
  · split
    · decide +kernel
    · split
      · decide +kernel
      · decide +kernel

theorem clean_errorHeaders (code : Int) {date : Bytes} (cleanDate : Clean date) :
    ∀ header ∈ errorHeaders code date, Clean (fieldLine header) := by
  have lengthName : Clean contentLengthField := by decide +kernel
  have dateName : Clean dateField := by decide +kernel
  intro header member
  rw [clean_fieldLine_iff]
  simp only [errorHeaders, List.mem_cons, List.not_mem_nil, or_false] at member
  rcases member with rfl | rfl | rfl | rfl | rfl
  · decide +kernel
  · decide +kernel
  · exact ⟨lengthName, clean_toString _⟩
  · exact ⟨dateName, cleanDate⟩
  · decide +kernel

theorem contentLengths_errorHeaders (code : Int) (date : Bytes) :
    ((errorHeaders code date).map fieldLine).filterMap Request.contentLengthOf =
      [toString (errorPage (measuredWords code)).length] := by
  have server : ¬ NamesLength serverField := by decide +kernel
  have contentType : ¬ NamesLength contentTypeField := by decide +kernel
  have date : ¬ NamesLength dateField := by decide +kernel
  have connection : ¬ NamesLength connectionField := by decide +kernel
  simp [errorHeaders, contentLengthOf_other, contentLengthOf_toString, server, contentType, date,
    connection]

/-- An error message announces its size, except for the code 400. -/
theorem framed_errorText_iff {date : Bytes} (cleanDate : Clean date) (code : Int) :
    Framed (errorText code date) (statusLine (errorWords code)) (errorHeaders code date) ↔
      code ≠ 400 := by
  rw [errorText_eq_message, framed_message_iff (clean_statusLine code) (.refl _)]
  rw [contentLengths_errorHeaders]
  have sizes : (errorPage (measuredWords code)).length = (errorPage (errorWords code)).length ↔
      code ≠ 400 := by
    by_cases bad : code = 400
    · subst bad
      decide +kernel
    · simp [measuredWords, bad]
  constructor
  · rintro ⟨-, value, single, announced⟩
    simp only [List.cons.injEq, and_true] at single
    rw [← single, decimal_toString, Option.some_inj] at announced
    exact sizes.mp announced
  · intro other
    refine ⟨clean_errorHeaders code cleanDate, _, rfl, ?_⟩
    rw [decimal_toString, sizes.mpr other]

end ErrorMessages

/-- A call of a handler, as far as the response itself is concerned. -/
def respond (resp : Response) : ResponseCall → Response
  | .setHeader field value => resp.setHeader field value
  | .addHeader field value => resp.addHeader field value
  | .delHeader field => resp.delHeader field
  | .writeString str => resp.write str
  | .writeData data => resp.write data
  | .writeErrorMessage _ _ => resp.writeErrorMessage

/-- The header fields that are set behind a call, each with its value. -/
def headersAfter (headers : List (Bytes × Bytes)) : ResponseCall → List (Bytes × Bytes)
  | .setHeader field value =>
      if field = [] ∨ value = [] then headers
      else headers.filter (·.1 ≠ field) ++ [(field, value)]
  | .addHeader field value =>
      if field = [] ∨ value = [] then headers else headers ++ [(field, value)]
  | .delHeader field => headers.filter (·.1 ≠ field)
  | _ => headers

def headersSet (calls : List ResponseCall) : List (Bytes × Bytes) := calls.foldl headersAfter []

/-- Those of them that `Response` does not replace by its own. -/
def headersKept (calls : List ResponseCall) : List (Bytes × Bytes) :=
  ((headersSet calls).filter (·.1 ≠ contentLengthField)).filter (·.1 ≠ connectionField)

/-- The fields that `Response` adds where the handler has not set them. -/
def defaultHeaders (date : Bytes) : List (Bytes × Bytes) :=
  [(serverField, server), (dateField, date),
    (contentTypeField, ascii "application/octet-stream".toList)]

/-- The fields of the answer of a handler: what it has set, and what `Response` adds. -/
def answerHeaders (calls : List ResponseCall) (length : Nat) (date : Bytes) :
    List (Bytes × Bytes) :=
  (defaultHeaders date).filter (fun header => ∀ set ∈ headersSet calls, set.1 ≠ header.1) ++
    (headersKept calls ++ [(contentLengthField, toString length)] ++
      [(connectionField, ascii "close".toList)])

/-- The fields that have been set can be read back from the head: each of them stays on its
line, and none of them is taken for `Content-Length`. -/
def Readable (calls : List ResponseCall) : Prop :=
  ∀ header ∈ headersKept calls, Clean header.1 ∧ Clean header.2 ∧ ¬ NamesLength header.1

structure Holds (map : OrderedMap Bytes (List Bytes)) (headers : List (Bytes × Bytes)) :
    Prop where
  increasing : map.Increasing
  nonempty : ∀ entry ∈ map, entry.2 ≠ []
  pairs : map.pairs.Perm headers

theorem Holds.insert {map : OrderedMap Bytes (List Bytes)} {headers : List (Bytes × Bytes)}
    (holds : Holds map headers) (field value : Bytes) :
    Holds (map.insert field [value]) (headers.filter (·.1 ≠ field) ++ [(field, value)]) where
  increasing := holds.increasing.insert field [value]
  nonempty := by
    intro entry member
    rcases OrderedMap.mem_insert member with rfl | old
    · simp
    · exact holds.nonempty entry old
  pairs := by
    refine (OrderedMap.pairs_insert holds.increasing field [value]).trans ?_
    exact (holds.pairs.filter _).append_right _

theorem Holds.add {map : OrderedMap Bytes (List Bytes)} {headers : List (Bytes × Bytes)}
    (holds : Holds map headers) (field value : Bytes) :
    Holds (map.insert field ((map.find? field).getD [] ++ [value]))
      (headers ++ [(field, value)]) where
  increasing := holds.increasing.insert field _
  nonempty := by
    intro entry member
    rcases OrderedMap.mem_insert member with rfl | old
    · simp
    · exact holds.nonempty entry old
  pairs := by
    refine (OrderedMap.pairs_insert_add holds.increasing field value).trans ?_
    exact holds.pairs.append_right _

theorem Holds.erase {map : OrderedMap Bytes (List Bytes)} {headers : List (Bytes × Bytes)}
    (holds : Holds map headers) (field : Bytes) :
    Holds (map.erase field) (headers.filter (·.1 ≠ field)) where
  increasing := holds.increasing.erase field
  nonempty := fun entry member => holds.nonempty entry (OrderedMap.mem_of_mem_erase member)
  pairs := by
    rw [OrderedMap.pairs_erase holds.increasing]
    exact holds.pairs.filter _

theorem holds_respond {resp : Response} {headers : List (Bytes × Bytes)}
    (holds : Holds resp.headerMap headers) (call : ResponseCall) :
    Holds (resp.respond call).headerMap (headersAfter headers call) := by
  cases call with
  | setHeader field value =>
      simp only [respond, setHeader, headersAfter]
      split
      · exact holds
      · exact holds.insert field value
  | addHeader field value =>
      simp only [respond, addHeader, headersAfter]
      split
      · exact holds
      · exact holds.add field value
  | delHeader field => exact holds.erase field
  | _ => exact holds

theorem holds_foldl {resp : Response} {headers : List (Bytes × Bytes)}
    (holds : Holds resp.headerMap headers) (calls : List ResponseCall) :
    Holds (calls.foldl respond resp).headerMap (calls.foldl headersAfter headers) := by
  induction calls generalizing resp headers with
  | nil => exact holds
  | cons call calls inductionHypothesis => exact inductionHypothesis (holds_respond holds call)

def afterCalls (calls : List ResponseCall) : Response := calls.foldl respond .reset

theorem holds_afterCalls (calls : List ResponseCall) :
    Holds (afterCalls calls).headerMap (headersSet calls) := by
  have fresh : Holds reset.headerMap [] := ⟨List.Pairwise.nil, nofun, .refl _⟩
  exact holds_foldl fresh calls

theorem flatMap_headerLine (map : OrderedMap Bytes (List Bytes)) :
    (map.flatMap fun entry => entry.2.flatMap (headerLine entry.1)) =
      terminate crlf (map.pairs.map fieldLine) := by
  have values : ∀ (field : Bytes) (values : List Bytes),
      values.flatMap (headerLine field) =
        terminate crlf ((values.map (Prod.mk field)).map fieldLine) := by
    intro field values
    simp only [terminate, List.flatMap_map]
    rfl
  induction map with
  | nil => rfl
  | cons entry map inductionHypothesis =>
      rw [List.flatMap_cons, inductionHypothesis, OrderedMap.pairs_cons, List.map_append,
        terminate_append, values]

theorem defaultLines_eq (resp : Response) (date : Bytes) :
    resp.defaultLine serverField server ++ resp.defaultLine dateField date ++
        resp.defaultLine contentTypeField (ascii "application/octet-stream".toList) =
      terminate crlf (((defaultHeaders date).filter fun header =>
        (resp.headerMap.find? header.1).isNone).map fieldLine) := by
  have line : ∀ header : Bytes × Bytes,
      resp.defaultLine header.1 header.2 = terminate crlf (([header].filter fun header =>
        (resp.headerMap.find? header.1).isNone).map fieldLine) := by
    intro header
    unfold defaultLine
    split
    next missing => simp [missing, headerLine, fieldLine]
    next found => simp [found]
  rw [line (serverField, server), line (dateField, date), line (contentTypeField, _),
    ← terminate_append, ← terminate_append, ← List.map_append, ← List.map_append,
    ← List.filter_append, ← List.filter_append]
  rfl

/-- The fields that `MakeHeader` writes, in this order. -/
def madeHeaders (resp : Response) (date : Bytes) : List (Bytes × Bytes) :=
  (defaultHeaders date).filter (fun header => (resp.headerMap.find? header.1).isNone) ++
    (resp.headerMap.insert connectionField [ascii "close".toList]).pairs

theorem makeHeader_eq_terminate (resp : Response) (date : Bytes) :
    (resp.makeHeader date).2 =
      terminate crlf (statusLine (ascii "200 OK".toList) ::
        (resp.madeHeaders date).map fieldLine) ++ crlf := by
  have status : ascii "HTTP/1.1 200 OK".toList = statusLine (ascii "200 OK".toList) := by
    decide +kernel
  have grouped : (resp.makeHeader date).2 =
      statusLine (ascii "200 OK".toList) ++ crlf ++
        (resp.defaultLine serverField server ++ resp.defaultLine dateField date ++
          resp.defaultLine contentTypeField (ascii "application/octet-stream".toList)) ++
        ((resp.headerMap.insert connectionField [ascii "close".toList]).flatMap fun entry =>
          entry.2.flatMap (headerLine entry.1)) ++ crlf := by
    rw [← status]
    simp only [makeHeader, List.append_assoc]
  rw [grouped, defaultLines_eq, flatMap_headerLine, madeHeaders, List.map_append, terminate_cons,
    terminate_append, ← List.append_assoc]

/-- The response with the length that `Flush` announces. -/
def announced (resp : Response) : Response :=
  { resp with headerMap := resp.headerMap.insert contentLengthField [toString resp.wbuf.length] }

/-- `Response::Flush` queues a message. -/
theorem flush_eq_message (resp : Response) (date : Bytes) (written : resp.wbuf ≠ []) :
    (resp.flush date).2.flatten =
      message (statusLine (ascii "200 OK".toList))
        ((resp.announced.madeHeaders date).map fieldLine) resp.wbuf := by
  have made := makeHeader_eq_terminate { resp.announced with finish := true } date
  unfold flush
  rw [if_neg written]
  simp only [List.flatten_cons, List.flatten_nil, List.append_nil]
  exact congrArg (· ++ resp.wbuf) made

theorem ne_contentLength_of_mem_defaultHeaders {date : Bytes} {header : Bytes × Bytes}
    (member : header ∈ defaultHeaders date) : contentLengthField ≠ header.1 := by
  simp only [defaultHeaders, List.mem_cons, List.not_mem_nil, or_false] at member
  rcases member with rfl | rfl | rfl
  · decide +kernel
  · change contentLengthField ≠ dateField
    decide +kernel
  · decide +kernel

/-- The fields of an answer are those that have been set and those that `Response` adds. -/
theorem madeHeaders_perm (calls : List ResponseCall) (date : Bytes) :
    ((afterCalls calls).announced.madeHeaders date).Perm
      (answerHeaders calls (afterCalls calls).wbuf.length date) := by
  have announced := (holds_afterCalls calls).insert contentLengthField
    (toString (afterCalls calls).wbuf.length)
  have complete := announced.insert connectionField (ascii "close".toList)
  have plain : connectionField ≠ contentLengthField := by decide +kernel
  have same : ∀ header ∈ defaultHeaders date,
      ((afterCalls calls).announced.headerMap.find? header.1).isNone =
        decide (∀ set ∈ headersSet calls, set.1 ≠ header.1) := by
    intro header member
    have other := ne_contentLength_of_mem_defaultHeaders member
    have missing := OrderedMap.find?_eq_none_iff announced.increasing announced.nonempty header.1
    rw [Bool.eq_iff_iff, Option.isNone_iff_eq_none, decide_eq_true_iff]
    refine missing.trans ?_
    constructor
    · intro absent set isSet
      by_cases length : set.1 = contentLengthField
      · rw [length]
        exact other
      · apply absent
        apply announced.pairs.mem_iff.mpr
        simp [isSet, length]
    · intro absent pair listed
      rcases List.mem_append.mp (announced.pairs.mem_iff.mp listed) with kept | own
      · exact absent pair (List.mem_filter.mp kept).1
      · rw [List.mem_singleton.mp own]
        exact other
  unfold madeHeaders answerHeaders
  rw [List.filter_congr same]
  apply List.Perm.append_left
  refine complete.pairs.trans ?_
  rw [List.filter_append]
  simp [headersKept, Ne.symm plain]

/-- The fields that `Response` adds by default stay on their lines. -/
theorem clean_defaultHeaders {date : Bytes} (cleanDate : Clean date) {header : Bytes × Bytes}
    (member : header ∈ defaultHeaders date) :
    Clean (fieldLine header) ∧ ¬ NamesLength header.1 := by
  have dateName : Clean dateField ∧ ¬ NamesLength dateField := by decide +kernel
  rw [clean_fieldLine_iff]
  simp only [defaultHeaders, List.mem_cons, List.not_mem_nil, or_false] at member
  rcases member with rfl | rfl | rfl
  · decide +kernel
  · exact ⟨⟨dateName.1, cleanDate⟩, dateName.2⟩
  · decide +kernel

theorem contentLengths_answerHeaders (calls : List ResponseCall) (length : Nat) {date : Bytes}
    (cleanDate : Clean date) :
    ((answerHeaders calls length date).map fieldLine).filterMap Request.contentLengthOf =
      ((headersKept calls).map fieldLine).filterMap Request.contentLengthOf ++
        [toString length] := by
  have defaults : ((((defaultHeaders date).filter fun header =>
      ∀ set ∈ headersSet calls, set.1 ≠ header.1)).map fieldLine).filterMap
        Request.contentLengthOf = [] := by
    rw [List.filterMap_map, List.filterMap_eq_nil_iff]
    intro header member
    exact contentLengthOf_other
      (clean_defaultHeaders cleanDate (List.mem_filter.mp member).1).2
  have connection : ¬ NamesLength connectionField := by decide +kernel
  rw [answerHeaders, List.map_append, List.filterMap_append, defaults, List.nil_append]
  simp [contentLengthOf_toString, contentLengthOf_other, connection]

theorem contentLengths_headersKept_iff (calls : List ResponseCall) :
    ((headersKept calls).map fieldLine).filterMap Request.contentLengthOf = [] ↔
      ∀ header ∈ headersKept calls, ¬ NamesLength header.1 := by
  rw [List.filterMap_map, List.filterMap_eq_nil_iff]
  simp only [Function.comp_apply, ← isSome_contentLengthOf_iff, Option.not_isSome_iff_eq_none]

theorem clean_answerHeaders_iff (calls : List ResponseCall) (length : Nat) {date : Bytes}
    (cleanDate : Clean date) :
    (∀ header ∈ answerHeaders calls length date, Clean (fieldLine header)) ↔
      ∀ header ∈ headersKept calls, Clean header.1 ∧ Clean header.2 := by
  have lengthName : Clean contentLengthField := by decide +kernel
  have connection : Clean (fieldLine (connectionField, ascii "close".toList)) := by
    decide +kernel
  constructor
  · intro clean header member
    rw [← clean_fieldLine_iff]
    apply clean
    exact List.mem_append_right _ (List.mem_append_left _ (List.mem_append_left _ member))
  · intro clean header member
    rcases List.mem_append.mp member with default | added
    · exact (clean_defaultHeaders cleanDate (List.mem_filter.mp default).1).1
    · rcases List.mem_append.mp added with kept | closing
      · rw [clean_fieldLine_iff]
        rcases List.mem_append.mp kept with set | own
        · exact clean header set
        · rw [List.mem_singleton.mp own]
          exact ⟨lengthName, clean_toString length⟩
      · rw [List.mem_singleton.mp closing]
        exact connection

/-- The answer of a handler is framed as intended exactly when its header fields are
readable. -/
theorem framed_flush_iff {date : Bytes} (cleanDate : Clean date) (calls : List ResponseCall)
    (written : (afterCalls calls).wbuf ≠ []) :
    Framed ((afterCalls calls).flush date).2.flatten (statusLine (ascii "200 OK".toList))
      (answerHeaders calls (afterCalls calls).wbuf.length date) ↔ Readable calls := by
  have status : statusLine (ascii "200 OK".toList) ≠ [] ∧
      Clean (statusLine (ascii "200 OK".toList)) := by decide +kernel
  rw [flush_eq_message _ date written,
    framed_message_iff status ((madeHeaders_perm calls date).map fieldLine),
    clean_answerHeaders_iff calls _ cleanDate, contentLengths_answerHeaders calls _ cleanDate]
  have lengths := contentLengths_headersKept_iff calls
  constructor
  · rintro ⟨clean, value, single, -⟩ header member
    have nothing : ((headersKept calls).map fieldLine).filterMap Request.contentLengthOf = [] := by
      have count := congrArg List.length single
      rw [List.length_append] at count
      exact List.length_eq_zero_iff.mp (by simpa using count)
    exact ⟨(clean header member).1, (clean header member).2, lengths.mp nothing header member⟩
  · intro readable
    refine ⟨fun header member => ⟨(readable header member).1, (readable header member).2.1⟩,
      toString (afterCalls calls).wbuf.length, ?_, decimal_toString _⟩
    rw [lengths.mpr fun header member => (readable header member).2.2, List.nil_append]

/-- What is queued for a client is framed as intended: an error message unless its code is
400, and the answer of a handler if its header fields are readable. -/
theorem framed_iff (date : Bytes) (cleanDate : Clean date) :
    (∀ code : Int,
      Framed (errorText code date) (statusLine (errorWords code)) (errorHeaders code date) ↔
        code ≠ 400) ∧
    ∀ calls : List ResponseCall, (afterCalls calls).wbuf ≠ [] →
      (Framed ((afterCalls calls).flush date).2.flatten (statusLine (ascii "200 OK".toList))
        (answerHeaders calls (afterCalls calls).wbuf.length date) ↔ Readable calls) :=
  ⟨framed_errorText_iff cleanDate, framed_flush_iff cleanDate⟩

/-- The error message for 403, and an answer whose handler has set two header fields. -/
theorem framed_two_fields :
    (Framed (errorText 403 [49]) (statusLine (errorWords 403)) (errorHeaders 403 [49]) ↔
      (403 : Int) ≠ 400) ∧
    (Framed ((afterCalls [.setHeader [65] [66], .addHeader [65] [67], .writeString [104]]).flush
        [49]).2.flatten (statusLine (ascii "200 OK".toList))
        (answerHeaders [.setHeader [65] [66], .addHeader [65] [67], .writeString [104]] 1 [49]) ↔
      Readable [.setHeader [65] [66], .addHeader [65] [67], .writeString [104]]) :=
  ⟨(framed_iff [49] (by decide)).1 403, (framed_iff [49] (by decide)).2 _ (by decide)⟩

/-- The error message for 400 announces the size of another one. -/
theorem not_framed_bad_request :
    ¬ ∀ date : Bytes, Clean date →
      (∀ code : Int,
        Framed (errorText code date) (statusLine (errorWords code)) (errorHeaders code date)) ∧
      ∀ calls : List ResponseCall, (afterCalls calls).wbuf ≠ [] →
        Framed ((afterCalls calls).flush date).2.flatten (statusLine (ascii "200 OK".toList))
          (answerHeaders calls (afterCalls calls).wbuf.length date) := by
  intro claim
  have cleanDate : Clean [49] := by decide
  exact (framed_errorText_iff cleanDate 400).mp ((claim [49] cleanDate).1 400) rfl

end Response

end Mevent
