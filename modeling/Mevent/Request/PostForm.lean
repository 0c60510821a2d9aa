import Mevent.Request.Forms
import Mevent.Request.Body
import Mevent.Request.Segments

/-!
# Forms in the body of a request

`ParsePostForm` reads the body as a form when `content_type_` is, byte by byte, the media type
of forms.  The header field that the media type comes from may spell it in other ways.
-/

namespace Mevent.Request

open Library

/-- The media type of a header line that is a `Content-Type` field, without its parameters and
in lower case. -/
def mediaTypeOf (line : Bytes) : Option Bytes :=
  match line.dropWhile (· ≠ ':'.toUInt8) with
  | [] => none
  | _ :: value =>
      if (line.takeWhile (· ≠ ':'.toUInt8)).map lowerCase = contentTypeName then
        some ((trim (value.takeWhile (· ≠ ';'.toUInt8))).map lowerCase)
      else
        none

/-- The `Content-Type` of the head has the media type of forms. -/
def Head.DeclaresForm (head : Head) : Prop :=
  (head.headerLines.filterMap mediaTypeOf).head? = some urlencodedType

instance (head : Head) : Decidable head.DeclaresForm := by
  unfold Head.DeclaresForm
  infer_instance

/-- The form of the request comes from its body if the media type is that of forms, and stays
as it is otherwise. -/
def FillsForm (head : Head) (req : Request) : Prop :=
  ∃ body parsed, req.body = some body ∧ req.parsePostForm = some parsed ∧
    parsed =
      if head.DeclaresForm then
        { req with postFormMap := parseFormUrlencoded req.postFormMap body }
      else
        req

/-- What the lines give to `content_type_` when the head comes in these pieces, from behind the
name to the first space, is the media type of forms, byte by byte, exactly when the head
declares it. -/
def Head.SpellsForm (head : Head) (pieces : List Bytes) : Prop :=
  foundTexts .contentType (seenLines pieces (head.requestLine.length + 2) head.headerLines) =
    urlencodedType ↔ head.DeclaresForm

/-- The body has no pair with a name and a value that are not in the form yet. -/
def AddsNothing (req : Request) : Prop :=
  ∀ body, req.body = some body → parseFormUrlencoded req.postFormMap body = req.postFormMap

section Forms

variable {req : Request} {head : Head}

theorem fillsForm_iff_of_headed (headed : req.headerLen ≤ req.rbuf.length) :
    FillsForm head req ↔
      (req.contentType = urlencodedType ↔ head.DeclaresForm) ∨ req.AddsNothing := by
  have isBody : req.body = some (req.rbuf.drop req.headerLen) := if_neg (Nat.not_lt.mpr headed)
  have same : ∀ map : OrderedMap Bytes Bytes,
      { req with postFormMap := map } = req ↔ map = req.postFormMap := by
    intro map
    constructor
    · intro same
      exact congrArg (·.postFormMap) same
    · rintro rfl
      rfl
  have adds : req.AddsNothing ↔
      parseFormUrlencoded req.postFormMap (req.rbuf.drop req.headerLen) = req.postFormMap := by
    unfold AddsNothing
    rw [isBody]
    simp
  have fills : FillsForm head req ↔
      (if req.contentType = urlencodedType then
        { req with
          postFormMap := parseFormUrlencoded req.postFormMap (req.rbuf.drop req.headerLen) }
      else req) =
      if head.DeclaresForm then
        { req with
          postFormMap := parseFormUrlencoded req.postFormMap (req.rbuf.drop req.headerLen) }
      else req := by
    unfold FillsForm parsePostForm
    rw [isBody, if_neg (Nat.not_lt.mpr headed)]
    by_cases typed : req.contentType = urlencodedType
    · simp [typed]
    · simp [typed]
  rw [fills, adds]
  by_cases typed : req.contentType = urlencodedType
  · rw [if_pos typed]
    by_cases declares : head.DeclaresForm
    · rw [if_pos declares]
      simp [typed, declares]
    · rw [if_neg declares, same]
      simp [typed, declares]
  · rw [if_neg typed]
    by_cases declares : head.DeclaresForm
    · rw [if_pos declares, eq_comm, same]
      simp [typed, declares]
    · rw [if_neg declares]
      simp [typed, declares]

variable {maxHeaderSize maxPostSize : Nat} {all : List Bytes}

theorem Receives.contentType (received : Receives maxHeaderSize maxPostSize req all)
    (small : all.flatten.length < 2 ^ 32) (behind : req.status ≠ .headerReceiving) :
    req.contentType = (reset.parseChunks all).state.contentType := by
  induction received with
  | fresh => exact absurd rfl behind
  | head _ here _ _ _ =>
      exact absurd ((status_parse (accept _ _)).trans here) behind
  | @headEnd req before piece received here _ finished _ =>
      have smaller : before.flatten.length < 2 ^ 32 := small_of_concat small
      obtain ⟨-, -, state, -⟩ := ((received.parsed smaller).1 here).next small
      rw [state]
  | @body req before piece received here _ _ inductionHypothesis =>
      have smaller : before.flatten.length < 2 ^ 32 := small_of_concat small
      have notHead : req.status ≠ .headerReceiving := by
        rw [here]
        decide
      have finished := (received.parsed smaller).2 notHead
      have fed : reset.parseChunks (before ++ [piece]) = reset.parseChunks before :=
        parser.feed_append_of_leaves append (· = .continues) .continues rfl
          (by rw [← parseChunks, finished]; decide) [piece]
      rw [fed]
      exact inductionHypothesis smaller notHead
  | complete _ here _ _ inductionHypothesis =>
      apply inductionHypothesis small
      rw [here]
      decide

/-- `content_type_` is what is found in the lines of the head. -/
theorem Receives.contentType_of_head
    (received : Receives maxHeaderSize maxPostSize req all)
    (small : all.flatten.length < 2 ^ 32) (behind : req.status ≠ .headerReceiving)
    {rest : Bytes} (sent : all.flatten = head.bytes ++ rest) :
    req.contentType =
      foundTexts .contentType
        (seenLines all (head.requestLine.length + 2) head.headerLines) := by
  have finished := (received.parsed small).2 behind
  rw [received.contentType small behind, ← text_parseChunks (by decide) sent finished]
  rfl

end Forms

section Requests

variable {tls : Bool} {maxHeaderSize maxPostSize : Nat}

/-- `ParsePostForm` does what the media type asks for exactly when the lines of the head, as they
come in, spell the one of forms plainly, or when the body has nothing to add. -/
theorem fillsForm_iff {state : Request × List Bytes}
    (reads : Reads tls maxHeaderSize maxPostSize (fun _ _ => True) state)
    (complete : state.1.status = .bodyReceived) {head : Head} {rest : Bytes}
    (sent : state.2.flatten = head.bytes ++ rest) (small : state.2.flatten.length < 2 ^ 32) :
    FillsForm head state.1 ↔ head.SpellsForm state.2 ∨ state.1.AddsNothing := by
  have received := receives_of_reads reads
  have behind : state.1.status ≠ .headerReceiving := by
    rw [complete]
    decide
  rw [fillsForm_iff_of_headed received.standing.headed,
    received.contentType_of_head small behind sent, Head.SpellsForm]

/-- The head of a form of three bytes, whose media type has `parameters`. -/
def formLines (parameters : List Char) : List Bytes :=
  [ascii ("Content-Type: application/x-www-form-urlencoded".toList ++ parameters),
    ascii "Content-Length:3".toList]

/-- The form `a=b` in one read. -/
def formRead (parameters : List Char) : List ReadResult :=
  [.delivered 'P'.toUInt8 (ascii "OST / ".toList ++ crlf ++ joinLines (formLines parameters) ++
    ascii ['a', '=', 'b'])]

def plainHead : Head where
  requestLine := ascii "POST / ".toList
  headerLines := formLines []
  unbroken := by decide +kernel
  filled := by decide +kernel

def charsetHead : Head where
  requestLine := ascii "POST / ".toList
  headerLines := formLines ";charset=UTF-8".toList
  unbroken := by decide +kernel
  filled := by decide +kernel

/-- A form whose media type is spelled as `ParsePostForm` spells it. -/
theorem fillsForm_iff_plain :
    ∃ state, readStep false 2048 8192 (reset, []) (formRead []) = some state ∧
      plainHead.DeclaresForm ∧
      (FillsForm plainHead state.1 ↔
        plainHead.SpellsForm state.2 ∨ state.1.AddsNothing) := by
  have taken : (readStep false 2048 8192 (reset, []) (formRead [])).map (fun state =>
      (state.1.status, state.2)) =
        some (.bodyReceived, [plainHead.bytes ++ ascii ['a', '=', 'b']]) := by
    decide +kernel
  obtain ⟨state, step, values⟩ := Option.map_eq_some_iff.mp taken
  simp only [Prod.mk.injEq] at values
  obtain ⟨complete, pieces⟩ := values
  refine ⟨state, step, by decide +kernel, ?_⟩
  apply fillsForm_iff (Reaches.refl.next _ trivial step) complete
  · rw [pieces, List.flatten_singleton]
  · rw [pieces]
    decide +kernel

/-- A form with a `charset` parameter is not read. -/
theorem not_fillsForm_charset :
    ∃ state, Reads false 2048 8192 (fun _ _ => True) state ∧ state.1.status = .bodyReceived ∧
      state.2.flatten = charsetHead.bytes ++ ascii ['a', '=', 'b'] ∧
      charsetHead.DeclaresForm ∧ state.1.body = some (ascii ['a', '=', 'b']) ∧
      ¬ FillsForm charsetHead state.1 := by
  have taken : (readStep false 2048 8192 (reset, [])
      (formRead ";charset=UTF-8".toList)).map (fun state =>
        (state.1.status, state.2, state.1.body,
          decide (state.1.contentType = urlencodedType),
          decide (parseFormUrlencoded state.1.postFormMap (ascii ['a', '=', 'b']) =
            state.1.postFormMap))) =
      some (.bodyReceived, [charsetHead.bytes ++ ascii ['a', '=', 'b']],
        some (ascii ['a', '=', 'b']), false, false) := by
    decide +kernel
  obtain ⟨state, step, values⟩ := Option.map_eq_some_iff.mp taken
  simp only [Prod.mk.injEq, decide_eq_false_iff_not] at values
  obtain ⟨complete, pieces, body, notTyped, adds⟩ := values
  have reads : Reads false 2048 8192 (fun _ _ => True) state := Reaches.refl.next _ trivial step
  have declares : charsetHead.DeclaresForm := by decide +kernel
  refine ⟨state, reads, complete, by rw [pieces, List.flatten_singleton], declares, body, ?_⟩
  rintro ⟨other, parsed, isBody, isParsed, same⟩
  rw [body] at isBody
  cases isBody
  rw [parsePostForm, if_pos notTyped] at isParsed
  cases isParsed
  rw [if_pos declares] at same
  exact adds (congrArg (·.postFormMap) same).symm

end Requests

end Mevent.Request
