import Mevent.Request.Chunks

/-!
# The parser stays in its buffer

The offsets of the parser between two rounds of its loop, whatever state it is in.  Every
handler keeps them in order, and with them every index is one of the buffer or of a name.
-/

namespace Mevent.Request

open Library

/-- The offsets of the parser lie in the buffer.  In `S_EOL` there is a byte in front of
`parse_offset_`. -/
structure Standing (req : Request) : Prop where
  filled : req.rbufLen ≤ req.rbuf.length
  within : req.parseOffset ≤ req.rbuf.length
  matched : req.parseMatch ≤ req.parseOffset
  headed : req.headerLen ≤ req.rbuf.length
  begun : req.parseStatus = .eol → 0 < req.parseOffset

/-- What a handler leads to is in order again, and no handler leaves the buffer. -/
def Handled.Stands : Handled → Prop
  | .bottom next => Standing { next with parseOffset := next.parseOffset + 1 }
  | .again next => next.Standing
  | .break last status => last.Standing ∧ status ≠ .outOfRange

theorem standing_reset : reset.Standing where
  filled := le_refl 0
  within := le_refl 0
  matched := le_refl 0
  headed := le_refl 0
  begun := fun impossible => by cases impossible

section Handlers

variable {req : Request}

theorem Standing.next (standing : req.Standing) (more : req.parseOffset < req.rbuf.length)
    {next : Request} (rbuf : next.rbuf = req.rbuf) (rbufLen : next.rbufLen = req.rbufLen)
    (headerLen : next.headerLen = req.headerLen)
    (offset : next.parseOffset = req.parseOffset + 1)
    (match_ : next.parseMatch = req.parseMatch ∨ next.parseMatch = req.parseOffset) :
    next.Standing where
  filled := by rw [rbuf, rbufLen]; exact standing.filled
  within := by rw [rbuf, offset]; exact more
  matched := by
    have := standing.matched
    omega
  headed := by rw [rbuf, headerLen]; exact standing.headed
  begun := fun _ => by omega

theorem stands_bottom (standing : req.Standing) (more : req.parseOffset < req.rbuf.length)
    {next : Request} (rbuf : next.rbuf = req.rbuf) (rbufLen : next.rbufLen = req.rbufLen)
    (headerLen : next.headerLen = req.headerLen)
    (offset : next.parseOffset = req.parseOffset)
    (match_ : next.parseMatch = req.parseMatch ∨ next.parseMatch = req.parseOffset) :
    (Handled.bottom next).Stands := by
  change Standing { next with parseOffset := next.parseOffset + 1 }
  refine standing.next more rbuf rbufLen headerLen ?_ match_
  exact congrArg (· + 1) offset

theorem stands_withByte {index : Nat} {rest : UInt8 → Handled}
    (inside : index < req.rbuf.length) (stands : ∀ ch, (rest ch).Stands) :
    (req.withByte index rest).Stands := by
  rw [withByte, List.getElem?_eq_getElem inside]
  exact stands _

theorem stands_withDistance (standing : req.Standing) {rest : Nat → Handled}
    (stands : (rest (req.parseOffset - req.parseMatch)).Stands) :
    (req.withDistance rest).Stands := by
  rw [withDistance, if_pos standing.matched]
  exact stands

theorem stands_withNameByte {name : Bytes} {index : Nat} {rest : UInt8 → Handled}
    (inside : index ≤ name.length) (stands : ∀ c, (rest c).Stands) :
    (req.withNameByte name index rest).Stands := by
  have bound : index < (name ++ [0]).length := by
    rw [List.length_append]
    exact Nat.lt_succ_of_le inside
  rw [withNameByte, List.getElem?_eq_getElem bound]
  exact stands _

theorem stands_lookAhead {index : Nat} {expected : Bytes} {found missed : Handled}
    (inside : req.parseOffset + index + expected.length ≤ req.rbuf.length)
    (foundStands : found.Stands) (missedStands : missed.Stands) :
    (req.lookAhead index expected found missed).Stands := by
  induction expected generalizing index with
  | nil => exact foundStands
  | cons c rest inductionHypothesis =>
      rw [List.length_cons] at inside
      apply stands_withByte (by omega)
      intro ch
      split
      · exact inductionHypothesis (by omega)
      · exact missedStands

theorem Standing.inside (standing : req.Standing) (more : req.parseOffset < req.rbufLen) :
    req.parseOffset < req.rbuf.length :=
  Nat.lt_of_lt_of_le more standing.filled

variable (standing : req.Standing) (more : req.parseOffset < req.rbufLen)
include standing more

theorem stands_handleEol (here : req.parseStatus = .eol) (c : UInt8) :
    (req.handleEol c).Stands := by
  have more := standing.inside more
  have begun := standing.begun here
  unfold handleEol
  split
  · split
    next zero => omega
    next =>
      apply stands_withByte (by omega)
      intro previous
      split
      · exact stands_bottom standing more rfl rfl rfl rfl (.inr rfl)
      · exact ⟨standing, by decide⟩
  · exact stands_bottom standing more rfl rfl rfl rfl (.inl rfl)

theorem stands_handleStart (c : UInt8) :
    (req.handleStart c).Stands := by
  have more := standing.inside more
  unfold handleStart
  repeat' split
  all_goals first
    | exact stands_bottom standing more rfl rfl rfl rfl (.inl rfl)
    | refine ⟨⟨standing.filled, standing.within, standing.matched, standing.headed, ?_⟩,
        by decide⟩
  intro impossible
  cases impossible

theorem stands_handleMethod (c : UInt8) :
    (req.handleMethod c).Stands := by
  have more := standing.inside more
  unfold handleMethod
  split
  · exact ⟨standing, by decide⟩
  next name named =>
    split
    · split
      · split
        · exact ⟨standing, by decide⟩
        · refine ⟨standing.filled, standing.within, le_refl _, standing.headed, ?_⟩
          intro impossible
          cases impossible
      · exact stands_bottom standing more rfl rfl rfl rfl (.inl rfl)
    next inside =>
      apply stands_withDistance standing
      apply stands_withNameByte (by omega)
      intro expected
      split
      · exact ⟨standing, by decide⟩
      · exact stands_bottom standing more rfl rfl rfl rfl (.inl rfl)

theorem stands_handleMethodP (c : UInt8) : (req.handleMethodP c).Stands := by
  have more := standing.inside more
  unfold handleMethodP
  repeat' split
  all_goals first
    | exact stands_bottom standing more rfl rfl rfl rfl (.inl rfl)
    | refine ⟨⟨standing.filled, standing.within, standing.matched, standing.headed, ?_⟩,
        by decide⟩
  intro impossible
  cases impossible

theorem stands_handlePath (ch : UInt8) : (req.handlePath ch).Stands := by
  have more := standing.inside more
  unfold handlePath
  repeat' split
  all_goals first
    | exact stands_bottom standing more rfl rfl rfl rfl (.inl rfl)
    | exact standing.next more rfl rfl rfl rfl (.inl rfl)
    | exact ⟨standing, by decide⟩

theorem stands_handleQueryString (ch : UInt8) : (req.handleQueryString ch).Stands := by
  have more := standing.inside more
  unfold handleQueryString
  repeat' split
  all_goals first
    | exact stands_bottom standing more rfl rfl rfl rfl (.inl rfl)
    | exact ⟨standing, by decide⟩

/-- The nine bytes that `S_HEADER_FIELD` looks at are in the buffer. -/
theorem stands_handleContent (long : 9 ≤ req.rbufLen - req.parseOffset) :
    req.handleContent.Stands := by
  have inside := standing.filled
  have more := standing.inside more
  have missed : ∀ {next : Request}, next.rbuf = req.rbuf → next.rbufLen = req.rbufLen →
      next.headerLen = req.headerLen → next.parseOffset = req.parseOffset →
      next.parseMatch = req.parseMatch ∨ next.parseMatch = req.parseOffset →
      (Handled.bottom next).Stands := fun rbuf rbufLen headerLen offset match_ =>
    stands_bottom standing more rbuf rbufLen headerLen offset match_
  apply stands_lookAhead
  · change req.parseOffset + 1 + 7 ≤ _
    omega
  · apply stands_withByte (by omega)
    intro ch
    split
    · exact missed rfl rfl rfl rfl (.inr rfl)
    · split
      · exact missed rfl rfl rfl rfl (.inr rfl)
      · exact missed rfl rfl rfl rfl (.inl rfl)
  · exact missed rfl rfl rfl rfl (.inl rfl)

theorem stands_handleHeaderField (c : UInt8) : (req.handleHeaderField c).Stands := by
  have here := standing.inside more
  unfold handleHeaderField
  split
  · exact stands_bottom standing here rfl rfl rfl rfl (.inl rfl)
  · split
    · split
      · exact standing.next here rfl rfl rfl rfl (.inl rfl)
      next long => exact stands_handleContent standing more (Nat.not_lt.mp long)
    · split
      · exact stands_bottom standing here rfl rfl rfl rfl (.inr rfl)
      · exact stands_bottom standing here rfl rfl rfl rfl (.inl rfl)

theorem stands_handleEoh (c : UInt8) : (req.handleEoh c).Stands := by
  have more := standing.inside more
  unfold handleEoh
  split
  · exact ⟨⟨standing.filled, standing.within, standing.matched, more, standing.begun⟩,
      by decide⟩
  · exact ⟨standing, by decide⟩

theorem stands_handleName (name : Bytes) {value : RequestParseStatus} (notEol : value ≠ .eol)
    (c : UInt8) : (req.handleName name value c).Stands := by
  have more := standing.inside more
  apply stands_withDistance standing
  split
  · split
    · exact ⟨standing.filled, standing.within, le_refl _, standing.headed,
        fun impossible => absurd impossible notEol⟩
    · exact stands_bottom standing more rfl rfl rfl rfl (.inl rfl)
  · apply stands_withNameByte (by omega)
    intro expected
    split
    · exact stands_bottom standing more rfl rfl rfl rfl (.inl rfl)
    · exact stands_bottom standing more rfl rfl rfl rfl (.inl rfl)

theorem stands_handle (ch c : UInt8) : (req.handle ch c).Stands := by
  have inside := standing.inside more
  unfold handle handleAt
  cases here : req.parseStatus with
  | eol => exact stands_handleEol standing more here c
  | start => exact stands_handleStart standing more c
  | method => exact stands_handleMethod standing more c
  | methodP => exact stands_handleMethodP standing more c
  | path => exact stands_handlePath standing more ch
  | queryString => exact stands_handleQueryString standing more ch
  | headerField => exact stands_handleHeaderField standing more c
  | eoh => exact stands_handleEoh standing more c
  | contentLength => exact stands_handleName standing more _ (by decide) c
  | secWebsocketKey => exact stands_handleName standing more _ (by decide) c
  | contentType => exact stands_handleName standing more _ (by decide) c
  | contentLengthV =>
      change (req.handleContentLengthV c).Stands
      unfold handleContentLengthV
      repeat' split
      all_goals first
        | exact stands_bottom standing inside rfl rfl rfl rfl (.inl rfl)
        | exact ⟨standing, by decide⟩
  | secWebsocketKeyV =>
      change (req.handleSecWebsocketKeyV ch c).Stands
      unfold handleSecWebsocketKeyV
      split
      · exact stands_bottom standing inside rfl rfl rfl rfl (.inl rfl)
      · exact stands_bottom standing inside rfl rfl rfl rfl (.inl rfl)
  | contentTypeV =>
      change (req.handleContentTypeV ch c).Stands
      unfold handleContentTypeV
      split
      · exact stands_bottom standing inside rfl rfl rfl rfl (.inl rfl)
      · exact stands_bottom standing inside rfl rfl rfl rfl (.inl rfl)
  | upgrade => exact stands_bottom standing inside rfl rfl rfl rfl (.inl rfl)

end Handlers

section Runs

variable {req : Request}

/-- One round of the parser keeps the offsets in order, and stays in the buffer. -/
theorem standing_round (standing : req.Standing) :
    match parser.round req with
    | .advance next _ => next.Standing
    | .leave last status => last.Standing ∧ status ≠ .outOfRange := by
  rw [parser_round]
  by_cases more : req.parseOffset < req.rbufLen
  · obtain ⟨ch, read⟩ : ∃ ch, req.rbuf[req.parseOffset]? = some ch :=
      ⟨_, List.getElem?_eq_getElem (standing.inside more)⟩
    have stands : (if token ch = 0 then Handled.break req .error
        else req.handle ch (token ch)).Stands := by
      split
      · exact ⟨standing, by decide⟩
      · exact stands_handle standing more _ _
    rw [parseByte_of_byte more read]
    cases handled : (if token ch = 0 then Handled.break req .error
        else req.handle ch (token ch)) with
    | bottom next =>
        rw [handled] at stands
        exact stands
    | again next =>
        rw [handled] at stands
        exact stands
    | «break» last status =>
        rw [handled] at stands
        exact stands
  · rw [parseByte_of_end (Nat.not_lt.mp more)]
    exact ⟨standing, by decide⟩

/-- A call of `Request::Parse` ends with its offsets in order, and does not leave its
buffer. -/
theorem standing_parse (standing : req.Standing) :
    req.parse.state.Standing ∧ req.parse.verdict ≠ .outOfRange := by
  refine parser.run_invariant Standing (fun last status => last.Standing ∧ status ≠ .outOfRange)
    ?_ ?_ standing
  · intro state next outputs holds taken
    have round := standing_round holds
    rw [taken] at round
    exact round
  · intro state last status holds left
    have round := standing_round holds
    rw [left] at round
    exact round

theorem standing_append (standing : req.Standing) (bytes : Bytes) :
    (req.append bytes).Standing := by
  obtain ⟨filled, within, matched, headed, begun⟩ := standing
  refine ⟨?_, ?_, matched, ?_, begun⟩
  · rw [append_rbufLen, append_rbuf, List.length_append]
    omega
  · rw [append_rbuf, List.length_append]
    exact Nat.le_add_right_of_le within
  · rw [append_rbuf, List.length_append]
    exact Nat.le_add_right_of_le headed

theorem parseOffset_of_continues (waiting : req.parse.verdict = .continues) :
    req.parse.state.rbufLen ≤ req.parse.state.parseOffset := by
  obtain ⟨visited, reached, left⟩ := parser.exists_visits_leave req
  rw [parser_round] at left
  rcases visited.parseByte_cases with ⟨ended, round⟩ | ⟨_, handled, frames, round⟩
  · rw [round] at left
    injection left with sameState
    unfold parse
    rw [← sameState]
    exact ended
  · rw [round] at left
    cases handled with
    | bottom next => cases left
    | again next => cases left
    | «break» last status =>
        injection left with _ sameStatus
        exact absurd (sameStatus.trans waiting) frames.2.2.2

end Runs

end Mevent.Request
