import Mevent.Request.Parse

/-!
# The rounds of `Request::Parse`

What the handlers of the parser states leave alone, and the loop they are run by.
-/

namespace Mevent.Request

open Library

/-- The states that may be left without consuming a byte. -/
def lingers (status : RequestParseStatus) : Bool :=
  match status with
  | .method | .contentLength | .secWebsocketKey | .contentType => true
  | _ => false

/-- What every handler leaves as it was: `status_`, the buffer, and the offset unless
a byte is consumed by `continue`.  None of them asks for more input. -/
def Handled.Frames (req : Request) : Handled → Prop
  | .bottom next =>
      next.status = req.status ∧ next.rbuf = req.rbuf ∧ next.rbufLen = req.rbufLen ∧
        next.parseOffset = req.parseOffset
  | .again next =>
      next.status = req.status ∧ next.rbuf = req.rbuf ∧ next.rbufLen = req.rbufLen ∧
        (next.parseOffset = req.parseOffset + 1 ∨
          next.parseOffset = req.parseOffset ∧
            lingers req.parseStatus = true ∧ lingers next.parseStatus = false)
  | .break last status =>
      last.status = req.status ∧ last.rbuf = req.rbuf ∧ last.rbufLen = req.rbufLen ∧
        status ≠ .continues

theorem frames_withByte {req : Request} {index : Nat} {rest : UInt8 → Handled}
    (frames : ∀ ch, (rest ch).Frames req) : (req.withByte index rest).Frames req := by
  unfold withByte
  split
  · exact frames _
  · exact ⟨rfl, rfl, rfl, nofun⟩

theorem frames_withDistance {req : Request} {rest : Nat → Handled}
    (frames : ∀ distance, (rest distance).Frames req) :
    (req.withDistance rest).Frames req := by
  unfold withDistance
  split
  · exact frames _
  · exact ⟨rfl, rfl, rfl, nofun⟩

theorem frames_withNameByte {req : Request} {name : Bytes} {index : Nat}
    {rest : UInt8 → Handled} (frames : ∀ c, (rest c).Frames req) :
    (req.withNameByte name index rest).Frames req := by
  unfold withNameByte
  split
  · exact frames _
  · exact ⟨rfl, rfl, rfl, nofun⟩

theorem frames_lookAhead {req : Request} {index : Nat} {expected : Bytes}
    {found missed : Handled} (foundFrames : found.Frames req)
    (missedFrames : missed.Frames req) :
    (req.lookAhead index expected found missed).Frames req := by
  induction expected generalizing index with
  | nil => exact foundFrames
  | cons c rest inductionHypothesis =>
      apply frames_withByte
      intro ch
      split
      · exact inductionHypothesis
      · exact missedFrames

theorem frames_handleName {req : Request} (name : Bytes) (value : RequestParseStatus)
    (c : UInt8) (starts : lingers req.parseStatus = true) (ends : lingers value = false) :
    (req.handleName name value c).Frames req := by
  apply frames_withDistance
  intro distance
  split
  · split
    · exact ⟨rfl, rfl, rfl, .inr ⟨rfl, starts, ends⟩⟩
    · exact ⟨rfl, rfl, rfl, rfl⟩
  · apply frames_withNameByte
    intro expected
    split
    · exact ⟨rfl, rfl, rfl, rfl⟩
    · exact ⟨rfl, rfl, rfl, rfl⟩

theorem frames_handleMethod {req : Request} (c : UInt8)
    (here : req.parseStatus = .method) : (req.handleMethod c).Frames req := by
  unfold handleMethod
  split
  · exact ⟨rfl, rfl, rfl, nofun⟩
  · split
    · split
      · split
        · exact ⟨rfl, rfl, rfl, nofun⟩
        · exact ⟨rfl, rfl, rfl, .inr ⟨rfl, by rw [here]; rfl, rfl⟩⟩
      · exact ⟨rfl, rfl, rfl, rfl⟩
    · apply frames_withDistance
      intro distance
      apply frames_withNameByte
      intro expected
      split
      · exact ⟨rfl, rfl, rfl, nofun⟩
      · exact ⟨rfl, rfl, rfl, rfl⟩

theorem frames_handleContent {req : Request} : req.handleContent.Frames req := by
  apply frames_lookAhead
  · apply frames_withByte
    intro ch
    split
    · exact ⟨rfl, rfl, rfl, rfl⟩
    · split
      · exact ⟨rfl, rfl, rfl, rfl⟩
      · exact ⟨rfl, rfl, rfl, rfl⟩
  · exact ⟨rfl, rfl, rfl, rfl⟩

theorem frames_handleHeaderField {req : Request} (c : UInt8) :
    (req.handleHeaderField c).Frames req := by
  unfold handleHeaderField
  split
  · exact ⟨rfl, rfl, rfl, rfl⟩
  · split
    · split
      · exact ⟨rfl, rfl, rfl, .inl rfl⟩
      · exact frames_handleContent
    · split
      · exact ⟨rfl, rfl, rfl, rfl⟩
      · exact ⟨rfl, rfl, rfl, rfl⟩

theorem frames_handle (req : Request) (ch c : UInt8) : (req.handle ch c).Frames req := by
  unfold handle handleAt
  split
  next here =>
    unfold handleEol
    split
    · split
      · exact ⟨rfl, rfl, rfl, nofun⟩
      · apply frames_withByte
        intro previous
        split
        · exact ⟨rfl, rfl, rfl, rfl⟩
        · exact ⟨rfl, rfl, rfl, nofun⟩
    · exact ⟨rfl, rfl, rfl, rfl⟩
  next here =>
    unfold handleStart
    repeat' split
    all_goals first | exact ⟨rfl, rfl, rfl, rfl⟩ | exact ⟨rfl, rfl, rfl, nofun⟩
  next here => exact frames_handleMethod c here
  next here =>
    unfold handleMethodP
    repeat' split
    all_goals first | exact ⟨rfl, rfl, rfl, rfl⟩ | exact ⟨rfl, rfl, rfl, nofun⟩
  next here =>
    unfold handlePath
    repeat' split
    all_goals first
      | exact ⟨rfl, rfl, rfl, rfl⟩
      | exact ⟨rfl, rfl, rfl, .inl rfl⟩
      | exact ⟨rfl, rfl, rfl, nofun⟩
  next here =>
    unfold handleQueryString
    repeat' split
    all_goals first | exact ⟨rfl, rfl, rfl, rfl⟩ | exact ⟨rfl, rfl, rfl, nofun⟩
  next here => exact frames_handleHeaderField c
  next here =>
    unfold handleEoh
    split
    · exact ⟨rfl, rfl, rfl, nofun⟩
    · exact ⟨rfl, rfl, rfl, nofun⟩
  next here => exact frames_handleName _ _ c (by rw [here]; rfl) rfl
  next here =>
    unfold handleContentLengthV
    repeat' split
    all_goals first | exact ⟨rfl, rfl, rfl, rfl⟩ | exact ⟨rfl, rfl, rfl, nofun⟩
  next here => exact frames_handleName _ _ c (by rw [here]; rfl) rfl
  next here =>
    unfold handleSecWebsocketKeyV
    split
    · exact ⟨rfl, rfl, rfl, rfl⟩
    · exact ⟨rfl, rfl, rfl, rfl⟩
  next here => exact frames_handleName _ _ c (by rw [here]; rfl) rfl
  next here =>
    unfold handleContentTypeV
    split
    · exact ⟨rfl, rfl, rfl, rfl⟩
    · exact ⟨rfl, rfl, rfl, rfl⟩
  next here => exact ⟨rfl, rfl, rfl, rfl⟩

theorem handleHeaderField_of_short {req : Request}
    (short : req.rbufLen - req.parseOffset < 9) :
    req.handleHeaderField 'c'.toUInt8 =
      .again { req with parseOffset := req.parseOffset + 1 } := by
  unfold handleHeaderField
  rw [if_neg (by decide), if_pos rfl, if_pos short]

theorem handleHeaderField_of_long {req : Request}
    (long : 9 ≤ req.rbufLen - req.parseOffset) :
    req.handleHeaderField 'c'.toUInt8 = req.handleContent := by
  unfold handleHeaderField
  rw [if_neg (by decide), if_pos rfl, if_neg (Nat.not_lt.mpr long)]

theorem handleHeaderField_of_plain {req : Request} {c : UInt8}
    (notCr : c ≠ cr) (notC : c ≠ 'c'.toUInt8) (notS : c ≠ 's'.toUInt8) :
    req.handleHeaderField c = .bottom { req with parseStatus := .eol } := by
  unfold handleHeaderField
  rw [if_neg notCr, if_neg notC, if_neg notS]

theorem lookAhead_of_inside {req : Request} {index : Nat} {expected : Bytes}
    {found missed : Handled}
    (inside : req.parseOffset + index + expected.length ≤ req.rbuf.length) :
    req.lookAhead index expected found missed =
      if ((req.rbuf.drop (req.parseOffset + index)).take expected.length).map token = expected
      then found else missed := by
  induction expected generalizing index with
  | nil => simp [lookAhead]
  | cons c rest inductionHypothesis =>
      rw [List.length_cons] at inside
      have byteInside : req.parseOffset + index < req.rbuf.length := by omega
      rw [lookAhead, withByte, List.getElem?_eq_getElem byteInside]
      rw [inductionHypothesis (by omega)]
      rw [List.drop_eq_getElem_cons byteInside, List.length_cons, List.take_succ_cons,
        List.map_cons, Nat.add_assoc]
      by_cases same : token req.rbuf[req.parseOffset + index] = c
      · simp [same]
      · simp [same]

/-- Which field a line that begins with `c` is taken for. -/
theorem handleContent_of_inside {req : Request}
    (inside : req.parseOffset + 9 ≤ req.rbuf.length)
    (isC : (req.rbuf[req.parseOffset]?).map token = some 'c'.toUInt8) :
    req.handleContent =
      if ((req.rbuf.drop req.parseOffset).take 9).map token = contentLengthName.take 9 then
        .bottom { req with parseStatus := .contentLength, parseMatch := req.parseOffset }
      else if ((req.rbuf.drop req.parseOffset).take 9).map token = contentTypeName.take 9 then
        .bottom { req with parseStatus := .contentType, parseMatch := req.parseOffset }
      else
        .bottom { req with parseStatus := .eol } := by
  have first : req.parseOffset < req.rbuf.length := by omega
  have last : req.parseOffset + 8 < req.rbuf.length := by omega
  rw [List.getElem?_eq_getElem first, Option.map_some, Option.some.injEq] at isC
  have line : ((req.rbuf.drop req.parseOffset).take 9).map token =
      'c'.toUInt8 :: ((req.rbuf.drop (req.parseOffset + 1)).take 7).map token ++
        [token req.rbuf[req.parseOffset + 8]] := by
    rw [List.drop_eq_getElem_cons first, List.take_succ_cons, List.map_cons, isC]
    rw [List.take_add_one]
    simp [last]
  have lengthName : contentLengthName.take 9 =
      'c'.toUInt8 :: ascii ['o', 'n', 't', 'e', 'n', 't', '-'] ++ ['l'.toUInt8] := by
    decide
  have typeName : contentTypeName.take 9 =
      'c'.toUInt8 :: ascii ['o', 'n', 't', 'e', 'n', 't', '-'] ++ ['t'.toUInt8] := by
    decide
  unfold handleContent
  rw [lookAhead_of_inside (by change _ + 7 ≤ _; omega)]
  rw [withByte, List.getElem?_eq_getElem last, line, lengthName, typeName]
  have seven : (ascii ['o', 'n', 't', 'e', 'n', 't', '-']).length = 7 := rfl
  rw [seven]
  by_cases content : ((req.rbuf.drop (req.parseOffset + 1)).take 7).map token =
      ascii ['o', 'n', 't', 'e', 'n', 't', '-']
  · simp [content]
  · have notName : ∀ first second : UInt8,
        'c'.toUInt8 :: ((req.rbuf.drop (req.parseOffset + 1)).take 7).map token ++ [first] ≠
          'c'.toUInt8 :: ascii ['o', 'n', 't', 'e', 'n', 't', '-'] ++ [second] := by
      intro first second same
      have front := List.append_inj_left' same rfl
      exact content (List.cons.inj front).2
    rw [if_neg content, if_neg (notName _ _), if_neg (notName _ _)]

theorem handleName_of_matched {req : Request} {name : Bytes} (named : name ≠ [])
    (matched : req.parseMatch + name.length ≤ req.parseOffset)
    (value : RequestParseStatus) (c : UInt8) :
    req.handleName name value c =
      if c ≠ space ∧ c ≠ ':'.toUInt8 then
        .again { req with parseStatus := value, parseMatch := req.parseOffset }
      else
        .bottom req := by
  have positive := List.length_pos_iff.mpr named
  have behind : name.length - 1 < req.parseOffset - req.parseMatch := by omega
  unfold handleName withDistance
  rw [if_pos (by omega)]
  exact if_pos behind

theorem handleName_of_compared {req : Request} {done later : Bytes} {expected : UInt8}
    (compared : req.parseMatch + done.length = req.parseOffset)
    (value : RequestParseStatus) (c : UInt8) :
    req.handleName (done ++ expected :: later) value c =
      if expected ≠ c then .bottom { req with parseStatus := .eol } else .bottom req := by
  have distance : req.parseOffset - req.parseMatch = done.length := by omega
  have inside : ¬ (done ++ expected :: later).length - 1 < done.length := by
    rw [List.length_append, List.length_cons]
    omega
  have byte : (done ++ expected :: later ++ [0])[done.length]? = some expected := by
    simp
  unfold handleName withDistance
  rw [if_pos (by omega), distance]
  refine (if_neg inside).trans ?_
  rw [withNameByte, byte]

/-- An upper bound for the rounds still to come. -/
def remaining (req : Request) : Nat :=
  2 * (req.rbufLen - req.parseOffset) + if lingers req.parseStatus then 1 else 0

theorem parseByte_of_end {req : Request} (complete : req.rbufLen ≤ req.parseOffset) :
    req.parseByte = .leave req .continues := by
  unfold parseByte
  rw [if_neg (Nat.not_lt.mpr complete)]

theorem parseByte_of_byte {req : Request} {ch : UInt8}
    (more : req.parseOffset < req.rbufLen)
    (read : req.rbuf[req.parseOffset]? = some ch) :
    req.parseByte =
      (if token ch = 0 then .break req .error else req.handle ch (token ch)).finish := by
  unfold parseByte withByte
  rw [if_pos more, read]

theorem parseByte_cases (req : Request) :
    req.rbufLen ≤ req.parseOffset ∧ req.parseByte = .leave req .continues ∨
      req.parseOffset < req.rbufLen ∧ ∃ handled : Handled,
        handled.Frames req ∧ req.parseByte = handled.finish := by
  by_cases more : req.parseOffset < req.rbufLen
  · right
    refine ⟨more, _, ?_, by unfold parseByte; rw [if_pos more]⟩
    apply frames_withByte
    intro ch
    split
    · exact ⟨rfl, rfl, rfl, nofun⟩
    · exact frames_handle req ch _
  · left
    exact ⟨Nat.not_lt.mp more, parseByte_of_end (Nat.not_lt.mp more)⟩

theorem remaining_of_advance {req next : Request} {outputs : List Empty}
    (taken : req.parseByte = .advance next outputs) : next.remaining < req.remaining := by
  rcases req.parseByte_cases with ⟨_, ended⟩ | ⟨more, handled, frames, round⟩
  · rw [ended] at taken
    cases taken
  · rw [round] at taken
    cases handled with
    | bottom last =>
        obtain ⟨_, _, sameLength, sameOffset⟩ := frames
        cases taken
        unfold remaining
        simp only [sameLength, sameOffset]
        split
        · split <;> omega
        · split <;> omega
    | again last =>
        obtain ⟨_, _, sameLength, consumed | ⟨sameOffset, starts, ends⟩⟩ := frames
        · cases taken
          unfold remaining
          simp only [sameLength, consumed]
          split
          · split <;> omega
          · split <;> omega
        · cases taken
          unfold remaining
          simp only [sameLength, sameOffset, starts, ends]
          simp
    | «break» last status => cases taken

/-- The loop of `Request::Parse`. -/
def parser : Scanner Request Empty HTTPParserStatus where
  round := parseByte
  remaining := remaining
  decreases := remaining_of_advance

/-- `Request::Parse`. -/
def parse (req : Request) : Scanned Request Empty HTTPParserStatus :=
  parser.run req

theorem parser_round (req : Request) : parser.round req = req.parseByte := rfl

theorem rbuf_of_advance {req next : Request} {outputs : List Empty}
    (taken : parser.round req = .advance next outputs) :
    next.rbuf = req.rbuf ∧ next.rbufLen = req.rbufLen := by
  rw [parser_round] at taken
  rcases req.parseByte_cases with ⟨_, ended⟩ | ⟨_, handled, frames, round⟩
  · rw [ended] at taken
    cases taken
  · rw [round] at taken
    cases handled with
    | bottom last =>
        cases taken
        exact ⟨frames.2.1, frames.2.2.1⟩
    | again last =>
        cases taken
        exact ⟨frames.2.1, frames.2.2.1⟩
    | «break» last status => cases taken

theorem rbuf_of_leave {req last : Request} {status : HTTPParserStatus}
    (left : parser.round req = .leave last status) :
    last.rbuf = req.rbuf ∧ last.rbufLen = req.rbufLen := by
  rw [parser_round] at left
  rcases req.parseByte_cases with ⟨_, ended⟩ | ⟨_, handled, frames, round⟩
  · rw [ended] at left
    cases left
    exact ⟨rfl, rfl⟩
  · rw [round] at left
    cases handled with
    | bottom next => cases left
    | again next => cases left
    | «break» next verdict =>
        cases left
        exact ⟨frames.2.1, frames.2.2.1⟩

theorem status_of_advance {req next : Request} {outputs : List Empty}
    (taken : parser.round req = .advance next outputs) : next.status = req.status := by
  rw [parser_round] at taken
  rcases req.parseByte_cases with ⟨_, ended⟩ | ⟨_, handled, frames, round⟩
  · rw [ended] at taken
    cases taken
  · rw [round] at taken
    cases handled with
    | bottom last =>
        cases taken
        exact frames.1
    | again last =>
        cases taken
        exact frames.1
    | «break» last status => cases taken

theorem status_of_leave {req last : Request} {status : HTTPParserStatus}
    (left : parser.round req = .leave last status) : last.status = req.status := by
  rw [parser_round] at left
  rcases req.parseByte_cases with ⟨_, ended⟩ | ⟨_, handled, frames, round⟩
  · rw [ended] at left
    cases left
    rfl
  · rw [round] at left
    cases handled with
    | bottom next => cases left
    | again next => cases left
    | «break» next verdict =>
        cases left
        exact frames.1

/-- The parser does not touch `status_`. -/
theorem status_parse (req : Request) : req.parse.state.status = req.status := by
  refine parser.run_invariant (·.status = req.status) (fun last _ => last.status = req.status)
    ?_ ?_ rfl
  · intro state next outputs same taken
    exact (status_of_advance taken).trans same
  · intro state last verdict same left
    exact (status_of_leave left).trans same

theorem rbuf_of_visits {req visited : Request} (reached : parser.Visits req visited) :
    visited.rbuf = req.rbuf ∧ visited.rbufLen = req.rbufLen := by
  induction reached with
  | here => exact ⟨rfl, rfl⟩
  | later taken _ inductionHypothesis =>
      obtain ⟨sameBuffer, sameLength⟩ := rbuf_of_advance taken
      rw [inductionHypothesis.1, inductionHypothesis.2]
      exact ⟨sameBuffer, sameLength⟩

theorem rbuf_parse (req : Request) :
    req.parse.state.rbuf = req.rbuf ∧ req.parse.state.rbufLen = req.rbufLen := by
  unfold parse
  induction req using parser.run_induction with
  | leave req last status left =>
      rw [parser.run_of_leave left]
      exact rbuf_of_leave left
  | advance req next outputs taken inductionHypothesis =>
      obtain ⟨sameBuffer, sameLength⟩ := rbuf_of_advance taken
      rw [parser.run_of_advance taken, Scanned.after_state]
      rw [inductionHypothesis.1, inductionHypothesis.2]
      exact ⟨sameBuffer, sameLength⟩

end Mevent.Request
