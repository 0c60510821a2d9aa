import Mevent.Request.Texts

/-!
# Heads that arrive in pieces

What the parser looks at of a header line when the head arrives in pieces: in front of a line it
skips every `c` from which fewer than nine bytes have arrived.  The pieces up to the end of a line
are as good as one, since the parser looks ahead in front of a line only.
-/

namespace Mevent.Request

open Library

/-- The bytes from an offset on that have arrived as soon as one of them has. -/
def arrived : List Bytes → Nat → Nat
  | [], _ => 0
  | piece :: rest, offset =>
      if offset < piece.length then piece.length - offset
      else arrived rest (offset - piece.length)

/-- The part of a line that is read as a line.  A `c` with less than nine bytes from there is
skipped. -/
def seenAt (pieces : List Bytes) (offset : Nat) : Bytes → Bytes
  | [] => []
  | ch :: line =>
      if token ch = 'c'.toUInt8 ∧ arrived pieces offset < 9 then
        seenAt pieces (offset + 1) line
      else
        ch :: line

/-- What is read of the header lines.  A line of which nothing is seen ends the head. -/
def seenLines (pieces : List Bytes) (offset : Nat) : List Bytes → List Bytes
  | [] => []
  | line :: lines =>
      if seenAt pieces offset line = [] then
        []
      else
        seenAt pieces offset line :: seenLines pieces (offset + line.length + 2) lines

section Arrived

variable {piece next : Bytes} {rest pieces later : List Bytes} {shift : Nat}

theorem arrived_here {offset : Nat} (inside : offset < piece.length) :
    arrived (piece :: rest) offset = piece.length - offset := if_pos inside

theorem arrived_drop (front : Bytes) (offset : Nat) :
    arrived ((front ++ piece) :: rest) (front.length + offset) =
      arrived (piece :: rest) offset := by
  unfold arrived
  rw [List.length_append]
  by_cases inside : offset < piece.length
  · rw [if_pos (by omega), if_pos inside]
    omega
  · rw [if_neg (by omega), if_neg inside]
    congr 1
    omega

theorem arrived_join {offset : Nat} (behind : piece.length ≤ offset) :
    arrived (piece :: next :: rest) offset = arrived ((piece ++ next) :: rest) offset := by
  have first : arrived (piece :: next :: rest) offset =
      arrived (next :: rest) (offset - piece.length) := if_neg (Nat.not_lt.mpr behind)
  rw [first, ← arrived_drop piece, Nat.add_sub_cancel' behind]

theorem seenAt_shift (same : ∀ offset, arrived pieces (shift + offset) = arrived later offset)
    (offset : Nat) (line : Bytes) :
    seenAt pieces (shift + offset) line = seenAt later offset line := by
  induction line generalizing offset with
  | nil => rfl
  | cons ch line inductionHypothesis =>
      rw [seenAt, seenAt, same, Nat.add_assoc, inductionHypothesis]

theorem seenLines_shift (same : ∀ offset, arrived pieces (shift + offset) = arrived later offset)
    (offset : Nat) (lines : List Bytes) :
    seenLines pieces (shift + offset) lines = seenLines later offset lines := by
  induction lines generalizing offset with
  | nil => rfl
  | cons line lines inductionHypothesis =>
      rw [seenLines, seenLines, seenAt_shift same, Nat.add_assoc, Nat.add_assoc,
        inductionHypothesis, Nat.add_assoc]

end Arrived

section WithinLine

variable {req : Request}

def InLine (status : RequestParseStatus) : Prop := status ≠ .headerField ∧ status ≠ .eoh

/-- A handler stays inside the line, finds a carriage return in front of it, or fails. -/
def Handled.StaysInLine (c : UInt8) : Handled → Prop
  | .bottom next => InLine next.parseStatus ∨ next.parseStatus = .eoh ∧ c = cr
  | .again next => InLine next.parseStatus
  | .break _ status => status ≠ .finished

theorem staysInLine_withByte {c : UInt8} {index : Nat} {rest : UInt8 → Handled}
    (stays : ∀ ch, (rest ch).StaysInLine c) : (req.withByte index rest).StaysInLine c := by
  unfold withByte
  split
  · exact stays _
  · exact nofun

theorem staysInLine_withDistance {c : UInt8} {rest : Nat → Handled}
    (stays : ∀ distance, (rest distance).StaysInLine c) :
    (req.withDistance rest).StaysInLine c := by
  unfold withDistance
  split
  · exact stays _
  · exact nofun

theorem staysInLine_withNameByte {c : UInt8} {name : Bytes} {index : Nat}
    {rest : UInt8 → Handled} (stays : ∀ expected, (rest expected).StaysInLine c) :
    (req.withNameByte name index rest).StaysInLine c := by
  unfold withNameByte
  split
  · exact stays _
  · exact nofun

theorem staysInLine_lookAhead {c : UInt8} {index : Nat} {expected : Bytes}
    {found missed : Handled} (foundStays : found.StaysInLine c)
    (missedStays : missed.StaysInLine c) :
    (req.lookAhead index expected found missed).StaysInLine c := by
  induction expected generalizing index with
  | nil => exact foundStays
  | cons first rest inductionHypothesis =>
      apply staysInLine_withByte
      intro ch
      split
      · exact inductionHypothesis
      · exact missedStays

theorem inLine_eol : InLine .eol := ⟨nofun, nofun⟩

theorem staysInLine_handleName (name : Bytes) {value : RequestParseStatus} (c : UInt8)
    (here : InLine req.parseStatus) (onValue : InLine value) :
    (req.handleName name value c).StaysInLine c := by
  apply staysInLine_withDistance
  intro distance
  split
  · split
    · exact onValue
    · exact .inl here
  · apply staysInLine_withNameByte
    intro expected
    split
    · exact .inl inLine_eol
    · exact .inl here

theorem staysInLine_handleMethod (c : UInt8) (here : InLine req.parseStatus) :
    (req.handleMethod c).StaysInLine c := by
  unfold handleMethod
  split
  · exact nofun
  · split
    · split
      · split
        · exact nofun
        · exact ⟨nofun, nofun⟩
      · exact .inl here
    · apply staysInLine_withDistance
      intro distance
      apply staysInLine_withNameByte
      intro expected
      split
      · exact nofun
      · exact .inl here

theorem staysInLine_handleContent (c : UInt8) : req.handleContent.StaysInLine c := by
  apply staysInLine_lookAhead
  · apply staysInLine_withByte
    intro ch
    split
    · exact .inl ⟨nofun, nofun⟩
    · split
      · exact .inl ⟨nofun, nofun⟩
      · exact .inl inLine_eol
  · exact .inl inLine_eol

theorem staysInLine_handleHeaderField (c : UInt8)
    (sees : c = 'c'.toUInt8 → 9 ≤ req.rbufLen - req.parseOffset) :
    (req.handleHeaderField c).StaysInLine c := by
  unfold handleHeaderField
  split
  next isCr => exact .inr ⟨rfl, isCr⟩
  next =>
    split
    next isC =>
      rw [if_neg (Nat.not_lt.mpr (sees isC))]
      exact staysInLine_handleContent c
    next =>
      split
      · exact .inl ⟨nofun, nofun⟩
      · exact .inl inLine_eol

/-- The parser stands on a line feed right behind a carriage return. -/
def OnLineEnd (req : Request) (c : UInt8) : Prop :=
  c = lf ∧ 0 < req.parseOffset ∧ req.rbuf[req.parseOffset - 1]? = some cr

theorem staysInLine_handleEol {c : UInt8} (here : InLine req.parseStatus)
    (goesOn : ¬ req.OnLineEnd c) : (req.handleEol c).StaysInLine c := by
  unfold handleEol
  split
  next isLf =>
    split
    · exact nofun
    next later =>
      unfold withByte
      cases read : req.rbuf[req.parseOffset - 1]? with
      | none => exact nofun
      | some previous =>
          dsimp only
          split
          next isCr => exact absurd ⟨isLf, Nat.pos_of_ne_zero later, isCr ▸ read⟩ goesOn
          next => exact nofun
  next => exact .inl here

/-- Only the end of a line leads to another one, and only that of the head out of it. -/
theorem staysInLine_handle {ch c : UInt8}
    (sees : req.parseStatus = .headerField → c = 'c'.toUInt8 → 9 ≤ req.rbufLen - req.parseOffset)
    (goesOn : req.parseStatus ≠ .headerField → ¬ req.OnLineEnd c)
    (ending : req.parseStatus = .eoh →
      0 < req.parseOffset ∧ req.rbuf[req.parseOffset - 1]? = some cr) :
    (req.handle ch c).StaysInLine c := by
  unfold handle handleAt
  cases status : req.parseStatus with
  | eol => exact staysInLine_handleEol (status ▸ inLine_eol) (goesOn (by rw [status]; decide))
  | method => exact staysInLine_handleMethod c (by rw [status]; exact ⟨nofun, nofun⟩)
  | headerField => exact staysInLine_handleHeaderField c (sees status)
  | eoh =>
      change (req.handleEoh c).StaysInLine c
      unfold handleEoh
      split
      next isLf => exact absurd ⟨isLf, ending status⟩ (goesOn (by rw [status]; decide))
      next => exact nofun
  | contentLength | secWebsocketKey | contentType =>
      exact staysInLine_handleName _ c (by rw [status]; exact ⟨nofun, nofun⟩) ⟨nofun, nofun⟩
  | start =>
      change (req.handleStart c).StaysInLine c
      unfold handleStart
      repeat' split
      all_goals simp [Handled.StaysInLine, InLine]
  | methodP =>
      change (req.handleMethodP c).StaysInLine c
      unfold handleMethodP
      repeat' split
      all_goals simp [Handled.StaysInLine, InLine]
  | path =>
      change (req.handlePath ch).StaysInLine c
      unfold handlePath
      repeat' split
      all_goals simp [Handled.StaysInLine, InLine, status]
  | queryString =>
      change (req.handleQueryString ch).StaysInLine c
      unfold handleQueryString
      repeat' split
      all_goals simp [Handled.StaysInLine, InLine, status]
  | contentLengthV =>
      change (req.handleContentLengthV c).StaysInLine c
      unfold handleContentLengthV
      repeat' split
      all_goals simp [Handled.StaysInLine, InLine, status]
  | secWebsocketKeyV =>
      change (req.handleSecWebsocketKeyV ch c).StaysInLine c
      unfold handleSecWebsocketKeyV
      split
      all_goals simp [Handled.StaysInLine, InLine, status]
  | contentTypeV =>
      change (req.handleContentTypeV ch c).StaysInLine c
      unfold handleContentTypeV
      split
      all_goals simp [Handled.StaysInLine, InLine, status]
  | upgrade => exact .inl (by rw [status]; exact ⟨nofun, nofun⟩)

/-- The parser is between a place of the buffer and the end of the line that begins there. -/
structure WithinLine (place : Nat) (req : Request) : Prop where
  synced : req.Synced
  unbroken : ¬ crlf <:+: req.rbuf.drop place
  sees : ¬ req.Skips
  behind : place ≤ req.parseOffset
  begun : req.parseStatus ≠ .headerField → place = 0 ∨ place < req.parseOffset
  ending : req.parseStatus = .eoh →
    0 < req.parseOffset ∧ req.rbuf[req.parseOffset - 1]? = some cr

theorem infix_crlf {place offset : Nat} {bytes : Bytes} (behind : place = 0 ∨ place < offset)
    (later : 0 < offset) (isCr : bytes[offset - 1]? = some cr) (isLf : bytes[offset]? = some lf) :
    crlf <:+: bytes.drop place := by
  obtain ⟨crInside, crThere⟩ := List.getElem?_eq_some_iff.mp isCr
  obtain ⟨lfInside, lfThere⟩ := List.getElem?_eq_some_iff.mp isLf
  have there : bytes.drop (offset - 1) = crlf ++ bytes.drop (offset + 1) := by
    rw [List.drop_eq_getElem_cons crInside, crThere, Nat.sub_add_cancel later,
      List.drop_eq_getElem_cons lfInside, lfThere]
    rfl
  have part : bytes.drop (offset - 1) = (bytes.drop place).drop (offset - 1 - place) := by
    rw [List.drop_drop]
    congr 1
    omega
  have found : crlf <+: bytes.drop (offset - 1) := there ▸ List.prefix_append _ _
  exact (part ▸ found.isInfix : crlf <:+: _).trans (List.drop_suffix _ _).isInfix

theorem WithinLine.goesOn {place : Nat} {ch : UInt8} (inside : WithinLine place req)
    (begun : req.parseStatus ≠ .headerField) (read : req.rbuf[req.parseOffset]? = some ch) :
    ¬ req.OnLineEnd (token ch) := by
  rintro ⟨isLf, later, isCr⟩
  rw [token_eq_lf_iff] at isLf
  exact inside.unbroken (infix_crlf (inside.begun begun) later isCr (isLf ▸ read))

/-- A byte of the line is consumed. -/
theorem WithinLine.bottom {place : Nat} {next : Request} {ch : UInt8}
    (inside : WithinLine place req) (read : req.rbuf[req.parseOffset]? = some ch)
    (frames : (Handled.bottom next).Frames req)
    (stays : (Handled.bottom next).StaysInLine (token ch)) :
    WithinLine place { next with parseOffset := next.parseOffset + 1 } := by
  obtain ⟨-, sameBuffer, sameLength, sameOffset⟩ := frames
  refine ⟨?_, ?_, ?_, ?_, ?_, ?_⟩
  · exact sameLength.trans (inside.synced.trans (congrArg List.length sameBuffer.symm))
  · exact sameBuffer ▸ inside.unbroken
  · rintro ⟨starts, -⟩
    rcases stays with line | ⟨ends, -⟩
    · exact line.1 starts
    · rw [ends] at starts
      cases starts
  · exact Nat.le_succ_of_le (sameOffset ▸ inside.behind)
  · intro _
    exact .inr (Nat.lt_succ_of_le (sameOffset ▸ inside.behind))
  · intro ends
    rcases stays with line | ⟨-, isCr⟩
    · exact absurd ends line.2
    · refine ⟨Nat.succ_pos _, ?_⟩
      rw [Nat.add_sub_cancel, sameBuffer, sameOffset, read, (token_eq_cr_iff _).mp isCr]

/-- The state changes and the byte is looked at once more, or it is the question mark. -/
theorem WithinLine.again {place : Nat} {next : Request} {c : UInt8}
    (inside : WithinLine place req) (frames : (Handled.again next).Frames req)
    (stays : (Handled.again next).StaysInLine c) : WithinLine place next := by
  obtain ⟨-, sameBuffer, sameLength, moved⟩ := frames
  have behind := inside.behind
  refine ⟨?_, ?_, ?_, ?_, ?_, ?_⟩
  · exact sameLength.trans (inside.synced.trans (congrArg List.length sameBuffer.symm))
  · exact sameBuffer ▸ inside.unbroken
  · rintro ⟨starts, -⟩
    exact stays.1 starts
  · omega
  · intro _
    rcases moved with further | ⟨sameOffset, lingering, -⟩
    · omega
    · rw [sameOffset]
      apply inside.begun
      intro starts
      rw [starts] at lingering
      cases lingering
  · intro ends
    exact absurd ends stays.2

theorem WithinLine.round {place : Nat} (inside : WithinLine place req) :
    match parser.round req with
    | .advance next _ => WithinLine place next
    | .leave _ status => status ≠ .finished := by
  rw [parser_round]
  by_cases more : req.parseOffset < req.rbufLen
  · have within : req.parseOffset < req.rbuf.length := inside.synced ▸ more
    have read : req.rbuf[req.parseOffset]? = some req.rbuf[req.parseOffset] :=
      List.getElem?_eq_getElem within
    rw [parseByte_of_byte more read]
    generalize req.rbuf[req.parseOffset] = ch at read
    by_cases unclean : token ch = 0
    · rw [if_pos unclean]
      exact nofun
    · rw [if_neg unclean]
      have frames := frames_handle req ch (token ch)
      have stays : (req.handle ch (token ch)).StaysInLine (token ch) := by
        apply staysInLine_handle _ (fun begun => inside.goesOn begun read) inside.ending
        intro here isC
        by_contra short
        exact inside.sees ⟨here, more, Nat.not_le.mp short, by rw [read, Option.map_some, isC]⟩
      cases handled : req.handle ch (token ch) with
      | bottom next =>
          rw [handled] at frames stays
          exact inside.bottom read frames stays
      | again next =>
          rw [handled] at frames stays
          exact inside.again frames stays
      | «break» last status =>
          rw [handled] at stays
          exact stays
  · rw [parseByte_of_end (Nat.not_lt.mp more)]
    exact nofun

theorem WithinLine.of_visits {place : Nat} {visited : Request} (inside : WithinLine place req)
    (reached : parser.Visits req visited) : WithinLine place visited := by
  induction reached with
  | here => exact inside
  | later taken _ inductionHypothesis =>
      have round := inside.round
      rw [taken] at round
      exact inductionHypothesis round

/-- The head does not end inside a line. -/
theorem WithinLine.verdict {place : Nat} (inside : WithinLine place req) :
    (parser.run req).verdict ≠ .finished := by
  obtain ⟨visited, reached, left⟩ := parser.exists_visits_leave req
  have round := (inside.of_visits reached).round
  rw [left] at round
  exact round

end WithinLine

section Pieces

variable {req : Request} {front piece next : Bytes} {rest : List Bytes}

theorem reading_append (req : Request) (front bytes : Bytes) :
    (req.reading front []).append bytes = req.reading front bytes := by
  simp [reading, append]

/-- A piece that ends inside a line is as good as a part of the next one. -/
theorem parseChunks_join {place : Nat} (inside : WithinLine place (req.append piece))
    (finished : (req.parseChunks (piece :: rest)).verdict = .finished) :
    ∃ next later, rest = next :: later ∧
      req.parseChunks (piece :: rest) = req.parseChunks ((piece ++ next) :: later) := by
  by_cases waiting : (parser.run (req.append piece)).verdict = .continues
  · cases rest with
    | nil =>
        exfalso
        rw [parseChunks, parser.feed_cons_of_waits append _ _ waiting] at finished
        cases finished
    | cons next later =>
        refine ⟨next, later, rfl, ?_⟩
        exact parser.feed_join append (· = .continues) .continues
          (fun _ first second => append_append first second)
          (fun visited reached => (parser_resumable (inside.of_visits reached).synced
            (inside.of_visits reached).sees).continues _ _ _ next) waiting later
  · rw [parseChunks, parser.feed_cons_of_leaves append _ _ waiting] at finished
    exact absurd finished inside.verdict

theorem parseChunks_congr {other : Request} {otherPiece : Bytes}
    (same : parser.run (req.append piece) = parser.run (other.append otherPiece)) :
    req.parseChunks (piece :: rest) = other.parseChunks (otherPiece :: rest) := by
  unfold parseChunks Scanner.feed
  rw [same]

theorem verdict_ne_error
    (finished : (req.parseChunks (piece :: rest)).verdict = .finished) :
    (parser.run (req.append piece)).verdict ≠ .error := by
  intro error
  have ending : ¬ (parser.run (req.append piece)).verdict = .continues := by
    rw [error]
    decide
  rw [parseChunks, parser.feed_cons_of_leaves append _ _ ending, error] at finished
  cases finished

theorem withinLine_lineStart (here : req.parseStatus = .headerField)
    (sees : (piece.head?).map token = some 'c'.toUInt8 → 9 ≤ piece.length)
    (unbroken : ¬ crlf <:+: piece) : WithinLine front.length (req.reading front piece) where
  synced := rfl
  unbroken := by
    change ¬ crlf <:+: (front ++ piece).drop front.length
    rw [List.drop_left]
    exact unbroken
  sees := by
    rintro ⟨-, -, short, isC⟩
    change (front ++ piece).length - front.length < 9 at short
    change ((front ++ piece)[front.length]?).map token = some _ at isC
    rw [List.getElem?_append_right (Nat.le_refl _), Nat.sub_self, ← List.head?_eq_getElem?] at isC
    have long := sees isC
    rw [List.length_append] at short
    omega
  behind := Nat.le_refl _
  begun := fun other => absurd here other
  ending := fun other => by
    change req.parseStatus = _ at other
    rw [here] at other
    cases other

end Pieces

section HeaderLines

variable {req : Request} {pieces other : List Bytes} {line behind : Bytes}

/-- A header line ends the head, or its entry is stored and the next line follows. -/
def ReadsLine (req : Request) (pieces : List Bytes) (line behind : Bytes)
    (scanned : Scanned Request Empty HTTPParserStatus) : Prop :=
  if seenAt pieces 0 line = [] then
    ∀ field, scanned.state.text field = req.text field
  else
    ∃ front later, later.flatten = behind ∧
      (∀ offset, arrived pieces (line.length + 2 + offset) = arrived later offset) ∧
      scanned = ((req.store (readLine (seenAt pieces 0 line ++ [cr])).1).lineStart
        front []).parseChunks later

theorem ReadsLine.congr {otherLine : Bytes} {scanned : Scanned Request Empty HTTPParserStatus}
    (reads : ReadsLine req other otherLine behind scanned)
    (seen : seenAt pieces 0 line = seenAt other 0 otherLine)
    (same : ∀ offset, arrived pieces (line.length + 2 + offset) =
      arrived other (otherLine.length + 2 + offset)) :
    ReadsLine req pieces line behind scanned := by
  unfold ReadsLine at *
  rw [seen]
  split at reads
  next nothing =>
    rw [if_pos nothing]
    exact reads
  next something =>
    rw [if_neg something]
    obtain ⟨front, later, sent, arrives, whole⟩ := reads
    exact ⟨front, later, sent, fun offset => (same offset).trans (arrives offset), whole⟩

theorem seenAt_whole
    (sees : (line.head?).map token = some 'c'.toUInt8 → 9 ≤ arrived pieces 0) :
    seenAt pieces 0 line = line := by
  cases line with
  | nil => rfl
  | cons ch line =>
      rw [seenAt, if_neg]
      rintro ⟨isC, short⟩
      have long := sees (by rw [List.head?_cons, Option.map_some, isC])
      omega

theorem arrived_line (line rest : Bytes) (more : List Bytes) (offset : Nat) :
    arrived ((line ++ crlf ++ rest) :: more) (line.length + 2 + offset) =
      arrived (rest :: more) offset := by
  have split := @arrived_drop rest more (line ++ crlf) offset
  rw [List.length_append] at split
  exact split

theorem arrived_joined_line {piece next : Bytes} {later : List Bytes}
    (short : piece.length < (line ++ crlf).length) (offset : Nat) :
    arrived (piece :: next :: later) (line.length + 2 + offset) =
      arrived ((piece ++ next) :: later) (line.length + 2 + offset) := by
  apply arrived_join
  rw [List.length_append] at short
  have two : crlf.length = 2 := rfl
  omega

theorem joined_line (line rest : Bytes) :
    line ++ crlf ++ rest = line ++ [cr] ++ lf :: rest := by
  simp [crlf]

theorem readsLine_of_complete (here : req.parseStatus = .headerField)
    (unbroken : ¬ crlf <:+: line) {front rest : Bytes} {more : List Bytes}
    (sees : (line.head?).map token = some 'c'.toUInt8 → 9 ≤ (line ++ crlf ++ rest).length)
    (finished : ((req.reading front []).parseChunks ((line ++ crlf ++ rest) :: more)).verdict =
      .finished) :
    ReadsLine req ((line ++ crlf ++ rest) :: more) line (rest ++ more.flatten)
      ((req.reading front []).parseChunks ((line ++ crlf ++ rest) :: more)) := by
  have filled : 0 < (line ++ crlf ++ rest).length := by simp [crlf]
  have whole : seenAt ((line ++ crlf ++ rest) :: more) 0 line = line := by
    apply seenAt_whole
    rw [arrived_here filled]
    exact sees
  unfold ReadsLine
  rw [whole]
  by_cases blank : line = []
  · subst blank
    rw [if_pos rfl]
    intro field
    have ended := run_of_blank here front rest
    have leaves : (parser.run ((req.reading front []).append ([] ++ crlf ++ rest))).verdict =
        .finished := by
      rw [reading_append]
      exact congrArg Scanned.verdict ended
    have ending : ¬ (parser.run ((req.reading front []).append ([] ++ crlf ++ rest))).verdict =
        .continues := by
      rw [leaves]
      decide
    rw [parseChunks, parser.feed_cons_of_leaves append _ _ ending, reading_append]
    change (parser.run (req.reading front (cr :: lf :: rest))).state.text field = _
    rw [ended]
    cases field <;> rfl
  · rw [if_neg blank]
    have first : (line ++ [cr]).head? = line.head? := List.head?_append_of_ne_nil line blank
    have passes : Passes (req.reading front (line ++ [cr] ++ lf :: rest))
        (LineAccepted (line ++ [cr]))
        ((req.store (readLine (line ++ [cr])).1).lineStart (front ++ (line ++ [cr]) ++ [lf])
          rest) := by
      apply passes_line here _ _ (Ended.of_unbroken unbroken)
      · rw [first, ← joined_line]
        exact sees
      · rw [Ne, List.append_left_eq_self]
        exact blank
    rw [← joined_line] at passes
    have accepted : LineAccepted (line ++ [cr]) := by
      by_contra refused
      apply verdict_ne_error finished
      rw [reading_append]
      exact passes.rejected refused
    refine ⟨front ++ (line ++ [cr]) ++ [lf], rest :: more, rfl, arrived_line line rest more, ?_⟩
    apply parseChunks_congr
    rw [reading_append, passes.onward accepted]
    congr 1
    exact (reading_append _ _ _).symm

theorem unbroken_of_begins (unbroken : ¬ crlf <:+: line) {piece : Bytes}
    (part : piece <+: line ++ crlf) (short : piece.length < (line ++ crlf).length) :
    ¬ crlf <:+: piece := by
  have shorter : piece <+: line ++ [cr] := by
    apply List.prefix_of_prefix_length_le part
    · exact ⟨[lf], by simp [crlf]⟩
    · simp [crlf] at short ⊢
      omega
  intro broken
  exact (Ended.of_unbroken unbroken).unbroken (broken.trans shorter.isInfix)

theorem head?_of_begins {part whole : Bytes} (begins : part <+: whole) (filled : part ≠ []) :
    part.head? = whole.head? := by
  obtain ⟨rest, rfl⟩ := begins
  exact (List.head?_append_of_ne_nil part filled).symm

theorem head?_line (isC : ((line ++ crlf).head?).map token = some 'c'.toUInt8) :
    (line.head?).map token = some 'c'.toUInt8 := by
  cases line with
  | nil => exact absurd isC (by decide)
  | cons ch line => exact isC

/-- A piece holds a line with its end, or it ends in it. -/
theorem piece_cases {piece more : Bytes} (sent : piece ++ more = line ++ crlf ++ behind) :
    (∃ rest, piece = line ++ crlf ++ rest ∧ rest ++ more = behind) ∨
      piece <+: line ++ crlf ∧ piece.length < (line ++ crlf).length := by
  by_cases complete : (line ++ crlf).length ≤ piece.length
  · obtain ⟨rest, rfl⟩ : line ++ crlf <+: piece :=
      List.prefix_of_prefix_length_le ⟨behind, sent.symm⟩ ⟨more, rfl⟩ complete
    rw [List.append_assoc, List.append_right_inj] at sent
    exact .inl ⟨rest, rfl, sent⟩
  · have short := Nat.not_le.mp complete
    have part : piece <+: line ++ crlf :=
      List.prefix_of_prefix_length_le ⟨more, rfl⟩ ⟨behind, sent.symm⟩ (Nat.le_of_lt short)
    exact .inr ⟨part, short⟩

/-- The parser does not skip the first byte of a line that comes with this piece. -/
def SeesFirst (line piece : Bytes) : Prop :=
  (line.head?).map token = some 'c'.toUInt8 → piece ≠ [] → 9 ≤ piece.length

theorem exists_skipped {piece : Bytes} (skips : ¬ SeesFirst line piece) :
    ∃ ch later, line = ch :: later ∧ token ch = 'c'.toUInt8 ∧ piece ≠ [] ∧ piece.length < 9 := by
  unfold SeesFirst at skips
  simp only [Classical.not_imp, Nat.not_le] at skips
  obtain ⟨isC, filled, short⟩ := skips
  obtain ⟨ch, first, named⟩ := Option.map_eq_some_iff.mp isC
  exact ⟨ch, line.tail, (List.cons_head?_tail first).symm, named, filled, short⟩

theorem ReadsLine.of_skipped {first : UInt8} {part later : Bytes} {more : List Bytes}
    {scanned : Scanned Request Empty HTTPParserStatus} (isC : token first = 'c'.toUInt8)
    (short : (first :: part).length < 9)
    (reads : ReadsLine req (part :: more) later behind scanned) :
    ReadsLine req ((first :: part) :: more) (first :: later) behind scanned := by
  have shifted : ∀ offset, arrived ((first :: part) :: more) (1 + offset) =
      arrived (part :: more) offset := arrived_drop [first]
  apply reads.congr
  · rw [seenAt, if_pos ⟨isC, by rwa [arrived_here (Nat.succ_pos _)]⟩]
    exact seenAt_shift shifted 0 later
  · intro offset
    rw [← shifted]
    congr 1
    rw [List.length_cons]
    omega

theorem seenAt_joined {piece next : Bytes} {later : List Bytes} (sees : SeesFirst line piece) :
    seenAt (piece :: next :: later) 0 line = seenAt ((piece ++ next) :: later) 0 line := by
  by_cases filled : piece = []
  · subst filled
    exact @seenAt_shift _ _ 0
      (fun offset => by rw [Nat.zero_add, arrived_join (Nat.zero_le _)]) 0 line
  · have first : 0 < piece.length := List.length_pos_iff.mpr filled
    rw [seenAt_whole, seenAt_whole]
    · intro isC
      have long := sees isC filled
      rw [arrived_here (by rw [List.length_append]; omega), List.length_append]
      omega
    · intro isC
      rw [arrived_here first]
      exact sees isC filled

theorem withinLine_of_begins (here : req.parseStatus = .headerField)
    (unbroken : ¬ crlf <:+: line) {front piece : Bytes} (sees : SeesFirst line piece)
    (part : piece <+: line ++ crlf) (short : piece.length < (line ++ crlf).length) :
    WithinLine front.length ((req.reading front []).append piece) := by
  rw [reading_append]
  apply withinLine_lineStart here _ (unbroken_of_begins unbroken part short)
  intro isC
  have filled : piece ≠ [] := by
    rintro rfl
    cases isC
  rw [head?_of_begins part filled] at isC
  exact sees (head?_line isC) filled

/-- The parser in front of a header line, however that comes in. -/
theorem readsLine (here : req.parseStatus = .headerField) (unbroken : ¬ crlf <:+: line)
    {front : Bytes} (sent : pieces.flatten = line ++ crlf ++ behind)
    (finished : ((req.reading front []).parseChunks pieces).verdict = .finished) :
    ReadsLine req pieces line behind ((req.reading front []).parseChunks pieces) := by
  -- a skip shortens the line, and a piece that ends in the line is joined to the next one
  suffices bounded : ∀ bound pieces line front, pieces.length + line.length < bound →
      ¬ crlf <:+: line → pieces.flatten = line ++ crlf ++ behind →
      ((req.reading front []).parseChunks pieces).verdict = .finished →
      ReadsLine req pieces line behind ((req.reading front []).parseChunks pieces) from
    bounded _ pieces line front (Nat.lt_succ_self _) unbroken sent finished
  intro bound
  induction bound with
  | zero => intro _ _ _ impossible; exact absurd impossible (Nat.not_lt_zero _)
  | succ bound inductionHypothesis =>
      intro pieces line front within unbroken sent finished
      cases pieces with
      | nil =>
          have lengths := congrArg List.length sent
          simp [crlf] at lengths
      | cons piece more =>
          rw [List.flatten_cons] at sent
          by_cases sees : SeesFirst line piece
          · rcases piece_cases sent with ⟨rest, rfl, rfl⟩ | ⟨part, short⟩
            · exact readsLine_of_complete here unbroken
                (fun isC => sees isC (by simp [crlf])) finished
            · obtain ⟨next, later, rfl, joined⟩ :=
                parseChunks_join (withinLine_of_begins here unbroken sees part short) finished
              rw [joined] at finished ⊢
              have closer : ((piece ++ next) :: later).length + line.length < bound := by
                simp only [List.length_cons] at within ⊢
                omega
              have reads := inductionHypothesis ((piece ++ next) :: later) line front closer
                unbroken (by simpa using sent) finished
              exact reads.congr (seenAt_joined sees) (arrived_joined_line short)
          · obtain ⟨ch, later, rfl, isC, filled, short⟩ := exists_skipped sees
            obtain ⟨first, part, rfl⟩ := List.exists_cons_of_ne_nil filled
            rw [List.cons_append, List.cons_append, List.cons_append, List.cons.injEq] at sent
            obtain ⟨rfl, sent⟩ := sent
            have stepped : (req.reading front []).parseChunks ((first :: part) :: more) =
                (req.reading (front ++ [first]) []).parseChunks (part :: more) := by
              apply parseChunks_congr
              rw [reading_append, reading_append, run_of_skipped here isC short]
            rw [stepped] at finished ⊢
            apply (inductionHypothesis (part :: more) later (front ++ [first])
              (Nat.lt_of_succ_lt_succ within) _ sent finished).of_skipped isC short
            intro broken
            exact unbroken (broken.trans (List.suffix_cons first later).isInfix)

theorem ReadsLine.of_nil {scanned : Scanned Request Empty HTTPParserStatus}
    (reads : ReadsLine req pieces line behind scanned) (nothing : seenAt pieces 0 line = [])
    (field : Field) : scanned.state.text field = req.text field := by
  rw [ReadsLine, if_pos nothing] at reads
  exact reads field

theorem ReadsLine.of_cons {scanned : Scanned Request Empty HTTPParserStatus}
    (reads : ReadsLine req pieces line behind scanned) (something : seenAt pieces 0 line ≠ []) :
    ∃ front later, later.flatten = behind ∧
      (∀ offset, arrived pieces (line.length + 2 + offset) = arrived later offset) ∧
      scanned = ((req.store (readLine (seenAt pieces 0 line ++ [cr])).1).lineStart
        front []).parseChunks later := by
  rw [ReadsLine, if_neg something] at reads
  exact reads

theorem text_parseChunks_lines {field : Field} (kept : field ≠ .contentLength)
    {lines : List Bytes} {front : Bytes} (here : req.parseStatus = .headerField)
    (unbroken : ∀ line ∈ lines, ¬ crlf <:+: line)
    (sent : pieces.flatten = joinLines lines ++ behind)
    (finished : ((req.reading front []).parseChunks pieces).verdict = .finished) :
    ((req.reading front []).parseChunks pieces).state.text field =
      req.text field ++ foundTexts field (seenLines pieces 0 lines) := by
  induction lines generalizing req front pieces with
  | nil =>
      have none : ¬ crlf <:+: ([] : Bytes) := by simp [crlf]
      rw [(readsLine here none sent finished).of_nil rfl]
      simp [seenLines, foundTexts]
  | cons line rest inductionHypothesis =>
      obtain ⟨unbrokenLine, unbrokenRest⟩ := List.forall_mem_cons.mp unbroken
      have sentLine : pieces.flatten = line ++ crlf ++ (joinLines rest ++ behind) := by
        rw [sent]
        simp [joinLines]
      have reads := readsLine here unbrokenLine sentLine finished
      by_cases nothing : seenAt pieces 0 line = []
      · rw [reads.of_nil nothing, seenLines, if_pos nothing]
        simp [foundTexts]
      · obtain ⟨newFront, later, sentLater, arrives, whole⟩ := reads.of_cons nothing
        rw [whole] at finished ⊢
        have onward := inductionHypothesis rfl unbrokenRest sentLater finished
        have shifted := seenLines_shift arrives 0 rest
        rw [lineStart, onward, seenLines, if_neg nothing, foundTexts_cons]
        rw [Nat.add_zero] at shifted
        rw [Nat.zero_add, shifted, ← List.append_assoc, textPart, ← store_text kept]
        congr 1

end HeaderLines

section Heads

variable {pieces : List Bytes} {line behind : Bytes}

theorem reset_append_eq (bytes : Bytes) : reset.append bytes = reset.reading [] bytes :=
  reading_append reset [] bytes

theorem withinLine_reset {piece : Bytes} (unbroken : ¬ crlf <:+: piece) :
    WithinLine 0 (reset.append piece) where
  synced := synced_append piece rfl
  unbroken := by
    rw [reset_append_eq]
    exact unbroken
  sees := fun ⟨here, _⟩ => nomatch here
  behind := Nat.zero_le _
  begun := fun _ => .inl rfl
  ending := nofun

theorem text_reset (field : Field) : reset.text field = [] := by
  cases field <;> rfl

theorem leaves_requestLine {rest : Bytes} {more : List Bytes}
    (unbroken : ¬ crlf <:+: line)
    (finished : (reset.parseChunks ((line ++ crlf ++ rest) :: more)).verdict = .finished) :
    ∃ (req : Request) (front : Bytes), (∀ field, req.text field = reset.text field) ∧
      reset.parseChunks ((line ++ crlf ++ rest) :: more) =
        (req.lineStart front []).parseChunks (rest :: more) := by
  have leads : Leads (reset.reading [] (line ++ [cr] ++ lf :: rest)) _ _ _ :=
    leads_requestLine rfl rfl (Ended.of_unbroken unbroken) rest
  rw [← joined_line, ← reset_append_eq] at leads
  cases read : readRequestLine reset (line ++ [cr]) with
  | none =>
      rw [read] at leads
      exact absurd leads (verdict_ne_error finished)
  | some req =>
      rw [read] at leads
      obtain ⟨method, path, query, rfl⟩ := readRequestLine_keeps read
      refine ⟨{ reset with method := method, path := path, queryString := query },
        line ++ [cr] ++ [lf], fun field => ?_, parseChunks_congr ?_⟩
      · cases field <;> rfl
      · rw [lineStart, reading_append]
        exact leads

/-- The request line leads to the header lines, with nothing in the fields. -/
def LeavesRequestLine (pieces : List Bytes) (line behind : Bytes) : Prop :=
  ∃ (req : Request) (front : Bytes) (later : List Bytes),
    (∀ field, req.text field = reset.text field) ∧ later.flatten = behind ∧
    (∀ offset, arrived pieces (line.length + 2 + offset) = arrived later offset) ∧
    reset.parseChunks pieces = (req.lineStart front []).parseChunks later

/-- The parser comes through the request line, however that comes in. -/
theorem leavesRequestLine (unbroken : ¬ crlf <:+: line)
    (sent : pieces.flatten = line ++ crlf ++ behind)
    (finished : (reset.parseChunks pieces).verdict = .finished) :
    LeavesRequestLine pieces line behind := by
  suffices bounded : ∀ bound pieces, pieces.length < bound →
      pieces.flatten = line ++ crlf ++ behind →
      (reset.parseChunks pieces).verdict = .finished → LeavesRequestLine pieces line behind from
    bounded _ pieces (Nat.lt_succ_self _) sent finished
  intro bound
  induction bound with
  | zero => intro _ impossible; exact absurd impossible (Nat.not_lt_zero _)
  | succ bound inductionHypothesis =>
      intro pieces within sent finished
      cases pieces with
      | nil =>
          have lengths := congrArg List.length sent
          simp [crlf] at lengths
      | cons piece more =>
          rw [List.flatten_cons] at sent
          rcases piece_cases sent with ⟨rest, rfl, sentRest⟩ | ⟨part, short⟩
          · obtain ⟨req, front, fresh, whole⟩ := leaves_requestLine unbroken finished
            exact ⟨req, front, rest :: more, fresh, sentRest, arrived_line line rest more, whole⟩
          · have inside : WithinLine 0 (reset.append piece) :=
              withinLine_reset (unbroken_of_begins unbroken part short)
            obtain ⟨next, later, rfl, joined⟩ := parseChunks_join inside finished
            rw [joined] at finished
            obtain ⟨req, front, last, fresh, sentLast, arrives, whole⟩ :=
              inductionHypothesis ((piece ++ next) :: later) (Nat.lt_of_succ_lt_succ within)
                (by simpa using sent) finished
            refine ⟨req, front, last, fresh, sentLast, ?_, joined.trans whole⟩
            intro offset
            rw [← arrives, arrived_joined_line short]

/-- What a head leaves in the fields, in whatever pieces it comes in. -/
theorem text_parseChunks {field : Field} (kept : field ≠ .contentLength) {head : Head}
    (sent : pieces.flatten = head.bytes ++ behind)
    (finished : (reset.parseChunks pieces).verdict = .finished) :
    (reset.parseChunks pieces).state.text field =
      foundTexts field (seenLines pieces (head.requestLine.length + 2) head.headerLines) := by
  obtain ⟨unbroken, unbrokenLines⟩ := List.forall_mem_cons.mp head.unbroken
  rw [Head.bytes, List.append_assoc] at sent
  obtain ⟨req, front, later, fresh, sentLater, arrives, whole⟩ :=
    leavesRequestLine unbroken sent finished
  rw [whole] at finished ⊢
  have onward := text_parseChunks_lines kept rfl unbrokenLines sentLater finished
  have shifted := seenLines_shift arrives 0 head.headerLines
  rw [Nat.add_zero] at shifted
  rw [lineStart, onward, shifted]
  have nothing : Request.text { req with
      parseStatus := .headerField, parseMatch := front.length - 1 } field = [] := by
    rw [← text_reset field, ← fresh field]
    cases field <;> rfl
  rw [nothing, List.nil_append]

end Heads

end Mevent.Request
