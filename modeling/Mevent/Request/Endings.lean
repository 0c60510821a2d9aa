import Mevent.Request.Bounds
import Mevent.Request.Lines

/-!
# Blank lines end heads

Whatever the states of the parser make of the bytes in front of it, a carriage return and a
line feed bring it to the beginning of a line, and a second pair there ends the head.
-/

namespace Mevent.Request

open Library

section Others

variable {req : Request}

/-- The fields that the parser does not look at. -/
def others (req : Request) :
    UInt32 × Nat × OrderedMap Bytes Bytes × OrderedMap Bytes Bytes × OrderedMap Bytes Bytes :=
  (req.addr, req.errorCode, req.headerMap, req.getFormMap, req.postFormMap)

/-- Nothing in them changes, and `S_UPGRADE` is not entered. -/
def Keeps (req next : Request) : Prop :=
  next.others = req.others ∧ (next.parseStatus = .upgrade → req.parseStatus = .upgrade)

/-- The head ends behind a line feed. -/
def Handled.Keeps (req : Request) (c : UInt8) : Handled → Prop
  | .bottom next => req.Keeps next
  | .again next => req.Keeps next
  | .break last status =>
      req.Keeps last ∧ (status = .finished → c = lf ∧ last.headerLen = req.parseOffset + 1)

theorem keeps_withByte {c : UInt8} {index : Nat} {rest : UInt8 → Handled}
    (keeps : ∀ ch, (rest ch).Keeps req c) : (req.withByte index rest).Keeps req c := by
  unfold withByte
  split
  · exact keeps _
  · exact ⟨⟨rfl, id⟩, by simp⟩

theorem keeps_withDistance {c : UInt8} {rest : Nat → Handled}
    (keeps : ∀ distance, (rest distance).Keeps req c) :
    (req.withDistance rest).Keeps req c := by
  unfold withDistance
  split
  · exact keeps _
  · exact ⟨⟨rfl, id⟩, by simp⟩

theorem keeps_withNameByte {c : UInt8} {name : Bytes} {index : Nat} {rest : UInt8 → Handled}
    (keeps : ∀ expected, (rest expected).Keeps req c) :
    (req.withNameByte name index rest).Keeps req c := by
  unfold withNameByte
  split
  · exact keeps _
  · exact ⟨⟨rfl, id⟩, by simp⟩

theorem keeps_lookAhead {c : UInt8} {index : Nat} {expected : Bytes} {found missed : Handled}
    (foundKeeps : found.Keeps req c) (missedKeeps : missed.Keeps req c) :
    (req.lookAhead index expected found missed).Keeps req c := by
  induction expected generalizing index with
  | nil => exact foundKeeps
  | cons first rest inductionHypothesis =>
      apply keeps_withByte
      intro ch
      split
      · exact inductionHypothesis
      · exact missedKeeps

theorem keeps_handleName (name : Bytes) {value : RequestParseStatus}
    (notUpgrade : value ≠ .upgrade) (c : UInt8) : (req.handleName name value c).Keeps req c := by
  apply keeps_withDistance
  intro distance
  split
  · split
    · exact ⟨rfl, fun impossible => absurd impossible notUpgrade⟩
    · exact ⟨rfl, id⟩
  · apply keeps_withNameByte
    intro expected
    split
    · exact ⟨rfl, by simp⟩
    · exact ⟨rfl, id⟩

theorem keeps_handleMethod (c : UInt8) : (req.handleMethod c).Keeps req c := by
  unfold handleMethod
  split
  · exact ⟨⟨rfl, id⟩, by simp⟩
  · split
    · split
      · split
        · exact ⟨⟨rfl, id⟩, by simp⟩
        · exact ⟨rfl, by simp⟩
      · exact ⟨rfl, id⟩
    · apply keeps_withDistance
      intro distance
      apply keeps_withNameByte
      intro expected
      split
      · exact ⟨⟨rfl, id⟩, by simp⟩
      · exact ⟨rfl, id⟩

theorem keeps_handleHeaderField (c : UInt8) : (req.handleHeaderField c).Keeps req c := by
  unfold handleHeaderField
  split
  · exact ⟨rfl, by simp⟩
  · split
    · split
      · exact ⟨rfl, id⟩
      · apply keeps_lookAhead
        · apply keeps_withByte
          intro next
          split
          · exact ⟨rfl, by simp⟩
          · split
            · exact ⟨rfl, by simp⟩
            · exact ⟨rfl, by simp⟩
        · exact ⟨rfl, by simp⟩
    · split
      · exact ⟨rfl, by simp⟩
      · exact ⟨rfl, by simp⟩

theorem keeps_handle (req : Request) (ch c : UInt8) : (req.handle ch c).Keeps req c := by
  unfold handle handleAt
  cases req.parseStatus with
  | eol =>
      change (req.handleEol c).Keeps req c
      unfold handleEol
      split
      · split
        · exact ⟨⟨rfl, id⟩, by simp⟩
        · apply keeps_withByte
          intro previous
          split
          · exact ⟨rfl, by simp⟩
          · exact ⟨⟨rfl, id⟩, by simp⟩
      · exact ⟨rfl, id⟩
  | start =>
      change (req.handleStart c).Keeps req c
      unfold handleStart
      repeat' split
      all_goals first
        | exact ⟨rfl, by simp⟩
        | exact ⟨⟨rfl, by simp⟩, by simp⟩
  | method => exact keeps_handleMethod c
  | methodP =>
      change (req.handleMethodP c).Keeps req c
      unfold handleMethodP
      repeat' split
      all_goals first
        | exact ⟨rfl, by simp⟩
        | exact ⟨⟨rfl, by simp⟩, by simp⟩
  | path =>
      change (req.handlePath ch).Keeps req c
      unfold handlePath
      repeat' split
      all_goals first
        | exact ⟨rfl, by simp⟩
        | exact ⟨⟨rfl, by simp⟩, by simp⟩
  | queryString =>
      change (req.handleQueryString ch).Keeps req c
      unfold handleQueryString
      repeat' split
      all_goals first
        | exact ⟨rfl, by simp⟩
        | exact ⟨⟨rfl, by simp⟩, by simp⟩
  | headerField => exact keeps_handleHeaderField c
  | eoh =>
      change (req.handleEoh c).Keeps req c
      unfold handleEoh
      split
      next isLf => exact ⟨⟨rfl, id⟩, fun _ => ⟨isLf, rfl⟩⟩
      next => exact ⟨⟨rfl, id⟩, by simp⟩
  | contentLength => exact keeps_handleName _ (by decide) c
  | secWebsocketKey => exact keeps_handleName _ (by decide) c
  | contentType => exact keeps_handleName _ (by decide) c
  | contentLengthV =>
      change (req.handleContentLengthV c).Keeps req c
      unfold handleContentLengthV
      repeat' split
      all_goals first
        | exact ⟨rfl, by simp⟩
        | exact ⟨⟨rfl, by simp⟩, by simp⟩
  | secWebsocketKeyV =>
      change (req.handleSecWebsocketKeyV ch c).Keeps req c
      unfold handleSecWebsocketKeyV
      split
      · exact ⟨rfl, by simp⟩
      · exact ⟨rfl, id⟩
  | contentTypeV =>
      change (req.handleContentTypeV ch c).Keeps req c
      unfold handleContentTypeV
      split
      · exact ⟨rfl, by simp⟩
      · exact ⟨rfl, id⟩
  | upgrade => exact ⟨rfl, id⟩

def Consumable (req : Request) : Prop := ∃ ch, req.rbuf[req.parseOffset]? = some ch ∧ token ch ≠ 0

theorem keeps_round (req : Request) :
    match parser.round req with
    | .advance next _ => req.Keeps next ∧ req.Consumable
    | .leave last status =>
        req.Keeps last ∧ (status = .finished →
          req.rbuf[req.parseOffset]? = some lf ∧ last.headerLen = req.parseOffset + 1) := by
  rw [parser_round]
  by_cases more : req.parseOffset < req.rbufLen
  · cases read : req.rbuf[req.parseOffset]? with
    | none =>
        rw [parseByte, if_pos more, withByte, read]
        exact ⟨⟨rfl, id⟩, by simp⟩
    | some ch =>
        rw [parseByte_of_byte more read]
        by_cases unclean : token ch = 0
        · rw [if_pos unclean]
          exact ⟨⟨rfl, id⟩, by simp⟩
        · rw [if_neg unclean]
          have keeps := keeps_handle req ch (token ch)
          have consumable : req.Consumable := ⟨ch, read, unclean⟩
          cases handled : req.handle ch (token ch) with
          | bottom next =>
              rw [handled] at keeps
              exact ⟨keeps, consumable⟩
          | again next =>
              rw [handled] at keeps
              exact ⟨keeps, consumable⟩
          | «break» last status =>
              rw [handled] at keeps
              refine ⟨keeps.1, fun finished => ?_⟩
              obtain ⟨isLf, headed⟩ := keeps.2 finished
              rw [(token_eq_lf_iff ch).mp isLf]
              exact ⟨rfl, headed⟩
  · rw [parseByte_of_end (Nat.not_lt.mp more)]
    exact ⟨⟨rfl, id⟩, by simp⟩

theorem keeps_of_advance {next : Request} {outputs : List Empty}
    (taken : parser.round req = .advance next outputs) : req.Keeps next ∧ req.Consumable := by
  have keeps := keeps_round req
  rw [taken] at keeps
  exact keeps

theorem keeps_of_leave {last : Request} {status : HTTPParserStatus}
    (left : parser.round req = .leave last status) :
    req.Keeps last ∧ (status = .finished →
      req.rbuf[req.parseOffset]? = some lf ∧ last.headerLen = req.parseOffset + 1) := by
  have keeps := keeps_round req
  rw [left] at keeps
  exact keeps

/-- Neither does `Request::Parse`. -/
theorem keeps_parse (req : Request) : req.Keeps req.parse.state := by
  refine parser.run_invariant req.Keeps (fun last _ => req.Keeps last) ?_ ?_ ⟨rfl, id⟩
  · intro state next outputs kept taken
    have step := (keeps_of_advance taken).1
    exact ⟨step.1.trans kept.1, kept.2 ∘ step.2⟩
  · intro state last status kept left
    have step := (keeps_of_leave left).1
    exact ⟨step.1.trans kept.1, kept.2 ∘ step.2⟩

end Others

section LineEnds

variable {req : Request}

/-- A carriage return is only consumed in front of a line feed: at the end of a line, or of
the head. -/
def Handled.AtCr (req : Request) : Handled → Prop
  | .bottom next => next.parseStatus = if req.parseStatus = .headerField then .eoh else .eol
  | .again next => next.parseOffset = req.parseOffset
  | .break _ _ => True

theorem atCr_withNameByte {name : Bytes} (noCr : cr ∉ name) (index : Nat)
    {rest : UInt8 → Handled} (atCr : ∀ c, c ≠ cr → (rest c).AtCr req) :
    (req.withNameByte name index rest).AtCr req := by
  unfold withNameByte
  split
  next c read =>
    apply atCr
    rintro rfl
    rcases List.mem_append.mp (List.mem_of_getElem? read) with inName | zero
    · exact noCr inName
    · exact absurd zero (by decide)
  next => exact trivial

theorem atCr_withDistance {rest : Nat → Handled} (atCr : ∀ distance, (rest distance).AtCr req) :
    (req.withDistance rest).AtCr req := by
  unfold withDistance
  split
  · exact atCr _
  · exact trivial

theorem atCr_handleMethod : (req.handleMethod cr).AtCr req := by
  unfold handleMethod
  split
  · exact trivial
  next name named =>
    have noCr : cr ∉ name := by
      cases method : req.method <;> rw [method] at named <;> cases named <;> decide
    split
    · rw [if_pos (by decide)]
      split
      · exact trivial
      · rfl
    · apply atCr_withDistance
      intro distance
      apply atCr_withNameByte noCr
      intro expected notCr
      rw [if_pos notCr]
      exact trivial

theorem atCr_handleName {name : Bytes} (noCr : cr ∉ name) (value : RequestParseStatus)
    (here : req.parseStatus ≠ .headerField) : (req.handleName name value cr).AtCr req := by
  apply atCr_withDistance
  intro distance
  split
  · rw [if_pos (by decide)]
    rfl
  · apply atCr_withNameByte noCr
    intro expected notCr
    rw [if_pos notCr]
    exact (if_neg here).symm

theorem atCr_handle (notUpgrade : req.parseStatus ≠ .upgrade) : (req.handle cr cr).AtCr req := by
  unfold handle handleAt
  cases here : req.parseStatus with
  | eol =>
      change (req.handleEol cr).AtCr req
      rw [handleEol, if_neg (by decide)]
      change req.parseStatus = _
      rw [here]
      rfl
  | start =>
      change (req.handleStart cr).AtCr req
      exact trivial
  | method => exact atCr_handleMethod
  | methodP => exact trivial
  | path => exact trivial
  | queryString => exact trivial
  | headerField =>
      change (req.handleHeaderField cr).AtCr req
      rw [handleHeaderField, if_pos rfl]
      change RequestParseStatus.eoh = _
      rw [here]
      rfl
  | eoh => exact trivial
  | contentLength => exact atCr_handleName (by decide) _ (by rw [here]; decide)
  | secWebsocketKey => exact atCr_handleName (by decide) _ (by rw [here]; decide)
  | contentType => exact atCr_handleName (by decide) _ (by rw [here]; decide)
  | contentLengthV =>
      change RequestParseStatus.eol = _
      rw [here]
      rfl
  | secWebsocketKeyV =>
      change RequestParseStatus.eol = _
      rw [here]
      rfl
  | contentTypeV =>
      change RequestParseStatus.eol = _
      rw [here]
      rfl
  | upgrade => exact absurd here notUpgrade

theorem concat_suffix_concat_iff {Item : Type} {front whole : List Item} {last item : Item} :
    front ++ [last] <:+ whole ++ [item] ↔ front <:+ whole ∧ last = item := by
  rw [List.suffix_concat_iff]
  constructor
  · rintro (nothing | ⟨other, same, suffix⟩)
    · simp at nothing
    · obtain ⟨sameFront, sameLast⟩ := List.append_inj' same rfl
      subst sameFront
      exact ⟨suffix, List.singleton_inj.mp sameLast⟩
  · rintro ⟨suffix, rfl⟩
    exact .inr ⟨front, rfl, suffix⟩

/-- The state of the parser behind carriage returns and line feeds. -/
structure Trails (status : RequestParseStatus) (consumed : Bytes) : Prop where
  known : status ≠ .upgrade
  unblank : ¬ crlf ++ crlf <:+: consumed
  afterCr : [cr] <:+ consumed → status = .eol ∨ status = .eoh
  afterCrlf : crlf <:+ consumed → status = .headerField
  afterLine : crlf ++ [cr] <:+ consumed → status = .eoh

theorem trails_nil {status : RequestParseStatus} (known : status ≠ .upgrade) :
    Trails status [] where
  known := known
  unblank := by decide
  afterCr := by simp
  afterCrlf := by simp [crlf]
  afterLine := by simp [crlf]

theorem Trails.again {status next : RequestParseStatus} {consumed : Bytes}
    (trails : Trails status consumed) (known : next ≠ .upgrade)
    (inside : status ≠ .eol ∧ status ≠ .eoh ∧ status ≠ .headerField) :
    Trails next consumed where
  known := known
  unblank := trails.unblank
  afterCr := by
    intro isCr
    rcases trails.afterCr isCr with eol | eoh
    · exact absurd eol inside.1
    · exact absurd eoh inside.2.1
  afterCrlf := fun isCrlf => absurd (trails.afterCrlf isCrlf) inside.2.2
  afterLine := fun isLine => absurd (trails.afterLine isLine) inside.2.1

theorem Trails.concat {status next : RequestParseStatus} {consumed : Bytes} {ch : UInt8}
    (trails : Trails status consumed) (known : next ≠ .upgrade) (notEoh : status ≠ .eoh)
    (atCr : ch = cr → next = if status = .headerField then .eoh else .eol)
    (atLf : ch = lf → status = .eol → next = .headerField) :
    Trails next (consumed ++ [ch]) where
  known := known
  unblank := by
    intro blank
    rcases List.infix_concat_iff.mp blank with ends | earlier
    · rw [show crlf ++ crlf = crlf ++ [cr] ++ [lf] from rfl, concat_suffix_concat_iff] at ends
      exact notEoh (trails.afterLine ends.1)
    · exact trails.unblank earlier
  afterCr := by
    intro isCr
    rw [show [cr] = [] ++ [cr] from rfl, concat_suffix_concat_iff] at isCr
    rw [atCr isCr.2.symm]
    split
    · exact .inr rfl
    · exact .inl rfl
  afterCrlf := by
    intro isCrlf
    rw [show crlf = [cr] ++ [lf] from rfl, concat_suffix_concat_iff] at isCrlf
    apply atLf isCrlf.2.symm
    exact (trails.afterCr isCrlf.1).resolve_right notEoh
  afterLine := by
    intro isLine
    rw [concat_suffix_concat_iff] at isLine
    rw [atCr isLine.2.symm, if_pos (trails.afterCrlf isLine.1)]

/-- The state of the parser fits to what it has consumed. -/
def Trailing (req : Request) : Prop := Trails req.parseStatus (req.rbuf.take req.parseOffset)

theorem trailing_of_consumed {next : Request} {ch : UInt8} (trailing : req.Trailing)
    (read : req.rbuf[req.parseOffset]? = some ch) (rbuf : next.rbuf = req.rbuf)
    (offset : next.parseOffset = req.parseOffset + 1) (known : next.parseStatus ≠ .upgrade)
    (notEoh : req.parseStatus ≠ .eoh)
    (atCr : ch = cr →
      next.parseStatus = if req.parseStatus = .headerField then .eoh else .eol)
    (atLf : ch = lf → req.parseStatus = .eol → next.parseStatus = .headerField) :
    next.Trailing := by
  unfold Trailing
  rw [rbuf, offset, List.take_add_one, read, Option.toList_some]
  exact trailing.concat known notEoh atCr atLf

theorem not_eoh_of_handle {ch c : UInt8} {next : Request}
    (handled : req.handle ch c = .bottom next ∨ req.handle ch c = .again next) :
    req.parseStatus ≠ .eoh := by
  intro here
  have stops : req.handle ch c = req.handleEoh c := by
    rw [handle, here]
    rfl
  rw [stops, handleEoh] at handled
  split at handled
  · rcases handled with impossible | impossible <;> cases impossible
  · rcases handled with impossible | impossible <;> cases impossible

theorem handleEol_lf_cases (req : Request) :
    (∃ next, req.handleEol lf = .bottom next ∧ next.parseStatus = .headerField) ∨
      ∃ status, req.handleEol lf = .break req status := by
  unfold handleEol withByte
  rw [if_pos rfl]
  split
  · exact .inr ⟨_, rfl⟩
  · cases req.rbuf[req.parseOffset - 1]? with
    | none => exact .inr ⟨_, rfl⟩
    | some previous =>
        by_cases isCr : previous = cr
        · exact .inl ⟨_, if_pos isCr, rfl⟩
        · exact .inr ⟨_, if_neg isCr⟩

theorem atLf_of_handle {ch : UInt8} {next : Request} (isLf : token ch = lf)
    (here : req.parseStatus = .eol)
    (handled : req.handle ch (token ch) = .bottom next ∨ req.handle ch (token ch) = .again next) :
    next.parseStatus = .headerField := by
  have feeds : req.handle ch (token ch) = req.handleEol lf := by
    rw [handle, here, isLf]
    rfl
  rw [feeds] at handled
  rcases req.handleEol_lf_cases with ⟨fed, same, status⟩ | ⟨status, same⟩
  · rw [same] at handled
    rcases handled with bottom | impossible
    · cases bottom
      exact status
    · cases impossible
  · rw [same] at handled
    rcases handled with impossible | impossible <;> cases impossible

theorem trailing_of_advance {next : Request} {outputs : List Empty} (trailing : req.Trailing)
    (inside : req.rbufLen ≤ req.rbuf.length)
    (taken : parser.round req = .advance next outputs) : next.Trailing := by
  have known : next.parseStatus ≠ .upgrade :=
    fun upgrade => trailing.known ((keeps_of_advance taken).1.2 upgrade)
  rw [parser_round] at taken
  by_cases more : req.parseOffset < req.rbufLen
  · obtain ⟨ch, read⟩ : ∃ ch, req.rbuf[req.parseOffset]? = some ch :=
      ⟨_, List.getElem?_eq_getElem (Nat.lt_of_lt_of_le more inside)⟩
    rw [parseByte_of_byte more read] at taken
    by_cases unclean : token ch = 0
    · rw [if_pos unclean] at taken
      cases taken
    · rw [if_neg unclean] at taken
      have frames := frames_handle req ch (token ch)
      have atCr : ch = cr → (req.handle ch (token ch)).AtCr req := by
        rintro rfl
        exact atCr_handle trailing.known
      cases handled : req.handle ch (token ch) with
      | bottom last =>
          have atLf : ch = lf → req.parseStatus = .eol → last.parseStatus = .headerField :=
            fun isLf here =>
              atLf_of_handle ((token_eq_lf_iff ch).mpr isLf) here (.inl handled)
          rw [handled] at taken frames atCr
          cases taken
          exact trailing_of_consumed trailing read frames.2.1 (congrArg (· + 1) frames.2.2.2)
            known (not_eoh_of_handle (.inl handled)) atCr atLf
      | again last =>
          rw [handled] at taken frames atCr
          cases taken
          obtain ⟨-, rbuf, -, consumed | ⟨offset, lingering, -⟩⟩ := frames
          · have notCr : ch ≠ cr := by
              intro isCr
              have kept : next.parseOffset = req.parseOffset := atCr isCr
              omega
            exact trailing_of_consumed trailing read rbuf consumed known
              (not_eoh_of_handle (.inr handled)) (fun isCr => absurd isCr notCr)
              (fun isLf here =>
                atLf_of_handle ((token_eq_lf_iff ch).mpr isLf) here (.inr handled))
          · unfold Trailing
            rw [rbuf, offset]
            apply trailing.again known
            refine ⟨?_, ?_, ?_⟩ <;> (intro here; rw [here] at lingering; cases lingering)
      | «break» last status =>
          rw [handled] at taken
          cases taken
  · rw [parseByte_of_end (Nat.not_lt.mp more)] at taken
    cases taken

/-- What the parser has consumed is accepted by `TOKEN`. -/
def CleanFront (req : Request) : Prop := Clean (req.rbuf.take req.parseOffset)

theorem clean_take_succ {bytes : Bytes} {offset : Nat} {ch : UInt8}
    (clean : Clean (bytes.take offset)) (read : bytes[offset]? = some ch)
    (accepted : token ch ≠ 0) : Clean (bytes.take (offset + 1)) := by
  rw [List.take_add_one, read, Option.toList_some]
  intro other among
  rcases List.mem_append.mp among with earlier | last
  · exact clean other earlier
  · rw [List.mem_singleton.mp last]
    exact accepted

theorem cleanFront_of_advance {next : Request} {outputs : List Empty} (clean : req.CleanFront)
    (taken : parser.round req = .advance next outputs) : next.CleanFront := by
  obtain ⟨ch, read, accepted⟩ := (keeps_of_advance taken).2
  have sameBuffer := (rbuf_of_advance taken).1
  have offset : next.parseOffset = req.parseOffset ∨ next.parseOffset = req.parseOffset + 1 := by
    rw [parser_round] at taken
    rcases req.parseByte_cases with ⟨-, round⟩ | ⟨-, handled, frames, round⟩
    · rw [round] at taken
      cases taken
    · rw [round] at taken
      cases handled with
      | bottom last =>
          cases taken
          exact .inr (congrArg (· + 1) frames.2.2.2)
      | again last =>
          cases taken
          exact frames.2.2.2.symm.imp And.left id
      | «break» last status => cases taken
  unfold CleanFront
  rw [sameBuffer]
  rcases offset with same | consumed
  · rw [same]
    exact clean
  · rw [consumed]
    exact clean_take_succ clean read accepted

/-- The head ends with a line feed, and all its bytes are accepted. -/
structure HeadRead (req : Request) : Prop where
  clean : Clean (req.rbuf.take req.headerLen)
  ends : [lf] <:+ req.rbuf.take req.headerLen

theorem headRead_of_leave {last : Request} (clean : req.CleanFront)
    (left : parser.round req = .leave last .finished) : last.HeadRead := by
  obtain ⟨read, headed⟩ := (keeps_of_leave left).2 rfl
  have sameBuffer := (rbuf_of_leave left).1
  constructor
  · rw [sameBuffer, headed]
    exact clean_take_succ clean read (by decide)
  · rw [sameBuffer, headed, List.take_add_one, read]
    exact List.suffix_append _ _

/-- A call of `Request::Parse` that waits has consumed accepted bytes, one that finishes has
read a head. -/
theorem cleanFront_parse (clean : req.CleanFront) :
    (req.parse.verdict = .continues → req.parse.state.CleanFront) ∧
      (req.parse.verdict = .finished → req.parse.state.HeadRead) := by
  refine parser.run_invariant CleanFront
    (fun last status => (status = .continues → last.CleanFront) ∧
      (status = .finished → last.HeadRead)) ?_ ?_ clean
  · intro state next outputs holds taken
    exact cleanFront_of_advance holds taken
  · intro state last status holds left
    constructor
    · rintro rfl
      rw [parser_round] at left
      rcases state.parseByte_cases with ⟨-, round⟩ | ⟨-, handled, frames, round⟩
      · rw [round] at left
        cases left
        exact holds
      · rw [round] at left
        cases handled with
        | bottom next => cases left
        | again next => cases left
        | «break» next other =>
            cases left
            exact absurd rfl frames.2.2.2
    · rintro rfl
      exact headRead_of_leave holds left

theorem trailing_parse (trailing : req.Trailing) (inside : req.rbufLen ≤ req.rbuf.length)
    (waiting : req.parse.verdict = .continues) : req.parse.state.Trailing := by
  have ends := parser.run_invariant
    (fun state => state.Trailing ∧ state.rbufLen ≤ state.rbuf.length)
    (fun last status => status = .continues → last.Trailing) ?_ ?_ ⟨trailing, inside⟩
  · exact ends waiting
  · rintro state next outputs ⟨trails, within⟩ taken
    obtain ⟨sameBuffer, sameLength⟩ := rbuf_of_advance taken
    exact ⟨trailing_of_advance trails within taken, by rw [sameBuffer, sameLength]; exact within⟩
  · rintro state last status ⟨trails, -⟩ left waits
    rw [parser_round] at left
    rcases state.parseByte_cases with ⟨-, round⟩ | ⟨-, handled, frames, round⟩
    · rw [round] at left
      injection left with sameState
      rwa [← sameState]
    · rw [round] at left
      cases handled with
      | bottom next => cases left
      | again next => cases left
      | «break» next other =>
          injection left with _ sameStatus
          exact absurd (sameStatus.trans waits) frames.2.2.2

/-- The parser has looked at the whole buffer and waits for more. -/
structure Waiting (req : Request) : Prop where
  synced : req.Synced
  standing : req.Standing
  trailing : req.Trailing
  through : req.parseOffset = req.rbuf.length

theorem waiting_reset : reset.Waiting where
  synced := rfl
  standing := standing_reset
  trailing := trails_nil (by decide)
  through := rfl

theorem waiting_parse (waits : req.Waiting) (piece : Bytes)
    (waiting : (req.append piece).parse.verdict = .continues) :
    (req.append piece).parse.state.Waiting ∧
      (req.append piece).parse.state.rbuf = req.rbuf ++ piece := by
  have standing := standing_parse (standing_append waits.standing piece)
  have synced := synced_append piece waits.synced
  obtain ⟨sameBuffer, sameLength⟩ := rbuf_parse (req.append piece)
  have trailing : (req.append piece).Trailing := by
    have same : (req.append piece).rbuf.take (req.append piece).parseOffset =
        req.rbuf.take req.parseOffset := by
      rw [append_rbuf, append_parseOffset, waits.through, List.take_left, List.take_length]
    unfold Trailing
    rw [same]
    exact waits.trailing
  have after : (req.append piece).parse.state.Synced := by
    unfold Synced
    rw [sameBuffer, sameLength]
    exact synced
  refine ⟨⟨after, standing.1, trailing_parse trailing (Nat.le_of_eq synced) waiting, ?_⟩,
    sameBuffer⟩
  have ended := parseOffset_of_continues waiting
  rw [after] at ended
  exact Nat.le_antisymm standing.1.within ended

theorem waiting_parseChunks (waits : req.Waiting) {chunks : List Bytes}
    (waiting : (req.parseChunks chunks).verdict = .continues) :
    (req.parseChunks chunks).state.Waiting ∧
      (req.parseChunks chunks).state.rbuf = req.rbuf ++ chunks.flatten := by
  induction chunks generalizing req with
  | nil => exact ⟨waits, (List.append_nil _).symm⟩
  | cons chunk rest inductionHypothesis =>
      by_cases goesOn : (req.append chunk).parse.verdict = .continues
      · have fed : req.parseChunks (chunk :: rest) =
            ((req.append chunk).parse.state.parseChunks rest).after
              (req.append chunk).parse.outputs :=
          parser.feed_cons_of_waits append (· = .continues) .continues goesOn rest
        rw [fed] at waiting ⊢
        obtain ⟨waitsOn, sameBuffer⟩ := waiting_parse waits chunk goesOn
        obtain ⟨waitsThen, whole⟩ := inductionHypothesis waitsOn waiting
        refine ⟨waitsThen, ?_⟩
        rw [Scanned.after_state, whole, sameBuffer, List.flatten_cons, List.append_assoc]
      · have fed : req.parseChunks (chunk :: rest) = (req.append chunk).parse :=
          parser.feed_cons_of_leaves append (· = .continues) .continues goesOn rest
        rw [fed] at waiting
        exact absurd waiting goesOn

/-- Behind a blank line the parser does not wait for more, however the bytes have arrived. -/
theorem verdict_of_blank {chunks : List Bytes} (blank : crlf ++ crlf <:+: chunks.flatten) :
    (reset.parseChunks chunks).verdict ≠ .continues := by
  intro waiting
  obtain ⟨waits, whole⟩ := waiting_parseChunks waiting_reset waiting
  have consumed := waits.trailing.unblank
  rw [waits.through, List.take_length, whole] at consumed
  exact consumed blank

end LineEnds

end Mevent.Request
