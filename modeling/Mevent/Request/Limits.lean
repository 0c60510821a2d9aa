import Mevent.Request.Endings
import Mevent.Request.Receiving

/-!
# The limits of a request

How far `rbuf_len_` grows while a request is received, and what `max_header_size_` is
compared with.
-/

namespace Mevent.Request

open Library

section Counting

variable {req : Request} {piece : Bytes}

theorem accept_eq_append (small : req.rbufLen + piece.length < 2 ^ 32) :
    req.accept piece = req.append piece := by
  have same : wrap32 (req.rbufLen + piece.length) = req.rbufLen + piece.length :=
    Nat.mod_eq_of_lt small
  unfold accept count rbufAppend append
  rw [Int.toNat_natCast, same]

theorem bodyComplete_iff (headed : req.headerLen ≤ req.rbufLen) (small : req.rbufLen < 2 ^ 64) :
    req.bodyComplete = true ↔ req.headerLen + req.contentLength ≤ req.rbufLen := by
  have difference : wrap64 (req.rbufLen + 2 ^ 64 - req.headerLen) =
      req.rbufLen - req.headerLen := by
    unfold wrap64
    omega
  rw [bodyComplete, difference, decide_eq_true_iff]
  omega

end Counting

/-- `rbuf_len_` is the size of `rbuf_`, the offsets are in order, and `rbuf_len_` is within
the limits. -/
structure InBounds (maxHeaderSize maxPostSize : Nat) (req : Request) : Prop where
  counted : req.rbufLen = req.rbuf.length
  matched : req.parseMatch ≤ req.parseOffset
  within : req.parseOffset ≤ req.rbufLen
  headed : req.headerLen ≤ req.rbufLen
  bounded : req.rbufLen ≤ max maxHeaderSize (req.headerLen + maxPostSize + readBufferSize)

section Bounds

variable {maxHeaderSize maxPostSize : Nat}

/-- What keeps a request in its bounds from one piece to the next. -/
structure Counted (maxHeaderSize maxPostSize : Nat) (req : Request) : Prop where
  counted : req.rbufLen = req.rbuf.length
  headed : req.headerLen ≤ maxHeaderSize
  head : req.status = .headerReceiving → req.rbufLen ≤ maxHeaderSize
  bounded : req.rbufLen ≤ max maxHeaderSize (req.headerLen + maxPostSize + readBufferSize)

variable {req : Request} {piece : Bytes} (counted : Counted maxHeaderSize maxPostSize req)
  (config : maxHeaderSize + maxPostSize + 4096 < 2 ^ 32)
  (fits : piece.length ≤ readBufferSize)
include counted config fits

theorem accept_head_eq_append (here : req.status = .headerReceiving) :
    req.accept piece = req.append piece := by
  have := counted.head here
  unfold readBufferSize at fits
  exact accept_eq_append (by omega)

theorem counted_parse (standing : req.Standing) (here : req.status = .headerReceiving)
    (within : (req.accept piece).rbufLen ≤ maxHeaderSize) :
    Counted maxHeaderSize maxPostSize (req.accept piece).parse.state := by
  have appended := accept_head_eq_append counted config fits here
  have parsed := (standing_parse (standing_accept standing piece)).1.headed
  obtain ⟨sameBuffer, sameLength⟩ := rbuf_parse (req.accept piece)
  have grown : (req.accept piece).rbufLen = (req.accept piece).rbuf.length := by
    rw [appended, append_rbufLen, append_rbuf, List.length_append, counted.counted]
  refine ⟨?_, ?_, ?_, ?_⟩
  · rw [sameBuffer, sameLength, grown]
  · rw [sameBuffer] at parsed
    omega
  · intro _
    rw [sameLength]
    exact within
  · rw [sameLength]
    exact le_max_of_le_left within

theorem accept_body_le (standing : req.Standing) (complete : req.bodyComplete = false)
    (within : req.contentLength ≤ maxPostSize) :
    req.accept piece = req.append piece ∧
      (req.accept piece).rbufLen ≤ req.headerLen + maxPostSize + readBufferSize := by
  have headed : req.headerLen ≤ req.rbufLen := counted.counted ▸ standing.headed
  have bounded := counted.bounded
  have fewer := counted.headed
  unfold readBufferSize at fits bounded ⊢
  have incomplete : req.rbufLen < req.headerLen + req.contentLength := by
    apply Nat.lt_of_not_le
    intro enough
    rw [(bodyComplete_iff headed (by omega)).mpr enough] at complete
    cases complete
  have appended : req.accept piece = req.append piece := accept_eq_append (by omega)
  refine ⟨appended, ?_⟩
  rw [appended, append_rbufLen]
  omega

theorem counted_accept (standing : req.Standing) (here : req.status = .bodyReceiving)
    (complete : req.bodyComplete = false) (within : req.contentLength ≤ maxPostSize) :
    Counted maxHeaderSize maxPostSize (req.accept piece) := by
  obtain ⟨appended, bounded⟩ := accept_body_le counted config fits standing complete within
  refine ⟨?_, counted.headed, ?_, le_max_of_le_right bounded⟩
  · rw [appended, append_rbufLen, append_rbuf, List.length_append, counted.counted]
  · intro impossible
    rw [show (req.accept piece).status = req.status from rfl, here] at impossible
    cases impossible

end Bounds

section Runs

variable {tls : Bool} {maxHeaderSize maxPostSize : Nat}

theorem Receives.counted {req : Request} {all : List Bytes}
    (received : Receives maxHeaderSize maxPostSize req all)
    (config : maxHeaderSize + maxPostSize + 4096 < 2 ^ 32)
    (fits : ∀ piece ∈ all, piece.length ≤ readBufferSize) :
    Counted maxHeaderSize maxPostSize req := by
  induction received with
  | fresh => exact ⟨rfl, Nat.zero_le _, fun _ => Nat.zero_le _, Nat.zero_le _⟩
  | head received here within _ inductionHypothesis =>
      have earlier := inductionHypothesis fun piece among =>
        fits piece (List.mem_append_left _ among)
      exact counted_parse earlier config (fits _ List.mem_concat_self) received.standing here
        within
  | headEnd received here within _ inductionHypothesis =>
      have earlier := inductionHypothesis fun piece among =>
        fits piece (List.mem_append_left _ among)
      have parsed := counted_parse earlier config (fits _ List.mem_concat_self)
        received.standing here within
      refine ⟨parsed.counted, parsed.headed, ?_, parsed.bounded⟩
      intro impossible
      cases impossible
  | body received here within complete inductionHypothesis =>
      have earlier := inductionHypothesis fun piece among =>
        fits piece (List.mem_append_left _ among)
      exact counted_accept earlier config (fits _ List.mem_concat_self) received.standing here
        complete within
  | complete _ _ _ _ inductionHypothesis =>
      have earlier := inductionHypothesis fits
      refine ⟨earlier.counted, earlier.headed, ?_, earlier.bounded⟩
      intro impossible
      cases impossible

/-- Every call to `Readn` returns at most the size of the buffer. -/
def FillsBuffer (tls : Bool) (maxHeaderSize maxPostSize : Nat) (state : Request × List Bytes)
    (results : List ReadResult) : Prop :=
  ∀ piece ∈ state.1.pieces tls maxHeaderSize maxPostSize results, piece.length ≤ readBufferSize

theorem fits_of_reads {state : Request × List Bytes}
    (reads : Reads tls maxHeaderSize maxPostSize (FillsBuffer tls maxHeaderSize maxPostSize)
      state) :
    ∀ piece ∈ state.2, piece.length ≤ readBufferSize := by
  induction reads with
  | refl => intro piece impossible; cases impossible
  | next results _ fills taken inductionHypothesis =>
      obtain ⟨result, -, again⟩ := Option.bind_eq_some_iff.mp taken
      split at again
      next =>
        cases again
        intro piece among
        rcases List.mem_append.mp among with earlier | new
        · exact inductionHypothesis piece earlier
        · exact fills piece new
      next => cases again

/-- In every state that calls to `ReadData` leave with `AGAIN` the request is in its bounds,
and no further call leaves the buffer. -/
theorem inBounds_of_reads (config : maxHeaderSize + maxPostSize + 4096 < 2 ^ 32)
    {state : Request × List Bytes}
    (reads : Reads tls maxHeaderSize maxPostSize (FillsBuffer tls maxHeaderSize maxPostSize)
      state) :
    state.1.InBounds maxHeaderSize maxPostSize ∧
      ∀ results, (state.1.readData tls maxHeaderSize maxPostSize results).isSome := by
  have received := receives_of_reads reads
  have counted := received.counted config (fits_of_reads reads)
  have standing := received.standing
  refine ⟨⟨counted.counted, standing.matched, ?_, ?_, counted.bounded⟩, ?_⟩
  · rw [counted.counted]
    exact standing.within
  · rw [counted.counted]
    exact standing.headed
  · intro results
    by_cases receiving : state.1.Receiving
    · obtain ⟨result, read, -⟩ := @ends_readData tls _ _ _ _ received receiving results
      rw [read]
      rfl
    · unfold Receiving at receiving
      rw [not_or] at receiving
      rw [readData, if_neg receiving.1, if_neg receiving.2]
      rfl

/-- A request of which two bytes have arrived. -/
theorem inBounds_of_reads_two_bytes :
    ∃ state, Reads false 2048 8192 (FillsBuffer false 2048 8192) state ∧
      state.2 = [ascii ['G', 'E']] ∧ state.1.InBounds 2048 8192 ∧
        ∀ results, (state.1.readData false 2048 8192 results).isSome := by
  have taken : readStep false 2048 8192 (reset, []) [.delivered 71 [69]] =
      some ({ reset with
        rbuf := [71, 69]
        rbufLen := 2
        method := .get
        parseStatus := .method
        parseOffset := 2 }, [ascii ['G', 'E']]) := by
    decide +kernel
  have fills : FillsBuffer false 2048 8192 (reset, []) [.delivered 71 [69]] := by
    unfold FillsBuffer
    decide +kernel
  have reads := Reaches.refl.next _ fills taken
  exact ⟨_, reads, rfl, inBounds_of_reads (by decide) reads⟩

end Runs

section HeaderLimit

variable {maxHeaderSize maxPostSize : Nat} {req : Request} {all : List Bytes}

theorem parseChunks_concat {before : List Bytes}
    (waiting : (reset.parseChunks before).verdict = .continues) (piece : Bytes) :
    (reset.parseChunks (before ++ [piece])).state =
        ((reset.parseChunks before).state.append piece).parse.state ∧
      (reset.parseChunks (before ++ [piece])).verdict =
        ((reset.parseChunks before).state.append piece).parse.verdict := by
  have fed : reset.parseChunks (before ++ [piece]) =
      ((reset.parseChunks before).state.parseChunks [piece]).after
        (reset.parseChunks before).outputs :=
    parser.feed_append_of_waits append (· = .continues) .continues waiting [piece]
  rw [fed]
  by_cases goesOn : ((reset.parseChunks before).state.append piece).parse.verdict = .continues
  · have single : (reset.parseChunks before).state.parseChunks [piece] =
        Scanned.after _ ⟨((reset.parseChunks before).state.append piece).parse.state, [],
          .continues⟩ :=
      parser.feed_cons_of_waits append (· = .continues) .continues goesOn []
    rw [single, goesOn]
    exact ⟨rfl, rfl⟩
  · have single : (reset.parseChunks before).state.parseChunks [piece] =
        ((reset.parseChunks before).state.append piece).parse :=
      parser.feed_cons_of_leaves append (· = .continues) .continues goesOn []
    rw [single]
    exact ⟨rfl, rfl⟩

theorem verdict_parseChunks_append {before : List Bytes}
    (ended : (reset.parseChunks before).verdict ≠ .continues) (after : List Bytes) :
    (reset.parseChunks (before ++ after)).verdict = (reset.parseChunks before).verdict := by
  have fed : reset.parseChunks (before ++ after) = reset.parseChunks before :=
    parser.feed_append_of_leaves append (· = .continues) .continues rfl ended after
  rw [fed]

/-- While the head is received, the parser waits in this state. -/
structure Pending (req : Request) (all : List Bytes) : Prop where
  waiting : (reset.parseChunks all).verdict = .continues
  state : (reset.parseChunks all).state = req
  counted : req.rbufLen = all.flatten.length

theorem pending_fresh : Pending reset [] := ⟨rfl, rfl, rfl⟩

theorem Pending.next {piece : Bytes} (pending : Pending req all)
    (small : (all ++ [piece]).flatten.length < 2 ^ 32) :
    req.accept piece = req.append piece ∧
      (req.accept piece).rbufLen = (all ++ [piece]).flatten.length ∧
      (reset.parseChunks (all ++ [piece])).state = (req.accept piece).parse.state ∧
      (reset.parseChunks (all ++ [piece])).verdict = (req.accept piece).parse.verdict := by
  have length : (all ++ [piece]).flatten.length = all.flatten.length + piece.length := by
    simp
  have appended : req.accept piece = req.append piece := by
    apply accept_eq_append
    rw [pending.counted, ← length]
    exact small
  refine ⟨appended, ?_, ?_⟩
  · rw [appended, append_rbufLen, pending.counted, length]
  · rw [appended, ← pending.state]
    exact parseChunks_concat pending.waiting piece

/-- What is received is what the parser is fed. -/
theorem Receives.parsed (received : Receives maxHeaderSize maxPostSize req all)
    (small : all.flatten.length < 2 ^ 32) :
    (req.status = .headerReceiving → Pending req all) ∧
      (req.status ≠ .headerReceiving → (reset.parseChunks all).verdict = .finished) := by
  induction received with
  | fresh => exact ⟨fun _ => pending_fresh, fun impossible => absurd rfl impossible⟩
  | @head req before piece received here _ continues inductionHypothesis =>
      have smaller : before.flatten.length < 2 ^ 32 := by
        simp only [List.flatten_append, List.length_append] at small
        omega
      obtain ⟨-, counted, state, verdict⟩ :=
        ((inductionHypothesis smaller).1 here).next small
      have length := (rbuf_parse (req.accept piece)).2
      refine ⟨fun _ => ⟨verdict.trans continues, state, length.trans counted⟩, ?_⟩
      intro impossible
      exact absurd ((status_parse (req.accept piece)).trans here) impossible
  | @headEnd req before piece received here _ finished inductionHypothesis =>
      have smaller : before.flatten.length < 2 ^ 32 := by
        simp only [List.flatten_append, List.length_append] at small
        omega
      obtain ⟨-, -, -, verdict⟩ := ((inductionHypothesis smaller).1 here).next small
      refine ⟨?_, fun _ => verdict.trans finished⟩
      intro impossible
      cases impossible
  | @body req before piece received here _ _ inductionHypothesis =>
      have smaller : before.flatten.length < 2 ^ 32 := by
        simp only [List.flatten_append, List.length_append] at small
        omega
      have notHead : req.status ≠ .headerReceiving := by
        rw [here]
        decide
      have finished := (inductionHypothesis smaller).2 notHead
      refine ⟨fun impossible => absurd impossible notHead, fun _ => ?_⟩
      rw [verdict_parseChunks_append (by rw [finished]; decide), finished]
  | @complete req before received here _ _ inductionHypothesis =>
      have notHead : req.status ≠ .headerReceiving := by
        rw [here]
        decide
      refine ⟨?_, fun _ => (inductionHypothesis small).2 notHead⟩
      intro impossible
      cases impossible

theorem Receives.errorCode (received : Receives maxHeaderSize maxPostSize req all) :
    req.errorCode = 0 := by
  have parsed : ∀ (req : Request) piece, (req.accept piece).parse.state.errorCode =
      req.errorCode := fun req piece => congrArg (·.2.1) (keeps_parse (req.accept piece)).1
  induction received with
  | fresh => rfl
  | head _ _ _ _ inductionHypothesis => exact (parsed _ _).trans inductionHypothesis
  | headEnd _ _ _ _ inductionHypothesis => exact (parsed _ _).trans inductionHypothesis
  | body _ _ _ _ inductionHypothesis => exact inductionHypothesis
  | complete _ _ _ _ inductionHypothesis => exact inductionHypothesis

/-- As long as the head is incomplete, `rbuf_len_` stays within the limit. -/
def WithinLimit (maxHeaderSize : Nat) (all : List Bytes) : Prop :=
  ∀ before piece after, all = before ++ piece :: after →
    (reset.parseChunks before).verdict = .continues →
      (before ++ [piece]).flatten.length ≤ maxHeaderSize

theorem split_concat {Item : Type} {front before after : List Item} {last item : Item}
    (split : front ++ [last] = before ++ item :: after) :
    front = before ∧ last = item ∨ ∃ rest, front = before ++ item :: rest := by
  rcases after.eq_nil_or_concat with rfl | ⟨rest, other, rfl⟩
  · obtain ⟨sameFront, sameLast⟩ := List.append_inj' split rfl
    exact .inl ⟨sameFront, List.singleton_inj.mp sameLast⟩
  · rw [List.concat_eq_append, ← List.cons_append, ← List.append_assoc] at split
    exact .inr ⟨rest, (List.append_inj' split rfl).1⟩

theorem withinLimit_concat {before : List Bytes} {piece : Bytes}
    (within : WithinLimit maxHeaderSize before)
    (last : (reset.parseChunks before).verdict = .continues →
      (before ++ [piece]).flatten.length ≤ maxHeaderSize) :
    WithinLimit maxHeaderSize (before ++ [piece]) := by
  intro front item after split waiting
  rcases split_concat split with ⟨rfl, rfl⟩ | ⟨rest, rfl⟩
  · exact last waiting
  · exact within front item rest rfl waiting

theorem small_of_concat {before : List Bytes} {piece : Bytes}
    (small : (before ++ [piece]).flatten.length < 2 ^ 32) :
    before.flatten.length < 2 ^ 32 := by
  simp only [List.flatten_append, List.length_append] at small
  omega

theorem Receives.withinLimit (received : Receives maxHeaderSize maxPostSize req all)
    (small : all.flatten.length < 2 ^ 32) : WithinLimit maxHeaderSize all := by
  induction received with
  | fresh =>
      intro before piece after split
      simp at split
  | @head req before piece received here within _ inductionHypothesis =>
      apply withinLimit_concat (inductionHypothesis (small_of_concat small))
      intro _
      obtain ⟨-, counted, -⟩ := ((received.parsed (small_of_concat small)).1 here).next small
      rw [← counted]
      exact within
  | @headEnd req before piece received here within _ inductionHypothesis =>
      apply withinLimit_concat (inductionHypothesis (small_of_concat small))
      intro _
      obtain ⟨-, counted, -⟩ := ((received.parsed (small_of_concat small)).1 here).next small
      rw [← counted]
      exact within
  | @body req before piece received here _ _ inductionHypothesis =>
      apply withinLimit_concat (inductionHypothesis (small_of_concat small))
      intro waiting
      have notHead : req.status ≠ .headerReceiving := by
        rw [here]
        decide
      rw [(received.parsed (small_of_concat small)).2 notHead] at waiting
      cases waiting
  | complete _ _ _ _ inductionHypothesis => exact inductionHypothesis small

theorem Receives.small (received : Receives maxHeaderSize maxPostSize req all)
    (config : maxHeaderSize < 2 ^ 32) (within : WithinLimit maxHeaderSize all)
    (here : req.status = .headerReceiving) : all.flatten.length < 2 ^ 32 := by
  induction received with
  | fresh => simp
  | @head req before piece received waits _ continues inductionHypothesis =>
      have earlier : WithinLimit maxHeaderSize before := by
        rintro front item rest rfl waiting
        exact within front item (rest ++ [piece]) (by simp) waiting
      have smaller := inductionHypothesis earlier waits
      have bounded := within before piece [] rfl ((received.parsed smaller).1 waits).waiting
      omega
  | headEnd _ _ _ _ _ => cases here
  | body _ waits _ _ _ =>
      rw [show (Request.accept _ _).status = _ from waits] at here
      cases here
  | complete _ _ _ _ _ => cases here

theorem Refuses.withinLimit (refused : Refuses maxHeaderSize maxPostSize req all)
    (small : all.flatten.length < 2 ^ 32) (accepted : req.errorCode ≠ 500) :
    WithinLimit maxHeaderSize all := by
  cases refused with
  | tooLarge _ _ _ => exact absurd rfl accepted
  | @malformed req before piece received here within _ =>
      apply withinLimit_concat (received.withinLimit (small_of_concat small))
      intro _
      obtain ⟨-, counted, -⟩ := ((received.parsed (small_of_concat small)).1 here).next small
      rw [← counted]
      exact within
  | bodyTooLarge _ _ _ => exact absurd rfl accepted

theorem Refuses.errorCode (refused : Refuses maxHeaderSize maxPostSize req all)
    (within : WithinLimit maxHeaderSize all) (fits : req.contentLength ≤ maxPostSize) :
    req.errorCode ≠ 500 := by
  cases refused with
  | @tooLarge req before piece received here exceeded =>
      have earlier : WithinLimit maxHeaderSize before := by
        rintro front item rest rfl waiting
        exact within front item (rest ++ [piece]) (by simp) waiting
      have counted : (req.accept piece).rbufLen < 2 ^ 32 := Nat.mod_lt _ (by decide)
      have smaller := received.small (by omega) earlier here
      have pending := (received.parsed smaller).1 here
      have bounded := within before piece [] rfl pending.waiting
      have grown : (req.accept piece).rbufLen ≤ req.rbufLen + piece.length := Nat.mod_le _ _
      have length : (before ++ [piece]).flatten.length =
          before.flatten.length + piece.length := by
        simp
      have same := pending.counted
      omega
  | malformed _ _ _ _ => simp
  | bodyTooLarge _ _ exceeded => exact absurd fits (Nat.not_le.mpr exceeded)

/-- A call to `ReadData` takes its pieces, or refuses the request. -/
theorem receives_or_refuses {tls : Bool} {state : Request × List Bytes}
    (reads : Reads tls maxHeaderSize maxPostSize (fun _ _ => True) state)
    {results : List ReadResult} {result : ReadDataResult}
    (read : state.1.readData tls maxHeaderSize maxPostSize results = some result) :
    Receives maxHeaderSize maxPostSize result.req
        (state.2 ++ state.1.pieces tls maxHeaderSize maxPostSize results) ∨
      Refuses maxHeaderSize maxPostSize result.req
        (state.2 ++ state.1.pieces tls maxHeaderSize maxPostSize results) := by
  have received := receives_of_reads reads
  by_cases receiving : state.1.Receiving
  · obtain ⟨other, same, ends⟩ := @ends_readData tls _ _ _ _ received receiving results
    rw [read] at same
    cases same
    exact ends.imp And.right And.right
  · obtain ⟨notHead, notBody⟩ := not_or.mp receiving
    have nothing : state.1.pieces tls maxHeaderSize maxPostSize results = [] := by
      rw [pieces, if_neg notHead, bodyPieces, if_neg (fun awaits => notBody awaits.1)]
    rw [readData, if_neg notHead, if_neg notBody] at read
    cases read
    rw [nothing, List.append_nil]
    exact .inl received

/-- The read that brings the end of the head stays within the limit, with all that it brings
behind it. -/
def HeadFits (maxHeaderSize : Nat) (head : Bytes) (all : List Bytes) : Prop :=
  ∀ before piece after, all = before ++ piece :: after →
    before.flatten.length < head.length →
      head.length ≤ (before ++ [piece]).flatten.length →
        (reset.parseChunks before).verdict = .continues →
          (before ++ [piece]).flatten.length ≤ maxHeaderSize

theorem length_lt_of_continues {head rest : Bytes} {before after : List Bytes}
    (blank : crlf ++ crlf <:+ head) (sent : (before ++ after).flatten <+: head ++ rest)
    (waiting : (reset.parseChunks before).verdict = .continues) :
    before.flatten.length < head.length := by
  by_contra complete
  have front : before.flatten <+: head ++ rest := by
    rw [List.flatten_append] at sent
    exact (List.prefix_append _ _).trans sent
  have whole : head <+: before.flatten :=
    List.prefix_of_prefix_length_le (List.prefix_append _ _) front (Nat.not_lt.mp complete)
  exact verdict_of_blank (blank.isInfix.trans whole.isInfix) waiting

theorem withinLimit_of_headFits {head rest : Bytes} (blank : crlf ++ crlf <:+ head)
    (short : head.length ≤ maxHeaderSize) (sent : all.flatten <+: head ++ rest)
    (fits : HeadFits maxHeaderSize head all) : WithinLimit maxHeaderSize all := by
  rintro before piece after rfl waiting
  by_cases complete : head.length ≤ (before ++ [piece]).flatten.length
  · exact fits before piece after rfl (length_lt_of_continues blank sent waiting) complete waiting
  · omega

/-- A head is charged with the other bytes of the read that completes it. -/
theorem errorCode_iff_headFits {tls : Bool} {state : Request × List Bytes}
    (reads : Reads tls maxHeaderSize maxPostSize (fun _ _ => True) state)
    {results : List ReadResult} {result : ReadDataResult}
    (read : state.1.readData tls maxHeaderSize maxPostSize results = some result)
    {head rest : Bytes} (blank : crlf ++ crlf <:+ head) (short : head.length ≤ maxHeaderSize)
    (sent : (state.2 ++ state.1.pieces tls maxHeaderSize maxPostSize results).flatten <+:
      head ++ rest)
    (body : result.req.contentLength ≤ maxPostSize) :
    let all := state.2 ++ state.1.pieces tls maxHeaderSize maxPostSize results
    (HeadFits maxHeaderSize head all → result.req.errorCode ≠ 500) ∧
      (all.flatten.length < 2 ^ 32 → result.req.errorCode ≠ 500 →
        HeadFits maxHeaderSize head all) := by
  have ends := receives_or_refuses reads read
  constructor
  · intro fits
    rcases ends with received | refused
    · rw [received.errorCode]
      decide
    · exact refused.errorCode (withinLimit_of_headFits blank short sent fits) body
  · intro small accepted before piece after split _ _ waiting
    rcases ends with received | refused
    · exact received.withinLimit small before piece after split waiting
    · exact refused.withinLimit small accepted before piece after split waiting

/-- The head of a `PUT` with a body of one byte. -/
def putHead : Bytes :=
  ascii ['P', 'U', 'T', ' ', '/', ' ', '\r', '\n', 'C', 'o', 'n', 't', 'e', 'n', 't', '-',
    'L', 'e', 'n', 'g', 't', 'h', ':', '1', '\r', '\n', '\r', '\n']

/-- The head and its body arrive in one read. -/
theorem errorCode_iff_headFits_put :
    ∃ result, reset.readData false 2048 8192 [.delivered 80 (putHead.tail ++ [120])] =
        some result ∧
      let all := reset.pieces false 2048 8192 [.delivered 80 (putHead.tail ++ [120])]
      (HeadFits 2048 putHead all → result.req.errorCode ≠ 500) ∧
        (all.flatten.length < 2 ^ 32 → result.req.errorCode ≠ 500 →
          HeadFits 2048 putHead all) := by
  have length : (reset.readData false 2048 8192
      [.delivered 80 (putHead.tail ++ [120])]).map (·.req.contentLength) = some 1 := by
    decide +kernel
  obtain ⟨result, read, one⟩ := Option.map_eq_some_iff.mp length
  have sent : ([] ++ reset.pieces false 2048 8192
      [.delivered 80 (putHead.tail ++ [120])]).flatten <+: putHead ++ [120] := by
    decide +kernel
  exact ⟨result, read, errorCode_iff_headFits .refl read (by decide) (by decide) sent
    (one.trans_le (by decide))⟩

/-- Cut behind the head, the same bytes are accepted. -/
theorem not_errorCode_ne_500_put :
    crlf ++ crlf <:+ putHead ∧ putHead.length = 28 ∧
      (reset.append putHead).parse.verdict = .finished ∧
      (∀ index ≤ 28, (reset.parseChunks [putHead.take index, putHead.drop index]).verdict =
        .finished) ∧
      (reset.readData false 28 8192 [.delivered 80 (putHead.tail ++ [120])]).map
          (fun result => (result.status, result.req.errorCode)) = some (.error, 500) ∧
      ((reset.readData false 28 8192 [.delivered 80 putHead.tail]).bind fun result =>
          result.req.readData false 28 8192 [.delivered 120 []]).map
            (fun result => (result.status, result.req.status)) =
          some (.again, .bodyReceived) := by
  refine ⟨by decide, by decide, by decide +kernel, by decide +kernel, by decide +kernel,
    by decide +kernel⟩

end HeaderLimit

end Mevent.Request
