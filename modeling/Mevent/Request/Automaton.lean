import Mevent.Request.Chunks
import Mevent.Request.Target

/-!
# The parser in the request line

Up to the space behind the target, the states of `Request::Parse` form an automaton over
single bytes.  Each of its rounds agrees with the reading of the whole stream.
-/

namespace Mevent.Request

open Library

/-- The bytes in the buffer that have not been parsed. -/
def unread (req : Request) : Bytes := req.rbuf.drop req.parseOffset

/-- What the parser keeps while it stands in the request line. -/
def Along (req : Request) : Prop :=
  req.Synced ∧
    match req.parseStatus with
    | .start =>
        req.parseOffset = 0 ∧ req.parseMatch = 0 ∧ req.path = [] ∧ req.queryString = []
    | .methodP =>
        req.parseOffset = 1 ∧ req.parseMatch = 0 ∧ req.path = [] ∧ req.queryString = []
    | .method =>
        req.method.name.isSome ∧ req.parseMatch = 0 ∧ req.path = [] ∧ req.queryString = []
    | .path => req.queryString = []
    | .queryString => True
    | _ => False

/-- A handler agrees with the stream about the request line. -/
def Handled.Follows (req : Request) (ch : UInt8) : Handled → Prop
  | .bottom next =>
      Along { next with parseOffset := req.parseOffset + 1 } ∧
          (∀ rest, req.await (ch :: rest) =
            { next with parseOffset := req.parseOffset + 1 }.await rest) ∨
        next.parseStatus = .eol ∧ ∀ rest, req.await (ch :: rest) = some next.parts
  | .again next =>
      next.Along ∧
        (next.parseOffset = req.parseOffset ∧
            (∀ rest, req.await (ch :: rest) = next.await (ch :: rest)) ∨
          next.parseOffset = req.parseOffset + 1 ∧
            ∀ rest, req.await (ch :: rest) = next.await rest)
  | .break _ status => status = .error ∧ ∀ rest, req.await (ch :: rest) = none

section Handlers

variable {req : Request} {ch : UInt8}

theorem follows_queryString (along : req.Along) (clean : token ch ≠ 0)
    (here : req.parseStatus = .queryString) : (req.handleQueryString ch).Follows req ch := by
  obtain ⟨synced, -⟩ := along
  have awaits : ∀ rest, req.await (ch :: rest) =
      awaitQuery req.method req.path req.queryString (ch :: rest) := by
    intro rest
    rw [await, here]
  unfold handleQueryString
  by_cases isSpace : ch = space
  · rw [if_neg (not_not.mpr isSpace)]
    refine .inr ⟨rfl, fun rest => ?_⟩
    rw [awaits, awaitQuery, if_pos isSpace]
    rfl
  · rw [if_pos isSpace]
    by_cases url : isUrlChar ch = true
    · rw [if_pos url]
      refine .inl ⟨⟨synced, ?_⟩, fun rest => ?_⟩
      · simp [here]
      · rw [awaits, awaitQuery, if_neg isSpace, if_pos ⟨clean, url⟩, await]
        simp [here]
    · rw [if_neg url]
      refine ⟨rfl, fun rest => ?_⟩
      rw [awaits, awaitQuery, if_neg isSpace, if_neg fun both => url both.2]

theorem follows_path (along : req.Along) (clean : token ch ≠ 0)
    (here : req.parseStatus = .path) : (req.handlePath ch).Follows req ch := by
  obtain ⟨synced, unasked⟩ := along
  simp only [here] at unasked
  have awaits : ∀ rest, req.await (ch :: rest) =
      awaitPath req.method req.path (ch :: rest) := by
    intro rest
    rw [await, here]
  unfold handlePath
  by_cases isSpace : ch = space
  · rw [if_neg (not_not.mpr isSpace)]
    by_cases empty : req.path = []
    · rw [if_neg (not_not.mpr empty)]
      refine ⟨rfl, fun rest => ?_⟩
      rw [awaits, awaitPath, if_pos isSpace, if_pos empty]
    · rw [if_pos empty]
      refine .inr ⟨rfl, fun rest => ?_⟩
      rw [awaits, awaitPath, if_pos isSpace, if_neg empty, ← unasked]
      rfl
  · rw [if_pos isSpace]
    by_cases url : isUrlChar ch = true
    · rw [if_pos url]
      refine .inl ⟨⟨synced, ?_⟩, fun rest => ?_⟩
      · simp [here, unasked]
      · rw [awaits, awaitPath, if_neg isSpace, if_pos ⟨clean, url⟩, await]
        simp [here]
    · have notUrl : ¬ UrlByte ch := fun both => url both.2
      rw [if_neg url]
      by_cases asks : ch = '?'.toUInt8
      · rw [if_pos asks]
        refine ⟨⟨synced, trivial⟩, .inr ⟨rfl, fun rest => ?_⟩⟩
        rw [awaits, awaitPath, if_neg isSpace, if_neg notUrl, if_pos asks, await, ← unasked]
      · rw [if_neg asks]
        refine ⟨rfl, fun rest => ?_⟩
        rw [awaits, awaitPath, if_neg isSpace, if_neg notUrl, if_neg asks]

/-- Behind the name, `S_METHOD` skips spaces; there has to be one. -/
theorem follows_method_end {name : Bytes} (along : req.Along) (here : req.parseStatus = .method)
    (named : req.method.name = some name) (past : name.length ≤ req.parseOffset) :
    (req.handleMethod (token ch)).Follows req ch := by
  obtain ⟨synced, kept⟩ := along
  simp only [here] at kept
  obtain ⟨isNamed, fromStart, noPath, unasked⟩ := kept
  have positive := List.length_pos_iff.mpr (not_mem_methodName named).2.2
  have handled : req.handleMethod (token ch) =
      if token ch ≠ space then
        if req.parseOffset = name.length then .break req .error
        else .again { req with parseStatus := .path, parseMatch := req.parseOffset }
      else .bottom req := by
    unfold handleMethod
    simp only [named]
    rw [if_pos (by omega)]
  have awaits : ∀ rest, req.await (ch :: rest) =
      if name.length < req.parseOffset then
        awaitPath req.method [] ((ch :: rest).dropWhile (· = space))
      else
        awaitName req.method [] (ch :: rest) := by
    intro rest
    rw [await, here]
    simp only [named, Option.bind_some]
    rw [List.drop_eq_nil_of_le past]
  rw [handled]
  by_cases isSpace : ch = space
  · have stays : ¬ token ch ≠ space := not_not.mpr ((token_eq_space_iff ch).mpr isSpace)
    rw [if_neg stays]
    refine .inl ⟨⟨synced, ?_⟩, fun rest => ?_⟩
    · simp only [here]
      exact ⟨isNamed, fromStart, noPath, unasked⟩
    · rw [awaits, await]
      simp only [here, named, Option.bind_some]
      rw [if_pos (Nat.lt_succ_of_le past), awaitName, isSpace, dropWhile_space, List.head?_cons,
        if_pos rfl, ite_self]
  · rw [if_pos fun same => isSpace ((token_eq_space_iff ch).mp same)]
    by_cases atEnd : req.parseOffset = name.length
    · rw [if_pos atEnd]
      refine ⟨rfl, fun rest => ?_⟩
      rw [awaits, if_neg (Nat.not_lt.mpr (Nat.le_of_eq atEnd)), awaitName, List.head?_cons,
        if_neg fun same => isSpace (Option.some.inj same)]
    · rw [if_neg atEnd]
      refine ⟨⟨synced, unasked⟩, .inl ⟨rfl, fun rest => ?_⟩⟩
      rw [awaits, if_pos (by omega), dropWhile_of_ne_space isSpace, await, noPath]

/-- In the name, `S_METHOD` compares bytes. -/
theorem follows_method_name {name : Bytes} (along : req.Along)
    (here : req.parseStatus = .method) (named : req.method.name = some name)
    (inside : req.parseOffset < name.length) :
    (req.handleMethod (token ch)).Follows req ch := by
  obtain ⟨synced, kept⟩ := along
  simp only [here] at kept
  obtain ⟨isNamed, fromStart, noPath, unasked⟩ := kept
  have byte : (name ++ [0])[req.parseOffset]? = some name[req.parseOffset] := by
    rw [List.getElem?_append_left inside, List.getElem?_eq_getElem inside]
  have handled : req.handleMethod (token ch) =
      if name[req.parseOffset] ≠ token ch then .break req .error else .bottom req := by
    unfold handleMethod
    simp only [named]
    rw [if_neg (by omega), withDistance, if_pos (by omega), fromStart, Nat.sub_zero,
      withNameByte, byte]
  have awaits : ∀ rest, req.await (ch :: rest) =
      if token ch = name[req.parseOffset] then
        awaitName req.method (name.drop (req.parseOffset + 1)) rest
      else
        none := by
    intro rest
    rw [await, here]
    simp only [named, Option.bind_some]
    rw [if_neg (by omega), List.drop_eq_getElem_cons inside, awaitName]
  rw [handled]
  by_cases same : name[req.parseOffset] = token ch
  · rw [if_neg (not_not.mpr same)]
    refine .inl ⟨⟨synced, ?_⟩, fun rest => ?_⟩
    · simp only [here]
      exact ⟨isNamed, fromStart, noPath, unasked⟩
    · rw [awaits, if_pos same.symm, await]
      simp only [here, named, Option.bind_some]
      rw [if_neg (by omega)]
  · rw [if_pos same]
    refine ⟨rfl, fun rest => ?_⟩
    rw [awaits, if_neg (Ne.symm same)]

theorem follows_method (along : req.Along) (here : req.parseStatus = .method) :
    (req.handleMethod (token ch)).Follows req ch := by
  have isNamed := along.2
  simp only [here] at isNamed
  obtain ⟨name, named⟩ := Option.isSome_iff_exists.mp isNamed.1
  rcases Nat.lt_or_ge req.parseOffset name.length with inside | past
  · exact follows_method_name along here named inside
  · exact follows_method_end along here named past

theorem await_method {name : Bytes} (here : req.parseStatus = .method)
    (named : req.method.name = some name) (inside : req.parseOffset ≤ name.length)
    (stream : Bytes) :
    req.await stream = awaitName req.method (name.drop req.parseOffset) stream := by
  rw [await, here]
  simp only [named, Option.bind_some]
  rw [if_neg (Nat.not_lt.mpr inside)]

theorem follows_methodP (along : req.Along) (here : req.parseStatus = .methodP) :
    (req.handleMethodP (token ch)).Follows req ch := by
  obtain ⟨synced, kept⟩ := along
  simp only [here] at kept
  obtain ⟨second, fromStart, noPath, unasked⟩ := kept
  have awaits : ∀ rest, req.await (ch :: rest) =
      (methodOf 'p'.toUInt8 (token ch)).name.bind fun name =>
        awaitName (methodOf 'p'.toUInt8 (token ch)) name.tail (ch :: rest) := by
    intro rest
    rw [await, here]
    rfl
  rw [handleMethodP_eq]
  cases named : (methodOf 'p'.toUInt8 (token ch)).name with
  | none =>
      refine ⟨rfl, fun rest => ?_⟩
      rw [awaits, named]
      rfl
  | some name =>
      have begins : name.tail = token ch :: name.tail.tail :=
        (List.cons_head?_tail (name_methodOf_p named)).symm
      have long : 2 ≤ name.length := by
        have length := congrArg List.length begins
        rw [List.length_tail, List.length_cons] at length
        omega
      refine .inl ⟨⟨synced, ?_⟩, fun rest => ?_⟩
      · exact ⟨by rw [named]; rfl, fromStart, noPath, unasked⟩
      · rw [awaits, named, Option.bind_some, begins, awaitName, if_pos rfl]
        rw [@await_method _ name rfl named (by simp only [second]; exact long)]
        simp only [second]
        rw [← List.drop_one, ← List.drop_one, List.drop_drop]

theorem follows_start (along : req.Along) (here : req.parseStatus = .start) :
    (req.handleStart (token ch)).Follows req ch := by
  obtain ⟨synced, kept⟩ := along
  simp only [here] at kept
  obtain ⟨first, fromStart, noPath, unasked⟩ := kept
  have awaits : ∀ rest, req.await (ch :: rest) =
      (methodOf (token ch) (token (rest.getD 0 0))).name.bind fun name =>
        awaitName (methodOf (token ch) (token (rest.getD 0 0))) name (ch :: rest) := by
    intro rest
    rw [await, here]
    rfl
  by_cases isP : token ch = 'p'.toUInt8
  · rw [isP, handleStart_of_p]
    refine .inl ⟨⟨synced, ?_⟩, fun rest => ?_⟩
    · exact ⟨by simp only [first], fromStart, noPath, unasked⟩
    · rw [awaits, await, isP]
      simp only
      cases named : (methodOf 'p'.toUInt8 (token (rest.getD 0 0))).name with
      | none => rfl
      | some name =>
          rw [Option.bind_some, Option.bind_some,
            ← List.cons_head?_tail (name_methodOf named), awaitName, if_pos isP]
          rfl
  · rw [handleStart_of_ne isP]
    cases named : (methodOf (token ch) 0).name with
    | none =>
        refine ⟨rfl, fun rest => ?_⟩
        rw [awaits, methodOf_first isP, named]
        rfl
    | some name =>
        refine .inl ⟨⟨synced, ?_⟩, fun rest => ?_⟩
        · exact ⟨by rw [named]; rfl, fromStart, noPath, unasked⟩
        · have begins := List.cons_head?_tail (name_methodOf named)
          have long : 1 ≤ name.length := by
            rw [← begins]
            exact Nat.le_add_left _ _
          rw [awaits, methodOf_first isP, named, Option.bind_some, ← begins, awaitName,
            if_pos rfl]
          rw [@await_method _ name rfl named (by simp only [first]; exact long)]
          simp only [first]
          rw [← List.drop_one]

theorem follows_handle (along : req.Along) (clean : token ch ≠ 0) :
    (req.handle ch (token ch)).Follows req ch := by
  have inside := along.2
  unfold handle handleAt
  cases here : req.parseStatus with
  | start => exact follows_start along here
  | methodP => exact follows_methodP along here
  | method => exact follows_method along here
  | path => exact follows_path along clean here
  | queryString => exact follows_queryString along clean here
  | _ =>
      simp only [here] at inside

theorem awaitPath_of_unclean (unclean : token ch = 0) (method : RequestMethod)
    (path rest : Bytes) : awaitPath method path (ch :: rest) = none := by
  have notSpace : ch ≠ space := by
    rintro rfl
    revert unclean
    decide
  have notMark : ch ≠ '?'.toUInt8 := by
    rintro rfl
    revert unclean
    decide
  rw [awaitPath, if_neg notSpace, if_neg fun url => url.1 unclean, if_neg notMark]

/-- No request line has a byte that `TOKEN` refuses. -/
theorem await_of_unclean (along : req.Along) (unclean : token ch = 0) (rest : Bytes) :
    req.await (ch :: rest) = none := by
  have inside := along.2
  have notSpace : ch ≠ space := by
    rintro rfl
    revert unclean
    decide
  unfold await
  cases here : req.parseStatus with
  | start =>
      simp only [List.getD_cons_zero, unclean]
      rw [show methodOf 0 _ = .unknown from rfl]
      rfl
  | methodP =>
      simp only [List.getD_cons_zero, unclean]
      rw [show methodOf 'p'.toUInt8 0 = .unknown from rfl]
      rfl
  | method =>
      rw [Option.bind_eq_none_iff]
      intro name named
      split
      · rw [dropWhile_of_ne_space notSpace]
        exact awaitPath_of_unclean unclean _ _ _
      · cases expected : name.drop req.parseOffset with
        | nil =>
            rw [awaitName, List.head?_cons, if_neg fun same => notSpace (Option.some.inj same)]
        | cons c later =>
            rw [awaitName, unclean, if_neg]
            rintro rfl
            have among : 0 ∈ name.drop req.parseOffset := by
              rw [expected]
              exact List.mem_cons_self
            exact (not_mem_methodName named).1 (List.mem_of_mem_drop among)
  | path => exact awaitPath_of_unclean unclean _ _ _
  | queryString =>
      simp only [awaitQuery]
      rw [if_neg notSpace, if_neg fun url => url.1 unclean]
  | _ => simp only [here] at inside

end Handlers

/-- In the request line a round waits for more, refuses the line, or goes on in it or
behind it, as the stream says. -/
theorem round_of_along {req : Request} (along : req.Along)
    (within : req.parseOffset ≤ req.rbuf.length) :
    (parser.round req = .leave req .continues ∧ req.parseOffset = req.rbuf.length) ∨
      (∃ last, parser.round req = .leave last .error ∧
        ∀ more, req.await (req.unread ++ more) = none) ∨
      ∃ next, parser.round req = .advance next [] ∧
        (next.Along ∧ next.parseOffset ≤ next.rbuf.length ∧
            (∀ more, req.await (req.unread ++ more) = next.await (next.unread ++ more)) ∨
          next.parseStatus = .eol ∧ ∀ more, req.await (req.unread ++ more) = some next.parts) := by
  have synced : req.rbufLen = req.rbuf.length := along.1
  rcases Nat.lt_or_ge req.parseOffset req.rbuf.length with more | ended
  · have begins : req.unread = req.rbuf[req.parseOffset] :: req.rbuf.drop (req.parseOffset + 1) :=
      List.drop_eq_getElem_cons more
    have round := parseByte_of_byte (synced ▸ more) (List.getElem?_eq_getElem more)
    right
    by_cases clean : token req.rbuf[req.parseOffset] = 0
    · rw [if_pos clean] at round
      refine .inl ⟨req, round, fun more => ?_⟩
      rw [begins]
      exact await_of_unclean along clean _
    · rw [if_neg clean] at round
      rw [parser_round, round, begins]
      have follows := follows_handle along clean
      have frames := frames_handle req req.rbuf[req.parseOffset] (token req.rbuf[req.parseOffset])
      cases handled : req.handle req.rbuf[req.parseOffset] (token req.rbuf[req.parseOffset]) with
      | bottom next =>
          rw [handled] at follows frames
          obtain ⟨-, sameBuffer, -, sameOffset⟩ := frames
          refine .inr ⟨_, rfl, ?_⟩
          rw [sameOffset]
          rcases follows with ⟨alongNext, awaits⟩ | ⟨atEol, awaits⟩
          · refine .inl ⟨alongNext, sameBuffer ▸ more, fun more => ?_⟩
            rw [List.cons_append, awaits, unread]
            simp only [sameBuffer]
          · refine .inr ⟨atEol, fun more => ?_⟩
            rw [List.cons_append, awaits]
            rfl
      | again next =>
          rw [handled] at follows frames
          obtain ⟨-, sameBuffer, -, -⟩ := frames
          obtain ⟨alongNext, awaits⟩ := follows
          refine .inr ⟨next, rfl, .inl ⟨alongNext, ?_⟩⟩
          rw [unread, sameBuffer]
          rcases awaits with ⟨sameOffset, awaits⟩ | ⟨nextOffset, awaits⟩
          · rw [sameOffset]
            refine ⟨within, fun more => ?_⟩
            rw [List.cons_append, awaits, ← List.cons_append, ← begins]
            rfl
          · rw [nextOffset]
            exact ⟨more, fun more => by rw [List.cons_append, awaits]⟩
      | «break» last status =>
          rw [handled] at follows
          obtain ⟨rfl, awaits⟩ := follows
          exact .inl ⟨last, rfl, fun more => by rw [List.cons_append, awaits]⟩
  · exact .inl ⟨parseByte_of_end (synced ▸ ended), Nat.le_antisymm within ended⟩

end Mevent.Request
