import Mevent.Request.Automaton

/-!
# Request lines in chunks

The automaton of the request line does not notice where the input is cut, and what it has
found is not changed by the states behind it.  It accepts the request lines that it is meant
for, and those with a query string behind an empty path.
-/

namespace Mevent.Request

open Library

section Behind

variable {req : Request}

/-- The parser has left the request line, with these parts. -/
def Behind (found : Parts) (req : Request) : Prop :=
  req.parts = found ∧
    match req.parseStatus with
    | .start | .methodP | .method | .path | .queryString => False
    | _ => True

/-- What holds of the request wherever a handler leads to. -/
def Handled.Leaves (holds : Request → Prop) : Handled → Prop
  | .bottom next => holds next
  | .again next => holds next
  | .break last _ => holds last

theorem leaves_withByte {holds : Request → Prop} (here : holds req) {index : Nat}
    {rest : UInt8 → Handled} (leaves : ∀ ch, (rest ch).Leaves holds) :
    (req.withByte index rest).Leaves holds := by
  unfold withByte
  split
  · exact leaves _
  · exact here

theorem leaves_withDistance {holds : Request → Prop} (here : holds req) {rest : Nat → Handled}
    (leaves : ∀ distance, (rest distance).Leaves holds) :
    (req.withDistance rest).Leaves holds := by
  unfold withDistance
  split
  · exact leaves _
  · exact here

theorem leaves_withNameByte {holds : Request → Prop} (here : holds req) {name : Bytes}
    {index : Nat} {rest : UInt8 → Handled} (leaves : ∀ c, (rest c).Leaves holds) :
    (req.withNameByte name index rest).Leaves holds := by
  unfold withNameByte
  split
  · exact leaves _
  · exact here

theorem leaves_lookAhead {holds : Request → Prop} (here : holds req) {index : Nat}
    {expected : Bytes} {found missed : Handled} (foundLeaves : found.Leaves holds)
    (missedLeaves : missed.Leaves holds) :
    (req.lookAhead index expected found missed).Leaves holds := by
  induction expected generalizing index with
  | nil => exact foundLeaves
  | cons first rest inductionHypothesis =>
      apply leaves_withByte here
      intro ch
      split
      · exact inductionHypothesis
      · exact missedLeaves

theorem behind_handleName {found : Parts} (behind : req.Behind found) (name : Bytes)
    {value : RequestParseStatus} (c : UInt8)
    (later : Behind found { req with parseStatus := value, parseMatch := req.parseOffset }) :
    (req.handleName name value c).Leaves (Behind found) := by
  apply leaves_withDistance behind
  intro distance
  split
  · split
    · exact later
    · exact behind
  · apply leaves_withNameByte behind
    intro expected
    split
    · exact ⟨behind.1, trivial⟩
    · exact behind

theorem behind_handleHeaderField {found : Parts} (behind : req.Behind found) (c : UInt8) :
    (req.handleHeaderField c).Leaves (Behind found) := by
  have leads : ∀ status, (match status with
      | RequestParseStatus.start | .methodP | .method | .path | .queryString => False
      | _ => True) → ∀ offset,
        Behind found { req with parseStatus := status, parseMatch := offset } :=
    fun _ out _ => ⟨behind.1, out⟩
  unfold handleHeaderField
  split
  · exact leads .eoh trivial req.parseMatch
  · split
    · split
      · exact behind
      · apply leaves_lookAhead behind
        · apply leaves_withByte behind
          intro ch
          split
          · exact leads .contentLength trivial req.parseOffset
          · split
            · exact leads .contentType trivial req.parseOffset
            · exact leads .eol trivial req.parseMatch
        · exact leads .eol trivial req.parseMatch
    · split
      · exact leads .secWebsocketKey trivial req.parseOffset
      · exact leads .eol trivial req.parseMatch

theorem behind_handle {found : Parts} (behind : req.Behind found) (ch c : UInt8) :
    (req.handle ch c).Leaves (Behind found) := by
  have out := behind.2
  unfold handle handleAt
  cases here : req.parseStatus with
  | eol =>
      change (req.handleEol c).Leaves (Behind found)
      unfold handleEol
      split
      · split
        · exact behind
        · apply leaves_withByte behind
          intro previous
          split
          · exact ⟨behind.1, trivial⟩
          · exact behind
      · exact behind
  | headerField => exact behind_handleHeaderField behind c
  | eoh =>
      change (req.handleEoh c).Leaves (Behind found)
      unfold handleEoh
      split
      · exact behind
      · exact behind
  | contentLength => exact behind_handleName behind _ c ⟨behind.1, trivial⟩
  | secWebsocketKey => exact behind_handleName behind _ c ⟨behind.1, trivial⟩
  | contentType => exact behind_handleName behind _ c ⟨behind.1, trivial⟩
  | contentLengthV =>
      change (req.handleContentLengthV c).Leaves (Behind found)
      unfold handleContentLengthV
      split
      · exact ⟨behind.1, trivial⟩
      · split
        · exact behind
        · exact behind
  | secWebsocketKeyV =>
      change (req.handleSecWebsocketKeyV ch c).Leaves (Behind found)
      unfold handleSecWebsocketKeyV
      split
      · exact ⟨behind.1, trivial⟩
      · exact behind
  | contentTypeV =>
      change (req.handleContentTypeV ch c).Leaves (Behind found)
      unfold handleContentTypeV
      split
      · exact ⟨behind.1, trivial⟩
      · exact behind
  | upgrade => exact behind
  | _ => simp only [here] at out

theorem behind_finish {found : Parts} {handled : Handled}
    (leaves : handled.Leaves (Behind found)) :
    match handled.finish with
    | .advance next _ => next.Behind found
    | .leave last _ => last.Behind found := by
  cases handled with
  | bottom next => exact leaves
  | again next => exact leaves
  | «break» last status => exact leaves

theorem behind_round {found : Parts} (behind : req.Behind found) :
    match parser.round req with
    | .advance next _ => next.Behind found
    | .leave last _ => last.Behind found := by
  rw [parser_round, parseByte]
  by_cases more : req.parseOffset < req.rbufLen
  · rw [if_pos more]
    apply behind_finish
    apply leaves_withByte behind
    intro ch
    by_cases unclean : token ch = 0
    · rw [if_pos unclean]
      exact behind
    · rw [if_neg unclean]
      exact behind_handle behind ch (token ch)
  · rw [if_neg more]
    exact behind

theorem behind_parse {found : Parts} (behind : req.Behind found) :
    req.parse.state.Behind found := by
  refine parser.run_invariant (Behind found) (fun last _ => last.Behind found) ?_ ?_ behind
  · intro state next outputs behind taken
    have round := behind_round behind
    rwa [taken] at round
  · intro state last status behind left
    have round := behind_round behind
    rwa [left] at round

theorem behind_visits {found : Parts} {visited : Request} (behind : req.Behind found)
    (reached : parser.Visits req visited) : visited.Behind found := by
  induction reached with
  | here => exact behind
  | later taken _ inductionHypothesis =>
      apply inductionHypothesis
      have round := behind_round behind
      rwa [taken] at round

theorem Behind.append {found : Parts} (behind : req.Behind found) (chunk : Bytes) :
    (req.append chunk).Behind found := behind

theorem behind_feedVisits {found : Parts} {visited : Request} {chunks awaited : List Bytes}
    (behind : req.Behind found)
    (reached : parser.FeedVisits append (· = .continues) req chunks visited awaited) :
    visited.Behind found := by
  induction reached with
  | now reached => exact behind_visits (behind.append _) reached
  | later _ _ inductionHypothesis =>
      apply inductionHypothesis
      exact behind_parse (behind.append _)

end Behind

/-- How the parser comes out of a request line: behind it, in front of a byte that no request
line has there, or still inside. -/
inductive Comes (req : Request) (stream : Bytes) (visits : Request → Prop)
    (verdict : HTTPParserStatus) (last : Request) : Prop where
  | behind (found : Parts) :
      (∃ visited, visits visited ∧ visited.parseStatus = .eol) →
      (∀ visited, visits visited → visited.parseStatus = .eol → visited.parts = found) →
      last.Behind found →
      (∀ more, req.await (stream ++ more) = some found) → Comes req stream visits verdict last
  | refused :
      (∀ visited, visits visited → visited.parseStatus ≠ .eol) → verdict = .error →
      (∀ more, req.await (stream ++ more) = none) → Comes req stream visits verdict last
  | inside :
      (∀ visited, visits visited → visited.parseStatus ≠ .eol) → verdict = .continues →
      last.Along → last.parseOffset = last.rbuf.length →
      (∀ more, req.await (stream ++ more) = last.await more) →
      Comes req stream visits verdict last

theorem Along.status {req : Request} (along : req.Along) : req.parseStatus ≠ .eol := by
  intro here
  have inside := along.2
  simp only [here] at inside

theorem Comes.earlier {req next last : Request} {stream rest : Bytes}
    {visits visitsLater : Request → Prop} {verdict : HTTPParserStatus}
    (comes : Comes next rest visitsLater verdict last)
    (later : ∀ visited, visitsLater visited → visits visited)
    (only : ∀ visited, visits visited → visited.parseStatus = .eol → visitsLater visited)
    (awaits : ∀ more, req.await (stream ++ more) = next.await (rest ++ more)) :
    Comes req stream visits verdict last := by
  cases comes with
  | behind found some all behind finds =>
      obtain ⟨visited, reached, atEol⟩ := some
      refine .behind found ⟨visited, later visited reached, atEol⟩ ?_ behind fun more => ?_
      · intro visited reached atEol
        exact all visited (only visited reached atEol) atEol
      · rw [awaits, finds]
  | refused none isError finds =>
      refine .refused ?_ isError fun more => by rw [awaits, finds]
      intro visited reached atEol
      exact none visited (only visited reached atEol) atEol
  | inside none isContinues along ended finds =>
      refine .inside ?_ isContinues along ended fun more => by rw [awaits, finds]
      intro visited reached atEol
      exact none visited (only visited reached atEol) atEol

theorem comes_run (req : Request) (along : req.Along)
    (within : req.parseOffset ≤ req.rbuf.length) :
    Comes req req.unread (parser.Visits req) req.parse.verdict req.parse.state := by
  unfold parse
  induction req using parser.run_induction with
  | leave req last status left =>
      rw [parser.run_of_leave left]
      have only : ∀ visited, parser.Visits req visited → visited.parseStatus ≠ .eol := by
        intro visited reached
        rw [(parser.visits_of_leave left).mp reached]
        exact along.status
      rcases round_of_along along within with ⟨waits, ended⟩ | ⟨other, refuses, awaits⟩ |
        ⟨next, goesOn, -⟩
      · rw [waits] at left
        cases left
        refine .inside only rfl along ended fun more => ?_
        rw [unread, ended, List.drop_length, List.nil_append]
      · rw [refuses] at left
        cases left
        exact .refused only rfl awaits
      · rw [goesOn] at left
        cases left
  | advance req next outputs taken inductionHypothesis =>
      rw [parser.run_of_advance taken, Scanned.after_verdict, Scanned.after_state]
      rcases round_of_along along within with ⟨waits, -⟩ | ⟨other, refuses, -⟩ |
        ⟨other, goesOn, cases_⟩
      · rw [waits] at taken
        cases taken
      · rw [refuses] at taken
        cases taken
      · rw [goesOn] at taken
        cases taken
        have later : ∀ visited, parser.Visits req visited → visited.parseStatus = .eol →
            parser.Visits next visited := by
          intro visited reached atEol
          rcases (parser.visits_of_advance goesOn).mp reached with rfl | reached
          · exact absurd atEol along.status
          · exact reached
        rcases cases_ with ⟨alongNext, withinNext, awaits⟩ | ⟨atEol, awaits⟩
        · exact (inductionHypothesis alongNext withinNext).earlier
            (fun _ reached => .later goesOn reached) later awaits
        · have behind : next.Behind next.parts := ⟨rfl, by rw [atEol]; trivial⟩
          refine .behind next.parts ⟨next, .later goesOn .here, atEol⟩ ?_ (behind_parse behind)
            awaits
          intro visited reached atEol
          exact (behind_visits behind (later visited reached atEol)).1

theorem behind_parseChunks {req : Request} {found : Parts} (behind : req.Behind found)
    (chunks : List Bytes) : (req.parseChunks chunks).state.Behind found := by
  unfold parseChunks
  induction chunks generalizing req with
  | nil => exact behind
  | cons chunk rest inductionHypothesis =>
      have parsed := behind_parse (behind.append chunk)
      by_cases waiting : (req.append chunk).parse.verdict = .continues
      · rw [parser.feed_cons_of_waits append (· = .continues) .continues waiting]
        exact inductionHypothesis parsed
      · rw [parser.feed_cons_of_leaves append (· = .continues) .continues waiting]
        exact parsed

/-- A request line may come in any number of chunks. -/
theorem comes_parseChunks {req : Request} (along : req.Along)
    (ended : req.parseOffset = req.rbuf.length) (chunks : List Bytes) :
    Comes req chunks.flatten
      (fun visited => ∃ awaited,
        parser.FeedVisits append (· = .continues) req chunks visited awaited)
      (req.parseChunks chunks).verdict (req.parseChunks chunks).state := by
  unfold parseChunks
  induction chunks generalizing req with
  | nil =>
      refine .inside ?_ rfl along ended fun more => rfl
      rintro visited ⟨awaited, reached⟩
      cases reached
  | cons chunk rest inductionHypothesis =>
      have grown : (req.append chunk).Along := ⟨synced_append chunk along.1, along.2⟩
      have within : (req.append chunk).parseOffset ≤ (req.append chunk).rbuf.length := by
        rw [append_rbuf, append_parseOffset, ended, List.length_append]
        exact Nat.le_add_right _ _
      have new : (req.append chunk).unread = chunk := by
        rw [unread, append_rbuf, append_parseOffset, ended, List.drop_left]
      have comes := comes_run (req.append chunk) grown within
      rw [new] at comes
      rw [List.flatten_cons]
      cases comes with
      | behind found some all last finds =>
          obtain ⟨visited, reached, atEol⟩ := some
          have found_ : ∀ more, req.await (chunk ++ rest.flatten ++ more) = some found := by
            intro more
            rw [List.append_assoc]
            exact finds _
          refine .behind found ⟨visited, ⟨rest, .now reached⟩, atEol⟩ ?_ ?_ found_
          · rintro visited ⟨awaited, reached⟩ atEol
            cases reached with
            | now reached => exact all visited reached atEol
            | later _ reached => exact (behind_feedVisits last reached).1
          · by_cases waiting : (req.append chunk).parse.verdict = .continues
            · rw [parser.feed_cons_of_waits append (· = .continues) .continues waiting]
              exact behind_parseChunks last rest
            · rw [parser.feed_cons_of_leaves append (· = .continues) .continues waiting]
              exact last
      | refused none isError finds =>
          have ending : (req.append chunk).parse.verdict ≠ .continues := by
            rw [isError]
            decide
          rw [parser.feed_cons_of_leaves append (· = .continues) .continues ending]
          refine .refused ?_ isError fun more => ?_
          · rintro visited ⟨awaited, reached⟩
            exact none visited
              ((parser.feedVisits_of_leaves append (· = .continues) ending).mp reached).1
          · rw [List.append_assoc]
            exact finds _
      | inside none isContinues alongLast endedLast finds =>
          rw [parser.feed_cons_of_waits append (· = .continues) .continues isContinues]
          have apart : ∀ visited, (∃ awaited,
              parser.FeedVisits append (· = .continues) req (chunk :: rest) visited awaited) →
                visited.parseStatus = .eol → ∃ awaited,
                  parser.FeedVisits append (· = .continues) (req.append chunk).parse.state rest
                    visited awaited := by
            rintro visited ⟨awaited, reached⟩ atEol
            cases reached with
            | now reached => exact absurd atEol (none visited reached)
            | later _ reached => exact ⟨awaited, reached⟩
          have awaits : ∀ more, req.await (chunk ++ rest.flatten ++ more) =
              (req.append chunk).parse.state.await (rest.flatten ++ more) := by
            intro more
            rw [List.append_assoc]
            exact finds _
          refine (inductionHypothesis alongLast endedLast).earlier ?_ apart awaits
          rintro visited ⟨awaited, reached⟩
          exact ⟨awaited, .later isContinues reached⟩

section Continuations

variable {req : Request}

theorem map_token_name {method : RequestMethod} {name : Bytes}
    (named : method.name = some name) : name.map token = name := by
  cases method with
  | unknown => cases named
  | _ =>
      cases named
      decide

/-- An unfinished request line with a path can be finished by a space; one without a path can
be finished by a path and a space, unless a query string has begun. -/
theorem exists_await (along : req.Along)
    (notEmpty : ¬ (req.parseStatus = .queryString ∧ req.path = [])) :
    ∃ more found, req.await more = some found ∧ found.2.1 ≠ [] := by
  have inside := along.2
  cases here : req.parseStatus with
  | start =>
      refine ⟨ascii ['G', 'E', 'T', ' ', '/', ' '], (.get, ['/'.toUInt8], []), ?_, by simp⟩
      rw [await, here]
      rfl
  | methodP =>
      refine ⟨ascii ['U', 'T', ' ', '/', ' '], (.put, ['/'.toUInt8], []), ?_, by simp⟩
      rw [await, here]
      rfl
  | method =>
      simp only [here] at inside
      obtain ⟨name, named⟩ := Option.isSome_iff_exists.mp inside.1
      have slash : awaitPath req.method [] (ascii ['/', ' ']) =
          some (req.method, ['/'.toUInt8], []) := rfl
      by_cases past : name.length < req.parseOffset
      · refine ⟨ascii ['/', ' '], (req.method, ['/'.toUInt8], []), ?_, by simp⟩
        rw [await, here]
        simp only [named, Option.bind_some]
        rw [if_pos past]
        exact slash
      · refine ⟨name.drop req.parseOffset ++ List.replicate 1 space ++ ascii ['/', ' '],
          (req.method, ['/'.toUInt8], []), ?_, by simp⟩
        rw [await_method here named (Nat.not_lt.mp past), awaitName_eq_some_iff]
        refine ⟨_, 1, _, ?_, Nat.one_pos, rfl, slash⟩
        rw [List.map_drop, map_token_name named]
  | path =>
      refine ⟨ascii ['/', ' '], (req.method, req.path ++ ['/'.toUInt8], []), ?_, by simp⟩
      rw [await, here]
      simp only
      rw [awaitPath_eq_some_iff]
      exact ⟨['/'.toUInt8], none, ⟨by decide +kernel, by simp, .inl (by simp), by decide⟩, rfl⟩
  | queryString =>
      refine ⟨[space], (req.method, req.path, req.queryString), ?_, fun empty =>
        notEmpty ⟨here, empty⟩⟩
      rw [await, here]
      rfl
  | _ => simp only [here] at inside

theorem await_of_empty (here : req.parseStatus = .queryString) (empty : req.path = []) :
    req.await [space] = some (req.method, [], req.queryString) ∧
      ∀ stream found, req.await stream = some found → found.2.1 = [] := by
  constructor
  · rw [await, here, ← empty]
    rfl
  · intro stream found finds
    rw [await, here] at finds
    obtain ⟨chars, -, -, rfl⟩ := awaitQuery_eq_some_iff.mp finds
    exact empty

theorem await_space (along : req.Along)
    (notEmpty : ¬ (req.parseStatus = .queryString ∧ req.path = [])) {found : Parts}
    (finds : req.await [space] = some found) : found.2.1 ≠ [] := by
  have inside := along.2
  rw [await] at finds
  cases here : req.parseStatus with
  | start =>
      simp only [here] at finds
      cases finds
  | methodP =>
      simp only [here] at finds
      cases finds
  | method =>
      simp only [here] at finds
      obtain ⟨name, -, finds⟩ := Option.bind_eq_some_iff.mp finds
      split at finds
      · cases finds
      · obtain ⟨spelled, spaces, behind, -, positive, same, finds⟩ :=
          awaitName_eq_some_iff.mp finds
        have lengths := congrArg List.length same
        rw [List.length_append, List.length_append, List.length_replicate,
          List.length_singleton] at lengths
        have nothing : behind = [] := List.eq_nil_of_length_eq_zero (by omega)
        rw [nothing] at finds
        cases finds
  | path =>
      simp only [here] at finds
      rw [awaitPath, if_pos rfl] at finds
      split at finds
      · cases finds
      next filled =>
        cases finds
        exact filled
  | queryString =>
      simp only [here] at finds
      rw [awaitQuery, if_pos rfl] at finds
      cases finds
      exact fun empty => notEmpty ⟨here, empty⟩
  | _ => simp only [here] at inside

theorem await_nil (along : req.Along) : req.await [] = none := by
  have inside := along.2
  rw [await]
  cases here : req.parseStatus with
  | start => rfl
  | methodP => rfl
  | method =>
      rw [Option.bind_eq_none_iff]
      intro name _
      split
      · rfl
      · cases name.drop req.parseOffset with
        | nil => rfl
        | cons c later => rfl
  | path => rfl
  | queryString => rfl
  | _ => simp only [here] at inside

end Continuations

/-- What the parser has to make of the request line, in whatever chunks it comes. -/
structure ReadsTarget (chunks : List Bytes) : Prop where
  /-- It comes to the rest of the line exactly behind a request line with a path. -/
  reaches :
    (∃ visited awaited, Examines chunks visited awaited ∧ visited.parseStatus = .eol) ↔
      ∃ target : Target, target.path ≠ [] ∧ target.bytes <+: chunks.flatten
  /-- It has found the parts of that request line then. -/
  exact : ∀ visited awaited, Examines chunks visited awaited → visited.parseStatus = .eol →
    ∀ target : Target, target.path ≠ [] → target.bytes <+: chunks.flatten →
      visited.parts = target.parts
  /-- What cannot be continued to one is an error. -/
  refuses : (¬ ∃ more, ∃ target : Target, target.path ≠ [] ∧
      target.bytes <+: chunks.flatten ++ more) →
    (reset.parseChunks chunks).verdict = .error

/-- The path of the request line is empty, and a query string stands behind it; the space
behind that may still be missing. -/
def EmptyPath (stream : Bytes) : Prop :=
  ∃ target : Target, target.path = [] ∧ target.query.isSome ∧
    (target.bytes <+: stream ∨ target.bytes = stream ++ [space])

theorem along_reset : reset.Along := ⟨rfl, rfl, rfl, rfl, rfl⟩

theorem exists_target_of_await {stream : Bytes} {found : Parts}
    (finds : reset.await stream = some found) (filled : found.2.1 ≠ []) :
    ∃ target : Target, target.path ≠ [] ∧ target.bytes <+: stream := by
  obtain ⟨target, -, front, rfl⟩ := await_reset_eq_some_iff.mp finds
  exact ⟨target, filled, front⟩

theorem await_of_target {target : Target} {stream : Bytes} (filled : target.path ≠ [])
    (front : target.bytes <+: stream) : reset.await stream = some target.parts :=
  await_reset_eq_some_iff.mpr ⟨target, .inl filled, front, rfl⟩

theorem emptyPath_iff {stream : Bytes} :
    EmptyPath stream ↔
      ∃ found, reset.await (stream ++ [space]) = some found ∧ found.2.1 = [] := by
  constructor
  · rintro ⟨target, empty, asked, front⟩
    refine ⟨target.parts, await_reset_eq_some_iff.mpr ⟨target, .inr asked, ?_, rfl⟩, empty⟩
    rcases front with within | ended
    · exact within.trans (List.prefix_append _ _)
    · rw [ended]
  · rintro ⟨found, finds, empty⟩
    obtain ⟨target, filled, front, rfl⟩ := await_reset_eq_some_iff.mp finds
    have asked := filled.resolve_left (not_not.mpr empty)
    exact ⟨target, empty, asked, (List.prefix_concat_iff.mp front).symm⟩

section Outcomes

variable {chunks : List Bytes}

theorem readsTarget_iff_of_found {found : Parts}
    (reached : ∃ visited awaited, Examines chunks visited awaited ∧ visited.parseStatus = .eol)
    (all : ∀ visited awaited, Examines chunks visited awaited → visited.parseStatus = .eol →
      visited.parts = found)
    (finds : reset.await chunks.flatten = some found) :
    ReadsTarget chunks ↔ found.2.1 ≠ [] := by
  have same : ∀ {target : Target}, target.path ≠ [] → target.bytes <+: chunks.flatten →
      found = target.parts := by
    intro target filled front
    rw [await_of_target filled front] at finds
    exact (Option.some.inj finds).symm
  constructor
  · intro reads
    obtain ⟨target, filled, front⟩ := reads.reaches.mp reached
    rw [same filled front]
    exact filled
  · intro filled
    have reads := exists_target_of_await finds filled
    refine ⟨⟨fun _ => reads, fun _ => reached⟩, ?_, ?_⟩
    · intro visited awaited examines atEol target hasPath front
      rw [all visited awaited examines atEol, same hasPath front]
    · intro never
      obtain ⟨target, hasPath, front⟩ := reads
      exact absurd ⟨[], target, hasPath, by rwa [List.append_nil]⟩ never

theorem readsTarget_of_none
    (inside : ∀ visited awaited, Examines chunks visited awaited → visited.parseStatus ≠ .eol)
    (nothing : reset.await chunks.flatten = none)
    (refuses : (¬ ∃ more, ∃ target : Target, target.path ≠ [] ∧
        target.bytes <+: chunks.flatten ++ more) →
      (reset.parseChunks chunks).verdict = .error) : ReadsTarget chunks := by
  refine ⟨⟨?_, ?_⟩, ?_, refuses⟩
  · rintro ⟨visited, awaited, examines, atEol⟩
    exact absurd atEol (inside visited awaited examines)
  · rintro ⟨target, filled, front⟩
    rw [await_of_target filled front] at nothing
    cases nothing
  · intro visited awaited examines atEol
    exact absurd atEol (inside visited awaited examines)

end Outcomes

/-- In every segmentation the request line is read as it should be, unless its path is empty. -/
theorem readsTarget_iff (chunks : List Bytes) :
    ReadsTarget chunks ↔ ¬ EmptyPath chunks.flatten := by
  have whole : ∀ found, reset.await (chunks.flatten ++ []) = found →
      reset.await chunks.flatten = found := by
    intro found same
    rwa [List.append_nil] at same
  have examined : ∀ {visited awaited}, Examines chunks visited awaited → ∃ awaited,
      parser.FeedVisits append (· = .continues) reset chunks visited awaited :=
    fun ⟨rest, reached, _⟩ => ⟨rest, reached⟩
  rw [emptyPath_iff]
  cases comes_parseChunks along_reset rfl chunks with
  | behind found some all last finds =>
      obtain ⟨visited, ⟨awaited, reached⟩, atEol⟩ := some
      rw [readsTarget_iff_of_found ⟨visited, _, ⟨awaited, reached, rfl⟩, atEol⟩
        (fun other _ examines => all other (examined examines)) (whole _ (finds [])),
        finds [space]]
      simp
  | refused none isError finds =>
      refine iff_of_true (readsTarget_of_none
        (fun other _ examines => none other (examined examines)) (whole _ (finds []))
        fun _ => isError) ?_
      rw [finds [space]]
      simp
  | inside none waits along ended finds =>
      have nothing := whole _ ((finds []).trans (await_nil along))
      rw [finds [space]]
      by_cases emptied : (reset.parseChunks chunks).state.parseStatus = .queryString ∧
          (reset.parseChunks chunks).state.path = []
      · obtain ⟨spaceEnds, stays⟩ := await_of_empty emptied.1 emptied.2
        refine iff_of_false ?_ (not_not.mpr ⟨_, spaceEnds, rfl⟩)
        intro reads
        have isError := reads.refuses fun ⟨more, target, filled, front⟩ =>
          filled (stays more _ ((finds more).symm.trans (await_of_target filled front)))
        rw [waits] at isError
        cases isError
      · refine iff_of_true (readsTarget_of_none
          (fun other _ examines => none other (examined examines)) nothing ?_) ?_
        · intro never
          obtain ⟨more, found, continued, filled⟩ := exists_await along emptied
          exact absurd ⟨more, exists_target_of_await ((finds more).trans continued) filled⟩ never
        · rintro ⟨found, continued, empty⟩
          exact await_space along emptied continued empty

/-- `GET ? ` comes to the rest of its line without a path. -/
theorem not_readsTarget_empty_path :
    ¬ ReadsTarget [ascii ['G', 'E', 'T', ' ', '?', ' ']] := by
  intro reads
  have visits : ∃ visited ∈ parser.feedTrace append (· = .continues) reset
      [ascii ['G', 'E', 'T', ' ', '?', ' ']], visited.1.parseStatus = .eol := by
    decide +kernel
  obtain ⟨⟨visited, awaited⟩, reached, atEol⟩ := visits
  obtain ⟨target, filled, front⟩ := reads.reaches.mp
    ⟨visited, _, ⟨awaited, (parser.mem_feedTrace_iff _ _).mp reached, rfl⟩, atEol⟩
  have finds := await_of_target filled front
  have empty : (reset.await (ascii ['G', 'E', 'T', ' ', '?', ' '])).map (·.2.1) = some [] := by
    decide +kernel
  rw [List.flatten_singleton] at finds
  rw [finds] at empty
  exact filled (Option.some.inj empty)

end Mevent.Request
