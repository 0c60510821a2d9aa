import Mevent.Request.RequestLine

/-!
# The language of request lines

The request lines that `Request::Parse` is meant for, up to the space behind the target: the
name of a method, spaces, a path that is not empty, and perhaps a query string.  A stream is
read from the left, and begins with at most one of them.
-/

namespace Mevent.Request

def UrlByte (ch : UInt8) : Prop := token ch ≠ 0 ∧ isUrlChar ch = true

instance (ch : UInt8) : Decidable (UrlByte ch) := by
  unfold UrlByte
  infer_instance

/-- A request line up to the space behind the target.  The path may be empty here. -/
structure Target where
  method : RequestMethod
  name : Bytes
  spaces : Nat
  path : Bytes
  query : Option Bytes
  named : method.name = some (name.map token)
  spaced : 0 < spaces
  pathUrl : ∀ ch ∈ path, UrlByte ch
  queryUrl : ∀ ch ∈ query.getD [], UrlByte ch

def queryBytes : Option Bytes → Bytes
  | none => []
  | some query => '?'.toUInt8 :: query

def Target.bytes (target : Target) : Bytes :=
  target.name ++ List.replicate target.spaces space ++
    (target.path ++ queryBytes target.query ++ [space])

abbrev Parts := RequestMethod × Bytes × Bytes

def Target.parts (target : Target) : Parts :=
  (target.method, target.path, target.query.getD [])

def parts (req : Request) : Parts := (req.method, req.path, req.queryString)

section Stream

variable (method : RequestMethod)

def awaitQuery (path query : Bytes) : Bytes → Option Parts
  | [] => none
  | ch :: rest =>
      if ch = space then some (method, path, query)
      else if UrlByte ch then awaitQuery path (query ++ [ch]) rest
      else none

def awaitPath (path : Bytes) : Bytes → Option Parts
  | [] => none
  | ch :: rest =>
      if ch = space then if path = [] then none else some (method, path, [])
      else if UrlByte ch then awaitPath (path ++ [ch]) rest
      else if ch = '?'.toUInt8 then awaitQuery method path [] rest
      else none

def awaitName : (later stream : Bytes) → Option Parts
  | [], stream =>
      if stream.head? = some space then
        awaitPath method [] (stream.dropWhile (· = space))
      else
        none
  | c :: later, ch :: rest => if token ch = c then awaitName later rest else none
  | _ :: _, [] => none

end Stream

/-- What a stream makes of the request line that the parser stands in. -/
def await (req : Request) (stream : Bytes) : Option Parts :=
  match req.parseStatus with
  | .start =>
      let method := methodOf (token (stream.getD 0 0)) (token (stream.getD 1 0))
      method.name.bind fun name => awaitName method name stream
  | .methodP =>
      let method := methodOf 'p'.toUInt8 (token (stream.getD 0 0))
      method.name.bind fun name => awaitName method name.tail stream
  | .method =>
      req.method.name.bind fun name =>
        if name.length < req.parseOffset then
          awaitPath req.method [] (stream.dropWhile (· = space))
        else
          awaitName req.method (name.drop req.parseOffset) stream
  | .path => awaitPath req.method req.path stream
  | .queryString => awaitQuery req.method req.path req.queryString stream
  | _ => none

theorem dropWhile_space (rest : Bytes) :
    (space :: rest).dropWhile (· = space) = rest.dropWhile (· = space) := by
  rw [List.dropWhile_cons, if_pos (decide_eq_true rfl)]

theorem dropWhile_of_ne_space {ch : UInt8} (notSpace : ch ≠ space) (rest : Bytes) :
    (ch :: rest).dropWhile (· = space) = ch :: rest := by
  rw [List.dropWhile_cons, if_neg (by rw [decide_eq_false notSpace]; decide)]

section Language

variable {method : RequestMethod}

theorem space_not_url : ¬ UrlByte space := by decide

theorem mark_not_url : ¬ UrlByte '?'.toUInt8 := by decide

theorem awaitQuery_eq_some_iff {path query stream : Bytes} {found : Parts} :
    awaitQuery method path query stream = some found ↔
      ∃ chars, (∀ ch ∈ chars, UrlByte ch) ∧ chars ++ [space] <+: stream ∧
        found = (method, path, query ++ chars) := by
  induction stream generalizing query with
  | nil => simp [awaitQuery]
  | cons ch rest inductionHypothesis =>
      rw [awaitQuery]
      by_cases isSpace : ch = space
      · rw [if_pos isSpace]
        constructor
        · intro same
          cases same
          exact ⟨[], by simp, by simp [isSpace], by simp⟩
        · rintro ⟨chars, url, front, rfl⟩
          cases chars with
          | nil => simp
          | cons c chars =>
              have same := (List.cons_prefix_cons.mp front).1
              have isUrl := url c List.mem_cons_self
              rw [same, isSpace] at isUrl
              exact absurd isUrl space_not_url
      · rw [if_neg isSpace]
        by_cases isUrl : UrlByte ch
        · rw [if_pos isUrl, inductionHypothesis]
          constructor
          · rintro ⟨chars, url, front, rfl⟩
            refine ⟨ch :: chars, List.forall_mem_cons.mpr ⟨isUrl, url⟩, ?_, by simp⟩
            exact List.cons_prefix_cons.mpr ⟨rfl, front⟩
          · rintro ⟨chars, url, front, rfl⟩
            cases chars with
            | nil => exact absurd (List.cons_prefix_cons.mp front).1.symm isSpace
            | cons c chars =>
                obtain ⟨rfl, tail⟩ := List.cons_prefix_cons.mp front
                exact ⟨chars, fun c among => url c (List.mem_cons_of_mem _ among), tail,
                  by simp⟩
        · rw [if_neg isUrl]
          constructor
          · intro impossible
            cases impossible
          · rintro ⟨chars, url, front, -⟩
            cases chars with
            | nil => exact absurd (List.cons_prefix_cons.mp front).1.symm isSpace
            | cons c chars =>
                have same := (List.cons_prefix_cons.mp front).1
                exact absurd (same ▸ url c List.mem_cons_self) isUrl

/-- The path, the query string and the space at the beginning of a stream. -/
structure Asks (path chars : Bytes) (query : Option Bytes) (stream : Bytes) : Prop where
  charsUrl : ∀ ch ∈ chars, UrlByte ch
  queryUrl : ∀ ch ∈ query.getD [], UrlByte ch
  filled : path ++ chars ≠ [] ∨ query.isSome
  front : chars ++ queryBytes query ++ [space] <+: stream

theorem asks_cons {path chars rest : Bytes} {query : Option Bytes} {ch c : UInt8} :
    Asks path (c :: chars) query (ch :: rest) ↔
      c = ch ∧ UrlByte ch ∧ Asks (path ++ [ch]) chars query rest := by
  constructor
  · rintro ⟨charsUrl, queryUrl, -, front⟩
    obtain ⟨rfl, tail⟩ := List.cons_prefix_cons.mp front
    refine ⟨rfl, charsUrl c List.mem_cons_self, ?_, queryUrl, ?_, tail⟩
    · exact fun ch among => charsUrl ch (List.mem_cons_of_mem _ among)
    · exact .inl (by simp)
  · rintro ⟨rfl, isUrl, charsUrl, queryUrl, -, front⟩
    refine ⟨List.forall_mem_cons.mpr ⟨isUrl, charsUrl⟩, queryUrl, .inl (by simp), ?_⟩
    exact List.cons_prefix_cons.mpr ⟨rfl, front⟩

theorem asks_nil_none {path rest : Bytes} {ch : UInt8} :
    Asks path [] none (ch :: rest) ↔ ch = space ∧ path ≠ [] := by
  constructor
  · rintro ⟨-, -, filled, front⟩
    refine ⟨(List.cons_prefix_cons.mp front).1.symm, ?_⟩
    simpa using filled
  · rintro ⟨rfl, filled⟩
    exact ⟨by simp, by simp, .inl (by simpa using filled), by simp [queryBytes]⟩

theorem asks_nil_some {path query rest : Bytes} {ch : UInt8} :
    Asks path [] (some query) (ch :: rest) ↔
      ch = '?'.toUInt8 ∧ (∀ c ∈ query, UrlByte c) ∧ query ++ [space] <+: rest := by
  constructor
  · rintro ⟨-, queryUrl, -, front⟩
    obtain ⟨same, front⟩ := List.cons_prefix_cons.mp front
    exact ⟨same.symm, queryUrl, front⟩
  · rintro ⟨rfl, queryUrl, front⟩
    exact ⟨by simp, queryUrl, .inr rfl, List.cons_prefix_cons.mpr ⟨rfl, front⟩⟩

theorem awaitPath_eq_some_iff {path stream : Bytes} {found : Parts} :
    awaitPath method path stream = some found ↔
      ∃ chars query, Asks path chars query stream ∧
        found = (method, path ++ chars, query.getD []) := by
  induction stream generalizing path with
  | nil =>
      constructor
      · intro impossible
        cases impossible
      · rintro ⟨chars, query, asks, -⟩
        have nothing := List.prefix_nil.mp asks.front
        simp at nothing
  | cons ch rest inductionHypothesis =>
      have split : (∃ chars query, Asks path chars query (ch :: rest) ∧
          found = (method, path ++ chars, query.getD [])) ↔
            (ch = space ∧ path ≠ [] ∧ found = (method, path, [])) ∨
              (UrlByte ch ∧ ∃ chars query, Asks (path ++ [ch]) chars query rest ∧
                found = (method, path ++ [ch] ++ chars, query.getD [])) ∨
              (ch = '?'.toUInt8 ∧ ∃ query, (∀ c ∈ query, UrlByte c) ∧
                query ++ [space] <+: rest ∧ found = (method, path, [] ++ query)) := by
        constructor
        · rintro ⟨chars, query, asks, same⟩
          cases chars with
          | nil =>
              cases query with
              | none =>
                  obtain ⟨isSpace, filled⟩ := asks_nil_none.mp asks
                  exact .inl ⟨isSpace, filled, by simpa using same⟩
              | some query =>
                  obtain ⟨isMark, url, front⟩ := asks_nil_some.mp asks
                  exact .inr (.inr ⟨isMark, query, url, front, by simpa using same⟩)
          | cons c chars =>
              obtain ⟨rfl, isUrl, asks⟩ := asks_cons.mp asks
              exact .inr (.inl ⟨isUrl, chars, query, asks, by simpa using same⟩)
        · rintro (⟨isSpace, filled, same⟩ | ⟨isUrl, chars, query, asks, same⟩ |
            ⟨isMark, query, url, front, same⟩)
          · exact ⟨[], none, asks_nil_none.mpr ⟨isSpace, filled⟩, by simpa using same⟩
          · exact ⟨ch :: chars, query, asks_cons.mpr ⟨rfl, isUrl, asks⟩, by simpa using same⟩
          · exact ⟨[], some query, asks_nil_some.mpr ⟨isMark, url, front⟩, by simpa using same⟩
      rw [split, awaitPath, ← inductionHypothesis, ← awaitQuery_eq_some_iff]
      have apart : space ≠ '?'.toUInt8 := by decide
      by_cases isSpace : ch = space
      · rw [if_pos isSpace]
        by_cases empty : path = []
        · simp [isSpace, empty, apart, space_not_url]
        · rw [if_neg empty]
          simp [isSpace, empty, apart, space_not_url, eq_comm]
      · rw [if_neg isSpace]
        by_cases isUrl : UrlByte ch
        · have notMark : ch ≠ '?'.toUInt8 := by
            rintro rfl
            exact mark_not_url isUrl
          rw [if_pos isUrl]
          simp [isSpace, isUrl, notMark]
        · rw [if_neg isUrl]
          by_cases isMark : ch = '?'.toUInt8
          · rw [if_pos isMark]
            simp [isMark, apart.symm, mark_not_url]
          · rw [if_neg isMark]
            simp [isSpace, isUrl, isMark]

theorem awaitPath_space (rest : Bytes) : awaitPath method [] (space :: rest) = none := by
  rw [awaitPath, if_pos rfl, if_pos rfl]

theorem dropWhile_spaces (spaces : Nat) (behind : Bytes) :
    (List.replicate spaces space ++ behind).dropWhile (· = space) =
      behind.dropWhile (· = space) := by
  induction spaces with
  | zero => rfl
  | succ spaces inductionHypothesis =>
      rw [List.replicate_succ, List.cons_append, dropWhile_space, inductionHypothesis]

theorem exists_spaces (stream : Bytes) :
    stream = List.replicate (stream.takeWhile (· = space)).length space ++
      stream.dropWhile (· = space) := by
  have same : stream.takeWhile (· = space) =
      List.replicate (stream.takeWhile (· = space)).length space := by
    apply List.eq_replicate_of_mem
    intro ch among
    simpa using List.mem_takeWhile_imp among
  rw [← same, List.takeWhile_append_dropWhile]

theorem awaitName_eq_some_iff {later stream : Bytes} {found : Parts} :
    awaitName method later stream = some found ↔
      ∃ spelled spaces behind, spelled.map token = later ∧ 0 < spaces ∧
        stream = spelled ++ List.replicate spaces space ++ behind ∧
          awaitPath method [] behind = some found := by
  induction later generalizing stream with
  | nil =>
      rw [awaitName]
      constructor
      · intro finds
        split at finds
        next first =>
          refine ⟨[], _, _, rfl, ?_, by rw [List.nil_append]; exact exists_spaces stream, finds⟩
          rw [← List.cons_head?_tail first, List.takeWhile_cons, if_pos (decide_eq_true rfl)]
          exact Nat.succ_pos _
        next => cases finds
      · rintro ⟨spelled, spaces, behind, spells, positive, rfl, finds⟩
        rw [List.map_eq_nil_iff.mp spells, List.nil_append]
        have first : (List.replicate spaces space ++ behind).head? = some space := by
          cases spaces with
          | zero => cases positive
          | succ spaces => rfl
        rw [if_pos first, dropWhile_spaces]
        cases behind with
        | nil => cases finds
        | cons ch rest =>
            rw [dropWhile_of_ne_space]
            · exact finds
            · rintro rfl
              rw [awaitPath_space] at finds
              cases finds
  | cons c later inductionHypothesis =>
      cases stream with
      | nil =>
          constructor
          · intro impossible
            cases impossible
          · rintro ⟨spelled, spaces, behind, spells, -, same, -⟩
            have nothing := List.append_eq_nil_iff.mp (List.append_eq_nil_iff.mp same.symm).1
            rw [nothing.1] at spells
            cases spells
      | cons ch rest =>
          rw [awaitName]
          constructor
          · intro finds
            split at finds
            next same =>
              obtain ⟨spelled, spaces, behind, spells, positive, rfl, path⟩ :=
                inductionHypothesis.mp finds
              exact ⟨ch :: spelled, spaces, behind, by rw [List.map_cons, same, spells],
                positive, rfl, path⟩
            next => cases finds
          · rintro ⟨spelled, spaces, behind, spells, positive, same, finds⟩
            cases spelled with
            | nil => cases spells
            | cons first spelled =>
                obtain ⟨rfl, rfl⟩ := List.cons.inj same
                obtain ⟨sameFirst, spells⟩ := List.cons.inj spells
                rw [if_pos sameFirst, inductionHypothesis]
                exact ⟨spelled, spaces, behind, spells, positive, rfl, finds⟩

theorem methodOf_name {name : Bytes} (named : method.name = some name) :
    methodOf (name.getD 0 0) (name.getD 1 0) = method ∧ 2 ≤ name.length := by
  cases method with
  | unknown => cases named
  | _ =>
      cases named
      decide

theorem token_getD {spelled stream : Bytes} {index : Nat} (inside : index < spelled.length)
    (front : spelled <+: stream) :
    token (stream.getD index 0) = (spelled.map token).getD index 0 := by
  obtain ⟨rest, rfl⟩ := front
  rw [List.getD_append _ _ _ _ inside]
  exact (List.getD_map spelled 0 token).symm

/-- The reading of a stream from the start finds the request lines that it begins with. -/
theorem await_reset_eq_some_iff {stream : Bytes} {found : Parts} :
    reset.await stream = some found ↔
      ∃ target : Target, (target.path ≠ [] ∨ target.query.isSome) ∧
        target.bytes <+: stream ∧ target.parts = found := by
  have reads : reset.await stream =
      (methodOf (token (stream.getD 0 0)) (token (stream.getD 1 0))).name.bind fun name =>
        awaitName (methodOf (token (stream.getD 0 0)) (token (stream.getD 1 0))) name stream :=
    rfl
  rw [reads, Option.bind_eq_some_iff]
  constructor
  · rintro ⟨name, named, finds⟩
    obtain ⟨spelled, spaces, behind, spells, spaced, same, finds⟩ :=
      awaitName_eq_some_iff.mp finds
    obtain ⟨chars, query, asks, rfl⟩ := awaitPath_eq_some_iff.mp finds
    refine ⟨⟨_, spelled, spaces, chars, query, spells ▸ named, spaced, asks.charsUrl,
      asks.queryUrl⟩, asks.filled, ?_, rfl⟩
    obtain ⟨rest, front⟩ := asks.front
    refine ⟨rest, ?_⟩
    simp only [Target.bytes]
    rw [List.append_assoc, front]
    exact same.symm
  · rintro ⟨target, filled, ⟨rest, rfl⟩, rfl⟩
    obtain ⟨known, long⟩ := methodOf_name target.named
    rw [List.length_map] at long
    have front : target.name <+: target.bytes ++ rest := by
      unfold Target.bytes
      simp only [List.append_assoc]
      exact List.prefix_append _ _
    have method : methodOf (token ((target.bytes ++ rest).getD 0 0))
        (token ((target.bytes ++ rest).getD 1 0)) = target.method := by
      rw [token_getD (by omega) front, token_getD (by omega) front, known]
    rw [method]
    have asks : Asks [] target.path target.query
        (target.path ++ queryBytes target.query ++ [space] ++ rest) :=
      ⟨target.pathUrl, target.queryUrl, filled, List.prefix_append _ _⟩
    refine ⟨_, target.named, awaitName_eq_some_iff.mpr ⟨target.name, target.spaces, _, rfl,
      target.spaced, ?_, awaitPath_eq_some_iff.mpr ⟨target.path, target.query, asks, rfl⟩⟩⟩
    rw [Target.bytes, List.append_assoc _ _ rest]

end Language

end Mevent.Request
