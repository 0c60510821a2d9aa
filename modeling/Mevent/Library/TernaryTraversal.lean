import Mevent.Library.TernaryEntries

/-!
# Traversals that are cut off

A traversal collects the data of a tree from left to right and returns from a node when there
is enough.  The calls that wait for it go on: what is left out is what lies below that node.
-/

namespace Mevent.Library.TernaryTree

universe u v w
variable {Key : Type u} {Data : Type v} {Item : Type w}

inductive Turn where
  | left
  | center
  | right
  deriving DecidableEq, Repr

def behind (turn : Turn) (place : List Turn × Item) : List Turn × Item :=
  (turn :: place.1, place.2)

/-- The data of a tree from left to right, each with the turns that lead to its node. -/
def located : TernaryTree Key Data → List (List Turn × List Key × Data)
  | .null => []
  | .node c left center right stored =>
      (located left).map (behind .left) ++ (stored.toList.map (fun data => ([], [c], data)) ++
        ((located center).map (fun place =>
          behind .center (place.1, c :: place.2.1, place.2.2)) ++
          (located right).map (behind .right)))

theorem map_located (tree : TernaryTree Key Data) : tree.located.map Prod.snd = tree.entries := by
  induction tree with
  | null => rfl
  | node c left center right stored leftHypothesis centerHypothesis rightHypothesis =>
      rw [located, entries, ← leftHypothesis, ← centerHypothesis, ← rightHypothesis]
      simp [behind, Function.comp_def]

/-- What one part of a traversal collects and then another one, with room for a number of
data. -/
def andThen (first second : Nat → List Data) (room : Nat) : List Data :=
  first room ++ second (room - (first room).length)

/-- Data that ends the traversal when it takes the last room. -/
def ownThen (data : Data) (rest : Nat → List Data) (room : Nat) : List Data :=
  if room ≤ 1 then [data] else data :: rest (room - 1)

/-- What a traversal collects. -/
def collected : TernaryTree Key Data → Nat → List Data
  | .null => fun _ => []
  | .node _ left center right none =>
      andThen (collected left) (andThen (collected center) (collected right))
  | .node _ left center right (some data) =>
      andThen (collected left) (ownThen data (andThen (collected center) (collected right)))

/-- Everything behind the place that takes the last room lies below that place. -/
def StopsAt (places : List (List Turn × Item)) (room : Nat) : Prop :=
  ∀ last, places[room - 1]? = some last → ∀ later ∈ places.drop room, last.1 <+: later.1

/-- A part of a traversal collects what lies at some places, in their order. -/
structure Collects (part : Nat → List Data) (places : List (List Turn × Item))
    (content : Item → Data) : Prop where
  nothing : part 0 = [] ↔ places = []
  all : ∀ room, places.length ≤ room → part room = places.map fun place => content place.2
  initial : ∀ room, (part room).take room = (places.map fun place => content place.2).take room
  inTime : ∀ room, 0 < room → ((part room).length ≤ room ↔ StopsAt places room)

section Collects

variable {first second : Nat → List Data} {places others : List (List Turn × Item)}
  {content : Item → Data}

theorem Collects.null : Collects (fun _ => ([] : List Data)) ([] : List (List Turn × Item))
    content where
  nothing := by simp
  all := by simp
  initial := by simp
  inTime room _ := by simp [StopsAt]

theorem Collects.length_cases (collects : Collects first places content) (room : Nat) :
    (first room = places.map (fun place => content place.2) ∧ places.length ≤ room) ∨
      room < places.length ∧ room ≤ (first room).length := by
  rcases Nat.lt_or_ge room places.length with more | complete
  · right
    have lengths := congrArg List.length (collects.initial room)
    simp only [List.length_take, List.length_map] at lengths
    exact ⟨more, by omega⟩
  · exact .inl ⟨collects.all room complete, complete⟩

theorem stopsAt_append_of_le {room : Nat} (some : 0 < room) (inFirst : room ≤ places.length)
    (apart : ∀ place ∈ places, ∀ other ∈ others, ¬ place.1 <+: other.1) :
    StopsAt (places ++ others) room ↔ StopsAt places room ∧ others = [] := by
  have within : room - 1 < places.length := by omega
  rw [StopsAt, StopsAt, List.getElem?_append_left within, List.drop_append_of_le_length inFirst,
    List.getElem?_eq_getElem within]
  simp only [Option.some.injEq, forall_eq', List.forall_mem_append]
  constructor
  · rintro ⟨inPlaces, inOthers⟩
    refine ⟨inPlaces, List.eq_nil_iff_forall_not_mem.mpr ?_⟩
    intro other listed
    exact apart _ (List.getElem_mem within) other listed (inOthers other listed)
  · rintro ⟨inPlaces, rfl⟩
    exact ⟨inPlaces, by simp⟩

theorem stopsAt_append_of_lt {room : Nat} (inSecond : places.length < room) :
    StopsAt (places ++ others) room ↔ StopsAt others (room - places.length) := by
  have further : room - 1 - places.length = room - places.length - 1 := by omega
  rw [StopsAt, StopsAt, List.getElem?_append_right (by omega), List.drop_append,
    List.drop_eq_nil_of_le (by omega), List.nil_append, further]

theorem Collects.isPrefix (collects : Collects first places content) {room : Nat}
    (fits : (first room).length ≤ room) :
    first room <+: places.map fun place => content place.2 := by
  rw [← List.take_of_length_le fits, collects.initial room]
  exact List.take_prefix _ _

theorem Collects.andThen (collects : Collects first places content)
    (collects' : Collects second others content)
    (apart : ∀ place ∈ places, ∀ other ∈ others, ¬ place.1 <+: other.1) :
    Collects (andThen first second) (places ++ others) content where
  nothing := by
    simp only [TernaryTree.andThen, Nat.zero_sub, List.append_eq_nil_iff, collects.nothing,
      collects'.nothing]
  all room complete := by
    rw [List.length_append] at complete
    rw [TernaryTree.andThen, collects.all room (by omega), List.length_map,
      collects'.all _ (by omega), List.map_append]
  initial room := by
    rw [TernaryTree.andThen, List.map_append]
    rcases collects.length_cases room with ⟨complete, -⟩ | ⟨more, enough⟩
    · rw [complete, List.take_append, List.take_append, List.length_map, collects'.initial]
    · rw [List.take_append_of_le_length enough,
        List.take_append_of_le_length (by rw [List.length_map]; omega), collects.initial]
  inTime room some := by
    rw [TernaryTree.andThen, List.length_append]
    rcases collects.length_cases room with ⟨complete, within⟩ | ⟨more, enough⟩
    · rw [complete, List.length_map]
      rcases Nat.lt_or_eq_of_le within with less | same
      · rw [stopsAt_append_of_lt less, ← collects'.inTime _ (by omega)]
        omega
      · have stopped : StopsAt places room := by
          intro last _ later listed
          rw [List.drop_eq_nil_of_le within] at listed
          cases listed
        rw [stopsAt_append_of_le some same.ge apart, and_iff_right stopped, ← collects'.nothing,
          ← List.length_eq_zero_iff, same, Nat.sub_self]
        omega
    · rw [stopsAt_append_of_le some more.le apart, ← collects.inTime room some,
        ← collects'.nothing, ← List.length_eq_zero_iff, Nat.sub_eq_zero_of_le enough]
      omega

theorem Collects.ownThen (collects : Collects second others content) (item : Item) :
    Collects (ownThen (content item) second) (([], item) :: others) content where
  nothing := by simp [TernaryTree.ownThen]
  all room complete := by
    rw [List.length_cons] at complete
    rw [TernaryTree.ownThen, List.map_cons]
    split
    next last =>
      have none : others = [] := List.length_eq_zero_iff.mp (by omega)
      rw [none, List.map_nil]
    next => rw [collects.all _ (by omega)]
  initial room := by
    match room with
    | 0 => rfl
    | 1 => simp [TernaryTree.ownThen]
    | room + 2 =>
        have rest := collects.initial (room + 1)
        simp [TernaryTree.ownThen, rest]
  inTime room some := by
    match room with
    | 1 => simp [TernaryTree.ownThen, StopsAt]
    | room + 2 =>
        have rest := collects.inTime (room + 1) (by omega)
        simpa [TernaryTree.ownThen, StopsAt] using rest

theorem stopsAt_turned {Other : Type w} (turn : Turn) (change : Item → Other) (room : Nat) :
    StopsAt (places.map fun place => (turn :: place.1, change place.2)) room ↔
      StopsAt places room := by
  rw [StopsAt, StopsAt, List.getElem?_map, ← List.map_drop]
  constructor
  · intro stops place found further listed
    apply (List.prefix_cons_inj turn).mp
    exact stops _ (by rw [found]; rfl) _ (List.mem_map_of_mem listed)
  · intro stops last isLast later isLater
    obtain ⟨place, found, rfl⟩ := Option.map_eq_some_iff.mp isLast
    obtain ⟨further, listed, rfl⟩ := List.mem_map.mp isLater
    exact (List.prefix_cons_inj turn).mpr (stops place found further listed)

theorem Collects.turned {Other : Type w} (collects : Collects first places content)
    (turn : Turn) (change : Item → Other) {content' : Other → Data}
    (same : ∀ item, content' (change item) = content item) :
    Collects first (places.map fun place => (turn :: place.1, change place.2)) content' where
  nothing := by rw [collects.nothing, List.map_eq_nil_iff]
  all room complete := by
    rw [List.length_map] at complete
    rw [collects.all room complete, List.map_map]
    exact List.map_congr_left fun place _ => (same place.2).symm
  initial room := by
    rw [collects.initial room, List.map_map]
    congr 1
    exact List.map_congr_left fun place _ => (same place.2).symm
  inTime room some := by
    rw [collects.inTime room some, stopsAt_turned]

theorem stopsAt_cons_of_lt {own : List Turn × Item} {room : Nat} (more : 1 < room) :
    StopsAt (own :: others) room ↔ StopsAt others (room - 1) := by
  have moved : StopsAt ([own] ++ others) room ↔ StopsAt others (room - [own].length) :=
    stopsAt_append_of_lt (by simpa using more)
  simpa using moved

theorem stopsAt_one (item : Item) : StopsAt (([], item) :: others) 1 := by
  intro last found later _
  cases found
  exact List.nil_prefix

end Collects

theorem apart_of_turn {turn : Turn} {places others : List (List Turn × Item)}
    (here : ∀ place ∈ places, place.1.head? = some turn)
    (elsewhere : ∀ other ∈ others, other.1.head? ≠ some turn) :
    ∀ place ∈ places, ∀ other ∈ others, ¬ place.1 <+: other.1 := by
  rintro ⟨first, item⟩ listed other listed' ⟨rest, same⟩
  apply elsewhere other listed'
  obtain ⟨further, rfl⟩ := List.head?_eq_some_iff.mp (here _ listed)
  rw [← same]
  rfl

theorem head?_behind {turn : Turn} {Source : Type v} {place : Source → List Turn × Item}
    {sources : List Source} :
    ∀ target ∈ sources.map (fun source => behind turn (place source)),
      target.1.head? = some turn := by
  intro target listed
  obtain ⟨source, -, rfl⟩ := List.mem_map.mp listed
  rfl

/-- What a traversal collects of a tree. -/
theorem collects_located (tree : TernaryTree Key Data) :
    Collects tree.collected tree.located Prod.snd := by
  induction tree with
  | null => exact .null
  | node c left center right stored leftHypothesis centerHypothesis rightHypothesis =>
      have inLeft : Collects left.collected (left.located.map (behind .left)) Prod.snd :=
        leftHypothesis.turned .left id fun _ => rfl
      have inCenter : Collects center.collected
          (center.located.map fun place => behind .center (place.1, c :: place.2.1, place.2.2))
          Prod.snd :=
        centerHypothesis.turned .center (fun item => (c :: item.1, item.2)) fun _ => rfl
      have inRight : Collects right.collected (right.located.map (behind .right)) Prod.snd :=
        rightHypothesis.turned .right id fun _ => rfl
      have rightElsewhere : ∀ other ∈ right.located.map (behind .right),
          other.1.head? ≠ some .center := by
        intro other listed
        rw [head?_behind other listed]
        decide
      have below := inCenter.andThen inRight (apart_of_turn head?_behind rightElsewhere)
      have belowElsewhere : ∀ other ∈ center.located.map (fun place =>
            behind .center (place.1, c :: place.2.1, place.2.2)) ++
          right.located.map (behind .right), other.1.head? ≠ some .left := by
        intro other listed
        rcases List.mem_append.mp listed with inside | beside
        · rw [head?_behind other inside]
          decide
        · rw [head?_behind other beside]
          decide
      cases stored with
      | none => exact inLeft.andThen below (apart_of_turn head?_behind belowElsewhere)
      | some data =>
          refine inLeft.andThen (below.ownThen ([c], data)) (apart_of_turn head?_behind ?_)
          intro other listed
          rcases List.mem_cons.mp listed with rfl | inside
          · exact Option.some_ne_none _ ∘ Eq.symm
          · exact belowElsewhere other inside

/-! ### Below a word -/

section Below

variable [LinearOrder Key]

/-- The places of the words that begin with a word. -/
def matching (tree : TernaryTree Key Data) (word : List Key) :
    List (List Turn × List Key × Data) :=
  tree.located.filter fun place => word <+: place.2.1

/-- What a traversal collects of the words that begin with a word.  The data of the word itself
does not end it. -/
def collectedUnder : TernaryTree Key Data → Key → List Key → (room : Nat) → List Data
  | .null, _, _, _ => []
  | .node c left center right stored, key, rest, room =>
      if key < c then
        collectedUnder left key rest room
      else if c < key then
        collectedUnder right key rest room
      else
        match rest with
        | [] => stored.toList ++ collected center (room - stored.toList.length)
        | next :: rest => collectedUnder center next rest room

omit [LinearOrder Key] in
theorem exists_mem_level_of_located {tree : TernaryTree Key Data}
    {place : List Turn × List Key × Data} (listed : place ∈ tree.located) :
    ∃ key rest, place.2.1 = key :: rest ∧ key ∈ tree.level := by
  have entry : place.2 ∈ tree.entries := map_located tree ▸ List.mem_map_of_mem listed
  exact exists_mem_level entry

theorem matching_eq_nil {tree : TernaryTree Key Data} {key : Key} (absent : key ∉ tree.level)
    (rest : List Key) : tree.matching (key :: rest) = [] := by
  apply List.filter_eq_nil_iff.mpr
  intro place listed isPrefix
  obtain ⟨first, behind, same, inside⟩ := exists_mem_level_of_located listed
  rw [same, decide_eq_true_eq, List.cons_prefix_cons] at isPrefix
  exact absent (isPrefix.1 ▸ inside)

section Node

variable {c key : Key} {left center right : TernaryTree Key Data} {stored : Option Data}
  {rest : List Key}

theorem matching_own_eq_nil (different : key ≠ c) :
    (((stored.toList.map fun data => (([] : List Turn), [c], data)) ++
        center.located.map fun place =>
          behind .center (place.1, c :: place.2.1, place.2.2)).filter
      fun place => key :: rest <+: place.2.1) = [] := by
  apply List.filter_eq_nil_iff.mpr
  intro place listed isPrefix
  rw [decide_eq_true_eq] at isPrefix
  rcases List.mem_append.mp listed with own | below
  · obtain ⟨data, -, rfl⟩ := List.mem_map.mp own
    exact different (List.cons_prefix_cons.mp isPrefix).1
  · obtain ⟨source, -, rfl⟩ := List.mem_map.mp below
    exact different (List.cons_prefix_cons.mp isPrefix).1

theorem matching_node (word : List Key) :
    (node c left center right stored).matching word =
      (left.matching word).map (behind .left) ++
        ((((stored.toList.map fun data => (([] : List Turn), [c], data)) ++
            center.located.map fun place =>
              behind .center (place.1, c :: place.2.1, place.2.2)).filter
          fun place => word <+: place.2.1) ++
        (right.matching word).map (behind .right)) := by
  simp only [matching, located, List.filter_append, List.filter_map, List.append_assoc]
  rfl

variable (ordered : (node c left center right stored).Ordered)

include ordered

theorem matching_of_lt (less : key < c) :
    (node c left center right stored).matching (key :: rest) =
      (left.matching (key :: rest)).map (behind .left) := by
  have notRight : key ∉ right.level := fun inside => lt_asymm less (ordered.1.2 key inside)
  rw [matching_node, matching_own_eq_nil less.ne, matching_eq_nil notRight]
  simp

theorem matching_of_gt (greater : c < key) :
    (node c left center right stored).matching (key :: rest) =
      (right.matching (key :: rest)).map (behind .right) := by
  have notLeft : key ∉ left.level := fun inside => lt_asymm greater (ordered.1.1 key inside)
  rw [matching_node, matching_own_eq_nil greater.ne', matching_eq_nil notLeft]
  simp

theorem matching_self : (node c left center right stored).matching [c] =
    (stored.toList.map fun data => (([] : List Turn), [c], data)) ++
      center.located.map fun place => behind .center (place.1, c :: place.2.1, place.2.2) := by
  have notLeft : c ∉ left.level := fun inside => lt_irrefl c (ordered.1.1 c inside)
  have notRight : c ∉ right.level := fun inside => lt_irrefl c (ordered.1.2 c inside)
  rw [matching_node, matching_eq_nil notLeft, matching_eq_nil notRight, List.map_nil,
    List.map_nil, List.nil_append, List.append_nil, List.filter_eq_self]
  intro place listed
  rw [decide_eq_true_eq]
  rcases List.mem_append.mp listed with own | below
  · obtain ⟨data, -, rfl⟩ := List.mem_map.mp own
    exact List.prefix_rfl
  · obtain ⟨source, -, rfl⟩ := List.mem_map.mp below
    exact (List.prefix_cons_inj c).mpr List.nil_prefix

theorem matching_cons (next : Key) :
    (node c left center right stored).matching (c :: next :: rest) =
      (center.matching (next :: rest)).map fun place =>
        behind .center (place.1, c :: place.2.1, place.2.2) := by
  have notLeft : c ∉ left.level := fun inside => lt_irrefl c (ordered.1.1 c inside)
  have notRight : c ∉ right.level := fun inside => lt_irrefl c (ordered.1.2 c inside)
  have notOwn : ((stored.toList.map fun data => (([] : List Turn), [c], data)).filter
      fun place => c :: next :: rest <+: place.2.1) = [] := by
    apply List.filter_eq_nil_iff.mpr
    intro place listed isPrefix
    obtain ⟨data, -, rfl⟩ := List.mem_map.mp listed
    simp at isPrefix
  rw [matching_node, matching_eq_nil notLeft, matching_eq_nil notRight, List.map_nil,
    List.map_nil, List.nil_append, List.append_nil, List.filter_append, notOwn, List.nil_append,
    List.filter_map, matching]
  congr 2
  funext place
  simp [behind, List.cons_prefix_cons]

end Node

/-- A part of a traversal collects places below a word, of which the first one may be that of
the word: everything where there is room, and what fits where it stops in time.  The word
itself does not stop it. -/
structure CollectsUnder (part : Nat → List Data) (places : List (List Turn × List Key × Data))
    (own : Bool) : Prop where
  all : ∀ room, places.length ≤ room → part room = places.map (·.2.2)
  inTime : ∀ room, 0 < room →
    ((part room).length ≤ room ∧ part room <+: places.map (·.2.2) ↔
      StopsAt places room ∧ (room = 1 → own → places.length = 1))

omit [LinearOrder Key] in
theorem CollectsUnder.turned {part : Nat → List Data}
    {places : List (List Turn × List Key × Data)} {own : Bool}
    (collects : CollectsUnder part places own) (turn : Turn) (change : List Key → List Key) :
    CollectsUnder part
      (places.map fun place => behind turn (place.1, change place.2.1, place.2.2)) own where
  all room complete := by
    rw [List.length_map] at complete
    rw [collects.all room complete, List.map_map]
    rfl
  inTime room some := by
    have moved : StopsAt
        (places.map fun place => (turn :: place.1, change place.2.1, place.2.2)) room ↔
          StopsAt places room :=
      stopsAt_turned turn (fun item : List Key × Data => (change item.1, item.2)) room
    rw [List.map_map, List.length_map]
    exact (collects.inTime room some).trans (and_congr_left' moved.symm)

omit [LinearOrder Key] in
theorem collectsUnder_node {center : TernaryTree Key Data} (stored : Option Data) (c : Key) :
    CollectsUnder (fun room => stored.toList ++ center.collected (room - stored.toList.length))
      ((stored.toList.map fun data => (([] : List Turn), [c], data)) ++
        center.located.map fun place => behind .center (place.1, c :: place.2.1, place.2.2))
      stored.isSome where
  all room complete := by
    rw [List.length_append, List.length_map, List.length_map] at complete
    rw [(collects_located center).all _ (by omega), List.map_append, List.map_map, List.map_map]
    simp [behind, Function.comp_def]
  inTime room some := by
    have collects := collects_located center
    have moved : ∀ room, StopsAt
        (center.located.map fun place => behind .center (place.1, c :: place.2.1, place.2.2))
          room ↔ StopsAt center.located room :=
      stopsAt_turned .center fun item : List Key × Data => (c :: item.1, item.2)
    have content : (center.located.map fun place =>
          behind .center (place.1, c :: place.2.1, place.2.2)).map (·.2.2) =
        center.located.map (·.2.2) := by
      rw [List.map_map]
      rfl
    cases stored with
    | none =>
        simp only [Option.toList_none, List.nil_append, List.map_nil, List.length_nil,
          Nat.sub_zero, content]
        constructor
        · rintro ⟨fits, -⟩
          have stops := (collects.inTime room some).mp fits
          exact ⟨(moved room).mpr stops, fun _ own => by cases own⟩
        · rintro ⟨stops, -⟩
          have fits := (collects.inTime room some).mpr ((moved room).mp stops)
          exact ⟨fits, collects.isPrefix fits⟩
    | some data =>
        simp only [Option.toList_some, List.singleton_append, List.map_cons, List.length_cons,
          List.length_nil, List.map_nil, content, List.length_map, List.cons_prefix_cons,
          true_and, Nat.zero_add]
        rcases Nat.lt_or_eq_of_le some with more | rfl
        · rw [stopsAt_cons_of_lt more]
          constructor
          · rintro ⟨fits, -⟩
            refine ⟨(moved _).mpr ((collects.inTime _ (by omega)).mp (by omega)), ?_⟩
            intro one
            omega
          · rintro ⟨stops, -⟩
            have fits := (collects.inTime (room - 1) (by omega)).mpr ((moved _).mp stops)
            exact ⟨by omega, collects.isPrefix fits⟩
        · rw [Nat.sub_self]
          constructor
          · rintro ⟨fits, -⟩
            have none : center.located = [] := by
              apply collects.nothing.mp
              exact List.length_eq_zero_iff.mp (by omega)
            refine ⟨stopsAt_one _, fun _ _ => ?_⟩
            rw [none]
            rfl
          · rintro ⟨-, alone⟩
            have none : center.located = [] := by
              apply List.length_eq_zero_iff.mp
              have := alone rfl rfl
              omega
            rw [collects.nothing.mpr none]
            exact ⟨le_refl 1, List.nil_prefix⟩

/-- What a traversal collects below a word. -/
theorem collectsUnder {tree : TernaryTree Key Data} (ordered : tree.Ordered) (key : Key)
    (rest : List Key) :
    CollectsUnder (tree.collectedUnder key rest) (tree.matching (key :: rest))
      (tree.lookup key rest).isSome := by
  induction tree generalizing key rest with
  | null =>
      constructor
      · intro room _
        rfl
      · intro room some
        simp [collectedUnder, matching, located, StopsAt, lookup]
  | node c left center right stored leftHypothesis centerHypothesis rightHypothesis =>
      obtain ⟨-, inLeft, inCenter, inRight⟩ := id ordered
      rcases lt_trichotomy key c with less | rfl | greater
      · have part : (node c left center right stored).collectedUnder key rest =
            left.collectedUnder key rest := by
          funext room
          rw [collectedUnder.eq_def]
          exact if_pos less
        rw [part, matching_of_lt ordered less, lookup_of_lt _ _ _ _ less]
        exact (leftHypothesis inLeft key rest).turned .left id
      · cases rest with
        | nil =>
            have part : (node key left center right stored).collectedUnder key [] = fun room =>
                stored.toList ++ center.collected (room - stored.toList.length) := by
              funext room
              rw [collectedUnder.eq_def]
              exact (if_neg (lt_irrefl key)).trans (if_neg (lt_irrefl key))
            rw [part, matching_self ordered, lookup_self]
            exact collectsUnder_node stored key
        | cons next rest =>
            have part : (node key left center right stored).collectedUnder key (next :: rest) =
                center.collectedUnder next rest := by
              funext room
              rw [collectedUnder.eq_def]
              exact (if_neg (lt_irrefl key)).trans (if_neg (lt_irrefl key))
            rw [part, matching_cons ordered, lookup_self]
            exact (centerHypothesis inCenter next rest).turned .center (key :: ·)
      · have part : (node c left center right stored).collectedUnder key rest =
            right.collectedUnder key rest := by
          funext room
          rw [collectedUnder.eq_def]
          exact (if_neg (lt_asymm greater)).trans (if_pos greater)
        rw [part, matching_of_gt ordered greater, lookup_of_gt _ _ _ _ greater]
        exact (rightHypothesis inRight key rest).turned .right id

end Below

end Mevent.Library.TernaryTree
