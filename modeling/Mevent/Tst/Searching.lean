import Mevent.EventLoop.Routes
import Mevent.Library.Linked
import Mevent.Library.TernaryTraversal

/-!
# `Search` of a ternary search tree

A search for a prefix appends copies of the stored data to a doubly linked list, from left to
right, with a limit that the traversal looks at behind each of them.
-/

namespace Mevent.Tst

open Library

/-- A string that is not empty and has no character that ends a C string. -/
abbrev Word := { str : Bytes // str ≠ [] ∧ 0 ∉ str }

def Word.chars (word : Word) : List Int := word.1.map promote

def Word.first (word : Word) : Int := promote (word.1.head word.2.1)

/-- What the tree reads of a string behind its first character. -/
def Word.rest (word : Word) : List Int := behindFirst word.1.tail

/-- The data of one `Insert`. -/
structure Insertion where
  str : Word
  func : Option FuncId
  deriving DecidableEq, Repr

def Insertion.data (insertion : Insertion) : NodeData := ⟨insertion.str.1, insertion.func⟩

/-- `TernarySearchTree::Insert`. -/
def insert (tree : TernarySearchTree) (insertion : Insertion) : TernarySearchTree :=
  tree.insert insertion.data insertion.str.first insertion.str.rest

def insertAll (insertions : List Insertion) : TernarySearchTree :=
  insertions.foldl insert .null

/-- The data that is stored: that of the first insertion of its string. -/
def Stored (insertions : List Insertion) (data : NodeData) : Prop :=
  (insertions.find? (·.str.1 = data.str)).map Insertion.data = some data

/-- `tst::Result` and its nodes, which are numbered as they are made. -/
structure Result where
  list : Option Nat
  tail : Option Nat
  next : Nat → Option Nat
  prev : Nat → Option Nat
  data : Nat → Option NodeData
  made : Nat
  count : Int
  limit : Int

/-- `TernarySearchTree::ResultInit`, with the limit that `Search` sets. -/
def resultInit (limit : Int) : Result where
  list := none
  tail := none
  next _ := none
  prev _ := none
  data _ := none
  made := 0
  count := 0
  limit := limit

/-- `TernarySearchTree::ResultAdd`. -/
def resultAdd (rp : Result) (data : NodeData) : Result :=
  let node := rp.made
  let rp := { rp with
    made := node + 1
    data := Function.update rp.data node (some data)
    next := Function.update rp.next node none
    prev := Function.update rp.prev node none }
  let rp :=
    match rp.tail with
    | none => { rp with list := some node, tail := some node }
    | some tail => { rp with
        prev := Function.update rp.prev node (some tail)
        next := Function.update rp.next tail (some node)
        tail := some node }
  { rp with count := rp.count + 1 }

/-- `TernarySearchTree::Traverse`. -/
def traverse : TernarySearchTree → Result → Result
  | .null, rp => rp
  | .node _ left center right none, rp => traverse right (traverse center (traverse left rp))
  | .node _ left center right (some data), rp =>
      let rp := resultAdd (traverse left rp) data
      if rp.limit < rp.count then rp else traverse right (traverse center rp)

/-- The recursion of `TernarySearchTree::Search` with a list for its results. -/
def searchFrom : TernarySearchTree → (first : Int) → (rest : List Int) → Result → Result
  | .null, _, _, rp => rp
  | .node c left center right data, first, rest, rp =>
      if first < c then
        searchFrom left first rest rp
      else if c < first then
        searchFrom right first rest rp
      else
        match rest with
        | [] =>
            traverse center
              (match data with
                | none => rp
                | some data => resultAdd rp data)
        | next :: rest => searchFrom center next rest rp

/-- `TernarySearchTree::Search` with a limit. -/
def search (tree : TernarySearchTree) (str : Word) (limit : Int) : Result :=
  searchFrom tree str.first str.rest (resultInit limit)

/-! ### The list of the results -/

def Result.links (rp : Result) : Links Nat := ⟨rp.list, rp.tail, rp.next, rp.prev⟩

/-- The list of a result holds these data, and `count` is its length. -/
structure Result.Holds (rp : Result) (listed : List NodeData) : Prop where
  linked : rp.links.Represents (List.range rp.made)
  made : rp.made = listed.length
  data : ∀ node, rp.data node = listed[node]?
  count : rp.count = listed.length

theorem Result.Holds.unique {rp : Result} {listed others : List NodeData}
    (holds : rp.Holds listed) (holds' : rp.Holds others) : listed = others :=
  List.ext_getElem? fun node => (holds.data node).symm.trans (holds'.data node)

def Result.addAll (rp : Result) (datas : List NodeData) : Result := datas.foldl resultAdd rp

theorem holds_resultInit (limit : Int) : (resultInit limit).Holds [] where
  linked := {
    nodup := List.nodup_nil
    forward := rfl
    backward := rfl
    outside := fun _ _ => ⟨rfl, rfl⟩ }
  made := rfl
  data _ := rfl
  count := rfl

@[simp]
theorem limit_resultAdd (rp : Result) (data : NodeData) :
    (resultAdd rp data).limit = rp.limit := by
  unfold resultAdd
  cases rp.tail <;> rfl

@[simp]
theorem count_resultAdd (rp : Result) (data : NodeData) :
    (resultAdd rp data).count = rp.count + 1 := by
  unfold resultAdd
  cases rp.tail <;> rfl

theorem Result.Holds.links_add {rp : Result} {listed : List NodeData} (holds : rp.Holds listed)
    (data : NodeData) : (resultAdd rp data).links = rp.links.append rp.made := by
  obtain ⟨next, prev⟩ := holds.linked.outside rp.made (by simp)
  have sameNext : Function.update rp.next rp.made none = rp.next :=
    Function.update_eq_self_iff.mpr next.symm
  have samePrev : Function.update rp.prev rp.made none = rp.prev :=
    Function.update_eq_self_iff.mpr prev.symm
  cases tail : rp.tail <;>
    simp [resultAdd, Result.links, Links.append, redirect, tail, sameNext, samePrev]

theorem made_resultAdd (rp : Result) (data : NodeData) :
    (resultAdd rp data).made = rp.made + 1 := by
  unfold resultAdd
  cases rp.tail <;> rfl

theorem data_resultAdd (rp : Result) (data : NodeData) :
    (resultAdd rp data).data = Function.update rp.data rp.made (some data) := by
  unfold resultAdd
  cases rp.tail <;> rfl

theorem Result.Holds.add {rp : Result} {listed : List NodeData} (holds : rp.Holds listed)
    (data : NodeData) : (resultAdd rp data).Holds (listed ++ [data]) where
  linked := by
    rw [holds.links_add, made_resultAdd, List.range_succ]
    exact holds.linked.append (by simp)
  made := by
    rw [made_resultAdd, holds.made, List.length_append, List.length_singleton]
  data node := by
    rw [data_resultAdd, holds.made]
    by_cases last : node = listed.length
    · subst last
      simp
    · rw [Function.update_of_ne last, holds.data]
      rcases Nat.lt_or_gt_of_ne last with before | beyond
      · rw [List.getElem?_append_left before]
      · rw [List.getElem?_eq_none beyond.le, List.getElem?_eq_none (by simpa using beyond)]
  count := by
    rw [count_resultAdd, holds.count]
    simp

theorem Result.Holds.addAll {rp : Result} {listed : List NodeData} (holds : rp.Holds listed)
    (datas : List NodeData) : (rp.addAll datas).Holds (listed ++ datas) := by
  induction datas generalizing rp listed with
  | nil => simpa [Result.addAll] using holds
  | cons data datas inductionHypothesis =>
      have later := inductionHypothesis (holds.add data)
      rwa [List.append_assoc] at later

@[simp]
theorem limit_addAll (rp : Result) (datas : List NodeData) :
    (rp.addAll datas).limit = rp.limit := by
  induction datas generalizing rp with
  | nil => rfl
  | cons data datas inductionHypothesis =>
      exact (inductionHypothesis _).trans (limit_resultAdd _ _)

@[simp]
theorem count_addAll (rp : Result) (datas : List NodeData) :
    (rp.addAll datas).count = rp.count + datas.length := by
  induction datas generalizing rp with
  | nil => simp [Result.addAll]
  | cons data datas inductionHypothesis =>
      refine (inductionHypothesis _).trans ?_
      rw [count_resultAdd, List.length_cons]
      omega

/-! ### What a search appends -/

/-- How many data are missing until `count` exceeds `limit`. -/
def Result.room (rp : Result) : Nat := (rp.limit + 1 - rp.count).toNat

theorem room_addAll (rp : Result) (datas : List NodeData) :
    (rp.addAll datas).room = rp.room - datas.length := by
  rw [Result.room, Result.room, limit_addAll, count_addAll]
  omega

theorem addAll_append (rp : Result) (first second : List NodeData) :
    rp.addAll (first ++ second) = (rp.addAll first).addAll second :=
  List.foldl_append

/-- `Traverse` is a traversal that is cut off. -/
theorem traverse_eq (tree : TernarySearchTree) (rp : Result) :
    traverse tree rp = rp.addAll (tree.collected rp.room) := by
  induction tree generalizing rp with
  | null => rfl
  | node c left center right stored leftHypothesis centerHypothesis rightHypothesis =>
      have below : ∀ rp : Result, traverse right (traverse center rp) =
          rp.addAll (TernaryTree.andThen center.collected right.collected rp.room) := by
        intro rp
        rw [centerHypothesis, rightHypothesis, room_addAll, TernaryTree.andThen, addAll_append]
      cases stored with
      | none =>
          rw [traverse, below, leftHypothesis, room_addAll, ← addAll_append]
          rfl
      | some data =>
          have own : ∀ rp : Result, resultAdd rp data = rp.addAll [data] := fun _ => rfl
          have full : (resultAdd (rp.addAll (left.collected rp.room)) data).limit <
                (resultAdd (rp.addAll (left.collected rp.room)) data).count ↔
              rp.room - (left.collected rp.room).length ≤ 1 := by
            rw [limit_resultAdd, count_resultAdd, limit_addAll, count_addAll, Result.room]
            omega
          rw [traverse, leftHypothesis, TernaryTree.collected, TernaryTree.andThen,
            TernaryTree.ownThen]
          simp only [full]
          split
          next => rw [own, addAll_append]
          next =>
            rw [below, own, room_addAll, room_addAll, ← addAll_append, ← addAll_append,
              List.length_singleton]
            rfl

theorem searchFrom_eq (tree : TernarySearchTree) (first : Int) (rest : List Int) (rp : Result) :
    searchFrom tree first rest rp = rp.addAll (tree.collectedUnder first rest rp.room) := by
  induction tree generalizing first rest with
  | null => rfl
  | node c left center right stored leftHypothesis centerHypothesis rightHypothesis =>
      rw [searchFrom.eq_def, TernaryTree.collectedUnder.eq_def]
      dsimp only
      split
      next => exact leftHypothesis first rest
      next =>
        split
        next => exact rightHypothesis first rest
        next =>
          cases rest with
          | nil =>
              cases stored with
              | none => exact traverse_eq center rp
              | some data =>
                  have own : resultAdd rp data = rp.addAll [data] := rfl
                  dsimp only
                  rw [traverse_eq, own, room_addAll, ← addAll_append]
                  rfl
          | cons next rest => exact centerHypothesis next rest

/-! ### What is stored -/

theorem Word.chars_eq (word : Word) : word.chars = word.first :: word.rest := by
  obtain ⟨str, nonempty, nulFree⟩ := word
  cases str with
  | nil => exact absurd rfl nonempty
  | cons first rest => exact (word_of_path nulFree).symm

theorem ordered_insertAll (insertions : List Insertion) : (insertAll insertions).Ordered := by
  have kept : ∀ tree : TernarySearchTree, tree.Ordered →
      (insertions.foldl insert tree).Ordered := by
    induction insertions with
    | nil => exact fun _ ordered => ordered
    | cons insertion rest inductionHypothesis =>
        exact fun tree ordered => inductionHypothesis _ (ordered.insert _ _ _)
  exact kept .null trivial

/-- The tree has the first insertion of every string and nothing else. -/
theorem get_insertAll (insertions : List Insertion) (word : List Int) :
    (insertAll insertions).get word =
      (insertions.find? (·.str.chars = word)).map Insertion.data := by
  have general : ∀ tree : TernarySearchTree, (insertions.foldl insert tree).get word =
      (tree.get word).or ((insertions.find? (·.str.chars = word)).map Insertion.data) := by
    induction insertions with
    | nil => simp
    | cons insertion rest inductionHypothesis =>
        intro tree
        rw [List.foldl_cons, inductionHypothesis, insert, TernaryTree.get_insert,
          ← Word.chars_eq, List.find?_cons]
        by_cases same : word = insertion.str.chars
        · simp [same]
        · simp [same, Ne.symm same]
  have empty : TernaryTree.get (.null : TernarySearchTree) word = none := by
    cases word <;> rfl
  rw [insertAll, general, empty, Option.none_or]

/-- The stored data whose string begins with a prefix, in the order of the tree. -/
def enumerated (tree : TernarySearchTree) (pre : Word) : List NodeData :=
  (tree.matching pre.chars).map fun place => place.2.2

theorem get_eq_some_iff (insertions : List Insertion) {word : List Int} {data : NodeData} :
    (insertAll insertions).get word = some data ↔
      word = data.str.map promote ∧ Stored insertions data := by
  have injective := List.map_injective_iff.mpr promote_injective
  have asked : word = data.str.map promote → (insertions.find? (·.str.chars = word)) =
      insertions.find? (·.str.1 = data.str) := by
    rintro rfl
    congr 1
    funext insertion
    exact decide_eq_decide.mpr injective.eq_iff
  rw [get_insertAll]
  constructor
  · intro found
    obtain ⟨insertion, first, same⟩ := Option.map_eq_some_iff.mp found
    have named : word = data.str.map promote := by
      rw [← same]
      exact (of_decide_eq_true (List.find?_some (p := fun other : Insertion =>
        decide (other.str.chars = word)) first)).symm
    rw [asked named] at found
    exact ⟨named, found⟩
  · rintro ⟨named, stored⟩
    rw [asked named]
    exact stored

theorem mem_matching {insertions : List Insertion} {pre : Word}
    {place : List TernaryTree.Turn × List Int × NodeData}
    (listed : place ∈ (insertAll insertions).matching pre.chars) :
    place.2.1 = place.2.2.str.map promote ∧ pre.1 <+: place.2.2.str ∧
      Stored insertions place.2.2 := by
  obtain ⟨inside, isPrefix⟩ := List.mem_filter.mp listed
  have entry : place.2 ∈ (insertAll insertions).entries :=
    TernaryTree.map_located (insertAll insertions) ▸ List.mem_map_of_mem inside
  have stored := (TernaryTree.mem_entries_iff (ordered_insertAll insertions)).mp entry
  obtain ⟨named, isStored⟩ := (get_eq_some_iff insertions).mp stored
  rw [named, decide_eq_true_eq] at isPrefix
  exact ⟨named, (List.prefix_map_iff_of_injective promote_injective).mp isPrefix, isStored⟩

theorem mem_enumerated (insertions : List Insertion) (pre : Word) (data : NodeData) :
    data ∈ enumerated (insertAll insertions) pre ↔
      pre.1 <+: data.str ∧ Stored insertions data := by
  constructor
  · intro listed
    obtain ⟨place, inside, rfl⟩ := List.mem_map.mp listed
    exact (mem_matching inside).2
  · rintro ⟨isPrefix, stored⟩
    have found := (get_eq_some_iff insertions).mpr ⟨rfl, stored⟩
    have entry := (TernaryTree.mem_entries_iff (ordered_insertAll insertions)).mpr found
    rw [← TernaryTree.map_located] at entry
    obtain ⟨place, inside, same⟩ := List.mem_map.mp entry
    refine List.mem_map.mpr ⟨place, List.mem_filter.mpr ⟨inside, ?_⟩, by rw [same]⟩
    rw [same, decide_eq_true_eq]
    exact isPrefix.map promote

theorem pairwise_enumerated (insertions : List Insertion) (pre : Word) :
    (enumerated (insertAll insertions) pre).Pairwise fun first second =>
      first.str.map promote < second.str.map promote := by
  have increasing := TernaryTree.pairwise_entries (ordered_insertAll insertions)
  rw [← TernaryTree.map_located, List.pairwise_map] at increasing
  have filtered := increasing.filter fun place => decide (pre.chars <+: place.2.1)
  refine List.pairwise_map.mpr (filtered.imp_of_mem ?_)
  intro first second isFirst isSecond less
  rwa [(mem_matching isFirst).1, (mem_matching isSecond).1] at less

/-- The strings of a search are those stored that begin with the prefix, each once. -/
theorem length_enumerated (insertions : List Insertion) (pre : Word) :
    (enumerated (insertAll insertions) pre).length =
      ((insertions.map (·.str.1)).dedup.filter (pre.1 <+: ·)).length := by
  have distinct : ((enumerated (insertAll insertions) pre).map NodeData.str).Nodup := by
    apply List.pairwise_map.mpr
    refine (pairwise_enumerated insertions pre).imp ?_
    intro first second less same
    rw [same] at less
    exact List.lt_irrefl _ less
  have members : ∀ str, str ∈ (enumerated (insertAll insertions) pre).map NodeData.str ↔
      str ∈ (insertions.map (·.str.1)).dedup.filter (pre.1 <+: ·) := by
    intro str
    simp only [List.mem_map, mem_enumerated, List.mem_filter, List.mem_dedup, decide_eq_true_eq]
    constructor
    · rintro ⟨data, ⟨isPrefix, stored⟩, rfl⟩
      obtain ⟨insertion, found, same⟩ := Option.map_eq_some_iff.mp stored
      exact ⟨⟨insertion, List.mem_of_find?_eq_some found, by rw [← same]; rfl⟩, isPrefix⟩
    · rintro ⟨⟨insertion, listed, rfl⟩, isPrefix⟩
      have some : (insertions.find? (·.str.1 = insertion.str.1)).isSome :=
        List.find?_isSome.mpr ⟨insertion, listed, by simp⟩
      obtain ⟨first, found⟩ := Option.isSome_iff_exists.mp some
      have same : first.data.str = insertion.str.1 :=
        of_decide_eq_true (List.find?_some (p := fun other : Insertion =>
          decide (other.str.1 = insertion.str.1)) found)
      refine ⟨first.data, ⟨same ▸ isPrefix, ?_⟩, same⟩
      rw [Stored, same, found, Option.map_some]
  have permuted := (List.perm_ext_iff_of_nodup distinct
    ((List.nodup_dedup _).filter _)).mpr members
  rw [← permuted.length_eq, List.length_map]

theorem search_eq (tree : TernarySearchTree) (pre : Word) (limit : Int) :
    search tree pre limit = (resultInit limit).addAll
      (tree.collectedUnder pre.first pre.rest (limit + 1).toNat) := by
  have room : (resultInit limit).room = (limit + 1).toNat := by
    simp [Result.room, resultInit]
  rw [search, searchFrom_eq, room]

/-- With a limit that is large enough, `Search` lists everything that begins with the prefix,
in the order of the characters. -/
theorem search_lists_all {insertions : List Insertion} {pre : Word} {limit : Int}
    (enough : ((insertions.map (·.str.1)).dedup.filter (pre.1 <+: ·)).length ≤ limit) :
    ∃ listed, (search (insertAll insertions) pre limit).Holds listed ∧
      (∀ data, data ∈ listed ↔ pre.1 <+: data.str ∧ Stored insertions data) ∧
      listed.Pairwise (fun first second => first.str.map promote < second.str.map promote) ∧
      ∀ node other, (search (insertAll insertions) pre limit).next node = some other ↔
        (search (insertAll insertions) pre limit).prev other = some node := by
  rw [← length_enumerated] at enough
  have collects := TernaryTree.collectsUnder (ordered_insertAll insertions) pre.first pre.rest
  rw [← Word.chars_eq] at collects
  have complete : (insertAll insertions).collectedUnder pre.first pre.rest (limit + 1).toNat =
      enumerated (insertAll insertions) pre := by
    apply collects.all
    rw [enumerated, List.length_map] at enough
    omega
  have holds := (holds_resultInit limit).addAll (enumerated (insertAll insertions) pre)
  rw [← complete, ← search_eq, complete, List.nil_append] at holds
  refine ⟨_, holds, mem_enumerated insertions pre, pairwise_enumerated insertions pre, ?_⟩
  exact fun node other => holds.linked.next_iff_prev

/-- Insertions of `b`, `a`, `ab` and once more `a`. -/
def fewInsertions : List Insertion :=
  [⟨⟨[98], by decide⟩, none⟩, ⟨⟨[97], by decide⟩, some 1⟩, ⟨⟨[97, 98], by decide⟩, some 2⟩,
    ⟨⟨[97], by decide⟩, some 3⟩]

theorem search_lists_all_few :
    ∃ listed, (search (insertAll fewInsertions) ⟨[97], by decide⟩ 2).Holds listed ∧
      (∀ data, data ∈ listed ↔ [97] <+: data.str ∧ Stored fewInsertions data) ∧
      listed.Pairwise (fun first second => first.str.map promote < second.str.map promote) ∧
      ∀ node other,
        (search (insertAll fewInsertions) ⟨[97], by decide⟩ 2).next node = some other ↔
          (search (insertAll fewInsertions) ⟨[97], by decide⟩ 2).prev other = some node :=
  search_lists_all (by decide +kernel)

/-! ### A limit that is reached -/

/-- `Search` stops in time: no more than one entry over the limit begins with the prefix, or
what comes behind that one lies below its node; and the prefix itself does not exhaust the
limit with more to come. -/
def StopsInTime (tree : TernarySearchTree) (pre : Word) (limit : Int) : Prop :=
  TernaryTree.StopsAt (tree.matching pre.chars) (limit.toNat + 1) ∧
    (limit = 0 → (tree.get pre.chars).isSome → (tree.matching pre.chars).length = 1)

/-- `Search` returns an initial segment with one entry over the limit at most exactly when it
stops in time. -/
theorem search_initial_iff (insertions : List Insertion) (pre : Word) {limit : Int}
    (nonnegative : 0 ≤ limit) :
    (∃ listed, (search (insertAll insertions) pre limit).Holds listed ∧
      listed.length ≤ limit + 1 ∧ listed <+: enumerated (insertAll insertions) pre) ↔
      StopsInTime (insertAll insertions) pre limit := by
  have collects := TernaryTree.collectsUnder (ordered_insertAll insertions) pre.first pre.rest
  have holds := (holds_resultInit limit).addAll
    ((insertAll insertions).collectedUnder pre.first pre.rest (limit + 1).toNat)
  rw [← search_eq, List.nil_append] at holds
  have own : (insertAll insertions).get pre.chars =
      (insertAll insertions).lookup pre.first pre.rest := by
    rw [pre.chars_eq]
    rfl
  have room : (limit + 1).toNat = limit.toNat + 1 := by omega
  have inTime := collects.inTime (limit.toNat + 1) (by omega)
  rw [← pre.chars_eq, ← own, ← room] at inTime
  have last : (limit + 1).toNat = 1 ↔ limit = 0 := by omega
  rw [StopsInTime, ← room, ← last, ← inTime]
  constructor
  · rintro ⟨listed, holds', fits, isPrefix⟩
    rw [holds'.unique holds] at fits isPrefix
    exact ⟨by omega, isPrefix⟩
  · rintro ⟨fits, isPrefix⟩
    exact ⟨_, holds, by omega, isPrefix⟩

theorem search_initial_few :
    (∃ listed, (search (insertAll fewInsertions) ⟨[97], by decide⟩ 1).Holds listed ∧
      listed.length ≤ (1 : Int) + 1 ∧
      listed <+: enumerated (insertAll fewInsertions) ⟨[97], by decide⟩) ↔
      StopsInTime (insertAll fewInsertions) ⟨[97], by decide⟩ 1 :=
  search_initial_iff fewInsertions ⟨[97], by decide⟩ (by decide)

/-- With the limit 0 the search for `a` lists `aa` and, when the call for `aa` has returned, also
`ab` above it. -/
theorem not_search_initial_above :
    (search (insertAll [⟨⟨[97, 98], by decide⟩, none⟩, ⟨⟨[97, 97], by decide⟩, none⟩])
        ⟨[97], by decide⟩ 0).Holds [⟨[97, 97], none⟩, ⟨[97, 98], none⟩] ∧
      ¬ ∃ listed,
        (search (insertAll [⟨⟨[97, 98], by decide⟩, none⟩, ⟨⟨[97, 97], by decide⟩, none⟩])
          ⟨[97], by decide⟩ 0).Holds listed ∧
        listed.length ≤ (0 : Int) + 1 ∧
        listed <+: enumerated
          (insertAll [⟨⟨[97, 98], by decide⟩, none⟩, ⟨⟨[97, 97], by decide⟩, none⟩])
          ⟨[97], by decide⟩ := by
  have appended : (insertAll [⟨⟨[97, 98], by decide⟩, none⟩,
      ⟨⟨[97, 97], by decide⟩, none⟩]).collectedUnder
        (Word.first ⟨[97], by decide⟩) (Word.rest ⟨[97], by decide⟩) ((0 : Int) + 1).toNat =
      [⟨[97, 97], none⟩, ⟨[97, 98], none⟩] := by decide +kernel
  have holds := (holds_resultInit 0).addAll [⟨[97, 97], none⟩, ⟨[97, 98], none⟩]
  refine ⟨by rw [search_eq, appended]; exact holds, ?_⟩
  rintro ⟨listed, holds', fits, -⟩
  rw [search_eq, appended] at holds'
  rw [holds'.unique holds] at fits
  exact absurd fits (by decide)

end Mevent.Tst
