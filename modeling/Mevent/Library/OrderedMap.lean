import Mathlib.Data.List.Basic

/-!
Finite maps kept as association lists with increasing keys, the order in which a
`std::map` is traversed.
-/

namespace Mevent.Library

universe u v

/-- A finite map, listed in the order of its keys. -/
abbrev OrderedMap (Key : Type u) (Value : Type v) := List (Key × Value)

namespace OrderedMap

variable {Key : Type u} {Value : Type v} [DecidableEq Key] [LT Key] [DecidableLT Key]

def find? (map : OrderedMap Key Value) (key : Key) : Option Value :=
  match map with
  | [] => none
  | (other, value) :: rest => if key = other then some value else find? rest key

/-- Store a value under a key, replacing an earlier one. -/
def insert (map : OrderedMap Key Value) (key : Key) (value : Value) :
    OrderedMap Key Value :=
  match map with
  | [] => [(key, value)]
  | (other, stored) :: rest =>
      if key = other then (key, value) :: rest
      else if key < other then (key, value) :: (other, stored) :: rest
      else (other, stored) :: insert rest key value

def erase (map : OrderedMap Key Value) (key : Key) : OrderedMap Key Value :=
  match map with
  | [] => []
  | (other, stored) :: rest =>
      if key = other then rest else (other, stored) :: erase rest key

def Increasing (map : OrderedMap Key Value) : Prop :=
  map.Pairwise fun first second => first.1 < second.1

theorem mem_insert {map : OrderedMap Key Value} {key : Key} {value : Value}
    {entry : Key × Value} (member : entry ∈ map.insert key value) :
    entry = (key, value) ∨ entry ∈ map := by
  induction map with
  | nil => simpa [insert] using member
  | cons head rest inductionHypothesis =>
      obtain ⟨other, stored⟩ := head
      rw [insert] at member
      split at member
      next =>
        rcases List.mem_cons.mp member with new | old
        · exact .inl new
        · exact .inr (List.mem_cons_of_mem _ old)
      next =>
        split at member
        next =>
          rcases List.mem_cons.mp member with new | old
          · exact .inl new
          · exact .inr old
        next =>
          rcases List.mem_cons.mp member with first | later
          · exact .inr (first ▸ List.mem_cons_self)
          · exact (inductionHypothesis later).imp_right (List.mem_cons_of_mem _)

omit [LT Key] [DecidableLT Key] in
theorem mem_of_mem_erase {map : OrderedMap Key Value} {key : Key} {entry : Key × Value}
    (member : entry ∈ map.erase key) : entry ∈ map := by
  induction map with
  | nil => exact member
  | cons head rest inductionHypothesis =>
      rw [erase] at member
      split at member
      · exact List.mem_cons_of_mem _ member
      · rcases List.mem_cons.mp member with first | later
        · exact first ▸ List.mem_cons_self
        · exact List.mem_cons_of_mem _ (inductionHypothesis later)

/-- What is stored under every key after a store. -/
theorem find?_insert (map : OrderedMap Key Value) (key other : Key) (value : Value) :
    (map.insert key value).find? other = if other = key then some value else map.find? other := by
  induction map with
  | nil => rfl
  | cons head rest inductionHypothesis =>
      obtain ⟨stored, earlier⟩ := head
      rw [insert]
      split
      next same =>
        subst same
        by_cases asked : other = key <;> simp [find?, asked]
      next different =>
        split
        next => rfl
        next =>
          rw [find?, find?, inductionHypothesis]
          by_cases asked : other = stored
          · subst asked
            simp [Ne.symm different]
          · simp [asked]

omit [LT Key] [DecidableLT Key] in
/-- The value of the last entry with a key. -/
def lastOf (entries : List (Key × Value)) (key : Key) : Option Value :=
  (entries.reverse.find? (·.1 = key)).map Prod.snd

omit [LT Key] [DecidableLT Key] in
theorem lastOf_append (entries later : List (Key × Value)) (key : Key) :
    lastOf (entries ++ later) key = (lastOf later key).or (lastOf entries key) := by
  unfold lastOf
  rw [List.reverse_append, List.find?_append, Option.map_or]

omit [LT Key] [DecidableLT Key] in
theorem lastOf_eq_none {entries : List (Key × Value)} {key : Key}
    (absent : key ∉ entries.map Prod.fst) : lastOf entries key = none := by
  rw [lastOf, Option.map_eq_none_iff, List.find?_eq_none]
  intro entry among same
  rw [List.mem_reverse] at among
  exact absent (List.mem_map.mpr ⟨entry, among, of_decide_eq_true same⟩)

omit [LT Key] [DecidableLT Key] in
theorem lastOf_of_mem {entries : List (Key × Value)} {entry : Key × Value}
    (distinct : (entries.map Prod.fst).Nodup) (member : entry ∈ entries) :
    lastOf entries entry.1 = some entry.2 := by
  induction entries with
  | nil => cases member
  | cons head rest inductionHypothesis =>
      obtain ⟨fresh, later⟩ := List.nodup_cons.mp distinct
      have split : head :: rest = [head] ++ rest := rfl
      rw [split, lastOf_append]
      rcases List.mem_cons.mp member with rfl | behind
      · rw [lastOf_eq_none fresh]
        simp [lastOf]
      · rw [inductionHypothesis later behind, Option.some_or]

omit [LT Key] [DecidableLT Key] in
theorem mem_of_lastOf {entries : List (Key × Value)} {key : Key} {value : Value}
    (last : lastOf entries key = some value) : (key, value) ∈ entries := by
  obtain ⟨entry, found, same⟩ := Option.map_eq_some_iff.mp last
  have asked : entry.1 = key := by simpa using List.find?_some found
  have named : entry = (key, value) := Prod.ext asked same
  exact named ▸ List.mem_reverse.mp (List.mem_of_find?_eq_some found)

omit [LT Key] [DecidableLT Key] in
theorem lastOf_map (change : Value → Value) (entries : List (Key × Value)) (key : Key) :
    lastOf (entries.map fun entry => (entry.1, change entry.2)) key =
      (lastOf entries key).map change := by
  have asked : ((fun entry => decide (entry.1 = key)) ∘ fun entry : Key × Value =>
      (entry.1, change entry.2)) = fun entry => decide (entry.1 = key) := rfl
  rw [lastOf, lastOf, ← List.map_reverse, List.find?_map, asked, Option.map_map, Option.map_map]
  rfl

omit [LT Key] [DecidableLT Key] in
theorem lastOf_filter_of_lastOf {entries : List (Key × Value)} {key : Key} {value : Value}
    (last : lastOf entries key = some value) {keep : Key × Value → Bool}
    (kept : keep (key, value)) : lastOf (entries.filter keep) key = some value := by
  obtain ⟨entry, found, same⟩ := Option.map_eq_some_iff.mp last
  obtain ⟨asked, before, behind, parts, others⟩ := List.find?_eq_some_iff_append.mp found
  have named : entry = (key, value) := Prod.ext (of_decide_eq_true asked) same
  subst named
  have still : (entries.filter keep).reverse.find? (·.1 = key) = some (key, value) := by
    rw [← List.filter_reverse, parts, List.filter_append, List.filter_cons_of_pos kept]
    apply List.find?_eq_some_iff_append.mpr
    refine ⟨asked, _, _, rfl, ?_⟩
    intro other member
    exact others other (List.mem_filter.mp member).1
  rw [lastOf, still]
  rfl

omit [LT Key] [DecidableLT Key] in
theorem lastOf_filter_eq_none {entries : List (Key × Value)} {key : Key}
    (missing : lastOf entries key = none) (keep : Key × Value → Bool) :
    lastOf (entries.filter keep) key = none := by
  rw [lastOf, Option.map_eq_none_iff, List.find?_eq_none] at missing ⊢
  intro entry member
  rw [← List.filter_reverse] at member
  exact missing entry (List.mem_filter.mp member).1

/-- Entries that are stored one after the other leave the last one of every key. -/
theorem find?_foldl_insert (entries : List (Key × Value)) (map : OrderedMap Key Value)
    (key : Key) :
    (entries.foldl (fun map entry => map.insert entry.1 entry.2) map).find? key =
      (lastOf entries key).or (map.find? key) := by
  induction entries generalizing map with
  | nil => rfl
  | cons entry rest inductionHypothesis =>
      have split : entry :: rest = [entry] ++ rest := rfl
      rw [List.foldl_cons, inductionHypothesis, find?_insert, split, lastOf_append,
        Option.or_assoc]
      congr 1
      by_cases same : entry.1 = key
      · simp [lastOf, same]
      · simp [lastOf, same, Ne.symm same]

theorem mem_foldl_insert {entries : List (Key × Value)} {map : OrderedMap Key Value}
    {entry : Key × Value}
    (member : entry ∈ entries.foldl (fun map entry => map.insert entry.1 entry.2) map) :
    entry ∈ map ∨ entry ∈ entries := by
  induction entries generalizing map with
  | nil => exact .inl member
  | cons head rest inductionHypothesis =>
      rcases inductionHypothesis member with stored | later
      · rcases mem_insert stored with rfl | old
        · exact .inr List.mem_cons_self
        · exact .inl old
      · exact .inr (List.mem_cons_of_mem _ later)

section Order

variable [IsTrans Key (· < ·)]

theorem Increasing.insert [@Std.Trichotomous Key (· < ·)] {map : OrderedMap Key Value}
    (increasing : Increasing map) (key : Key) (value : Value) :
    Increasing (map.insert key value) := by
  induction map with
  | nil => exact List.pairwise_singleton _ _
  | cons head rest inductionHypothesis =>
      obtain ⟨other, stored⟩ := head
      obtain ⟨below, sorted⟩ := List.pairwise_cons.mp increasing
      rw [OrderedMap.insert]
      split
      next same =>
        subst same
        exact List.pairwise_cons.mpr ⟨below, sorted⟩
      next different =>
        split
        next less =>
          refine List.pairwise_cons.mpr ⟨?_, increasing⟩
          intro entry member
          rcases List.mem_cons.mp member with rfl | later
          · exact less
          · exact Trans.trans less (below entry later)
        next notLess =>
          refine List.pairwise_cons.mpr ⟨?_, inductionHypothesis sorted⟩
          intro entry member
          rcases mem_insert member with rfl | later
          · by_contra notGreater
            exact different (Std.Trichotomous.trichotomous key other notLess notGreater)
          · exact below entry later

end Order

section Extensionality

omit [LT Key] [DecidableLT Key] in
theorem find?_of_absent {map : OrderedMap Key Value} {key : Key}
    (absent : ∀ entry ∈ map, entry.1 ≠ key) : map.find? key = none := by
  induction map with
  | nil => rfl
  | cons head rest inductionHypothesis =>
      obtain ⟨different, later⟩ := List.forall_mem_cons.mp absent
      rw [find?, if_neg (Ne.symm different), inductionHypothesis later]

variable [@Std.Irrefl Key (· < ·)] [IsTrans Key (· < ·)]

omit [DecidableLT Key] in
theorem Increasing.find?_of_below {head : Key × Value} {rest : OrderedMap Key Value}
    (increasing : Increasing (head :: rest)) {key : Key} (below : key < head.1) :
    find? (head :: rest) key = none := by
  apply find?_of_absent
  rintro entry member rfl
  rcases List.mem_cons.mp member with rfl | later
  · exact Std.Irrefl.irrefl _ below
  · exact Std.Irrefl.irrefl _ (Trans.trans below ((List.pairwise_cons.mp increasing).1 _ later))

omit [IsTrans Key (· < ·)] [DecidableLT Key] in
theorem Increasing.find?_rest {head : Key × Value} {rest : OrderedMap Key Value}
    (increasing : Increasing (head :: rest)) (key : Key) :
    rest.find? key = if key = head.1 then none else find? (head :: rest) key := by
  split
  next same =>
    subst same
    apply find?_of_absent
    rintro entry member same
    have above := (List.pairwise_cons.mp increasing).1 entry member
    rw [same] at above
    exact Std.Irrefl.irrefl _ above
  next different => rw [find?, if_neg different]

omit [DecidableLT Key] in
/-- Maps with the same value under every key are the same. -/
theorem Increasing.ext [@Std.Trichotomous Key (· < ·)] {first second : OrderedMap Key Value}
    (increasing : Increasing first) (increasing' : Increasing second)
    (same : ∀ key, first.find? key = second.find? key) : first = second := by
  induction first generalizing second with
  | nil =>
      cases second with
      | nil => rfl
      | cons head rest =>
          have found := same head.1
          rw [find?, find?, if_pos rfl] at found
          cases found
  | cons head rest inductionHypothesis =>
      cases second with
      | nil =>
          have found := same head.1
          rw [find?, find?, if_pos rfl] at found
          cases found
      | cons head' rest' =>
          have keys : head.1 = head'.1 := by
            apply Std.Trichotomous.trichotomous (r := (· < ·))
            · intro below
              have found := same head.1
              rw [increasing'.find?_of_below below, find?, if_pos rfl] at found
              cases found
            · intro below
              have found := same head'.1
              rw [increasing.find?_of_below below, find?, if_pos rfl] at found
              cases found
          have values : head.2 = head'.2 := by
            have found := same head.1
            rw [find?, find?, if_pos rfl, if_pos keys] at found
            exact Option.some.inj found
          have rests : rest = rest' := by
            apply inductionHypothesis (List.pairwise_cons.mp increasing).2
              (List.pairwise_cons.mp increasing').2
            intro key
            rw [increasing.find?_rest, increasing'.find?_rest, same key, keys]
          rw [Prod.ext keys values, rests]

end Extensionality

omit [DecidableLT Key] in
theorem Increasing.erase {map : OrderedMap Key Value} (increasing : Increasing map)
    (key : Key) : Increasing (map.erase key) := by
  induction map with
  | nil => exact increasing
  | cons head rest inductionHypothesis =>
      obtain ⟨below, sorted⟩ := List.pairwise_cons.mp increasing
      rw [OrderedMap.erase]
      split
      · exact sorted
      · refine List.pairwise_cons.mpr ⟨?_, inductionHypothesis sorted⟩
        intro entry member
        exact below entry (mem_of_mem_erase member)

/-- The entries of a map of lists, one for each value. -/
def pairs (map : OrderedMap Key (List Value)) : List (Key × Value) :=
  map.flatMap fun entry => entry.2.map (Prod.mk entry.1)

section Pairs

variable {map : OrderedMap Key (List Value)}

omit [DecidableEq Key] [LT Key] [DecidableLT Key] in
@[simp]
theorem pairs_cons (entry : Key × List Value) (rest : OrderedMap Key (List Value)) :
    pairs (entry :: rest) = entry.2.map (Prod.mk entry.1) ++ pairs rest := rfl

omit [DecidableEq Key] [LT Key] [DecidableLT Key] in
theorem mem_pairs_iff (pair : Key × Value) :
    pair ∈ pairs map ↔ ∃ values, (pair.1, values) ∈ map ∧ pair.2 ∈ values := by
  simp only [pairs, List.mem_flatMap, List.mem_map]
  constructor
  · rintro ⟨⟨key, values⟩, listed, value, member, rfl⟩
    exact ⟨values, listed, member⟩
  · rintro ⟨values, listed, member⟩
    exact ⟨(pair.1, values), listed, pair.2, member, rfl⟩

omit [LT Key] [DecidableLT Key] in
theorem filter_pairs_of_absent {key : Key} (absent : ∀ entry ∈ map, entry.1 ≠ key) :
    (pairs map).filter (·.1 ≠ key) = pairs map ∧ (pairs map).filter (·.1 = key) = [] := by
  have different : ∀ pair ∈ pairs map, pair.1 ≠ key := by
    intro pair member
    obtain ⟨values, listed, -⟩ := (mem_pairs_iff pair).mp member
    exact absent (pair.1, values) listed
  refine ⟨List.filter_eq_self.mpr ?_, List.filter_eq_nil_iff.mpr ?_⟩
  · intro pair member
    simpa using different pair member
  · intro pair member
    simpa using different pair member

omit [LT Key] [DecidableLT Key] in
theorem filter_map_self (key : Key) (values : List Value) :
    (values.map (Prod.mk key)).filter (·.1 ≠ key) = [] ∧
      (values.map (Prod.mk key)).filter (·.1 = key) = values.map (Prod.mk key) := by
  simp [List.filter_map, Function.comp_def]

omit [LT Key] [DecidableLT Key] in
theorem filter_map_other {key other : Key} (different : other ≠ key) (values : List Value) :
    (values.map (Prod.mk other)).filter (·.1 ≠ key) = values.map (Prod.mk other) ∧
      (values.map (Prod.mk other)).filter (·.1 = key) = [] := by
  simp [List.filter_map, different, Function.comp_def]

omit [DecidableEq Key] [DecidableLT Key] in
theorem absent_of_below [@Std.Irrefl Key (· < ·)] {key : Key}
    (below : ∀ entry ∈ map, key < entry.1) : ∀ entry ∈ map, entry.1 ≠ key := by
  rintro entry member rfl
  exact Std.Irrefl.irrefl _ (below entry member)

omit [DecidableLT Key] in
theorem pairs_erase [@Std.Irrefl Key (· < ·)] (increasing : Increasing map) (key : Key) :
    pairs (map.erase key) = (pairs map).filter (·.1 ≠ key) := by
  induction map with
  | nil => rfl
  | cons head rest inductionHypothesis =>
      obtain ⟨other, values⟩ := head
      obtain ⟨below, sorted⟩ := List.pairwise_cons.mp increasing
      rw [erase, pairs_cons, List.filter_append]
      split
      next same =>
        subst same
        rw [(filter_map_self key values).1, (filter_pairs_of_absent (absent_of_below below)).1]
        rfl
      next different =>
        rw [(filter_map_other (Ne.symm different) values).1, pairs_cons,
          inductionHypothesis sorted]

omit [DecidableLT Key] in
theorem filter_pairs_eq [@Std.Irrefl Key (· < ·)] (increasing : Increasing map) (key : Key) :
    (pairs map).filter (·.1 = key) = ((map.find? key).getD []).map (Prod.mk key) := by
  induction map with
  | nil => rfl
  | cons head rest inductionHypothesis =>
      obtain ⟨other, values⟩ := head
      obtain ⟨below, sorted⟩ := List.pairwise_cons.mp increasing
      rw [find?, pairs_cons, List.filter_append]
      split
      next same =>
        subst same
        rw [(filter_map_self key values).2, (filter_pairs_of_absent (absent_of_below below)).2]
        simp
      next different =>
        rw [(filter_map_other (Ne.symm different) values).2, inductionHypothesis sorted]
        rfl

omit [LT Key] [DecidableLT Key] in
theorem mem_of_find? {key : Key} {values : List Value} (found : map.find? key = some values) :
    (key, values) ∈ map := by
  induction map with
  | nil => cases found
  | cons head rest inductionHypothesis =>
      rw [find?] at found
      split at found
      next same =>
        cases found
        rw [same]
        exact List.mem_cons_self
      next => exact List.mem_cons_of_mem _ (inductionHypothesis found)

omit [DecidableLT Key] in
theorem find?_eq_none_iff [@Std.Irrefl Key (· < ·)] (increasing : Increasing map)
    (nonempty : ∀ entry ∈ map, entry.2 ≠ []) (key : Key) :
    map.find? key = none ↔ ∀ pair ∈ pairs map, pair.1 ≠ key := by
  have values := filter_pairs_eq increasing key
  constructor
  · intro missing pair member same
    rw [missing, Option.getD_none, List.map_nil] at values
    exact List.filter_eq_nil_iff.mp values pair member (by simpa using same)
  · intro absent
    have nothing : (pairs map).filter (·.1 = key) = [] := by
      apply List.filter_eq_nil_iff.mpr
      intro pair member
      simpa using absent pair member
    cases found : map.find? key with
    | none => rfl
    | some stored =>
        rw [nothing, found, Option.getD_some] at values
        exact absurd (List.map_eq_nil_iff.mp values.symm) (nonempty _ (mem_of_find? found))

theorem pairs_insert [IsTrans Key (· < ·)] [@Std.Irrefl Key (· < ·)]
    (increasing : Increasing map) (key : Key) (values : List Value) :
    (pairs (map.insert key values)).Perm
      ((pairs map).filter (·.1 ≠ key) ++ values.map (Prod.mk key)) := by
  induction map with
  | nil => simp [insert, pairs]
  | cons head rest inductionHypothesis =>
      obtain ⟨other, stored⟩ := head
      obtain ⟨below, sorted⟩ := List.pairwise_cons.mp increasing
      rw [insert]
      split
      next same =>
        subst same
        rw [pairs_cons, pairs_cons, List.filter_append, (filter_map_self key stored).1,
          (filter_pairs_of_absent (absent_of_below below)).1]
        exact List.perm_append_comm
      next different =>
        split
        next less =>
          have absent : ∀ entry ∈ (other, stored) :: rest, entry.1 ≠ key := by
            apply absent_of_below
            intro entry member
            rcases List.mem_cons.mp member with rfl | later
            · exact less
            · exact Trans.trans less (below entry later)
          rw [(filter_pairs_of_absent absent).1, pairs_cons (key, values)]
          exact List.perm_append_comm
        next =>
          rw [pairs_cons, pairs_cons, List.filter_append,
            (filter_map_other (Ne.symm different) stored).1, List.append_assoc]
          exact (inductionHypothesis sorted).append_left _

theorem pairs_insert_add [IsTrans Key (· < ·)] [@Std.Irrefl Key (· < ·)]
    (increasing : Increasing map) (key : Key) (value : Value) :
    (pairs (map.insert key ((map.find? key).getD [] ++ [value]))).Perm
      (pairs map ++ [(key, value)]) := by
  have inserted := pairs_insert increasing key ((map.find? key).getD [] ++ [value])
  rw [List.map_append, ← filter_pairs_eq increasing key, ← List.append_assoc] at inserted
  refine inserted.trans (List.Perm.append_right _ ?_)
  have parts := List.filter_append_perm (fun pair => decide (pair.1 = key)) (pairs map)
  simp only [← decide_not] at parts
  exact List.perm_append_comm.trans parts

end Pairs

end OrderedMap

end Mevent.Library
