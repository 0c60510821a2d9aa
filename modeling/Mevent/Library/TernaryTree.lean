import Mathlib.Order.Lattice
import Mathlib.Data.List.Basic

/-!
# Ternary search trees

A tree stores data under words that are not empty.  Each node compares one key of a word:
smaller and greater keys lead to the nodes beside it, the same key leads on to the next
key of the word.  Data that is stored already is kept.

A search follows one word and remembers the data that it passes last, which belongs to the
longest stored prefix of the word.
-/

namespace Mevent.Library

universe u v

/-- A node of the tree, or none. -/
inductive TernaryTree (Key : Type u) (Data : Type v) where
  | null
  | node (c : Key) (left center right : TernaryTree Key Data) (data : Option Data)
  deriving DecidableEq, Repr

namespace TernaryTree

variable {Key : Type u} {Data : Type v}

/-- New nodes for a word, given by its first key and the others. -/
def chain (data : Data) : Key → List Key → TernaryTree Key Data
  | key, [] => .node key .null .null .null (some data)
  | key, next :: rest => .node key .null (chain data next rest) .null none

variable [LinearOrder Key]

/-- Store data under a word, unless the word has data already. -/
def insert (data : Data) : TernaryTree Key Data → Key → List Key → TernaryTree Key Data
  | .null, key, rest => chain data key rest
  | .node c left center right stored, key, rest =>
      if key < c then
        .node c (insert data left key rest) center right stored
      else if c < key then
        .node c left center (insert data right key rest) stored
      else
        match rest with
        | [] => .node c left center right (stored.or (some data))
        | next :: rest => .node c left (insert data center next rest) right stored

/-- Follow a word; the data of every node that matches a key replaces what has been found
before. -/
def search : TernaryTree Key Data → Key → List Key → (found : Data) → Data
  | .null, _, _, found => found
  | .node c left center right stored, key, rest, found =>
      if key < c then
        search left key rest found
      else if c < key then
        search right key rest found
      else
        match rest with
        | [] => stored.getD found
        | next :: rest => search center next rest (stored.getD found)

def lookup : TernaryTree Key Data → Key → List Key → Option Data
  | .null, _, _ => none
  | .node c left center right stored, key, rest =>
      if key < c then
        lookup left key rest
      else if c < key then
        lookup right key rest
      else
        match rest with
        | [] => stored
        | next :: rest => lookup center next rest

def get (tree : TernaryTree Key Data) : List Key → Option Data
  | [] => none
  | key :: rest => tree.lookup key rest

section Node

variable (left center right : TernaryTree Key Data) (stored : Option Data)

theorem lookup_of_lt {key c : Key} (less : key < c) (rest : List Key) :
    (node c left center right stored).lookup key rest = left.lookup key rest := by
  rw [lookup.eq_def]
  exact if_pos less

theorem lookup_of_gt {key c : Key} (greater : c < key) (rest : List Key) :
    (node c left center right stored).lookup key rest = right.lookup key rest := by
  rw [lookup.eq_def]
  exact (if_neg (not_lt_of_gt greater)).trans (if_pos greater)

@[simp]
theorem lookup_self (c : Key) (rest : List Key) :
    (node c left center right stored).lookup c rest =
      match rest with
      | [] => stored
      | next :: rest => center.lookup next rest := by
  rw [lookup.eq_def]
  exact (if_neg (lt_irrefl c)).trans (if_neg (lt_irrefl c))

theorem insert_of_lt (data : Data) {key c : Key} (less : key < c) (rest : List Key) :
    (node c left center right stored).insert data key rest =
      node c (left.insert data key rest) center right stored := by
  rw [insert.eq_def]
  exact if_pos less

theorem insert_of_gt (data : Data) {key c : Key} (greater : c < key) (rest : List Key) :
    (node c left center right stored).insert data key rest =
      node c left center (right.insert data key rest) stored := by
  rw [insert.eq_def]
  exact (if_neg (not_lt_of_gt greater)).trans (if_pos greater)

@[simp]
theorem insert_self (data : Data) (c : Key) (rest : List Key) :
    (node c left center right stored).insert data c rest =
      match rest with
      | [] => node c left center right (stored.or (some data))
      | next :: rest => node c left (center.insert data next rest) right stored := by
  rw [insert.eq_def]
  exact (if_neg (lt_irrefl c)).trans (if_neg (lt_irrefl c))

theorem search_of_lt {key c : Key} (less : key < c) (rest : List Key) (found : Data) :
    (node c left center right stored).search key rest found = left.search key rest found := by
  rw [search.eq_def]
  exact if_pos less

theorem search_of_gt {key c : Key} (greater : c < key) (rest : List Key) (found : Data) :
    (node c left center right stored).search key rest found = right.search key rest found := by
  rw [search.eq_def]
  exact (if_neg (not_lt_of_gt greater)).trans (if_pos greater)

@[simp]
theorem search_self (c : Key) (rest : List Key) (found : Data) :
    (node c left center right stored).search c rest found =
      match rest with
      | [] => stored.getD found
      | next :: rest => center.search next rest (stored.getD found) := by
  rw [search.eq_def]
  exact (if_neg (lt_irrefl c)).trans (if_neg (lt_irrefl c))

end Node

theorem lookup_chain_of_ne (data : Data) {key other : Key} (rest otherRest : List Key)
    (different : other ≠ key) : (chain data key rest).lookup other otherRest = none := by
  unfold chain
  split
  next =>
    rcases lt_or_gt_of_ne different with less | greater
    · exact lookup_of_lt _ _ _ _ less otherRest
    · exact lookup_of_gt _ _ _ _ greater otherRest
  next =>
    rcases lt_or_gt_of_ne different with less | greater
    · exact lookup_of_lt _ _ _ _ less otherRest
    · exact lookup_of_gt _ _ _ _ greater otherRest

theorem lookup_chain (data : Data) (key other : Key) (rest otherRest : List Key) :
    (chain data key rest).lookup other otherRest =
      if other :: otherRest = key :: rest then some data else none := by
  induction rest generalizing key other otherRest with
  | nil =>
      by_cases same : other = key
      · subst same
        rw [chain, lookup_self]
        cases otherRest with
        | nil => simp
        | cons next otherRest => simp [lookup]
      · rw [lookup_chain_of_ne _ _ _ same, if_neg (by simp [same])]
  | cons next rest inductionHypothesis =>
      by_cases same : other = key
      · subst same
        rw [chain, lookup_self]
        cases otherRest with
        | nil => simp
        | cons otherNext otherRest => simp [inductionHypothesis]
      · rw [lookup_chain_of_ne _ _ _ same, if_neg (by simp [same])]

/-- An insertion concerns one word, and keeps the data that the word has. -/
theorem lookup_insert (tree : TernaryTree Key Data) (data : Data) (key other : Key)
    (rest otherRest : List Key) :
    (tree.insert data key rest).lookup other otherRest =
      if other :: otherRest = key :: rest then
        (tree.lookup key rest).or (some data)
      else
        tree.lookup other otherRest := by
  induction tree generalizing key other rest otherRest with
  | null =>
      rw [insert, lookup_chain]
      rfl
  | node c left center right stored leftHypothesis centerHypothesis rightHypothesis =>
      rcases lt_trichotomy key c with less | rfl | greater
      · rw [insert_of_lt _ _ _ _ _ less, lookup_of_lt _ _ _ _ less]
        rcases lt_trichotomy other c with otherLess | rfl | otherGreater
        · rw [lookup_of_lt _ _ _ _ otherLess, lookup_of_lt _ _ _ _ otherLess]
          exact leftHypothesis key other rest otherRest
        · rw [lookup_self, lookup_self, if_neg (by simp [less.ne'])]
        · rw [lookup_of_gt _ _ _ _ otherGreater, lookup_of_gt _ _ _ _ otherGreater]
          rw [if_neg (by simp [(less.trans otherGreater).ne'])]
      · rw [insert_self]
        rcases lt_trichotomy other key with otherLess | rfl | otherGreater
        · rw [if_neg (by simp [otherLess.ne]), lookup_of_lt _ _ _ _ otherLess]
          cases rest with
          | nil => exact lookup_of_lt _ _ _ _ otherLess _
          | cons next rest => exact lookup_of_lt _ _ _ _ otherLess _
        · cases rest with
          | nil =>
              cases otherRest with
              | nil => simp
              | cons otherNext otherRest => simp
          | cons next rest =>
              cases otherRest with
              | nil => simp
              | cons otherNext otherRest => simp [centerHypothesis]
        · rw [if_neg (by simp [otherGreater.ne']), lookup_of_gt _ _ _ _ otherGreater]
          cases rest with
          | nil => exact lookup_of_gt _ _ _ _ otherGreater _
          | cons next rest => exact lookup_of_gt _ _ _ _ otherGreater _
      · rw [insert_of_gt _ _ _ _ _ greater, lookup_of_gt _ _ _ _ greater]
        rcases lt_trichotomy other c with otherLess | rfl | otherGreater
        · rw [lookup_of_lt _ _ _ _ otherLess, lookup_of_lt _ _ _ _ otherLess]
          rw [if_neg (by simp [(otherLess.trans greater).ne])]
        · rw [lookup_self, lookup_self, if_neg (by simp [greater.ne])]
        · rw [lookup_of_gt _ _ _ _ otherGreater, lookup_of_gt _ _ _ _ otherGreater]
          exact rightHypothesis key other rest otherRest

theorem get_insert (tree : TernaryTree Key Data) (data : Data) (key : Key)
    (rest word : List Key) :
    (tree.insert data key rest).get word =
      if word = key :: rest then (tree.get word).or (some data) else tree.get word := by
  cases word with
  | nil => simp [get]
  | cons other otherRest =>
      rw [get, lookup_insert]
      split
      next same =>
        rw [same]
        rfl
      next => rfl

end TernaryTree

/-- The longest prefix of a word under which something is stored. -/
structure LongestPrefix {Key : Type u} (stored : List Key → Prop) (word pre : List Key) :
    Prop where
  isPrefix : pre <+: word
  isStored : stored pre
  longest : ∀ other, other <+: word → stored other → other <+: pre

theorem LongestPrefix.unique {Key : Type u} {stored : List Key → Prop}
    {word first second : List Key} (firstLongest : LongestPrefix stored word first)
    (secondLongest : LongestPrefix stored word second) : first = second := by
  have forth := secondLongest.longest first firstLongest.isPrefix firstLongest.isStored
  have back := firstLongest.longest second secondLongest.isPrefix secondLongest.isStored
  exact forth.eq_of_length (Nat.le_antisymm forth.length_le back.length_le)

namespace TernaryTree

variable {Key : Type u} {Data : Type v} [LinearOrder Key]

/-- What a search returns: the data of the longest stored prefix, or what it was given
when there is none. -/
def Finds (tree : TernaryTree Key Data) (word : List Key) (found result : Data) : Prop :=
  (∃ pre, LongestPrefix (fun other => (tree.get other).isSome) word pre ∧
    tree.get pre = some result) ∨
  (∀ pre, pre <+: word → tree.get pre = none) ∧ result = found

theorem Finds.congr {tree other : TernaryTree Key Data} {word : List Key}
    {found result : Data} (finds : tree.Finds word found result)
    (same : ∀ pre, pre <+: word → other.get pre = tree.get pre) :
    other.Finds word found result := by
  rcases finds with ⟨pre, longest, stored⟩ | ⟨nothing, kept⟩
  · refine .inl ⟨pre, ⟨longest.isPrefix, ?_, ?_⟩, ?_⟩
    · simp [same pre longest.isPrefix, stored]
    · intro shorter isPrefix isStored
      rw [same shorter isPrefix] at isStored
      exact longest.longest shorter isPrefix isStored
    · rw [same pre longest.isPrefix, stored]
  · refine .inr ⟨?_, kept⟩
    intro pre isPrefix
    rw [same pre isPrefix]
    exact nothing pre isPrefix

theorem finds_node {tree : TernaryTree Key Data} {key : Key} {rest : List Key}
    {stored : Option Data} (at_key : tree.get [key] = stored)
    (nothing : ∀ next behind, next :: behind <+: rest → tree.get (key :: next :: behind) = none)
    (found : Data) : tree.Finds (key :: rest) found (stored.getD found) := by
  have only : ∀ pre, pre <+: key :: rest → tree.get pre ≠ none → pre = [key] := by
    intro pre isPrefix isStored
    rcases List.prefix_cons_iff.mp isPrefix with rfl | ⟨behind, rfl, isBehind⟩
    · exact absurd rfl isStored
    · cases behind with
      | nil => rfl
      | cons next behind => exact absurd (nothing next behind isBehind) isStored
  cases stored with
  | none =>
      refine .inr ⟨?_, rfl⟩
      intro pre isPrefix
      by_contra isStored
      rw [only pre isPrefix isStored] at isStored
      exact isStored at_key
  | some data =>
      refine .inl ⟨[key], ⟨?_, ?_, ?_⟩, at_key⟩
      · exact List.prefix_cons_iff.mpr (.inr ⟨[], rfl, List.nil_prefix⟩)
      · simp [at_key]
      · intro other isPrefix isStored
        have same := only other isPrefix (Option.isSome_iff_ne_none.mp isStored)
        subst same
        exact List.prefix_rfl

/-- A search finds the data of the longest stored prefix. -/
theorem finds_search (tree : TernaryTree Key Data) (key : Key) (rest : List Key)
    (found : Data) : tree.Finds (key :: rest) found (tree.search key rest found) := by
  induction tree generalizing key rest found with
  | null =>
      refine .inr ⟨?_, rfl⟩
      intro pre _
      cases pre with
      | nil => rfl
      | cons other behind => rfl
  | node c left center right stored leftHypothesis centerHypothesis rightHypothesis =>
      rcases lt_trichotomy key c with less | rfl | greater
      · rw [search_of_lt _ _ _ _ less]
        apply (leftHypothesis key rest found).congr
        intro pre isPrefix
        rcases List.prefix_cons_iff.mp isPrefix with rfl | ⟨behind, rfl, -⟩
        · rfl
        · exact lookup_of_lt _ _ _ _ less behind
      · rw [search_self]
        have at_key : (node key left center right stored).get [key] = stored :=
          lookup_self left center right stored key []
        have behind_key : ∀ next behind,
            (node key left center right stored).get (key :: next :: behind) =
              center.get (next :: behind) :=
          fun next behind => lookup_self left center right stored key (next :: behind)
        cases rest with
        | nil =>
            apply finds_node at_key
            intro next behind isPrefix
            cases List.prefix_nil.mp isPrefix
        | cons next rest =>
            rcases centerHypothesis next rest (stored.getD found) with
              ⟨pre, longest, isStored⟩ | ⟨nothing, kept⟩
            · left
              cases pre with
              | nil => cases isStored
              | cons first behind =>
                  refine ⟨key :: first :: behind, ⟨?_, ?_, ?_⟩, ?_⟩
                  · exact (List.prefix_cons_inj key).mpr longest.isPrefix
                  · rw [behind_key]
                    exact longest.isStored
                  · intro other isPrefix otherStored
                    rcases List.prefix_cons_iff.mp isPrefix with rfl | ⟨tail, rfl, isTail⟩
                    · exact List.nil_prefix
                    · apply (List.prefix_cons_inj key).mpr
                      cases tail with
                      | nil => exact List.nil_prefix
                      | cons second tail =>
                          rw [behind_key] at otherStored
                          exact longest.longest _ isTail otherStored
                  · rw [behind_key, isStored]
            · simp only [kept]
              apply finds_node at_key
              intro other behind isPrefix
              rw [behind_key]
              exact nothing _ isPrefix
      · rw [search_of_gt _ _ _ _ greater]
        apply (rightHypothesis key rest found).congr
        intro pre isPrefix
        rcases List.prefix_cons_iff.mp isPrefix with rfl | ⟨behind, rfl, -⟩
        · rfl
        · exact lookup_of_gt _ _ _ _ greater behind

end TernaryTree

end Mevent.Library
