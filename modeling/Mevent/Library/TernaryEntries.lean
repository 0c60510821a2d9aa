import Mevent.Library.TernaryTree

/-!
# The entries of a ternary search tree

The nodes that are reached through the links to either side compare the same key of a word;
in a tree that is ordered their keys increase from left to right.  The entries of such a tree
are met in the order of their words.
-/

namespace Mevent.Library.TernaryTree

universe u v
variable {Key : Type u} {Data : Type v}

/-- The keys that are compared with the first key of a word. -/
def level : TernaryTree Key Data → List Key
  | .null => []
  | .node c left _ right _ => level left ++ c :: level right

/-- The words of a tree with their data, from left to right. -/
def entries : TernaryTree Key Data → List (List Key × Data)
  | .null => []
  | .node c left center right stored =>
      entries left ++ stored.toList.map (Prod.mk [c]) ++
        (entries center).map (fun entry => (c :: entry.1, entry.2)) ++ entries right

@[simp]
theorem mem_level_node {key c : Key} {left center right : TernaryTree Key Data}
    {stored : Option Data} :
    key ∈ (node c left center right stored).level ↔
      key ∈ left.level ∨ key = c ∨ key ∈ right.level := by
  simp [level]

theorem mem_entries_node {word : List Key} {data : Data} {c : Key}
    {left center right : TernaryTree Key Data} {stored : Option Data} :
    (word, data) ∈ (node c left center right stored).entries ↔
      (word, data) ∈ left.entries ∨ (word = [c] ∧ stored = some data) ∨
        (∃ rest, word = c :: rest ∧ (rest, data) ∈ center.entries) ∨
          (word, data) ∈ right.entries := by
  simp only [entries, List.mem_append, List.mem_map, Option.mem_toList, Prod.mk.injEq,
    Prod.exists]
  constructor
  · rintro (((inLeft | ⟨value, isStored, same, rfl⟩) | ⟨rest, value, inside, same, rfl⟩) | inRight)
    · exact .inl inLeft
    · exact .inr (.inl ⟨same.symm, isStored⟩)
    · exact .inr (.inr (.inl ⟨rest, same.symm, inside⟩))
    · exact .inr (.inr (.inr inRight))
  · rintro (inLeft | ⟨same, isStored⟩ | ⟨rest, same, inside⟩ | inRight)
    · exact .inl (.inl (.inl inLeft))
    · exact .inl (.inl (.inr ⟨data, isStored, same.symm, rfl⟩))
    · exact .inl (.inr ⟨rest, data, inside, same.symm, rfl⟩)
    · exact .inr inRight

theorem exists_mem_level {tree : TernaryTree Key Data} {word : List Key} {data : Data}
    (listed : (word, data) ∈ tree.entries) :
    ∃ key rest, word = key :: rest ∧ key ∈ tree.level := by
  induction tree generalizing word with
  | null => cases listed
  | node c left center right stored leftHypothesis centerHypothesis rightHypothesis =>
      rcases mem_entries_node.mp listed with inLeft | ⟨rfl, -⟩ | ⟨rest, rfl, -⟩ | inRight
      · obtain ⟨key, rest, same, inside⟩ := leftHypothesis inLeft
        exact ⟨key, rest, same, mem_level_node.mpr (.inl inside)⟩
      · exact ⟨c, [], rfl, mem_level_node.mpr (.inr (.inl rfl))⟩
      · exact ⟨c, rest, rfl, mem_level_node.mpr (.inr (.inl rfl))⟩
      · obtain ⟨key, rest, same, inside⟩ := rightHypothesis inRight
        exact ⟨key, rest, same, mem_level_node.mpr (.inr (.inr inside))⟩

variable [LinearOrder Key]

/-- Keys increase along every level. -/
def Ordered : TernaryTree Key Data → Prop
  | .null => True
  | .node c left center right _ =>
      ((∀ key ∈ left.level, key < c) ∧ ∀ key ∈ right.level, c < key) ∧
        Ordered left ∧ Ordered center ∧ Ordered right

omit [LinearOrder Key] in
theorem mem_level_chain {key other : Key} {rest : List Key} {data : Data} :
    other ∈ (chain data key rest).level ↔ other = key := by
  cases rest <;> simp [chain, level]

theorem ordered_chain (data : Data) (key : Key) (rest : List Key) :
    (chain data key rest).Ordered := by
  induction rest generalizing key with
  | nil => simp [chain, Ordered, level]
  | cons next rest inductionHypothesis =>
      simp only [chain, Ordered, level, List.not_mem_nil, false_implies, implies_true, true_and,
        and_true]
      exact inductionHypothesis next

theorem mem_level_insert {tree : TernaryTree Key Data} {data : Data} {key other : Key}
    {rest : List Key} :
    other ∈ (tree.insert data key rest).level ↔ other = key ∨ other ∈ tree.level := by
  induction tree generalizing key rest with
  | null =>
      rw [insert, mem_level_chain]
      simp [level]
  | node c left center right stored leftHypothesis _ rightHypothesis =>
      rcases lt_trichotomy key c with less | rfl | greater
      · rw [insert_of_lt _ _ _ _ _ less, mem_level_node, leftHypothesis, mem_level_node, or_assoc]
      · have same : other ∈ ((node key left center right stored).insert data key rest).level ↔
            other ∈ (node key left center right stored).level := by
          rw [insert_self]
          cases rest <;> simp
        rw [same, mem_level_node]
        constructor
        · exact .inr
        · rintro (rfl | inside)
          · exact .inr (.inl rfl)
          · exact inside
      · rw [insert_of_gt _ _ _ _ _ greater, mem_level_node, rightHypothesis, mem_level_node]
        constructor
        · rintro (inLeft | same | same | inRight)
          · exact .inr (.inl inLeft)
          · exact .inr (.inr (.inl same))
          · exact .inl same
          · exact .inr (.inr (.inr inRight))
        · rintro (same | inLeft | same | inRight)
          · exact .inr (.inr (.inl same))
          · exact .inl inLeft
          · exact .inr (.inl same)
          · exact .inr (.inr (.inr inRight))

theorem Ordered.insert {tree : TernaryTree Key Data} (ordered : tree.Ordered) (data : Data)
    (key : Key) (rest : List Key) : (tree.insert data key rest).Ordered := by
  induction tree generalizing key rest with
  | null =>
      rw [TernaryTree.insert]
      exact ordered_chain data key rest
  | node c left center right stored leftHypothesis centerHypothesis rightHypothesis =>
      obtain ⟨⟨below, above⟩, inLeft, inCenter, inRight⟩ := ordered
      rcases lt_trichotomy key c with less | rfl | greater
      · rw [insert_of_lt _ _ _ _ _ less]
        refine ⟨⟨?_, above⟩, leftHypothesis inLeft key rest, inCenter, inRight⟩
        intro other member
        rcases mem_level_insert.mp member with rfl | old
        · exact less
        · exact below other old
      · rw [insert_self]
        cases rest with
        | nil => exact ⟨⟨below, above⟩, inLeft, inCenter, inRight⟩
        | cons next rest =>
            exact ⟨⟨below, above⟩, inLeft, centerHypothesis inCenter next rest, inRight⟩
      · rw [insert_of_gt _ _ _ _ _ greater]
        refine ⟨⟨below, ?_⟩, inLeft, inCenter, rightHypothesis inRight key rest⟩
        intro other member
        rcases mem_level_insert.mp member with rfl | old
        · exact greater
        · exact above other old

theorem lookup_eq_none {tree : TernaryTree Key Data} {key : Key} (absent : key ∉ tree.level)
    (rest : List Key) : tree.lookup key rest = none := by
  induction tree with
  | null => rfl
  | node c left center right stored leftHypothesis _ rightHypothesis =>
      simp only [mem_level_node, not_or] at absent
      obtain ⟨notLeft, different, notRight⟩ := absent
      rcases lt_or_gt_of_ne different with less | greater
      · rw [lookup_of_lt _ _ _ _ less, leftHypothesis notLeft]
      · rw [lookup_of_gt _ _ _ _ greater, rightHypothesis notRight]

/-- The entries of an ordered tree are what is stored in it. -/
theorem mem_entries_iff {tree : TernaryTree Key Data} (ordered : tree.Ordered)
    {word : List Key} {data : Data} :
    (word, data) ∈ tree.entries ↔ tree.get word = some data := by
  induction tree generalizing word with
  | null => cases word <;> simp [entries, get, lookup]
  | node c left center right stored leftHypothesis centerHypothesis rightHypothesis =>
      obtain ⟨⟨below, above⟩, inLeft, inCenter, inRight⟩ := ordered
      rw [mem_entries_node, leftHypothesis inLeft, rightHypothesis inRight]
      cases word with
      | nil => simp [get]
      | cons key rest =>
          simp only [get, List.cons.injEq, centerHypothesis inCenter]
          rcases lt_trichotomy key c with less | rfl | greater
          · have notRight : right.lookup key rest = none := by
              apply lookup_eq_none
              exact fun inside => lt_asymm less (above key inside)
            rw [lookup_of_lt _ _ _ _ less, notRight]
            simp [less.ne]
          · have notLeft : left.lookup key rest = none := by
              apply lookup_eq_none
              exact fun inside => lt_irrefl key (below key inside)
            have notRight : right.lookup key rest = none := by
              apply lookup_eq_none
              exact fun inside => lt_irrefl key (above key inside)
            rw [lookup_self, notLeft, notRight]
            cases rest with
            | nil => simp
            | cons next rest => simp
          · have notLeft : left.lookup key rest = none := by
              apply lookup_eq_none
              exact fun inside => lt_asymm greater (below key inside)
            rw [lookup_of_gt _ _ _ _ greater, notLeft]
            simp [greater.ne']

/-- The words of the entries increase. -/
theorem pairwise_entries {tree : TernaryTree Key Data} (ordered : tree.Ordered) :
    tree.entries.Pairwise fun first second => first.1 < second.1 := by
  induction tree with
  | null => exact List.Pairwise.nil
  | node c left center right stored leftHypothesis centerHypothesis rightHypothesis =>
      obtain ⟨⟨below, above⟩, inLeft, inCenter, inRight⟩ := ordered
      have own : (stored.toList.map (Prod.mk [c])).Pairwise
          fun first second => first.1 < second.1 := by
        cases stored <;> simp
      have inner : (center.entries.map fun entry => (c :: entry.1, entry.2)).Pairwise
          fun first second => first.1 < second.1 := by
        apply List.pairwise_map.mpr
        exact (centerHypothesis inCenter).imp fun less =>
          List.cons_lt_cons_iff.mpr (.inr ⟨rfl, less⟩)
      have smaller : ∀ entry ∈ left.entries, ∀ rest, entry.1 < c :: rest := by
        rintro ⟨word, data⟩ listed rest
        obtain ⟨key, behind, rfl, inside⟩ := exists_mem_level listed
        exact List.cons_lt_cons_iff.mpr (.inl (below key inside))
      have greater : ∀ entry ∈ right.entries, ∀ rest, c :: rest < entry.1 := by
        rintro ⟨word, data⟩ listed rest
        obtain ⟨key, behind, rfl, inside⟩ := exists_mem_level listed
        exact List.cons_lt_cons_iff.mpr (.inl (above key inside))
      rw [entries]
      refine List.pairwise_append.mpr ⟨List.pairwise_append.mpr
        ⟨List.pairwise_append.mpr ⟨leftHypothesis inLeft, own, ?_⟩, inner, ?_⟩,
          rightHypothesis inRight, ?_⟩
      · intro first isFirst second isSecond
        obtain ⟨data, -, rfl⟩ := List.mem_map.mp isSecond
        exact smaller first isFirst []
      · intro first isFirst second isSecond
        obtain ⟨⟨word, data⟩, listed, rfl⟩ := List.mem_map.mp isSecond
        rcases List.mem_append.mp isFirst with inLeft | isOwn
        · exact smaller first inLeft word
        · obtain ⟨value, -, rfl⟩ := List.mem_map.mp isOwn
          obtain ⟨key, behind, rfl, -⟩ := exists_mem_level listed
          exact List.cons_lt_cons_iff.mpr (.inr ⟨rfl, List.nil_lt_cons key behind⟩)
      · intro first isFirst second isSecond
        rcases List.mem_append.mp isFirst with (before | isInner)
        · rcases List.mem_append.mp before with inLeft | isOwn
          · exact List.lt_trans (smaller first inLeft []) (greater second isSecond [])
          · obtain ⟨value, -, rfl⟩ := List.mem_map.mp isOwn
            exact greater second isSecond []
        · obtain ⟨⟨word, data⟩, -, rfl⟩ := List.mem_map.mp isInner
          exact greater second isSecond word

end Mevent.Library.TernaryTree
