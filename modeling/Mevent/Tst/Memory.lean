import Mevent.Tst.Nodes

/-!
# Nodes in memory

No node is in a tree twice, and no node of a tree has been deleted: what `Erase` deletes it
takes out of the tree first.
-/

namespace Mevent.Tst

open Library TernaryTree

namespace Node

/-! ### Nodes and their addresses -/

@[simp]
theorem addresses_null : Node.null.addresses = [] := rfl

theorem mem_addresses_node {address own : Nat} {c : Int} {left center right : Node}
    {data : Option NodeData} :
    address ∈ (node own c left center right data).addresses ↔
      address = own ∨ address ∈ left.addresses ∨ address ∈ center.addresses ∨
        address ∈ right.addresses := by
  simp only [addresses, List.mem_append, List.mem_singleton]
  tauto

/-- The addresses of a node and of what its links lead to. -/
structure Distinct (own : Nat) (left center right : Node) : Prop where
  inLeft : left.addresses.Nodup
  inCenter : center.addresses.Nodup
  inRight : right.addresses.Nodup
  ownLeft : own ∉ left.addresses
  ownCenter : own ∉ center.addresses
  ownRight : own ∉ right.addresses
  leftCenter : ∀ address ∈ left.addresses, address ∉ center.addresses
  leftRight : ∀ address ∈ left.addresses, address ∉ right.addresses
  centerRight : ∀ address ∈ center.addresses, address ∉ right.addresses

theorem nodup_node {own : Nat} {c : Int} {left center right : Node} {data : Option NodeData}
    (distinct : (node own c left center right data).addresses.Nodup) :
    Distinct own left center right := by
  simp only [addresses, List.nodup_append, List.mem_append, List.mem_singleton,
    List.nodup_singleton] at distinct
  obtain ⟨⟨⟨inLeft, inCenter, first⟩, inRight, second⟩, -, third⟩ := distinct
  exact {
    inLeft := inLeft
    inCenter := inCenter
    inRight := inRight
    ownLeft := fun inside => third own (.inl (.inl inside)) own rfl rfl
    ownCenter := fun inside => third own (.inl (.inr inside)) own rfl rfl
    ownRight := fun inside => third own (.inr inside) own rfl rfl
    leftCenter := fun address here there => first address here address there rfl
    leftRight := fun address here there => second address (.inl here) address there rfl
    centerRight := fun address here there => second address (.inr here) address there rfl }

theorem modify_of_not_mem {np : Node} {address : Nat} (outside : address ∉ np.addresses)
    (change : Node → Node) : np.modify address change = np := by
  induction np with
  | null => rfl
  | node own c left center right data leftHypothesis centerHypothesis rightHypothesis =>
      simp only [mem_addresses_node, not_or] at outside
      obtain ⟨different, notLeft, notCenter, notRight⟩ := outside
      rw [modify, if_neg (Ne.symm different), leftHypothesis notLeft,
        centerHypothesis notCenter, rightHypothesis notRight]

theorem at?_of_not_mem {np : Node} {address : Nat} (outside : address ∉ np.addresses) :
    np.at? address = none := by
  induction np with
  | null => rfl
  | node own c left center right data leftHypothesis centerHypothesis rightHypothesis =>
      simp only [mem_addresses_node, not_or] at outside
      obtain ⟨different, notLeft, notCenter, notRight⟩ := outside
      rw [at?, if_neg (Ne.symm different), leftHypothesis notLeft,
        centerHypothesis notCenter, rightHypothesis notRight]
      rfl

theorem mem_of_at? {np sub : Node} {address : Nat} (found : np.at? address = some sub) :
    address ∈ np.addresses := by
  by_contra outside
  rw [at?_of_not_mem outside] at found
  cases found

/-! ### Nodes that are taken out -/

/-- What is left of a tree when links are cut and data is dropped. -/
inductive Shrinks : Node → Node → Prop where
  | gone (np : Node) : Shrinks .null np
  | node {address : Nat} {c : Int} {left center right left' center' right' : Node}
      {data data' : Option NodeData} (inLeft : Shrinks left' left)
      (inCenter : Shrinks center' center) (inRight : Shrinks right' right)
      (kept : data' = data ∨ data' = none) :
      Shrinks (.node address c left' center' right' data')
        (.node address c left center right data)

theorem Shrinks.refl (np : Node) : Shrinks np np := by
  induction np with
  | null => exact .gone _
  | node address c left center right data leftHypothesis centerHypothesis rightHypothesis =>
      exact .node leftHypothesis centerHypothesis rightHypothesis (.inl rfl)

theorem shrinks_cut (turn : Turn) (np : Node) : Shrinks (np.cut turn) np := by
  cases np with
  | null => exact .gone _
  | node address c left center right data =>
      cases turn with
      | left => exact .node (.gone _) (.refl _) (.refl _) (.inl rfl)
      | center => exact .node (.refl _) (.gone _) (.refl _) (.inl rfl)
      | right => exact .node (.refl _) (.refl _) (.gone _) (.inl rfl)

theorem shrinks_dropData (np : Node) : Shrinks np.dropData np := by
  cases np with
  | null => exact .gone _
  | node address c left center right data =>
      exact .node (.refl _) (.refl _) (.refl _) (.inr rfl)

theorem shrinks_modify {change : Node → Node} (shrinks : ∀ np, Shrinks (change np) np)
    (address : Nat) (np : Node) : Shrinks (np.modify address change) np := by
  induction np with
  | null => exact .gone _
  | node own c left center right data leftHypothesis centerHypothesis rightHypothesis =>
      rw [modify]
      split
      next => exact shrinks _
      next => exact .node leftHypothesis centerHypothesis rightHypothesis (.inl rfl)

theorem Shrinks.trans {first second third : Node} (shrinks : Shrinks first second)
    (later : Shrinks second third) : Shrinks first third := by
  induction shrinks generalizing third with
  | gone np => exact .gone _
  | node _ _ _ kept leftHypothesis centerHypothesis rightHypothesis =>
      cases later with
      | node inLeft inCenter inRight kept' =>
          refine .node (leftHypothesis inLeft) (centerHypothesis inCenter)
            (rightHypothesis inRight) ?_
          rcases kept with rfl | rfl
          · exact kept'
          · exact .inr rfl

section Shrinks

variable {np' np : Node}

theorem Shrinks.addresses (shrinks : Shrinks np' np) :
    np'.addresses.Sublist np.addresses := by
  induction shrinks with
  | gone np => exact List.nil_sublist _
  | node _ _ _ _ leftHypothesis centerHypothesis rightHypothesis =>
      exact ((leftHypothesis.append centerHypothesis).append rightHypothesis).append
        (List.Sublist.refl _)

theorem Shrinks.chars (shrinks : Shrinks np' np) : np'.chars.Sublist np.chars := by
  induction shrinks with
  | gone np => exact List.nil_sublist _
  | node _ _ _ _ leftHypothesis centerHypothesis rightHypothesis =>
      exact ((leftHypothesis.append centerHypothesis).append rightHypothesis).cons_cons _

theorem Shrinks.level (shrinks : Shrinks np' np) :
    np'.tree.level.Sublist np.tree.level := by
  induction shrinks with
  | gone np => exact List.nil_sublist _
  | node _ _ _ _ leftHypothesis _ rightHypothesis =>
      exact leftHypothesis.append (rightHypothesis.cons_cons _)

theorem Shrinks.ordered (shrinks : Shrinks np' np) (ordered : np.tree.Ordered) :
    np'.tree.Ordered := by
  induction shrinks with
  | gone np => trivial
  | node inLeft _ inRight _ leftHypothesis centerHypothesis rightHypothesis =>
      obtain ⟨⟨below, above⟩, left, center, right⟩ := ordered
      refine ⟨⟨?_, ?_⟩, leftHypothesis left, centerHypothesis center, rightHypothesis right⟩
      · exact fun key member => below key (inLeft.level.subset member)
      · exact fun key member => above key (inRight.level.subset member)

end Shrinks

theorem addresses_modify_cut {np sub : Node} {address : Nat} (distinct : np.addresses.Nodup)
    (found : np.at? address = some sub) (turn : Turn) :
    ((np.modify address (cut turn)).addresses ++ (sub.link turn).addresses).Perm
      np.addresses := by
  induction np with
  | null => cases found
  | node own c left center right data leftHypothesis centerHypothesis rightHypothesis =>
      have apart := nodup_node distinct
      rw [at?] at found
      rw [modify]
      split at found
      next same =>
        cases found
        rw [if_pos same, List.perm_iff_count]
        intro other
        cases turn <;>
          simp only [cut, link, addresses, List.count_append, List.count_nil] <;> omega
      next different =>
        rw [if_neg different, List.perm_iff_count]
        intro other
        rcases Option.or_eq_some_iff.mp found with inside | ⟨-, inRight⟩
        · rcases Option.or_eq_some_iff.mp inside with inLeft | ⟨-, inCenter⟩
          · have member := mem_of_at? inLeft
            have counted := (leftHypothesis apart.inLeft inLeft).count_eq other
            rw [modify_of_not_mem (apart.leftCenter _ member),
              modify_of_not_mem (apart.leftRight _ member)]
            simp only [addresses, List.count_append] at counted ⊢
            omega
          · have member := mem_of_at? inCenter
            have notLeft : address ∉ left.addresses :=
              fun inside => apart.leftCenter _ inside member
            have counted := (centerHypothesis apart.inCenter inCenter).count_eq other
            rw [modify_of_not_mem notLeft, modify_of_not_mem (apart.centerRight _ member)]
            simp only [addresses, List.count_append] at counted ⊢
            omega
        · have member := mem_of_at? inRight
          have notLeft : address ∉ left.addresses :=
            fun inside => apart.leftRight _ inside member
          have notCenter : address ∉ center.addresses :=
            fun inside => apart.centerRight _ inside member
          have counted := (rightHypothesis apart.inRight inRight).count_eq other
          rw [modify_of_not_mem notLeft, modify_of_not_mem notCenter]
          simp only [addresses, List.count_append] at counted ⊢
          omega

/-! ### Nodes that are made -/

theorem addresses_chain (data : NodeData) (first : Int) (rest : List Int) (made : Nat) :
    (chain data first rest made).2 = made + (rest.length + 1) ∧
      (chain data first rest made).1.addresses.Perm (List.range' made (rest.length + 1)) := by
  induction rest generalizing first made with
  | nil => exact ⟨rfl, List.Perm.refl _⟩
  | cons next rest inductionHypothesis =>
      obtain ⟨count, permuted⟩ := inductionHypothesis next (made + 1)
      constructor
      · rw [chain, count, List.length_cons]
        omega
      · rw [List.length_cons, List.range'_succ]
        simp only [chain, addresses, List.nil_append, List.append_nil]
        exact (permuted.append_right _).trans (List.perm_append_singleton _ _)

theorem addresses_grown {np grown child larger : Node} {new : List Nat}
    (permuted : larger.addresses.Perm (child.addresses ++ new))
    (others : ∀ address, grown.addresses.count address + child.addresses.count address =
      np.addresses.count address + larger.addresses.count address) :
    grown.addresses.Perm (np.addresses ++ new) := by
  rw [List.perm_iff_count] at permuted ⊢
  intro address
  have counted := permuted address
  have rest := others address
  rw [List.count_append] at counted ⊢
  omega

/-- An insertion adds the nodes that it makes. -/
theorem addresses_insert (np : Node) (data : NodeData) (first : Int) (rest : List Int)
    (made : Nat) : ∃ count, (np.insert data first rest made).2 = made + count ∧
      (np.insert data first rest made).1.addresses.Perm
        (np.addresses ++ List.range' made count) := by
  induction np generalizing first rest made with
  | null => exact ⟨_, addresses_chain data first rest made⟩
  | node address c left center right stored leftHypothesis centerHypothesis rightHypothesis =>
      rw [insert.eq_def]
      dsimp only
      split
      next =>
        obtain ⟨count, later, permuted⟩ := leftHypothesis first rest made
        refine ⟨count, later, addresses_grown permuted fun other => ?_⟩
        simp only [addresses, List.count_append]
        omega
      next =>
        split
        next =>
          obtain ⟨count, later, permuted⟩ := rightHypothesis first rest made
          refine ⟨count, later, addresses_grown permuted fun other => ?_⟩
          simp only [addresses, List.count_append]
          omega
        next =>
          cases rest with
          | nil => exact ⟨0, rfl, by simp [addresses]⟩
          | cons next rest =>
              obtain ⟨count, later, permuted⟩ := centerHypothesis next rest made
              refine ⟨count, later, addresses_grown permuted fun other => ?_⟩
              simp only [addresses, List.count_append]
              omega

theorem chars_chain (data : NodeData) (first : Int) (rest : List Int) (made : Nat) :
    (chain data first rest made).1.chars = first :: rest := by
  induction rest generalizing first made with
  | nil => rfl
  | cons next rest inductionHypothesis =>
      simp only [chain, chars, List.nil_append, List.append_nil, inductionHypothesis]

theorem chars_insert (np : Node) (data : NodeData) (first : Int) (rest : List Int)
    (made : Nat) : ∀ c ∈ (np.insert data first rest made).1.chars,
      c ∈ np.chars ∨ c ∈ first :: rest := by
  induction np generalizing first rest made with
  | null =>
      intro c member
      exact .inr (chars_chain data first rest made ▸ member)
  | node address own left center right stored leftHypothesis centerHypothesis rightHypothesis =>
      rw [insert.eq_def]
      dsimp only
      split
      next =>
        intro c member
        have inLeft := leftHypothesis first rest made c
        simp only [chars, List.mem_cons, List.mem_append] at member inLeft ⊢
        tauto
      next =>
        split
        next =>
          intro c member
          have inRight := rightHypothesis first rest made c
          simp only [chars, List.mem_cons, List.mem_append] at member inRight ⊢
          tauto
        next =>
          cases rest with
          | nil => exact fun c member => .inl member
          | cons next rest =>
              intro c member
              have inCenter := centerHypothesis next rest made c
              simp only [chars, List.mem_cons, List.mem_append] at member inCenter ⊢
              tauto

end Node

/-! ### Every tree that calls lead to -/

/-- The nodes of a tree lie at different addresses that have been handed out, none of them
has been deleted, their characters increase along every level and none of them is a zero. -/
structure Heap.Sound (heap : Heap) : Prop where
  distinct : heap.root.addresses.Nodup
  made : ∀ address ∈ heap.root.addresses, address < heap.made
  freed : ∀ address ∈ heap.freed, address < heap.made
  unfreed : ∀ address ∈ heap.root.addresses, address ∉ heap.freed
  ordered : heap.root.tree.Ordered
  nonzero : ∀ c ∈ heap.root.chars, c ≠ 0

namespace Heap

theorem sound_new : new.Sound where
  distinct := List.nodup_nil
  made address member := by cases member
  freed address member := by cases member
  unfreed address member := by cases member
  ordered := trivial
  nonzero c member := by cases member

theorem ne_zero_of_mem_chars {word : Word} {c : Int} (member : c ∈ word.chars) : c ≠ 0 := by
  obtain ⟨ch, inside, rfl⟩ := List.mem_map.mp member
  intro zero
  have same : ch = 0 := promote_injective (zero.trans (by decide))
  exact word.2.2 (same ▸ inside)

theorem Sound.insert {heap : Heap} (sound : heap.Sound) (insertion : Insertion) :
    (heap.insert insertion).Sound := by
  obtain ⟨count, later, permuted⟩ := heap.root.addresses_insert insertion.data
    insertion.str.first insertion.str.rest heap.made
  have root : (heap.insert insertion).root = (heap.root.insert insertion.data
      insertion.str.first insertion.str.rest heap.made).1 := rfl
  have made : (heap.insert insertion).made = heap.made + count := later
  have fresh : ∀ address ∈ heap.root.addresses, address ∉ List.range' heap.made count := by
    intro address old new
    have := sound.made address old
    have := (List.mem_range'_1.mp new).1
    omega
  have origin : ∀ address ∈ (heap.insert insertion).root.addresses,
      address ∈ heap.root.addresses ∨ address ∈ List.range' heap.made count := by
    intro address member
    exact List.mem_append.mp (permuted.mem_iff.mp member)
  exact {
    distinct := by
      rw [root, permuted.nodup_iff, List.nodup_append]
      refine ⟨sound.distinct, List.nodup_range', ?_⟩
      rintro address old other new rfl
      exact fresh address old new
    made := by
      intro address member
      rw [made]
      rcases origin address member with old | new
      · have := sound.made address old
        omega
      · exact (List.mem_range'_1.mp new).2
    freed := by
      intro address member
      have := sound.freed address member
      rw [made]
      omega
    unfreed := by
      intro address member inFreed
      rcases origin address member with old | new
      · exact sound.unfreed address old inFreed
      · have := sound.freed address inFreed
        have := (List.mem_range'_1.mp new).1
        omega
    ordered := by
      rw [root, Node.tree_insert]
      exact sound.ordered.insert _ _ _
    nonzero := by
      intro c member
      rcases heap.root.chars_insert _ _ _ _ c member with old | new
      · exact sound.nonzero c old
      · rw [← Word.chars_eq] at new
        exact ne_zero_of_mem_chars new }

theorem Sound.shrink {heap later : Heap} (sound : heap.Sound)
    (shrinks : Node.Shrinks later.root heap.root) (made : later.made = heap.made)
    (freed : ∀ address ∈ later.freed, address ∈ heap.freed ∨
      address ∈ heap.root.addresses ∧ address ∉ later.root.addresses) : later.Sound where
  distinct := sound.distinct.sublist shrinks.addresses
  made address member := by
    rw [made]
    exact sound.made address (shrinks.addresses.subset member)
  freed address member := by
    rw [made]
    rcases freed address member with old | ⟨lost, -⟩
    · exact sound.freed address old
    · exact sound.made address lost
  unfreed address member inFreed := by
    rcases freed address inFreed with old | ⟨-, gone⟩
    · exact sound.unfreed address (shrinks.addresses.subset member) old
    · exact gone member
  ordered := shrinks.ordered sound.ordered
  nonzero c member := sound.nonzero c (shrinks.chars.subset member)

theorem Sound.dropped {heap : Heap} (sound : heap.Sound) (address : Nat) :
    Sound { heap with root := heap.root.modify address Node.dropData } :=
  sound.shrink (Node.shrinks_modify Node.shrinks_dropData address _) rfl
    fun _ member => .inl member

theorem Sound.clean {heap : Heap} (sound : heap.Sound) (address : Nat) (turn : Turn) :
    (heap.clean address turn).Sound := by
  unfold Heap.clean
  split
  next => exact sound
  next np found =>
    refine sound.shrink (Node.shrinks_modify (Node.shrinks_cut turn) address _) rfl ?_
    intro other member
    rcases List.mem_append.mp member with old | deleted
    · exact .inl old
    · right
      have permuted := Node.addresses_modify_cut sound.distinct found turn
      have distinct := permuted.nodup_iff.mpr sound.distinct
      refine ⟨permuted.mem_iff.mp (List.mem_append_right _ deleted), ?_⟩
      intro still
      exact (List.nodup_append.mp distinct).2.2 other still other deleted rfl

theorem Sound.prune {heap : Heap} (sound : heap.Sound) (trackers : Trackers) :
    (heap.prune trackers).Sound := by
  unfold Heap.prune
  split
  next =>
    split
    next => exact sound
    next =>
      split
      next => exact sound
      next => exact sound.clean _ _
  next =>
    split
    next => exact sound
    next => exact sound.clean _ _

theorem Sound.erase {heap : Heap} (sound : heap.Sound) (str : Word) : (heap.erase str).Sound := by
  unfold Heap.erase
  split
  next =>
    dsimp only
    split
    next => exact sound.dropped _
    next => exact (sound.dropped _).prune _
  next => exact sound

/-- Every tree that calls of `Insert` and `Erase` lead to is in order. -/
theorem Reached.sound {heap : Heap} (reached : heap.Reached) : heap.Sound := by
  refine reached.invariant sound_new ?_
  intro heap call later sound _ stepped
  cases call with
  | insert insertion =>
      cases stepped
      exact sound.insert insertion
  | erase str =>
      cases stepped
      exact sound.erase str

end Heap

end Mevent.Tst
