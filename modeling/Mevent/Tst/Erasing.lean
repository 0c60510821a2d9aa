import Mevent.Tst.Descent

/-!
# What `Erase` takes away

`Erase` cuts a link of the last node on the way that branches, or the center of the first node
that has matched.  Everything behind that link is lost.
-/

namespace Mevent.Tst

open Library TernaryTree

def Node.Empty (np : Node) : Prop := ∀ word, np.get word = none

/-- No proper prefix of a string with at least this length is stored. -/
def Node.NoShorter (np : Node) (str : List Int) (least : Nat) : Prop :=
  ∀ pre, pre <+: str → pre ≠ str → least ≤ pre.length → np.get pre = none

/-- Nothing but a string is lost below the last node that branches.  Where the string leaves
that node to a side, the nodes behind that link have nothing else stored; where it goes on
through the center, a side with the next character of the string as its own is cut instead. -/
def PrunesAlone : Node → List Int → Prop
  | .node address c left center right data, ch :: s =>
      if ch = c then
        match s with
        | [] => True
        | next :: s =>
            if left.hasChar next then left.Empty
            else if right.hasChar next then right.Empty
            else (Node.node address c left center right data).NoShorter (ch :: next :: s) 2
      else
        (Node.node address c left center right data).NoShorter (ch :: s) 1
  | _, _ => True

/-- Nothing but a string is lost when it is erased: it is not stored, or its node has a center,
or nothing else is behind the link that is cut. -/
def ErasesAlone (root : Node) (str : List Int) : Prop :=
  match root.find str with
  | some (.node _ _ _ .null _ (some _)) =>
      match root.lastBelow str with
      | some (np, s) => PrunesAlone np s
      | none => root.NoShorter str 2
  | _ => True

namespace Node

/-! ### Data that is dropped -/

@[simp]
theorem hasChar_dropData (np : Node) (c : Int) : np.dropData.hasChar c = np.hasChar c := by
  cases np <;> rfl

@[simp]
theorem address?_dropData (np : Node) : np.dropData.address? = np.address? := by
  cases np <;> rfl

theorem hasChar_modify {change : Node → Node}
    (stays : ∀ np c, (change np).hasChar c = np.hasChar c) (np : Node) (address : Nat) (c : Int) :
    (np.modify address change).hasChar c = np.hasChar c := by
  cases np with
  | null => rfl
  | node =>
      rw [modify]
      split
      next => exact stays _ _
      next => rfl

theorem address?_modify {change : Node → Node}
    (stays : ∀ np, (change np).address? = np.address?) (np : Node) (address : Nat) :
    (np.modify address change).address? = np.address? := by
  cases np with
  | null => rfl
  | node =>
      rw [modify]
      split
      next => exact stays _
      next => rfl

variable {np : Node} {s : List Int} {address : Nat} {c : Int} {left center right : Node}
  {data : Option NodeData}

/-- A string whose data is dropped is the only one that changes. -/
theorem get_modify_dropData (distinct : np.addresses.Nodup) (ordered : np.tree.Ordered)
    (found : np.find s = some (.node address c left center right data)) (word : List Int) :
    (np.modify address dropData).get word = if word = s then none else np.get word := by
  have leads := leads_of_find found
  split
  next same =>
    subst same
    rw [leads.get_modify_self distinct rfl, dropData, get_single]
  next different =>
    refine (leads.get_modify_iff distinct ordered rfl shrinks_dropData).mpr ?_ word different
    intro word other
    cases word with
    | nil => rfl
    | cons first word =>
        rcases lt_trichotomy first c with inside | rfl | beyond
        · rw [dropData, get_of_lt inside, get_of_lt inside]
        · cases word with
          | nil => exact absurd rfl other
          | cons next word =>
              rw [dropData, get_self (List.cons_ne_nil _ _), get_self (List.cons_ne_nil _ _)]
        · rw [dropData, get_of_gt beyond, get_of_gt beyond]

theorem mem_addresses_of_find
    (found : np.find s = some (.node address c left center right data)) :
    address ∈ np.addresses :=
  (leads_of_find found).mem_addresses rfl

/-! ### Links that are cut -/

section Cut

variable {ch : Int} {center' : Node}

theorem get_cut_center_iff (spine : Spine center s) :
    (∀ word, word ≠ c :: s → (node address c left .null right data).get word =
        (node address c left center right data).get word) ↔
      (node address c left center right data).NoShorter (c :: s) 2 := by
  constructor
  · intro same pre isPrefix different long
    rw [← same pre different]
    rcases List.prefix_cons_iff.mp isPrefix with rfl | ⟨rest, rfl, -⟩
    · rfl
    · have filled : rest ≠ [] := by
        rintro rfl
        simp at long
      rw [get_self filled, get_null]
  · intro shorter
    refine get_node_congr (fun _ _ _ _ => rfl) ?_ (fun _ _ _ _ => rfl)
    intro word filled different
    rw [get_null]
    by_cases isPrefix : word <+: s
    · have nothing := shorter (c :: word) ((List.prefix_cons_inj c).mpr isPrefix) different
        (by have := List.length_pos_iff.mpr filled; rw [List.length_cons]; omega)
      rwa [get_self filled, eq_comm] at nothing
    · exact (spine.get_eq_none isPrefix).symm

theorem get_cut_left_iff (less : ch < c) (spine : Spine left (ch :: s)) :
    (∀ word, word ≠ ch :: s → (node address c .null center right data).get word =
        (node address c left center right data).get word) ↔
      (node address c left center right data).NoShorter (ch :: s) 1 := by
  constructor
  · intro same pre isPrefix different long
    rw [← same pre different]
    rcases List.prefix_cons_iff.mp isPrefix with rfl | ⟨rest, rfl, -⟩
    · rfl
    · rw [get_of_lt less, get_null]
  · intro shorter
    refine get_node_congr ?_ (fun _ _ _ => rfl) (fun _ _ _ _ => rfl)
    intro first word inside different
    rw [get_null]
    by_cases isPrefix : first :: word <+: ch :: s
    · have nothing := shorter _ isPrefix different (by simp)
      rwa [get_of_lt inside, eq_comm] at nothing
    · exact (spine.get_eq_none isPrefix).symm

theorem get_cut_right_iff (greater : c < ch) (spine : Spine right (ch :: s)) :
    (∀ word, word ≠ ch :: s → (node address c left center .null data).get word =
        (node address c left center right data).get word) ↔
      (node address c left center right data).NoShorter (ch :: s) 1 := by
  constructor
  · intro same pre isPrefix different long
    rw [← same pre different]
    rcases List.prefix_cons_iff.mp isPrefix with rfl | ⟨rest, rfl, -⟩
    · rfl
    · rw [get_of_gt greater, get_null]
  · intro shorter
    refine get_node_congr (fun _ _ _ _ => rfl) (fun _ _ _ => rfl) ?_
    intro first word inside different
    rw [get_null]
    by_cases isPrefix : first :: word <+: ch :: s
    · have nothing := shorter _ isPrefix different (by simp)
      rwa [get_of_gt inside, eq_comm] at nothing
    · exact (spine.get_eq_none isPrefix).symm

variable (ordered : (node address c left center right data).tree.Ordered)
  (agrees : ∀ word, word ≠ s → center'.get word = center.get word)

include ordered agrees

theorem get_lose_left_iff :
    (∀ word, word ≠ c :: s → (node address c .null center' right data).get word =
        (node address c left center right data).get word) ↔ left.Empty := by
  constructor
  · intro same word
    cases word with
    | nil => rfl
    | cons first word =>
        by_cases inside : first < c
        · have nothing := same (first :: word) (by simp [inside.ne])
          rwa [get_of_lt inside, get_of_lt inside, get_null, eq_comm] at nothing
        · exact get_eq_none (fun member => inside (ordered.1.1 first member)) word
  · intro empty
    refine get_node_congr ?_ ?_ (fun _ _ _ _ => rfl)
    · intro first word _ _
      rw [empty, get_null]
    · intro word _ different
      exact agrees word (by simpa using different)

theorem get_lose_right_iff :
    (∀ word, word ≠ c :: s → (node address c left center' .null data).get word =
        (node address c left center right data).get word) ↔ right.Empty := by
  constructor
  · intro same word
    cases word with
    | nil => rfl
    | cons first word =>
        by_cases inside : c < first
        · have nothing := same (first :: word) (by simp [inside.ne'])
          rwa [get_of_gt inside, get_of_gt inside, get_null, eq_comm] at nothing
        · exact get_eq_none (fun member => inside (ordered.1.2 first member)) word
  · intro empty
    refine get_node_congr (fun _ _ _ _ => rfl) ?_ ?_
    · intro word _ different
      exact agrees word (by simpa using different)
    · intro first word _ _
      rw [empty, get_null]

end Cut

/-! ### The link that is cut -/

theorem mem_level_of_hasChar {ch : Int} (own : np.hasChar ch) : ch ∈ np.tree.level := by
  cases np with
  | null => cases own
  | node address first before within behind stored =>
      have same : first = ch := of_decide_eq_true own
      exact mem_level_node.mpr (.inr (.inl same.symm))

theorem mem_chars_of_hasChar {ch : Int} {turn : Turn} (own : (np.link turn).hasChar ch) :
    ch ∈ np.chars := by
  have here : ∀ {np : Node}, np.hasChar ch → ch ∈ np.chars := by
    intro np own
    cases np with
    | null => cases own
    | node address first before within behind stored =>
        have same : first = ch := of_decide_eq_true own
        exact same ▸ List.mem_cons_self
  cases np with
  | null => cases own
  | node address first before within behind stored =>
      apply List.mem_cons_of_mem
      cases turn with
      | left => exact List.mem_append_left _ (List.mem_append_left _ (here own))
      | center => exact List.mem_append_left _ (List.mem_append_right _ (here own))
      | right => exact List.mem_append_right _ (here own)

theorem Spine.matches {ch : Int} (spine : Spine np (ch :: s)) : np.hasChar ch :=
  spine.hasChar

theorem linkTo_modify_dropData (np : Node) (address : Nat) (lastS : List Int) :
    Heap.linkTo (np.modify address dropData) lastS = Heap.linkTo np lastS := by
  have same : ∀ turn c, ((np.modify address dropData).link turn).hasChar c =
      (np.link turn).hasChar c := by
    intro turn c
    cases np with
    | null => rfl
    | node own first before within behind stored =>
        rw [modify]
        split
        next => cases turn <;> rfl
        next => cases turn <;> exact hasChar_modify hasChar_dropData _ _ _
  simp only [Heap.linkTo, same]

end Node

namespace Heap

open Node

variable {heap : Heap} {str rest : List Int} {sub : Node} {address inner : Nat}

theorem at?_dropped (sound : heap.Sound) (leads : Leads heap.root str sub rest)
    (lies : sub.address? = some address) (within : inner ∈ sub.addresses) :
    (heap.root.modify inner dropData).at? address = some (sub.modify inner dropData) := by
  rw [leads.modify_within sound.distinct lies within dropData]
  exact leads.at?_modify sound.distinct lies
    ((address?_modify address?_dropData sub inner).trans lies)

/-- What is left of a tree when a link of a node on the way is cut, behind which data has been
dropped. -/
theorem root_clean (sound : heap.Sound) (leads : Leads heap.root str sub rest)
    (lies : sub.address? = some address) (within : inner ∈ sub.addresses) (turn : Turn) :
    (clean { heap with root := heap.root.modify inner dropData } address turn).root =
      heap.root.modify address fun np => (np.modify inner dropData).cut turn := by
  have stays : ∀ np : Node, np.address? = some address →
      (np.modify inner dropData).address? = some address :=
    fun np same => (address?_modify address?_dropData np inner).trans same
  simp only [clean, at?_dropped sound leads lies within]
  rw [leads.modify_within sound.distinct lies within, modify_modify stays]

theorem shrinks_dropped (inner : Nat) (turn : Turn) (np : Node) :
    Shrinks ((np.modify inner dropData).cut turn) np :=
  (shrinks_cut turn _).trans (shrinks_modify shrinks_dropData inner np)

theorem get_clean_iff (sound : heap.Sound) (leads : Leads heap.root str sub rest)
    (lies : sub.address? = some address) (within : inner ∈ sub.addresses) (turn : Turn) :
    (∀ word, word ≠ str →
      (clean { heap with root := heap.root.modify inner dropData } address turn).root.get word =
        heap.root.get word) ↔
      ∀ word, word ≠ rest →
        ((sub.modify inner dropData).cut turn).get word = sub.get word := by
  rw [root_clean sound leads lies within]
  exact leads.get_modify_iff sound.distinct sound.ordered lies (shrinks_dropped inner turn)

theorem prune_eq (sound : heap.Sound) (leads : Leads heap.root str sub rest)
    (lies : sub.address? = some address) (within : inner ∈ sub.addresses) {trackers : Trackers}
    (lastNp : trackers.lastNp = some address) :
    prune { heap with root := heap.root.modify inner dropData } trackers =
      match linkTo sub trackers.lastS with
      | none => { heap with root := heap.root.modify inner dropData }
      | some turn => clean { heap with root := heap.root.modify inner dropData } address turn := by
  cases link : linkTo sub trackers.lastS with
  | none => simp only [prune, lastNp, at?_dropped sound leads lies within,
      linkTo_modify_dropData, link]
  | some turn => simp only [prune, lastNp, at?_dropped sound leads lies within,
      linkTo_modify_dropData, link]

section Links

variable {own : Nat} {c ch next : Int} {left center right : Node} {data : Option NodeData}
  {s : List Int}

theorem linkTo_nil {np : Node} (nonzero : ∀ c ∈ np.chars, c ≠ 0) : linkTo np [] = none := by
  apply List.find?_eq_none.mpr
  intro turn _ compared
  exact nonzero 0 (mem_chars_of_hasChar compared) rfl

theorem linkTo_center (inCenter : center.hasChar next) :
    linkTo (.node own c left center right data) (next :: s) =
      if left.hasChar next then some .left
      else if right.hasChar next then some .right
      else some .center := by
  cases inLeft : left.hasChar next <;> cases inRight : right.hasChar next <;>
    simp [linkTo, link, inLeft, inRight, inCenter]

theorem linkTo_left (inLeft : left.hasChar ch) :
    linkTo (.node own c left center right data) (ch :: s) = some .left := by
  simp [linkTo, link, inLeft]

theorem linkTo_right (notLeft : left.hasChar ch = false) (inRight : right.hasChar ch) :
    linkTo (.node own c left center right data) (ch :: s) = some .right := by
  simp [linkTo, link, notLeft, inRight]

end Links

section Prune

variable {own : Nat} {c ch : Int} {left center right : Node} {data : Option NodeData}
  {s : List Int} {first : Int} {before behind : Node} {stored : Option NodeData}
  {trackers : Trackers}

theorem prunesAlone_iff_of_ne (different : ch ≠ c) :
    PrunesAlone (.node own c left center right data) (ch :: s) ↔
      (Node.node own c left center right data).NoShorter (ch :: s) 1 := by
  cases s <;> simp [PrunesAlone, different]

theorem get_prune_center_iff (sound : heap.Sound)
    (leads : Leads heap.root str (.node own c left center right data) (c :: s))
    (spine : Spine center s)
    (found : center.find s = some (.node inner first before .null behind stored))
    (lastNp : trackers.lastNp = some own) (lastS : trackers.lastS = s) :
    (∀ word, word ≠ str →
      (prune { heap with root := heap.root.modify inner dropData } trackers).root.get word =
        heap.root.get word) ↔ PrunesAlone (.node own c left center right data) (c :: s) := by
  have inCenter := mem_addresses_of_find found
  have within : inner ∈ (Node.node own c left center right data).addresses :=
    mem_addresses_node.mpr (.inr (.inr (.inl inCenter)))
  have distinct := leads.distinct sound.distinct
  have ordered := leads.ordered sound.ordered
  have agrees : ∀ word, word ≠ s → (center.modify inner dropData).get word = center.get word := by
    intro word different
    rw [get_modify_dropData (nodup_node distinct).inCenter ordered.2.2.1 found, if_neg different]
  cases s with
  | nil => cases spine
  | cons next s =>
      rw [prune_eq sound leads rfl within lastNp, lastS, linkTo_center spine.matches, PrunesAlone,
        if_pos rfl]
      by_cases inLeft : left.hasChar next
      · rw [if_pos inLeft, if_pos inLeft]
        dsimp only
        rw [get_clean_iff sound leads rfl within, modify_center distinct inCenter]
        exact get_lose_left_iff ordered agrees
      · rw [if_neg inLeft, if_neg inLeft]
        by_cases inRight : right.hasChar next
        · rw [if_pos inRight, if_pos inRight]
          dsimp only
          rw [get_clean_iff sound leads rfl within, modify_center distinct inCenter]
          exact get_lose_right_iff ordered agrees
        · rw [if_neg inRight, if_neg inRight]
          dsimp only
          rw [get_clean_iff sound leads rfl within, modify_center distinct inCenter]
          exact get_cut_center_iff spine

theorem get_prune_left_iff (sound : heap.Sound)
    (leads : Leads heap.root str (.node own c left center right data) (ch :: s)) (less : ch < c)
    (spine : Spine left (ch :: s))
    (found : left.find (ch :: s) = some (.node inner first before .null behind stored))
    (lastNp : trackers.lastNp = some own) (lastS : trackers.lastS = ch :: s) :
    (∀ word, word ≠ str →
      (prune { heap with root := heap.root.modify inner dropData } trackers).root.get word =
        heap.root.get word) ↔ PrunesAlone (.node own c left center right data) (ch :: s) := by
  have inLeft := mem_addresses_of_find found
  have within : inner ∈ (Node.node own c left center right data).addresses :=
    mem_addresses_node.mpr (.inr (.inl inLeft))
  have distinct := leads.distinct sound.distinct
  rw [prune_eq sound leads rfl within lastNp, lastS, linkTo_left spine.matches,
    prunesAlone_iff_of_ne less.ne]
  dsimp only
  rw [get_clean_iff sound leads rfl within, modify_left distinct inLeft]
  exact get_cut_left_iff less spine

theorem get_prune_right_iff (sound : heap.Sound)
    (leads : Leads heap.root str (.node own c left center right data) (ch :: s))
    (greater : c < ch) (spine : Spine right (ch :: s))
    (found : right.find (ch :: s) = some (.node inner first before .null behind stored))
    (lastNp : trackers.lastNp = some own) (lastS : trackers.lastS = ch :: s) :
    (∀ word, word ≠ str →
      (prune { heap with root := heap.root.modify inner dropData } trackers).root.get word =
        heap.root.get word) ↔ PrunesAlone (.node own c left center right data) (ch :: s) := by
  have inRight := mem_addresses_of_find found
  have within : inner ∈ (Node.node own c left center right data).addresses :=
    mem_addresses_node.mpr (.inr (.inr (.inr inRight)))
  have distinct := leads.distinct sound.distinct
  have ordered := leads.ordered sound.ordered
  have notLeft : left.hasChar ch = false := by
    by_contra own
    have below := ordered.1.1 ch (mem_level_of_hasChar (by simpa using own))
    exact lt_asymm greater below
  rw [prune_eq sound leads rfl within lastNp, lastS, linkTo_right notLeft spine.matches,
    prunesAlone_iff_of_ne greater.ne']
  dsimp only
  rw [get_clean_iff sound leads rfl within, modify_right distinct inRight]
  exact get_cut_right_iff greater spine

end Prune

/-- What the end of `Erase` changes behind the last node that branches. -/
theorem get_prune_iff (sound : heap.Sound) {np : Node} {first : Int} {before behind : Node}
    {stored : Option NodeData} (leads : Leads heap.root str np rest)
    (below : np.lastBelow rest = none)
    (ends : heap.root.find str = some (.node inner first before .null behind stored))
    (found : np.find rest = some (.node inner first before .null behind stored))
    {trackers : Trackers} (lastNp : trackers.lastNp = np.address?)
    (lastS : trackers.lastS = np.passed rest) :
    (∀ word, word ≠ str →
      (prune { heap with root := heap.root.modify inner dropData } trackers).root.get word =
        heap.root.get word) ↔ PrunesAlone np rest := by
  cases np with
  | null => cases found
  | node own c left center right data =>
      cases rest with
      | nil => cases found
      | cons ch s =>
          rw [find] at found
          rw [lastBelow] at below
          split at found
          next same =>
            subst same
            rw [if_pos rfl] at below
            have passed : Node.passed (.node own ch left center right data) (ch :: s) = s := by
              simp [Node.passed, hasChar]
            rw [passed] at lastS
            split at found
            next empty =>
              subst empty
              cases found
              have within : inner ∈ (Node.node inner first before .null behind stored).addresses :=
                mem_addresses_node.mpr (.inl rfl)
              have nonzero : ∀ c ∈ (Node.node inner first before .null behind stored).chars,
                  c ≠ 0 :=
                fun c member => sound.nonzero c (leads.chars c member)
              rw [prune_eq sound leads rfl within lastNp, lastS, linkTo_nil nonzero]
              simp only [PrunesAlone, if_pos, iff_true]
              intro word different
              rw [get_modify_dropData sound.distinct sound.ordered ends, if_neg different]
            next more =>
              rw [if_neg more] at below
              obtain ⟨nothing, single⟩ := Option.or_eq_none_iff.mp below
              have spine := spine_of_find (branch_eq_none single) nothing found
              exact get_prune_center_iff sound leads spine found lastNp lastS
          next different =>
            rw [if_neg different] at below
            have passed : Node.passed (.node own c left center right data) (ch :: s) =
                ch :: s := by
              simp [Node.passed, hasChar, Ne.symm different]
            rw [passed] at lastS
            split at found
            next less =>
              rw [if_pos less] at below
              obtain ⟨nothing, single⟩ := Option.or_eq_none_iff.mp below
              have spine := spine_of_find (branch_eq_none single) nothing found
              exact get_prune_left_iff sound leads less spine found lastNp lastS
            next notLess =>
              rw [if_neg notLess] at below
              obtain ⟨nothing, single⟩ := Option.or_eq_none_iff.mp below
              have spine := spine_of_find (branch_eq_none single) nothing found
              have greater := lt_of_le_of_ne (not_lt.mp notLess) (Ne.symm different)
              exact get_prune_right_iff sound leads greater spine found lastNp lastS

/-- The first node that matches, where nothing below the root branches: behind it, its center
leads to a row of nodes. -/
structure FirstMatched (root : Node) (str : List Int) (own : Nat) (c : Int)
    (left center right : Node) (data : Option NodeData) (s : List Int) : Prop where
  split : str = c :: s
  first : root.firstMatch str = some own
  leads : Leads root str (.node own c left center right data) str
  row : s = [] ∨ Spine center s
  found : root.find str = (Node.node own c left center right data).find str
  same : ∀ pre, pre <+: str →
    root.get pre = (Node.node own c left center right data).get pre

theorem exists_firstMatched {root : Node} {first : Int} {before behind : Node}
    {stored : Option NodeData} (below : root.lastBelow str = none)
    (ends : root.find str = some (.node inner first before .null behind stored)) :
    ∃ own c left center right data s,
      FirstMatched root str own c left center right data s := by
  have ofSpine : ∀ {np : Node} {ch : Int} {s : List Int}, Spine np (ch :: s) →
      ∃ own center data, np = .node own ch .null center .null data ∧
        (s = [] ∨ Spine center s) := by
    intro np ch s spine
    cases spine with
    | last address c data => exact ⟨_, _, _, rfl, .inl rfl⟩
    | more address c data more spine => exact ⟨_, _, _, rfl, .inr spine⟩
  cases root with
  | null => cases ends
  | node own c left center right data =>
      cases str with
      | nil => cases ends
      | cons ch s =>
          rw [find] at ends
          rw [lastBelow] at below
          split at ends
          next same =>
            subst same
            rw [if_pos rfl] at below
            refine ⟨own, ch, left, center, right, data, s, rfl, ?_, .here _ _, ?_, rfl, ?_⟩
            · rw [firstMatch, if_pos rfl]
            · split at ends
              next empty => exact .inl empty
              next more =>
                rw [if_neg more] at below
                obtain ⟨nothing, single⟩ := Option.or_eq_none_iff.mp below
                exact .inr (spine_of_find (branch_eq_none single) nothing ends)
            · exact fun _ _ => rfl
          next different =>
            rw [if_neg different] at below
            split at ends
            next less =>
              rw [if_pos less] at below
              obtain ⟨nothing, single⟩ := Option.or_eq_none_iff.mp below
              obtain ⟨inner, inCenter, own', rfl, row⟩ :=
                ofSpine (spine_of_find (branch_eq_none single) nothing ends)
              refine ⟨inner, ch, .null, inCenter, .null, own', s, rfl, ?_,
                .left less (.here _ _), row, ?_, ?_⟩
              · rw [firstMatch, if_neg different, if_pos less, firstMatch, if_pos rfl]
              · rw [find, if_neg different, if_pos less]
              · intro pre isPrefix
                rcases List.prefix_cons_iff.mp isPrefix with rfl | ⟨rest, rfl, -⟩
                · rfl
                · exact get_of_lt less rest
            next notLess =>
              rw [if_neg notLess] at below
              have greater := lt_of_le_of_ne (not_lt.mp notLess) (Ne.symm different)
              obtain ⟨nothing, single⟩ := Option.or_eq_none_iff.mp below
              obtain ⟨inner, inCenter, own', rfl, row⟩ :=
                ofSpine (spine_of_find (branch_eq_none single) nothing ends)
              refine ⟨inner, ch, .null, inCenter, .null, own', s, rfl, ?_,
                .right greater (.here _ _), row, ?_, ?_⟩
              · rw [firstMatch, if_neg different, if_neg notLess, firstMatch, if_pos rfl]
              · rw [find, if_neg different, if_neg notLess]
              · intro pre isPrefix
                rcases List.prefix_cons_iff.mp isPrefix with rfl | ⟨rest, rfl, -⟩
                · rfl
                · exact get_of_gt greater rest

/-- What the end of `Erase` changes where nothing below the root branches. -/
theorem get_prune_first_iff (sound : heap.Sound) {first : Int} {before behind : Node}
    {stored : Option NodeData} (below : heap.root.lastBelow str = none)
    (ends : heap.root.find str = some (.node inner first before .null behind stored))
    {trackers : Trackers} (lastNp : trackers.lastNp = none)
    (firstNp : trackers.firstNp = heap.root.firstMatch str) :
    (∀ word, word ≠ str →
      (prune { heap with root := heap.root.modify inner dropData } trackers).root.get word =
        heap.root.get word) ↔ heap.root.NoShorter str 2 := by
  obtain ⟨own, c, left, center, right, data, s, matched⟩ := exists_firstMatched below ends
  obtain ⟨rfl, isFirst, leads, row, found, same⟩ := matched
  have shorter : heap.root.NoShorter (c :: s) 2 ↔
      (Node.node own c left center right data).NoShorter (c :: s) 2 := by
    refine forall₂_congr fun pre isPrefix => ?_
    rw [same pre isPrefix]
  have distinct := leads.distinct sound.distinct
  have ordered := leads.ordered sound.ordered
  rw [ends] at found
  have within := mem_addresses_of_find found.symm
  rw [shorter, prune, lastNp]
  simp only [firstNp, isFirst]
  rw [get_clean_iff sound leads rfl within]
  rcases row with rfl | spine
  · have vacuous : (Node.node own c left center right data).NoShorter [c] 2 := by
      intro pre isPrefix _ long
      have := isPrefix.length_le
      simp only [List.length_singleton] at this
      omega
    refine iff_of_true ?_ vacuous
    intro word different
    rw [find, if_pos rfl, if_pos rfl] at found
    cases found
    have dropped := get_modify_dropData distinct ordered
      (show (Node.node inner first before .null behind stored).find [first] = _ by
        rw [find, if_pos rfl, if_pos rfl]) word
    rw [if_neg different] at dropped
    rw [← dropped, modify_self rfl]
    rfl
  · have inCenter : inner ∈ center.addresses := by
      cases s with
      | nil => cases spine
      | cons next s =>
          rw [find, if_pos rfl, if_neg (List.cons_ne_nil _ _)] at found
          exact mem_addresses_of_find found.symm
    rw [modify_center distinct inCenter]
    exact get_cut_center_iff spine

/-! ### The whole of `Erase` -/

def ownData : Node → Option NodeData
  | .null => none
  | .node _ _ _ _ _ data => data

theorem get_eq_bind_find (np : Node) (str : List Int) :
    np.get str = (np.find str).bind ownData := by
  induction np generalizing str with
  | null => cases str <;> rfl
  | node address c left center right data leftHypothesis centerHypothesis rightHypothesis =>
      cases str with
      | nil => rfl
      | cons ch s =>
          rw [find]
          rcases lt_trichotomy ch c with less | rfl | greater
          · rw [get_of_lt less, if_neg less.ne, if_pos less, leftHypothesis]
          · rw [if_pos rfl]
            split
            next empty => rw [empty, get_single]; rfl
            next more => rw [get_self more, centerHypothesis]
          · rw [get_of_gt greater, if_neg greater.ne', if_neg (lt_asymm greater),
              rightHypothesis]

theorem get_of_shrinks {np' np : Node} (shrinks : Shrinks np' np) (word : List Int) :
    np'.get word = none ∨ np'.get word = np.get word := by
  induction shrinks generalizing word with
  | gone np => exact .inl (get_null word)
  | @node address c left center right left' center' right' data data' _ _ _ kept leftHypothesis
      centerHypothesis rightHypothesis =>
      cases word with
      | nil => exact .inl rfl
      | cons ch s =>
          rcases lt_trichotomy ch c with less | rfl | greater
          · rw [get_of_lt less, get_of_lt less]
            exact leftHypothesis (ch :: s)
          · by_cases empty : s = []
            · subst empty
              rw [get_single, get_single]
              exact kept.symm
            · rw [get_self empty, get_self empty]
              exact centerHypothesis s
          · rw [get_of_gt greater, get_of_gt greater]
            exact rightHypothesis (ch :: s)

theorem shrinks_clean (heap : Heap) (address : Nat) (turn : Turn) :
    Shrinks (heap.clean address turn).root heap.root := by
  unfold clean
  split
  next => exact .refl _
  next => exact shrinks_modify (shrinks_cut turn) address _

theorem shrinks_prune (heap : Heap) (trackers : Trackers) :
    Shrinks (heap.prune trackers).root heap.root := by
  unfold prune
  split
  next =>
    split
    next => exact .refl _
    next =>
      split
      next => exact .refl _
      next => exact shrinks_clean _ _ _
  next =>
    split
    next => exact .refl _
    next => exact shrinks_clean _ _ _

/-- What is stored after `Erase` is what was stored before, without its string. -/
def Removes (before after : Node) (str : List Int) : Prop :=
  ∀ word, after.get word = if word = str then none else before.get word

theorem removes_self {np : Node} (absent : np.get str = none) : Removes np np str := by
  intro word
  split
  next same => rw [same, absent]
  next => rfl

theorem removes_iff {before after : Node} (gone : after.get str = none) :
    Removes before after str ↔ ∀ word, word ≠ str → after.get word = before.get word := by
  constructor
  · intro removes word different
    rw [removes word, if_neg different]
  · intro same word
    split
    next here => rw [here, gone]
    next different => exact same word different

/-- The end of `Erase`, with the pointers that its loop leaves. -/
theorem removes_prune_iff (sound : heap.Sound) {first : Int} {before behind : Node}
    {stored : NodeData} {trackers : Trackers}
    (ended : descend heap.root str ⟨none, str, none⟩ =
      some (.node inner first before .null behind (some stored), trackers)) :
    Removes heap.root
        (prune { heap with root := heap.root.modify inner dropData } trackers).root str ↔
      ErasesAlone heap.root str := by
  have ends : heap.root.find str =
      some (.node inner first before .null behind (some stored)) := by
    rw [← map_descend, ended]
    rfl
  have dropped := get_modify_dropData sound.distinct sound.ordered ends str
  rw [if_pos rfl] at dropped
  have gone : (prune { heap with root := heap.root.modify inner dropData } trackers).root.get str =
      none := by
    rcases get_of_shrinks (shrinks_prune { heap with root := heap.root.modify inner dropData }
      trackers) str with none | same
    · exact none
    · exact same.trans dropped
  have follows := follows_descend ended
  rw [removes_iff gone, ErasesAlone, ends]
  dsimp only
  cases below : heap.root.lastBelow str with
  | none =>
      exact get_prune_first_iff sound below ends (follows.alone below).1 follows.first
  | some last =>
      obtain ⟨np, s⟩ := last
      obtain ⟨leads, -, nothing, found⟩ := leads_of_lastBelow below ends
      obtain ⟨lastNp, lastS⟩ := follows.last np s below
      exact get_prune_iff sound leads nothing ends found lastNp lastS

theorem removes_erase_iff (sound : heap.Sound) (str : Word) :
    Removes heap.root (heap.erase str).root str.chars ↔ ErasesAlone heap.root str.chars := by
  have found := map_descend heap.root str.chars ⟨none, str.chars, none⟩
  have stored := get_eq_bind_find heap.root str.chars
  rw [erase]
  cases ended : descend heap.root str.chars ⟨none, str.chars, none⟩ with
  | none =>
      rw [ended, Option.map_none] at found
      rw [← found, Option.bind_none] at stored
      refine iff_of_true (removes_self stored) ?_
      rw [ErasesAlone, ← found]
      trivial
  | some last =>
      obtain ⟨np, trackers⟩ := last
      rw [ended, Option.map_some] at found
      rw [← found, Option.bind_some] at stored
      cases np with
      | null =>
          refine iff_of_true (removes_self stored) ?_
          rw [ErasesAlone, ← found]
          trivial
      | node address c left center right data =>
          cases data with
          | none =>
              refine iff_of_true (removes_self stored) ?_
              rw [ErasesAlone, ← found]
              cases center <;> trivial
          | some data =>
              cases center with
              | null => exact removes_prune_iff sound ended
              | node own first before within behind held =>
                  refine iff_of_true ?_ ?_
                  · exact get_modify_dropData sound.distinct sound.ordered found.symm
                  · rw [ErasesAlone, ← found]
                    trivial

/-- `Erase` takes away its string and nothing else, and nothing that is left has been
deleted. -/
def Erases (heap : Heap) (str : Word) : Prop :=
  Removes heap.root (heap.erase str).root str.chars ∧
    ∀ address ∈ (heap.erase str).root.addresses, address ∉ (heap.erase str).freed

/-- In every tree that calls of `Insert` and `Erase` lead to, `Erase` takes away its string and
nothing else exactly when nothing else is behind the link that it cuts. -/
theorem erases_iff {heap : Heap} (reached : heap.Reached) (str : Word) :
    heap.Erases str ↔ ErasesAlone heap.root str.chars := by
  have sound := Reached.sound reached
  rw [Erases, and_iff_left (sound.erase str).unfreed]
  exact removes_erase_iff sound str

/-- The string `b` beside `ab`, which is erased. -/
theorem erases_iff_beside : ∃ heap : Heap, heap.root.get [98] = some ⟨[98], none⟩ ∧
    (heap.Erases ⟨[97, 98], by decide⟩ ↔ ErasesAlone heap.root [97, 98]) := by
  have replayed : replay step (fun _ _ => True) new
      [.insert ⟨⟨[98], by decide⟩, none⟩, .insert ⟨⟨[97, 98], by decide⟩, none⟩] =
      some ⟨.node 0 98 (.node 1 97 .null (.node 2 98 .null .null .null
        (some ⟨[97, 98], none⟩)) .null none) .null .null (some ⟨[98], none⟩), 3, []⟩ := by
    decide +kernel
  exact ⟨_, by decide +kernel, erases_iff (reaches_of_replay replayed) ⟨[97, 98], by decide⟩⟩

/-- The string `ab` is lost when `abc` is erased. -/
theorem not_erases_prefix : ∃ heap : Heap, heap.Reached ∧
    heap.root.get [97, 98] = some ⟨[97, 98], none⟩ ∧
    (heap.erase ⟨[97, 98, 99], by decide⟩).root.get [97, 98] = none ∧
    ¬ heap.Erases ⟨[97, 98, 99], by decide⟩ := by
  have replayed : replay step (fun _ _ => True) new
      [.insert ⟨⟨[97, 98], by decide⟩, none⟩, .insert ⟨⟨[97, 98, 99], by decide⟩, none⟩] =
      some ⟨.node 0 97 .null (.node 1 98 .null (.node 2 99 .null .null .null
        (some ⟨[97, 98, 99], none⟩)) .null (some ⟨[97, 98], none⟩)) .null none, 3, []⟩ := by
    decide +kernel
  refine ⟨_, reaches_of_replay replayed, by decide +kernel, by decide +kernel, ?_⟩
  rintro ⟨removes, -⟩
  exact absurd (removes [97, 98]) (by decide +kernel)

/-! ### Runs -/

def perform (stored : List Int → Option NodeData) : Call → List Int → Option NodeData
  | .insert insertion, word =>
      if word = insertion.str.chars then (stored word).or (some insertion.data) else stored word
  | .erase str, word => if word = str.chars then none else stored word

theorem get_insert (heap : Heap) (insertion : Insertion) :
    (heap.insert insertion).root.get = perform heap.root.get (.insert insertion) := by
  funext word
  have root : (heap.insert insertion).root = (heap.root.insert insertion.data
      insertion.str.first insertion.str.rest heap.made).1 := rfl
  rw [perform, Node.get, root, tree_insert, TernaryTree.get_insert, ← Word.chars_eq]
  rfl

/-- A call on a tree and on what the tree is to store. -/
def stepBoth (state : Heap × (List Int → Option NodeData)) (call : Call) :
    Option (Heap × (List Int → Option NodeData)) :=
  (state.1.step call).map fun later => (later, perform state.2 call)

/-- The tree is sound and stores what it is to store. -/
def Agrees (state : Heap × (List Int → Option NodeData)) : Prop :=
  state.1.Sound ∧ state.1.root.get = state.2

theorem Agrees.step {state later : Heap × (List Int → Option NodeData)} {call : Call}
    (agrees : Agrees state)
    (alone : ∀ str, call = .erase str → ErasesAlone state.1.root str.chars)
    (stepped : stepBoth state call = some later) : Agrees later := by
  rcases state with ⟨heap, stored⟩
  rcases agrees with ⟨sound, same⟩
  obtain ⟨heap', taken, rfl⟩ := Option.map_eq_some_iff.mp stepped
  dsimp only at sound same alone taken ⊢
  cases call with
  | insert insertion =>
      cases taken
      refine ⟨sound.insert insertion, ?_⟩
      dsimp only
      rw [get_insert, same]
  | erase str =>
      cases taken
      refine ⟨sound.erase str, ?_⟩
      funext word
      dsimp only
      rw [(removes_erase_iff sound str).mpr (alone str rfl) word, perform, same]

/-- As long as every `Erase` takes away its string alone, the tree stores what its calls are
for. -/
theorem get_of_reached {state : Heap × (List Int → Option NodeData)}
    (reached : Reaches stepBoth
      (fun state call => ∀ str, call = .erase str → ErasesAlone state.1.root str.chars)
      (new, fun _ => none) state) : state.1.root.get = state.2 := by
  have agrees : Agrees state :=
    reached.invariant ⟨sound_new, funext get_null⟩
      (fun _ _ _ agrees alone stepped => agrees.step alone stepped)
  exact agrees.2

end Heap

end Mevent.Tst
