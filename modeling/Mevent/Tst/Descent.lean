import Mevent.Tst.Memory

/-!
# The descent of `Erase`

The loop of `Erase` ends at the node of its string.  It remembers the last node below the root
that has a link to either side, the character behind it, and the first node that has matched.
-/

namespace Mevent.Tst

open Library TernaryTree

namespace Node

/-! ### What is stored in nodes -/

section Get

variable {address : Nat} {c ch : Int} {left center right : Node} {data : Option NodeData}

@[simp]
theorem get_nil (np : Node) : np.get [] = none := rfl

@[simp]
theorem get_null (str : List Int) : Node.null.get str = none := by
  cases str <;> rfl

theorem get_of_lt (less : ch < c) (s : List Int) :
    (node address c left center right data).get (ch :: s) = left.get (ch :: s) :=
  lookup_of_lt _ _ _ _ less s

theorem get_of_gt (greater : c < ch) (s : List Int) :
    (node address c left center right data).get (ch :: s) = right.get (ch :: s) :=
  lookup_of_gt _ _ _ _ greater s

@[simp]
theorem get_single : (node address c left center right data).get [c] = data :=
  lookup_self left.tree center.tree right.tree data c []

theorem get_self {s : List Int} (more : s ≠ []) :
    (node address c left center right data).get (c :: s) = center.get s := by
  cases s with
  | nil => exact absurd rfl more
  | cons next s => exact lookup_self left.tree center.tree right.tree data c (next :: s)

theorem get_eq_none {np : Node} (absent : ch ∉ np.tree.level) (s : List Int) :
    np.get (ch :: s) = none :=
  lookup_eq_none absent s

theorem get_node_congr {left' center' right' : Node} {asked : List Int → Prop}
    (inLeft : ∀ first s, first < c → asked (first :: s) →
      left'.get (first :: s) = left.get (first :: s))
    (inCenter : ∀ s, s ≠ [] → asked (c :: s) → center'.get s = center.get s)
    (inRight : ∀ first s, c < first → asked (first :: s) →
      right'.get (first :: s) = right.get (first :: s)) :
    ∀ word, asked word → (node address c left' center' right' data).get word =
      (node address c left center right data).get word := by
  intro word isAsked
  cases word with
  | nil => rfl
  | cons first s =>
      rcases lt_trichotomy first c with less | rfl | greater
      · rw [get_of_lt less, get_of_lt less, inLeft first s less isAsked]
      · cases s with
        | nil => rw [get_single, get_single]
        | cons next s =>
            rw [get_self (List.cons_ne_nil _ _), get_self (List.cons_ne_nil _ _),
              inCenter _ (List.cons_ne_nil _ _) isAsked]
      · rw [get_of_gt greater, get_of_gt greater, inRight first s greater isAsked]

end Get

/-! ### The node of a string -/

def find : Node → List Int → Option Node
  | .node address c left center right data, ch :: s =>
      if ch = c then
        if s = [] then some (.node address c left center right data) else center.find s
      else if ch < c then
        left.find (ch :: s)
      else
        right.find (ch :: s)
  | _, _ => none

def branch (np : Node) (s : List Int) : Option (Node × List Int) :=
  if np.branches then some (np, s) else none

/-- The last node below a node, on the way to a string, that has a link to either side, with
what is left of the string there. -/
def lastBelow : Node → List Int → Option (Node × List Int)
  | .node _ c left center right _, ch :: s =>
      if ch = c then
        if s = [] then none else (center.lastBelow s).or (center.branch s)
      else if ch < c then
        (left.lastBelow (ch :: s)).or (left.branch (ch :: s))
      else
        (right.lastBelow (ch :: s)).or (right.branch (ch :: s))
  | _, _ => none

def firstMatch : Node → List Int → Option Nat
  | .node address c left _ right _, ch :: s =>
      if ch = c then some address
      else if ch < c then left.firstMatch (ch :: s)
      else right.firstMatch (ch :: s)
  | _, _ => none

def passed (np : Node) (s : List Int) : List Int :=
  if np.hasChar (s.headD 0) then s.tail else s

def address? : Node → Option Nat
  | .null => none
  | .node address _ _ _ _ _ => some address

/-- A string leads from a node to another one, with the rest of it left. -/
inductive Leads : Node → List Int → Node → List Int → Prop where
  | here (np : Node) (s : List Int) : Leads np s np s
  | left {address : Nat} {c ch : Int} {left center right sub : Node} {data : Option NodeData}
      {s rest : List Int} : ch < c → Leads left (ch :: s) sub rest →
      Leads (.node address c left center right data) (ch :: s) sub rest
  | center {address : Nat} {c : Int} {left center right sub : Node} {data : Option NodeData}
      {s rest : List Int} : s ≠ [] → Leads center s sub rest →
      Leads (.node address c left center right data) (c :: s) sub rest
  | right {address : Nat} {c ch : Int} {left center right sub : Node} {data : Option NodeData}
      {s rest : List Int} : c < ch → Leads right (ch :: s) sub rest →
      Leads (.node address c left center right data) (ch :: s) sub rest

/-- A row of nodes for a string, without links to either side and with nothing behind. -/
inductive Spine : Node → List Int → Prop where
  | last (address : Nat) (c : Int) (data : Option NodeData) :
      Spine (.node address c .null .null .null data) [c]
  | more (address : Nat) (c : Int) {center : Node} (data : Option NodeData) {s : List Int} :
      s ≠ [] → Spine center s → Spine (.node address c .null center .null data) (c :: s)

/-! ### The pointers -/

theorem lastNp_enter (trackers : Trackers) (np : Node) (s : List Int) :
    (trackers.enter np s).lastNp = if np.branches then np.address? else trackers.lastNp := by
  cases np with
  | null => rfl
  | node =>
      rw [Trackers.enter]
      split <;> rfl

theorem lastS_enter (trackers : Trackers) (np : Node) (s : List Int) :
    (trackers.enter np s).lastS = if np.branches then s.tail else trackers.lastS := by
  cases np with
  | null => rfl
  | node =>
      rw [Trackers.enter]
      split <;> rfl

@[simp]
theorem firstNp_enter (trackers : Trackers) (np : Node) (s : List Int) :
    (trackers.enter np s).firstNp = trackers.firstNp := by
  cases np with
  | null => rfl
  | node =>
      rw [Trackers.enter]
      split <;> rfl

theorem map_descend (np : Node) (s : List Int) (trackers : Trackers) :
    (descend np s trackers).map Prod.fst = np.find s := by
  induction np generalizing s trackers with
  | null => rfl
  | node address c left center right data leftHypothesis centerHypothesis rightHypothesis =>
      cases s with
      | nil => rfl
      | cons ch s =>
          rw [descend, find]
          split
          next =>
            split
            next => rfl
            next => exact centerHypothesis _ _
          next =>
            split
            next => exact leftHypothesis _ _
            next => exact rightHypothesis _ _

structure Follows (np : Node) (s : List Int) (before after : Trackers) : Prop where
  first : after.firstNp = before.firstNp.or (np.firstMatch s)
  alone : np.lastBelow s = none → after.lastNp = before.lastNp ∧
    after.lastS = if np.hasChar (s.headD 0) then before.lastS else s
  last : ∀ sub rest, np.lastBelow s = some (sub, rest) →
    after.lastNp = sub.address? ∧ after.lastS = sub.passed rest

theorem Follows.enter {np : Node} {s : List Int} {before after : Trackers}
    (follows : Follows np s (before.enter np s) after) :
    after.firstNp = before.firstNp.or (np.firstMatch s) ∧
      ((np.lastBelow s).or (np.branch s) = none → np.branches = false ∧
        after.lastNp = before.lastNp ∧
        after.lastS = if np.hasChar (s.headD 0) then before.lastS else s) ∧
      ∀ sub rest, (np.lastBelow s).or (np.branch s) = some (sub, rest) →
        after.lastNp = sub.address? ∧ after.lastS = sub.passed rest := by
  obtain ⟨first, alone, last⟩ := follows
  rw [firstNp_enter] at first
  rw [lastNp_enter, lastS_enter] at alone
  refine ⟨first, ?_, ?_⟩
  · intro nothing
    obtain ⟨below, own⟩ := Option.or_eq_none_iff.mp nothing
    have single : np.branches = false := by
      by_contra branches
      rw [branch, if_pos (by simpa using branches)] at own
      cases own
    have pointers := alone below
    rw [single] at pointers
    exact ⟨single, pointers⟩
  · intro sub rest found
    rcases Option.or_eq_some_iff.mp found with below | ⟨below, own⟩
    · exact last sub rest below
    · have branches : np.branches = true := by
        by_contra single
        rw [branch, if_neg single] at own
        cases own
      have pointers := alone below
      rw [branches] at pointers
      rw [branch, if_pos branches] at own
      cases own
      exact pointers

theorem hasChar_of_descend {np sub : Node} {s : List Int} {before after : Trackers}
    (found : descend np s before = some (sub, after)) (single : np.branches = false) :
    np.hasChar (s.headD 0) := by
  cases np with
  | null => cases found
  | node address c left center right data =>
      cases s with
      | nil => cases found
      | cons ch s =>
          by_cases same : ch = c
          · simp [hasChar, same]
          · simp only [branches, Bool.or_eq_false_iff, decide_eq_false_iff_not, not_not] at single
            obtain ⟨rfl, rfl⟩ := single
            rw [descend, if_neg same] at found
            split at found <;> cases found

theorem follows_descend {np sub : Node} {s : List Int} {before after : Trackers}
    (found : descend np s before = some (sub, after)) : Follows np s before after := by
  induction np generalizing s before with
  | null => cases found
  | node address c left center right data leftHypothesis centerHypothesis rightHypothesis =>
      cases s with
      | nil => cases found
      | cons ch s =>
          rw [descend] at found
          split at found
          next same =>
            subst same
            split at found
            next empty =>
              subst empty
              cases found
              exact {
                first := by simp [firstMatch]
                alone := fun _ => by simp [hasChar]
                last := fun _ _ below => by simp [lastBelow] at below }
            next more =>
              obtain ⟨first, alone, last⟩ := (centerHypothesis found).enter
              exact {
                first := by
                  rw [first, firstMatch, if_pos rfl, Option.or_assoc, Option.some_or]
                alone := by
                  intro nothing
                  rw [lastBelow, if_pos rfl, if_neg more] at nothing
                  obtain ⟨single, lastNp, lastS⟩ := alone nothing
                  rw [if_pos (hasChar_of_descend found single)] at lastS
                  exact ⟨lastNp, lastS.trans (by simp [hasChar])⟩
                last := by
                  intro further rest below
                  rw [lastBelow, if_pos rfl, if_neg more] at below
                  exact last further rest below }
          next different =>
            split at found
            next less =>
              obtain ⟨first, alone, last⟩ := (leftHypothesis found).enter
              exact {
                first := by rw [first, firstMatch, if_neg different, if_pos less]
                alone := by
                  intro nothing
                  rw [lastBelow, if_neg different, if_pos less] at nothing
                  obtain ⟨-, lastNp, lastS⟩ := alone nothing
                  refine ⟨lastNp, lastS.trans ?_⟩
                  simp [hasChar, Ne.symm different]
                last := by
                  intro further rest below
                  rw [lastBelow, if_neg different, if_pos less] at below
                  exact last further rest below }
            next notLess =>
              obtain ⟨first, alone, last⟩ := (rightHypothesis found).enter
              exact {
                first := by rw [first, firstMatch, if_neg different, if_neg notLess]
                alone := by
                  intro nothing
                  rw [lastBelow, if_neg different, if_neg notLess] at nothing
                  obtain ⟨-, lastNp, lastS⟩ := alone nothing
                  refine ⟨lastNp, lastS.trans ?_⟩
                  simp [hasChar, Ne.symm different]
                last := by
                  intro further rest below
                  rw [lastBelow, if_neg different, if_neg notLess] at below
                  exact last further rest below }

/-! ### The way to a node -/

theorem branches_eq_false {address : Nat} {c : Int} {left center right : Node}
    {data : Option NodeData}
    (single : (node address c left center right data).branches = false) :
    left = .null ∧ right = .null := by
  simpa [branches] using single

theorem branch_eq_none {np : Node} {s : List Int} (none : np.branch s = none) :
    np.branches = false := by
  by_contra branches
  rw [branch, if_pos (by simpa using branches)] at none
  cases none

theorem spine_of_find {np : Node} {s : List Int} {address : Nat} {c : Int} {left right : Node}
    {data : Option NodeData} (single : np.branches = false) (below : np.lastBelow s = none)
    (found : np.find s = some (.node address c left .null right data)) : Spine np s := by
  induction np generalizing s with
  | null => cases found
  | node own first before center behind stored _ centerHypothesis _ =>
      cases s with
      | nil => cases found
      | cons ch s =>
          obtain ⟨rfl, rfl⟩ := branches_eq_false single
          rw [find] at found
          rw [lastBelow] at below
          split at found
          next same =>
            subst same
            rw [if_pos rfl] at below
            split at found
            next empty =>
              subst empty
              cases found
              exact .last _ _ _
            next more =>
              rw [if_neg more] at below
              obtain ⟨nothing, own⟩ := Option.or_eq_none_iff.mp below
              exact .more _ _ _ more (centerHypothesis (branch_eq_none own) nothing found)
          next => split at found <;> cases found

theorem Spine.hasChar {np : Node} {s : List Int} (spine : Spine np s) :
    np.hasChar (s.headD 0) := by
  cases spine <;> simp [Node.hasChar]

theorem Spine.get_eq_none {np : Node} {s word : List Int} (spine : Spine np s)
    (other : ¬ word <+: s) : np.get word = none := by
  induction spine generalizing word with
  | last address c data =>
      cases word with
      | nil => rfl
      | cons ch word =>
          rcases lt_trichotomy ch c with less | rfl | greater
          · rw [get_of_lt less, get_null]
          · cases word with
            | nil => exact absurd List.prefix_rfl other
            | cons next word => rw [get_self (List.cons_ne_nil _ _), get_null]
          · rw [get_of_gt greater, get_null]
  | more address c data more spine inductionHypothesis =>
      cases word with
      | nil => rfl
      | cons ch word =>
          rcases lt_trichotomy ch c with less | rfl | greater
          · rw [get_of_lt less, get_null]
          · cases word with
            | nil => exact absurd ((List.prefix_cons_inj ch).mpr List.nil_prefix) other
            | cons next word =>
                rw [get_self (List.cons_ne_nil _ _)]
                exact inductionHypothesis fun isPrefix =>
                  other ((List.prefix_cons_inj ch).mpr isPrefix)
          · rw [get_of_gt greater, get_null]

theorem leads_of_find {np : Node} {s : List Int} {address : Nat} {c : Int}
    {left center right : Node} {data : Option NodeData}
    (found : np.find s = some (.node address c left center right data)) :
    Leads np s (.node address c left center right data) [c] := by
  induction np generalizing s with
  | null => cases found
  | node own first before within behind stored leftHypothesis centerHypothesis rightHypothesis =>
      cases s with
      | nil => cases found
      | cons ch s =>
          rw [find] at found
          split at found
          next same =>
            subst same
            split at found
            next empty =>
              subst empty
              cases found
              exact .here _ _
            next more => exact .center more (centerHypothesis found)
          next different =>
            split at found
            next less => exact .left less (leftHypothesis found)
            next notLess =>
              exact .right (lt_of_le_of_ne (not_lt.mp notLess) (Ne.symm different))
                (rightHypothesis found)

/-- The string leads to the last node that branches, and from there on without branches. -/
theorem leads_of_lastBelow {np sub found : Node} {s rest : List Int}
    (last : np.lastBelow s = some (sub, rest)) (ends : np.find s = some found) :
    Leads np s sub rest ∧ sub.branches ∧ sub.lastBelow rest = none ∧
      sub.find rest = some found := by
  have entered : ∀ {child : Node} {s : List Int},
      (child.lastBelow s = some (sub, rest) → child.find s = some found →
        Leads child s sub rest ∧ sub.branches ∧ sub.lastBelow rest = none ∧
          sub.find rest = some found) →
      (child.lastBelow s).or (child.branch s) = some (sub, rest) → child.find s = some found →
        Leads child s sub rest ∧ sub.branches ∧ sub.lastBelow rest = none ∧
          sub.find rest = some found := by
    intro child s hypothesis last ends
    rcases Option.or_eq_some_iff.mp last with below | ⟨below, own⟩
    · exact hypothesis below ends
    · rw [branch] at own
      split at own
      next branches =>
        cases own
        exact ⟨.here _ _, branches, below, ends⟩
      next => cases own
  induction np generalizing s with
  | null => cases last
  | node own c left center right data leftHypothesis centerHypothesis rightHypothesis =>
      cases s with
      | nil => cases last
      | cons ch s =>
          rw [lastBelow] at last
          rw [find] at ends
          split at last
          next same =>
            subst same
            split at last
            next => cases last
            next more =>
              rw [if_pos rfl, if_neg more] at ends
              obtain ⟨leads, rest⟩ := entered centerHypothesis last ends
              exact ⟨.center more leads, rest⟩
          next different =>
            rw [if_neg different] at ends
            split at last
            next less =>
              rw [if_pos less] at ends
              obtain ⟨leads, rest⟩ := entered leftHypothesis last ends
              exact ⟨.left less leads, rest⟩
            next notLess =>
              rw [if_neg notLess] at ends
              obtain ⟨leads, rest⟩ := entered rightHypothesis last ends
              exact ⟨.right (lt_of_le_of_ne (not_lt.mp notLess) (Ne.symm different)) leads, rest⟩

/-! ### Changes of a node on the way -/

section Leads

variable {np sub : Node} {s rest : List Int} {address : Nat}

theorem Leads.mem_addresses (leads : Leads np s sub rest) (lies : sub.address? = some address) :
    address ∈ np.addresses := by
  induction leads with
  | here np s =>
      cases np with
      | null => cases lies
      | node =>
          cases lies
          exact mem_addresses_node.mpr (.inl rfl)
  | left _ _ inductionHypothesis =>
      exact mem_addresses_node.mpr (.inr (.inl (inductionHypothesis lies)))
  | center _ _ inductionHypothesis =>
      exact mem_addresses_node.mpr (.inr (.inr (.inl (inductionHypothesis lies))))
  | right _ _ inductionHypothesis =>
      exact mem_addresses_node.mpr (.inr (.inr (.inr (inductionHypothesis lies))))

section Below

variable {own : Nat} {c : Int} {left center right : Node} {data : Option NodeData}
  (distinct : (node own c left center right data).addresses.Nodup)

include distinct

theorem not_mem_of_left (inside : address ∈ left.addresses) :
    own ≠ address ∧ address ∉ center.addresses ∧ address ∉ right.addresses := by
  have apart := nodup_node distinct
  refine ⟨?_, apart.leftCenter _ inside, apart.leftRight _ inside⟩
  rintro rfl
  exact apart.ownLeft inside

theorem not_mem_of_center (inside : address ∈ center.addresses) :
    own ≠ address ∧ address ∉ left.addresses ∧ address ∉ right.addresses := by
  have apart := nodup_node distinct
  refine ⟨?_, fun there => apart.leftCenter _ there inside, apart.centerRight _ inside⟩
  rintro rfl
  exact apart.ownCenter inside

theorem not_mem_of_right (inside : address ∈ right.addresses) :
    own ≠ address ∧ address ∉ left.addresses ∧ address ∉ center.addresses := by
  have apart := nodup_node distinct
  refine ⟨?_, fun there => apart.leftRight _ there inside,
    fun there => apart.centerRight _ there inside⟩
  rintro rfl
  exact apart.ownRight inside

theorem modify_left (inside : address ∈ left.addresses) (change : Node → Node) :
    (node own c left center right data).modify address change =
      node own c (left.modify address change) center right data := by
  obtain ⟨different, notCenter, notRight⟩ := not_mem_of_left distinct inside
  rw [modify, if_neg different, modify_of_not_mem notCenter, modify_of_not_mem notRight]

theorem modify_center (inside : address ∈ center.addresses) (change : Node → Node) :
    (node own c left center right data).modify address change =
      node own c left (center.modify address change) right data := by
  obtain ⟨different, notLeft, notRight⟩ := not_mem_of_center distinct inside
  rw [modify, if_neg different, modify_of_not_mem notLeft, modify_of_not_mem notRight]

theorem modify_right (inside : address ∈ right.addresses) (change : Node → Node) :
    (node own c left center right data).modify address change =
      node own c left center (right.modify address change) data := by
  obtain ⟨different, notLeft, notCenter⟩ := not_mem_of_right distinct inside
  rw [modify, if_neg different, modify_of_not_mem notLeft, modify_of_not_mem notCenter]

end Below

theorem modify_self (lies : np.address? = some address) (change : Node → Node) :
    np.modify address change = change np := by
  cases np with
  | null => cases lies
  | node =>
      cases lies
      exact if_pos rfl

theorem at?_self (lies : np.address? = some address) : np.at? address = some np := by
  cases np with
  | null => cases lies
  | node =>
      cases lies
      exact if_pos rfl

theorem Leads.at?_modify {change : Node → Node} (leads : Leads np s sub rest)
    (distinct : np.addresses.Nodup) (lies : sub.address? = some address)
    (stays : (change sub).address? = some address) :
    (np.modify address change).at? address = some (change sub) := by
  induction leads with
  | here np s => rw [modify_self lies, at?_self stays]
  | left _ leads inductionHypothesis =>
      have inside := leads.mem_addresses lies
      rw [modify_left distinct inside, at?, if_neg (not_mem_of_left distinct inside).1,
        inductionHypothesis (nodup_node distinct).inLeft lies stays]
      rfl
  | center _ leads inductionHypothesis =>
      have inside := leads.mem_addresses lies
      obtain ⟨different, notLeft, -⟩ := not_mem_of_center distinct inside
      rw [modify_center distinct inside, at?, if_neg different, at?_of_not_mem notLeft,
        inductionHypothesis (nodup_node distinct).inCenter lies stays]
      rfl
  | right _ leads inductionHypothesis =>
      have inside := leads.mem_addresses lies
      obtain ⟨different, notLeft, notCenter⟩ := not_mem_of_right distinct inside
      rw [modify_right distinct inside, at?, if_neg different, at?_of_not_mem notLeft,
        at?_of_not_mem notCenter, inductionHypothesis (nodup_node distinct).inRight lies stays]
      rfl

theorem Leads.subset (leads : Leads np s sub rest) :
    ∀ inner ∈ sub.addresses, inner ∈ np.addresses := by
  induction leads with
  | here np s => exact fun _ inside => inside
  | left _ _ inductionHypothesis =>
      exact fun inner inside => mem_addresses_node.mpr (.inr (.inl (inductionHypothesis _ inside)))
  | center _ _ inductionHypothesis =>
      exact fun inner inside =>
        mem_addresses_node.mpr (.inr (.inr (.inl (inductionHypothesis _ inside))))
  | right _ _ inductionHypothesis =>
      exact fun inner inside =>
        mem_addresses_node.mpr (.inr (.inr (.inr (inductionHypothesis _ inside))))

theorem Leads.distinct (leads : Leads np s sub rest) (distinct : np.addresses.Nodup) :
    sub.addresses.Nodup := by
  induction leads with
  | here np s => exact distinct
  | left _ _ inductionHypothesis => exact inductionHypothesis (nodup_node distinct).inLeft
  | center _ _ inductionHypothesis => exact inductionHypothesis (nodup_node distinct).inCenter
  | right _ _ inductionHypothesis => exact inductionHypothesis (nodup_node distinct).inRight

theorem Leads.ordered (leads : Leads np s sub rest) (ordered : np.tree.Ordered) :
    sub.tree.Ordered := by
  induction leads with
  | here np s => exact ordered
  | left _ _ inductionHypothesis => exact inductionHypothesis ordered.2.1
  | center _ _ inductionHypothesis => exact inductionHypothesis ordered.2.2.1
  | right _ _ inductionHypothesis => exact inductionHypothesis ordered.2.2.2

theorem Leads.chars (leads : Leads np s sub rest) : ∀ c ∈ sub.chars, c ∈ np.chars := by
  induction leads with
  | here np s => exact fun _ member => member
  | left _ _ inductionHypothesis =>
      exact fun c member => List.mem_cons_of_mem _
        (List.mem_append_left _ (List.mem_append_left _ (inductionHypothesis c member)))
  | center _ _ inductionHypothesis =>
      exact fun c member => List.mem_cons_of_mem _
        (List.mem_append_left _ (List.mem_append_right _ (inductionHypothesis c member)))
  | right _ _ inductionHypothesis =>
      exact fun c member => List.mem_cons_of_mem _
        (List.mem_append_right _ (inductionHypothesis c member))

theorem Leads.modify_within {inner : Nat} (leads : Leads np s sub rest)
    (distinct : np.addresses.Nodup) (lies : sub.address? = some address)
    (within : inner ∈ sub.addresses) (change : Node → Node) :
    np.modify inner change = np.modify address fun sub => sub.modify inner change := by
  induction leads with
  | here np s => exact (modify_self lies _).symm
  | left _ leads inductionHypothesis =>
      rw [modify_left distinct (leads.subset _ within),
        modify_left distinct (leads.mem_addresses lies),
        inductionHypothesis (nodup_node distinct).inLeft lies within]
  | center _ leads inductionHypothesis =>
      rw [modify_center distinct (leads.subset _ within),
        modify_center distinct (leads.mem_addresses lies),
        inductionHypothesis (nodup_node distinct).inCenter lies within]
  | right _ leads inductionHypothesis =>
      rw [modify_right distinct (leads.subset _ within),
        modify_right distinct (leads.mem_addresses lies),
        inductionHypothesis (nodup_node distinct).inRight lies within]

theorem modify_modify {first second : Node → Node}
    (stays : ∀ np, np.address? = some address → (first np).address? = some address)
    (np : Node) : (np.modify address first).modify address second =
      np.modify address fun np => second (first np) := by
  induction np with
  | null => rfl
  | node own c left center right data leftHypothesis centerHypothesis rightHypothesis =>
      by_cases here : own = address
      · have lies : (node own c left center right data).address? = some address := by
          rw [address?, here]
        rw [modify_self lies, modify_self lies, modify_self (stays _ lies)]
      · rw [modify, if_neg here, modify, if_neg here, modify, if_neg here, leftHypothesis,
          centerHypothesis, rightHypothesis]

theorem Leads.get_modify_iff {change : Node → Node} (leads : Leads np s sub rest)
    (distinct : np.addresses.Nodup) (ordered : np.tree.Ordered)
    (lies : sub.address? = some address) (shrinks : ∀ np, Shrinks (change np) np) :
    (∀ word, word ≠ s → (np.modify address change).get word = np.get word) ↔
      ∀ word, word ≠ rest → (change sub).get word = sub.get word := by
  induction leads with
  | here np s => rw [modify_self lies]
  | @left own c ch left center right sub data s rest less leads inductionHypothesis =>
      obtain ⟨⟨below, -⟩, inLeft, -, -⟩ := ordered
      have inner := inductionHypothesis (nodup_node distinct).inLeft inLeft lies
      have level := (shrinks_modify shrinks address left).level.subset
      rw [modify_left distinct (leads.mem_addresses lies), ← inner]
      constructor
      · intro same word different
        cases word with
        | nil => rfl
        | cons first word =>
            rcases lt_or_ge first c with inside | beyond
            · have := same (first :: word) different
              rwa [get_of_lt inside, get_of_lt inside] at this
            · have absent : first ∉ left.tree.level :=
                fun member => not_lt_of_ge beyond (below first member)
              rw [get_eq_none absent, get_eq_none fun member => absent (level member)]
      · intro same
        exact get_node_congr (fun first s _ different => same _ different) (fun _ _ _ => rfl)
          fun _ _ _ _ => rfl
  | @center own c left center right sub data s rest more leads inductionHypothesis =>
      obtain ⟨-, -, inCenter, -⟩ := ordered
      have inner := inductionHypothesis (nodup_node distinct).inCenter inCenter lies
      rw [modify_center distinct (leads.mem_addresses lies), ← inner]
      constructor
      · intro same word different
        cases word with
        | nil => rfl
        | cons first word =>
            have := same (c :: first :: word) (by simpa using different)
            rwa [get_self (List.cons_ne_nil _ _), get_self (List.cons_ne_nil _ _)] at this
      · intro same
        exact get_node_congr (fun _ _ _ _ => rfl)
          (fun word _ different => same word (by simpa using different)) fun _ _ _ _ => rfl
  | @right own c ch left center right sub data s rest greater leads inductionHypothesis =>
      obtain ⟨⟨-, above⟩, -, -, inRight⟩ := ordered
      have inner := inductionHypothesis (nodup_node distinct).inRight inRight lies
      have level := (shrinks_modify shrinks address right).level.subset
      rw [modify_right distinct (leads.mem_addresses lies), ← inner]
      constructor
      · intro same word different
        cases word with
        | nil => rfl
        | cons first word =>
            rcases lt_or_ge c first with inside | beyond
            · have := same (first :: word) different
              rwa [get_of_gt inside, get_of_gt inside] at this
            · have absent : first ∉ right.tree.level :=
                fun member => not_lt_of_ge beyond (above first member)
              rw [get_eq_none absent, get_eq_none fun member => absent (level member)]
      · intro same
        exact get_node_congr (fun _ _ _ _ => rfl) (fun _ _ _ => rfl)
          fun first s _ different => same _ different

theorem Leads.get_modify_self {change : Node → Node} (leads : Leads np s sub rest)
    (distinct : np.addresses.Nodup) (lies : sub.address? = some address) :
    (np.modify address change).get s = (change sub).get rest := by
  induction leads with
  | here np s => rw [modify_self lies]
  | left less leads inductionHypothesis =>
      rw [modify_left distinct (leads.mem_addresses lies), get_of_lt less,
        inductionHypothesis (nodup_node distinct).inLeft lies]
  | center more leads inductionHypothesis =>
      rw [modify_center distinct (leads.mem_addresses lies), get_self more,
        inductionHypothesis (nodup_node distinct).inCenter lies]
  | right greater leads inductionHypothesis =>
      rw [modify_right distinct (leads.mem_addresses lies), get_of_gt greater,
        inductionHypothesis (nodup_node distinct).inRight lies]

end Leads

end Node

end Mevent.Tst
