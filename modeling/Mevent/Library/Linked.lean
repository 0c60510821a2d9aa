import Mathlib.Logic.Function.Basic
import Mathlib.Data.List.Nodup

/-!
# Lists linked through their nodes

A node's successor is given by a function, so that a change of one link is a
`Function.update`.  A doubly linked list is represented by a list when its nodes
are met in that order along the one link and in the opposite order along the
other.
-/

namespace Mevent.Library

universe u
variable {Node : Type u}

/-- Following `next` from `first` meets exactly `nodes` and then `stop`. -/
def Segment (next : Node → Option Node) : Option Node → List Node → Option Node → Prop
  | first, [], stop => first = stop
  | first, node :: rest, stop => first = some node ∧ Segment next (next node) rest stop

/-- Following `next` from `first` meets exactly `nodes` and then a null link. -/
def IsChain (next : Node → Option Node) (first : Option Node) (nodes : List Node) : Prop :=
  Segment next first nodes none

/-- The nodes that are met when `next` is followed from a link. -/
inductive Met (next : Node → Option Node) : Option Node → Node → Prop where
  | here (node : Node) : Met next (some node) node
  | further {node other : Node} : Met next (next node) other → Met next (some node) other

section Segment

variable {next : Node → Option Node} {first stop : Option Node}

@[simp]
theorem segment_nil : Segment next first [] stop ↔ first = stop := Iff.rfl

@[simp]
theorem segment_cons {node : Node} {rest : List Node} :
    Segment next first (node :: rest) stop ↔
      first = some node ∧ Segment next (next node) rest stop := Iff.rfl

theorem segment_append {front behind : List Node} :
    Segment next first (front ++ behind) stop ↔
      ∃ middle, Segment next first front middle ∧ Segment next middle behind stop := by
  induction front generalizing first with
  | nil => simp
  | cons node rest inductionHypothesis =>
      simp only [List.cons_append, segment_cons, inductionHypothesis]
      constructor
      · rintro ⟨same, middle, along, behind⟩
        exact ⟨middle, ⟨same, along⟩, behind⟩
      · rintro ⟨middle, ⟨same, along⟩, behind⟩
        exact ⟨same, middle, along, behind⟩

theorem segment_snoc {front : List Node} {node : Node} :
    Segment next first (front ++ [node]) stop ↔
      Segment next first front (some node) ∧ next node = stop := by
  rw [segment_append]
  constructor
  · rintro ⟨middle, along, same, last⟩
    subst same
    exact ⟨along, last⟩
  · rintro ⟨along, last⟩
    exact ⟨some node, along, rfl, last⟩

theorem segment_congr {changed : Node → Option Node} {nodes : List Node}
    (agree : ∀ node ∈ nodes, changed node = next node) :
    Segment changed first nodes stop ↔ Segment next first nodes stop := by
  induction nodes generalizing first with
  | nil => rfl
  | cons node rest inductionHypothesis =>
      simp only [segment_cons, agree node (by simp)]
      rw [inductionHypothesis fun later member => agree later (by simp [member])]

theorem mem_of_met {nodes : List Node} {node : Node} (along : IsChain next first nodes)
    (met : Met next first node) : node ∈ nodes := by
  induction met generalizing nodes with
  | here node =>
      cases nodes with
      | nil => cases along
      | cons front rest =>
          cases along.1
          exact List.mem_cons_self
  | further _ inductionHypothesis =>
      cases nodes with
      | nil => cases along
      | cons front rest =>
          cases along.1
          exact List.mem_cons_of_mem _ (inductionHypothesis along.2)

theorem met_of_mem {nodes : List Node} {node : Node} (along : IsChain next first nodes)
    (inside : node ∈ nodes) : Met next first node := by
  induction nodes generalizing first with
  | nil => cases inside
  | cons front rest inductionHypothesis =>
      rw [along.1]
      rcases List.mem_cons.mp inside with same | behind
      · rw [same]
        exact .here front
      · exact .further (inductionHypothesis along.2 behind)

/-- What is met from a link is determined. -/
theorem isChain_unique {nodes others : List Node} (along : IsChain next first nodes)
    (also : IsChain next first others) : nodes = others := by
  induction nodes generalizing first others with
  | nil =>
      cases along
      cases others with
      | nil => rfl
      | cons node rest => cases also.1
  | cons node rest inductionHypothesis =>
      cases along.1
      cases others with
      | nil => cases also
      | cons other more =>
          cases also.1
          rw [inductionHypothesis along.2 also.2]

theorem first_of_chain {nodes : List Node} (along : IsChain next first nodes) :
    first = nodes.head? := by
  cases nodes with
  | nil => exact along
  | cons node rest => exact along.1

end Segment

theorem getLast?_ne_of_not_mem {nodes : List Node} {node : Node} (outside : node ∉ nodes) :
    nodes.getLast? ≠ some node :=
  fun last => outside (List.mem_of_getLast? last)

theorem head?_ne_of_not_mem {nodes : List Node} {node : Node} (outside : node ∉ nodes) :
    nodes.head? ≠ some node :=
  fun first => outside (List.mem_of_mem_head? first)

theorem single_of_ends {nodes : List Node} (nodup : nodes.Nodup)
    (ends : nodes.getLast? = nodes.head?) : nodes.length ≤ 1 := by
  cases nodes with
  | nil => simp
  | cons first rest =>
      cases rest with
      | nil => simp
      | cons second rest =>
          rw [List.getLast?_cons_cons] at ends
          exact absurd (List.mem_of_getLast? ends) (List.nodup_cons.mp nodup).1

section Update

variable [DecidableEq Node] {next : Node → Option Node} {first stop : Option Node}

theorem segment_update {node : Node} {link : Option Node} {nodes : List Node}
    (outside : node ∉ nodes) :
    Segment (Function.update next node link) first nodes stop ↔
      Segment next first nodes stop := by
  apply segment_congr
  intro member inside
  have different : member ≠ node := fun same => outside (same ▸ inside)
  exact Function.update_of_ne different link next

theorem isChain_push {node : Node} {nodes : List Node} (along : IsChain next first nodes)
    (outside : node ∉ nodes) :
    IsChain (Function.update next node first) (some node) (node :: nodes) := by
  refine ⟨rfl, ?_⟩
  rw [Function.update_self]
  exact (segment_update outside).mpr along

/-- `link` as the link of `node`, if there is one. -/
def redirect (next : Node → Option Node) (node : Option Node) (link : Option Node) :
    Node → Option Node :=
  match node with
  | none => next
  | some node => Function.update next node link

theorem segment_redirect (link : Option Node) {nodes : List Node} (nodup : nodes.Nodup)
    (along : Segment next first nodes stop) :
    Segment (redirect next nodes.getLast? link) (if nodes = [] then link else first)
      nodes link := by
  rcases nodes.eq_nil_or_concat with empty | ⟨front, last, split⟩
  · subst empty
    simp
  · rw [List.concat_eq_append] at split
    subst split
    have outside : last ∉ front := by
      intro inside
      exact (List.nodup_append.mp nodup).2.2 last inside last (by simp) rfl
    rw [segment_snoc] at along
    simp only [List.getLast?_concat, redirect, List.append_eq_nil_iff, List.cons_ne_nil,
      and_false, if_false]
    exact segment_snoc.mpr ⟨(segment_update outside).mpr along.1, Function.update_self _ _ _⟩

end Update

/-- The two ends of a doubly linked list and the links between its nodes. -/
structure Links (Node : Type u) where
  head : Option Node
  tail : Option Node
  next : Node → Option Node
  prev : Node → Option Node

namespace Links

/-- The links of a list: a chain in either direction, no node twice, and null
links outside. -/
structure Represents (links : Links Node) (nodes : List Node) : Prop where
  nodup : nodes.Nodup
  forward : IsChain links.next links.head nodes
  backward : IsChain links.prev links.tail nodes.reverse
  outside : ∀ node, node ∉ nodes → links.next node = none ∧ links.prev node = none

namespace Represents

variable {links : Links Node} {nodes : List Node}

theorem head_eq (represents : links.Represents nodes) : links.head = nodes.head? :=
  first_of_chain represents.forward

theorem tail_eq (represents : links.Represents nodes) : links.tail = nodes.getLast? := by
  have first := first_of_chain represents.backward
  rwa [List.head?_reverse] at first

theorem reverse (represents : links.Represents nodes) :
    (Links.mk links.tail links.head links.prev links.next).Represents nodes.reverse where
  nodup := List.nodup_reverse.mpr represents.nodup
  forward := represents.backward
  backward := by simpa using represents.forward
  outside node unlisted :=
    (represents.outside node (by simpa using unlisted)).symm

theorem next_eq {front behind : List Node} {node : Node}
    (represents : links.Represents (front ++ node :: behind)) :
    links.next node = behind.head? := by
  obtain ⟨middle, -, -, along⟩ := segment_append.mp represents.forward
  exact first_of_chain along

theorem prev_eq {front behind : List Node} {node : Node}
    (represents : links.Represents (front ++ node :: behind)) :
    links.prev node = front.getLast? := by
  have backwards := represents.reverse
  simp only [List.reverse_append, List.reverse_cons, List.append_assoc, List.singleton_append]
    at backwards
  have same : links.prev node = front.reverse.head? := backwards.next_eq
  rwa [List.head?_reverse] at same

theorem prev_of_next {node other : Node} (represents : links.Represents nodes)
    (link : links.next node = some other) : links.prev other = some node := by
  have listed : node ∈ nodes := by
    by_contra outside
    rw [(represents.outside node outside).1] at link
    cases link
  obtain ⟨front, behind, rfl⟩ := List.append_of_mem listed
  rw [represents.next_eq] at link
  obtain ⟨further, rfl⟩ := List.head?_eq_some_iff.mp link
  have split : front ++ node :: other :: further = (front ++ [node]) ++ other :: further := by
    simp
  rw [split] at represents
  rw [represents.prev_eq, List.getLast?_concat]

/-- The two links of a node are inverse to each other. -/
theorem next_iff_prev {node other : Node} (represents : links.Represents nodes) :
    links.next node = some other ↔ links.prev other = some node :=
  ⟨represents.prev_of_next, represents.reverse.prev_of_next⟩

end Represents

variable [DecidableEq Node]

/-- `node` behind the last node. -/
def append (links : Links Node) (node : Node) : Links Node where
  head := if links.tail = none then some node else links.head
  tail := some node
  next := redirect links.next links.tail (some node)
  prev := redirect links.prev (links.tail.map fun _ => node) links.tail

/-- The neighbours of `node` linked to each other, and `node` to none. -/
def unlink (links : Links Node) (node : Node) : Links Node where
  head := if links.prev node = none then links.next node else links.head
  tail := if links.next node = none then links.prev node else links.tail
  next := Function.update (redirect links.next (links.prev node) (links.next node)) node none
  prev := Function.update (redirect links.prev (links.next node) (links.prev node)) node none

theorem redirect_of_ne {next : Node → Option Node} {changed link : Option Node} {node : Node}
    (different : changed ≠ some node) : redirect next changed link node = next node := by
  cases changed with
  | none => rfl
  | some other =>
      have apart : node ≠ other := fun same => different (same ▸ rfl)
      exact Function.update_of_ne apart link next

namespace Represents

variable {links : Links Node} {nodes : List Node}

theorem append {node : Node} (represents : links.Represents nodes) (outside : node ∉ nodes) :
    (links.append node).Represents (nodes ++ [node]) where
  nodup := by
    refine List.nodup_append.mpr ⟨represents.nodup, List.nodup_singleton node, ?_⟩
    intro member listed added appended same
    exact outside (List.mem_singleton.mp appended ▸ same ▸ listed)
  forward := by
    have last_link : (links.append node).next node = none := by
      simp only [Links.append, represents.tail_eq]
      rw [redirect_of_ne (getLast?_ne_of_not_mem outside)]
      exact (represents.outside node outside).1
    refine segment_snoc.mpr ⟨?_, last_link⟩
    have along := segment_redirect (some node) represents.nodup represents.forward
    simpa [Links.append, represents.tail_eq] using along
  backward := by
    rw [List.reverse_append]
    refine ⟨rfl, ?_⟩
    by_cases empty : links.tail = none
    · have nothing : nodes = [] := by simpa [represents.tail_eq] using empty
      subst nothing
      simpa [Links.append, empty, redirect] using (represents.outside node outside).2
    · have some_tail : links.tail.map (fun _ => node) = some node := by
        obtain ⟨tail, same⟩ := Option.ne_none_iff_exists'.mp empty
        simp [same]
      simp only [Links.append, some_tail, redirect, Function.update_self]
      exact (segment_update (by simpa using outside)).mpr represents.backward
  outside other unlisted := by
    simp only [List.mem_append, List.mem_singleton, not_or] at unlisted
    have unlinked := represents.outside other unlisted.1
    constructor
    · simp only [Links.append, represents.tail_eq]
      rw [redirect_of_ne (getLast?_ne_of_not_mem unlisted.1)]
      exact unlinked.1
    · simp only [Links.append]
      rw [redirect_of_ne]
      · exact unlinked.2
      · intro same
        obtain ⟨tail, -, added⟩ := Option.map_eq_some_iff.mp same
        exact unlisted.2 added.symm

/-- Half of what `unlink` does; the other half is the same for the list read
backwards. -/
theorem forward_unlink {front behind : List Node} {node : Node}
    (represents : links.Represents (front ++ node :: behind)) :
    IsChain (links.unlink node).next (links.unlink node).head (front ++ behind) := by
  obtain ⟨nodup_front, nodup_rest, apart⟩ := List.nodup_append.mp represents.nodup
  obtain ⟨outside_behind, nodup_behind⟩ := List.nodup_cons.mp nodup_rest
  have outside_front : node ∉ front := fun inside => apart node inside node (by simp) rfl
  obtain ⟨middle, along_front, at_node, along_behind⟩ :=
    segment_append.mp represents.forward
  subst at_node
  have last_outside : ∀ member ∈ behind, front.getLast? ≠ some member := by
    intro member inside last
    exact apart member (List.mem_of_getLast? last) member (by simp [inside]) rfl
  simp only [IsChain, Links.unlink]
  rw [segment_update (by simp [outside_front, outside_behind])]
  refine segment_append.mpr ⟨links.next node, ?_, ?_⟩
  · have redirected :=
      segment_redirect (links.next node) nodup_front along_front
    simpa [represents.prev_eq] using redirected
  · rw [represents.prev_eq]
    refine (segment_congr ?_).mpr along_behind
    intro member inside
    exact redirect_of_ne (last_outside member inside)

theorem unlink {front behind : List Node} {node : Node}
    (represents : links.Represents (front ++ node :: behind)) :
    (links.unlink node).Represents (front ++ behind) where
  nodup := by
    refine represents.nodup.sublist ?_
    exact List.Sublist.append_left (List.sublist_cons_self node behind) front
  forward := represents.forward_unlink
  backward := by
    have backwards := represents.reverse
    simp only [List.reverse_append, List.reverse_cons, List.append_assoc,
      List.singleton_append] at backwards
    rw [List.reverse_append]
    exact backwards.forward_unlink
  outside other unlisted := by
    by_cases same : other = node
    · subst same
      simp [Links.unlink]
    · have beyond : other ∉ front ++ node :: behind := by
        simpa [same] using unlisted
      have unlinked := represents.outside other beyond
      simp only [List.mem_append, not_or] at unlisted
      simp only [Links.unlink, Function.update_of_ne same, represents.next_eq,
        represents.prev_eq]
      rw [redirect_of_ne (getLast?_ne_of_not_mem unlisted.1),
        redirect_of_ne (head?_ne_of_not_mem unlisted.2)]
      exact unlinked

end Represents

end Links

end Mevent.Library
