import Mathlib.Data.List.Nodup
import Mathlib.Order.Basic

/-!
# Lists in the order of their stamps

A node is stamped with the time at which it was last heard of and goes to the back of a
list.  It may go to the back first and be stamped a while later; until then it is late.
Nodes that are not live have no stamp.  A scan of such a list may stop at the first stamp
that is recent enough.
-/

namespace Mevent.Library

universe u v
variable {Node : Type u} {Time : Type v}

/-- The stamps of the live nodes do not decrease, except at a late one. -/
def OldestFirst [LE Time] (live late : Node → Prop) (stamp : Node → Time)
    (nodes : List Node) : Prop :=
  nodes.Pairwise fun earlier later =>
    live earlier → live later → late later ∨ stamp earlier ≤ stamp later

namespace OldestFirst

variable [LE Time] {live late : Node → Prop} {stamp : Node → Time} {nodes front back : List Node}
  {node : Node}

theorem sublist (ordered : OldestFirst live late stamp nodes) (fewer : front.Sublist nodes) :
    OldestFirst live late stamp front :=
  List.Pairwise.sublist fewer ordered

theorem congr {alive tardy : Node → Prop} {mark : Node → Time}
    (ordered : OldestFirst live late stamp nodes)
    (lives : ∀ node ∈ nodes, alive node → live node)
    (lasts : ∀ earlier ∈ nodes, ∀ later ∈ nodes, alive earlier → alive later →
      late later ∨ stamp earlier ≤ stamp later → tardy later ∨ mark earlier ≤ mark later) :
    OldestFirst alive tardy mark nodes := by
  refine List.Pairwise.imp_of_mem ?_ ordered
  intro earlier later inside also_inside before earlier_alive later_alive
  apply lasts earlier inside later also_inside earlier_alive later_alive
  exact before (lives earlier inside earlier_alive) (lives later also_inside later_alive)

theorem snoc (ordered : OldestFirst live late stamp nodes)
    (latest : ∀ earlier ∈ nodes, live earlier → live node →
      late node ∨ stamp earlier ≤ stamp node) :
    OldestFirst live late stamp (nodes ++ [node]) := by
  refine List.pairwise_append.mpr ⟨ordered, List.pairwise_singleton _ _, ?_⟩
  intro earlier inside last at_last
  cases List.mem_singleton.mp at_last
  exact latest earlier inside

/-- Behind a live node, every live node has a later stamp or is late. -/
theorem behind (ordered : OldestFirst live late stamp (front ++ node :: back))
    (alive : live node) {later : Node} (inside : later ∈ back) (later_alive : live later) :
    late later ∨ stamp node ≤ stamp later := by
  have rest := (List.pairwise_append.mp ordered).2.1
  exact List.rel_of_pairwise_cons rest inside alive later_alive

/-- Without a late node, the stamps of the live nodes are in order. -/
theorem stamps [DecidablePred live] (ordered : OldestFirst live late stamp nodes)
    (punctual : ∀ node ∈ nodes, ¬ late node) :
    ((nodes.filter live).map stamp).Pairwise (· ≤ ·) := by
  refine List.pairwise_map.mpr (List.pairwise_filter.mpr ?_)
  refine List.Pairwise.imp_of_mem ?_ ordered
  intro earlier later _ inside before earlier_live later_live
  have ordered := before (of_decide_eq_true earlier_live) (of_decide_eq_true later_live)
  exact ordered.resolve_left (punctual later inside)

end OldestFirst

end Mevent.Library
