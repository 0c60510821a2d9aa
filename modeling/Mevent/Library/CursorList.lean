import Mathlib.Data.List.Nodup

/-!
# Lists with a cursor

The cursor stands in front of a node or at the end, and divides the list into the nodes that
it has passed and those that are yet to come.  Nodes are appended and erased while it moves;
a node that stays where it is from one start of the cursor until the cursor is at the end is
passed once.
-/

namespace Mevent.Library

universe u
variable {Node : Type u}

/-- What the cursor has passed, and the rest. -/
structure CursorList (Node : Type u) where
  passed : List Node
  rest : List Node

namespace CursorList

def nodes (list : CursorList Node) : List Node := list.passed ++ list.rest

/-- A node at the end.  A cursor that is at the end stays at the end. -/
def push (list : CursorList Node) (node : Node) : CursorList Node :=
  if list.rest = [] then ⟨list.passed ++ [node], []⟩ else ⟨list.passed, list.rest ++ [node]⟩

/-- A node is taken away; the cursor moves on if it is in front of it. -/
def erase [DecidableEq Node] (list : CursorList Node) (node : Node) : CursorList Node :=
  ⟨list.passed.erase node, list.rest.erase node⟩

def rewind (list : CursorList Node) : CursorList Node := ⟨[], list.nodes⟩

/-- The cursor behind the next node, if there is one. -/
def next (list : CursorList Node) : CursorList Node :=
  ⟨list.passed ++ list.rest.head?.toList, list.rest.tail⟩

variable {list : CursorList Node} {node : Node}

@[simp]
theorem nodes_push : (list.push node).nodes = list.nodes ++ [node] := by
  unfold push nodes
  split
  next at_end => simp [at_end]
  next => simp

@[simp]
theorem nodes_rewind : list.rewind.nodes = list.nodes := rfl

@[simp]
theorem nodes_next : list.next.nodes = list.nodes := by
  unfold next nodes
  cases list.rest with
  | nil => simp
  | cons first rest => simp

theorem nodes_erase [DecidableEq Node] (nodup : list.nodes.Nodup) :
    (list.erase node).nodes = list.nodes.erase node := by
  unfold erase nodes
  rw [List.erase_append]
  split
  next in_passed =>
    have outside : node ∉ list.rest :=
      fun in_rest => (List.nodup_append.mp nodup).2.2 node in_passed node in_rest rfl
    rw [List.erase_of_not_mem outside]
  next not_in_passed => rw [List.erase_of_not_mem not_in_passed]

/-- As far as the nodes with `sees` are concerned, the list is still the one that it was at
first, and the cursor has passed exactly those that it has met. -/
structure Follows (sees : Node → Bool) (first met : List Node) (list : CursorList Node) :
    Prop where
  nodes : list.nodes.filter sees = first.filter sees
  passed : list.passed.filter sees = met.filter sees

namespace Follows

variable {sees : Node → Bool} {first met : List Node}

theorem push (follows : Follows sees first met list) (unseen : sees node = false) :
    Follows sees first met (list.push node) where
  nodes := by simp [unseen, follows.nodes]
  passed := by
    unfold CursorList.push
    split
    next => simp [unseen, follows.passed]
    next => exact follows.passed

theorem filter_erase [DecidableEq Node] (unseen : sees node = false) (nodes : List Node) :
    (nodes.erase node).filter sees = nodes.filter sees := by
  rw [← List.erase_filter, List.erase_of_not_mem]
  simp [unseen]

theorem erase [DecidableEq Node] (follows : Follows sees first met list)
    (unseen : sees node = false) : Follows sees first met (list.erase node) where
  nodes := by
    have same : list.nodes.filter sees = first.filter sees := follows.nodes
    simpa [CursorList.erase, CursorList.nodes, filter_erase unseen] using same
  passed := (filter_erase unseen _).trans follows.passed

theorem rewind (follows : Follows sees first met list) : Follows sees first [] list.rewind where
  nodes := follows.nodes
  passed := rfl

theorem next (follows : Follows sees first met list) :
    Follows sees first (met ++ list.rest.head?.toList) list.next where
  nodes := by rw [nodes_next, follows.nodes]
  passed := by simp [CursorList.next, follows.passed]

/-- The cursor has met what was there and is still seen, in its order. -/
theorem at_end (follows : Follows sees first met list) (at_end : list.rest = []) :
    met.filter sees = first.filter sees := by
  rw [← follows.passed, ← follows.nodes, CursorList.nodes, at_end, List.append_nil]

end Follows

end CursorList

end Mevent.Library
