import Mevent.Library.Transition
import Mevent.Tst.Searching

/-!
# `Insert` and `Erase` on nodes

A node lies at an address.  `Insert` makes the nodes that a string lacks.  `Erase` follows its
string with three pointers and frees what they lead to.
-/

namespace Mevent.Tst

open Library TernaryTree

/-- `tst::Node` with the address where it has been made, or a null pointer. -/
inductive Node where
  | null
  | node (address : Nat) (c : Int) (left center right : Node) (data : Option NodeData)
  deriving DecidableEq, Repr

namespace Node

/-- The tree without its addresses. -/
def tree : Node → TernarySearchTree
  | .null => .null
  | .node _ c left center right data => .node c left.tree center.tree right.tree data

/-- The addresses in the order in which `Clean` deletes the nodes. -/
def addresses : Node → List Nat
  | .null => []
  | .node address _ left center right _ =>
      left.addresses ++ center.addresses ++ right.addresses ++ [address]

def chars : Node → List Int
  | .null => []
  | .node _ c left center right _ => c :: (left.chars ++ center.chars ++ right.chars)

def get (np : Node) (str : List Int) : Option NodeData := np.tree.get str

/-- `np->c == c` of a pointer that may be null. -/
def hasChar (np : Node) (c : Int) : Bool :=
  match np with
  | .null => false
  | .node _ own _ _ _ _ => own = c

/-- `np->left || np->right`. -/
def branches : Node → Bool
  | .null => false
  | .node _ _ left _ right _ => left ≠ .null || right ≠ .null

def link (turn : Turn) : Node → Node
  | .null => .null
  | .node _ _ left center right _ =>
      match turn with
      | .left => left
      | .center => center
      | .right => right

def cut (turn : Turn) : Node → Node
  | .null => .null
  | .node address c left center right data =>
      match turn with
      | .left => .node address c .null center right data
      | .center => .node address c left .null right data
      | .right => .node address c left center .null data

/-- `delete np->data; np->data = NULL`. -/
def dropData : Node → Node
  | .null => .null
  | .node address c left center right _ => .node address c left center right none

def at? : Node → (address : Nat) → Option Node
  | .null, _ => none
  | .node own c left center right data, address =>
      if own = address then
        some (.node own c left center right data)
      else
        ((left.at? address).or (center.at? address)).or (right.at? address)

def modify (address : Nat) (change : Node → Node) : Node → Node
  | .null => .null
  | .node own c left center right data =>
      if own = address then
        change (.node own c left center right data)
      else
        .node own c (left.modify address change) (center.modify address change)
          (right.modify address change) data

/-- New nodes for a string, the first of them at the address `made`. -/
def chain (data : NodeData) : (first : Int) → (rest : List Int) → (made : Nat) → Node × Nat
  | first, [], made => (.node made first .null .null .null (some data), made + 1)
  | first, next :: rest, made =>
      let (center, later) := chain data next rest (made + 1)
      (.node made first .null center .null none, later)

/-- The recursion of `TernarySearchTree::Insert`, with the number of nodes made so far. -/
def insert (data : NodeData) : Node → (first : Int) → (rest : List Int) → (made : Nat) →
    Node × Nat
  | .null, first, rest, made => chain data first rest made
  | .node address c left center right stored, first, rest, made =>
      if first < c then
        let (left, made) := insert data left first rest made
        (.node address c left center right stored, made)
      else if c < first then
        let (right, made) := insert data right first rest made
        (.node address c left center right stored, made)
      else
        match rest with
        | [] => (.node address c left center right (stored.or (some data)), made)
        | next :: rest =>
            let (center, made) := insert data center next rest made
            (.node address c left center right stored, made)

end Node

/-- The pointers of `Erase` beside `np` and `s`. -/
structure Trackers where
  lastNp : Option Nat
  lastS : List Int
  firstNp : Option Nat
  deriving DecidableEq, Repr

/-- The end of a round of the loop of `Erase`, with `np` and `s` set to what comes next. -/
def Trackers.enter (trackers : Trackers) (np : Node) (s : List Int) : Trackers :=
  match np with
  | .null => trackers
  | .node address _ _ _ _ _ =>
      if np.branches then
        { trackers with lastNp := some address, lastS := s.tail }
      else
        trackers

/-- The loop of `Erase`: the node of the string and the pointers behind the `break`.  There is
none when the function returns or ends the loop with characters left. -/
def descend : (np : Node) → (s : List Int) → Trackers → Option (Node × Trackers)
  | .node address c left center right data, ch :: s, trackers =>
      if ch = c then
        let trackers := { trackers with firstNp := trackers.firstNp.or (some address) }
        if s = [] then
          some (.node address c left center right data, trackers)
        else
          descend center s (trackers.enter center s)
      else
        let trackers := { trackers with lastS := ch :: s }
        if ch < c then
          descend left (ch :: s) (trackers.enter left (ch :: s))
        else
          descend right (ch :: s) (trackers.enter right (ch :: s))
  | _, _, _ => none

/-- A tree in memory: its root, the number of nodes that have been made, and the addresses of
those that have been deleted. -/
structure Heap where
  root : Node
  made : Nat
  freed : List Nat
  deriving DecidableEq, Repr

namespace Heap

/-- The constructor of `TernarySearchTree`. -/
def new : Heap := ⟨.null, 0, []⟩

/-- `TernarySearchTree::Insert`. -/
def insert (heap : Heap) (insertion : Insertion) : Heap :=
  let (root, made) :=
    heap.root.insert insertion.data insertion.str.first insertion.str.rest heap.made
  { heap with root := root, made := made }

/-- `Clean` of what a link leads to, which is then set to null. -/
def clean (heap : Heap) (address : Nat) (turn : Turn) : Heap :=
  match heap.root.at? address with
  | none => heap
  | some np =>
      { heap with
        root := heap.root.modify address (Node.cut turn)
        freed := heap.freed ++ (np.link turn).addresses }

/-- The links of `last_np`, in the order in which they are compared with `*last_s`. -/
def linkTo (np : Node) (lastS : List Int) : Option Turn :=
  [Turn.left, .right, .center].find? fun turn => (np.link turn).hasChar (lastS.headD 0)

/-- The end of `Erase`, behind the test for a center. -/
def prune (heap : Heap) (trackers : Trackers) : Heap :=
  match trackers.lastNp with
  | some last =>
      match heap.root.at? last with
      | none => heap
      | some np =>
          match linkTo np trackers.lastS with
          | none => heap
          | some turn => heap.clean last turn
  | none =>
      match trackers.firstNp with
      | none => heap
      | some first => heap.clean first .center

/-- `TernarySearchTree::Erase`. -/
def erase (heap : Heap) (str : Word) : Heap :=
  match descend heap.root str.chars ⟨none, str.chars, none⟩ with
  | some (.node address _ _ center _ (some _), trackers) =>
      let dropped := { heap with root := heap.root.modify address Node.dropData }
      if center ≠ .null then dropped else dropped.prune trackers
  | _ => heap

end Heap

inductive Call where
  | insert (insertion : Insertion)
  | erase (str : Word)
  deriving DecidableEq, Repr

def Heap.step (heap : Heap) : Call → Option Heap
  | .insert insertion => some (heap.insert insertion)
  | .erase str => some (heap.erase str)

/-- The trees that calls of `Insert` and `Erase` lead to. -/
abbrev Heap.Reached (heap : Heap) : Prop :=
  Reaches Heap.step (fun _ _ => True) .new heap

/-! ### Insertion -/

namespace Node

theorem tree_chain (data : NodeData) (first : Int) (rest : List Int) (made : Nat) :
    (chain data first rest made).1.tree = TernaryTree.chain data first rest := by
  induction rest generalizing first made with
  | nil => rfl
  | cons next rest inductionHypothesis =>
      simp only [chain, tree, TernaryTree.chain, inductionHypothesis]

/-- An insertion of nodes is an insertion into the tree that they make up. -/
theorem tree_insert (np : Node) (data : NodeData) (first : Int) (rest : List Int) (made : Nat) :
    (np.insert data first rest made).1.tree = np.tree.insert data first rest := by
  induction np generalizing first rest made with
  | null => exact tree_chain data first rest made
  | node address c left center right stored leftHypothesis centerHypothesis rightHypothesis =>
      rw [insert.eq_def, tree, TernaryTree.insert.eq_def]
      dsimp only
      split
      next => simp only [tree, leftHypothesis]
      next =>
        split
        next => simp only [tree, rightHypothesis]
        next =>
          cases rest with
          | nil => rfl
          | cons next rest => simp only [tree, centerHypothesis]

end Node

end Mevent.Tst
