import Mevent.Basic
import Mevent.Library.TernaryTree

/-!
# `HTTPHandler`

The functions of a handler are stored by path in a ternary search tree of characters.
`GetHandleFunc` answers with the function that its search passes last.
-/

namespace Mevent

open Library

/-- `tst::NodeData`. -/
structure NodeData where
  str : Bytes
  func : Option FuncId
  deriving DecidableEq, Repr

theorem promote_injective : Function.Injective promote := by
  intro c d same
  exact congrArg Int8.toUInt8 (Int8.toInt_inj.mp same)

/-- `TernarySearchTree`. -/
abbrev TernarySearchTree := TernaryTree Int NodeData

/-- What the tree reads of a C string behind its first character.  It looks for the end
behind the character that it compares, so the first one may be anything. -/
def behindFirst (rest : Bytes) : List Int := (rest.takeWhile (· ≠ 0)).map promote

/-- `HTTPHandler`. -/
structure HTTPHandler where
  funcTree : TernarySearchTree
  deriving DecidableEq, Repr

namespace HTTPHandler

def new : HTTPHandler := ⟨.null⟩

/-- `HTTPHandler::SetHandleFunc`. -/
def setHandleFunc (handler : HTTPHandler) (path : Bytes) (func : Option FuncId) :
    HTTPHandler :=
  match path with
  | [] => handler
  | first :: rest =>
      let data : NodeData := ⟨path, func⟩
      ⟨handler.funcTree.insert data (promote first) (behindFirst rest)⟩

/-- `TernarySearchTree::SearchOne`. -/
def searchOne (tree : TernarySearchTree) (first : UInt8) (rest : Bytes) : NodeData :=
  tree.search (promote first) (behindFirst rest) ⟨[], none⟩

/-- `HTTPHandler::GetHandleFunc`. -/
def getHandleFunc (handler : HTTPHandler) (path : Bytes) : Option FuncId :=
  match path with
  | [] => none
  | first :: rest => (searchOne handler.funcTree first rest).func

end HTTPHandler

/-- A path without the character that ends a C string. -/
abbrev Path := { path : Bytes // 0 ∉ path }

/-- The arguments of one `SetHandleFunc`. -/
structure Registration where
  path : Path
  func : Option FuncId
  deriving DecidableEq, Repr

def registerAll (registrations : List Registration) : HTTPHandler :=
  registrations.foldl (fun handler registration =>
    handler.setHandleFunc registration.path.1 registration.func) .new

/-- A path, other than the empty one, that has been registered. -/
def Registered (registrations : List Registration) (path : Bytes) : Prop :=
  path ≠ [] ∧ ∃ registration ∈ registrations, registration.path.1 = path

/-- The function with which a path has been registered first. -/
def firstFunc (registrations : List Registration) (path : Bytes) : Option FuncId :=
  (registrations.find? (·.path.1 = path)).bind Registration.func

theorem word_of_path {first : UInt8} {rest : Bytes} (nulFree : 0 ∉ first :: rest) :
    promote first :: behindFirst rest = (first :: rest).map promote := by
  have whole : rest.takeWhile (· ≠ 0) = rest := by
    apply List.takeWhile_eq_self_iff.mpr
    intro c inside
    have other : c ≠ 0 := by
      rintro rfl
      exact nulFree (List.mem_cons_of_mem _ inside)
    simpa using other
  rw [behindFirst, whole, List.map_cons]

theorem get_setHandleFunc (handler : HTTPHandler) (path : Path) (func : Option FuncId)
    {other : Bytes} (nonempty : other ≠ []) :
    (handler.setHandleFunc path.1 func).funcTree.get (other.map promote) =
      if path.1 = other then
        (handler.funcTree.get (other.map promote)).or (some ⟨path.1, func⟩)
      else
        handler.funcTree.get (other.map promote) := by
  rcases path with ⟨path, nulFree⟩
  cases path with
  | nil => rw [HTTPHandler.setHandleFunc, if_neg (Ne.symm nonempty)]
  | cons first rest =>
      have same : other.map promote = promote first :: behindFirst rest ↔
          first :: rest = other := by
        rw [word_of_path nulFree, (List.map_injective_iff.mpr promote_injective).eq_iff]
        exact eq_comm
      simp only [HTTPHandler.setHandleFunc, TernaryTree.get_insert, same]

/-- The tree holds the first registration of every path. -/
theorem get_registerAll (registrations : List Registration) {path : Bytes}
    (nonempty : path ≠ []) :
    (registerAll registrations).funcTree.get (path.map promote) =
      (registrations.find? (·.path.1 = path)).map fun registration =>
        ⟨registration.path.1, registration.func⟩ := by
  suffices general : ∀ handler : HTTPHandler,
      (registrations.foldl (fun handler registration =>
        handler.setHandleFunc registration.path.1 registration.func) handler).funcTree.get
          (path.map promote) =
        (handler.funcTree.get (path.map promote)).or
          ((registrations.find? (·.path.1 = path)).map fun registration =>
            ⟨registration.path.1, registration.func⟩) by
    have empty : HTTPHandler.new.funcTree.get (path.map promote) = none := by
      cases path with
      | nil => rfl
      | cons first rest => rfl
    rw [registerAll, general, empty, Option.none_or]
  induction registrations with
  | nil => simp
  | cons registration rest inductionHypothesis =>
      intro handler
      rw [List.foldl_cons, inductionHypothesis, get_setHandleFunc _ _ _ nonempty,
        List.find?_cons]
      by_cases same : registration.path.1 = path
      · simp [same]
      · simp [same]

theorem isSome_get_iff (registrations : List Registration) (path : Bytes) :
    ((registerAll registrations).funcTree.get (path.map promote)).isSome ↔
      Registered registrations path := by
  unfold Registered
  by_cases nonempty : path = []
  · subst nonempty
    simp [TernaryTree.get]
  · rw [get_registerAll registrations nonempty]
    simp [nonempty]

theorem func_of_get {registrations : List Registration} {path : Bytes} {data : NodeData}
    (stored : (registerAll registrations).funcTree.get (path.map promote) = some data) :
    data.func = firstFunc registrations path := by
  have nonempty : path ≠ [] := by
    rintro rfl
    cases stored
  rw [get_registerAll registrations nonempty] at stored
  obtain ⟨registration, first, same⟩ := Option.map_eq_some_iff.mp stored
  rw [firstFunc, first, ← same]
  rfl

theorem exists_map_of_prefix {path : Bytes} {word : List Int}
    (isPrefix : word <+: path.map promote) : ∃ pre, pre <+: path ∧ word = pre.map promote := by
  refine ⟨path.take word.length, List.take_prefix _ _, ?_⟩
  rw [List.map_take]
  exact List.prefix_iff_eq_take.mp isPrefix

theorem prefix_of_map {pre path : Bytes} (isPrefix : pre.map promote <+: path.map promote) :
    pre <+: path := by
  obtain ⟨other, otherPrefix, same⟩ := exists_map_of_prefix isPrefix
  rwa [List.map_injective_iff.mpr promote_injective same]

/-- The search finds a registered path, the longest that is a prefix, or there is none. -/
theorem getHandleFunc_cases (registrations : List Registration) (path : Path) :
    (∃ pre, LongestPrefix (Registered registrations) path.1 pre ∧
      (registerAll registrations).getHandleFunc path.1 = firstFunc registrations pre) ∨
    (∀ pre, pre <+: path.1 → ¬ Registered registrations pre) ∧
      (registerAll registrations).getHandleFunc path.1 = none := by
  rcases path with ⟨path, nulFree⟩
  cases path with
  | nil =>
      refine .inr ⟨?_, rfl⟩
      intro pre isPrefix registered
      exact registered.1 (List.prefix_nil.mp isPrefix)
  | cons first rest =>
      have finds := (registerAll registrations).funcTree.finds_search (promote first)
        (behindFirst rest) ⟨[], none⟩
      rw [word_of_path nulFree] at finds
      change _ ∨ _ ∧ _ = _ at finds
      rcases finds with ⟨word, longest, stored⟩ | ⟨nothing, kept⟩
      · obtain ⟨pre, isPrefix, rfl⟩ := exists_map_of_prefix longest.isPrefix
        refine .inl ⟨pre, ⟨isPrefix, ?_, ?_⟩, func_of_get stored⟩
        · exact (isSome_get_iff registrations pre).mp longest.isStored
        · intro other otherPrefix registered
          apply prefix_of_map
          apply longest.longest _ (otherPrefix.map promote)
          exact (isSome_get_iff registrations other).mpr registered
      · refine .inr ⟨?_, congrArg NodeData.func kept⟩
        intro pre isPrefix registered
        have stored := (isSome_get_iff registrations pre).mpr registered
        rw [nothing _ (isPrefix.map promote)] at stored
        cases stored

/-- `GetHandleFunc` returns the function with which the longest registered prefix of a path
has been registered first, and null exactly when there is no such prefix, or that function
is null. -/
theorem getHandleFunc_registerAll (registrations : List Registration) (path : Path) :
    (∀ pre, LongestPrefix (Registered registrations) path.1 pre →
      (registerAll registrations).getHandleFunc path.1 = firstFunc registrations pre) ∧
    ((registerAll registrations).getHandleFunc path.1 = none ↔
      (∀ pre, pre <+: path.1 → ¬ Registered registrations pre) ∨
      ∃ pre, LongestPrefix (Registered registrations) path.1 pre ∧
        firstFunc registrations pre = none) := by
  rcases getHandleFunc_cases registrations path with ⟨pre, longest, found⟩ | ⟨nothing, missed⟩
  · refine ⟨?_, ?_⟩
    · intro other otherLongest
      rw [found, longest.unique otherLongest]
    · rw [found]
      constructor
      · intro unset
        exact .inr ⟨pre, longest, unset⟩
      · rintro (nothing | ⟨other, otherLongest, unset⟩)
        · exact absurd longest.isStored (nothing pre longest.isPrefix)
        · rwa [longest.unique otherLongest]
  · refine ⟨?_, iff_of_true missed (.inl nothing)⟩
    intro pre longest
    exact absurd longest.isStored (nothing pre longest.isPrefix)

def nestedRegistrations : List Registration :=
  [⟨⟨[47], by decide⟩, some 1⟩, ⟨⟨[47, 97], by decide⟩, some 2⟩, ⟨⟨[47], by decide⟩, some 3⟩]

/-- A request for `/b` is answered by the function of `/` that came first. -/
theorem getHandleFunc_nested :
    (registerAll nestedRegistrations).getHandleFunc [47, 98] = some 1 := by
  have longest : LongestPrefix (Registered nestedRegistrations) [47, 98] [47] := by
    refine ⟨by decide, ⟨by decide, _, List.mem_cons_self, rfl⟩, ?_⟩
    rintro other isPrefix ⟨-, registration, listed, rfl⟩
    simp only [nestedRegistrations, List.mem_cons, List.not_mem_nil, or_false] at listed
    rcases listed with rfl | rfl | rfl
    · decide
    · exact absurd isPrefix (by decide)
    · decide
  exact (getHandleFunc_registerAll nestedRegistrations ⟨[47, 98], by decide⟩).1 [47] longest

end Mevent
