import Mevent.Library.CursorList
import Mevent.Pool.Lists

/-!
# The lookup cursor

`active_list_lookup_cursor_` divides the active list into the connections that
`CheckConnectionTimeout` has passed and those that are yet to come.  Every operation on
the list keeps this division, whatever thread it belongs to.
-/

namespace Mevent.ConnectionPool

open Library

def OnActiveList (pool : ConnectionPool) (conn : ConnId) : Prop :=
  Met pool.activeNext pool.activeListHead conn

/-- The cursor is behind `passed` and in front of `rest`. -/
structure Divided (pool : ConnectionPool) (passed rest : List ConnId) : Prop where
  activeList : pool.ActiveList (passed ++ rest)
  cursor : pool.activeListLookupCursor = rest.head?

variable {pool : ConnectionPool} {conn : ConnId} {passed rest : List ConnId}

theorem divided_new (maxConn : Nat) : (new maxConn).Divided [] [] :=
  ⟨activeList_new maxConn, rfl⟩

namespace Divided

theorem nodup (divided : pool.Divided passed rest) : (passed ++ rest).Nodup :=
  divided.activeList.nodup

theorem mem_of_onActiveList (divided : pool.Divided passed rest)
    (listed : pool.OnActiveList conn) : conn ∈ passed ++ rest :=
  mem_of_met divided.activeList.forward listed

theorem congr {later : ConnectionPool} (divided : pool.Divided passed rest)
    (links : later.activeLinks = pool.activeLinks)
    (cursor : later.activeListLookupCursor = pool.activeListLookupCursor) :
    later.Divided passed rest := by
  refine ⟨?_, cursor.trans divided.cursor⟩
  unfold ActiveList
  rw [links]
  exact divided.activeList

theorem freeListPush (divided : pool.Divided passed rest) :
    (pool.freeListPush conn).Divided passed rest :=
  divided.congr rfl rfl

theorem freeListPop (divided : pool.Divided passed rest) :
    (pool.freeListPop).2.Divided passed rest := by
  apply divided.congr activeLinks_freeListPop
  unfold ConnectionPool.freeListPop
  split
  · rfl
  · split <;> rfl

/-- `ActiveListTimeoutCheck`. -/
theorem timeoutCheck (divided : pool.Divided passed rest) :
    pool.activeListTimeoutCheck.Divided [] (passed ++ rest) :=
  ⟨divided.activeList, divided.activeList.head_eq⟩

/-- `ActiveListCheckNext` at the end of the list. -/
theorem checkNext_nil (divided : pool.Divided passed []) :
    pool.activeListCheckNext = (none, pool) := by
  have at_end : pool.activeListLookupCursor = none := divided.cursor
  simp only [activeListCheckNext, at_end, Option.bind_none]
  rw [← at_end]

/-- `ActiveListCheckNext` passes one connection. -/
theorem checkNext_cons (divided : pool.Divided passed (conn :: rest)) :
    pool.activeListCheckNext.1 = some conn ∧
      pool.activeListCheckNext.2.Divided (passed ++ [conn]) rest := by
  have at_conn : pool.activeListLookupCursor = some conn := divided.cursor
  refine ⟨at_conn, ?_, ?_⟩
  · rw [List.append_assoc]
    exact divided.activeList
  · have next : pool.activeNext conn = rest.head? := divided.activeList.next_eq
    simp only [activeListCheckNext, at_conn, Option.bind_some, next]

theorem cursor_activeListPush :
    (pool.activeListPush conn).activeListLookupCursor = pool.activeListLookupCursor := by
  unfold activeListPush
  split
  · rfl
  · rfl

/-- `ActiveListPush` puts a connection at the end of the list, which the cursor has passed
only if it is at the end already. -/
theorem push (divided : pool.Divided passed rest) (outside : conn ∉ passed ++ rest) :
    (pool.activeListPush conn).Divided (CursorList.push ⟨passed, rest⟩ conn).passed
      (CursorList.push ⟨passed, rest⟩ conn).rest := by
  have pushed := activeList_push divided.activeList outside
  have cursor := (@cursor_activeListPush pool conn).trans divided.cursor
  have nodes : (CursorList.push ⟨passed, rest⟩ conn).nodes = (passed ++ rest) ++ [conn] :=
    CursorList.nodes_push
  refine ⟨?_, ?_⟩
  · rw [← nodes] at pushed
    exact pushed
  · rw [cursor]
    cases rest with
    | nil => rfl
    | cons first rest => rfl

theorem activeListPush (divided : pool.Divided passed rest) (outside : conn ∉ passed ++ rest) :
    ∃ before behind, (pool.activeListPush conn).Divided before behind ∧
      before ++ behind = (passed ++ rest) ++ [conn] ∧
        (∀ other ∈ before, other ∈ passed ∨ other = conn) ∧
          ∀ other ∈ behind, other ∈ rest ∨ other = conn := by
  refine ⟨_, _, divided.push outside, CursorList.nodes_push, ?_, ?_⟩
  · intro other inside
    unfold CursorList.push at inside
    split at inside
    next => simpa using inside
    next => exact .inl inside
  · intro other inside
    unfold CursorList.push at inside
    split at inside
    next => cases inside
    next => simpa using inside

theorem cursor_eraseLinks :
    (pool.eraseLinks conn).activeListLookupCursor = pool.activeListLookupCursor := by
  have forward : (pool.eraseForward conn).activeListLookupCursor =
      pool.activeListLookupCursor := by
    unfold eraseForward
    split <;> rfl
  have backward : ((pool.eraseForward conn).eraseBackward conn).activeListLookupCursor =
      (pool.eraseForward conn).activeListLookupCursor := by
    unfold eraseBackward
    split <;> rfl
  unfold eraseLinks
  split
  · rfl
  · exact backward.trans forward

theorem cursor_activeListErase : (pool.activeListErase conn).activeListLookupCursor =
    if some conn = pool.activeListLookupCursor then pool.activeNext conn
    else pool.activeListLookupCursor := by
  unfold activeListErase
  split
  · exact cursor_eraseLinks
  · exact cursor_eraseLinks

/-- `ActiveListErase` takes a connection off the list and moves the cursor on if it is at
that connection. -/
theorem activeListErase (divided : pool.Divided passed rest) (listed : conn ∈ passed ++ rest) :
    (pool.activeListErase conn).Divided (passed.erase conn) (rest.erase conn) := by
  have nodup := divided.nodup
  obtain ⟨nodup_passed, nodup_rest, apart⟩ := List.nodup_append.mp nodup
  by_cases in_passed : conn ∈ passed
  · have outside : conn ∉ rest := fun inside => apart conn in_passed conn inside rfl
    obtain ⟨front, behind, outside_front, split, erased⟩ := List.exists_erase_eq in_passed
    rw [List.erase_of_not_mem outside, erased]
    have active := divided.activeList
    rw [split, List.append_assoc, List.cons_append] at active
    refine ⟨?_, ?_⟩
    · rw [List.append_assoc]
      exact activeList_erase active
    · rw [cursor_activeListErase, divided.cursor, if_neg]
      exact fun same => head?_ne_of_not_mem outside same.symm
  · have in_rest : conn ∈ rest := (List.mem_append.mp listed).resolve_left in_passed
    obtain ⟨front, behind, outside_front, split, erased⟩ := List.exists_erase_eq in_rest
    rw [List.erase_of_not_mem in_passed, erased]
    have active := divided.activeList
    rw [split, ← List.append_assoc] at active
    refine ⟨?_, ?_⟩
    · rw [← List.append_assoc]
      exact activeList_erase active
    · rw [cursor_activeListErase, divided.cursor, split]
      cases front with
      | nil => exact (if_pos rfl).trans active.next_eq
      | cons first front =>
          have different : some conn ≠ some first := by
            rintro same
            cases same
            exact outside_front List.mem_cons_self
          exact if_neg different

end Divided

end Mevent.ConnectionPool
