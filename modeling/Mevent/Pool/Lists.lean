import Mevent.Pool.Model

/-!
# The pool operations as operations on lists

On the lists that the links of a pool represent, `FreeListPop` and `FreeListPush`
work at the front, `ActiveListPush` appends a connection that is not yet on the list,
and `ActiveListErase` removes one that is.
-/

namespace Mevent.ConnectionPool

open Library

variable {pool : ConnectionPool} {conn : ConnId} {conns : List ConnId}

theorem freeList_new (maxConn : Nat) : (new maxConn).FreeList [] := rfl

theorem activeList_new (maxConn : Nat) : (new maxConn).ActiveList [] where
  nodup := List.nodup_nil
  forward := rfl
  backward := rfl
  outside _ _ := ⟨rfl, rfl⟩

/-- `FreeListPop` takes the first connection of the free list; when there is none, it
creates one, unless there are more than `max_conn_`. -/
theorem freeListPop_cases (free : pool.FreeList conns) :
    (∃ conn rest, conns = conn :: rest ∧
      pool.freeListPop = (some conn, { pool with freeListHead := pool.freeNext conn }) ∧
        (pool.freeListPop).2.FreeList rest) ∨
    (conns = [] ∧ (pool.freeListPop = (none, pool) ∨
      pool.freeListPop = (some pool.count, { pool with count := pool.count + 1 }))) := by
  cases conns with
  | nil =>
      right
      have empty : pool.freeListHead = none := free
      simp only [freeListPop, empty, true_and]
      split
      · exact .inl rfl
      · exact .inr rfl
  | cons first rest =>
      left
      have head : pool.freeListHead = some first := free.1
      refine ⟨first, rest, rfl, ?_, ?_⟩
      · simp only [freeListPop, head]
      · simp only [freeListPop, head]
        exact free.2

theorem freeListPop_eq_none {later : ConnectionPool} (popped : pool.freeListPop = (none, later)) :
    later = pool := by
  unfold freeListPop at popped
  split at popped
  · cases popped
  · split at popped
    · cases popped
      rfl
    · cases popped

theorem freeList_push (free : pool.FreeList conns) (outside : conn ∉ conns) :
    (pool.freeListPush conn).FreeList (conn :: conns) :=
  isChain_push free outside

@[simp]
theorem activeLinks_freeListPush : (pool.freeListPush conn).activeLinks = pool.activeLinks :=
  rfl

@[simp]
theorem count_freeListPush : (pool.freeListPush conn).count = pool.count := rfl

@[simp]
theorem activeLinks_freeListPop : (pool.freeListPop).2.activeLinks = pool.activeLinks := by
  unfold freeListPop
  split
  · rfl
  · split <;> rfl

theorem activeLinks_activeListPush (unlinked : pool.activeNext conn = none)
    (apart : pool.activeListTail ≠ some conn) :
    (pool.activeListPush conn).activeLinks = pool.activeLinks.append conn := by
  unfold activeListPush Links.append activeLinks
  cases tail : pool.activeListTail with
  | none => simp [redirect]
  | some last =>
      have different : conn ≠ last := fun same => apart (by rw [tail, same])
      have kept : Function.update pool.activeNext last (some conn) conn = none := by
        rw [Function.update_of_ne different, unlinked]
      simp only [redirect, Option.map_some, reduceCtorEq, if_false]
      rw [← kept, Function.update_eq_self]

theorem activeList_push (active : pool.ActiveList conns) (outside : conn ∉ conns) :
    (pool.activeListPush conn).ActiveList (conns ++ [conn]) := by
  have apart : pool.activeListTail ≠ some conn := by
    have tail : pool.activeListTail = conns.getLast? := active.tail_eq
    rw [tail]
    exact getLast?_ne_of_not_mem outside
  unfold ActiveList
  rw [activeLinks_activeListPush (active.outside conn outside).1 apart]
  exact active.append outside

theorem single_of_ends (active : pool.ActiveList conns) (listed : conn ∈ conns)
    (ends : pool.activeListTail = pool.activeListHead) : conns = [conn] := by
  have tail : pool.activeListTail = conns.getLast? := active.tail_eq
  have head : pool.activeListHead = conns.head? := active.head_eq
  have meet : conns.getLast? = conns.head? := by rw [← tail, ← head, ends]
  have short := Library.single_of_ends active.nodup meet
  obtain ⟨only, same⟩ := List.length_eq_one_iff.mp
    (Nat.le_antisymm short (List.length_pos_of_mem listed))
  have at_only : conn = only := by simpa [same] using listed
  rw [same, at_only]

theorem activeLinks_erase_between (apart : pool.activeNext conn ≠ some conn) :
    let erased := (pool.eraseForward conn).eraseBackward conn
    { erased.activeLinks with
      next := Function.update erased.activeNext conn none
      prev := Function.update erased.activePrev conn none } = pool.activeLinks.unlink conn := by
  unfold eraseForward eraseBackward Links.unlink activeLinks
  cases prev : pool.activePrev conn with
  | none =>
      cases next : pool.activeNext conn with
      | none => simp [redirect, next, prev]
      | some later =>
          have different : conn ≠ later := fun same => apart (by rw [next, same])
          simp [redirect, next, prev, Function.update_of_ne different]
  | some earlier =>
      cases next : pool.activeNext conn with
      | none => simp [redirect, next, prev, Function.update]
      | some later => simp [redirect, next, prev, Function.update]

/-- On a connection of the active list, `ActiveListErase` links its neighbours. -/
theorem activeLinks_eraseLinks (active : pool.ActiveList conns) (listed : conn ∈ conns) :
    (pool.eraseLinks conn).activeLinks = pool.activeLinks.unlink conn := by
  obtain ⟨front, behind, split⟩ := List.append_of_mem listed
  have next : pool.activeNext conn = behind.head? := (split ▸ active).next_eq
  by_cases ends : pool.activeListTail = pool.activeListHead
  · have only := single_of_ends active listed ends
    subst only
    have alone : pool.ActiveList ([] ++ conn :: []) := active
    have unlinked_next : pool.activeNext conn = none := alone.next_eq
    have unlinked_prev : pool.activePrev conn = none := alone.prev_eq
    simp [eraseLinks, Links.unlink, activeLinks, ends, unlinked_next, unlinked_prev, redirect]
  · have apart : pool.activeNext conn ≠ some conn := by
      rw [next]
      have nodup := split ▸ active.nodup
      exact head?_ne_of_not_mem (List.nodup_cons.mp (List.nodup_append.mp nodup).2.1).1
    rw [← activeLinks_erase_between apart]
    simp only [eraseLinks, if_neg ends]
    rfl

theorem activeList_eraseLinks {front behind : List ConnId}
    (active : pool.ActiveList (front ++ conn :: behind)) :
    (pool.eraseLinks conn).ActiveList (front ++ behind) := by
  unfold ActiveList
  rw [activeLinks_eraseLinks active (by simp)]
  exact active.unlink

/-- `ActiveListErase` removes a connection of the active list. -/
theorem activeList_erase {front behind : List ConnId}
    (active : pool.ActiveList (front ++ conn :: behind)) :
    (pool.activeListErase conn).ActiveList (front ++ behind) := by
  unfold activeListErase
  split
  · exact activeList_eraseLinks active
  · exact activeList_eraseLinks active

theorem activeList_erase_of_mem (active : pool.ActiveList conns) (listed : conn ∈ conns) :
    ∃ rest, (pool.activeListErase conn).ActiveList rest ∧
      ∀ other, other ∈ rest ↔ other ∈ conns ∧ other ≠ conn := by
  obtain ⟨front, behind, split⟩ := List.append_of_mem listed
  subst split
  refine ⟨front ++ behind, activeList_erase active, ?_⟩
  intro other
  have nodup : (front ++ conn :: behind).Nodup := active.nodup
  rw [List.nodup_middle, List.nodup_cons] at nodup
  by_cases same : other = conn
  · subst same
    simp [nodup.1]
  · simp [same]

/-- The free list of `later` is the same, and so is the next connection to be created. -/
structure SameFree (pool later : ConnectionPool) : Prop where
  freeListHead : later.freeListHead = pool.freeListHead
  freeNext : later.freeNext = pool.freeNext
  count : later.count = pool.count

namespace SameFree

variable {middle later : ConnectionPool}

theorem refl (pool : ConnectionPool) : pool.SameFree pool := ⟨rfl, rfl, rfl⟩

theorem trans (first : pool.SameFree middle) (second : middle.SameFree later) :
    pool.SameFree later where
  freeListHead := second.freeListHead.trans first.freeListHead
  freeNext := second.freeNext.trans first.freeNext
  count := second.count.trans first.count

theorem freeList (same : pool.SameFree later) : later.FreeList conns ↔ pool.FreeList conns := by
  unfold FreeList
  rw [same.freeNext, same.freeListHead]

end SameFree

theorem sameFree_activeListPush : pool.SameFree (pool.activeListPush conn) := by
  unfold activeListPush
  split
  · exact ⟨rfl, rfl, rfl⟩
  · exact ⟨rfl, rfl, rfl⟩

@[simp]
theorem freeList_activeListPush :
    (pool.activeListPush conn).FreeList conns ↔ pool.FreeList conns :=
  sameFree_activeListPush.freeList

@[simp]
theorem count_activeListPush : (pool.activeListPush conn).count = pool.count :=
  sameFree_activeListPush.count

theorem sameFree_eraseForward : pool.SameFree (pool.eraseForward conn) := by
  unfold eraseForward
  split
  · exact ⟨rfl, rfl, rfl⟩
  · exact ⟨rfl, rfl, rfl⟩

theorem sameFree_eraseBackward : pool.SameFree (pool.eraseBackward conn) := by
  unfold eraseBackward
  split
  · exact ⟨rfl, rfl, rfl⟩
  · exact ⟨rfl, rfl, rfl⟩

theorem sameFree_eraseLinks : pool.SameFree (pool.eraseLinks conn) := by
  unfold eraseLinks
  split
  · exact ⟨rfl, rfl, rfl⟩
  · have erased := (@sameFree_eraseForward pool conn).trans (@sameFree_eraseBackward _ conn)
    exact ⟨erased.freeListHead, erased.freeNext, erased.count⟩

theorem sameFree_activeListErase : pool.SameFree (pool.activeListErase conn) := by
  unfold activeListErase
  split
  · have erased := @sameFree_eraseLinks
      { pool with activeListLookupCursor := pool.activeNext conn } conn
    exact ⟨erased.freeListHead, erased.freeNext, erased.count⟩
  · exact sameFree_eraseLinks

@[simp]
theorem freeList_activeListErase :
    (pool.activeListErase conn).FreeList conns ↔ pool.FreeList conns :=
  sameFree_activeListErase.freeList

@[simp]
theorem count_activeListErase : (pool.activeListErase conn).count = pool.count :=
  sameFree_activeListErase.count

@[simp]
theorem maxConn_activeListPush : (pool.activeListPush conn).maxConn = pool.maxConn := by
  unfold activeListPush
  split
  · rfl
  · rfl

@[simp]
theorem maxConn_activeListErase : (pool.activeListErase conn).maxConn = pool.maxConn := by
  have forward : ∀ pool : ConnectionPool, (pool.eraseForward conn).maxConn = pool.maxConn := by
    intro pool
    unfold eraseForward
    split <;> rfl
  have backward : ∀ pool : ConnectionPool, (pool.eraseBackward conn).maxConn = pool.maxConn := by
    intro pool
    unfold eraseBackward
    split <;> rfl
  have links : ∀ pool : ConnectionPool, (pool.eraseLinks conn).maxConn = pool.maxConn := by
    intro pool
    unfold eraseLinks
    split
    · rfl
    · exact (backward _).trans (forward pool)
  unfold activeListErase
  split
  · exact links _
  · exact links pool

end Mevent.ConnectionPool
