import Mathlib.Data.List.Induction
import Mevent.Pool.Lists

/-!
# How many connections the pool hands out

`FreeListPop` compares with `count_ > max_conn_` before it creates a connection, so a
pool comes to one connection more than `max_conn_`.  A run of calls keeps the limit just
when it never asks for a connection while `max_conn_` of them are held.
-/

namespace Mevent.ConnectionPool

open Library

inductive Call where
  | freeListPop
  | freeListPush (conn : ConnId)
  deriving DecidableEq

/-- The pool and the connections that its callers hold, each of them as often as it was
popped and not yet pushed back. -/
structure Callers where
  pool : ConnectionPool
  held : List ConnId

theorem freeListPop_nil {pool : ConnectionPool} (free : pool.FreeList []) :
    pool.freeListPop =
      if pool.maxConn < pool.count then (none, pool)
      else (some pool.count, { pool with count := pool.count + 1 }) := by
  have empty : pool.freeListHead = none := free
  rw [freeListPop, empty]

namespace Callers

def new (maxConn : Nat) : Callers := ⟨.new maxConn, []⟩

/-- A call; only a connection that is held is pushed back. -/
def step (callers : Callers) : Call → Option Callers
  | .freeListPop =>
      some ⟨callers.pool.freeListPop.2, callers.pool.freeListPop.1.toList ++ callers.held⟩
  | .freeListPush conn =>
      if conn ∈ callers.held then
        some ⟨callers.pool.freeListPush conn, callers.held.erase conn⟩
      else
        none

/-- What a sequence of calls leaves. -/
def after (maxConn : Nat) (calls : List Call) : Option Callers :=
  calls.foldlM step (new maxConn)

theorem after_concat (maxConn : Nat) (calls : List Call) (call : Call) :
    after maxConn (calls ++ [call]) = (after maxConn calls).bind fun callers =>
      callers.step call := by
  have single : ∀ callers : Callers, [call].foldlM step callers = callers.step call := by
    intro callers
    rw [List.foldlM_cons]
    exact bind_pure _
  rw [after, List.foldlM_append]
  simp only [single]
  rfl

/-- Held and free are the connections created so far, each of them once; there are at most
`max_conn_ + 1`. -/
structure Sound (maxConn : Nat) (callers : Callers) : Prop where
  limit : callers.pool.maxConn = maxConn
  apart : ∃ free, callers.pool.FreeList free ∧
    (callers.held ++ free).Perm (List.range callers.pool.count)
  count : callers.pool.count ≤ maxConn + 1

variable {maxConn : Nat} {callers later : Callers}

theorem sound_new (maxConn : Nat) : Sound maxConn (new maxConn) where
  limit := rfl
  apart := ⟨[], freeList_new maxConn, List.Perm.nil⟩
  count := Nat.zero_le _

theorem Sound.nodup (sound : Sound maxConn callers) : callers.held.Nodup := by
  obtain ⟨free, -, created⟩ := sound.apart
  exact (List.nodup_append.mp (created.nodup_iff.mpr List.nodup_range)).1

theorem Sound.length_le (sound : Sound maxConn callers) :
    callers.held.length ≤ callers.pool.count := by
  obtain ⟨free, -, created⟩ := sound.apart
  have total : callers.held.length + free.length = callers.pool.count := by
    rw [← List.length_append, created.length_eq, List.length_range]
  omega

/-- `FreeListPop` hands out a free connection, creates one when every connection is held,
or returns `NULL` when `max_conn_ + 1` are. -/
theorem Sound.pop_cases (sound : Sound maxConn callers) :
    (∃ conn rest, callers.pool.freeListPop =
        (some conn, { callers.pool with freeListHead := callers.pool.freeNext conn }) ∧
      callers.pool.freeListPop.2.FreeList rest ∧
      (callers.held ++ conn :: rest).Perm (List.range callers.pool.count)) ∨
    (callers.pool.freeListPop =
        (some callers.pool.count, { callers.pool with count := callers.pool.count + 1 }) ∧
      callers.pool.FreeList [] ∧ callers.held.Perm (List.range callers.pool.count) ∧
      callers.pool.count ≤ maxConn) ∨
    (callers.pool.freeListPop = (none, callers.pool) ∧
      callers.held.length = maxConn + 1) := by
  obtain ⟨free, listed, created⟩ := sound.apart
  cases free with
  | cons conn rest =>
      rcases freeListPop_cases listed with ⟨first, others, same, popped, left⟩ | ⟨none, -⟩
      · cases same
        exact .inl ⟨conn, rest, popped, left, created⟩
      · cases none
  | nil =>
      rw [List.append_nil] at created
      have popped := freeListPop_nil listed
      by_cases full : callers.pool.maxConn < callers.pool.count
      · rw [if_pos full] at popped
        have length := created.length_eq
        rw [List.length_range] at length
        have most := sound.count
        rw [sound.limit] at full
        exact .inr (.inr ⟨popped, by omega⟩)
      · rw [if_neg full] at popped
        rw [sound.limit] at full
        exact .inr (.inl ⟨popped, listed, created, by omega⟩)

/-- `FreeListPop` returns `NULL` when one connection more than `max_conn_` is held. -/
theorem Sound.freeListPop_eq_none_iff (sound : Sound maxConn callers) :
    callers.pool.freeListPop.1 = none ↔ callers.held.length = maxConn + 1 := by
  rcases sound.pop_cases with
    ⟨conn, rest, popped, -, created⟩ | ⟨popped, -, created, room⟩ | ⟨popped, full⟩
  · have length := created.length_eq
    have most := sound.count
    rw [List.length_append, List.length_cons, List.length_range] at length
    rw [popped]
    exact iff_of_false (Option.some_ne_none _) (by omega)
  · have length := created.length_eq
    rw [List.length_range] at length
    rw [popped]
    exact iff_of_false (Option.some_ne_none _) (by omega)
  · rw [popped]
    exact iff_of_true rfl full

theorem Sound.pop (sound : Sound maxConn callers) :
    Sound maxConn
      ⟨callers.pool.freeListPop.2, callers.pool.freeListPop.1.toList ++ callers.held⟩ := by
  rcases sound.pop_cases with
    ⟨conn, rest, popped, left, created⟩ | ⟨popped, empty, created, room⟩ | ⟨popped, -⟩
  · refine ⟨?_, ⟨rest, left, ?_⟩, ?_⟩
    · rw [popped]
      exact sound.limit
    · rw [popped]
      exact List.perm_middle.symm.trans created
    · rw [popped]
      exact sound.count
  · rw [popped]
    refine ⟨sound.limit, ⟨[], empty, ?_⟩, Nat.succ_le_succ room⟩
    dsimp only
    rw [List.append_nil, List.range_succ]
    exact (created.cons _).trans (List.perm_append_singleton _ _).symm
  · rw [popped]
    exact sound

theorem Sound.push (sound : Sound maxConn callers) {conn : ConnId}
    (holds : conn ∈ callers.held) :
    Sound maxConn ⟨callers.pool.freeListPush conn, callers.held.erase conn⟩ := by
  obtain ⟨free, listed, created⟩ := sound.apart
  have distinct := created.nodup_iff.mpr List.nodup_range
  have outside : conn ∉ free := fun free =>
    (List.nodup_append.mp distinct).2.2 conn holds conn free rfl
  refine ⟨sound.limit, ⟨conn :: free, freeList_push listed outside, ?_⟩, sound.count⟩
  have moved : (callers.held.erase conn ++ conn :: free).Perm (callers.held ++ free) :=
    List.perm_middle.trans ((List.perm_cons_erase holds).symm.append_right free)
  exact moved.trans created

theorem Sound.step (sound : Sound maxConn callers) {call : Call}
    (taken : callers.step call = some later) : Sound maxConn later := by
  cases call with
  | freeListPop =>
      cases taken
      exact sound.pop
  | freeListPush conn =>
      obtain ⟨holds, same⟩ := Option.ite_none_right_eq_some.mp taken
      cases same
      exact sound.push holds

/-- Behind every sequence of calls. -/
theorem sound_of_after {calls : List Call} (left : after maxConn calls = some callers) :
    Sound maxConn callers := by
  induction calls using List.reverseRecOn generalizing callers with
  | nil =>
      cases left
      exact sound_new maxConn
  | append_singleton calls call inductionHypothesis =>
      rw [after_concat] at left
      obtain ⟨earlier, before, taken⟩ := Option.bind_eq_some_iff.mp left
      exact (inductionHypothesis before).step taken

/-! ### The limit -/

/-- A sequence of calls keeps to `max_conn_`: no connection is held twice, and neither the
connections held nor `count_` exceed it, behind any of the calls; and `FreeListPop` returns
`NULL` when `max_conn_` connections are held, and only then. -/
structure WithinMaxConn (maxConn : Nat) (calls : List Call) : Prop where
  apart : ∀ before behind callers, calls = before ++ behind →
    after maxConn before = some callers → callers.held.Nodup
  held : ∀ before behind callers, calls = before ++ behind →
    after maxConn before = some callers → callers.held.length ≤ maxConn
  count : ∀ before behind callers, calls = before ++ behind →
    after maxConn before = some callers → callers.pool.count ≤ maxConn
  refuses : ∀ before behind callers, calls = before ++ .freeListPop :: behind →
    after maxConn before = some callers →
    (callers.pool.freeListPop.1 = none ↔ callers.held.length = maxConn)

/-- No connection is asked for while `max_conn_` of them are held. -/
def PopsBelow (maxConn : Nat) (calls : List Call) : Prop :=
  ∀ before behind callers, calls = before ++ .freeListPop :: behind →
    after maxConn before = some callers → callers.held.length < maxConn

theorem PopsBelow.append_left {calls behind : List Call}
    (below : PopsBelow maxConn (calls ++ behind)) : PopsBelow maxConn calls := by
  intro before between callers same left
  exact below before (between ++ behind) callers (by rw [same]; simp) left

theorem count_le_of_popsBelow {calls : List Call} (below : PopsBelow maxConn calls)
    (left : after maxConn calls = some callers) : callers.pool.count ≤ maxConn := by
  induction calls using List.reverseRecOn generalizing callers with
  | nil =>
      cases left
      exact Nat.zero_le _
  | append_singleton calls call inductionHypothesis =>
      rw [after_concat] at left
      obtain ⟨earlier, before, taken⟩ := Option.bind_eq_some_iff.mp left
      have kept := inductionHypothesis below.append_left before
      cases call with
      | freeListPop =>
          have room := below calls [] earlier rfl before
          cases taken
          rcases (sound_of_after before).pop_cases with
            ⟨conn, rest, popped, -⟩ | ⟨popped, -, created, -⟩ | ⟨popped, -⟩
          · rw [popped]
            exact kept
          · have length := created.length_eq
            rw [List.length_range] at length
            rw [popped]
            dsimp only
            omega
          · rw [popped]
            exact kept
      | freeListPush conn =>
          obtain ⟨-, same⟩ := Option.ite_none_right_eq_some.mp taken
          cases same
          exact kept

/-- A sequence of calls keeps to `max_conn_` when it never asks for a connection while
`max_conn_` of them are held, and only then. -/
theorem withinMaxConn_iff (maxConn : Nat) (calls : List Call) :
    WithinMaxConn maxConn calls ↔ PopsBelow maxConn calls := by
  constructor
  · intro within before behind callers same left
    have most := within.held before (.freeListPop :: behind) callers same left
    by_contra full
    have refused := (within.refuses before behind callers same left).mpr (by omega)
    have more := (sound_of_after left).freeListPop_eq_none_iff.mp refused
    omega
  · intro below
    have counted : ∀ before behind callers, calls = before ++ behind →
        after maxConn before = some callers → callers.pool.count ≤ maxConn := by
      intro before behind callers same left
      subst same
      exact count_le_of_popsBelow below.append_left left
    refine ⟨?_, ?_, counted, ?_⟩
    · intro before behind callers same left
      exact (sound_of_after left).nodup
    · intro before behind callers same left
      exact Nat.le_trans (sound_of_after left).length_le
        (counted before behind callers same left)
    · intro before behind callers same left
      have room := below before behind callers same left
      rw [(sound_of_after left).freeListPop_eq_none_iff]
      omega

/-- A pool for one connection hands out two. -/
theorem not_withinMaxConn_one :
    ¬ WithinMaxConn 1 [.freeListPop, .freeListPop] := by
  intro within
  have popped : ∃ callers, after 1 [.freeListPop, .freeListPop] = some callers ∧
      callers.held.length = 2 := ⟨_, rfl, rfl⟩
  obtain ⟨callers, left, length⟩ := popped
  have most := within.held [.freeListPop, .freeListPop] [] callers rfl left
  omega

end Callers

end Mevent.ConnectionPool
