import Mathlib.Data.List.Count
import Mathlib.Data.List.Nodup
import Mathlib.Data.List.ReduceOption
import Mathlib.Logic.Function.Basic

/-!
# Descriptors

A table of the files that a process has open.  The files are numbered in the order in which
they are opened, since a descriptor may refer to another file once it has been closed.  The
history has every call of `close`, with the file that it has closed; a call for a descriptor
that refers to nothing fails.
-/

namespace Mevent.Library

universe u
variable {Fd : Type u}

/-- What the descriptors refer to, how many files have been opened, and what each call of
`close` has closed, if it has not failed. -/
structure Descriptors (Fd : Type u) where
  file : Fd → Option Nat
  opened : Nat
  closes : List (Option Nat)
  apart : ∀ fd other number, file fd = some number → file other = some number → fd = other
  below : ∀ fd number, file fd = some number → number < opened
  nodup : closes.reduceOption.Nodup
  closed_iff : ∀ number, some number ∈ closes ↔ number < opened ∧ ∀ fd, file fd ≠ some number

namespace Descriptors

def empty : Descriptors Fd where
  file := fun _ => none
  opened := 0
  closes := []
  apart := nofun
  below := nofun
  nodup := List.nodup_nil
  closed_iff := by simp

section History

variable {table : Descriptors Fd} {fd : Fd} {number : Nat}

theorem count_closes_le (table : Descriptors Fd) (number : Nat) :
    table.closes.count (some number) ≤ 1 := by
  have same : table.closes.reduceOption.count number = table.closes.count (some number) := by
    induction table.closes with
    | nil => rfl
    | cons call calls inductionHypothesis =>
        cases call with
        | none =>
            rw [List.reduceOption_cons_of_none, inductionHypothesis, List.count_cons_of_ne]
            exact Option.some_ne_none number |>.symm
        | some other =>
            rw [List.reduceOption_cons_of_some, List.count_cons, List.count_cons,
              inductionHypothesis]
            simp
  rw [← same]
  exact List.nodup_iff_count_le_one.mp table.nodup number

theorem count_closes (below : number < table.opened) (left : ∀ fd, table.file fd ≠ some number) :
    table.closes.count (some number) = 1 := by
  have called := List.count_pos_iff.mpr ((table.closed_iff number).mpr ⟨below, left⟩)
  exact Nat.le_antisymm (table.count_closes_le number) called

theorem not_mem_closes (held : table.file fd = some number) : some number ∉ table.closes :=
  fun inside => ((table.closed_iff number).mp inside).2 fd held

theorem ne_of_held (held : table.file fd = some number) {other : Fd}
    (unused : table.file other = none) : fd ≠ other := by
  rintro rfl
  rw [unused] at held
  cases held

end History

variable [DecidableEq Fd]

def openAt (table : Descriptors Fd) (fd : Fd) (unused : table.file fd = none) :
    Descriptors Fd where
  file := Function.update table.file fd (some table.opened)
  opened := table.opened + 1
  closes := table.closes
  apart := by
    have fresh : ∀ other, table.file other ≠ some table.opened :=
      fun other same => Nat.lt_irrefl _ (table.below other _ same)
    intro first second number at_first at_second
    by_cases first_new : first = fd <;> by_cases second_new : second = fd
    · rw [first_new, second_new]
    · rw [first_new, Function.update_self] at at_first
      rw [Function.update_of_ne second_new, ← at_first] at at_second
      exact absurd at_second (fresh second)
    · rw [second_new, Function.update_self] at at_second
      rw [Function.update_of_ne first_new, ← at_second] at at_first
      exact absurd at_first (fresh first)
    · rw [Function.update_of_ne first_new] at at_first
      rw [Function.update_of_ne second_new] at at_second
      exact table.apart first second number at_first at_second
  below := by
    intro other number at_other
    by_cases new : other = fd
    · rw [new, Function.update_self] at at_other
      cases at_other
      exact Nat.lt_succ_self _
    · rw [Function.update_of_ne new] at at_other
      exact Nat.lt_succ_of_lt (table.below other number at_other)
  nodup := table.nodup
  closed_iff := by
    intro number
    rw [table.closed_iff]
    constructor
    · rintro ⟨below, left⟩
      refine ⟨Nat.lt_succ_of_lt below, ?_⟩
      intro other
      by_cases new : other = fd
      · rw [new, Function.update_self]
        exact fun same => Nat.ne_of_gt below (Option.some.inj same)
      · rw [Function.update_of_ne new]
        exact left other
    · rintro ⟨below, left⟩
      have different : table.opened ≠ number := by
        have here := left fd
        rw [Function.update_self] at here
        exact fun same => here (congrArg some same)
      refine ⟨by omega, ?_⟩
      intro other
      by_cases new : other = fd
      · rw [new, unused]
        exact (Option.some_ne_none _).symm
      · have there := left other
        rwa [Function.update_of_ne new] at there

def closeAt (table : Descriptors Fd) (fd : Fd) (number : Nat)
    (held : table.file fd = some number) : Descriptors Fd where
  file := Function.update table.file fd none
  opened := table.opened
  closes := table.closes ++ [some number]
  apart := by
    have still : ∀ other file, Function.update table.file fd none other = some file →
        table.file other = some file := by
      intro other file at_other
      by_cases same : other = fd
      · rw [same, Function.update_self] at at_other
        cases at_other
      · rwa [Function.update_of_ne same] at at_other
    intro first second file at_first at_second
    exact table.apart first second file (still _ _ at_first) (still _ _ at_second)
  below := by
    intro other file at_other
    by_cases same : other = fd
    · rw [same, Function.update_self] at at_other
      cases at_other
    · rw [Function.update_of_ne same] at at_other
      exact table.below other file at_other
  nodup := by
    rw [List.reduceOption_append, List.reduceOption_singleton]
    refine List.nodup_append.mpr ⟨table.nodup, List.nodup_singleton _, ?_⟩
    rintro file inside other only rfl
    cases List.mem_singleton.mp only
    exact ((table.closed_iff number).mp (List.reduceOption_mem_iff.mp inside)).2 fd held
  closed_iff := by
    intro file
    rw [List.mem_append, List.mem_singleton, Option.some_inj, table.closed_iff]
    constructor
    · rintro (⟨below, left⟩ | rfl)
      · refine ⟨below, ?_⟩
        intro other
        by_cases same : other = fd
        · rw [same, Function.update_self]
          exact (Option.some_ne_none _).symm
        · rw [Function.update_of_ne same]
          exact left other
      · refine ⟨table.below fd file held, ?_⟩
        intro other
        by_cases same : other = fd
        · rw [same, Function.update_self]
          exact (Option.some_ne_none _).symm
        · rw [Function.update_of_ne same]
          exact fun at_other => same (table.apart other fd file at_other held)
    · rintro ⟨below, left⟩
      by_cases closes : file = number
      · exact .inr closes
      · refine .inl ⟨below, ?_⟩
        intro other
        by_cases same : other = fd
        · rw [same, held]
          exact fun equal => closes (Option.some.inj equal).symm
        · have there := left other
          rwa [Function.update_of_ne same] at there

/-- `openAt`, or nothing if the descriptor is in use. -/
def tryOpen (table : Descriptors Fd) (fd : Fd) : Descriptors Fd :=
  if unused : table.file fd = none then table.openAt fd unused else table

/-- A call of `close` that fails, which is `EBADF`. -/
def closeNothing (table : Descriptors Fd) : Descriptors Fd :=
  { table with
    closes := table.closes ++ [none]
    nodup := by
      rw [List.reduceOption_append]
      simpa using table.nodup
    closed_iff := by simpa using table.closed_iff }

/-- `close`. -/
def close (table : Descriptors Fd) (fd : Fd) : Descriptors Fd :=
  match held : table.file fd with
  | none => table.closeNothing
  | some number => table.closeAt fd number held

section Api

variable {table : Descriptors Fd} {fd : Fd} {number : Nat}

theorem file_tryOpen (unused : table.file fd = none) (other : Fd) :
    (table.tryOpen fd).file other =
      if other = fd then some table.opened else table.file other := by
  rw [tryOpen, dif_pos unused]
  exact Function.update_apply _ _ _ _

theorem opened_tryOpen (unused : table.file fd = none) :
    (table.tryOpen fd).opened = table.opened + 1 := by
  rw [tryOpen, dif_pos unused]
  rfl

theorem close_of_held (held : table.file fd = some number) :
    table.close fd = table.closeAt fd number held := by
  unfold close
  split
  next unused =>
    rw [unused] at held
    cases held
  next other also =>
    rw [also] at held
    cases held
    rfl

theorem close_of_unused (unused : table.file fd = none) :
    table.close fd = table.closeNothing := by
  unfold close
  split
  next => rfl
  next number held =>
    rw [unused] at held
    cases held

@[simp]
theorem file_close (other : Fd) :
    (table.close fd).file other = if other = fd then none else table.file other := by
  cases held : table.file fd with
  | none =>
      rw [close_of_unused held]
      split
      next at_fd => rw [at_fd]; exact held
      next => rfl
  | some number =>
      rw [close_of_held held]
      exact Function.update_apply _ _ _ _

@[simp]
theorem opened_close : (table.close fd).opened = table.opened := by
  unfold close
  split
  next => rfl
  next => rfl

/-- A call of `close` is noted with what it has found. -/
@[simp]
theorem closes_close : (table.close fd).closes = table.closes ++ [table.file fd] := by
  cases held : table.file fd with
  | none =>
      rw [close_of_unused held]
      rfl
  | some number =>
      rw [close_of_held held]
      rfl

theorem closes_tryOpen : (table.tryOpen fd).closes = table.closes := by
  unfold tryOpen
  split
  next => rfl
  next => rfl

theorem file_close_tryOpen (unused : table.file fd = none) :
    ((table.tryOpen fd).close fd).file = table.file := by
  funext other
  rw [file_close, file_tryOpen unused]
  split
  next same => rw [same, unused]
  next => rfl

end Api

end Descriptors

end Mevent.Library
