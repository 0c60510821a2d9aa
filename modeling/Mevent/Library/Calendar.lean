import Mathlib.Data.List.Basic
import Mathlib.Algebra.BigOperators.Group.List.Basic
import Mathlib.Tactic.Linarith

/-!
# The Gregorian calendar

The days are counted from the first of January of a year on; a day is found by taking away
whole years and then whole months.  The closed formula for the days before a date undoes this.
-/

namespace Mevent.Library

def isLeap (year : Nat) : Bool := year % 4 == 0 && (year % 100 != 0 || year % 400 == 0)

def yearLength (year : Nat) : Nat := if isLeap year then 366 else 365

theorem yearLength_pos (year : Nat) : 0 < yearLength year := by
  unfold yearLength
  split <;> decide

def monthLengths (year : Nat) : List Nat :=
  [31, if isLeap year then 29 else 28, 31, 30, 31, 30, 31, 31, 30, 31, 30, 31]

theorem sum_monthLengths (year : Nat) : (monthLengths year).sum = yearLength year := by
  unfold monthLengths yearLength
  cases isLeap year <;> rfl

/-- A day of the calendar; the months are counted from 0, their days from 1. -/
structure CivilDate where
  year : Nat
  month : Nat
  day : Nat
  deriving DecidableEq, Repr

structure CivilDate.Valid (date : CivilDate) : Prop where
  month : date.month < 12
  positive : 1 ≤ date.day
  day : date.day ≤ (monthLengths date.year).getD date.month 0

/-- The year and the day in it, for a number of days from the beginning of `year` on. -/
def splitYears (year days : Nat) : Nat × Nat :=
  if days < yearLength year then (year, days)
  else splitYears (year + 1) (days - yearLength year)
termination_by days
decreasing_by
  have positive := yearLength_pos year
  omega

def splitLengths : List Nat → Nat → Nat × Nat
  | [], days => (0, days)
  | length :: lengths, days =>
      if days < length then (0, days)
      else
        let later := splitLengths lengths (days - length)
        (later.1 + 1, later.2)

/-- The date that is so many days behind the first of January of `epoch`. -/
def civilOfDays (epoch days : Nat) : CivilDate :=
  let year := splitYears epoch days
  let month := splitLengths (monthLengths year.1) year.2
  ⟨year.1, month.1, month.2 + 1⟩

def daysBeforeYear (year : Nat) : Nat :=
  365 * year + (year + 3) / 4 + (year + 399) / 400 - (year + 99) / 100

def dayNumber (date : CivilDate) : Nat :=
  daysBeforeYear date.year + ((monthLengths date.year).take date.month).sum + (date.day - 1)

/-- The day of the week, counted from Sunday; the year 0 begins with a Saturday. -/
def CivilDate.weekday (date : CivilDate) : Nat := (dayNumber date + 6) % 7

instance (date : CivilDate) : Decidable date.Valid :=
  decidable_of_iff (date.month < 12 ∧ 1 ≤ date.day ∧
      date.day ≤ (monthLengths date.year).getD date.month 0)
    ⟨fun ⟨month, positive, day⟩ => ⟨month, positive, day⟩,
      fun ⟨month, positive, day⟩ => ⟨month, positive, day⟩⟩

section Years

theorem daysBeforeYear_succ (year : Nat) :
    daysBeforeYear (year + 1) = daysBeforeYear year + yearLength year := by
  have leap : isLeap year = true ↔ year % 4 = 0 ∧ (year % 100 ≠ 0 ∨ year % 400 = 0) := by
    simp [isLeap]
  unfold daysBeforeYear yearLength
  by_cases isLeapYear : isLeap year = true
  · rw [if_pos isLeapYear]
    have when := leap.mp isLeapYear
    omega
  · rw [if_neg isLeapYear]
    have when := mt leap.mpr isLeapYear
    omega

theorem splitYears_spec (year days : Nat) :
    year ≤ (splitYears year days).1 ∧
      daysBeforeYear year + days =
        daysBeforeYear (splitYears year days).1 + (splitYears year days).2 ∧
      (splitYears year days).2 < yearLength (splitYears year days).1 := by
  induction year, days using splitYears.induct with
  | case1 year days within =>
      rw [splitYears, if_pos within]
      exact ⟨le_rfl, rfl, within⟩
  | case2 year days beyond inductionHypothesis =>
      rw [splitYears, if_neg beyond]
      obtain ⟨later, same, within⟩ := inductionHypothesis
      refine ⟨by omega, ?_, within⟩
      rw [← same, daysBeforeYear_succ]
      omega

end Years

section Lengths

theorem splitLengths_spec {lengths : List Nat} {days : Nat} (within : days < lengths.sum) :
    (splitLengths lengths days).1 < lengths.length ∧
      days = (lengths.take (splitLengths lengths days).1).sum + (splitLengths lengths days).2 ∧
      (splitLengths lengths days).2 < lengths.getD (splitLengths lengths days).1 0 := by
  induction lengths generalizing days with
  | nil => exact absurd within (Nat.not_lt_zero days)
  | cons length lengths inductionHypothesis =>
      rw [List.sum_cons] at within
      rw [splitLengths]
      split
      · rename_i inside
        exact ⟨Nat.succ_pos _, by simp, by simpa using inside⟩
      · rename_i outside
        obtain ⟨index, same, rest⟩ :=
          inductionHypothesis (show days - length < lengths.sum by omega)
        refine ⟨Nat.succ_lt_succ index, ?_, by simpa using rest⟩
        simp only [List.take_succ_cons, List.sum_cons]
        omega

end Lengths

/-- Every day has a date, and the closed formula gives the day back. -/
theorem civilOfDays_spec (epoch days : Nat) :
    (civilOfDays epoch days).Valid ∧ epoch ≤ (civilOfDays epoch days).year ∧
      dayNumber (civilOfDays epoch days) = daysBeforeYear epoch + days := by
  obtain ⟨later, same, within⟩ := splitYears_spec epoch days
  rw [← sum_monthLengths] at within
  obtain ⟨month, day, rest⟩ := splitLengths_spec within
  refine ⟨⟨month, Nat.le_add_left 1 _, rest⟩, later, ?_⟩
  have together := congrArg (daysBeforeYear (splitYears epoch days).1 + ·) day
  simp only [dayNumber, civilOfDays, Nat.add_sub_cancel]
  omega

end Mevent.Library
