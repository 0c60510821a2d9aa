import Mathlib.Data.List.Perm.Subperm
import Mathlib.Data.Finset.Card
import Mathlib.Data.Finset.Range

/-!
# Numbers that several owners share

Every owner holds a list of numbers.  When one of them takes some up or gives some up, the list of
all changes by as much, up to its order.  The next number is the lowest that nobody holds.
-/

namespace Mevent.Library

universe u v

section Owners

variable {Owner : Type u} {Item : Type v} [DecidableEq Owner]

/-- What all owners hold changes by what one of them takes up and gives up. -/
theorem perm_flatMap_of_agrees {owners : List Owner} (distinct : owners.Nodup) {owner : Owner}
    (among : owner ∈ owners) {before behind : Owner → List Item}
    (others : ∀ other, other ≠ owner → behind other = before other) :
    (before owner ++ owners.flatMap behind).Perm (behind owner ++ owners.flatMap before) := by
  have rest : (owners.erase owner).flatMap behind = (owners.erase owner).flatMap before := by
    apply List.flatMap_congr
    intro other inside
    exact others other (distinct.mem_erase_iff.mp inside).1
  have apart : ∀ holds : Owner → List Item,
      (owners.flatMap holds).Perm (holds owner ++ (owners.erase owner).flatMap holds) :=
    fun holds => (List.perm_cons_erase among).flatMap_right holds
  have taken : (before owner ++ owners.flatMap behind).Perm
      (before owner ++ (behind owner ++ (owners.erase owner).flatMap before)) :=
    (rest ▸ apart behind).append_left (before owner)
  have given : (behind owner ++ (before owner ++ (owners.erase owner).flatMap before)).Perm
      (behind owner ++ owners.flatMap before) :=
    (apart before).symm.append_left (behind owner)
  exact (taken.trans (List.perm_append_comm_assoc _ _ _)).trans given

theorem nodup_of_subperm {items more : List Item} (part : items.Subperm more)
    (distinct : more.Nodup) : items.Nodup := by
  obtain ⟨same, rearranged, sublist⟩ := part
  exact rearranged.nodup_iff.mp (distinct.sublist sublist)

end Owners

def lowestUnused (fds : List Nat) : Nat :=
  ((List.range (fds.length + 1)).find? fun fd => decide (fd ∉ fds)).getD 0

theorem lowestUnused_spec (fds : List Nat) :
    lowestUnused fds ∉ fds ∧ ∀ fd < lowestUnused fds, fd ∈ fds := by
  unfold lowestUnused
  cases found : (List.range (fds.length + 1)).find? fun fd => decide (fd ∉ fds) with
  | some fd =>
      obtain ⟨unused, -, held⟩ := List.find?_range_eq_some.mp found
      exact ⟨by simpa using unused, fun other below => by simpa using held other below⟩
  | none =>
      -- so many numbers cannot all be held
      have all : ∀ fd ∈ List.range (fds.length + 1), fd ∈ fds := by
        intro fd inside
        simpa using List.find?_eq_none.mp found fd inside
      have fewer := (List.nodup_range.subperm all).length_le
      rw [List.length_range] at fewer
      omega

/-- There is a number left below a limit when fewer than that are held, and only then. -/
theorem lowestUnused_lt_iff {fds : List Nat} {limit : Nat} (distinct : fds.Nodup)
    (below : ∀ fd ∈ fds, fd < limit) : lowestUnused fds < limit ↔ fds.length < limit := by
  have counted : fds.toFinset.card = fds.length := List.toFinset_card_of_nodup distinct
  have inside : fds.toFinset ⊆ Finset.range limit := by
    intro fd used
    exact Finset.mem_range.mpr (below fd (List.mem_toFinset.mp used))
  constructor
  · intro room
    have missing : lowestUnused fds ∉ fds.toFinset := fun used =>
      (lowestUnused_spec fds).1 (List.mem_toFinset.mp used)
    have fewer : fds.toFinset ⊂ Finset.range limit :=
      Finset.ssubset_iff_subset_ne.mpr ⟨inside, fun same =>
        missing (same ▸ Finset.mem_range.mpr room)⟩
    have cards := Finset.card_lt_card fewer
    rwa [counted, Finset.card_range] at cards
  · intro few
    by_contra full
    have all : Finset.range limit ⊆ fds.toFinset := by
      intro fd fdBelow
      have early : fd < lowestUnused fds :=
        Nat.lt_of_lt_of_le (Finset.mem_range.mp fdBelow) (Nat.not_lt.mp full)
      exact List.mem_toFinset.mpr ((lowestUnused_spec fds).2 fd early)
    have cards := Finset.card_le_card all
    rw [counted, Finset.card_range] at cards
    omega

end Mevent.Library
