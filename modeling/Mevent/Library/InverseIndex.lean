import Mathlib.Data.Finset.Basic
import Mathlib.Logic.Function.Basic

/-!
# Inverse indices

Keys belong to a topic or to none.  An index lists the keys of each topic; it has no entry for
a topic without keys.
-/

namespace Mevent.Library

universe u v
variable {Key : Type u} {Topic : Type v}

/-- The index lists the key under its topic, and under no other. -/
def ListsKey (topic : Key → Option Topic) (index : Topic → Option (Finset Key)) (key : Key) :
    Prop :=
  ∀ name, topic key = some name ↔ ∃ keys, index name = some keys ∧ key ∈ keys

/-- The index lists exactly the keys of each topic, and no topic without any. -/
structure Inverts (topic : Key → Option Topic) (index : Topic → Option (Finset Key)) : Prop where
  members : ∀ key name, topic key = some name ↔ ∃ keys, index name = some keys ∧ key ∈ keys
  nonempty : ∀ name keys, index name = some keys → keys.Nonempty

variable [DecidableEq Key] [DecidableEq Topic]

/-- The key is listed under a topic. -/
def addKey (index : Topic → Option (Finset Key)) (name : Topic) (key : Key) :
    Topic → Option (Finset Key) :=
  match index name with
  | none => Function.update index name (some {key})
  | some keys => Function.update index name (some (insert key keys))

/-- The key is no longer listed under a topic, and a topic without keys is taken out. -/
def eraseKey (index : Topic → Option (Finset Key)) (name : Topic) (key : Key) :
    Topic → Option (Finset Key) :=
  match index name with
  | none => index
  | some keys =>
      if keys.erase key = ∅ then Function.update index name none
      else Function.update index name (some (keys.erase key))

section Entries

variable (index : Topic → Option (Finset Key)) (name : Topic) (key : Key)

theorem addKey_self : ∃ keys, addKey index name key name = some keys ∧
    ∀ other, other ∈ keys ↔ other = key ∨ ∃ before, index name = some before ∧ other ∈ before := by
  unfold addKey
  cases found : index name with
  | none => exact ⟨{key}, Function.update_self .., by simp⟩
  | some keys => exact ⟨insert key keys, Function.update_self .., by simp⟩

theorem addKey_of_ne {other : Topic} (different : other ≠ name) :
    addKey index name key other = index other := by
  unfold addKey
  cases index name with
  | none => exact Function.update_of_ne different ..
  | some keys => exact Function.update_of_ne different ..

theorem eraseKey_self {keys : Finset Key} (found : eraseKey index name key name = some keys) :
    ∃ before, index name = some before ∧ keys = before.erase key ∧ keys.Nonempty := by
  unfold eraseKey at found
  cases entry : index name with
  | none =>
      simp only [entry, reduceCtorEq] at found
  | some before =>
      simp only [entry] at found
      by_cases empty : before.erase key = ∅
      · simp [empty] at found
      · simp only [empty, if_false, Function.update_self, Option.some.injEq] at found
        exact ⟨before, rfl, found.symm, found ▸ Finset.nonempty_iff_ne_empty.mpr empty⟩

theorem mem_eraseKey_self (other : Key) :
    (∃ keys, eraseKey index name key name = some keys ∧ other ∈ keys) ↔
      other ≠ key ∧ ∃ before, index name = some before ∧ other ∈ before := by
  unfold eraseKey
  cases entry : index name with
  | none => simp [entry]
  | some before =>
      by_cases empty : before.erase key = ∅
      · have nothing : ¬ (other ≠ key ∧ other ∈ before) := by
          rw [← Finset.mem_erase, empty]
          exact Finset.notMem_empty other
        simp [empty] at nothing ⊢
        exact nothing
      · simp [empty]

theorem eraseKey_of_ne {other : Topic} (different : other ≠ name) :
    eraseKey index name key other = index other := by
  unfold eraseKey
  cases index name with
  | none => rfl
  | some keys =>
      by_cases empty : keys.erase key = ∅
      · simp only [if_pos empty]
        exact Function.update_of_ne different ..
      · simp only [if_neg empty]
        exact Function.update_of_ne different ..

end Entries

section Inverts

variable {topic : Key → Option Topic} {index : Topic → Option (Finset Key)}

omit [DecidableEq Key] [DecidableEq Topic] in
theorem listsKey_empty (key : Key) :
    ListsKey (fun _ : Key => (none : Option Topic)) (fun _ => none) key :=
  fun _ => by simp

theorem ListsKey.add {key other : Key} (lists : ListsKey topic index other)
    (free : other = key → topic key = none) (name : Topic) :
    ListsKey (Function.update topic key (some name)) (addKey index name key) other := by
  intro otherName
  obtain ⟨added, entry, listed⟩ := addKey_self index name key
  by_cases sameName : otherName = name
  · subst sameName
    rw [entry]
    simp only [Option.some.injEq, exists_eq_left', listed, ← lists otherName]
    by_cases sameKey : other = key
    · simp [sameKey]
    · simp [sameKey]
  · rw [addKey_of_ne index name key sameName, ← lists otherName]
    by_cases sameKey : other = key
    · subst sameKey
      simp [free rfl, Ne.symm sameName]
    · simp [sameKey]

theorem ListsKey.erase {key other : Key} (lists : ListsKey topic index other) {name : Topic}
    (only : other = key → ∀ otherName, topic key = some otherName → otherName = name) :
    ListsKey (Function.update topic key none) (eraseKey index name key) other := by
  intro otherName
  by_cases sameName : otherName = name
  · subst sameName
    rw [mem_eraseKey_self, ← lists otherName]
    by_cases sameKey : other = key
    · simp [sameKey]
    · simp [sameKey]
  · rw [eraseKey_of_ne index name key sameName, ← lists otherName]
    by_cases sameKey : other = key
    · subst sameKey
      have lost : topic other ≠ some otherName := fun has => sameName (only rfl otherName has)
      simp [lost]
    · simp [sameKey]

end Inverts

section Nonempty

variable {index : Topic → Option (Finset Key)} {name otherName : Topic} {key : Key}
  {keys : Finset Key}

theorem nonempty_addKey
    (nonempty : ∀ name keys, index name = some keys → keys.Nonempty)
    (found : addKey index name key otherName = some keys) : keys.Nonempty := by
  by_cases sameName : otherName = name
  · subst sameName
    obtain ⟨added, entry, listed⟩ := addKey_self index otherName key
    rw [entry] at found
    cases found
    exact ⟨key, (listed key).mpr (.inl rfl)⟩
  · rw [addKey_of_ne index name key sameName] at found
    exact nonempty otherName keys found

theorem nonempty_eraseKey
    (nonempty : ∀ name keys, index name = some keys → keys.Nonempty)
    (found : eraseKey index name key otherName = some keys) : keys.Nonempty := by
  by_cases sameName : otherName = name
  · subst sameName
    obtain ⟨-, -, -, some⟩ := eraseKey_self index otherName key found
    exact some
  · rw [eraseKey_of_ne index name key sameName] at found
    exact nonempty otherName keys found

end Nonempty

end Mevent.Library
