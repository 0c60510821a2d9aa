import Mathlib.Tactic.TypeStar

/-!
# Edge-triggered readiness

A source is ready or not.  Who has registered an interest in it gets a signal when it
becomes ready, and one on registering when it is ready already.  Work that waits for the
source is watched as long as there is an interest, and a signal whenever the source is ready.
-/

namespace Mevent.Library

/-- A source as an edge-triggered poll keeps it; `signalled` is a signal that has not been
fetched. -/
structure Readiness where
  ready : Bool
  interest : Bool
  signalled : Bool
  deriving DecidableEq, Repr

namespace Readiness

def unwatched (ready : Bool) : Readiness := ⟨ready, false, false⟩

def rise (source : Readiness) : Readiness :=
  { source with ready := true, signalled := source.signalled || source.interest }

/-- The source may have ceased to be ready. -/
def weaken (source : Readiness) (still : Bool) : Readiness :=
  { source with ready := source.ready && still }

def register (source : Readiness) : Readiness :=
  { source with interest := true, signalled := source.signalled || source.ready }

def fetch (source : Readiness) : Readiness := { source with signalled := false }

/-- There is an interest, and whenever the source is ready a signal, which may have been
fetched but not handled. -/
structure Watched (source : Readiness) (fetched : Prop) : Prop where
  interest : source.interest = true
  signal : source.ready = true → source.signalled = true ∨ fetched

section Watched

variable {source : Readiness} {fetched : Prop}

theorem Watched.rise (watched : source.Watched fetched) : source.rise.Watched fetched := by
  refine ⟨watched.interest, fun _ => .inl ?_⟩
  simp [Readiness.rise, watched.interest]

theorem watched_register : source.register.Watched fetched := by
  refine ⟨rfl, fun ready => .inl ?_⟩
  have ready' : source.ready = true := ready
  simp [register, ready']

theorem Watched.weaken (watched : source.Watched fetched) (still : Bool) :
    (source.weaken still).Watched fetched := by
  refine ⟨watched.interest, fun ready => watched.signal ?_⟩
  exact (Bool.and_eq_true_iff.mp ready).1

/-- A signal that is fetched is not lost before it is handled. -/
theorem Watched.fetch (watched : source.Watched fetched) {later : Prop}
    (kept : source.signalled = true ∨ fetched → later) : source.fetch.Watched later :=
  ⟨watched.interest, fun ready => .inr (kept (watched.signal ready))⟩

theorem Watched.mono (watched : source.Watched fetched) {later : Prop}
    (kept : fetched → later) : source.Watched later :=
  ⟨watched.interest, fun ready => (watched.signal ready).imp_right kept⟩

end Watched

end Readiness

end Mevent.Library
