import Mathlib.Logic.Relation

/-!
# Runs of a transition system

A system is given by a partial step function: a step that is not enabled has no
next state.  A run may be restricted to steps that meet a condition on the state
they are taken in.
-/

namespace Mevent.Library

universe u v
variable {State : Type u} {Label : Type v}

/-- The states reached from `start` by enabled steps, each of which is allowed in
the state it is taken in. -/
inductive Reaches (step : State → Label → Option State) (allowed : State → Label → Prop)
    (start : State) : State → Prop where
  | refl : Reaches step allowed start start
  | next {state later : State} (label : Label) : Reaches step allowed start state →
      allowed state label → step state label = some later →
      Reaches step allowed start later

section Reaches

variable {step : State → Label → Option State} {allowed : State → Label → Prop}
  {start : State}

/-- What holds at the start and is preserved by every allowed step holds in every
state reached. -/
theorem Reaches.invariant {holds : State → Prop} (initial : holds start)
    (preserved : ∀ state label later, holds state → allowed state label →
      step state label = some later → holds later)
    {state : State} (reached : Reaches step allowed start state) : holds state := by
  induction reached with
  | refl => exact initial
  | next label _ permitted enabled inductionHypothesis =>
      exact preserved _ label _ inductionHypothesis permitted enabled

/-- A run is a run under any condition that its steps meet. -/
theorem Reaches.mono {state : State} {permitted : State → Label → Prop}
    (permits : ∀ state label, allowed state label → permitted state label)
    (reached : Reaches step allowed start state) : Reaches step permitted start state := by
  induction reached with
  | refl => exact .refl
  | next label _ permission enabled inductionHypothesis =>
      exact inductionHypothesis.next label (permits _ label permission) enabled

/-- A run of a system is a run of another one, if each step is a step of that one or none. -/
theorem Reaches.project {Abstract : Type u} {Name : Type v}
    {abstractStep : Abstract → Name → Option Abstract} {state : State} (view : State → Abstract)
    (simulates : ∀ state label later, step state label = some later →
      view later = view state ∨ ∃ name, abstractStep (view state) name = some (view later))
    (reached : Reaches step allowed start state) :
    Reaches abstractStep (fun _ _ => True) (view start) (view state) := by
  induction reached with
  | refl => exact .refl
  | next label _ _ enabled inductionHypothesis =>
      rcases simulates _ label _ enabled with same | ⟨name, taken⟩
      · rw [same]
        exact inductionHypothesis
      · exact inductionHypothesis.next name trivial taken

end Reaches

/-- The state behind a list of steps, if all of them are allowed and enabled. -/
def replay (step : State → Label → Option State) (allowed : State → Label → Prop)
    [∀ state label, Decidable (allowed state label)] : State → List Label → Option State
  | state, [] => some state
  | state, label :: labels =>
      if allowed state label then
        (step state label).bind fun later => replay step allowed later labels
      else
        none

/-- What is replayed is a run. -/
theorem reaches_of_replay {step : State → Label → Option State}
    {allowed : State → Label → Prop} [∀ state label, Decidable (allowed state label)]
    {start last : State} {labels : List Label}
    (replayed : replay step allowed start labels = some last) :
    Reaches step allowed start last := by
  have extended : ∀ (labels : List Label) (state : State),
      Reaches step allowed start state → replay step allowed state labels = some last →
        Reaches step allowed start last := by
    intro labels
    induction labels with
    | nil =>
        intro state reached finished
        cases finished
        exact reached
    | cons label labels inductionHypothesis =>
        intro state reached continued
        obtain ⟨permitted, continued⟩ := Option.ite_none_right_eq_some.mp continued
        obtain ⟨later, enabled, rest⟩ := Option.bind_eq_some_iff.mp continued
        exact inductionHypothesis later (reached.next label permitted enabled) rest
  exact extended labels start .refl replayed

end Mevent.Library
