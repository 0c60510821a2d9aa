import Mathlib.Data.List.Basic

/-!
# Resumable scanners

A scanner is a loop over a buffer: each round either advances the state and
emits outputs, or leaves the loop with a verdict.  A measure that every
advancing round decreases makes the loop total.

A scanner is resumable at a state when growing the buffer there does not change
what the round does.  The main result compares a buffer that arrives in pieces
with the same buffer arriving whole: as long as every round of the piecewise
run is resumable, both end with the same verdict and the same outputs.
-/

namespace Mevent.Library

universe u v w x

inductive Round (State : Type u) (Output : Type v) (Verdict : Type w) where
  | advance (state : State) (outputs : List Output)
  | leave (state : State) (verdict : Verdict)

def Round.state {State : Type u} {Output : Type v} {Verdict : Type w} :
    Round State Output Verdict → State
  | .advance next _ => next
  | .leave last _ => last

def Round.map {State : Type u} {Output : Type v} {Verdict : Type w} (change : State → State) :
    Round State Output Verdict → Round State Output Verdict
  | .advance next outputs => .advance (change next) outputs
  | .leave last verdict => .leave (change last) verdict

/-- A loop whose advancing rounds decrease `remaining`. -/
structure Scanner (State : Type u) (Output : Type v) (Verdict : Type w) where
  /-- One round of the loop. -/
  round : State → Round State Output Verdict
  /-- An upper bound for the rounds still to come. -/
  remaining : State → Nat
  /-- Every advancing round comes closer to the end. -/
  decreases : ∀ {state next outputs},
    round state = .advance next outputs → remaining next < remaining state

/-- The state in which a loop was left, everything it emitted, and why it was
left. -/
structure Scanned (State : Type u) (Output : Type v) (Verdict : Type w) where
  state : State
  outputs : List Output
  verdict : Verdict

namespace Scanned

variable {State : Type u} {Output : Type v} {Verdict : Type w}

def after (outputs : List Output) (scanned : Scanned State Output Verdict) :
    Scanned State Output Verdict :=
  { scanned with outputs := outputs ++ scanned.outputs }

@[simp]
theorem after_state (outputs : List Output)
    (scanned : Scanned State Output Verdict) :
    (scanned.after outputs).state = scanned.state := rfl

@[simp]
theorem after_outputs (outputs : List Output)
    (scanned : Scanned State Output Verdict) :
    (scanned.after outputs).outputs = outputs ++ scanned.outputs := rfl

@[simp]
theorem after_verdict (outputs : List Output)
    (scanned : Scanned State Output Verdict) :
    (scanned.after outputs).verdict = scanned.verdict := rfl

@[simp]
theorem after_nil (scanned : Scanned State Output Verdict) :
    scanned.after [] = scanned := rfl

@[simp]
theorem after_after (first second : List Output)
    (scanned : Scanned State Output Verdict) :
    (scanned.after second).after first = scanned.after (first ++ second) := by
  simp [after]

end Scanned

namespace Scanner

variable {State : Type u} {Output : Type v} {Verdict : Type w}

def runFor (scanner : Scanner State Output Verdict) :
    (bound : Nat) → (state : State) → scanner.remaining state < bound →
      Scanned State Output Verdict
  | 0, _, bounded => absurd bounded (Nat.not_lt_zero _)
  | bound + 1, state, bounded =>
      match taken : scanner.round state with
      | .advance next outputs =>
          (runFor scanner bound next
            (Nat.lt_of_lt_of_le (scanner.decreases taken)
              (Nat.le_of_lt_succ bounded))).after outputs
      | .leave last verdict => ⟨last, [], verdict⟩

def run (scanner : Scanner State Output Verdict) (state : State) :
    Scanned State Output Verdict :=
  scanner.runFor (scanner.remaining state + 1) state (Nat.lt_succ_self _)

theorem runFor_of_advance (scanner : Scanner State Output Verdict)
    {state next : State} {outputs : List Output}
    (taken : scanner.round state = .advance next outputs)
    (bound : Nat) (bounded : scanner.remaining state < bound + 1) :
    scanner.runFor (bound + 1) state bounded =
      (scanner.runFor bound next
        (Nat.lt_of_lt_of_le (scanner.decreases taken)
          (Nat.le_of_lt_succ bounded))).after outputs := by
  simp only [runFor]
  split
  next other otherOutputs otherTaken =>
    rw [taken] at otherTaken
    cases otherTaken
    rfl
  next last verdict left =>
    rw [taken] at left
    cases left

theorem runFor_of_leave (scanner : Scanner State Output Verdict)
    {state last : State} {verdict : Verdict}
    (left : scanner.round state = .leave last verdict)
    (bound : Nat) (bounded : scanner.remaining state < bound + 1) :
    scanner.runFor (bound + 1) state bounded = ⟨last, [], verdict⟩ := by
  simp only [runFor]
  split
  next next outputs taken =>
    rw [left] at taken
    cases taken
  next other otherVerdict otherLeft =>
    rw [left] at otherLeft
    cases otherLeft
    rfl

theorem runFor_eq_run (scanner : Scanner State Output Verdict)
    (bound : Nat) (state : State) (bounded : scanner.remaining state < bound) :
    scanner.runFor bound state bounded = scanner.run state := by
  suffices general : ∀ first second state
      (firstBounded : scanner.remaining state < first)
      (secondBounded : scanner.remaining state < second),
      scanner.runFor first state firstBounded =
        scanner.runFor second state secondBounded from
    general _ _ _ _ _
  intro first
  induction first with
  | zero => intro _ _ firstBounded; exact absurd firstBounded (Nat.not_lt_zero _)
  | succ first inductionHypothesis =>
      intro second state firstBounded secondBounded
      cases second with
      | zero => exact absurd secondBounded (Nat.not_lt_zero _)
      | succ second =>
          cases taken : scanner.round state with
          | advance next outputs =>
              rw [scanner.runFor_of_advance taken, scanner.runFor_of_advance taken]
              rw [inductionHypothesis second next _ _]
          | leave last verdict =>
              rw [scanner.runFor_of_leave taken, scanner.runFor_of_leave taken]

theorem run_of_advance (scanner : Scanner State Output Verdict)
    {state next : State} {outputs : List Output}
    (taken : scanner.round state = .advance next outputs) :
    scanner.run state = (scanner.run next).after outputs := by
  unfold run
  rw [scanner.runFor_of_advance taken]
  rw [scanner.runFor_eq_run, scanner.runFor_eq_run]

theorem run_of_quiet_advance (scanner : Scanner State Output Verdict)
    {state next : State} (taken : scanner.round state = .advance next []) :
    scanner.run state = scanner.run next := by
  rw [scanner.run_of_advance taken, Scanned.after_nil]

theorem run_of_leave (scanner : Scanner State Output Verdict)
    {state last : State} {verdict : Verdict}
    (left : scanner.round state = .leave last verdict) :
    scanner.run state = ⟨last, [], verdict⟩ :=
  scanner.runFor_of_leave left _ _

/-- Induction over the rounds of one run. -/
theorem run_induction (scanner : Scanner State Output Verdict)
    {motive : State → Prop}
    (leave : ∀ state last verdict,
      scanner.round state = .leave last verdict → motive state)
    (advance : ∀ state next outputs,
      scanner.round state = .advance next outputs → motive next → motive state)
    (state : State) : motive state := by
  suffices bounded : ∀ bound state, scanner.remaining state < bound → motive state from
    bounded _ state (Nat.lt_succ_self _)
  intro bound
  induction bound with
  | zero => intro _ impossible; exact absurd impossible (Nat.not_lt_zero _)
  | succ bound inductionHypothesis =>
      intro state within
      cases taken : scanner.round state with
      | leave last verdict => exact leave state last verdict taken
      | advance next outputs =>
          apply advance state next outputs taken
          apply inductionHypothesis
          exact Nat.lt_of_lt_of_le (scanner.decreases taken) (Nat.le_of_lt_succ within)

/-- What every advancing round preserves holds where the loop is left. -/
theorem run_invariant (scanner : Scanner State Output Verdict) (holds : State → Prop)
    (ends : State → Verdict → Prop)
    (advance : ∀ state next outputs, holds state →
      scanner.round state = .advance next outputs → holds next)
    (leave : ∀ state last verdict, holds state →
      scanner.round state = .leave last verdict → ends last verdict)
    {state : State} (initial : holds state) :
    ends (scanner.run state).state (scanner.run state).verdict := by
  induction state using scanner.run_induction with
  | leave state last verdict left =>
      rw [scanner.run_of_leave left]
      exact leave state last verdict initial left
  | advance state next outputs taken inductionHypothesis =>
      rw [scanner.run_of_advance taken]
      exact inductionHypothesis (advance state next outputs initial taken)

/-- The states in which one run makes its rounds. -/
inductive Visits (scanner : Scanner State Output Verdict) : State → State → Prop where
  | here {state} : Visits scanner state state
  | later {state next outputs visited} :
      scanner.round state = .advance next outputs →
      Visits scanner next visited → Visits scanner state visited

theorem visits_of_advance (scanner : Scanner State Output Verdict) {state next visited : State}
    {outputs : List Output} (taken : scanner.round state = .advance next outputs) :
    scanner.Visits state visited ↔ visited = state ∨ scanner.Visits next visited := by
  constructor
  · intro reached
    cases reached with
    | here => exact .inl rfl
    | later otherTaken reached =>
        rw [taken] at otherTaken
        cases otherTaken
        exact .inr reached
  · rintro (rfl | reached)
    · exact .here
    · exact .later taken reached

theorem visits_of_leave (scanner : Scanner State Output Verdict) {state last visited : State}
    {verdict : Verdict} (left : scanner.round state = .leave last verdict) :
    scanner.Visits state visited ↔ visited = state := by
  constructor
  · intro reached
    cases reached with
    | here => rfl
    | later taken _ =>
        rw [left] at taken
        cases taken
  · rintro rfl
    exact .here

theorem run_state_of_visits (scanner : Scanner State Output Verdict) {state visited : State}
    (reached : scanner.Visits state visited) :
    (scanner.run visited).state = (scanner.run state).state ∧
      (scanner.run visited).verdict = (scanner.run state).verdict := by
  induction reached with
  | here => exact ⟨rfl, rfl⟩
  | later taken _ inductionHypothesis =>
      rw [scanner.run_of_advance taken]
      exact inductionHypothesis

theorem exists_visits_leave (scanner : Scanner State Output Verdict) (state : State) :
    ∃ visited, scanner.Visits state visited ∧
      scanner.round visited = .leave (scanner.run state).state (scanner.run state).verdict := by
  induction state using scanner.run_induction with
  | leave state last verdict left =>
      rw [scanner.run_of_leave left]
      exact ⟨state, .here, left⟩
  | advance state next outputs taken inductionHypothesis =>
      obtain ⟨visited, reached, left⟩ := inductionHypothesis
      rw [scanner.run_of_advance taken]
      exact ⟨visited, .later taken reached, left⟩

def traceFor (scanner : Scanner State Output Verdict) : Nat → State → List State
  | 0, _ => []
  | bound + 1, state =>
      state ::
        match scanner.round state with
        | .advance next _ => traceFor scanner bound next
        | .leave _ _ => []

def trace (scanner : Scanner State Output Verdict) (state : State) : List State :=
  scanner.traceFor (scanner.remaining state + 1) state

theorem traceFor_eq_trace (scanner : Scanner State Output Verdict) {bound : Nat} {state : State}
    (bounded : scanner.remaining state < bound) :
    scanner.traceFor bound state = scanner.trace state := by
  suffices general : ∀ first second state, scanner.remaining state < first →
      scanner.remaining state < second →
        scanner.traceFor first state = scanner.traceFor second state from
    general _ _ _ bounded (Nat.lt_succ_self _)
  intro first
  induction first with
  | zero =>
      intro _ _ firstBounded
      exact absurd firstBounded (Nat.not_lt_zero _)
  | succ first inductionHypothesis =>
      intro second state firstBounded secondBounded
      cases second with
      | zero => exact absurd secondBounded (Nat.not_lt_zero _)
      | succ second =>
          rw [traceFor, traceFor]
          cases taken : scanner.round state with
          | advance next outputs =>
              have closer := scanner.decreases taken
              simp only [inductionHypothesis second next (by omega) (by omega)]
          | leave last verdict => rfl

theorem trace_of_advance (scanner : Scanner State Output Verdict) {state next : State}
    {outputs : List Output} (taken : scanner.round state = .advance next outputs) :
    scanner.trace state = state :: scanner.trace next := by
  rw [trace, traceFor, taken, ← scanner.traceFor_eq_trace (scanner.decreases taken)]

theorem trace_of_leave (scanner : Scanner State Output Verdict) {state last : State}
    {verdict : Verdict} (left : scanner.round state = .leave last verdict) :
    scanner.trace state = [state] := by
  rw [trace, traceFor, left]

theorem mem_traceFor_iff (scanner : Scanner State Output Verdict) {bound : Nat}
    {state visited : State} (bounded : scanner.remaining state < bound) :
    visited ∈ scanner.traceFor bound state ↔ scanner.Visits state visited := by
  induction bound generalizing state with
  | zero => exact absurd bounded (Nat.not_lt_zero _)
  | succ bound inductionHypothesis =>
      rw [traceFor, List.mem_cons]
      cases taken : scanner.round state with
      | advance next outputs =>
          have closer := scanner.decreases taken
          rw [inductionHypothesis (by omega), scanner.visits_of_advance taken]
      | leave last verdict =>
          rw [scanner.visits_of_leave taken]
          simp

theorem mem_trace_iff (scanner : Scanner State Output Verdict) {state visited : State} :
    visited ∈ scanner.trace state ↔ scanner.Visits state visited :=
  scanner.mem_traceFor_iff (Nat.lt_succ_self _)

theorem exists_last_trace (scanner : Scanner State Output Verdict) (state : State) :
    ∃ front last, scanner.trace state = front ++ [last] ∧
      (∀ visited ∈ front, ∃ next outputs, scanner.round visited = .advance next outputs) ∧
      scanner.round last = .leave (scanner.run state).state (scanner.run state).verdict := by
  induction state using scanner.run_induction with
  | leave state last verdict left =>
      rw [scanner.trace_of_leave left, scanner.run_of_leave left]
      exact ⟨[], state, rfl, List.forall_mem_nil _, left⟩
  | advance state next outputs taken inductionHypothesis =>
      obtain ⟨front, last, same, advances, left⟩ := inductionHypothesis
      rw [scanner.trace_of_advance taken, scanner.run_of_advance taken, same]
      refine ⟨state :: front, last, rfl, ?_, left⟩
      exact List.forall_mem_cons.mpr ⟨⟨next, outputs, taken⟩, advances⟩

theorem trace_invariant (scanner : Scanner State Output Verdict) (holds : State → Prop)
    (advance : ∀ state next outputs, holds state →
      scanner.round state = .advance next outputs → holds next)
    {state : State} (initial : holds state) : ∀ visited ∈ scanner.trace state, holds visited := by
  induction state using scanner.run_induction with
  | leave state last verdict left =>
      rw [scanner.trace_of_leave left]
      exact List.forall_mem_singleton.mpr initial
  | advance state next outputs taken inductionHypothesis =>
      rw [scanner.trace_of_advance taken]
      exact List.forall_mem_cons.mpr
        ⟨initial, inductionHypothesis (advance state next outputs initial taken)⟩

section Changes

/-- Every round commutes with a change of the state. -/
def Commutes (scanner : Scanner State Output Verdict) (change : State → State) : Prop :=
  ∀ state, scanner.round (change state) = (scanner.round state).map change

theorem run_change {scanner : Scanner State Output Verdict} {change : State → State}
    (commutes : scanner.Commutes change) (state : State) :
    scanner.run (change state) =
      { scanner.run state with state := change (scanner.run state).state } := by
  induction state using scanner.run_induction with
  | leave state last verdict left =>
      have changed : scanner.round (change state) = .leave (change last) verdict := by
        rw [commutes, left]
        rfl
      rw [scanner.run_of_leave left, scanner.run_of_leave changed]
  | advance state next outputs taken inductionHypothesis =>
      have changed : scanner.round (change state) = .advance (change next) outputs := by
        rw [commutes, taken]
        rfl
      rw [scanner.run_of_advance taken, scanner.run_of_advance changed, inductionHypothesis]
      rfl

theorem trace_change {scanner : Scanner State Output Verdict} {change : State → State}
    (commutes : scanner.Commutes change) (state : State) :
    scanner.trace (change state) = (scanner.trace state).map change := by
  induction state using scanner.run_induction with
  | leave state last verdict left =>
      have changed : scanner.round (change state) = .leave (change last) verdict := by
        rw [commutes, left]
        rfl
      rw [scanner.trace_of_leave left, scanner.trace_of_leave changed, List.map_singleton]
  | advance state next outputs taken inductionHypothesis =>
      have changed : scanner.round (change state) = .advance (change next) outputs := by
        rw [commutes, taken]
        rfl
      rw [scanner.trace_of_advance taken, scanner.trace_of_advance changed,
        inductionHypothesis, List.map_cons]

end Changes

section Growth

variable {Chunk : Type x} (scanner : Scanner State Output Verdict)
  (extend : State → List Chunk → State) (waits : Verdict → Prop)

/-- Growing the buffer does not change what the round in this state does.  A
round that leaves the loop to wait for more leaves the state as it was. -/
structure Resumable (state : State) : Prop where
  advance : ∀ {next outputs} (chunk : List Chunk),
    scanner.round state = .advance next outputs →
    scanner.round (extend state chunk) = .advance (extend next chunk) outputs
  leave : ∀ {last verdict} (chunk : List Chunk),
    scanner.round state = .leave last verdict → ¬ waits verdict →
    scanner.round (extend state chunk) = .leave (extend last chunk) verdict
  wait : ∀ {last verdict},
    scanner.round state = .leave last verdict → waits verdict → last = state

/-- What is still behind the buffer does not change where this round leads.  A
round that leaves the loop to wait for it leaves the state as it was. -/
structure Continues (behind : List Chunk) (state : State) : Prop where
  advance : ∀ {next outputs},
    scanner.round state = .advance next outputs →
    scanner.run (extend state behind) = (scanner.run (extend next behind)).after outputs
  leave : ∀ {last verdict},
    scanner.round state = .leave last verdict → ¬ waits verdict →
    scanner.run (extend state behind) = ⟨extend last behind, [], verdict⟩
  wait : ∀ {last verdict},
    scanner.round state = .leave last verdict → waits verdict → last = state

theorem Resumable.continues {state : State}
    (resumable : scanner.Resumable extend waits state) (behind : List Chunk) :
    scanner.Continues extend waits behind state where
  advance := fun taken => scanner.run_of_advance (resumable.advance behind taken)
  leave := fun left ends => scanner.run_of_leave (resumable.leave behind left ends)
  wait := resumable.wait

/-- A run that waits is continued by the grown buffer. -/
theorem run_extend_of_waits {state : State} {behind : List Chunk}
    (continues : ∀ visited, scanner.Visits state visited →
      scanner.Continues extend waits behind visited)
    (waiting : waits (scanner.run state).verdict) :
    scanner.run (extend state behind) =
      (scanner.run (extend (scanner.run state).state behind)).after
        (scanner.run state).outputs := by
  induction state using scanner.run_induction with
  | leave state last verdict left =>
      have same := (continues state .here).wait left
        (by simpa [scanner.run_of_leave left] using waiting)
      subst same
      simp [scanner.run_of_leave left, Scanned.after]
  | advance state next outputs taken inductionHypothesis =>
      rw [scanner.run_of_advance taken] at waiting ⊢
      rw [(continues state .here).advance taken]
      rw [inductionHypothesis
        (fun visited reached => continues visited (.later taken reached)) waiting]
      simp

/-- A run that ends for good is not influenced by the grown buffer. -/
theorem run_extend_of_leaves {state : State} {behind : List Chunk}
    (continues : ∀ visited, scanner.Visits state visited →
      scanner.Continues extend waits behind visited)
    (ending : ¬ waits (scanner.run state).verdict) :
    scanner.run (extend state behind) =
      { scanner.run state with
        state := extend (scanner.run state).state behind } := by
  induction state using scanner.run_induction with
  | leave state last verdict left =>
      rw [(continues state .here).leave left
        (by simpa [scanner.run_of_leave left] using ending)]
      rw [scanner.run_of_leave left]
  | advance state next outputs taken inductionHypothesis =>
      rw [scanner.run_of_advance taken] at ending ⊢
      rw [(continues state .here).advance taken]
      rw [inductionHypothesis
        (fun visited reached => continues visited (.later taken reached)) ending]
      rfl

theorem run_state_of_waits {state : State} {behind : List Chunk}
    (continues : ∀ visited, scanner.Visits state visited →
      scanner.Continues extend waits behind visited)
    (waiting : waits (scanner.run state).verdict) :
    scanner.run (scanner.run state).state =
      ⟨(scanner.run state).state, [], (scanner.run state).verdict⟩ := by
  induction state using scanner.run_induction with
  | leave state last verdict left =>
      have same := (continues state .here).wait left
        (by simpa [scanner.run_of_leave left] using waiting)
      subst same
      simp [scanner.run_of_leave left]
  | advance state next outputs taken inductionHypothesis =>
      rw [scanner.run_of_advance taken] at waiting ⊢
      exact inductionHypothesis
        (fun visited reached => continues visited (.later taken reached)) waiting

end Growth

section Feeding

variable {Chunk : Type x} (scanner : Scanner State Output Verdict)
  (extend : State → Chunk → State) (waits : Verdict → Prop)
  [DecidablePred waits] (idle : Verdict)

/-- Append the chunks one by one and run the loop after each, until a run does
not wait for more. -/
def feed (state : State) : List Chunk → Scanned State Output Verdict
  | [] => ⟨state, [], idle⟩
  | chunk :: rest =>
      let scanned := scanner.run (extend state chunk)
      if waits scanned.verdict then
        (feed scanned.state rest).after scanned.outputs
      else
        scanned

/-- The states in which a fed scanner makes its rounds, each with the chunks that
have not arrived yet. -/
inductive FeedVisits : State → List Chunk → State → List Chunk → Prop where
  | now {state chunk rest visited} :
      scanner.Visits (extend state chunk) visited →
      FeedVisits state (chunk :: rest) visited rest
  | later {state chunk rest visited awaited} :
      waits (scanner.run (extend state chunk)).verdict →
      FeedVisits (scanner.run (extend state chunk)).state rest visited awaited →
      FeedVisits state (chunk :: rest) visited awaited

omit [DecidablePred waits] in
theorem feedVisits_of_waits {state visited : State} {chunk : Chunk} {rest awaited : List Chunk}
    (waiting : waits (scanner.run (extend state chunk)).verdict) :
    scanner.FeedVisits extend waits state (chunk :: rest) visited awaited ↔
      scanner.Visits (extend state chunk) visited ∧ awaited = rest ∨
        scanner.FeedVisits extend waits (scanner.run (extend state chunk)).state rest visited
          awaited := by
  constructor
  · intro reached
    cases reached with
    | now reached => exact .inl ⟨reached, rfl⟩
    | later _ reached => exact .inr reached
  · rintro (⟨reached, rfl⟩ | reached)
    · exact .now reached
    · exact .later waiting reached

omit [DecidablePred waits] in
theorem feedVisits_of_leaves {state visited : State} {chunk : Chunk} {rest awaited : List Chunk}
    (ending : ¬ waits (scanner.run (extend state chunk)).verdict) :
    scanner.FeedVisits extend waits state (chunk :: rest) visited awaited ↔
      scanner.Visits (extend state chunk) visited ∧ awaited = rest := by
  constructor
  · intro reached
    cases reached with
    | now reached => exact ⟨reached, rfl⟩
    | later waiting _ => exact absurd waiting ending
  · rintro ⟨reached, rfl⟩
    exact .now reached

def feedTrace (state : State) : List Chunk → List (State × List Chunk)
  | [] => []
  | chunk :: rest =>
      (scanner.trace (extend state chunk)).map (fun visited => (visited, rest)) ++
        if waits (scanner.run (extend state chunk)).verdict then
          feedTrace (scanner.run (extend state chunk)).state rest
        else
          []

theorem mem_feedTrace_iff {state visited : State} {chunks awaited : List Chunk} :
    (visited, awaited) ∈ scanner.feedTrace extend waits state chunks ↔
      scanner.FeedVisits extend waits state chunks visited awaited := by
  induction chunks generalizing state with
  | nil =>
      constructor
      · intro impossible
        cases impossible
      · intro reached
        cases reached
  | cons chunk rest inductionHypothesis =>
      rw [feedTrace, List.mem_append, List.mem_map]
      have here : (∃ examined ∈ scanner.trace (extend state chunk),
          (examined, rest) = (visited, awaited)) ↔
            scanner.Visits (extend state chunk) visited ∧ awaited = rest := by
        constructor
        · rintro ⟨other, reached, same⟩
          cases same
          exact ⟨(scanner.mem_trace_iff).mp reached, rfl⟩
        · rintro ⟨reached, rfl⟩
          exact ⟨visited, (scanner.mem_trace_iff).mpr reached, rfl⟩
      rw [here]
      by_cases waiting : waits (scanner.run (extend state chunk)).verdict
      · rw [if_pos waiting, inductionHypothesis,
          scanner.feedVisits_of_waits extend waits waiting]
      · rw [if_neg waiting, scanner.feedVisits_of_leaves extend waits waiting]
        simp

theorem feed_cons_of_waits {state : State} {chunk : Chunk}
    (waiting : waits (scanner.run (extend state chunk)).verdict)
    (rest : List Chunk) :
    scanner.feed extend waits idle state (chunk :: rest) =
      (scanner.feed extend waits idle
        (scanner.run (extend state chunk)).state rest).after
          (scanner.run (extend state chunk)).outputs := by
  simp only [feed, if_pos waiting]

theorem feed_cons_of_leaves {state : State} {chunk : Chunk}
    (ending : ¬ waits (scanner.run (extend state chunk)).verdict)
    (rest : List Chunk) :
    scanner.feed extend waits idle state (chunk :: rest) =
      scanner.run (extend state chunk) := by
  simp only [feed, if_neg ending]

theorem feed_append_of_waits {state : State} {first : List Chunk}
    (waiting : waits (scanner.feed extend waits idle state first).verdict)
    (second : List Chunk) :
    scanner.feed extend waits idle state (first ++ second) =
      (scanner.feed extend waits idle
        (scanner.feed extend waits idle state first).state second).after
          (scanner.feed extend waits idle state first).outputs := by
  induction first generalizing state with
  | nil => rfl
  | cons chunk rest inductionHypothesis =>
      by_cases goesOn : waits (scanner.run (extend state chunk)).verdict
      · rw [scanner.feed_cons_of_waits extend waits idle goesOn] at waiting ⊢
        rw [List.cons_append, scanner.feed_cons_of_waits extend waits idle goesOn]
        rw [inductionHypothesis waiting]
        simp
      · rw [scanner.feed_cons_of_leaves extend waits idle goesOn] at waiting
        exact absurd waiting goesOn

theorem feed_append_of_leaves {state : State} {first : List Chunk} (waitsIdle : waits idle)
    (ending : ¬ waits (scanner.feed extend waits idle state first).verdict)
    (second : List Chunk) :
    scanner.feed extend waits idle state (first ++ second) =
      scanner.feed extend waits idle state first := by
  induction first generalizing state with
  | nil => exact absurd waitsIdle ending
  | cons chunk rest inductionHypothesis =>
      by_cases goesOn : waits (scanner.run (extend state chunk)).verdict
      · rw [scanner.feed_cons_of_waits extend waits idle goesOn] at ending
        rw [List.cons_append, scanner.feed_cons_of_waits extend waits idle goesOn,
          scanner.feed_cons_of_waits extend waits idle goesOn, inductionHypothesis ending]
      · rw [List.cons_append, scanner.feed_cons_of_leaves extend waits idle goesOn,
          scanner.feed_cons_of_leaves extend waits idle goesOn]

end Feeding

section Verdicts

variable {Chunk : Type x} (scanner : Scanner State Output Verdict)
  (extend : State → Chunk → State) (waits : Verdict → Prop)
  [DecidablePred waits] (idle : Verdict)

theorem run_verdict_eq_iff (state : State) (verdict : Verdict) :
    (scanner.run state).verdict = verdict ↔
      ∃ visited last, scanner.Visits state visited ∧
        scanner.round visited = .leave last verdict := by
  induction state using scanner.run_induction with
  | leave state last other left =>
      rw [scanner.run_of_leave left]
      constructor
      · rintro rfl
        exact ⟨state, last, .here, left⟩
      · rintro ⟨visited, otherLast, reached, otherLeft⟩
        rw [(scanner.visits_of_leave left).mp reached, left] at otherLeft
        cases otherLeft
        rfl
  | advance state next outputs taken inductionHypothesis =>
      rw [scanner.run_of_advance taken, Scanned.after_verdict, inductionHypothesis]
      constructor
      · rintro ⟨visited, last, reached, left⟩
        exact ⟨visited, last, .later taken reached, left⟩
      · rintro ⟨visited, last, reached, left⟩
        rcases (scanner.visits_of_advance taken).mp reached with rfl | reached
        · rw [taken] at left
          cases left
        · exact ⟨visited, last, reached, left⟩

theorem feed_verdict_eq_iff (verdict : Verdict) (ending : ¬ waits verdict)
    (notIdle : idle ≠ verdict) (state : State) (chunks : List Chunk) :
    (scanner.feed extend waits idle state chunks).verdict = verdict ↔
      ∃ visited awaited last,
        scanner.FeedVisits extend waits state chunks visited awaited ∧
          scanner.round visited = .leave last verdict := by
  induction chunks generalizing state with
  | nil =>
      constructor
      · intro impossible
        exact absurd impossible notIdle
      · rintro ⟨visited, awaited, last, reached, left⟩
        cases reached
  | cons chunk rest inductionHypothesis =>
      by_cases waiting : waits (scanner.run (extend state chunk)).verdict
      · rw [scanner.feed_cons_of_waits extend waits idle waiting, Scanned.after_verdict,
          inductionHypothesis]
        constructor
        · rintro ⟨visited, awaited, last, reached, left⟩
          exact ⟨visited, awaited, last, .later waiting reached, left⟩
        · rintro ⟨visited, awaited, last, reached, left⟩
          cases reached with
          | now reached =>
              have same := (scanner.run_verdict_eq_iff _ verdict).mpr
                ⟨visited, last, reached, left⟩
              rw [same] at waiting
              exact absurd waiting ending
          | later _ reached => exact ⟨visited, awaited, last, reached, left⟩
      · rw [scanner.feed_cons_of_leaves extend waits idle waiting,
          scanner.run_verdict_eq_iff]
        constructor
        · rintro ⟨visited, last, reached, left⟩
          exact ⟨visited, rest, last, .now reached, left⟩
        · rintro ⟨visited, awaited, last, reached, left⟩
          cases reached with
          | now reached => exact ⟨visited, last, reached, left⟩
          | later stillWaiting _ => exact absurd stillWaiting waiting

end Verdicts

section Whole

variable {Chunk : Type x} (scanner : Scanner State Output Verdict)
  (extend : State → List Chunk → State) (waits : Verdict → Prop)
  [DecidablePred waits] (idle : Verdict)

/-- A chunk that waits may as well arrive with the next one. -/
theorem feed_join
    (extend_append : ∀ state first second,
      extend (extend state first) second = extend state (first ++ second))
    {state : State} {first second : List Chunk}
    (continues : ∀ visited, scanner.Visits (extend state first) visited →
      scanner.Continues extend waits second visited)
    (waiting : waits (scanner.run (extend state first)).verdict) (rest : List (List Chunk)) :
    scanner.feed extend waits idle state (first :: second :: rest) =
      scanner.feed extend waits idle state ((first ++ second) :: rest) := by
  have grown := scanner.run_extend_of_waits extend waits continues waiting
  rw [extend_append] at grown
  rw [scanner.feed_cons_of_waits extend waits idle waiting]
  by_cases goesOn : waits (scanner.run (extend state (first ++ second))).verdict
  · have alsoGoesOn := goesOn
    rw [grown, Scanned.after_verdict] at alsoGoesOn
    rw [scanner.feed_cons_of_waits extend waits idle goesOn,
      scanner.feed_cons_of_waits extend waits idle alsoGoesOn, grown]
    simp
  · have alsoEnds := goesOn
    rw [grown, Scanned.after_verdict] at alsoEnds
    rw [scanner.feed_cons_of_leaves extend waits idle goesOn,
      scanner.feed_cons_of_leaves extend waits idle alsoEnds, grown]

/-- Feeding a buffer in pieces gives what one run over the whole buffer gives;
only the part of the buffer behind an early end is missing. -/
theorem run_flatten_eq_feed
    (extend_append : ∀ state first second,
      extend (extend state first) second = extend state (first ++ second))
    (extend_nil : ∀ state, extend state [] = state)
    {state : State} {chunks : List (List Chunk)}
    (idle_start : scanner.run state = ⟨state, [], idle⟩)
    (only_idle : ∀ verdict, waits verdict → verdict = idle)
    (continues : ∀ visited awaited,
      scanner.FeedVisits extend waits state chunks visited awaited →
      scanner.Continues extend waits awaited.flatten visited) :
    ∃ behind,
      scanner.run (extend state chunks.flatten) =
        { scanner.feed extend waits idle state chunks with
          state := extend (scanner.feed extend waits idle state chunks).state behind } ∧
      (waits (scanner.feed extend waits idle state chunks).verdict → behind = []) := by
  induction chunks generalizing state with
  | nil =>
      refine ⟨[], ?_, fun _ => rfl⟩
      simp [extend_nil, idle_start, feed]
  | cons chunk rest inductionHypothesis =>
      have nowContinues : ∀ visited, scanner.Visits (extend state chunk) visited →
          scanner.Continues extend waits rest.flatten visited :=
        fun visited reached => continues visited rest (.now reached)
      rw [List.flatten_cons, ← extend_append]
      by_cases waiting : waits (scanner.run (extend state chunk)).verdict
      · have paused := scanner.run_state_of_waits extend waits nowContinues waiting
        rw [only_idle _ waiting] at paused
        obtain ⟨behind, whole, nothing⟩ := inductionHypothesis paused
          (fun visited awaited reached => continues visited awaited (.later waiting reached))
        rw [scanner.feed_cons_of_waits extend waits idle waiting]
        refine ⟨behind, ?_, nothing⟩
        rw [scanner.run_extend_of_waits extend waits nowContinues waiting, whole]
        rfl
      · rw [scanner.feed_cons_of_leaves extend waits idle waiting]
        refine ⟨rest.flatten, ?_, fun stillWaiting => absurd stillWaiting waiting⟩
        exact scanner.run_extend_of_leaves extend waits nowContinues waiting

end Whole

end Scanner

end Mevent.Library
