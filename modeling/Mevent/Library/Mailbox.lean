import Mathlib.Data.Fintype.Card
import Mevent.Library.Transition

/-!
# A queue with a condition variable

Anyone pushes an item and signals the condition variable.  A consumer that finds the queue
empty waits for it; else it takes the first item and works on it.  A signal wakes one of the
consumers that wait, if there are any, and a consumer may wake without one.  No section but
the wait itself blocks, so that each section under the mutex is one step.
-/

namespace Mevent.Library

universe u v

/-- Where a consumer is: about to look at the queue, waiting for the condition variable, or at
work on an item. -/
inductive Phase (Item : Type u) where
  | ready
  | waiting
  | busy (item : Item)
  deriving DecidableEq, Repr

/-- The queue and its consumers; `pushed` and `taken` are its history. -/
structure Mailbox (Consumer : Type u) (Item : Type v) where
  queue : List Item
  phase : Consumer → Phase Item
  pushed : List Item
  taken : List Item

namespace Mailbox

/-- The sections.  `woken` is the consumer that the signal of a push wakes. -/
inductive Op (Consumer : Type u) (Item : Type v) where
  | push (item : Item) (woken : Option Consumer)
  | look (consumer : Consumer)
  | wake (consumer : Consumer)
  | finish (consumer : Consumer)

variable {Consumer : Type u} {Item : Type v}

def fresh : Mailbox Consumer Item := ⟨[], fun _ => .ready, [], []⟩

variable [DecidableEq Consumer]

def move (box : Mailbox Consumer Item) (consumer : Consumer) (phase : Phase Item) :
    Mailbox Consumer Item :=
  { box with phase := Function.update box.phase consumer phase }

@[simp]
theorem move_queue (box : Mailbox Consumer Item) (consumer : Consumer) (phase : Phase Item) :
    (box.move consumer phase).queue = box.queue := rfl

@[simp]
theorem move_phase_self (box : Mailbox Consumer Item) (consumer : Consumer)
    (phase : Phase Item) : (box.move consumer phase).phase consumer = phase :=
  Function.update_self ..

theorem move_phase_of_ne (box : Mailbox Consumer Item) {consumer other : Consumer}
    (phase : Phase Item) (different : other ≠ consumer) :
    (box.move consumer phase).phase other = box.phase other :=
  Function.update_of_ne different ..

def append (box : Mailbox Consumer Item) (item : Item) : Mailbox Consumer Item :=
  { box with queue := box.queue ++ [item], pushed := box.pushed ++ [item] }

def Waits (box : Mailbox Consumer Item) (consumer : Consumer) : Prop :=
  match box.phase consumer with
  | .waiting => True
  | _ => False

instance (box : Mailbox Consumer Item) : DecidablePred box.Waits := by
  intro consumer
  unfold Waits
  split <;> infer_instance

omit [DecidableEq Consumer] in
theorem waits_iff {box : Mailbox Consumer Item} {consumer : Consumer} :
    box.Waits consumer ↔ box.phase consumer = .waiting := by
  unfold Waits
  split <;> simp_all

def look (box : Mailbox Consumer Item) (consumer : Consumer) : Mailbox Consumer Item :=
  match box.queue with
  | [] => box.move consumer .waiting
  | item :: rest =>
      { box.move consumer (.busy item) with queue := rest, taken := box.taken ++ [item] }

variable [Fintype Consumer]

def step (box : Mailbox Consumer Item) : Op Consumer Item → Option (Mailbox Consumer Item)
  | .push item none => if ∀ consumer, ¬ box.Waits consumer then some (box.append item) else none
  | .push item (some consumer) =>
      if box.Waits consumer then some ((box.append item).move consumer .ready) else none
  | .look consumer =>
      match box.phase consumer with
      | .ready => some (box.look consumer)
      | _ => none
  | .wake consumer => if box.Waits consumer then some (box.move consumer .ready) else none
  | .finish consumer =>
      match box.phase consumer with
      | .busy _ => some (box.move consumer .ready)
      | _ => none

def awake (box : Mailbox Consumer Item) : Finset Consumer :=
  Finset.univ.filter fun consumer => ¬ box.Waits consumer

omit [DecidableEq Consumer] in
theorem mem_awake {box : Mailbox Consumer Item} {consumer : Consumer} :
    consumer ∈ box.awake ↔ ¬ box.Waits consumer := by
  simp [awake]

/-- What has been pushed has been taken, or it is in the queue, in the same order; and for
each item of the queue a consumer is awake, as far as there are consumers. -/
structure Kept (box : Mailbox Consumer Item) : Prop where
  fifo : box.pushed = box.taken ++ box.queue
  served : min box.queue.length (Fintype.card Consumer) ≤ box.awake.card

section Kept

variable {box later : Mailbox Consumer Item}

omit [DecidableEq Consumer] in
theorem kept_fresh : (fresh : Mailbox Consumer Item).Kept where
  fifo := rfl
  served := by simp [fresh]

theorem awake_subset_move (consumer : Consumer) {phase : Phase Item} (moves : phase ≠ .waiting) :
    insert consumer box.awake ⊆ (box.move consumer phase).awake := by
  intro other membership
  rw [mem_awake, waits_iff]
  by_cases same : other = consumer
  · rw [same, move_phase_self]
    exact moves
  · rw [move_phase_of_ne _ _ same, ← waits_iff, ← mem_awake]
    exact (Finset.mem_insert.mp membership).resolve_left same

theorem card_awake_move (consumer : Consumer) {phase : Phase Item} (moves : phase ≠ .waiting) :
    box.awake.card ≤ (box.move consumer phase).awake.card :=
  Finset.card_le_card ((Finset.subset_insert _ _).trans (awake_subset_move consumer moves))

omit [DecidableEq Consumer] in
theorem card_awake_of_forall (none : ∀ consumer, ¬ box.Waits consumer) :
    box.awake.card = Fintype.card Consumer := by
  rw [awake, Finset.filter_true_of_mem fun consumer _ => none consumer, Finset.card_univ]

theorem Kept.push (kept : box.Kept) {item : Item} {woken : Option Consumer}
    (enabled : box.step (.push item woken) = some later) : later.Kept := by
  cases woken with
  | none =>
      obtain ⟨none, same⟩ := Option.ite_none_right_eq_some.mp enabled
      cases same
      refine ⟨by simp [append, kept.fifo], ?_⟩
      have all : (box.append item).awake.card = Fintype.card Consumer := card_awake_of_forall none
      rw [all]
      exact min_le_right _ _
  | some consumer =>
      obtain ⟨waits, same⟩ := Option.ite_none_right_eq_some.mp enabled
      cases same
      refine ⟨by simp [append, move, kept.fifo], ?_⟩
      have asleep : consumer ∉ (box.append item).awake := fun awake => mem_awake.mp awake waits
      have grown : box.awake.card + 1 ≤ ((box.append item).move consumer .ready).awake.card := by
        calc box.awake.card + 1 = (insert consumer (box.append item).awake).card :=
              (Finset.card_insert_of_notMem asleep).symm
          _ ≤ _ := Finset.card_le_card (awake_subset_move consumer (by simp))
      have served := kept.served
      have longer : ((box.append item).move consumer .ready).queue.length =
          box.queue.length + 1 := by simp [append]
      omega

theorem Kept.look (kept : box.Kept) {consumer : Consumer} : (box.look consumer).Kept := by
  unfold Mailbox.look
  split
  · rename_i empty
    refine ⟨kept.fifo, ?_⟩
    simp [empty]
  · rename_i item rest next
    refine ⟨?_, ?_⟩
    · simp [move, kept.fifo, next]
    · have still : box.awake.card ≤ (box.move consumer (.busy item)).awake.card :=
        card_awake_move consumer (by simp)
      have served := kept.served
      rw [next, List.length_cons] at served
      exact le_trans (by simp only; omega) (served.trans still)

/-- A section keeps the order of the queue and enough consumers awake. -/
theorem kept_step (kept : box.Kept) {op : Op Consumer Item} (enabled : box.step op = some later) :
    later.Kept := by
  have moves : ∀ consumer, (box.move consumer .ready).Kept := fun consumer =>
    ⟨kept.fifo, kept.served.trans (card_awake_move consumer (by simp))⟩
  cases op with
  | push item woken => exact kept.push enabled
  | look consumer =>
      simp only [step] at enabled
      split at enabled
      · cases enabled
        exact kept.look
      · cases enabled
  | wake consumer =>
      obtain ⟨-, same⟩ := Option.ite_none_right_eq_some.mp enabled
      cases same
      exact moves consumer
  | finish consumer =>
      simp only [step] at enabled
      split at enabled
      · cases enabled
        exact moves consumer
      · cases enabled

theorem kept_of_reaches {allowed : Mailbox Consumer Item → Op Consumer Item → Prop}
    (reached : Reaches step allowed fresh box) : box.Kept :=
  reached.invariant kept_fresh fun _ _ _ kept _ enabled => kept_step kept enabled

omit [DecidableEq Consumer] in
/-- Nobody waits while there is work, unless there is nobody. -/
theorem Kept.exists_awake [Nonempty Consumer] (kept : box.Kept) (work : box.queue ≠ []) :
    ∃ consumer, ¬ box.Waits consumer := by
  have some : 0 < box.awake.card := by
    have served := kept.served
    have consumers : 0 < Fintype.card Consumer := Fintype.card_pos
    have items := List.length_pos_of_ne_nil work
    omega
  obtain ⟨consumer, membership⟩ := Finset.card_pos.mp some
  exact ⟨consumer, mem_awake.mp membership⟩

end Kept

end Mailbox

end Mevent.Library
