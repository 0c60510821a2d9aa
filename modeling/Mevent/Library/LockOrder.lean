import Mathlib.Algebra.BigOperators.Group.Finset.Basic
import Mathlib.Algebra.Order.BigOperators.Group.Finset
import Mathlib.Computability.Language
import Mathlib.Data.Fintype.Basic
import Mathlib.Data.Fintype.EquivFin
import Mathlib.Order.CompletePartialOrder
import Mathlib.Order.WellFounded
import Mevent.Library.Transition

/-!
# Lock order

Threads take locks and release them, each by routines that take a lock only above all the
locks that they hold and release them in the reverse order.  Then no threads wait for one
another, and every routine that has been begun comes to its end, whatever the scheduler does.
-/

namespace Mevent.Library

universe u v w

inductive LockOp (Lock : Type u) where
  | acquire (lock : Lock)
  | release (lock : Lock)
  deriving DecidableEq, Repr

namespace LockOp

variable {Lock : Type u} {Rank : Type v} [Preorder Rank] (rank : Lock → Rank)

/-- What a thread that holds the locks `held`, the last one first, does to its end: it takes
a lock only above all that it holds, releases the last one and ends without any. -/
def Ordered : List Lock → List (LockOp Lock) → Prop
  | held, [] => held = []
  | held, .acquire lock :: rest =>
      (∀ other ∈ held, rank other < rank lock) ∧ Ordered (lock :: held) rest
  | held, .release lock :: rest => ∃ others, held = lock :: others ∧ Ordered others rest

/-- Operations that can be put before whatever a thread does with the locks `held`. -/
def Balanced (held : List Lock) (ops : List (LockOp Lock)) : Prop :=
  ∀ rest, Ordered rank held rest → Ordered rank held (ops ++ rest)

section Balanced

variable {rank} {held : List Lock}

theorem balanced_nil : Balanced rank held [] := fun _ ordered => ordered

theorem Balanced.append {first second : List (LockOp Lock)}
    (firstBalanced : Balanced rank held first) (secondBalanced : Balanced rank held second) :
    Balanced rank held (first ++ second) := by
  intro rest ordered
  rw [List.append_assoc]
  exact firstBalanced _ (secondBalanced rest ordered)

theorem balanced_section {lock : Lock} {body : List (LockOp Lock)}
    (above : ∀ other ∈ held, rank other < rank lock)
    (balanced : Balanced rank (lock :: held) body) :
    Balanced rank held (.acquire lock :: (body ++ [.release lock])) := by
  intro rest ordered
  have inside : Ordered rank (lock :: held) (body ++ (.release lock :: rest)) :=
    balanced _ ⟨held, rfl, ordered⟩
  refine ⟨above, ?_⟩
  change Ordered rank (lock :: held) ((body ++ [.release lock]) ++ rest)
  rwa [List.append_assoc, List.singleton_append]

theorem Balanced.ordered {ops : List (LockOp Lock)} (balanced : Balanced rank [] ops) :
    Ordered rank [] ops := by
  have ordered := balanced [] rfl
  rwa [List.append_nil] at ordered

end Balanced

/-- The section of a lock, around what is done under it. -/
def guarded (lock : Lock) (body : Language (LockOp Lock)) : Language (LockOp Lock) :=
  {[.acquire lock]} * body * {[.release lock]}

theorem mem_guarded {lock : Lock} {body : Language (LockOp Lock)} {ops : List (LockOp Lock)} :
    ops ∈ guarded lock body ↔
      ∃ inner ∈ body, ops = .acquire lock :: (inner ++ [.release lock]) := by
  constructor
  · rintro ⟨front, ⟨first, rfl, inner, membership, rfl⟩, last, rfl, rfl⟩
    exact ⟨inner, membership, rfl⟩
  · rintro ⟨inner, membership, rfl⟩
    exact ⟨_, ⟨_, rfl, inner, membership, rfl⟩, _, rfl, rfl⟩

/-- Every one of the sequences of operations is balanced. -/
def Keeps (held : List Lock) (behaviour : Language (LockOp Lock)) : Prop :=
  ∀ ops ∈ behaviour, Balanced rank held ops

section Keeps

variable {rank} {held : List Lock} {first second : Language (LockOp Lock)}

theorem keeps_one : Keeps rank held 1 := by
  rintro ops rfl
  exact balanced_nil

theorem Keeps.add (firstKeeps : Keeps rank held first) (secondKeeps : Keeps rank held second) :
    Keeps rank held (first + second) := by
  rintro ops (membership | membership)
  · exact firstKeeps ops membership
  · exact secondKeeps ops membership

theorem Keeps.mul (firstKeeps : Keeps rank held first) (secondKeeps : Keeps rank held second) :
    Keeps rank held (first * second) := by
  rintro ops ⟨front, frontMember, back, backMember, rfl⟩
  exact (firstKeeps front frontMember).append (secondKeeps back backMember)

open Computability in
theorem Keeps.kstar (keeps : Keeps rank held first) : Keeps rank held first∗ := by
  rintro ops ⟨rounds, rfl, members⟩
  induction rounds with
  | nil => exact balanced_nil
  | cons round rounds inductionHypothesis =>
      refine (keeps round (members round List.mem_cons_self)).append ?_
      exact inductionHypothesis fun other membership =>
        members other (List.mem_cons_of_mem round membership)

theorem keeps_iSup {Index : Type*} {behaviour : Index → Language (LockOp Lock)}
    (keeps : ∀ index, Keeps rank held (behaviour index)) :
    Keeps rank held (⨆ index, behaviour index) := by
  intro ops membership
  obtain ⟨index, membership⟩ := Language.mem_iSup.mp membership
  exact keeps index ops membership

theorem keeps_guarded {lock : Lock} {body : Language (LockOp Lock)}
    (above : ∀ other ∈ held, rank other < rank lock) (keeps : Keeps rank (lock :: held) body) :
    Keeps rank held (guarded lock body) := by
  intro ops membership
  obtain ⟨inner, inside, rfl⟩ := mem_guarded.mp membership
  exact balanced_section above (keeps inner inside)

end Keeps

section After

variable [DecidableEq Lock]

def after : List Lock → List (LockOp Lock) → List Lock
  | held, [] => held
  | held, .acquire lock :: rest => after (lock :: held) rest
  | held, .release lock :: rest => after (held.erase lock) rest

end After

end LockOp

open LockOp

/-- The locks that each thread holds, the last one first, and what is left of the routine
that it is in. -/
structure Threads (Thread : Type u) (Lock : Type v) where
  held : Thread → List Lock
  todo : Thread → List (LockOp Lock)

/-- A thread begins a routine, or does the next operation of the one that it is in. -/
inductive Threads.Move (Thread : Type u) (Lock : Type v) where
  | begins (thread : Thread) (routine : List (LockOp Lock))
  | proceeds (thread : Thread)

namespace Threads

variable {Thread : Type u} {Lock : Type v}

def idle : Threads Thread Lock := ⟨fun _ => [], fun _ => []⟩

def Free (state : Threads Thread Lock) (lock : Lock) : Prop :=
  ∀ thread, lock ∉ state.held thread

instance [Fintype Thread] [DecidableEq Lock] (state : Threads Thread Lock) :
    DecidablePred state.Free :=
  fun lock => inferInstanceAs (Decidable (∀ thread, lock ∉ state.held thread))

/-- The thread waits for a lock that the other one holds; both may be the same. -/
def Waits (state : Threads Thread Lock) (thread other : Thread) : Prop :=
  ∃ lock rest, state.todo thread = .acquire lock :: rest ∧ lock ∈ state.held other

variable [DecidableEq Thread]

def set (state : Threads Thread Lock) (thread : Thread) (held : List Lock)
    (todo : List (LockOp Lock)) : Threads Thread Lock where
  held := Function.update state.held thread held
  todo := Function.update state.todo thread todo

variable [Fintype Thread] [DecidableEq Lock]

/-- The next operation of a thread, unless it waits or has nothing to do. -/
def proceed (state : Threads Thread Lock) (thread : Thread) : Option (Threads Thread Lock) :=
  match state.todo thread with
  | [] => none
  | .acquire lock :: rest =>
      if state.Free lock then
        some (state.set thread (lock :: state.held thread) rest)
      else
        none
  | .release lock :: rest => some (state.set thread ((state.held thread).erase lock) rest)

def step (state : Threads Thread Lock) : Move Thread Lock → Option (Threads Thread Lock)
  | .begins thread routine =>
      if state.todo thread = [] then
        some (state.set thread (state.held thread) routine)
      else
        none
  | .proceeds thread => state.proceed thread

/-- What `proceed` does. -/
theorem proceed_cases {state later : Threads Thread Lock} {thread : Thread}
    (proceeded : state.proceed thread = some later) :
    (∃ lock rest, state.todo thread = .acquire lock :: rest ∧ state.Free lock ∧
      later = state.set thread (lock :: state.held thread) rest) ∨
    (∃ lock rest, state.todo thread = .release lock :: rest ∧
      later = state.set thread ((state.held thread).erase lock) rest) := by
  unfold proceed at proceeded
  split at proceeded
  · cases proceeded
  · rename_i lock rest next
    obtain ⟨free, same⟩ := Option.ite_none_right_eq_some.mp proceeded
    cases same
    exact .inl ⟨lock, rest, next, free, rfl⟩
  · rename_i lock rest next
    cases proceeded
    exact .inr ⟨lock, rest, next, rfl⟩

section Invariants

variable {Rank : Type w} [Preorder Rank] (rank : Lock → Rank)

/-- Each thread is in a routine that keeps to the order. -/
def Orderly (state : Threads Thread Lock) : Prop :=
  ∀ thread, Ordered rank (state.held thread) (state.todo thread)

def Exclusive (state : Threads Thread Lock) : Prop :=
  ∀ lock first second, lock ∈ state.held first → lock ∈ state.held second → first = second

/-- Every routine that is begun keeps to the order. -/
def KeepsOrder (_ : Threads Thread Lock) : Move Thread Lock → Prop
  | .begins _ routine => Ordered rank [] routine
  | .proceeds _ => True

variable {rank} {state later : Threads Thread Lock}

omit [Fintype Thread] [DecidableEq Lock] in
theorem Orderly.set (orderly : state.Orderly rank) {thread : Thread} {held : List Lock}
    {todo : List (LockOp Lock)} (ordered : Ordered rank held todo) :
    (state.set thread held todo).Orderly rank := by
  intro other
  by_cases same : other = thread
  · subst same
    simpa [Threads.set] using ordered
  · simpa [Threads.set, same] using orderly other

theorem Orderly.proceed (orderly : state.Orderly rank) {thread : Thread}
    (proceeded : state.proceed thread = some later) : later.Orderly rank := by
  have ordered := orderly thread
  rcases proceed_cases proceeded with ⟨lock, rest, next, _, rfl⟩ | ⟨lock, rest, next, rfl⟩
  · rw [next] at ordered
    exact orderly.set ordered.2
  · rw [next] at ordered
    obtain ⟨others, held, ordered⟩ := ordered
    refine orderly.set ?_
    rwa [held, List.erase_cons_head]

omit [Fintype Thread] [DecidableEq Lock] in
theorem Exclusive.set (exclusive : state.Exclusive) {thread : Thread} {held : List Lock}
    {todo : List (LockOp Lock)}
    (gained : ∀ lock ∈ held, lock ∈ state.held thread ∨ state.Free lock) :
    (state.set thread held todo).Exclusive := by
  have origin : ∀ lock holder, lock ∈ (state.set thread held todo).held holder →
      lock ∈ state.held holder ∨ (holder = thread ∧ state.Free lock) := by
    intro lock holder membership
    by_cases same : holder = thread
    · subst same
      have kept : lock ∈ held := by simpa [Threads.set] using membership
      exact (gained lock kept).imp_right fun free => ⟨rfl, free⟩
    · exact .inl (by simpa [Threads.set, same] using membership)
  intro lock first second firstHolds secondHolds
  rcases origin lock first firstHolds with before | ⟨rfl, free⟩
  · rcases origin lock second secondHolds with before' | ⟨-, free⟩
    · exact exclusive lock first second before before'
    · exact absurd before (free first)
  · rcases origin lock second secondHolds with before' | ⟨rfl, -⟩
    · exact absurd before' (free second)
    · rfl

theorem Exclusive.proceed (exclusive : state.Exclusive) {thread : Thread}
    (proceeded : state.proceed thread = some later) : later.Exclusive := by
  rcases proceed_cases proceeded with ⟨lock, rest, -, free, rfl⟩ | ⟨lock, rest, -, rfl⟩
  · refine exclusive.set fun other membership => ?_
    rcases List.mem_cons.mp membership with rfl | membership
    · exact .inr free
    · exact .inl membership
  · exact exclusive.set fun other membership => .inl (List.mem_of_mem_erase membership)

theorem orderly_step (orderly : state.Orderly rank) (exclusive : state.Exclusive)
    {move : Move Thread Lock} (keeps : KeepsOrder rank state move)
    (enabled : state.step move = some later) : later.Orderly rank ∧ later.Exclusive := by
  cases move with
  | begins thread routine =>
      obtain ⟨nothing, same⟩ := Option.ite_none_right_eq_some.mp enabled
      cases same
      have unheld : state.held thread = [] := by
        have ordered := orderly thread
        rwa [nothing] at ordered
      refine ⟨orderly.set ?_, exclusive.set fun lock membership => .inl membership⟩
      rw [unheld]
      exact keeps
  | proceeds thread => exact ⟨orderly.proceed enabled, exclusive.proceed enabled⟩

/-- A run of threads that keep to the order. -/
theorem orderly_of_reaches (reached : Reaches step (KeepsOrder rank) idle state) :
    state.Orderly rank ∧ state.Exclusive := by
  induction reached with
  | refl => exact ⟨fun _ => rfl, fun _ _ _ holds => by cases holds⟩
  | next move _ keeps enabled inductionHypothesis =>
      exact orderly_step inductionHypothesis.1 inductionHypothesis.2 keeps enabled

end Invariants

section Progress

variable {Rank : Type w} [Preorder Rank] {rank : Lock → Rank} {state later : Threads Thread Lock}

omit [DecidableEq Thread] [Fintype Thread] [DecidableEq Lock] in
theorem Orderly.rank_lt (orderly : state.Orderly rank) {first last : Thread}
    (chain : Relation.TransGen state.Waits first last) {lock : Lock}
    {rest : List (LockOp Lock)} (wanted : state.todo last = .acquire lock :: rest) :
    ∃ earlier others, state.todo first = .acquire earlier :: others ∧
      rank earlier < rank lock := by
  have direct : ∀ thread lock rest, state.todo thread = .acquire lock :: rest →
      ∀ other ∈ state.held thread, rank other < rank lock := by
    intro thread lock rest next
    have ordered := orderly thread
    rw [next] at ordered
    exact ordered.1
  induction chain generalizing lock rest with
  | single waits =>
      obtain ⟨earlier, others, next, holds⟩ := waits
      exact ⟨earlier, others, next, direct _ _ _ wanted _ holds⟩
  | tail _ waits inductionHypothesis =>
      obtain ⟨middle, others, next, holds⟩ := waits
      obtain ⟨earlier, others', first, below⟩ := inductionHypothesis next
      exact ⟨earlier, others', first, below.trans (direct _ _ _ wanted _ holds)⟩

omit [DecidableEq Thread] [Fintype Thread] [DecidableEq Lock] in
/-- No thread waits for itself, directly or along a chain. -/
theorem Orderly.not_waits (orderly : state.Orderly rank) (thread : Thread) :
    ¬ Relation.TransGen state.Waits thread thread := by
  intro cycle
  have waits : ∃ other, state.Waits thread other := by
    rcases Relation.TransGen.head'_iff.mp cycle with ⟨other, waits, -⟩
    exact ⟨other, waits⟩
  obtain ⟨-, lock, rest, wanted, -⟩ := waits
  obtain ⟨earlier, others, same, below⟩ := orderly.rank_lt cycle wanted
  rw [wanted] at same
  cases same
  exact lt_irrefl _ below

theorem Orderly.proceeds_or_waits (orderly : state.Orderly rank) {thread : Thread}
    (busy : state.todo thread ≠ []) :
    (∃ later, state.proceed thread = some later) ∨
      ∃ other, state.Waits thread other ∧ state.todo other ≠ [] := by
  cases next : state.todo thread with
  | nil => exact absurd next busy
  | cons op rest =>
      cases op with
      | release lock => exact .inl ⟨_, by simp only [Threads.proceed, next]; rfl⟩
      | acquire lock =>
          by_cases free : state.Free lock
          · exact .inl ⟨_, by simp only [Threads.proceed, next, if_pos free]; rfl⟩
          · right
            simp only [Free, not_forall, not_not] at free
            obtain ⟨other, holds⟩ := free
            refine ⟨other, ⟨lock, rest, next, holds⟩, fun nothing => ?_⟩
            have ordered := orderly other
            rw [nothing] at ordered
            rw [show state.held other = [] from ordered] at holds
            cases holds

/-- As long as a thread is in a routine, a thread can proceed. -/
theorem Orderly.exists_proceed (orderly : state.Orderly rank) {thread : Thread}
    (busy : state.todo thread ≠ []) : ∃ thread later, state.proceed thread = some later := by
  have acyclic : Std.Irrefl (flip (Relation.TransGen state.Waits)) :=
    ⟨fun thread => orderly.not_waits thread⟩
  have transitive : IsTrans Thread (flip (Relation.TransGen state.Waits)) :=
    ⟨fun _ _ _ first second => second.trans first⟩
  have wellFounded := Finite.wellFounded_of_trans_of_irrefl
    (flip (Relation.TransGen state.Waits))
  induction thread using wellFounded.induction with
  | _ thread inductionHypothesis =>
      rcases orderly.proceeds_or_waits busy with ⟨later, proceeded⟩ | ⟨other, waits, busy'⟩
      · exact ⟨thread, later, proceeded⟩
      · exact inductionHypothesis other (.single waits) busy'

/-- How many operations the threads have left in their routines. -/
def left (state : Threads Thread Lock) : Nat := ∑ thread, (state.todo thread).length

theorem left_proceed {thread : Thread} (proceeded : state.proceed thread = some later) :
    later.left + 1 = state.left := by
  have shorter : ∃ op rest held, state.todo thread = op :: rest ∧
      later = state.set thread held rest := by
    rcases proceed_cases proceeded with ⟨lock, rest, next, _, same⟩ | ⟨lock, rest, next, same⟩
    · exact ⟨_, rest, _, next, same⟩
    · exact ⟨_, rest, _, next, same⟩
  obtain ⟨op, rest, held, next, rfl⟩ := shorter
  have others : ∀ other ∈ Finset.univ.erase thread,
      ((state.set thread held rest).todo other).length = (state.todo other).length := by
    intro other membership
    simp [Threads.set, Finset.ne_of_mem_erase membership]
  calc (state.set thread held rest).left + 1
      = (∑ other ∈ Finset.univ.erase thread, (state.todo other).length) + rest.length + 1 := by
        rw [left, ← Finset.sum_erase_add _ _ (Finset.mem_univ thread),
          Finset.sum_congr rfl others]
        simp [Threads.set]
    _ = state.left := by
        rw [left, ← Finset.sum_erase_add _ _ (Finset.mem_univ thread), next]
        simp [Nat.add_assoc]

/-- One thread has done its next operation. -/
def Proceeds (later state : Threads Thread Lock) : Prop :=
  ∃ thread, state.proceed thread = some later

/-- Threads that begin nothing new come to an end, whichever proceeds first. -/
theorem wellFounded_proceeds :
    WellFounded (fun later state : Threads Thread Lock => Proceeds later state) := by
  refine Subrelation.wf ?_ (measure left).wf
  rintro later state ⟨thread, proceeded⟩
  have shorter := left_proceed proceeded
  exact show later.left < state.left by omega

theorem Orderly.eq_idle (orderly : state.Orderly rank)
    (stuck : ∀ later, ¬ Proceeds later state) : state = idle := by
  have nothing : ∀ thread, state.todo thread = [] := by
    intro thread
    by_contra busy
    obtain ⟨other, later, proceeded⟩ := orderly.exists_proceed busy
    exact stuck later ⟨other, proceeded⟩
  have unheld : ∀ thread, state.held thread = [] := by
    intro thread
    have ordered := orderly thread
    rwa [nothing thread] at ordered
  obtain ⟨held, todo⟩ := state
  exact congrArg₂ Threads.mk (funext unheld) (funext nothing)

/-- From every state that keeps to the order, the threads can finish what they have begun. -/
theorem Orderly.finishes (orderly : state.Orderly rank) :
    Relation.ReflTransGen (flip Proceeds) state idle := by
  have wellFounded : WellFounded (fun later state : Threads Thread Lock =>
      Proceeds later state) := wellFounded_proceeds
  induction state using wellFounded.induction with
  | _ state inductionHypothesis =>
      by_cases stuck : ∀ later, ¬ Proceeds later state
      · rw [orderly.eq_idle stuck]
      · obtain ⟨later, proceeds⟩ := not_forall_not.mp stuck
        obtain ⟨thread, proceeded⟩ := id proceeds
        exact .head proceeds (inductionHypothesis later proceeds (orderly.proceed proceeded))

end Progress

section Hanging

variable {state later : Threads Thread Lock}

/-- Each of the threads waits for one of them. -/
def Hung (state : Threads Thread Lock) (threads : Set Thread) : Prop :=
  ∀ thread ∈ threads, ∃ other ∈ threads, state.Waits thread other

theorem Hung.not_proceed {threads : Set Thread} (hung : state.Hung threads) {thread : Thread}
    (membership : thread ∈ threads) : state.proceed thread = none := by
  obtain ⟨other, -, lock, rest, next, holds⟩ := hung thread membership
  have taken : ¬ state.Free lock := fun free => free other holds
  simp only [proceed, next, if_neg taken]

theorem Hung.step {threads : Set Thread} (hung : state.Hung threads) {move : Move Thread Lock}
    (enabled : state.step move = some later) :
    ∀ thread ∈ threads, later.held thread = state.held thread ∧
      later.todo thread = state.todo thread := by
  intro thread membership
  have moves : ∃ other held todo, other ∉ threads ∧ later = state.set other held todo := by
    cases move with
    | begins other routine =>
        obtain ⟨nothing, same⟩ := Option.ite_none_right_eq_some.mp enabled
        refine ⟨other, _, _, fun member => ?_, (Option.some.inj same).symm⟩
        obtain ⟨-, -, lock, rest, next, -⟩ := hung other member
        rw [nothing] at next
        cases next
    | proceeds other =>
        have free : other ∉ threads := fun member => by
          have blocked := hung.not_proceed member
          rw [show state.proceed other = some later from enabled] at blocked
          cases blocked
        rcases proceed_cases enabled with ⟨_, _, _, _, same⟩ | ⟨_, _, _, same⟩
        · exact ⟨other, _, _, free, same⟩
        · exact ⟨other, _, _, free, same⟩
  obtain ⟨other, held, todo, outside, rfl⟩ := moves
  have different : thread ≠ other := fun same => outside (same ▸ membership)
  simp [Threads.set, different]

/-- Hung threads hang in every state that is reached from there. -/
theorem Hung.of_reaches {threads : Set Thread} (hung : state.Hung threads)
    {allowed : Threads Thread Lock → Move Thread Lock → Prop}
    (reached : Reaches Threads.step allowed state later) :
    later.Hung threads ∧ ∀ thread ∈ threads, later.held thread = state.held thread ∧
      later.todo thread = state.todo thread := by
  induction reached with
  | refl => exact ⟨hung, fun _ _ => ⟨rfl, rfl⟩⟩
  | next move _ _ enabled inductionHypothesis =>
      obtain ⟨hangs, same⟩ := inductionHypothesis
      have kept := hangs.step enabled
      refine ⟨fun thread membership => ?_, fun thread membership => ?_⟩
      · obtain ⟨other, member, lock, rest, next, holds⟩ := hangs thread membership
        refine ⟨other, member, lock, rest, ?_, ?_⟩
        · rw [(kept thread membership).2, next]
        · rwa [(kept other member).1]
      · exact ⟨(kept thread membership).1.trans (same thread membership).1,
          (kept thread membership).2.trans (same thread membership).2⟩

/-- A thread is to take a lock again, which it holds by then. -/
def TakesAgain (state : Threads Thread Lock) (thread : Thread) (lock : Lock)
    (rest : List (LockOp Lock)) : Prop :=
  ∃ before, state.todo thread = before ++ .acquire lock :: rest ∧
    lock ∈ after (state.held thread) before

omit [Fintype Thread] in
theorem TakesAgain.set {thread other : Thread} {lock : Lock} {rest : List (LockOp Lock)}
    (again : state.TakesAgain thread lock rest) (different : other ≠ thread) (held : List Lock)
    (todo : List (LockOp Lock)) : (state.set other held todo).TakesAgain thread lock rest := by
  obtain ⟨before, next, holds⟩ := again
  refine ⟨before, ?_, ?_⟩
  · simpa [Threads.set, different.symm] using next
  · simpa [Threads.set, different.symm] using holds

theorem TakesAgain.proceed {thread : Thread} {lock : Lock} {rest : List (LockOp Lock)}
    (again : state.TakesAgain thread lock rest) (proceeded : state.proceed thread = some later) :
    later.TakesAgain thread lock rest := by
  obtain ⟨before, next, holds⟩ := again
  cases before with
  | nil =>
      have hangs : state.Hung {thread} := fun _ member =>
        ⟨thread, rfl, lock, rest, by rw [member]; exact next, holds⟩
      rw [hangs.not_proceed rfl] at proceeded
      cases proceeded
  | cons op before =>
      refine ⟨before, ?_⟩
      rcases proceed_cases proceeded with
        ⟨taken, others, next', _, rfl⟩ | ⟨taken, others, next', rfl⟩
      · obtain ⟨rfl, rfl⟩ := List.cons.inj (next'.symm.trans next)
        simpa [Threads.set, after] using holds
      · obtain ⟨rfl, rfl⟩ := List.cons.inj (next'.symm.trans next)
        simpa [Threads.set, after] using holds

theorem TakesAgain.step {thread : Thread} {lock : Lock} {rest : List (LockOp Lock)}
    (again : state.TakesAgain thread lock rest) {move : Move Thread Lock}
    (enabled : state.step move = some later) : later.TakesAgain thread lock rest := by
  cases move with
  | begins other routine =>
      obtain ⟨nothing, same⟩ := Option.ite_none_right_eq_some.mp enabled
      cases same
      refine again.set (fun same => ?_) _ _
      obtain ⟨before, next, -⟩ := again
      rw [same, next] at nothing
      exact List.append_ne_nil_of_right_ne_nil _ (List.cons_ne_nil _ _) nothing
  | proceeds other =>
      by_cases same : other = thread
      · subst same
        exact again.proceed enabled
      · rcases proceed_cases enabled with ⟨_, _, _, _, rfl⟩ | ⟨_, _, _, rfl⟩
        · exact again.set same _ _
        · exact again.set same _ _

/-- A thread that is to take a lock again, which it holds by then, never comes behind that
place, whatever the others do. -/
theorem TakesAgain.of_reaches {thread : Thread} {lock : Lock} {rest : List (LockOp Lock)}
    (again : state.TakesAgain thread lock rest)
    {allowed : Threads Thread Lock → Move Thread Lock → Prop}
    (reached : Reaches Threads.step allowed state later) :
    later.TakesAgain thread lock rest := by
  induction reached with
  | refl => exact again
  | next move _ _ enabled inductionHypothesis => exact inductionHypothesis.step enabled

end Hanging

end Threads

end Mevent.Library
