import Mevent.EventLoop.Requests
import Mevent.Library.Mailbox

/-!
# Waiting for tasks

`task_cond_` and `ws_task_cond_`: a worker that finds its queue empty waits, every push
signals, and a wait may return without a signal.  Each worker with its queue is a
`Mailbox` of one consumer.
-/

namespace Mevent

open Library

/-- `EventLoop` with its two waits, and with the items that the workers have taken. -/
structure Waking where
  el : EventLoop
  taskWait : Bool
  wsTaskWait : Bool
  taken : List Session
  wsTaken : List WebSocketTaskItem

namespace Waking

/-- A section of the event loop, a call of `pthread_cond_wait`, or the return of one that no
signal has woken. -/
inductive Move where
  | run (action : Action)
  | waitTask
  | waitWsTask
  | wakeTask
  | wakeWsTask

/-- Behind the start of the threads in `Loop`. -/
def initial (config : Config) : Waking := ⟨.initial config, false, false, [], []⟩

/-- A worker that waits takes nothing. -/
def Attends (waking : Waking) : Action → Prop
  | .takeTask => waking.taskWait = false
  | .takeWsTask => waking.wsTaskWait = false
  | _ => True

instance (waking : Waking) : DecidablePred waking.Attends
  | .takeTask => inferInstanceAs (Decidable (waking.taskWait = false))
  | .takeWsTask => inferInstanceAs (Decidable (waking.wsTaskWait = false))
  | .poll _ | .beginAccept | .accepted _ | .wouldBlock | .install _ _ _ _ _ | .updateErase _
  | .updatePush _ | .onRead _ _ | .onWrite _ _ _ | .runTask _ | .runWsTask _ | .timeoutCheck _
  | .checkFirst | .peek | .expire _ | .checkNext | .safeWrite _ _ _ =>
      inferInstanceAs (Decidable True)

/-- Behind a section: `TaskPush` and `WebSocketTaskPush` end the wait of their worker. -/
def behind (waking : Waking) (action : Action) (later : EventLoop) : Waking where
  el := later
  taskWait := waking.taskWait && decide (later.pushed = waking.el.pushed)
  wsTaskWait := waking.wsTaskWait && decide (later.wsPushed = waking.el.wsPushed)
  taken :=
    match action with
    | .takeTask => waking.taken ++ waking.el.taskQue.head?.toList
    | _ => waking.taken
  wsTaken :=
    match action with
    | .takeWsTask => waking.wsTaken ++ waking.el.wsTaskQue.head?.toList
    | _ => waking.wsTaken

def step (config : Config) (waking : Waking) : Move → Option Waking
  | .run action =>
      if waking.Attends action then (waking.el.step config action).map (waking.behind action)
      else none
  | .waitTask =>
      if waking.el.worker = none ∧ waking.el.taskQue = [] ∧ waking.taskWait = false then
        some { waking with taskWait := true }
      else
        none
  | .waitWsTask =>
      if waking.el.wsWorker = none ∧ waking.el.wsTaskQue = [] ∧ waking.wsTaskWait = false then
        some { waking with wsTaskWait := true }
      else
        none
  | .wakeTask => if waking.taskWait then some { waking with taskWait := false } else none
  | .wakeWsTask => if waking.wsTaskWait then some { waking with wsTaskWait := false } else none

section Station

variable {Item : Type} {queue pushed taken : List Item} {worker : Option Item} {waits : Bool}

def station (queue : List Item) (worker : Option Item) (waits : Bool)
    (pushed taken : List Item) : Mailbox Unit Item where
  queue := queue
  phase := fun _ =>
    match worker with
    | some item => .busy item
    | none => if waits then .waiting else .ready
  pushed := pushed
  taken := taken

/-- The worker waits only without an item, and it can have come there. -/
structure Manned (queue : List Item) (worker : Option Item) (waits : Bool)
    (pushed taken : List Item) : Prop where
  free : waits = true → worker = none
  reached : Reaches Mailbox.step (fun _ _ => True) Mailbox.fresh
    (station queue worker waits pushed taken)

theorem Manned.push (manned : Manned queue worker waits pushed taken) (item : Item) :
    Manned (queue ++ [item]) worker false (pushed ++ [item]) taken := by
  refine ⟨nofun, ?_⟩
  cases asleep : waits with
  | false =>
      subst asleep
      refine manned.reached.next (.push item none) trivial ?_
      have awake : ∀ consumer, ¬ (station queue worker false pushed taken).Waits consumer := by
        intro consumer
        rw [Mailbox.waits_iff]
        cases worker with
        | none => simp [station]
        | some task => simp [station]
      simp only [Mailbox.step, if_pos awake]
      rfl
  | true =>
      subst asleep
      have idle := manned.free rfl
      subst idle
      refine manned.reached.next (.push item (some ())) trivial ?_
      have asleep : (station queue none true pushed taken).Waits () :=
        Mailbox.waits_iff.mpr rfl
      simp only [Mailbox.step, if_pos asleep]
      refine congrArg some ?_
      simp only [Mailbox.move, Mailbox.append, station]
      congr 1

theorem Manned.pushAll (manned : Manned queue worker waits pushed taken) (items : List Item) :
    Manned (queue ++ items) worker (waits && decide (items = [])) (pushed ++ items) taken := by
  induction items generalizing queue waits pushed with
  | nil => simpa using manned
  | cons item items inductionHypothesis =>
      have next := inductionHypothesis (manned.push item)
      simpa using next

theorem Manned.take {item : Item} (manned : Manned (item :: queue) none false pushed taken) :
    Manned queue (some item) false pushed (taken ++ [item]) := by
  refine ⟨nofun, manned.reached.next (.look ()) trivial ?_⟩
  simp only [Mailbox.step, Mailbox.look, station, Bool.false_eq_true, if_false, Mailbox.move]
  refine congrArg some ?_
  congr 1

theorem Manned.finish {item : Item}
    (manned : Manned queue (some item) waits pushed taken) :
    Manned queue none waits pushed taken := by
  have awake : waits = false := by
    by_contra waiting
    cases manned.free (Bool.not_eq_false _ ▸ waiting)
  subst awake
  refine ⟨nofun, manned.reached.next (.finish ()) trivial ?_⟩
  simp only [Mailbox.step, station, Bool.false_eq_true, if_false, Mailbox.move]
  refine congrArg some ?_
  congr 1

theorem Manned.wait (manned : Manned [] (none : Option Item) false pushed taken) :
    Manned [] (none : Option Item) true pushed taken := by
  refine ⟨fun _ => rfl, manned.reached.next (.look ()) trivial ?_⟩
  simp only [Mailbox.step, Mailbox.look, station, Bool.false_eq_true, if_false, if_true,
    Mailbox.move]
  refine congrArg some ?_
  congr 1

theorem Manned.wake (manned : Manned queue worker true pushed taken) :
    Manned queue worker false pushed taken := by
  have idle := manned.free rfl
  subst idle
  refine ⟨nofun, manned.reached.next (.wake ()) trivial ?_⟩
  simp only [Mailbox.step, Mailbox.move, station]
  refine congrArg some ?_
  congr 1

/-- A worker that waits has nothing to do, and it takes the items in their order. -/
theorem Manned.attends (manned : Manned queue worker waits pushed taken) :
    pushed = taken ++ queue ∧ (waits = true → worker = none ∧ queue = []) := by
  have kept := Mailbox.kept_of_reaches manned.reached
  refine ⟨kept.fifo, fun asleep => ⟨manned.free asleep, ?_⟩⟩
  by_contra work
  have idle := manned.free asleep
  subst asleep idle
  obtain ⟨consumer, awake⟩ := kept.exists_awake work
  exact awake (Mailbox.waits_iff.mpr rfl)

end Station

section Queues

variable {config : Config} {el later : EventLoop} {action : Action}

/-- What a step other than `takeTask` does to the tasks. -/
theorem tasks_of_effect (effect : EventLoop.Effect config el action later)
    (other : action ≠ .takeTask) :
    (later.worker = el.worker ∨ later.worker = none) ∧
      ∃ items, later.taskQue = el.taskQue ++ items ∧ later.pushed = el.pushed ++ items := by
  have keeps : ∀ {middle : EventLoop}, middle.taskQue = el.taskQue →
      middle.pushed = el.pushed → ∃ items, middle.taskQue = el.taskQue ++ items ∧
        middle.pushed = el.pushed ++ items := fun queue pushed =>
    ⟨[], by rw [queue, List.append_nil], by rw [pushed, List.append_nil]⟩
  cases effect with
  | takesTask => exact absurd rfl other
  | reads conn input read reading =>
      refine ⟨?_, ?_⟩
      · left
        cases read.pushed with
        | false => rfl
        | true => rfl
      · cases pushes : read.pushed with
        | false => exact keeps rfl rfl
        | true => exact ⟨[_], rfl, rfl⟩
  | dropsTask => exact ⟨.inr rfl, keeps rfl rfl⟩
  | runsTask => exact ⟨.inr rfl, keeps rfl rfl⟩
  | moves | pops | installs | writes | expires | sends | takesWsTask | dropsWsTask | runsWsTask =>
      exact ⟨.inl rfl, keeps rfl rfl⟩

/-- What a step other than `takeWsTask` does to the WebSocket tasks. -/
theorem wsTasks_of_effect (effect : EventLoop.Effect config el action later)
    (other : action ≠ .takeWsTask) :
    (later.wsWorker = el.wsWorker ∨ later.wsWorker = none) ∧
      ∃ items, later.wsTaskQue = el.wsTaskQue ++ items ∧
        later.wsPushed = el.wsPushed ++ items := by
  have keeps : ∀ {middle : EventLoop}, middle.wsTaskQue = el.wsTaskQue →
      middle.wsPushed = el.wsPushed → ∃ items, middle.wsTaskQue = el.wsTaskQue ++ items ∧
        middle.wsPushed = el.wsPushed ++ items := fun queue pushed =>
    ⟨[], by rw [queue, List.append_nil], by rw [pushed, List.append_nil]⟩
  cases effect with
  | takesWsTask => exact absurd rfl other
  | reads conn input read reading =>
      have same : ∀ pushed, (((el.put conn read.held).taskPush conn pushed).wsWorker =
          el.wsWorker) ∧ ((el.put conn read.held).taskPush conn pushed).wsTaskQue =
          el.wsTaskQue ∧ ((el.put conn read.held).taskPush conn pushed).wsPushed =
          el.wsPushed := by
        intro pushed
        cases pushed with
        | false => exact ⟨rfl, rfl, rfl⟩
        | true => exact ⟨rfl, rfl, rfl⟩
      obtain ⟨worker, queue, pushed⟩ := same read.pushed
      refine ⟨.inl worker, _, congrArg (· ++ _) queue, congrArg (· ++ _) pushed⟩
  | dropsWsTask => exact ⟨.inr rfl, keeps rfl rfl⟩
  | runsWsTask => exact ⟨.inr rfl, keeps rfl rfl⟩
  | moves | pops | installs | writes | expires | sends | takesTask | dropsTask | runsTask =>
      exact ⟨.inl rfl, keeps rfl rfl⟩

theorem step_takeTask_cases (stepped : el.step config .takeTask = some later) :
    ∃ task rest, el.worker = none ∧ el.taskQue = task :: rest ∧
      later = { el with taskQue := rest, worker := some task } := by
  simp only [EventLoop.step, EventLoop.stepLoop, EventLoop.stepWorker, EventLoop.stepWsWorker,
    EventLoop.stepTimeout, EventLoop.stepApplication, Option.none_or, Option.or_none,
    Option.ite_none_right_eq_some] at stepped
  obtain ⟨idle, taken⟩ := stepped
  split at taken
  · cases taken
  · rename_i task rest queued
    cases taken
    exact ⟨task, rest, idle, queued, rfl⟩

theorem step_takeWsTask_cases (stepped : el.step config .takeWsTask = some later) :
    ∃ item rest, el.wsWorker = none ∧ el.wsTaskQue = item :: rest ∧
      later = { el with wsTaskQue := rest, wsWorker := some item } := by
  simp only [EventLoop.step, EventLoop.stepLoop, EventLoop.stepWorker, EventLoop.stepWsWorker,
    EventLoop.stepTimeout, EventLoop.stepApplication, Option.none_or, Option.or_none,
    Option.ite_none_right_eq_some] at stepped
  obtain ⟨idle, taken⟩ := stepped
  split at taken
  · cases taken
  · rename_i item rest queued
    cases taken
    exact ⟨item, rest, idle, queued, rfl⟩

end Queues

def Tasks (waking : Waking) : Prop :=
  Manned waking.el.taskQue waking.el.worker waking.taskWait waking.el.pushed waking.taken

def WsTasks (waking : Waking) : Prop :=
  Manned waking.el.wsTaskQue waking.el.wsWorker waking.wsTaskWait waking.el.wsPushed
    waking.wsTaken

section Runs

variable {config : Config} {waking later : Waking} {el : EventLoop} {action : Action}

theorem Manned.goes_on {Item : Type} {queue pushed taken : List Item}
    {worker worker' : Option Item} {waits : Bool}
    (manned : Manned queue worker waits pushed taken)
    (moved : worker' = worker ∨ worker' = none) (items : List Item) :
    Manned (queue ++ items) worker' (waits && decide (items = [])) (pushed ++ items) taken := by
  rcases moved with rfl | rfl
  · exact manned.pushAll items
  · cases worker with
    | none => exact manned.pushAll items
    | some item => exact manned.finish.pushAll items

theorem tasks_behind (tasks : waking.Tasks) (attends : waking.Attends action)
    (stepped : waking.el.step config action = some el) : (waking.behind action el).Tasks := by
  by_cases take : action = .takeTask
  · subst take
    obtain ⟨task, rest, idle, queued, rfl⟩ := step_takeTask_cases stepped
    have awake : waking.taskWait = false := attends
    unfold Tasks at tasks ⊢
    rw [idle, queued, awake] at tasks
    simpa [behind, awake, queued] using tasks.take
  · obtain ⟨moved, items, queue, pushed⟩ :=
      tasks_of_effect (EventLoop.effect_of_step stepped) take
    have taken : (waking.behind action el).taken = waking.taken := by
      cases action with
      | takeTask => exact absurd rfl take
      | _ => rfl
    have next := tasks.goes_on moved items
    unfold Tasks
    rw [taken]
    simpa [behind, queue, pushed] using next

theorem wsTasks_behind (tasks : waking.WsTasks) (attends : waking.Attends action)
    (stepped : waking.el.step config action = some el) : (waking.behind action el).WsTasks := by
  by_cases take : action = .takeWsTask
  · subst take
    obtain ⟨item, rest, idle, queued, rfl⟩ := step_takeWsTask_cases stepped
    have awake : waking.wsTaskWait = false := attends
    unfold WsTasks at tasks ⊢
    rw [idle, queued, awake] at tasks
    simpa [behind, awake, queued] using tasks.take
  · obtain ⟨moved, items, queue, pushed⟩ :=
      wsTasks_of_effect (EventLoop.effect_of_step stepped) take
    have taken : (waking.behind action el).wsTaken = waking.wsTaken := by
      cases action with
      | takeWsTask => exact absurd rfl take
      | _ => rfl
    have next := tasks.goes_on moved items
    unfold WsTasks
    rw [taken]
    simpa [behind, queue, pushed] using next

theorem manned_step {move : Move} (manned : waking.Tasks ∧ waking.WsTasks)
    (enabled : waking.step config move = some later) : later.Tasks ∧ later.WsTasks := by
  obtain ⟨tasks, wsTasks⟩ := manned
  cases move with
  | run action =>
      obtain ⟨attends, ran⟩ := Option.ite_none_right_eq_some.mp enabled
      obtain ⟨el, stepped, rfl⟩ := Option.map_eq_some_iff.mp ran
      exact ⟨tasks_behind tasks attends stepped, wsTasks_behind wsTasks attends stepped⟩
  | waitTask =>
      obtain ⟨⟨idle, empty, awake⟩, same⟩ := Option.ite_none_right_eq_some.mp enabled
      cases same
      refine ⟨?_, wsTasks⟩
      unfold Tasks at tasks ⊢
      rw [idle, empty, awake] at tasks
      simpa [idle, empty] using tasks.wait
  | waitWsTask =>
      obtain ⟨⟨idle, empty, awake⟩, same⟩ := Option.ite_none_right_eq_some.mp enabled
      cases same
      refine ⟨tasks, ?_⟩
      unfold WsTasks at wsTasks ⊢
      rw [idle, empty, awake] at wsTasks
      simpa [idle, empty] using wsTasks.wait
  | wakeTask =>
      obtain ⟨asleep, same⟩ := Option.ite_none_right_eq_some.mp enabled
      cases same
      refine ⟨?_, wsTasks⟩
      unfold Tasks at tasks
      rw [asleep] at tasks
      exact tasks.wake
  | wakeWsTask =>
      obtain ⟨asleep, same⟩ := Option.ite_none_right_eq_some.mp enabled
      cases same
      refine ⟨tasks, ?_⟩
      unfold WsTasks at wsTasks
      rw [asleep] at wsTasks
      exact wsTasks.wake

theorem manned_of_reaches
    (reached : Reaches (step config) (fun _ _ => True) (initial config) waking) :
    waking.Tasks ∧ waking.WsTasks :=
  reached.invariant ⟨⟨nofun, .refl⟩, ⟨nofun, .refl⟩⟩ fun _ _ _ manned _ enabled =>
    manned_step manned enabled

/-- No wake-up is lost: in every run of an event loop whose workers may wait, and wake
without a signal, what has been pushed on each queue has been taken or is still queued, in
the same order; a worker waits only while its queue is empty; and as long as there is an item
in the queue, a worker that is not at work can take one. -/
theorem attends_of_reaches
    (reached : Reaches (step config) (fun _ _ => True) (initial config) waking) :
    (waking.el.pushed = waking.taken ++ waking.el.taskQue ∧
      (waking.taskWait = true → waking.el.worker = none ∧ waking.el.taskQue = []) ∧
      (waking.el.taskQue ≠ [] → waking.el.worker = none →
        (waking.step config (.run .takeTask)).isSome = true)) ∧
    (waking.el.wsPushed = waking.wsTaken ++ waking.el.wsTaskQue ∧
      (waking.wsTaskWait = true → waking.el.wsWorker = none ∧ waking.el.wsTaskQue = []) ∧
      (waking.el.wsTaskQue ≠ [] → waking.el.wsWorker = none →
        (waking.step config (.run .takeWsTask)).isSome = true)) := by
  obtain ⟨tasks, wsTasks⟩ := manned_of_reaches reached
  obtain ⟨fifo, asleep⟩ := tasks.attends
  obtain ⟨wsFifo, wsAsleep⟩ := wsTasks.attends
  refine ⟨⟨fifo, asleep, fun work idle => ?_⟩, ⟨wsFifo, wsAsleep, fun work idle => ?_⟩⟩
  · have awake : waking.Attends .takeTask := by
      by_contra waits
      exact work (asleep (Bool.not_eq_false _ ▸ waits)).2
    obtain ⟨task, rest, queued⟩ := List.exists_cons_of_ne_nil work
    simp [step, if_pos awake, EventLoop.step, EventLoop.stepLoop, EventLoop.stepWorker, idle,
      queued]
  · have awake : waking.Attends .takeWsTask := by
      by_contra waits
      exact work (wsAsleep (Bool.not_eq_false _ ▸ waits)).2
    obtain ⟨item, rest, queued⟩ := List.exists_cons_of_ne_nil work
    simp [step, if_pos awake, EventLoop.step, EventLoop.stepLoop, EventLoop.stepWorker,
      EventLoop.stepWsWorker, idle, queued]

/-- Both workers wait when a request arrives. -/
theorem attends_request : ∃ waking : Waking,
    (waking.el.taskQue, waking.taskWait, waking.wsTaskWait) = ([⟨0, 1⟩], false, true) ∧
      (waking.el.pushed = waking.taken ++ waking.el.taskQue ∧
        (waking.taskWait = true → waking.el.worker = none ∧ waking.el.taskQue = []) ∧
        (waking.el.taskQue ≠ [] → waking.el.worker = none →
          (waking.step EventLoop.plainConfig (.run .takeTask)).isSome = true)) ∧
      (waking.el.wsPushed = waking.wsTaken ++ waking.el.wsTaskQue ∧
        (waking.wsTaskWait = true → waking.el.wsWorker = none ∧ waking.el.wsTaskQue = []) ∧
        (waking.el.wsTaskQue ≠ [] → waking.el.wsWorker = none →
          (waking.step EventLoop.plainConfig (.run .takeWsTask)).isSome = true)) := by
  have runs : (replay (step EventLoop.plainConfig) (fun _ _ => True)
      (initial EventLoop.plainConfig) ([.waitTask, .waitWsTask] ++
        (EventLoop.accepting 5 1 ++
          EventLoop.reading (EventLoop.arrival 2 EventLoop.smallRequest)).map .run)).map
      (fun waking => (waking.el.taskQue, waking.taskWait, waking.wsTaskWait)) =
      some ([⟨0, 1⟩], false, true) := by decide +kernel
  obtain ⟨waking, replayed, found⟩ := Option.map_eq_some_iff.mp runs
  exact ⟨waking, found, attends_of_reaches (reaches_of_replay replayed)⟩

end Runs

end Waking

end Mevent
