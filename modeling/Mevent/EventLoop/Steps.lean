import Mevent.EventLoop.Effects

/-!
# What a step does

The steps of all threads by what they do to the connections, the queues and the history.
-/

namespace Mevent.EventLoop

open Library

variable {config : Config} {el later : EventLoop}

section Push

variable (el : EventLoop) (conn : ConnId) (pushed : Bool) (tasks : List WebSocketTask)

@[simp]
theorem push_connections :
    ((el.taskPush conn pushed).wsTaskPush conn tasks).connections = el.connections := by
  cases pushed with
  | false => rfl
  | true => rfl

@[simp]
theorem push_installs :
    ((el.taskPush conn pushed).wsTaskPush conn tasks).installs = el.installs := by
  cases pushed with
  | false => rfl
  | true => rfl

@[simp]
theorem push_batch : ((el.taskPush conn pushed).wsTaskPush conn tasks).batch = el.batch := by
  cases pushed with
  | false => rfl
  | true => rfl

end Push

/-- What a step of a kind leaves behind.  `moves` is a step that moves a thread or works on
the active list. -/
inductive Effect (config : Config) (el : EventLoop) : Action → EventLoop → Prop where
  | moves {action : Action} (pool : ConnectionPool) (batch : List Pool.Event)
      (loop : Pool.LoopPoint) (timeout : TimeoutPoint) :
      el.pool.SameFree pool → (∀ conn clifd, loop = .popped conn clifd → loop = el.loop) →
      Effect config el action
        { el with pool := pool, batch := batch, loop := loop, timeout := timeout }
  | pops (conn : ConnId) (clifd : Int) (pool : ConnectionPool) :
      0 ≤ clifd → el.pool.freeListPop = (some conn, pool) →
      Effect config el (.accepted clifd) { el with pool := pool, loop := .popped conn clifd }
  | installs (conn : ConnId) (clifd : Int) (addr : UInt32) (now : Int) (ready : Bool) :
      el.loop = .popped conn clifd →
      Effect config el (.install conn clifd addr now ready)
        { el.put conn (installIn config conn clifd addr now ready (el.hold conn)) with
          loop := .accepting
          installs := Function.update el.installs conn (el.installs conn + 1) }
  | writes (conn : ConnId) (writes : List WriteResult) (onClose : List HandlerOp)
      (held : Held) : (el.hold conn).onWrite config.limits conn writes onClose = some held →
      Effect config el (.onWrite conn writes onClose)
        { el.put conn held with batch := el.batch.tail }
  | expires (conn : ConnId) (now : Int) (onClose : List HandlerOp) (held : Held) :
      (el.hold conn).resetConnection config.limits conn onClose = some held →
      Effect config el (.expire onClose) { el.put conn held with timeout := .following now }
  | sends (conn : ConnId) (data : Bytes) (writes : List WriteResult) :
      Effect config el (.safeWrite conn data writes)
        (el.put conn ⟨(((el.connections conn).writeString data).flush writes).2, el.pool⟩)
  | reads (conn : ConnId) (input : ReadInput) (read : OnReadResult) :
      (el.hold conn).onRead config.limits conn input = some read →
      Effect config el (.onRead conn input)
        { ((el.put conn read.held).taskPush conn read.pushed).wsTaskPush conn read.wsPushed with
          loop := .between }
  | takesTask (task : Session) (rest : List Session) :
      el.worker = none → el.taskQue = task :: rest →
      Effect config el .takeTask { el with taskQue := rest, worker := some task }
  | dropsTask (input : WorkInput) (task : Session) :
      el.worker = some task → (el.connections task.conn).fd < 0 →
      Effect config el (.runTask input) { el with worker := none }
  | runsTask (input : WorkInput) (task : Session) (held : Held) :
      el.worker = some task → ¬ (el.connections task.conn).fd < 0 →
      (el.hold task.conn).work config task.conn input = some held →
      Effect config el (.runTask input)
        { el.put task.conn held with
          worker := none
          runs := el.runs ++
            [⟨task, el.occupant task.conn, (el.connections task.conn).req.status⟩] }
  | takesWsTask (item : WebSocketTaskItem) (rest : List WebSocketTaskItem) :
      el.wsWorker = none → el.wsTaskQue = item :: rest →
      Effect config el .takeWsTask { el with wsTaskQue := rest, wsWorker := some item }
  | dropsWsTask (input : WorkInput) (item : WebSocketTaskItem) :
      el.wsWorker = some item → (el.connections item.session.conn).fd < 0 →
      Effect config el (.runWsTask input)
        { el with wsWorker := none, processed := el.processed ++ [⟨item, none⟩] }
  | runsWsTask (input : WorkInput) (item : WebSocketTaskItem) (held : Held) :
      el.wsWorker = some item → ¬ (el.connections item.session.conn).fd < 0 →
      (el.hold item.session.conn).wsWork config item.session.conn item.task.opcode input =
        some held →
      Effect config el (.runWsTask input)
        { el.put item.session.conn held with
          wsWorker := none
          processed := el.processed ++ [⟨item, some (el.occupant item.session.conn)⟩] }

theorem effect_of_stepLoop {action : Action} (stepped : el.stepLoop config action = some later) :
    Effect config el action later := by
  cases action <;>
    simp only [stepLoop, Option.ite_none_right_eq_some, Option.some.injEq, Option.map_eq_some_iff,
      reduceCtorEq] at stepped
  case poll events =>
    obtain ⟨-, rfl⟩ := stepped
    exact .moves _ _ _ _ (.refl _) (fun _ _ _ => rfl)
  case beginAccept =>
    obtain ⟨-, rfl⟩ := stepped
    exact .moves _ _ _ _ (.refl _) nofun
  case accepted clifd =>
    obtain ⟨⟨-, descriptor⟩, rfl⟩ := stepped
    split
    next pool popped =>
      rw [ConnectionPool.freeListPop_eq_none popped]
      exact .moves _ _ _ _ (.refl _) nofun
    next conn pool popped => exact .pops conn clifd pool descriptor popped
  case wouldBlock =>
    obtain ⟨-, rfl⟩ := stepped
    exact .moves _ _ _ _ (.refl _) nofun
  case install conn clifd addr now ready =>
    obtain ⟨at_loop, rfl⟩ := stepped
    exact .installs conn clifd addr now ready at_loop
  case updateErase conn =>
    obtain ⟨-, rfl⟩ := stepped
    exact .moves _ _ _ _ ConnectionPool.sameFree_activeListErase nofun
  case updatePush conn =>
    obtain ⟨-, rfl⟩ := stepped
    exact .moves _ _ _ _ ConnectionPool.sameFree_activeListPush nofun
  case onRead conn input =>
    obtain ⟨-, read, reading, rfl⟩ := stepped
    exact .reads conn input read reading
  case onWrite conn writes onClose =>
    obtain ⟨-, held, writing, rfl⟩ := stepped
    exact .writes conn writes onClose held writing

theorem effect_of_stepWorker {action : Action}
    (stepped : el.stepWorker config action = some later) : Effect config el action later := by
  cases action <;> simp only [stepWorker, Option.ite_none_right_eq_some, reduceCtorEq] at stepped
  case takeTask =>
    obtain ⟨idle, taken⟩ := stepped
    split at taken
    next => cases taken
    next task rest queued =>
      cases taken
      exact .takesTask task rest idle queued
  case runTask input =>
    split at stepped
    next => cases stepped
    next task held_task =>
      split at stepped
      next no_descriptor =>
        cases stepped
        exact .dropsTask input task held_task no_descriptor
      next descriptor =>
        obtain ⟨held, worked, same⟩ := Option.map_eq_some_iff.mp stepped
        subst same
        exact .runsTask input task held held_task descriptor worked

theorem effect_of_stepWsWorker {action : Action}
    (stepped : el.stepWsWorker config action = some later) : Effect config el action later := by
  cases action <;>
    simp only [stepWsWorker, Option.ite_none_right_eq_some, reduceCtorEq] at stepped
  case takeWsTask =>
    obtain ⟨idle, taken⟩ := stepped
    split at taken
    next => cases taken
    next item rest queued =>
      cases taken
      exact .takesWsTask item rest idle queued
  case runWsTask input =>
    split at stepped
    next => cases stepped
    next item held_item =>
      split at stepped
      next no_descriptor =>
        cases stepped
        exact .dropsWsTask input item held_item no_descriptor
      next descriptor =>
        obtain ⟨held, worked, same⟩ := Option.map_eq_some_iff.mp stepped
        subst same
        exact .runsWsTask input item held held_item descriptor worked

theorem effect_of_stepTimeout {action : Action}
    (stepped : el.stepTimeout config action = some later) : Effect config el action later := by
  have moves : ∀ timeout, Effect config el action { el with timeout := timeout } :=
    fun timeout => .moves _ _ _ timeout (.refl _) (fun _ _ _ => rfl)
  have checks : ∀ timeout, Effect config el action
      { el with pool := el.pool.activeListCheckNext.2, timeout := timeout } :=
    fun timeout => .moves _ _ _ timeout ⟨rfl, rfl, rfl⟩ (fun _ _ _ => rfl)
  cases action <;>
    simp only [stepTimeout, Option.ite_none_right_eq_some, Option.some.injEq,
      reduceCtorEq] at stepped
  case timeoutCheck now =>
    obtain ⟨-, rfl⟩ := stepped
    exact .moves _ _ _ _ ⟨rfl, rfl, rfl⟩ (fun _ _ _ => rfl)
  case checkFirst =>
    split at stepped
    · cases stepped
      exact checks _
    · cases stepped
  case peek =>
    split at stepped
    · split at stepped
      · cases stepped
        exact moves _
      · cases stepped
        exact moves _
    · cases stepped
  case expire onClose =>
    split at stepped
    next now conn _ =>
      unfold checkTimeout at stepped
      simp only at stepped
      split at stepped
      · split at stepped
        · obtain ⟨held, reset, same⟩ := Option.map_eq_some_iff.mp stepped
          subst same
          exact .expires conn now onClose held reset
        · cases stepped
          exact moves _
      · cases stepped
        exact moves _
    next => cases stepped
  case checkNext =>
    split at stepped
    · cases stepped
      exact checks _
    · cases stepped

/-- Every step has one of the effects. -/
theorem effect_of_step {action : Action} (stepped : el.step config action = some later) :
    Effect config el action later := by
  rcases Option.or_eq_some_iff.mp stepped with loop | ⟨-, stepped⟩
  · exact effect_of_stepLoop loop
  rcases Option.or_eq_some_iff.mp stepped with worker | ⟨-, stepped⟩
  · exact effect_of_stepWorker worker
  rcases Option.or_eq_some_iff.mp stepped with wsWorker | ⟨-, stepped⟩
  · exact effect_of_stepWsWorker wsWorker
  rcases Option.or_eq_some_iff.mp stepped with timeout | ⟨-, application⟩
  · exact effect_of_stepTimeout timeout
  · cases action with
    | safeWrite conn data writes =>
        cases application
        exact .sends conn data writes
    | _ => simp [stepApplication] at application

theorem step_runTask {input : WorkInput} {task : Session} (held_task : el.worker = some task)
    (descriptor : ¬ (el.connections task.conn).fd < 0) :
    el.step config (.runTask input) =
      ((el.hold task.conn).work config task.conn input).map fun held =>
        { el.put task.conn held with
          worker := none
          runs := el.runs ++
            [⟨task, el.occupant task.conn, (el.connections task.conn).req.status⟩] } := by
  simp only [step, stepLoop, stepWorker, stepWsWorker, stepTimeout, stepApplication, held_task,
    if_neg descriptor, Option.none_or, Option.or_none]

theorem step_runWsTask {input : WorkInput} {item : WebSocketTaskItem}
    (held_item : el.wsWorker = some item)
    (descriptor : ¬ (el.connections item.session.conn).fd < 0) :
    el.step config (.runWsTask input) =
      ((el.hold item.session.conn).wsWork config item.session.conn item.task.opcode input).map
        fun held =>
          { el.put item.session.conn held with
            wsWorker := none
            processed := el.processed ++ [⟨item, some (el.occupant item.session.conn)⟩] } := by
  simp only [step, stepLoop, stepWorker, stepWsWorker, stepTimeout, stepApplication, held_item,
    if_neg descriptor, Option.none_or, Option.or_none]

theorem installs_of_step {conn : ConnId} {clifd : Int} {addr : UInt32} {now : Int} {ready : Bool}
    (stepped : el.step config (.install conn clifd addr now ready) = some later) :
    el.loop = .popped conn clifd ∧
      later.connections = Function.update el.connections conn
        (installIn config conn clifd addr now ready (el.hold conn)).connection := by
  by_cases enabled : el.loop = .popped conn clifd
  · simp only [step, stepLoop, stepWorker, stepWsWorker, stepTimeout, stepApplication,
      if_pos enabled, Option.or_none, Option.some.injEq] at stepped
    subst stepped
    exact ⟨enabled, rfl⟩
  · simp [step, stepLoop, if_neg enabled, stepWorker, stepWsWorker, stepTimeout,
      stepApplication] at stepped

theorem step_onRead {conn : ConnId} {input : ReadInput} (enabled : el.loop = .moved conn) :
    el.step config (.onRead conn input) =
      ((el.hold conn).onRead config.limits conn input).map fun read =>
        { ((el.put conn read.held).taskPush conn read.pushed).wsTaskPush conn read.wsPushed with
          loop := .between } := by
  simp only [step, stepLoop, stepWorker, stepWsWorker, stepTimeout, stepApplication,
    if_pos enabled, Option.or_none]

theorem step_onWrite {conn : ConnId} {writes : List WriteResult} {onClose : List HandlerOp}
    (enabled : el.loop = .between ∧ el.batch.head? = some (.writable conn)) :
    el.step config (.onWrite conn writes onClose) =
      ((el.hold conn).onWrite config.limits conn writes onClose).map fun held =>
        { el.put conn held with batch := el.batch.tail } := by
  simp only [step, stepLoop, stepWorker, stepWsWorker, stepTimeout, stepApplication,
    if_pos enabled, Option.or_none]

theorem step_expire {now : Int} {conn : ConnId} {onClose : List HandlerOp}
    (checking : el.timeout = .checking now conn) :
    el.step config (.expire onClose) = el.checkTimeout config now conn onClose := by
  simp only [step, stepLoop, stepWorker, stepWsWorker, stepTimeout, stepApplication, checking,
    Option.none_or, Option.or_none]

end Mevent.EventLoop
