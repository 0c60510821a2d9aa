import Mevent.EventLoop.Steps

/-!
# Whose requests `WorkerThread` handles

A task is a bare connection.  When a client goes away before the worker has taken its
task, and its connection has been handed to the next client meanwhile, the worker handles
the request of the wrong client.
-/

namespace Mevent.EventLoop

open Library

variable {config : Config} {el later : EventLoop}

/-- The tasks that are queued or held by the worker. -/
def pending (el : EventLoop) : List Session := el.worker.toList ++ el.taskQue

/-- Every run of a handler is for the session that occupies the connection and for its
completed request, and no request is handled twice. -/
structure RunsOwnRequests (el : EventLoop) : Prop where
  own : ∀ run ∈ el.runs, run.occupant = run.task ∧ run.status = .bodyReceived
  pushed : ∀ run ∈ el.runs, run.task ∈ el.pushed
  once : (el.runs.map HandlerRun.task).Nodup

/-- The steps of all threads but `WebSocketWorkerThread`. -/
def OfHttp (_ : EventLoop) : Action → Prop
  | .takeWsTask | .runWsTask _ => False
  | _ => True

/-- A step in which `Accept` installs a descriptor only in a connection of which no task is
queued or held by the worker. -/
def NoStaleTask (el : EventLoop) : Action → Prop
  | .install conn _ _ _ _ => ∀ task ∈ el.pending, task.conn ≠ conn
  | _ => True

instance (el : EventLoop) : DecidablePred el.OfHttp
  | .takeWsTask | .runWsTask _ => inferInstanceAs (Decidable False)
  | .poll _ | .beginAccept | .accepted _ | .wouldBlock | .install .. | .updateErase _
  | .updatePush _ | .onRead .. | .onWrite .. | .takeTask | .runTask _ | .timeoutCheck _
  | .checkFirst | .peek | .expire _ | .checkNext | .safeWrite .. =>
      inferInstanceAs (Decidable True)

instance (el : EventLoop) : DecidablePred el.NoStaleTask
  | .install conn _ _ _ _ =>
      inferInstanceAs (Decidable (∀ task ∈ el.pending, task.conn ≠ conn))
  | .poll _ | .beginAccept | .accepted _ | .wouldBlock | .updateErase _ | .updatePush _
  | .onRead .. | .onWrite .. | .takeTask | .runTask _ | .takeWsTask | .runWsTask _
  | .timeoutCheck _ | .checkFirst | .peek | .expire _ | .checkNext | .safeWrite .. =>
      inferInstanceAs (Decidable True)

theorem not_receiving_of_bodyReceived {req : Request} (received : req.status = .bodyReceived) :
    ¬ req.Receiving := by
  rintro (head | body)
  · exact absurd (received.symm.trans head) nofun
  · exact absurd (received.symm.trans body) nofun

theorem not_receiving_of_upgrade {req : Request} (upgraded : req.status = .upgrade) :
    ¬ req.Receiving := by
  rintro (head | body)
  · exact absurd (upgraded.symm.trans head) nofun
  · exact absurd (upgraded.symm.trans body) nofun

structure RequestsInOrder (el : EventLoop) : Prop where
  current : ∀ task ∈ el.pending, task = el.occupant task.conn
  complete : ∀ task ∈ el.pending, 0 ≤ (el.connections task.conn).fd →
    (el.connections task.conn).req.status = .bodyReceived
  ordered : (el.runs.map HandlerRun.task ++ el.pending).Sublist el.pushed
  nodup : el.pushed.Nodup
  numbered : ∀ task ∈ el.pushed, task.number ≤ el.installs task.conn
  receiving : ∀ conn, 0 ≤ (el.connections conn).fd → (el.connections conn).req.Receiving →
    el.occupant conn ∉ el.pushed
  own : ∀ run ∈ el.runs, run.occupant = run.task ∧ run.status = .bodyReceived

theorem RequestsInOrder.runsOwnRequests (inOrder : el.RequestsInOrder) :
    el.RunsOwnRequests where
  own := inOrder.own
  pushed run inside := by
    have listed : run.task ∈ el.runs.map HandlerRun.task ++ el.pending :=
      List.mem_append_left _ (List.mem_map_of_mem inside)
    exact inOrder.ordered.subset listed
  once := (List.nodup_append.mp (inOrder.nodup.sublist inOrder.ordered)).1

theorem RequestsInOrder.keeps (inOrder : el.RequestsInOrder) (conn : ConnId) (held : Held)
    (batch : List Pool.Event) (timeout : TimeoutPoint)
    (kept : held.connection.fd < 0 ∨ held.connection.fd = (el.connections conn).fd ∧
      (held.connection.req.status = (el.connections conn).req.status ∨
        (el.connections conn).req.Receiving ∧ held.connection.req.Receiving)) :
    RequestsInOrder { el.put conn held with batch := batch, timeout := timeout } where
  current := inOrder.current
  complete task inside descriptor := by
    simp only [put_connections] at descriptor ⊢
    by_cases same : task.conn = conn
    · subst same
      simp only [Function.update_self] at descriptor ⊢
      rcases kept with gone | ⟨same_fd, same_status | ⟨receiving, -⟩⟩
      · omega
      · exact same_status.trans (inOrder.complete task inside (same_fd ▸ descriptor))
      · have complete := inOrder.complete task inside (same_fd ▸ descriptor)
        exact (not_receiving_of_bodyReceived complete receiving).elim
    · simp only [Function.update_of_ne same] at descriptor ⊢
      exact inOrder.complete task inside descriptor
  ordered := inOrder.ordered
  nodup := inOrder.nodup
  numbered := inOrder.numbered
  receiving other descriptor receiving := by
    simp only [put_connections] at descriptor receiving
    by_cases same : other = conn
    · subst same
      simp only [Function.update_self] at descriptor receiving
      rcases kept with gone | ⟨same_fd, same_status | ⟨before, -⟩⟩
      · omega
      · refine inOrder.receiving other (same_fd ▸ descriptor) ?_
        unfold Request.Receiving at receiving ⊢
        rwa [same_status] at receiving
      · exact inOrder.receiving other (same_fd ▸ descriptor) before
    · simp only [Function.update_of_ne same] at descriptor receiving
      exact inOrder.receiving other descriptor receiving
  own := inOrder.own

theorem RequestsInOrder.kept (inOrder : el.RequestsInOrder) {conn : ConnId} {held : Held}
    (kept : (el.hold conn).Kept held) (batch : List Pool.Event) (timeout : TimeoutPoint) :
    RequestsInOrder { el.put conn held with batch := batch, timeout := timeout } := by
  refine inOrder.keeps conn held batch timeout (kept.imp_right ?_)
  rintro ⟨same_fd, same_req⟩
  exact ⟨same_fd, .inl (congrArg Request.status same_req)⟩

theorem RequestsInOrder.installs (inOrder : el.RequestsInOrder) (conn : ConnId) (held : Held)
    (fresh : ∀ task ∈ el.pending, task.conn ≠ conn) :
    RequestsInOrder { el.put conn held with
      loop := .accepting
      installs := Function.update el.installs conn (el.installs conn + 1) } where
  current task inside := by
    have same := inOrder.current task inside
    rw [same]
    simp [occupant, Function.update_of_ne (fresh task inside)]
  complete task inside descriptor := by
    simp only [put_connections, Function.update_of_ne (fresh task inside)] at descriptor ⊢
    exact inOrder.complete task inside descriptor
  ordered := inOrder.ordered
  nodup := inOrder.nodup
  numbered task inside := by
    have numbered := inOrder.numbered task inside
    by_cases same : task.conn = conn
    · simp only [same, Function.update_self] at numbered ⊢
      exact Nat.le_succ_of_le numbered
    · simpa [same] using numbered
  receiving other descriptor receiving := by
    by_cases same : other = conn
    · subst same
      intro inside
      have numbered := inOrder.numbered _ inside
      simp only [occupant, Function.update_self] at numbered
      exact absurd numbered (Nat.not_succ_le_self _)
    · simp only [put_connections, Function.update_of_ne same] at descriptor receiving
      simpa [occupant, same] using inOrder.receiving other descriptor receiving
  own := inOrder.own

/-- `TaskPush`: a completed request is pushed for the session that it belongs to. -/
theorem RequestsInOrder.pushes (inOrder : el.RequestsInOrder) (conn : ConnId) {held : Held}
    (receiving : (el.connections conn).req.Receiving)
    (descriptor : 0 ≤ (el.connections conn).fd)
    (received : held.connection.req.status = .bodyReceived) :
    ((el.put conn held).taskPush conn true).RequestsInOrder := by
  have unpushed : el.occupant conn ∉ el.pushed := inOrder.receiving conn descriptor receiving
  have pending_eq : ((el.put conn held).taskPush conn true).pending =
      el.pending ++ [el.occupant conn] := (List.append_assoc ..).symm
  exact {
    current := by
      intro task inside
      rw [pending_eq] at inside
      rcases List.mem_append.mp inside with earlier | added
      · exact inOrder.current task earlier
      · rw [List.mem_singleton.mp added]
        rfl
    complete := by
      intro task inside open_fd
      rw [pending_eq] at inside
      simp only [taskPush, if_true, put_connections] at open_fd ⊢
      by_cases same : task.conn = conn
      · simpa [same] using received
      · simp only [Function.update_of_ne same] at open_fd ⊢
        rcases List.mem_append.mp inside with earlier | added
        · exact inOrder.complete task earlier open_fd
        · exact (same (congrArg Session.conn (List.mem_singleton.mp added))).elim
    ordered := by
      rw [pending_eq, ← List.append_assoc]
      exact inOrder.ordered.append (List.Sublist.refl _)
    nodup := by
      simp only [taskPush, if_true, put_pushed]
      refine List.nodup_append.mpr ⟨inOrder.nodup, List.nodup_singleton _, ?_⟩
      intro task earlier added appended same
      exact unpushed (List.mem_singleton.mp appended ▸ same ▸ earlier)
    numbered := by
      intro task inside
      simp only [taskPush, if_true, put_pushed] at inside
      rcases List.mem_append.mp inside with earlier | added
      · exact inOrder.numbered task earlier
      · rw [List.mem_singleton.mp added]
        exact Nat.le_refl _
    receiving := by
      intro other open_fd still
      simp only [taskPush, if_true, put_connections] at open_fd still
      by_cases same : other = conn
      · subst same
        simp only [Function.update_self] at still
        exact (not_receiving_of_bodyReceived received still).elim
      · simp only [Function.update_of_ne same] at open_fd still
        have absent := inOrder.receiving other open_fd still
        simp only [taskPush, if_true, put_pushed, List.mem_append, List.mem_singleton, not_or]
        refine ⟨absent, ?_⟩
        intro occupants
        exact same (congrArg Session.conn occupants)
    own := inOrder.own }

theorem RequestsInOrder.reads (inOrder : el.RequestsInOrder) (conn : ConnId)
    {read : OnReadResult} (effect : (el.hold conn).ReadEffect read) :
    RequestsInOrder { ((el.put conn read.held).taskPush conn read.pushed).wsTaskPush conn
      read.wsPushed with loop := .between } := by
  have pushes : ((el.put conn read.held).taskPush conn read.pushed).RequestsInOrder := by
    cases push : read.pushed with
    | false =>
        refine inOrder.keeps conn read.held el.batch el.timeout ?_
        rcases effect.quiet push with gone | status
        · exact .inl gone
        · exact effect.fd.imp_right fun same => ⟨same, status⟩
    | true =>
        obtain ⟨receiving, descriptor, received⟩ := effect.pushed push
        exact inOrder.pushes conn receiving descriptor received
  exact ⟨pushes.current, pushes.complete, pushes.ordered, pushes.nodup, pushes.numbered,
    pushes.receiving, pushes.own⟩

theorem RequestsInOrder.takesTask (inOrder : el.RequestsInOrder) {task : Session}
    {rest : List Session} (idle : el.worker = none) (queued : el.taskQue = task :: rest) :
    RequestsInOrder { el with taskQue := rest, worker := some task } := by
  have pending_eq : pending { el with taskQue := rest, worker := some task } = el.pending := by
    simp [pending, idle, queued]
  exact {
    current := by
      rw [pending_eq]
      exact inOrder.current
    complete := by
      rw [pending_eq]
      exact inOrder.complete
    ordered := by
      rw [pending_eq]
      exact inOrder.ordered
    nodup := inOrder.nodup
    numbered := inOrder.numbered
    receiving := inOrder.receiving
    own := inOrder.own }

theorem RequestsInOrder.dropsTask (inOrder : el.RequestsInOrder) {task : Session}
    (held_task : el.worker = some task) : RequestsInOrder { el with worker := none } := by
  have pending_eq : el.pending = task :: el.taskQue := by simp [pending, held_task]
  exact {
    current := by
      intro other inside
      exact inOrder.current other (pending_eq ▸ List.mem_cons_of_mem task inside)
    complete := by
      intro other inside
      exact inOrder.complete other (pending_eq ▸ List.mem_cons_of_mem task inside)
    ordered := by
      have ordered := inOrder.ordered
      rw [pending_eq] at ordered
      exact ((List.sublist_cons_self task _).append_left _).trans ordered
    nodup := inOrder.nodup
    numbered := inOrder.numbered
    receiving := inOrder.receiving
    own := inOrder.own }

theorem RequestsInOrder.runsTask (inOrder : el.RequestsInOrder) {task : Session} {held : Held}
    (held_task : el.worker = some task) (descriptor : ¬ (el.connections task.conn).fd < 0)
    (handled : (el.hold task.conn).Handled held) :
    RequestsInOrder { el.put task.conn held with
      worker := none
      runs := el.runs ++
        [⟨task, el.occupant task.conn, (el.connections task.conn).req.status⟩] } := by
  have pending_eq : el.pending = task :: el.taskQue := by simp [pending, held_task]
  have first : task ∈ el.pending := by simp [pending_eq]
  have current := inOrder.current task first
  have complete := inOrder.complete task first (Int.not_lt.mp descriptor)
  have ordered := inOrder.ordered
  have nodup := (List.nodup_append.mp (inOrder.nodup.sublist ordered)).2.1
  rw [pending_eq] at ordered nodup
  have later_pending : ∀ other ∈ el.taskQue, other ∈ el.pending := by
    intro other inside
    simp [pending_eq, inside]
  have others : ∀ other ∈ el.taskQue, other.conn ≠ task.conn := by
    intro other inside same
    have again := inOrder.current other (later_pending other inside)
    rw [same, ← current] at again
    exact (List.nodup_cons.mp nodup).1 (again ▸ inside)
  exact {
    current := fun other inside => inOrder.current other (later_pending other inside)
    complete := by
      intro other inside open_fd
      simp only [put_connections, Function.update_of_ne (others other inside)] at open_fd ⊢
      exact inOrder.complete other (later_pending other inside) open_fd
    ordered := by simpa [pending] using ordered
    nodup := inOrder.nodup
    numbered := inOrder.numbered
    receiving := by
      intro other open_fd receiving
      by_cases same : other = task.conn
      · subst same
        simp only [put_connections, Function.update_self] at open_fd receiving
        rcases handled with gone | ⟨-, same_status | upgraded⟩
        · omega
        · have received := same_status.trans complete
          exact (not_receiving_of_bodyReceived received receiving).elim
        · exact (not_receiving_of_upgrade upgraded receiving).elim
      · simp only [put_connections, Function.update_of_ne same] at open_fd receiving
        exact inOrder.receiving other open_fd receiving
    own := by
      intro run inside
      rcases List.mem_append.mp inside with earlier | added
      · exact inOrder.own run earlier
      · rw [List.mem_singleton.mp added]
        exact ⟨current.symm, complete⟩ }

theorem RequestsInOrder.initial (config : Config) : (initial config).RequestsInOrder := by
  constructor <;> simp [EventLoop.initial, pending]

/-- A step without a stale task keeps the requests in order. -/
theorem RequestsInOrder.step (inOrder : el.RequestsInOrder) {action : Action}
    (ofHttp : el.OfHttp action) (fresh : el.NoStaleTask action)
    (stepped : el.step config action = some later) : later.RequestsInOrder := by
  cases effect_of_step stepped with
  | moves | pops =>
      exact ⟨inOrder.current, inOrder.complete, inOrder.ordered, inOrder.nodup,
        inOrder.numbered, inOrder.receiving, inOrder.own⟩
  | writes conn writes onClose held writing => exact inOrder.kept (Held.kept_onWrite writing) ..
  | expires conn now onClose held reset =>
      exact inOrder.kept (Held.kept_resetConnection reset) ..
  | sends conn data writes =>
      exact inOrder.kept (Held.kept_send (el.hold conn) data writes) el.batch el.timeout
  | installs conn clifd addr now ready => exact inOrder.installs conn _ fresh
  | reads conn input read reading => exact inOrder.reads conn (Held.readEffect_onRead reading)
  | takesTask task rest idle queued => exact inOrder.takesTask idle queued
  | dropsTask input task held_task => exact inOrder.dropsTask held_task
  | runsTask input task held held_task descriptor worked =>
      exact inOrder.runsTask held_task descriptor (Held.handled_work worked)
  | takesWsTask | dropsWsTask | runsWsTask => exact ofHttp.elim

/-- As long as no stale task is left when a connection is handed out, the worker handles
every request at most once and only for its own client. -/
theorem runsOwnRequests_of_noStaleTask {config : Config} {el : EventLoop}
    (reached : Reaches (EventLoop.step config)
      (fun state action => state.OfHttp action ∧ state.NoStaleTask action) (initial config) el) :
    el.RunsOwnRequests := by
  have inOrder : el.RequestsInOrder := by
    refine reached.invariant (RequestsInOrder.initial config) ?_
    intro state action later inOrder permitted stepped
    exact inOrder.step permitted.1 permitted.2 stepped
  exact inOrder.runsOwnRequests

def plainConfig : Config where
  limits := ⟨2048, 8192, fun _ => []⟩
  routes := fun _ => none
  tls := false
  idleTimeout := 30
  maxWorkerConnections := 1024

/-- What `OnRead` finds at the time `now`, on a socket that takes no output. -/
def arrival (now : Int) (reads : List ReadResult) : ReadInput := ⟨now, [], reads, [], []⟩

def accepting (clifd now : Int) : List Action :=
  [.poll [.listening], .beginAccept, .accepted clifd, .install 0 clifd 0 now true, .wouldBlock]

def reading (input : ReadInput) : List Action :=
  [.poll [.readable 0], .updateErase 0, .updatePush 0, .onRead 0 input]

/-- `GET / H` and a blank line. -/
def smallRequest : List ReadResult :=
  [.delivered 71 [69, 84, 32, 47, 32, 72, 13, 10, 13, 10]]

/-- A request is answered with 404. -/
theorem runsOwnRequests_small : ∃ el : EventLoop,
    el.runs = [⟨⟨0, 1⟩, ⟨0, 1⟩, .bodyReceived⟩] ∧ el.RunsOwnRequests := by
  have runs : (replay (EventLoop.step plainConfig)
      (fun state action => state.OfHttp action ∧ state.NoStaleTask action) (initial plainConfig)
      (accepting 5 1 ++ reading (arrival 2 smallRequest) ++
        [.takeTask, .runTask ⟨[], [], [], []⟩])).map (·.runs) =
      some [⟨⟨0, 1⟩, ⟨0, 1⟩, .bodyReceived⟩] := by decide +kernel
  obtain ⟨el, replayed, el_runs⟩ := Option.map_eq_some_iff.mp runs
  exact ⟨el, el_runs, runsOwnRequests_of_noStaleTask (reaches_of_replay replayed)⟩

/-- A client sends a request and goes away before the worker takes its task; the next
client is answered before it has sent anything. -/
theorem not_runsOwnRequests_next_client :
    ¬ ∀ (config : Config) (el : EventLoop),
      Reaches (EventLoop.step config) OfHttp (initial config) el → el.RunsOwnRequests := by
  intro own
  have runs : (replay (EventLoop.step plainConfig) OfHttp (initial plainConfig)
      (accepting 5 1 ++ reading (arrival 2 smallRequest) ++ reading (arrival 3 []) ++
        accepting 6 4 ++ [.takeTask, .runTask ⟨[], [], [], []⟩])).map (·.runs) =
      some [⟨⟨0, 1⟩, ⟨0, 2⟩, .headerReceiving⟩] := by decide +kernel
  obtain ⟨el, replayed, el_runs⟩ := Option.map_eq_some_iff.mp runs
  have owned := (own plainConfig el (reaches_of_replay replayed)).own
    ⟨⟨0, 1⟩, ⟨0, 2⟩, .headerReceiving⟩ (by simp [el_runs])
  simp at owned

end Mevent.EventLoop
