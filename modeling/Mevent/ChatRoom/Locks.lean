import Mevent.EventLoop.Locks

/-!
# The mutexes of the chat room

The handlers of `ChatRoom` and its `TaskThread`, for a server that runs them.
-/

namespace Mevent.ChatRoom

open Library LockOp Locks
open scoped Computability

/-- `clients_mtx_`. -/
def clientsMtx : Mutex := .application 0

/-- `task_mtx_`. -/
def taskMtx : Mutex := .application 1

namespace Locks

/-- Both functions `ChatRoom::TaskPush`. -/
def taskPush : Behaviour := guarded taskMtx 1

/-- `ChatRoom::OnClose`. -/
def onClose : Behaviour := guarded clientsMtx 1

/-- `ChatRoom::OnMessage`. -/
def onMessage : Behaviour := 1 + taskPush

/-- `ChatRoom::Publish`. -/
def publish : Behaviour := 1 + taskPush

/-- `ChatRoom::Subscribe`, which returns early when `Upgrade` fails. -/
def subscribe : Behaviour := 1 + guarded clientsMtx 1

/-- A round of `ChatRoom::TaskThread`, which calls `WriteRawDataSafe` for each client. -/
def taskThread : Behaviour :=
  guarded taskMtx 1 *
    (1 + guarded clientsMtx 1 * (1 + (⨆ loop, ⨆ conn, safeCall loop conn)∗))

end Locks

/-- What `main` registers.  `Index` and `Ping` take no mutex. -/
def application : Application where
  handleFunc := fun _ _ => 1 + Locks.subscribe + Locks.publish
  onMessageFunc := fun _ _ => Locks.onMessage
  pingFunc := fun _ _ => 1
  pongFunc := fun _ _ => 1
  onCloseFunc := fun _ _ => Locks.onClose
  routine := Locks.taskThread

theorem keeps_application (number : Nat) (loop : LoopId) (conn : ConnId) :
    Keeps Mutex.rank [.connection loop conn] (guarded (.application number) 1) := by
  refine keeps_guarded (fun other membership => ?_) keeps_one
  rw [List.mem_singleton.mp membership]
  exact WithTop.coe_lt_coe.mpr number.succ_pos

/-- `TaskThread` holds no other mutex when it takes one. -/
theorem keeps_taskThread : Keeps Mutex.rank [] Locks.taskThread := by
  have alone : ∀ mutex, Keeps Mutex.rank [] (guarded mutex 1) := fun mutex =>
    keeps_guarded (fun other membership => by cases membership) keeps_one
  have sends : Keeps Mutex.rank [] (⨆ loop, ⨆ conn, safeCall loop conn) :=
    keeps_iSup fun loop => keeps_iSup fun conn => alone (.connection loop conn)
  exact (alone taskMtx).mul (keeps_one.add ((alone clientsMtx).mul (keeps_one.add sends.kstar)))

theorem orderly : application.Orderly where
  handleFunc := fun loop conn =>
    (keeps_one.add (keeps_one.add (keeps_application 0 loop conn))).add
      (keeps_one.add (keeps_application 1 loop conn))
  onMessageFunc := fun loop conn => keeps_one.add (keeps_application 1 loop conn)
  pingFunc := fun _ _ => keeps_one
  pongFunc := fun _ _ => keeps_one
  onCloseFunc := fun loop conn => keeps_application 0 loop conn
  routine := keeps_taskThread

def roles : Fin 9 → Role :=
  ![.loop 0, .worker 0, .webSocketWorker 0, .timeout 0,
    .loop 1, .worker 1, .webSocketWorker 1, .timeout 1, .application]

/-- `Publish` pushes a message. -/
theorem publishes : [.acquire (.task 0), .release (.task 0), .acquire (.connection 0 0),
    .acquire taskMtx, .release taskMtx, .release (.connection 0 0)] ∈
      (Role.worker 0).rounds application := by
  have pushes : [.acquire taskMtx, .release taskMtx] ∈ Locks.publish :=
    .inr (mem_guarded.mpr ⟨[], rfl, rfl⟩)
  have handles : [.acquire taskMtx, .release taskMtx] ∈ work application 0 0 :=
    .inr ⟨_, .inr (.inr pushes), [], .inl rfl, rfl⟩
  refine ⟨[_, _], mem_guarded.mpr ⟨[], rfl, rfl⟩, _, .inr ?_, rfl⟩
  exact Language.mem_iSup.mpr ⟨0, mem_guarded.mpr ⟨_, handles, rfl⟩⟩

/-- `TaskThread` finds no message. -/
theorem findsNothing :
    [.acquire taskMtx, .release taskMtx] ∈ Role.application.rounds application :=
  ⟨_, mem_guarded.mpr ⟨[], rfl, rfl⟩, [], .inl rfl, rfl⟩

theorem goesOn {state later : Threads (Fin 9) Mutex}
    (reached : Reaches Threads.step (Runs application roles) Threads.idle state) (thread : Fin 9)
    (proceeded : state.proceed thread = some later) :
    Reaches Threads.step (Runs application roles) Threads.idle later :=
  reached.next (.proceeds thread) trivial proceeded

/-- `TaskThread` has taken `task_mtx_` when `Publish` is to push a message. -/
theorem chatRoom_finishes : ∃ state : Threads (Fin 9) Mutex, state.Waits 1 8 ∧
    state.Exclusive ∧ (∀ thread, ¬ Relation.TransGen state.Waits thread thread) ∧
      Relation.ReflTransGen (flip Threads.Proceeds) state Threads.idle := by
  have begun : Reaches Threads.step (Runs application roles) Threads.idle _ :=
    .next (.begins 1 _) (.next (.begins 8 _) .refl findsNothing rfl) publishes rfl
  have holding := goesOn (goesOn (goesOn begun 1 rfl) 1 rfl) 1 rfl
  have arrived := goesOn holding 8 rfl
  exact ⟨_, ⟨taskMtx, _, rfl, List.mem_cons_self⟩, orderly.server_finishes arrived⟩

end Mevent.ChatRoom
