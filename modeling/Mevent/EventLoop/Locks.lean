import Mathlib.Data.Fin.VecNotation
import Mathlib.Algebra.Order.Monoid.Unbundled.WithTop
import Mevent.Library.LockOrder
import Mevent.Pool.Model

/-!
# The mutexes

Which mutexes each function takes and releases, in which order: a set of sequences for each
of them, where a branch of the source is a sum and a loop a star.  The functions of the
application, which are called under the lock of their connection, are parameters.
-/

namespace Mevent

open Library LockOp
open scoped Computability

abbrev LoopId := Nat

/-- The mutexes: `mtx_` of a connection, `task_cond_mtx_` and `ws_task_cond_mtx_`,
`free_list_mtx_` and `active_list_mtx_` of a pool, `log_mtx`, and those of the application. -/
inductive Mutex where
  | connection (loop : LoopId) (conn : ConnId)
  | application (number : Nat)
  | task (loop : LoopId)
  | wsTask (loop : LoopId)
  | freeList (loop : LoopId)
  | activeList (loop : LoopId)
  | log
  deriving DecidableEq, Repr

/-- A connection's lock comes first, then those of the application by number, then all
others. -/
def Mutex.rank : Mutex → WithTop Nat
  | .connection _ _ => (0 : Nat)
  | .application number => (number + 1 : Nat)
  | _ => ⊤

abbrev Behaviour := Language (LockOp Mutex)

/-- The functions of an application: the handlers, each for a connection of an event loop,
and the routines of threads of its own. -/
structure Application where
  handleFunc : LoopId → ConnId → Behaviour
  onMessageFunc : LoopId → ConnId → Behaviour
  pingFunc : LoopId → ConnId → Behaviour
  pongFunc : LoopId → ConnId → Behaviour
  onCloseFunc : LoopId → ConnId → Behaviour
  routine : Behaviour

/-- The handlers keep to the order under the lock of their connection, and the routines
without one. -/
structure Application.Orderly (app : Application) : Prop where
  handleFunc : ∀ loop conn, Keeps Mutex.rank [.connection loop conn] (app.handleFunc loop conn)
  onMessageFunc :
    ∀ loop conn, Keeps Mutex.rank [.connection loop conn] (app.onMessageFunc loop conn)
  pingFunc : ∀ loop conn, Keeps Mutex.rank [.connection loop conn] (app.pingFunc loop conn)
  pongFunc : ∀ loop conn, Keeps Mutex.rank [.connection loop conn] (app.pongFunc loop conn)
  onCloseFunc : ∀ loop conn, Keeps Mutex.rank [.connection loop conn] (app.onCloseFunc loop conn)
  routine : Keeps Mutex.rank [] app.routine

namespace Locks

/-- `LogDebug`. -/
def logDebug : Behaviour := guarded .log 1

section Pool

variable (loop : LoopId)

/-- `ConnectionPool::FreeListPop`. -/
def freeListPop : Behaviour := guarded (.freeList loop) 1

/-- `ConnectionPool::FreeListPush`. -/
def freeListPush : Behaviour := guarded (.freeList loop) 1

/-- `ConnectionPool::ActiveListPush`. -/
def activeListPush : Behaviour := guarded (.activeList loop) 1

/-- `ConnectionPool::ActiveListErase`. -/
def activeListErase : Behaviour := guarded (.activeList loop) 1

/-- `ConnectionPool::ActiveListUpdate`. -/
def activeListUpdate : Behaviour := activeListErase loop * activeListPush loop

/-- `ConnectionPool::ActiveListEmpty`. -/
def activeListEmpty : Behaviour := guarded (.activeList loop) 1

/-- `ConnectionPool::ActiveListTimeoutCheck`. -/
def activeListTimeoutCheck : Behaviour := guarded (.activeList loop) 1

/-- `ConnectionPool::ActiveListCheckNext`. -/
def activeListCheckNext : Behaviour := guarded (.activeList loop) 1

/-- `EventLoop::TaskPush`. -/
def taskPush : Behaviour := guarded (.task loop) 1

/-- `EventLoop::WebSocketTaskPush`. -/
def webSocketTaskPush : Behaviour := guarded (.wsTask loop) 1

/-- `Connection::ReadData`: `Request::ReadData` pushes a task when the request is complete,
`WebSocket::Parse` one for each frame. -/
def readData : Behaviour := 1 + taskPush loop + (webSocketTaskPush loop)∗

/-- What `Accept` does under the lock of a connection: each branch that sets `status` to
`false` logs it. -/
def install : Behaviour := logDebug * freeListPush loop + activeListPush loop

/-- `EventLoop::Accept`, which logs that the pool has no connection left. -/
def accept : Behaviour :=
  (freeListPop loop * ⨆ conn, guarded (.connection loop conn) (install loop))∗ *
    (1 + freeListPop loop * logDebug)

end Pool

section Connection

variable (app : Application) (loop : LoopId) (conn : ConnId)

/-- `EventLoop::OnClose`. -/
def onClose : Behaviour := 1 + app.onCloseFunc loop conn

/-- `EventLoop::ResetConnection`. -/
def resetConnection : Behaviour :=
  1 + onClose app loop conn * freeListPush loop * activeListErase loop

/-- `EventLoop::OnRead`. -/
def onRead : Behaviour := readData loop * (1 + resetConnection app loop conn)

/-- `EventLoop::OnWrite`. -/
def onWrite : Behaviour := 1 + resetConnection app loop conn

/-- What `Loop` does with an event of a connection. -/
def event : Behaviour :=
  activeListUpdate loop * guarded (.connection loop conn) (onRead app loop conn) +
    guarded (.connection loop conn) (onWrite app loop conn)

/-- What `WorkerThread` does with a task under the connection's lock. -/
def work : Behaviour :=
  1 + (1 + app.handleFunc loop conn) * (1 + resetConnection app loop conn)

/-- The handler that `WebSocketWorkerThread` calls for the opcode of an item. -/
def handleMessage : Behaviour :=
  1 + app.onMessageFunc loop conn + app.pingFunc loop conn + app.pongFunc loop conn +
    app.onCloseFunc loop conn

/-- What `WebSocketWorkerThread` does with an item under the connection's lock. -/
def wsWork : Behaviour := 1 + handleMessage app loop conn * (1 + resetConnection app loop conn)

/-- What `CheckConnectionTimeout` does in its inner loop under the connection's lock. -/
def expire : Behaviour := 1 + logDebug * resetConnection app loop conn

/-- The functions of `WebSocket` that take the lock themselves: `SendPongSafe`,
`SendPingSafe`, `WriteStringSafe` and `WriteRawDataSafe`. -/
def safeCall : Behaviour := guarded (.connection loop conn) 1

end Connection

section Rounds

variable (app : Application) (loop : LoopId)

/-- A round of the loop of `EventLoop::Loop`: one event. -/
def loopThread : Behaviour := accept loop + ⨆ conn, event app loop conn

/-- A round of `WorkerThread`.  A thread that waits for `task_cond_` holds no mutex; the
round behind the wait is another one, which ends with `continue`. -/
def workerThread : Behaviour :=
  guarded (.task loop) 1 * (1 + ⨆ conn, guarded (.connection loop conn) (work app loop conn))

/-- A round of `WebSocketWorkerThread`. -/
def webSocketWorkerThread : Behaviour :=
  guarded (.wsTask loop) 1 *
    (1 + ⨆ conn, guarded (.connection loop conn) (wsWork app loop conn))

/-- A round of `CheckConnectionTimeout`. -/
def checkConnectionTimeout : Behaviour :=
  activeListTimeoutCheck loop * activeListCheckNext loop *
    (activeListEmpty loop +
      (⨆ conn, guarded (.connection loop conn) 1) *
        ((⨆ conn, guarded (.connection loop conn) (expire app loop conn)) *
          (1 + activeListCheckNext loop))∗)

end Rounds

end Locks

open Locks

inductive Role where
  | loop (loop : LoopId)
  | worker (loop : LoopId)
  | webSocketWorker (loop : LoopId)
  | timeout (loop : LoopId)
  | application
  deriving DecidableEq, Repr

def Role.rounds (app : Application) : Role → Behaviour
  | .loop eventLoop => loopThread app eventLoop
  | .worker eventLoop => workerThread app eventLoop
  | .webSocketWorker eventLoop => webSocketWorkerThread app eventLoop
  | .timeout eventLoop => checkConnectionTimeout app eventLoop
  | .application => app.routine

/-- Each thread runs the rounds of its role. -/
def Runs {Thread : Type} (app : Application) (role : Thread → Role)
    (_ : Threads Thread Mutex) : Threads.Move Thread Mutex → Prop
  | .begins thread routine => routine ∈ (role thread).rounds app
  | .proceeds _ => True

namespace Locks

section Leaves

variable {mutex : Mutex} {held : List Mutex}

theorem keeps_leaf (top : mutex.rank = ⊤) (below : ∀ other ∈ held, other.rank < ⊤) :
    Keeps Mutex.rank held (guarded mutex 1) := by
  refine keeps_guarded (fun other membership => ?_) keeps_one
  rw [top]
  exact below other membership

theorem below_nil : ∀ other ∈ ([] : List Mutex), other.rank < ⊤ := by
  intro other membership
  cases membership

theorem below_connection (loop : LoopId) (conn : ConnId) :
    ∀ other ∈ [Mutex.connection loop conn], other.rank < ⊤ := by
  intro other membership
  rw [List.mem_singleton.mp membership]
  exact WithTop.coe_lt_top 0

theorem keeps_connection {loop : LoopId} {conn : ConnId} {body : Behaviour}
    (keeps : Keeps Mutex.rank [.connection loop conn] body) :
    Keeps Mutex.rank [] (guarded (.connection loop conn) body) :=
  keeps_guarded (fun other membership => by cases membership) keeps

end Leaves

section Functions

variable {app : Application} (orderly : app.Orderly) (loop : LoopId) (conn : ConnId)

theorem keeps_accept : Keeps Mutex.rank [] (accept loop) := by
  have installs : ∀ conn, Keeps Mutex.rank [.connection loop conn] (install loop) := by
    intro conn
    have below := below_connection loop conn
    exact ((keeps_leaf rfl below).mul (keeps_leaf rfl below)).add (keeps_leaf rfl below)
  refine Keeps.mul (Keeps.kstar ?_) (keeps_one.add ?_)
  · exact (keeps_leaf rfl below_nil).mul (keeps_iSup fun conn => keeps_connection (installs conn))
  · exact (keeps_leaf rfl below_nil).mul (keeps_leaf rfl below_nil)

include orderly

theorem keeps_resetConnection :
    Keeps Mutex.rank [.connection loop conn] (resetConnection app loop conn) := by
  have below := below_connection loop conn
  have closes := keeps_one.add (orderly.onCloseFunc loop conn)
  exact keeps_one.add ((closes.mul (keeps_leaf rfl below)).mul (keeps_leaf rfl below))

theorem keeps_onRead : Keeps Mutex.rank [.connection loop conn] (onRead app loop conn) := by
  have below := below_connection loop conn
  have reads : Keeps Mutex.rank [.connection loop conn] (readData loop) :=
    (keeps_one.add (keeps_leaf rfl below)).add (keeps_leaf rfl below).kstar
  exact reads.mul (keeps_one.add (keeps_resetConnection orderly loop conn))

theorem keeps_event : Keeps Mutex.rank [] (event app loop conn) := by
  have updates : Keeps Mutex.rank [] (activeListUpdate loop) :=
    (keeps_leaf rfl below_nil).mul (keeps_leaf rfl below_nil)
  have writes : Keeps Mutex.rank [.connection loop conn] (onWrite app loop conn) :=
    keeps_one.add (keeps_resetConnection orderly loop conn)
  exact (updates.mul (keeps_connection (keeps_onRead orderly loop conn))).add
    (keeps_connection writes)

theorem keeps_work : Keeps Mutex.rank [.connection loop conn] (work app loop conn) := by
  have handles := keeps_one.add (orderly.handleFunc loop conn)
  exact keeps_one.add (handles.mul (keeps_one.add (keeps_resetConnection orderly loop conn)))

theorem keeps_wsWork : Keeps Mutex.rank [.connection loop conn] (wsWork app loop conn) := by
  have handles : Keeps Mutex.rank [.connection loop conn] (handleMessage app loop conn) :=
    (((keeps_one.add (orderly.onMessageFunc loop conn)).add (orderly.pingFunc loop conn)).add
      (orderly.pongFunc loop conn)).add (orderly.onCloseFunc loop conn)
  exact keeps_one.add (handles.mul (keeps_one.add (keeps_resetConnection orderly loop conn)))

theorem keeps_checkConnectionTimeout :
    Keeps Mutex.rank [] (checkConnectionTimeout app loop) := by
  have expires : ∀ conn, Keeps Mutex.rank [.connection loop conn] (expire app loop conn) := by
    intro conn
    have logs : Keeps Mutex.rank [.connection loop conn] logDebug :=
      keeps_leaf rfl (below_connection loop conn)
    exact keeps_one.add (logs.mul (keeps_resetConnection orderly loop conn))
  have next : Keeps Mutex.rank [] (activeListCheckNext loop) := keeps_leaf rfl below_nil
  have scans := ((keeps_iSup fun conn => keeps_connection (expires conn)).mul
    (keeps_one.add next)).kstar
  have peeks : Keeps Mutex.rank [] (⨆ conn, guarded (.connection loop conn) 1) :=
    keeps_iSup fun conn => keeps_connection keeps_one
  exact ((keeps_leaf rfl below_nil).mul next).mul
    ((keeps_leaf rfl below_nil).add (peeks.mul scans))

/-- Every round of every thread keeps to the order. -/
theorem keeps_rounds (role : Role) : Keeps Mutex.rank [] (role.rounds app) := by
  cases role with
  | loop loop =>
      exact (keeps_accept loop).add (keeps_iSup fun conn => keeps_event orderly loop conn)
  | worker loop =>
      exact (keeps_leaf rfl below_nil).mul
        (keeps_one.add (keeps_iSup fun conn => keeps_connection (keeps_work orderly loop conn)))
  | webSocketWorker loop =>
      exact (keeps_leaf rfl below_nil).mul
        (keeps_one.add (keeps_iSup fun conn => keeps_connection (keeps_wsWork orderly loop conn)))
  | timeout loop => exact keeps_checkConnectionTimeout orderly loop
  | application => exact orderly.routine

end Functions

end Locks

section Server

variable {Thread : Type} [Fintype Thread] [DecidableEq Thread] {role : Thread → Role}
  {app : Application} {state later : Threads Thread Mutex}

/-- The threads of a server whose application is orderly keep to the order in every run. -/
theorem orderly_of_runs (orderly : app.Orderly)
    (reached : Reaches Threads.step (Runs app role) Threads.idle state) :
    state.Orderly Mutex.rank ∧ state.Exclusive := by
  refine Threads.orderly_of_reaches (reached.mono fun _ move runs => ?_)
  cases move with
  | begins thread routine =>
      exact (Locks.keeps_rounds orderly (role thread) routine runs).ordered
  | proceeds thread => trivial

/-- Mutual exclusion and no deadlock: in every state that the threads of a server reach, no
two of them hold the same mutex, none waits for itself along a chain, and all rounds that
have been begun can come to an end. -/
theorem Application.Orderly.server_finishes (orderly : app.Orderly)
    (reached : Reaches Threads.step (Runs app role) Threads.idle state) :
    state.Exclusive ∧ (∀ thread, ¬ Relation.TransGen state.Waits thread thread) ∧
      Relation.ReflTransGen (flip Threads.Proceeds) state Threads.idle := by
  obtain ⟨keeps, exclusive⟩ := orderly_of_runs orderly reached
  exact ⟨exclusive, keeps.not_waits, keeps.finishes⟩

/-- A thread that calls one of the functions that take the lock themselves on a connection whose
lock it holds, as a handler does with its own connection, never gets past that call; and when it
has come to the call, every other thread that is to take the lock hangs. -/
theorem Locks.hangs_of_safeCall {thread : Thread} {loop : LoopId} {conn : ConnId}
    {before safe behind : List (LockOp Mutex)} (call : safe ∈ safeCall loop conn)
    (round : state.todo thread = before ++ (safe ++ behind))
    (own : .connection loop conn ∈ after (state.held thread) before)
    (reached : Reaches Threads.step (Runs app role) state later) :
    (∃ ahead, later.todo thread = ahead ++ (safe ++ behind)) ∧
      (later.todo thread = safe ++ behind → ∀ other rest,
        later.todo other = .acquire (.connection loop conn) :: rest → ∀ final,
          Reaches Threads.step (Runs app role) later final →
            final.todo other = later.todo other) := by
  obtain ⟨inner, rfl, rfl⟩ := mem_guarded.mp call
  have again : state.TakesAgain thread (.connection loop conn) _ := ⟨before, round, own⟩
  obtain ⟨ahead, next, holds⟩ := again.of_reaches reached
  refine ⟨⟨ahead, next⟩, fun there other rest wants final continued => ?_⟩
  -- the thread stands before the call, so that nothing is ahead of it
  have arrived : ahead = [] := List.append_left_eq_self.mp (next.symm.trans there)
  subst arrived
  have waits : ∀ waiting rest, later.todo waiting =
      .acquire (.connection loop conn) :: rest → later.Waits waiting thread :=
    fun waiting rest wanted => ⟨_, rest, wanted, holds⟩
  have hung : later.Hung {thread, other} := by
    intro waiting membership
    refine ⟨thread, Set.mem_insert thread {other}, ?_⟩
    rcases membership with rfl | rfl
    · exact waits waiting _ there
    · exact waits waiting rest wants
  exact ((hung.of_reaches continued).2 other (Set.mem_insert_of_mem thread rfl)).2

end Server

namespace Locks

/-- An application whose handlers call `WriteStringSafe` on their connection. -/
def selfish : Application where
  handleFunc := safeCall
  onMessageFunc := safeCall
  pingFunc := safeCall
  pongFunc := safeCall
  onCloseFunc := safeCall
  routine := 1

def selfCall : Threads (Fin 2) Mutex where
  held := ![[.connection 0 0], []]
  todo := ![[.acquire (.connection 0 0), .release (.connection 0 0),
      .release (.connection 0 0)],
    [.acquire (.connection 0 0), .release (.connection 0 0)]]

theorem hangs_of_safeCall_selfCall :
    (∃ ahead, selfCall.todo 0 = ahead ++ ([.acquire (.connection 0 0),
        .release (.connection 0 0)] ++ [.release (.connection 0 0)])) ∧
      (selfCall.todo 0 = [.acquire (.connection 0 0), .release (.connection 0 0)] ++
          [.release (.connection 0 0)] → ∀ other rest,
        selfCall.todo other = .acquire (.connection 0 0) :: rest → ∀ final,
          Reaches Threads.step (Runs selfish ![.worker 0, .loop 0]) selfCall final →
            final.todo other = selfCall.todo other) :=
  hangs_of_safeCall (show _ ∈ safeCall 0 0 from mem_guarded.mpr ⟨[], rfl, rfl⟩)
    (show selfCall.todo 0 = [] ++ _ from rfl) (List.mem_singleton.mpr rfl) .refl

end Locks

end Mevent
