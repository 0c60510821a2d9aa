import Mevent.Pool.Lists
import Mevent.Library.Transition

/-!
# The threads of an event loop, as the pool sees them

Every section under one of the pool's two mutexes is a step of its own, so that
`ActiveListUpdate` takes two steps, and so does the part of `ResetConnection` that
works on the pool.  What a thread reads, writes and parses under a connection's lock
is left out: it may or may not end in `ResetConnection`, and so may every handler.
-/

namespace Mevent.Pool

open Library

inductive Thread where
  | loop
  | worker
  | wsWorker
  | timeout
  deriving DecidableEq, Repr

def Thread.all : List Thread := [.loop, .worker, .wsWorker, .timeout]

/-- What a thread does while it holds a connection's lock: `Accept` in front of
`ActiveListPush` or `FreeListPush`; any thread with a number of `ResetConnection`s that
are still in `OnClose`; any thread in `ResetConnection` between `FreeListPush` and
`ActiveListErase`. -/
inductive Phase where
  | installing
  | running (resets : Nat)
  | erasing (resets : Nat)
  deriving DecidableEq, Repr

/-- A section of code under `mtx_` of `conn`. -/
structure Section where
  conn : ConnId
  phase : Phase
  deriving DecidableEq, Repr

/-- An event of a batch.  The loop looks at `MEVENT_OUT` only where `MEVENT_IN` is not
set. -/
inductive Event where
  | listening
  | readable (conn : ConnId)
  | writable (conn : ConnId)
  deriving DecidableEq, Repr

/-- Where the loop thread is while it holds no connection's lock: between two events,
in front of `accept`, behind `FreeListPop`, inside `ActiveListUpdate`, and behind it. -/
inductive LoopPoint where
  | between
  | accepting
  | popped (conn : ConnId) (clifd : Int)
  | moving (conn : ConnId)
  | moved (conn : ConnId)
  deriving DecidableEq, Repr

/-- The pool, the descriptors and the threads.  `published` records the connections
that `Accept` has put on the active list and that have not been reset since; `found`
is the connection that `CheckConnectionTimeout` looks at. -/
structure Threads where
  pool : ConnectionPool
  fd : ConnId → Int
  published : ConnId → Bool
  batch : List Event
  loop : LoopPoint
  sections : Thread → Option Section
  found : Option ConnId

namespace Threads

/-- Behind the start of the threads in `Loop`. -/
def initial (maxConn : Nat) : Threads where
  pool := .new maxConn
  fd := fun _ => -1
  published := fun _ => false
  batch := []
  loop := .between
  sections := fun _ => none
  found := none

def Unlocked (threads : Threads) (conn : ConnId) : Prop :=
  ∀ thread ∈ Thread.all, (threads.sections thread).map Section.conn ≠ some conn

instance (threads : Threads) (conn : ConnId) : Decidable (threads.Unlocked conn) :=
  inferInstanceAs (Decidable (∀ thread ∈ Thread.all, _))

/-- `Poll` reports only descriptors that are registered, hence open. -/
def Reports (threads : Threads) : Event → Prop
  | .listening => True
  | .readable conn | .writable conn => threads.published conn = true

instance (threads : Threads) : DecidablePred threads.Reports
  | .listening => inferInstanceAs (Decidable True)
  | .readable conn | .writable conn => inferInstanceAs (Decidable (threads.published conn = true))

/-- `fd_` behind `Connection::Reset`. -/
def resetFd (fd : Int) : Int := if 0 < fd then -1 else fd

def enter (threads : Threads) (thread : Thread) (conn : ConnId) (phase : Phase) : Threads :=
  { threads with sections := Function.update threads.sections thread (some ⟨conn, phase⟩) }

def leave (threads : Threads) (thread : Thread) : Threads :=
  { threads with sections := Function.update threads.sections thread none }

section Frames

variable (threads : Threads) (thread : Thread) (conn : ConnId) (phase : Phase)

@[simp]
theorem enter_published : (threads.enter thread conn phase).published = threads.published := rfl

@[simp]
theorem enter_fd : (threads.enter thread conn phase).fd = threads.fd := rfl

@[simp]
theorem enter_loop : (threads.enter thread conn phase).loop = threads.loop := rfl

@[simp]
theorem enter_sections : (threads.enter thread conn phase).sections =
    Function.update threads.sections thread (some ⟨conn, phase⟩) := rfl

@[simp]
theorem leave_fd : (threads.leave thread).fd = threads.fd := rfl

@[simp]
theorem leave_published : (threads.leave thread).published = threads.published := rfl

@[simp]
theorem leave_loop : (threads.leave thread).loop = threads.loop := rfl

@[simp]
theorem leave_sections : (threads.leave thread).sections =
    Function.update threads.sections thread none := rfl

end Frames

/-- Between two events, or between two descriptors in `Accept`. -/
def LoopAt (threads : Threads) (point : LoopPoint) : Prop :=
  threads.loop = point ∧ threads.sections .loop = none

instance (threads : Threads) (point : LoopPoint) : Decidable (threads.LoopAt point) :=
  inferInstanceAs (Decidable (_ ∧ _))

end Threads

inductive Action where
  | poll (events : List Event)
  | beginAccept
  | accepted (clifd : Int)
  | wouldBlock
  | install (conn : ConnId) (clifd : Int)
  | publish (conn : ConnId)
  | refuse (conn : ConnId)
  | updateErase (conn : ConnId)
  | updatePush (conn : ConnId)
  | lockToRead (conn : ConnId)
  | lockToWrite (conn : ConnId)
  | lockToWork (thread : Thread) (conn : ConnId)
  | timeoutCheck
  | checkNext
  | lockToCheck (conn : ConnId)
  | resetConnection (thread : Thread) (conn : ConnId) (resets : Nat)
  | release (thread : Thread) (conn : ConnId) (resets : Nat)
  | unlist (thread : Thread) (conn : ConnId) (resets : Nat)
  | unlock (thread : Thread) (conn : ConnId)
  deriving Repr

namespace Threads

/-- The loop thread, in `Loop` and `Accept`. -/
def stepLoop (threads : Threads) : Action → Option Threads
  | .poll events =>
      if threads.LoopAt .between ∧ threads.batch = [] ∧
          ∀ event ∈ events, threads.Reports event then
        some { threads with batch := events }
      else
        none
  | .beginAccept =>
      if threads.LoopAt .between ∧ threads.batch.head? = some .listening then
        some { threads with batch := threads.batch.tail, loop := .accepting }
      else
        none
  | .accepted clifd =>
      if threads.LoopAt .accepting ∧ 0 ≤ clifd then
        some <| match threads.pool.freeListPop with
          | (none, pool) => { threads with pool := pool, loop := .between }
          | (some conn, pool) => { threads with pool := pool, loop := .popped conn clifd }
      else
        none
  | .wouldBlock =>
      if threads.LoopAt .accepting then some { threads with loop := .between } else none
  | .install conn clifd =>
      if threads.LoopAt (.popped conn clifd) ∧ threads.Unlocked conn then
        some { threads.enter .loop conn .installing with
          fd := Function.update threads.fd conn clifd
          loop := .accepting }
      else
        none
  | .publish conn =>
      if threads.loop = .accepting ∧ threads.sections .loop = some ⟨conn, .installing⟩ then
        some { threads.leave .loop with
          pool := threads.pool.activeListPush conn
          published := Function.update threads.published conn true }
      else
        none
  | .refuse conn =>
      if threads.loop = .accepting ∧ threads.sections .loop = some ⟨conn, .installing⟩ then
        some { threads.leave .loop with
          pool := threads.pool.freeListPush conn
          fd := Function.update threads.fd conn (resetFd (threads.fd conn)) }
      else
        none
  | .updateErase conn =>
      if threads.LoopAt .between ∧ threads.batch.head? = some (.readable conn) then
        some { threads with
          pool := threads.pool.activeListErase conn
          batch := threads.batch.tail
          loop := .moving conn }
      else
        none
  | .updatePush conn =>
      if threads.LoopAt (.moving conn) then
        some { threads with pool := threads.pool.activeListPush conn, loop := .moved conn }
      else
        none
  | .lockToRead conn =>
      if threads.LoopAt (.moved conn) ∧ threads.Unlocked conn then
        some { threads.enter .loop conn (.running 0) with loop := .between }
      else
        none
  | .lockToWrite conn =>
      if threads.LoopAt .between ∧ threads.batch.head? = some (.writable conn) ∧
          threads.Unlocked conn then
        some { threads.enter .loop conn (.running 0) with batch := threads.batch.tail }
      else
        none
  | _ => none

/-- The workers and `CheckConnectionTimeout` up to a connection's lock. -/
def stepOthers (threads : Threads) : Action → Option Threads
  | .lockToWork thread conn =>
      if (thread = .worker ∨ thread = .wsWorker) ∧ threads.sections thread = none ∧
          threads.Unlocked conn then
        some (threads.enter thread conn (.running 0))
      else
        none
  | .timeoutCheck =>
      if threads.sections .timeout = none then
        some { threads with pool := threads.pool.activeListTimeoutCheck, found := none }
      else
        none
  | .checkNext =>
      if threads.sections .timeout = none then
        some { threads with
          pool := threads.pool.activeListCheckNext.2
          found := threads.pool.activeListCheckNext.1 }
      else
        none
  | .lockToCheck conn =>
      if threads.sections .timeout = none ∧ threads.found = some conn ∧
          threads.Unlocked conn then
        some (threads.enter .timeout conn (.running 0))
      else
        none
  | _ => none

/-- `ResetConnection`, in any thread that holds the connection's lock. -/
def stepReset (threads : Threads) : Action → Option Threads
  | .resetConnection thread conn resets =>
      if threads.sections thread = some ⟨conn, .running resets⟩ ∧ 0 < threads.fd conn then
        some (threads.enter thread conn (.running (resets + 1)))
      else
        none
  | .release thread conn resets =>
      if threads.sections thread = some ⟨conn, .running (resets + 1)⟩ then
        some { threads.enter thread conn (.erasing resets) with
          pool := threads.pool.freeListPush conn
          fd := Function.update threads.fd conn (resetFd (threads.fd conn))
          published := Function.update threads.published conn false }
      else
        none
  | .unlist thread conn resets =>
      if threads.sections thread = some ⟨conn, .erasing resets⟩ then
        some { threads.enter thread conn (.running resets) with
          pool := threads.pool.activeListErase conn }
      else
        none
  | .unlock thread conn =>
      if threads.sections thread = some ⟨conn, .running 0⟩ then
        some (threads.leave thread)
      else
        none
  | _ => none

def step (threads : Threads) (action : Action) : Option Threads :=
  (threads.stepLoop action).or ((threads.stepOthers action).or (threads.stepReset action))

end Threads

end Mevent.Pool
