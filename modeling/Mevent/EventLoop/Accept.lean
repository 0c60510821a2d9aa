import Mevent.EventLoop.Model
import Mevent.Library.Descriptors
import Mevent.Pool.Cursor

/-!
# `Accept`

The loop of `Accept` on the listening socket, which is registered for edges: it has to go on
until `accept` would block.  The model keeps a table of the sockets, with every call of `close`
and what it has closed, and the connections that `FreeListPop` has returned.  Between two calls of
`accept` other threads may reset connections.
-/

namespace Mevent

open Library

/-- What `CreateSSL` comes to: `SSL_new` returns `NULL`, `SSL_set_fd` returns 0, or neither. -/
inductive SslResult where
  | noSsl
  | noFd
  | created
  deriving DecidableEq, Repr

/-- A descriptor that `accept` returns, the address and the time, and whether the calls succeed
that set it up. -/
structure Arrival where
  clifd : Int
  addr : UInt32
  now : Int
  setNonblock : Bool
  setsockopt : Bool
  add : Bool
  createSSL : SslResult
  deriving DecidableEq, Repr

namespace Connection

/-- `Connection::CreateSSL`. -/
def createSSL (conn : Connection) : SslResult → Bool × Connection
  | .noSsl => (false, { conn with ssl := false })
  | .noFd => (false, { conn with ssl := true })
  | .created => (true, { conn with ssl := true })

/-- `Accept` up to its inner loop. -/
def occupy (conn : Connection) (arrival : Arrival) : Connection :=
  { conn with
    activeTime := arrival.now
    fd := arrival.clifd
    req := { conn.req with addr := arrival.addr } }

/-- The inner loop of `Accept`, which runs once, with its `status`. -/
def setUp (config : Config) (conn : Connection) (arrival : Arrival) : Bool × Connection :=
  if arrival.setNonblock = false then
    (false, conn)
  else if arrival.setsockopt = false then
    (false, conn)
  else if arrival.add = false then
    (false, conn)
  else if config.tls then
    conn.createSSL arrival.createSSL
  else
    (true, conn)

end Connection

/-- All the calls that set a descriptor up succeed. -/
def Arrival.ready (config : Config) (arrival : Arrival) : Bool :=
  arrival.setNonblock && arrival.setsockopt && arrival.add &&
    (!config.tls || arrival.createSSL = .created)

/-- What happens while `Accept` runs: `accept` returns a descriptor, would block or fails in
another way, or another thread resets a connection. -/
inductive AcceptEvent where
  | arrival (arrival : Arrival)
  | again
  | failed
  | reset (conn : ConnId)
  deriving DecidableEq, Repr

/-- How `Accept` ends: `accept` would block, `FreeListPop` returns `NULL`, or the process
exits. -/
inductive AcceptExit where
  | drained
  | full
  | exited
  deriving DecidableEq, Repr

/-- The pool, the connections and the sockets, and what `FreeListPop` has returned. -/
structure Accepting where
  pool : ConnectionPool
  connections : ConnId → Connection
  sockets : Descriptors Int
  popped : List ConnId

namespace Accepting

/-- `fd_` of a connection. -/
def fd (accepting : Accepting) (conn : ConnId) : Int := (accepting.connections conn).fd

/-- The call of `close` in `Connection::Reset`. -/
def closeFd (accepting : Accepting) (conn : ConnId) : Descriptors Int :=
  if 0 < accepting.fd conn then accepting.sockets.close (accepting.fd conn)
  else accepting.sockets

/-- `ResetConnection` behind `OnClose`, in another thread. -/
def resetConnection (accepting : Accepting) (conn : ConnId) : Accepting :=
  if 0 < accepting.fd conn then
    let released := Held.release conn ⟨accepting.connections conn, accepting.pool⟩
    { accepting with
      pool := released.pool
      connections := Function.update accepting.connections conn released.connection
      sockets := accepting.closeFd conn }
  else
    accepting

/-- Behind `accept` and a `FreeListPop` that returns `conn` and leaves `pool`. -/
def afterPop (accepting : Accepting) (arrival : Arrival) (conn : ConnId) (pool : ConnectionPool) :
    Accepting where
  pool := pool
  connections := accepting.connections
  sockets := accepting.sockets.tryOpen arrival.clifd
  popped := conn :: accepting.popped

/-- `Accept` behind `FreeListPop`. -/
def install (config : Config) (accepting : Accepting) (arrival : Arrival) (conn : ConnId) :
    Accepting :=
  let status := ((accepting.connections conn).occupy arrival).setUp config arrival
  let tried := { accepting with
    connections := Function.update accepting.connections conn status.2 }
  if status.1 then
    { tried with pool := tried.pool.activeListPush conn }
  else
    { tried with
      pool := tried.pool.freeListPush conn
      connections := Function.update tried.connections conn (tried.connections conn).reset
      sockets := tried.closeFd conn }

/-- One round of the loop of `Accept`, or what another thread does.  It tells whether `Accept`
ends. -/
def round (config : Config) (accepting : Accepting) :
    AcceptEvent → Option AcceptExit × Accepting
  | .arrival arrival =>
      match accepting.pool.freeListPop with
      | (none, pool) =>
          let sockets := accepting.sockets.tryOpen arrival.clifd
          (some .full, { accepting with pool := pool, sockets := sockets.close arrival.clifd })
      | (some conn, pool) =>
          (none, (accepting.afterPop arrival conn pool).install config arrival conn)
  | .again => (some .drained, accepting)
  | .failed => (some .exited, accepting)
  | .reset conn => (none, accepting.resetConnection conn)

/-- `EventLoop::Accept`, which has not returned when there is no exit. -/
def accept (config : Config) : Accepting → List AcceptEvent → Option AcceptExit × Accepting
  | accepting, [] => (none, accepting)
  | accepting, event :: events =>
      match accepting.round config event with
      | (none, later) => accept config later events
      | (some exit, later) => (some exit, later)

/-- `accept` returns a descriptor that is not in use.  A reset of a connection without a
descriptor does nothing and is left out. -/
def Offers (accepting : Accepting) : AcceptEvent → Prop
  | .arrival arrival => 0 ≤ arrival.clifd ∧ accepting.sockets.file arrival.clifd = none
  | .reset conn => 0 < accepting.fd conn
  | .again | .failed => True

/-- What the kernel and the other threads may do while `Accept` runs. -/
def Possible (config : Config) : Accepting → List AcceptEvent → Prop
  | _, [] => True
  | accepting, event :: events => accepting.Offers event ∧
      ((accepting.round config event).1 = none →
        Possible config (accepting.round config event).2 events)

instance (accepting : Accepting) : DecidablePred accepting.Offers
  | .arrival arrival => inferInstanceAs
      (Decidable (0 ≤ arrival.clifd ∧ accepting.sockets.file arrival.clifd = none))
  | .reset conn => inferInstanceAs (Decidable (0 < accepting.fd conn))
  | .again | .failed => inferInstanceAs (Decidable True)

instance Possible.decide (config : Config) :
    ∀ (accepting : Accepting) (events : List AcceptEvent),
      Decidable (Possible config accepting events)
  | _, [] => inferInstanceAs (Decidable True)
  | accepting, event :: events =>
      have : Decidable (Possible config (accepting.round config event).2 events) :=
        Possible.decide config _ events
      inferInstanceAs (Decidable (accepting.Offers event ∧
        ((accepting.round config event).1 = none →
          Possible config (accepting.round config event).2 events)))

/-- The calls of `close` since `before` have all closed a socket. -/
def ClosesSince (before accepting : Accepting) : Prop :=
  ∃ calls, accepting.sockets.closes = before.sockets.closes ++ calls ∧ none ∉ calls

/-- Every socket that has been accepted since `before` has been closed by one call, or it is the
socket of just one connection on the active list; no call of `close` has failed, and every
connection that has been popped is on one of the lists. -/
structure AccountsFor (before accepting : Accepting) : Prop where
  sockets : ∀ socket, before.sockets.opened ≤ socket → socket < accepting.sockets.opened →
    accepting.sockets.closes.count (some socket) = 1 ∨
      ∃! conn, accepting.pool.OnActiveList conn ∧
        accepting.sockets.file (accepting.fd conn) = some socket
  closes : ClosesSince before accepting
  popped : ∀ conn ∈ accepting.popped,
    accepting.pool.OnActiveList conn ∨ accepting.pool.OnFreeList conn

/-- `Accept` returns because `accept` would block, and every socket is accounted for. -/
def Accepts (config : Config) (before : Accepting) (events : List AcceptEvent) : Prop :=
  (before.accept config events).1 = some .drained ∧
    AccountsFor before (before.accept config events).2

end Accepting

/-- The events of a run of `Accept` before `accept` would block. -/
def AcceptEvent.GoesOn : AcceptEvent → Prop
  | .arrival _ | .reset _ => True
  | .again | .failed => False

/-- The pool has a connection for every descriptor, if it has `room` for so many at first: one
that is set up takes a connection, and a reset gives one back. -/
def Fits (config : Config) : Nat → List AcceptEvent → Prop
  | room, .arrival arrival :: events =>
      0 < room ∧ Fits config (if arrival.ready config then room - 1 else room) events
  | room, .reset _ :: events => Fits config (room + 1) events
  | _, _ => True

instance Fits.decide (config : Config) :
    ∀ (room : Nat) (events : List AcceptEvent), Decidable (Fits config room events)
  | room, .arrival arrival :: events =>
      have : Decidable (Fits config (if arrival.ready config then room - 1 else room) events) :=
        Fits.decide config _ events
      inferInstanceAs (Decidable (0 < room ∧ Fits config _ events))
  | room, .reset _ :: events => Fits.decide config (room + 1) events
  | _, [] | _, .again :: _ | _, .failed :: _ => inferInstanceAs (Decidable True)

/-- What happens to the pool and the connections in the course of time: `Accept` runs, a
connection is reset, the loop thread or the timeout thread calls the pool, or a thread works on
a connection. -/
inductive Turn where
  | accepts (events : List AcceptEvent)
  | resets (conn : ConnId)
  | updates (conn : ConnId)
  | timeoutCheck
  | checkNext
  | works (conn : ConnId) (connection : Connection)

namespace Accepting

/-- Behind the start of the threads in `Loop`. -/
def initial (config : Config) : Accepting where
  pool := .new config.maxWorkerConnections
  connections := fun _ => .new
  sockets := .empty
  popped := []

def step (config : Config) (accepting : Accepting) : Turn → Option Accepting
  | .accepts events => some (accepting.accept config events).2
  | .resets conn => some (accepting.resetConnection conn)
  | .updates conn => some { accepting with pool := accepting.pool.activeListUpdate conn }
  | .timeoutCheck => some { accepting with pool := accepting.pool.activeListTimeoutCheck }
  | .checkNext => some { accepting with pool := accepting.pool.activeListCheckNext.2 }
  | .works conn connection => some { accepting with
      connections := Function.update accepting.connections conn connection }

/-- The loop thread updates connections that are on the active list; `fd_` changes only in
`Accept` and in `Connection::Reset`. -/
def Allows (config : Config) (accepting : Accepting) : Turn → Prop
  | .accepts events => Possible config accepting events
  | .updates conn => accepting.pool.OnActiveList conn
  | .works conn connection => connection.fd = accepting.fd conn
  | .resets _ | .timeoutCheck | .checkNext => True

end Accepting

/-- How many connections `FreeListPop` can still return: those on the free list and those that
it may create. -/
def room (pool : ConnectionPool) (free : List ConnId) : Nat :=
  free.length + (pool.maxConn + 1 - pool.count)

/-- The descriptor 0 cannot be set up. -/
def AcceptEvent.LeavesZero (config : Config) : AcceptEvent → Prop
  | .arrival offered => offered.clifd = 0 ∧ offered.ready config = false
  | _ => False

/-! ### The same in the event loop -/

section Connection

variable {config : Config} {conn : Connection} {arrival : Arrival}

theorem Connection.setUp_fst : (conn.setUp config arrival).1 = arrival.ready config := by
  unfold Connection.setUp Arrival.ready
  cases arrival.setNonblock <;> cases arrival.setsockopt <;> cases arrival.add <;>
    cases config.tls <;> cases arrival.createSSL <;> rfl

@[simp]
theorem Connection.fd_setUp : (conn.setUp config arrival).2.fd = conn.fd := by
  unfold Connection.setUp Connection.createSSL
  split
  next => rfl
  next =>
    split
    next => rfl
    next =>
      split
      next => rfl
      next =>
        split
        next => split <;> rfl
        next => rfl

theorem Connection.setUp_snd (ready : arrival.ready config = true) :
    (conn.setUp config arrival).2 = { conn with ssl := config.tls || conn.ssl } := by
  simp only [Arrival.ready, Bool.and_eq_true, Bool.or_eq_true, Bool.not_eq_true',
    decide_eq_true_eq] at ready
  obtain ⟨⟨⟨nonblock, option⟩, added⟩, tls⟩ := ready
  simp only [Connection.setUp, nonblock, option, added, Bool.true_eq_false, if_false]
  rcases tls with plain | created
  · simp [plain]
  · cases config.tls with
    | false => simp
    | true => simp [created, Connection.createSSL]

theorem Connection.reset_of_fd {other : Connection} (same : conn.fd = other.fd) :
    conn.reset = other.reset := by
  rw [Connection.reset, Connection.reset, same]

end Connection

namespace Accepting

variable {config : Config} {accepting : Accepting} {arrival : Arrival} {conn : ConnId}
  {pool : ConnectionPool}

/-- Behind `FreeListPop`, a round is the section of the event loop. -/
theorem install_eq (plain : config.tls = true ∨ (accepting.connections conn).ssl = false) :
    let held := EventLoop.installIn config conn arrival.clifd arrival.addr arrival.now
      (arrival.ready config) ⟨accepting.connections conn, accepting.pool⟩
    (accepting.install config arrival conn).pool = held.pool ∧
      (accepting.install config arrival conn).connections =
        Function.update accepting.connections conn held.connection := by
  intro held
  by_cases ready : arrival.ready config = true
  · have installed : held = ⟨{ (accepting.connections conn).occupy arrival with
        ssl := config.tls }, accepting.pool.activeListPush conn⟩ := if_pos ready
    have ssl : (config.tls || (accepting.connections conn).ssl) = config.tls := by
      rcases plain with tls | unset
      · rw [tls, Bool.true_or]
      · rw [unset, Bool.or_false]
    have status : ((accepting.connections conn).occupy arrival).setUp config arrival =
        (true, { (accepting.connections conn).occupy arrival with ssl := config.tls }) := by
      refine Prod.ext (Connection.setUp_fst.trans ready) ?_
      rw [Connection.setUp_snd ready]
      simp only [Connection.occupy, ssl]
    rw [installed]
    simp only [install, status, if_true, and_self]
  · have refused : held = ⟨((accepting.connections conn).occupy arrival).reset,
        accepting.pool.freeListPush conn⟩ := if_neg ready
    have status : (((accepting.connections conn).occupy arrival).setUp config arrival).1 =
        false := Connection.setUp_fst.trans (eq_false_of_ne_true ready)
    have reset : (((accepting.connections conn).occupy arrival).setUp config arrival).2.reset =
        ((accepting.connections conn).occupy arrival).reset :=
      Connection.reset_of_fd Connection.fd_setUp
    rw [refused]
    simp [install, status, reset]

/-- A round that `FreeListPop` returns a connection for is two steps of the loop thread. -/
theorem steps_of_arrival {el : EventLoop} (accepting_el : el.loop = .accepting)
    (pool_el : el.pool = accepting.pool) (connections_el : el.connections = accepting.connections)
    (descriptor : 0 ≤ arrival.clifd)
    (popped : accepting.pool.freeListPop = (some conn, pool))
    (plain : config.tls = true ∨ (accepting.connections conn).ssl = false) :
    ∃ middle later, el.step config (.accepted arrival.clifd) = some middle ∧
      middle.step config (.install conn arrival.clifd arrival.addr arrival.now
        (arrival.ready config)) = some later ∧
      later.loop = .accepting ∧
      later.pool = (accepting.round config (.arrival arrival)).2.pool ∧
      later.connections = (accepting.round config (.arrival arrival)).2.connections := by
  let middle : EventLoop := { el with pool := pool, loop := .popped conn arrival.clifd }
  let held := EventLoop.installIn config conn arrival.clifd arrival.addr arrival.now
    (arrival.ready config) (middle.hold conn)
  let later : EventLoop := { middle.put conn held with
    loop := .accepting
    installs := Function.update el.installs conn (el.installs conn + 1) }
  have first : el.stepLoop config (.accepted arrival.clifd) = some middle := by
    simp [EventLoop.stepLoop, accepting_el, descriptor, pool_el, popped, middle]
  have second : middle.stepLoop config (.install conn arrival.clifd arrival.addr arrival.now
      (arrival.ready config)) = some later := if_pos rfl
  have same := @install_eq config (accepting.afterPop arrival conn pool) arrival conn plain
  refine ⟨middle, later, ?_, ?_, rfl, ?_, ?_⟩
  · rw [EventLoop.step, first, Option.some_or]
  · rw [EventLoop.step, second, Option.some_or]
  · simp only [round, popped]
    rw [same.1]
    simp [later, held, middle, afterPop, EventLoop.put, EventLoop.hold, connections_el]
  · simp only [round, popped]
    rw [same.2]
    simp [later, held, middle, afterPop, EventLoop.put, EventLoop.hold, connections_el]

/-- Without a connection, `Accept` ends. -/
theorem step_of_full {el : EventLoop} (accepting_el : el.loop = .accepting)
    (pool_el : el.pool = accepting.pool) (descriptor : 0 ≤ arrival.clifd)
    (full : accepting.pool.freeListPop = (none, pool)) :
    ∃ later, el.step config (.accepted arrival.clifd) = some later ∧ later.loop = .between ∧
      later.pool = (accepting.round config (.arrival arrival)).2.pool := by
  have first : el.stepLoop config (.accepted arrival.clifd) =
      some { el with pool := pool, loop := .between } := by
    simp [EventLoop.stepLoop, accepting_el, descriptor, pool_el, full]
  refine ⟨{ el with pool := pool, loop := .between }, ?_, rfl, ?_⟩
  · rw [EventLoop.step, first, Option.some_or]
  · simp only [round, full]

end Accepting

end Mevent
