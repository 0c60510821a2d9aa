import Mevent.Connection.Flushing
import Mevent.EventLoop.Incidents
import Mevent.Library.Readiness

/-!
# The event loop and the sockets

The event loop with what an edge-triggered poll keeps of each socket: whether it takes
output, whether `OUT` is registered for it, and whether there is an event for `OUT` that has
not been fetched.  `Loop` handles an event for both `IN` and `OUT` as one for `IN`.
-/

namespace Mevent

open Library

namespace Held

/-- The connection that `OnRead` flushes, if it answers. -/
def readReply (limits : Limits) (input : ReadInput) (held : Held) : Option Connection :=
  (held.connection.readData limits input.now input.reads).bind fun read =>
    if read.status = .error ∧ read.conn.req.errorCode ≠ 0 then
      some (read.conn.writeErrorMessage read.conn.req.errorCode input.date)
    else
      none

def workReply (config : Config) (conn : ConnId) (input : WorkInput) (held : Held) :
    Option Connection :=
  (held.handleRequest config conn input).map fun handled =>
    (handled.flushUnlessUpgraded input.date).connection

def wsWorkReply (config : Config) (conn : ConnId) (opcode : WebSocketOpcodeType)
    (input : WorkInput) (held : Held) : Option Connection :=
  (held.handleMessage config conn opcode input).map Held.connection

end Held

/-- Without TLS: the strings of the queue are in memory, and `write(2)` accepts no more than
it is given. -/
def Connection.Feasible (conn : Connection) (results : List WriteResult) : Prop :=
  conn.ssl = false →
    (∀ wb ∈ conn.writeBufferChain, wb.len ≤ vectorMaxSize) ∧
      ∀ writing ∈ conn.writings results, writing.written.accepted ≤ writing.buffer.asked

instance (conn : Connection) (results : List WriteResult) : Decidable (conn.Feasible results) :=
  inferInstanceAs (Decidable (_ → _))

/-- A call of `Flush`: where, on which connection, and what the calls to the socket return. -/
structure FlushSite where
  conn : ConnId
  connection : Connection
  results : List WriteResult

namespace FlushSite

def Blocks (site : FlushSite) : Prop :=
  ∃ writing ∈ site.connection.writings site.results, writing.Blocks

instance (site : FlushSite) : Decidable site.Blocks :=
  inferInstanceAs (Decidable (∃ writing ∈ site.connection.writings site.results, _))

/-- With TLS: `Writen` returns early only because the socket would block. -/
def Steady (site : FlushSite) : Prop :=
  site.connection.ssl = true →
    ∀ writing ∈ site.connection.writings site.results, ¬ writing.Stalls

instance (site : FlushSite) : Decidable site.Steady := inferInstanceAs (Decidable (_ → _))

end FlushSite

namespace EventLoop

/-- The call of `Flush` in a step. -/
def flushSite (config : Config) (el : EventLoop) : Action → Option FlushSite
  | .onRead conn input =>
      ((el.hold conn).readReply config.limits input).map fun reply => ⟨conn, reply, input.writes⟩
  | .onWrite conn writes _ => some ⟨conn, el.connections conn, writes⟩
  | .runTask input =>
      el.worker.bind fun task =>
        if (el.connections task.conn).fd < 0 then
          none
        else
          ((el.hold task.conn).workReply config task.conn input).map fun reply =>
            ⟨task.conn, reply, input.writes⟩
  | .runWsTask input =>
      el.wsWorker.bind fun item =>
        let conn := item.session.conn
        if (el.connections conn).fd < 0 then
          none
        else
          ((el.hold conn).wsWorkReply config conn item.task.opcode input).map fun reply =>
            ⟨conn, reply, input.writes⟩
  | .safeWrite conn data writes => some ⟨conn, (el.connections conn).writeString data, writes⟩
  | _ => none

end EventLoop

inductive Mask where
  | readable
  | writable
  | both
  deriving DecidableEq, Repr

/-- An event as `Poll` fetches it. -/
inductive PolledEvent where
  | listening
  | ready (conn : ConnId) (mask : Mask)
  deriving DecidableEq, Repr

namespace PolledEvent

/-- How `Loop` takes an event. -/
def taken : PolledEvent → Pool.Event
  | .listening => .listening
  | .ready conn .readable => .readable conn
  | .ready conn .both => .readable conn
  | .ready conn .writable => .writable conn

/-- The connection for which the event has the mask `OUT`. -/
def writable : PolledEvent → Option ConnId
  | .ready conn .writable => some conn
  | .ready conn .both => some conn
  | _ => none

end PolledEvent

/-- The event loop, its sockets, and the connections for which an event with both masks has
been fetched and not handled. -/
structure Polled where
  el : EventLoop
  sockets : ConnId → Readiness
  merged : ConnId → Bool

/-- `Poll` fetches events, a thread takes a step, or a socket takes output again.  `still`
tells whether the socket of the step takes output behind it if no call has blocked. -/
inductive PollAction where
  | poll (events : List PolledEvent)
  | run (action : Action) (still : Bool)
  | rise (conn : ConnId)

namespace Polled

def initial (config : Config) : Polled where
  el := .initial config
  sockets := fun _ => .unwatched false
  merged := fun _ => false

/-- A call of `Flush` may leave the socket full. -/
def flushed (config : Config) (polled : Polled) (action : Action) (still : Bool)
    (conn : ConnId) : Readiness :=
  match polled.el.flushSite config action with
  | some site =>
      if site.conn = conn then
        (polled.sockets conn).weaken (still && !decide site.Blocks)
      else
        polled.sockets conn
  | none => polled.sockets conn

/-- What a step makes of the sockets: one that is closed is gone, `Accept` brings a new one,
and `Modify` registers `OUT` when `ev_writable_` is set. -/
def settle (config : Config) (polled : Polled) (later : EventLoop) (action : Action)
    (still : Bool) (conn : ConnId) : Readiness :=
  if (later.connections conn).fd < 0 then
    .unwatched false
  else if later.installs conn ≠ polled.el.installs conn then
    .unwatched still
  else if (polled.el.connections conn).evWritable = false ∧
      (later.connections conn).evWritable = true then
    (polled.flushed config action still conn).register
  else
    polled.flushed config action still conn

def mergedAfter (merged : ConnId → Bool) : Action → ConnId → Bool
  | .onRead conn _ => Function.update merged conn false
  | _ => merged

def step (config : Config) (polled : Polled) : PollAction → Option Polled
  | .poll events =>
      if ∀ conn ∈ events.filterMap PolledEvent.writable,
          (polled.sockets conn).signalled = true then
        (polled.el.step config (.poll (events.map PolledEvent.taken))).map fun later =>
          { el := later
            sockets := fun conn =>
              if conn ∈ events.filterMap PolledEvent.writable then
                (polled.sockets conn).fetch
              else
                polled.sockets conn
            merged := fun conn =>
              polled.merged conn || decide (.ready conn .both ∈ events) }
      else
        none
  | .run (.poll _) _ => none
  | .run action still =>
      (polled.el.step config action).map fun later =>
        { el := later
          sockets := polled.settle config later action still
          merged := mergedAfter polled.merged action }
  | .rise conn =>
      if (polled.sockets conn).ready = false ∧ ¬ (polled.el.connections conn).fd < 0 then
        some { polled with
          sockets := Function.update polled.sockets conn (polled.sockets conn).rise }
      else
        none

/-- An event for `OUT` that has been fetched and not handled. -/
def Fetched (polled : Polled) (conn : ConnId) : Prop :=
  .writable conn ∈ polled.el.batch ∨ polled.merged conn = true

instance (polled : Polled) (conn : ConnId) : Decidable (polled.Fetched conn) :=
  inferInstanceAs (Decidable (_ ∨ _))

/-- Output of an open connection that its socket would take, with neither an event nor a
task that leads to a call of `Flush`. -/
structure Stranded (polled : Polled) (conn : ConnId) : Prop where
  opened : 0 ≤ (polled.el.connections conn).fd
  output : (polled.el.connections conn).writeBufferChain ≠ []
  ready : (polled.sockets conn).ready = true
  unsignalled : ¬ (polled.sockets conn).signalled = true
  unfetched : ¬ polled.Fetched conn
  noTask : ∀ task ∈ polled.el.taskQue, task.conn ≠ conn
  noWsTask : ∀ item ∈ polled.el.wsTaskQue, item.session.conn ≠ conn

instance (polled : Polled) (conn : ConnId) : Decidable (polled.Stranded conn) :=
  decidable_of_iff
    (0 ≤ (polled.el.connections conn).fd ∧
      (polled.el.connections conn).writeBufferChain ≠ [] ∧ (polled.sockets conn).ready = true ∧
        ¬ (polled.sockets conn).signalled = true ∧ ¬ polled.Fetched conn ∧
          (∀ task ∈ polled.el.taskQue, task.conn ≠ conn) ∧
            ∀ item ∈ polled.el.wsTaskQue, item.session.conn ≠ conn)
    ⟨fun ⟨opened, output, ready, unsignalled, unfetched, noTask, noWsTask⟩ =>
        ⟨opened, output, ready, unsignalled, unfetched, noTask, noWsTask⟩,
      fun stranded => ⟨stranded.opened, stranded.output, stranded.ready, stranded.unsignalled,
        stranded.unfetched, stranded.noTask, stranded.noWsTask⟩⟩

theorem taken_of_run {config : Config} {polled later : Polled} {action : Action} {still : Bool}
    (stepped : polled.step config (.run action still) = some later) :
    ∃ el, polled.el.step config action = some el ∧
      later = ⟨el, polled.settle config el action still, mergedAfter polled.merged action⟩ := by
  cases action with
  | poll => cases stepped
  | _ =>
      rw [step] at stepped
      · obtain ⟨el, taken, same⟩ := Option.map_eq_some_iff.mp stepped
        exact ⟨el, taken, same.symm⟩
      · intro events same
        cases same

theorem reaches_el {config : Config} {allowed : Polled → PollAction → Prop} {polled : Polled}
    (reached : Reaches (step config) allowed (initial config) polled) :
    Reaches (EventLoop.step config) (fun _ _ => True) (.initial config) polled.el := by
  refine reached.project Polled.el ?_
  intro state action next stepped
  cases action with
  | poll events =>
      obtain ⟨-, taken⟩ := Option.ite_none_right_eq_some.mp stepped
      obtain ⟨el, polls, same⟩ := Option.map_eq_some_iff.mp taken
      subst same
      exact .inr ⟨_, polls⟩
  | run action still =>
      obtain ⟨el, taken, rfl⟩ := taken_of_run stepped
      exact .inr ⟨action, taken⟩
  | rise conn =>
      obtain ⟨-, same⟩ := Option.ite_none_right_eq_some.mp stepped
      cases same
      exact .inl rfl

end Polled

end Mevent
