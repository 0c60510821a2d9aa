import Mevent.EventLoop.Isolation
import Mevent.EventLoop.Polling
import Mevent.EventLoop.Routes
import Mevent.Request.Reception

/-!
# Which function answers a request

The event loop with what the client of each connection has sent in its session.  A request
that `WorkerThread` finds received is answered by the function of the longest path that has
been registered and that the target which the client has asked for begins with.
-/

namespace Mevent

open Library

namespace Held

variable {limits : Limits} {conn : ConnId} {held later : Held}

/-- The descriptor is gone, or it is the same and a handler could have left the request so. -/
def LineKept (held later : Held) : Prop :=
  later.connection.fd < 0 ∨
    later.connection.fd = held.connection.fd ∧
      held.connection.req.HandledAs later.connection.req

theorem LineKept.refl (held : Held) : held.LineKept held := .inr ⟨rfl, .refl _⟩

theorem LineKept.trans {middle : Held} (first : held.LineKept middle)
    (second : middle.LineKept later) : held.LineKept later := by
  rcases second with gone | ⟨same_fd, handled⟩
  · exact .inl gone
  · rcases first with gone | ⟨first_fd, first_handled⟩
    · exact .inl (same_fd ▸ gone)
    · exact .inr ⟨same_fd.trans first_fd, first_handled.trans handled⟩

theorem LineKept.of_same_req (fd : later.connection.fd = held.connection.fd)
    (req : later.connection.req = held.connection.req) : held.LineKept later := by
  refine .inr ⟨fd, ?_⟩
  rw [req]
  exact .refl _

theorem LineKept.of_kept (kept : held.Kept later) : held.LineKept later := by
  rcases kept with gone | ⟨fd, req⟩
  · exact .inl gone
  · exact .of_same_req fd req

theorem handledAs_call {connection called : Connection} {call : Call}
    (calls : connection.call limits call = some called) :
    connection.req.HandledAs called.req := by
  have same : called.req = connection.req → connection.req.HandledAs called.req := by
    intro same
    rw [same]
    exact .refl _
  cases call with
  | parseHeader =>
      obtain ⟨req, parsed, rfl⟩ := Option.map_eq_some_iff.mp calls
      exact Request.handledAs_parseHeader parsed
  | parsePostForm =>
      obtain ⟨req, parsed, rfl⟩ := Option.map_eq_some_iff.mp calls
      exact Request.handledAs_parsePostForm parsed
  | parseQueryString =>
      cases calls
      exact Request.handledAs_parseQueryString _
  | upgrade date =>
      cases calls
      unfold Connection.upgrade
      split
      · exact .refl _
      · rw [Connection.req_writeString]
        exact ⟨_, _, _, _, rfl⟩
  | writeErrorMessage code date =>
      cases calls
      exact same (Connection.req_writeErrorMessage ..)
  | sendPong str | sendPing str | writeString str =>
      cases calls
      exact same (Connection.req_writeString ..)
  | _ =>
      cases calls
      exact same rfl

theorem lineKept_runOp {op : HandlerOp} (ran : held.runOp limits conn op = some later) :
    held.LineKept later := by
  cases op with
  | call call =>
      rw [runOp] at ran
      obtain ⟨connection, called, rfl⟩ := Option.map_eq_some_iff.mp ran
      exact .inr ⟨(Connection.call_effect called).fd, handledAs_call called⟩
  | close onClose => exact .of_kept (kept_resetConnection ran)

theorem lineKept_runOps {ops : List HandlerOp} (ran : held.runOps limits conn ops = some later) :
    held.LineKept later := by
  induction ops generalizing held with
  | nil =>
      rw [runOps] at ran
      cases ran
      exact .refl _
  | cons op ops inductionHypothesis =>
      rw [runOps] at ran
      obtain ⟨middle, first, rest⟩ := Option.bind_eq_some_iff.mp ran
      exact (lineKept_runOp first).trans (inductionHypothesis rest)

theorem lineKept_work {config : Config} {input : WorkInput}
    (worked : held.work config conn input = some later) : held.LineKept later := by
  obtain ⟨middle, handling, finished⟩ := Option.bind_eq_some_iff.mp worked
  have first : held.LineKept middle := by
    unfold handleRequest at handling
    split at handling
    · exact lineKept_runOps handling
    · cases handling
      exact .of_same_req (Connection.fd_writeErrorMessage ..) (Connection.req_writeErrorMessage ..)
  have second : middle.LineKept (middle.flushUnlessUpgraded input.date) := by
    unfold flushUnlessUpgraded
    split
    · exact .refl middle
    · exact .of_same_req (Connection.fd_flushResponse ..) (Connection.req_flushResponse ..)
  exact (first.trans second).trans (.of_kept (kept_finishWork finished))

theorem lineKept_wsWork {config : Config} {opcode : WebSocketOpcodeType} {input : WorkInput}
    (worked : held.wsWork config conn opcode input = some later) : held.LineKept later := by
  obtain ⟨middle, handling, finished⟩ := Option.bind_eq_some_iff.mp worked
  have first : held.LineKept middle := by
    unfold handleMessage at handling
    split at handling
    · exact lineKept_runOps handling
    · cases handling
      exact .refl held
  exact first.trans (.of_kept (kept_finishWork finished))

/-- What the calls to `Readn` in `OnRead` return, as far as the request gets it. -/
def requestPieces (limits : Limits) (reads : List ReadResult) (held : Held) : List Bytes :=
  if held.connection.fd < 0 ∨ held.connection.req.status = .upgrade then
    []
  else
    held.connection.req.pieces held.connection.ssl limits.maxHeaderSize limits.maxPostSize reads

/-- `OnRead` of a request that is not refused. -/
theorem lineRead_onRead {input : ReadInput} {result : OnReadResult} {stream : Bytes}
    (small : limits.maxHeaderSize + readBufferSize < 2 ^ 32)
    (short : ∀ piece ∈ held.requestPieces limits input.reads, piece.length ≤ readBufferSize)
    (line : 0 ≤ held.connection.fd → held.connection.req.status ≠ .upgrade →
      held.connection.req.LineRead limits.maxHeaderSize stream)
    (accepted : held.readReply limits input = none)
    (read : held.onRead limits conn input = some result)
    (opened : 0 ≤ result.held.connection.fd)
    (plain : result.held.connection.req.status ≠ .upgrade) :
    result.held.connection.req.LineRead limits.maxHeaderSize
      (stream ++ (held.requestPieces limits input.reads).flatten) := by
  obtain ⟨data, reading, answering⟩ := Option.bind_eq_some_iff.mp read
  obtain ⟨closed, closing, rfl⟩ := Option.map_eq_some_iff.mp answering
  obtain ⟨answer_fd, answer_req⟩ := @answer_effect data.status input.date input.writes data.conn
  have same_fd := Connection.fd_readData reading
  rcases resetUnlessAgain_cases closing with gone | rfl
  · exact absurd gone (Int.not_lt.mpr opened)
  · simp only [answer_fd, answer_req, same_fd] at opened plain ⊢
    have descriptor : ¬ held.connection.fd < 0 := Int.not_lt.mpr opened
    unfold readReply at accepted
    rw [reading, Option.bind_some] at accepted
    unfold Connection.readData at reading
    rw [if_neg descriptor] at reading
    split at reading
    next upgraded =>
      obtain ⟨ws, -, rfl⟩ := Option.map_eq_some_iff.mp reading
      exact absurd upgraded plain
    next not_upgraded =>
      obtain ⟨result, received, rfl⟩ := Option.map_eq_some_iff.mp reading
      have pieces : held.requestPieces limits input.reads =
          held.connection.req.pieces held.connection.ssl limits.maxHeaderSize limits.maxPostSize
            input.reads := if_neg (not_or.mpr ⟨descriptor, not_upgraded⟩)
      rw [pieces] at short ⊢
      have kept := Request.kept_readData small short (line opened not_upgraded) received
      refine kept.resolve_left fun refused => ?_
      rw [if_pos refused] at accepted
      cases accepted

end Held

/-- `WorkerThread` as it calls the function for a path, or answers that there is none: which
session occupies the connection, what its client has sent, whether it has been told before
that the request is refused, the request, and the function. -/
structure Dispatch where
  session : Session
  sent : Bytes
  refused : Bool
  request : Request
  func : Option FuncId

/-- The event loop with what has been sent in the session of each connection, whether it has
been refused there, and what `WorkerThread` has done. -/
structure Dispatching where
  el : EventLoop
  sent : ConnId → Bytes
  refused : ConnId → Bool
  dispatches : List Dispatch

namespace Dispatching

variable {config : Config} {state later : Dispatching}

def initial (config : Config) : Dispatching where
  el := .initial config
  sent := fun _ => []
  refused := fun _ => false
  dispatches := []

/-- The pieces that a step reads. -/
def pieces (config : Config) (state : Dispatching) : Action → List Bytes
  | .onRead conn input => (state.el.hold conn).requestPieces config.limits input.reads
  | _ => []

def sentAfter (config : Config) (state : Dispatching) (action : Action) : ConnId → Bytes :=
  match action with
  | .install conn .. => Function.update state.sent conn []
  | .onRead conn _ =>
      Function.update state.sent conn
        (state.sent conn ++ (state.pieces config action).flatten)
  | _ => state.sent

def refusedAfter (config : Config) (state : Dispatching) : Action → ConnId → Bool
  | .install conn .. => Function.update state.refused conn false
  | .onRead conn input =>
      Function.update state.refused conn
        (state.refused conn || ((state.el.hold conn).readReply config.limits input).isSome)
  | _ => state.refused

/-- What `WorkerThread` does in a step, if its connection has a descriptor. -/
def dispatched (config : Config) (state : Dispatching) : Action → Option Dispatch
  | .runTask _ =>
      state.el.worker.bind fun task =>
        if (state.el.connections task.conn).fd < 0 then
          none
        else
          let req := (state.el.connections task.conn).req
          some ⟨state.el.occupant task.conn, state.sent task.conn, state.refused task.conn, req,
            config.routes req.path⟩
  | _ => none

def step (config : Config) (state : Dispatching) (action : Action) : Option Dispatching :=
  (state.el.step config action).map fun later =>
    { el := later
      sent := state.sentAfter config action
      refused := state.refusedAfter config action
      dispatches := state.dispatches ++ (state.dispatched config action).toList }

/-- A step that closes a connection last, and that reads no more than the buffer holds. -/
def Regular (config : Config) (state : Dispatching) (action : Action) : Prop :=
  state.el.ClosesLast config action ∧
    ∀ piece ∈ state.pieces config action, piece.length ≤ readBufferSize

instance (config : Config) (state : Dispatching) : DecidablePred (state.Regular config) :=
  fun action => inferInstanceAs (Decidable (state.el.ClosesLast config action ∧
    ∀ piece ∈ state.pieces config action, piece.length ≤ readBufferSize))

end Dispatching

/-- The function of the longest registered prefix of a path, or none. -/
def Answers (registrations : List Registration) (path : Bytes) (func : Option FuncId) : Prop :=
  (∃ pre, LongestPrefix (Registered registrations) path pre ∧ func = firstFunc registrations pre) ∨
    (∀ pre, pre <+: path → ¬ Registered registrations pre) ∧ func = none

/-- A request that has been received, and not refused, is what its client has sent, and it is
answered by the function that has been registered for its target. -/
def Dispatch.Follows (registrations : List Registration) (dispatch : Dispatch) : Prop :=
  dispatch.refused = false → dispatch.request.status = .bodyReceived →
    dispatch.request.rbuf = dispatch.sent ∧
      ∃ target : Request.Target, target.bytes <+: dispatch.sent ∧
        dispatch.request.parts = target.parts ∧ Answers registrations target.path dispatch.func

theorem answers_getHandleFunc (registrations : List Registration) (target : Request.Target) :
    Answers registrations target.path ((registerAll registrations).getHandleFunc target.path) := by
  have nulFree : 0 ∉ target.path := by
    intro inside
    have notUrl : ¬ Request.UrlByte 0 := fun url => url.1 rfl
    exact notUrl (target.pathUrl 0 inside)
  exact getHandleFunc_cases registrations ⟨target.path, nulFree⟩

namespace Dispatching

variable {config : Config} {state later : Dispatching}
  {registrations : List Registration}

structure InLine (config : Config) (registrations : List Registration) (state : Dispatching) :
    Prop where
  apart : state.el.KeptApart
  lines : ∀ conn, 0 ≤ (state.el.connections conn).fd → state.refused conn = false →
    (state.el.connections conn).req.status ≠ .upgrade →
      (state.el.connections conn).req.LineRead config.limits.maxHeaderSize (state.sent conn)
  follows : ∀ dispatch ∈ state.dispatches, dispatch.Follows registrations

theorem inLine_initial (config : Config) (registrations : List Registration) :
    (initial config).InLine config registrations where
  apart := .initial config
  lines := by
    intro conn descriptor
    have closed : ¬ 0 ≤ Connection.new.fd := by decide
    exact absurd descriptor closed
  follows := by
    intro dispatch inside
    exact absurd inside List.not_mem_nil

theorem InLine.lines_put (inLine : state.InLine config registrations) {conn : ConnId}
    {held : Held} (kept : (state.el.hold conn).LineKept held)
    (handled : (state.el.hold conn).Handled held) (other : ConnId)
    (descriptor : 0 ≤ ((state.el.put conn held).connections other).fd)
    (accepted : state.refused other = false)
    (plain : ((state.el.put conn held).connections other).req.status ≠ .upgrade) :
    ((state.el.put conn held).connections other).req.LineRead config.limits.maxHeaderSize
      (state.sent other) := by
  by_cases same : other = conn
  · subst same
    simp only [EventLoop.put_connections, Function.update_self] at descriptor plain ⊢
    obtain ⟨fd, line⟩ := kept.resolve_left (Int.not_lt.mpr descriptor)
    obtain ⟨-, status⟩ := handled.resolve_left (Int.not_lt.mpr descriptor)
    have status := status.resolve_right plain
    exact (inLine.lines other (fd ▸ descriptor) accepted (status ▸ plain)).handled line status
  · simp only [EventLoop.put_connections, Function.update_of_ne same] at descriptor plain ⊢
    exact inLine.lines other descriptor accepted plain

/-- `Accept` takes a connection that is new. -/
theorem InLine.lines_install (inLine : state.InLine config registrations) {conn : ConnId}
    {clifd : Int} {addr : UInt32} {now : Int} {ready : Bool}
    (popped : state.el.loop = .popped conn clifd) (closes : ready = true ∨ clifd ≠ 0)
    (other : ConnId) (descriptor : 0 ≤ (Function.update state.el.connections conn
      (EventLoop.installIn config conn clifd addr now ready (state.el.hold conn)).connection
        other).fd)
    (accepted : Function.update state.refused conn false other = false)
    (plain : (Function.update state.el.connections conn
      (EventLoop.installIn config conn clifd addr now ready (state.el.hold conn)).connection
        other).req.status ≠ .upgrade) :
    (Function.update state.el.connections conn
      (EventLoop.installIn config conn clifd addr now ready (state.el.hold conn)).connection
        other).req.LineRead config.limits.maxHeaderSize
          (Function.update state.sent conn [] other) := by
  obtain ⟨free, apart⟩ := inLine.apart
  obtain ⟨-, new, -, nonnegative⟩ := apart.popped conn clifd popped
  by_cases same : other = conn
  · subst same
    simp only [Function.update_self] at descriptor ⊢
    cases ready with
    | true =>
        simp only [EventLoop.installIn, EventLoop.hold, new, if_true]
        exact Request.lineRead_reset _ _
    | false =>
        have opened : 0 < clifd :=
          Int.lt_iff_le_and_ne.mpr ⟨nonnegative, (closes.resolve_left Bool.false_ne_true).symm⟩
        have gone : (EventLoop.installIn config other clifd addr now false
            (state.el.hold other)).connection = .new := Connection.reset_of_open opened
        have closed : ¬ 0 ≤ Connection.new.fd := by decide
        rw [gone] at descriptor
        exact absurd descriptor closed
  · simp only [Function.update_of_ne same] at descriptor accepted plain ⊢
    exact inLine.lines other descriptor accepted plain

/-- `OnRead` of one connection. -/
theorem InLine.lines_onRead (inLine : state.InLine config registrations) {conn : ConnId}
    {input : ReadInput} {read : OnReadResult}
    (small : config.limits.maxHeaderSize + readBufferSize < 2 ^ 32)
    (short : ∀ piece ∈ (state.el.hold conn).requestPieces config.limits input.reads,
      piece.length ≤ readBufferSize)
    (reading : (state.el.hold conn).onRead config.limits conn input = some read)
    (other : ConnId)
    (descriptor : 0 ≤ (Function.update state.el.connections conn read.held.connection other).fd)
    (accepted : state.refusedAfter config (.onRead conn input) other = false)
    (plain : (Function.update state.el.connections conn
      read.held.connection other).req.status ≠ .upgrade) :
    (Function.update state.el.connections conn read.held.connection other).req.LineRead
      config.limits.maxHeaderSize (state.sentAfter config (.onRead conn input) other) := by
  by_cases same : other = conn
  · subst same
    simp only [refusedAfter, sentAfter, pieces, Function.update_self, Bool.or_eq_false_iff,
      Option.isSome_eq_false_iff, Option.isNone_iff_eq_none] at descriptor accepted plain ⊢
    exact Held.lineRead_onRead small short
      (fun opened plain => inLine.lines other opened accepted.1 plain) accepted.2 reading
      descriptor plain
  · simp only [refusedAfter, sentAfter, Function.update_of_ne same]
      at descriptor accepted plain ⊢
    exact inLine.lines other descriptor accepted plain

theorem InLine.lines_other (inLine : state.InLine config registrations) {action : Action}
    {el : EventLoop} (stepped : state.el.step config action = some el)
    (notInstall : ∀ conn clifd addr now ready, action ≠ .install conn clifd addr now ready)
    (notRead : ∀ conn input, action ≠ .onRead conn input) (conn : ConnId)
    (descriptor : 0 ≤ (el.connections conn).fd) (accepted : state.refused conn = false)
    (plain : (el.connections conn).req.status ≠ .upgrade) :
    (el.connections conn).req.LineRead config.limits.maxHeaderSize (state.sent conn) := by
  have lines := fun {held : Held} other
      (kept : (state.el.hold other).Kept held) =>
    inLine.lines_put (.of_kept kept) kept.handled conn
  cases EventLoop.effect_of_step stepped with
  | moves | pops | takesTask | dropsTask | takesWsTask | dropsWsTask =>
      exact inLine.lines conn descriptor accepted plain
  | installs other clifd addr now ready => exact absurd rfl (notInstall other clifd addr now ready)
  | reads other input => exact absurd rfl (notRead other input)
  | writes other writes onClose held writing =>
      exact lines other (Held.kept_onWrite writing) descriptor accepted plain
  | expires other now onClose held reset =>
      exact lines other (Held.kept_resetConnection reset) descriptor accepted plain
  | sends other data writes =>
      exact lines other (Held.kept_send _ data writes) descriptor accepted plain
  | runsTask input task held _ _ worked =>
      exact inLine.lines_put (Held.lineKept_work worked) (Held.handled_work worked) conn
        descriptor accepted plain
  | runsWsTask input item held _ _ worked =>
      exact inLine.lines_put (Held.lineKept_wsWork worked) (Held.handled_wsWork worked) conn
        descriptor accepted plain

/-- What `WorkerThread` calls is the function for the request of its connection. -/
theorem InLine.dispatched_follows (inLine : state.InLine config registrations)
    (routes : config.routes = (registerAll registrations).getHandleFunc) {action : Action} :
    ∀ dispatch ∈ state.dispatched config action, dispatch.Follows registrations := by
  intro dispatch isDispatch accepted received
  cases action with
  | runTask input =>
      obtain ⟨task, -, works⟩ := Option.bind_eq_some_iff.mp isDispatch
      obtain ⟨descriptor, found⟩ := Option.ite_none_left_eq_some.mp works
      cases found
      have plain : (state.el.connections task.conn).req.status ≠ .upgrade := by
        rw [received]
        decide
      have past : (state.el.connections task.conn).req.status ≠ .headerReceiving := by
        rw [received]
        decide
      have line := inLine.lines task.conn (Int.not_lt.mp descriptor) accepted plain
      obtain ⟨target, front, parts⟩ := line.target past
      refine ⟨line.rbuf, target, front, parts.symm, ?_⟩
      have path : (state.el.connections task.conn).req.path = target.path :=
        congrArg (fun parts => parts.2.1) parts.symm
      simp only [routes, path]
      exact answers_getHandleFunc registrations target
  | _ => cases isDispatch

theorem InLine.step (inLine : state.InLine config registrations) {action : Action}
    (routes : config.routes = (registerAll registrations).getHandleFunc)
    (small : config.limits.maxHeaderSize + readBufferSize < 2 ^ 32)
    (regular : state.Regular config action)
    (stepped : state.step config action = some later) : later.InLine config registrations := by
  obtain ⟨el, taken, rfl⟩ := Option.map_eq_some_iff.mp stepped
  refine ⟨inLine.apart.step regular.1 taken, ?_, ?_⟩
  · cases action with
    | install conn clifd addr now ready =>
        obtain ⟨popped, connections⟩ := EventLoop.installs_of_step taken
        simp only [connections]
        exact inLine.lines_install popped regular.1
    | onRead conn input =>
        rw [EventLoop.step_onRead (EventLoop.enabled_of_onRead taken)] at taken
        obtain ⟨read, reading, rfl⟩ := Option.map_eq_some_iff.mp taken
        simp only [EventLoop.push_connections, EventLoop.put_connections]
        exact inLine.lines_onRead small regular.2 reading
    | _ => exact inLine.lines_other taken nofun nofun
  · intro dispatch inside
    rcases List.mem_append.mp inside with earlier | added
    · exact inLine.follows dispatch earlier
    · exact inLine.dispatched_follows routes dispatch (Option.mem_toList.mp added)

/-- In every run whose steps are regular, whatever the threads do meanwhile: `WorkerThread`
answers a request that it finds received by what has been registered for its target. -/
theorem follows_of_reaches {config : Config} {registrations : List Registration}
    (routes : config.routes = (registerAll registrations).getHandleFunc)
    (small : config.limits.maxHeaderSize + readBufferSize < 2 ^ 32) {state : Dispatching}
    (reached : Reaches (step config) (fun state => state.Regular config) (initial config) state) :
    ∀ dispatch ∈ state.dispatches, dispatch.Follows registrations := by
  have inLine : state.InLine config registrations := by
    refine reached.invariant (inLine_initial config registrations) ?_
    intro state action later inLine regular stepped
    exact inLine.step routes small regular stepped
  exact inLine.follows

/-- The functions of `/` and `/a`. -/
def nestedConfig : Config :=
  { EventLoop.plainConfig with routes := (registerAll nestedRegistrations).getHandleFunc }

/-- The request for `/ab` of one client arrives in two pieces, and the request for `/` of
another one between them. -/
def interleavedRequests : List Action :=
  EventLoop.accepting 5 1 ++
    EventLoop.reading (EventLoop.arrival 2 [.delivered 71 [69, 84, 32, 47, 97]]) ++
    [.poll [.listening], .beginAccept, .accepted 6, .install 1 6 0 3 true, .wouldBlock,
      .poll [.readable 1], .updateErase 1, .updatePush 1,
      .onRead 1 (EventLoop.arrival 4 EventLoop.smallRequest)] ++
    EventLoop.reading (EventLoop.arrival 5 [.delivered 98 [32, 72, 13, 10, 13, 10]]) ++
    [.takeTask, .runTask ⟨[], [], [], []⟩, .takeTask, .runTask ⟨[], [], [], []⟩]

theorem follows_interleaved : ∃ state : Dispatching,
    state.dispatches.map (fun dispatch => (dispatch.session.conn, dispatch.func)) =
        [(1, some 1), (0, some 2)] ∧
      ∀ dispatch ∈ state.dispatches, dispatch.Follows nestedRegistrations := by
  have replays : (replay (step nestedConfig) (fun state => state.Regular nestedConfig)
      (initial nestedConfig) interleavedRequests).map (fun state =>
        state.dispatches.map fun dispatch => (dispatch.session.conn, dispatch.func)) =
      some [(1, some 1), (0, some 2)] := by decide +kernel
  obtain ⟨state, replayed, functions⟩ := Option.map_eq_some_iff.mp replays
  exact ⟨state, functions, follows_of_reaches rfl (by decide) (reaches_of_replay replayed)⟩

end Dispatching

end Mevent
