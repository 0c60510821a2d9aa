import Mevent.EventLoop.Dispatch
import Mevent.EventLoop.Outgoing
import Mevent.Request.Addressed

/-!
# The first answer of a session

The event loop with what each client has sent, and with what `WorkerThread` has found and
queued when it has first answered it.  It finds a request that is what `ReadData` alone makes of
the bytes of this client, and a response and a WebSocket as they are constructed; and what it
queues is the first that the client gets.
-/

namespace Mevent

open Library

/-- A connection of which nothing but the request has been used: the request is received from
these pieces, in calls to `ReadData` that return `AGAIN`, and has the address of the client. -/
structure Connection.Unanswered (config : Config) (addr : UInt32) (pieces : List Bytes)
    (connection : Connection) : Prop where
  request : ∃ req, connection.req = req.withAddr addr ∧
    Request.Reads config.tls config.limits.maxHeaderSize config.limits.maxPostSize
      (fun _ _ => True) (req, pieces)
  resp : connection.resp = .reset
  ws : connection.ws = .reset
  ssl : connection.ssl = config.tls

namespace Request

theorem status_of_reads {tls : Bool} {maxHeaderSize maxPostSize : Nat}
    {allowed : Request × List Bytes → List ReadResult → Prop} {state : Request × List Bytes}
    (reads : Reads tls maxHeaderSize maxPostSize allowed state) :
    state.1.status ≠ .upgrade := by
  have initial : reset.status ≠ .upgrade := by decide
  refine @Reaches.invariant _ _ _ _ _ (fun state => state.1.status ≠ .upgrade) initial ?_ _ reads
  intro state results later plain _ taken
  obtain ⟨result, read, again⟩ := Option.bind_eq_some_iff.mp taken
  obtain ⟨-, same⟩ := Option.ite_none_right_eq_some.mp again
  cases same
  exact status_readData plain read

end Request

namespace Connection

variable {config : Config} {addr : UInt32} {pieces : List Bytes} {connection : Connection}

theorem Unanswered.plain (unanswered : connection.Unanswered config addr pieces) :
    connection.req.status ≠ .upgrade := by
  obtain ⟨req, same, reads⟩ := unanswered.request
  rw [same]
  exact Request.status_of_reads reads

/-- `Accept` installs a descriptor in a new connection. -/
theorem unanswered_new (config : Config) (addr : UInt32) (fd now : Int) :
    ({ new with
      activeTime := now
      fd := fd
      req := { new.req with addr := addr }
      ssl := config.tls } : Connection).Unanswered config addr [] :=
  ⟨⟨.reset, rfl, .refl⟩, rfl, rfl, rfl⟩

theorem Unanswered.of_same {later : Connection}
    (unanswered : connection.Unanswered config addr pieces) (req : later.req = connection.req)
    (resp : later.resp = connection.resp) (ws : later.ws = connection.ws)
    (ssl : later.ssl = connection.ssl) : later.Unanswered config addr pieces := by
  refine ⟨?_, resp.trans unanswered.resp, ws.trans unanswered.ws, ssl.trans unanswered.ssl⟩
  rw [req]
  exact unanswered.request

end Connection

namespace Held

variable {limits : Limits} {conn : ConnId} {held later : Held}

def Unread (held later : Held) : Prop :=
  later.connection.fd < 0 ∨
    later.connection.fd = held.connection.fd ∧ later.connection.req = held.connection.req ∧
      later.connection.resp = held.connection.resp ∧ later.connection.ws = held.connection.ws ∧
      later.connection.ssl = held.connection.ssl

theorem unread_flush (held : Held) (writes : List WriteResult) :
    held.Unread (held.flushed writes) := by
  unfold Unread flushed Connection.flush
  split
  · exact .inr ⟨rfl, rfl, rfl, rfl, rfl⟩
  · exact .inr ⟨rfl, rfl, rfl, rfl, rfl⟩

theorem Unread.closes {onClose : List HandlerOp} {middle : Held} (unread : held.Unread middle)
    (reset : middle.resetConnection limits conn onClose = some later) : held.Unread later := by
  rcases resetConnection_cases reset with gone | rfl
  · exact .inl gone
  · exact unread

theorem unread_onWrite {writes : List WriteResult} {onClose : List HandlerOp}
    (wrote : held.onWrite limits conn writes onClose = some later) : held.Unread later := by
  have flushed := held.unread_flush writes
  unfold onWrite at wrote
  rcases resetUnlessAgain_cases wrote with gone | rfl
  · exact .inl gone
  · exact flushed

theorem unread_send (held : Held) (data : Bytes) (writes : List WriteResult) :
    held.Unread { held with
      connection := ((held.connection.writeString data).flush writes).2 } := by
  have written : ∀ connection, connection = held.connection.writeString data →
      connection.fd = held.connection.fd ∧ connection.req = held.connection.req ∧
        connection.resp = held.connection.resp ∧ connection.ws = held.connection.ws ∧
        connection.ssl = held.connection.ssl := by
    rintro connection rfl
    unfold Connection.writeString
    split
    · exact ⟨rfl, rfl, rfl, rfl, rfl⟩
    · exact ⟨rfl, rfl, rfl, rfl, rfl⟩
  have flushed := unread_flush ⟨held.connection.writeString data, held.pool⟩ writes
  obtain ⟨fd, req, resp, ws, ssl⟩ := written _ rfl
  refine flushed.imp_right ?_
  rintro ⟨flushedFd, flushedReq, flushedResp, flushedWs, flushedSsl⟩
  exact ⟨flushedFd.trans fd, flushedReq.trans req, flushedResp.trans resp, flushedWs.trans ws,
    flushedSsl.trans ssl⟩

theorem unread_wsWork {config : Config} {opcode : WebSocketOpcodeType} {input : WorkInput}
    (fresh : held.connection.ws = .reset)
    (worked : held.wsWork config conn opcode input = some later) : held.Unread later := by
  have unset : held.connection.ws.handlerFor opcode = none := by
    rw [fresh]
    cases opcode <;> rfl
  have flushed := held.unread_flush input.writes
  rw [wsWork, handleMessage, unset] at worked
  simp only [Option.bind_some] at worked
  unfold finishWork at worked
  simp only at worked
  split at worked
  · cases worked
    exact flushed
  · cases worked
    exact flushed
  · exact flushed.closes worked

/-- `OnRead` of a request that is not refused. -/
theorem unanswered_onRead {config : Config} {addr : UInt32} {pieces : List Bytes}
    {input : ReadInput} {result : OnReadResult}
    (unanswered : held.connection.Unanswered config addr pieces)
    (closable : held.connection.fd ≠ 0) (accepted : held.readReply config.limits input = none)
    (read : held.onRead config.limits conn input = some result)
    (opened : 0 ≤ result.held.connection.fd) :
    result.held.connection.Unanswered config addr
      (pieces ++ held.requestPieces config.limits input.reads) := by
  have same_fd := (readEffect_onRead read).fd.resolve_left (Int.not_lt.mpr opened)
  have descriptor : ¬ held.connection.fd < 0 := Int.not_lt.mpr (same_fd ▸ opened)
  have plain := unanswered.plain
  obtain ⟨⟨req, same, reads⟩, resp, ws, ssl⟩ := unanswered
  obtain ⟨data, reading, answering⟩ := Option.bind_eq_some_iff.mp read
  obtain ⟨closed, closing, rfl⟩ := Option.map_eq_some_iff.mp answering
  unfold readReply at accepted
  rw [reading, Option.bind_some] at accepted
  have noReply : ¬ (data.status = .error ∧ data.conn.req.errorCode ≠ 0) := by
    intro replies
    rw [if_pos replies] at accepted
    cases accepted
  have unchanged : answer data.status input.date input.writes data.conn =
      (data.status, data.conn) := if_neg noReply
  rw [unchanged] at closing
  have dataFd := Connection.fd_readData reading
  unfold resetUnlessAgain at closing
  by_cases again : data.status = .again
  · rw [if_pos again] at closing
    cases closing
    rw [Connection.readData, if_neg descriptor, if_neg plain, same, ssl,
      Request.readData_withAddr] at reading
    obtain ⟨received, receives, rfl⟩ := Option.map_eq_some_iff.mp reading
    obtain ⟨first, taken, rfl⟩ := Option.map_eq_some_iff.mp receives
    have pieced : held.requestPieces config.limits input.reads =
        req.pieces config.tls config.limits.maxHeaderSize config.limits.maxPostSize
          input.reads := by
      rw [requestPieces, if_neg (not_or.mpr ⟨descriptor, plain⟩), same, ssl,
        Request.pieces_withAddr]
    have step : Request.readStep config.tls config.limits.maxHeaderSize
        config.limits.maxPostSize (req, pieces) input.reads =
          some (first.req, pieces ++ held.requestPieces config.limits input.reads) := by
      rw [Request.readStep, taken, Option.bind_some, pieced]
      exact if_pos again
    exact ⟨⟨first.req, rfl, reads.next _ trivial step⟩, resp, ws, rfl⟩
  · rw [if_neg again] at closing
    have still : data.conn.fd ≠ 0 := dataFd ▸ closable
    exact absurd opened (Int.not_le.mpr (closed_of_resetConnection closing still))

/-- `on_close_func_` is not called. -/
theorem opStrings_close {onClose : List HandlerOp}
    (plain : held.connection.fd < 0 ∨ held.connection.req.status ≠ .upgrade) :
    opStrings limits conn (.close onClose) held = [] := by
  rw [opStrings]
  refine if_neg fun ⟨opened, upgraded⟩ => ?_
  rcases plain with gone | plain
  · exact absurd opened (Int.not_lt.mpr (Int.le_of_lt gone))
  · exact plain upgraded

theorem silent_finishOutput {writes : List WriteResult} {onClose : List HandlerOp}
    (plain : held.connection.fd < 0 ∨ held.connection.req.status ≠ .upgrade) :
    (held.finishOutput limits conn [] writes onClose).strings = [] ∧
      (held.finishOutput limits conn [] writes onClose).late = [] := by
  have flushed : (held.flushed writes).connection.fd < 0 ∨
      (held.flushed writes).connection.req.status ≠ .upgrade := by
    rw [Held.flushed, Connection.fd_flush, Connection.req_flush]
    exact plain
  refine ⟨rfl, ?_⟩
  unfold finishOutput
  simp only
  split
  · rfl
  · rfl
  · exact opStrings_close flushed

theorem silent_onWrite {writes : List WriteResult} {onClose : List HandlerOp}
    (plain : held.connection.fd < 0 ∨ held.connection.req.status ≠ .upgrade) :
    (held.onWriteOutput limits conn writes onClose).late = [] := by
  have flushed : (held.flushed writes).connection.fd < 0 ∨
      (held.flushed writes).connection.req.status ≠ .upgrade := by
    rw [Held.flushed, Connection.fd_flush, Connection.req_flush]
    exact plain
  unfold onWriteOutput
  simp only
  split
  · rfl
  · exact opStrings_close flushed

theorem silent_onRead {input : ReadInput}
    (plain : held.connection.fd < 0 ∨ held.connection.req.status ≠ .upgrade)
    (accepted : held.readReply limits input = none) :
    (held.onReadOutput limits conn input).strings = [] ∧
      (held.onReadOutput limits conn input).late = [] := by
  unfold onReadOutput
  unfold readReply at accepted
  cases reading : held.connection.readData limits input.now input.reads with
  | none => exact ⟨rfl, rfl⟩
  | some read =>
      rw [reading, Option.bind_some] at accepted
      have noReply : ¬ (read.status = .error ∧ read.conn.req.errorCode ≠ 0) := by
        intro replies
        rw [if_pos replies] at accepted
        cases accepted
      have later : read.conn.fd < 0 ∨ read.conn.req.status ≠ .upgrade := by
        rw [Connection.fd_readData reading]
        refine plain.imp_right fun plain => ?_
        unfold Connection.readData at reading
        split at reading
        · cases reading
          exact plain
        · obtain ⟨result, received, rfl⟩ := Option.map_eq_some_iff.mp reading
          exact Request.status_readData plain received
      have answered : (answer read.status input.date input.writes read.conn).2.fd < 0 ∨
          (answer read.status input.date input.writes read.conn).2.req.status ≠ .upgrade := by
        rw [answer_effect.1, answer_effect.2]
        exact later
      refine ⟨if_neg noReply, ?_⟩
      simp only
      split
      · rfl
      · exact opStrings_close answered

end Held

namespace EventLoop

/-- Whatever is done with a connection that has not been answered, nothing is queued on it,
unless its request is refused or `WorkerThread` runs. -/
theorem silent_output {config : Config} {el : EventLoop} {action : Action} {conn : ConnId}
    {output : Output} {addr : UInt32} {pieces : List Bytes}
    (found : el.output config action = some (conn, output))
    (waits : (el.connections conn).fd < 0 ∨
      (el.connections conn).Unanswered config addr pieces)
    (accepted : ∀ input, action = .onRead conn input →
      (el.hold conn).readReply config.limits input = none)
    (notWork : ∀ input task, action = .runTask input → el.worker = some task →
      ¬ (el.connections task.conn).fd < 0 → task.conn ≠ conn)
    (notSend : ∀ data writes, action ≠ .safeWrite conn data writes) :
    output.strings = [] ∧ output.late = [] := by
  have plain := waits.imp_right Connection.Unanswered.plain
  cases action with
  | onRead other input =>
      cases found
      exact Held.silent_onRead plain (accepted input rfl)
  | onWrite other writes onClose =>
      cases found
      exact ⟨rfl, Held.silent_onWrite plain⟩
  | runTask input =>
      obtain ⟨task, held_task, works⟩ := Option.bind_eq_some_iff.mp found
      obtain ⟨descriptor, same⟩ := Option.ite_none_left_eq_some.mp works
      cases same
      exact absurd rfl (notWork input task rfl held_task descriptor)
  | runWsTask input =>
      obtain ⟨item, -, works⟩ := Option.bind_eq_some_iff.mp found
      obtain ⟨descriptor, same⟩ := Option.ite_none_left_eq_some.mp works
      cases same
      have unset : (el.connections item.session.conn).ws.handlerFor item.task.opcode = none := by
        rw [(waits.resolve_left descriptor).ws]
        cases item.task.opcode <;> rfl
      simp only [Held.wsWorkOutput, Held.handleMessage, Held.messageStrings, EventLoop.hold, unset]
      exact Held.silent_finishOutput plain
  | expire onClose =>
      unfold EventLoop.output at found
      cases timeout : el.timeout with
      | checking now other =>
          simp only [timeout] at found
          obtain ⟨-, same⟩ := Option.ite_none_right_eq_some.mp found
          cases same
          exact ⟨rfl, Held.opStrings_close plain⟩
      | _ =>
          simp only [timeout] at found
          cases found
  | safeWrite other data writes =>
      cases found
      exact absurd rfl (notSend data writes)
  | _ => cases found

end EventLoop

/-- How `WorkerThread` has first answered a client: what had been read of it until then, whether
it had been refused, what `WorkerThread` has found, and what its section has depended on. -/
structure Answer where
  pieces : List Bytes
  refused : Bool
  held : Held
  input : WorkInput

/-- What `WorkerThread` has queued. -/
def Answer.strings (config : Config) (conn : ConnId) (answer : Answer) : List Bytes :=
  (answer.held.workOutput conn config answer.input).strings

/-- The client that occupies a connection, or the last one that has. -/
structure ClientSession where
  addr : UInt32
  pieces : List Bytes
  refused : Bool
  answer : Option Answer

/-- The event loop with its output and its clients. -/
structure Serving where
  out : Outgoing
  clients : ConnId → ClientSession

namespace Serving

variable {config : Config} {state later : Serving}

def initial (config : Config) : Serving where
  out := .initial config
  clients := fun _ => ⟨0, [], false, none⟩

/-- What a call of `OnRead` reads. -/
def pieces (config : Config) (state : Serving) : Action → List Bytes
  | .onRead conn input => (state.out.el.hold conn).requestPieces config.limits input.reads
  | _ => []

/-- The client of a connection behind a step of which it is read. -/
def readAfter (config : Config) (state : Serving) (conn : ConnId) (input : ReadInput) :
    ClientSession :=
  let client := state.clients conn
  { client with
    pieces := client.pieces ++ state.pieces config (.onRead conn input)
    refused := client.refused ||
      ((state.out.el.hold conn).readReply config.limits input).isSome }

/-- The client of a connection that `WorkerThread` answers. -/
def answeredAfter (state : Serving) (conn : ConnId) (input : WorkInput) : ClientSession :=
  let client := state.clients conn
  { client with
    answer := client.answer.or <| some
      { pieces := client.pieces
        refused := client.refused
        held := state.out.el.hold conn
        input := input } }

/-- The clients behind a step.  A session begins when `Accept` installs its descriptor. -/
def clientsAfter (config : Config) (state : Serving) : Action → ConnId → ClientSession
  | .install conn _ addr _ _ => Function.update state.clients conn ⟨addr, [], false, none⟩
  | .onRead conn input =>
      Function.update state.clients conn (state.readAfter config conn input)
  | .runTask input =>
      match state.out.el.worker with
      | some task =>
          if (state.out.el.connections task.conn).fd < 0 then
            state.clients
          else
            Function.update state.clients task.conn (state.answeredAfter task.conn input)
      | none => state.clients
  | _ => state.clients

def step (config : Config) (state : Serving) (action : Action) : Option Serving :=
  (state.out.step config action).map fun later => ⟨later, state.clientsAfter config action⟩

/-- A regular step of the event loop that reads no more than the buffer holds, and in which no
thread of the application writes to a client that has not been answered. -/
def Regular (config : Config) (state : Serving) (action : Action) : Prop :=
  state.out.Regular config action ∧
    (∀ piece ∈ state.pieces config action, piece.length ≤ readBufferSize) ∧
      match action with
      | .safeWrite conn _ _ => (state.clients conn).answer.isSome
      | _ => True

instance (config : Config) (state : Serving) : DecidablePred (state.Regular config)
  | .safeWrite conn _ _ =>
      inferInstanceAs (Decidable (_ ∧ _ ∧ (state.clients conn).answer.isSome))
  | .poll _ | .beginAccept | .accepted _ | .wouldBlock | .install _ _ _ _ _ | .updateErase _
  | .updatePush _ | .onRead _ _ | .onWrite _ _ _ | .takeTask | .runTask _ | .takeWsTask
  | .runWsTask _ | .timeoutCheck _ | .checkFirst | .peek | .expire _ | .checkNext =>
      inferInstanceAs (Decidable (_ ∧ _ ∧ True))

end Serving

namespace EventLoop

variable {config : Config} {el later : EventLoop} {action : Action} {conn : ConnId}
  {addr : UInt32} {pieces : List Bytes}

/-- A connection that has not been answered, if it is open. -/
def Waits (config : Config) (el : EventLoop) (conn : ConnId) (addr : UInt32)
    (pieces : List Bytes) : Prop :=
  (el.connections conn).fd < 0 ∨ (el.connections conn).Unanswered config addr pieces

theorem Waits.of_unread (waits : el.Waits config conn addr pieces) {other : ConnId}
    {held : Held} (fd : held.connection.fd < 0 ∨ held.connection.fd = (el.connections other).fd)
    (unread : other = conn → (el.connections conn).Unanswered config addr pieces →
      (el.hold other).Unread held) : (el.put other held).Waits config conn addr pieces := by
  by_cases same : other = conn
  · subst same
    simp only [Waits, put_connections, Function.update_self]
    rcases waits with closed | unanswered
    · exact .inl (fd.elim id fun same => same ▸ closed)
    · refine (unread rfl unanswered).imp_right ?_
      rintro ⟨-, req, resp, ws, ssl⟩
      exact unanswered.of_same req resp ws ssl
  · simp only [Waits, put_connections, Function.update_of_ne (Ne.symm same)]
    exact waits

/-- A step that neither installs nor reads the connection, and in which `WorkerThread` does not
answer it. -/
theorem Waits.step (waits : el.Waits config conn addr pieces)
    (stepped : el.step config action = some later)
    (notInstall : ∀ clifd addr now ready, action ≠ .install conn clifd addr now ready)
    (notRead : ∀ input, action ≠ .onRead conn input)
    (notWork : ∀ input task, action = .runTask input → el.worker = some task →
      ¬ (el.connections task.conn).fd < 0 → task.conn ≠ conn) :
    later.Waits config conn addr pieces := by
  cases effect_of_step stepped with
  | moves | pops | takesTask | dropsTask | takesWsTask | dropsWsTask => exact waits
  | installs other clifd otherAddr now ready =>
      have different : conn ≠ other := by
        rintro rfl
        exact notInstall _ _ _ _ rfl
      simp only [Waits, put_connections, Function.update_of_ne different]
      exact waits
  | reads other input read reading =>
      have different : conn ≠ other := by
        rintro rfl
        exact notRead _ rfl
      simp only [Waits, push_connections, put_connections, Function.update_of_ne different]
      exact waits
  | writes other writes onClose held writing =>
      exact waits.of_unread ((Held.kept_onWrite writing).imp_right And.left)
        fun _ _ => Held.unread_onWrite writing
  | expires other now onClose held reset =>
      refine waits.of_unread ((Held.kept_resetConnection reset).imp_right And.left) fun _ _ => ?_
      exact Held.Unread.closes (.inr ⟨rfl, rfl, rfl, rfl, rfl⟩) reset
  | sends other data writes =>
      exact waits.of_unread ((Held.kept_send (el.hold other) data writes).imp_right And.left)
        fun _ _ => Held.unread_send _ data writes
  | runsTask input task held held_task descriptor worked =>
      refine waits.of_unread ((Held.handled_work worked).imp_right And.left) fun same _ => ?_
      exact absurd same (notWork input task rfl held_task descriptor)
  | runsWsTask input item held held_item descriptor worked =>
      refine waits.of_unread ((Held.handled_wsWork worked).imp_right And.left) fun same fresh => ?_
      subst same
      exact Held.unread_wsWork fresh.ws worked

/-- A call of `OnRead` that does not refuse the request. -/
theorem Waits.reads (waits : el.Waits config conn addr pieces) {input : ReadInput}
    (closable : (el.connections conn).fd ≠ 0)
    (accepted : (el.hold conn).readReply config.limits input = none)
    (stepped : el.step config (.onRead conn input) = some later) :
    later.Waits config conn addr
      (pieces ++ (el.hold conn).requestPieces config.limits input.reads) := by
  rw [step_onRead (enabled_of_onRead stepped)] at stepped
  obtain ⟨read, reading, rfl⟩ := Option.map_eq_some_iff.mp stepped
  simp only [Waits, push_connections, put_connections, Function.update_self]
  rcases waits with closed | unanswered
  · refine .inl ?_
    rcases (Held.readEffect_onRead reading).fd with gone | same
    · exact gone
    · rw [same]
      exact closed
  · by_cases opened : read.held.connection.fd < 0
    · exact .inl opened
    · exact .inr (Held.unanswered_onRead unanswered closable accepted reading
        (Int.not_lt.mp opened))

/-- `Accept` begins a session on a connection that is new. -/
theorem waits_install {clifd now : Int} {ready : Bool} (apart : el.KeptApart)
    (closable : clifd ≠ 0)
    (stepped : el.step config (.install conn clifd addr now ready) = some later) :
    later.Waits config conn addr [] ∧ (later.connections conn).fd ≠ 0 := by
  obtain ⟨popped, connections⟩ := installs_of_step stepped
  obtain ⟨free, apart⟩ := apart
  obtain ⟨-, new, -, nonnegative⟩ := apart.popped conn clifd popped
  rw [Waits, connections, Function.update_self]
  cases ready with
  | true =>
      simp only [installIn, hold, new, if_true]
      exact ⟨.inr (Connection.unanswered_new config addr clifd now), closable⟩
  | false =>
      have opened : 0 < clifd := Int.lt_iff_le_and_ne.mpr ⟨nonnegative, closable.symm⟩
      have gone : (installIn config conn clifd addr now false (el.hold conn)).connection = .new :=
        Connection.reset_of_open opened
      rw [gone]
      exact ⟨.inl (by decide), by decide⟩

theorem closable_step (closable : ∀ conn, (el.connections conn).fd ≠ 0)
    (stepped : el.step config action = some later)
    (notInstall : ∀ conn clifd addr now ready, action ≠ .install conn clifd addr now ready)
    (conn : ConnId) : (later.connections conn).fd ≠ 0 := by
  have puts : ∀ {other : ConnId} {held : Held}, held.connection.fd < 0 ∨
      held.connection.fd = (el.connections other).fd →
        ((el.put other held).connections conn).fd ≠ 0 := by
    intro other held fd
    by_cases same : conn = other
    · subst same
      simp only [put_connections, Function.update_self]
      rcases fd with gone | same
      · exact Int.ne_of_lt gone
      · rw [same]
        exact closable conn
    · simp only [put_connections, Function.update_of_ne same]
      exact closable conn
  cases effect_of_step stepped with
  | moves | pops | takesTask | dropsTask | takesWsTask | dropsWsTask => exact closable conn
  | installs other clifd addr now ready => exact absurd rfl (notInstall other clifd addr now ready)
  | reads other input read reading =>
      rw [push_connections]
      exact puts (Held.readEffect_onRead reading).fd
  | writes other writes onClose held writing =>
      exact puts ((Held.kept_onWrite writing).imp_right And.left)
  | expires other now onClose held reset =>
      exact puts ((Held.kept_resetConnection reset).imp_right And.left)
  | sends other data writes =>
      exact puts ((Held.kept_send (el.hold other) data writes).imp_right And.left)
  | runsTask input task held _ _ worked =>
      exact puts ((Held.handled_work worked).imp_right And.left)
  | runsWsTask input item held _ _ worked =>
      exact puts ((Held.handled_wsWork worked).imp_right And.left)

end EventLoop

namespace Outgoing

variable {config : Config} {state later : Outgoing} {action : Action} {conn : ConnId}

def added (config : Config) (state : Outgoing) (action : Action) (conn : ConnId) : Bytes :=
  match state.el.output config action with
  | some (other, output) =>
      if other = conn then (output.strings ++ output.late).flatten else []
  | none => []

theorem queued_of_step (stepped : state.step config action = some later)
    (notInstall : ∀ clifd addr now ready, action ≠ .install conn clifd addr now ready) :
    later.queued conn = state.queued conn ++ state.added config action conn := by
  obtain ⟨el, -, rfl⟩ := Option.map_eq_some_iff.mp stepped
  have others : ∀ other clifd addr now ready,
      action = .install other clifd addr now ready → conn ≠ other := by
    rintro other clifd addr now ready same rfl
    exact notInstall clifd addr now ready same
  unfold behind added
  cases action with
  | install other clifd addr now ready =>
      simp only [Function.update_of_ne (others _ _ _ _ _ rfl), EventLoop.output, List.append_nil]
  | _ =>
      simp only
      cases found : state.el.output config _ with
      | none => exact (List.append_nil _).symm
      | some result =>
          obtain ⟨other, output⟩ := result
          by_cases same : other = conn
          · subst same
            simp only [put, Function.update_self, if_true]
          · simp only [put, Function.update_of_ne (Ne.symm same), if_neg same, List.append_nil]

end Outgoing

namespace Serving

variable {config : Config} {state later : Serving} {action : Action} {conn : ConnId}

/-- What `WorkerThread` has found when it has first answered a client that had not been refused,
and that its answer is the first that has been queued for this client. -/
structure AnswersFirst (config : Config) (state : Serving) (conn : ConnId) (answer : Answer) :
    Prop where
  opened : ¬ answer.held.connection.fd < 0
  found : answer.held.connection.Unanswered config (state.clients conn).addr answer.pieces
  short : ∀ piece ∈ answer.pieces, piece.length ≤ readBufferSize
  first : (answer.strings config conn).flatten <+: state.out.queued conn

structure Tracks (config : Config) (state : Serving) (conn : ConnId) : Prop where
  short : ∀ piece ∈ (state.clients conn).pieces, piece.length ≤ readBufferSize
  waits : (state.clients conn).refused = false → (state.clients conn).answer = none →
    state.out.el.Waits config conn (state.clients conn).addr (state.clients conn).pieces ∧
      state.out.queued conn = []
  answers : ∀ answer ∈ (state.clients conn).answer, answer.refused = false →
    state.AnswersFirst config conn answer

structure Serves (config : Config) (state : Serving) : Prop where
  apart : state.out.el.KeptApart
  closable : ∀ conn, (state.out.el.connections conn).fd ≠ 0
  tracks : ∀ conn, state.Tracks config conn

theorem serves_initial (config : Config) : (initial config).Serves config where
  apart := .initial config
  closable := by
    intro conn
    have closed : Connection.new.fd ≠ 0 := by decide
    exact closed
  tracks := by
    intro conn
    have closed : Connection.new.fd < 0 := by decide
    refine ⟨fun piece among => absurd among List.not_mem_nil, fun _ _ => ⟨.inl closed, rfl⟩, ?_⟩
    intro answer isAnswer
    cases isAnswer

theorem AnswersFirst.grows {answer : Answer} (answers : state.AnswersFirst config conn answer)
    {more : Bytes} (addr : (later.clients conn).addr = (state.clients conn).addr)
    (queued : later.out.queued conn = state.out.queued conn ++ more) :
    later.AnswersFirst config conn answer := by
  refine ⟨answers.opened, ?_, answers.short, ?_⟩
  · rw [addr]
    exact answers.found
  · rw [queued]
    exact answers.first.trans (List.prefix_append _ _)

theorem Tracks.frame (tracks : state.Tracks config conn)
    (stepped : state.step config action = some later)
    (same : state.clientsAfter config action conn = state.clients conn)
    (notInstall : ∀ clifd addr now ready, action ≠ .install conn clifd addr now ready)
    (notRead : ∀ input, action ≠ .onRead conn input)
    (notWork : ∀ input task, action = .runTask input → state.out.el.worker = some task →
      ¬ (state.out.el.connections task.conn).fd < 0 → task.conn ≠ conn)
    (notSend : (state.clients conn).answer = none →
      ∀ data writes, action ≠ .safeWrite conn data writes) : later.Tracks config conn := by
  obtain ⟨out, outStepped, rfl⟩ := Option.map_eq_some_iff.mp stepped
  have queued := Outgoing.queued_of_step outStepped notInstall
  obtain ⟨el, taken, rfl⟩ := Option.map_eq_some_iff.mp outStepped
  refine ⟨?_, ?_, ?_⟩
  · simp only [same]
    exact tracks.short
  · simp only [same]
    intro accepted unanswered
    obtain ⟨waits, nothing⟩ := tracks.waits accepted unanswered
    have silent : state.out.added config action conn = [] := by
      unfold Outgoing.added
      cases found : state.out.el.output config action with
      | none => rfl
      | some result =>
          obtain ⟨other, output⟩ := result
          by_cases here : other = conn
          · subst here
            obtain ⟨strings, late⟩ := EventLoop.silent_output found waits
              (fun input isRead => absurd isRead (notRead input)) notWork (notSend unanswered)
            simp only [if_true, strings, late, List.append_nil, List.flatten_nil]
          · exact if_neg here
    rw [silent, nothing] at queued
    have connections : (state.out.behind config el action).el = el := by
      unfold Outgoing.behind
      split
      · rfl
      · split <;> rfl
    rw [connections]
    exact ⟨waits.step taken notInstall notRead notWork, queued⟩
  · simp only [same]
    intro answer isAnswer accepted
    exact (tracks.answers answer isAnswer accepted).grows (congrArg ClientSession.addr same) queued

/-- `Accept` begins a session. -/
theorem Serves.tracks_install (serves : state.Serves config) {clifd now : Int} {addr : UInt32}
    {ready : Bool} (closable : clifd ≠ 0)
    (stepped : state.step config (.install conn clifd addr now ready) = some later) :
    later.Tracks config conn := by
  obtain ⟨out, outStepped, rfl⟩ := Option.map_eq_some_iff.mp stepped
  obtain ⟨el, taken, rfl⟩ := Option.map_eq_some_iff.mp outStepped
  have waits := (EventLoop.waits_install serves.apart closable taken).1
  refine ⟨?_, ?_, ?_⟩
  · simp only [clientsAfter, Function.update_self]
    exact fun piece among => absurd among List.not_mem_nil
  · simp only [clientsAfter, Outgoing.behind, Function.update_self]
    exact fun _ _ => ⟨waits, trivial⟩
  · simp only [clientsAfter, Function.update_self]
    intro answer isAnswer
    cases isAnswer

/-- `OnRead` of the client. -/
theorem Serves.tracks_onRead (serves : state.Serves config) {input : ReadInput}
    (short : ∀ piece ∈ state.pieces config (.onRead conn input), piece.length ≤ readBufferSize)
    (stepped : state.step config (.onRead conn input) = some later) :
    later.Tracks config conn := by
  have tracks := serves.tracks conn
  obtain ⟨out, outStepped, rfl⟩ := Option.map_eq_some_iff.mp stepped
  have queued := @Outgoing.queued_of_step _ _ _ _ conn outStepped (by simp)
  obtain ⟨el, taken, rfl⟩ := Option.map_eq_some_iff.mp outStepped
  refine ⟨?_, ?_, ?_⟩
  · simp only [clientsAfter, Function.update_self, readAfter]
    exact List.forall_mem_append.mpr ⟨tracks.short, short⟩
  · simp only [clientsAfter, Function.update_self, readAfter, Bool.or_eq_false_iff,
      Option.isSome_eq_false_iff, Option.isNone_iff_eq_none]
    rintro ⟨accepted, unrefused⟩ unanswered
    obtain ⟨waits, nothing⟩ := tracks.waits accepted unanswered
    have plain : (state.out.el.hold conn).connection.fd < 0 ∨
        (state.out.el.hold conn).connection.req.status ≠ .upgrade :=
      waits.imp_right Connection.Unanswered.plain
    obtain ⟨strings, late⟩ := @Held.silent_onRead _ conn _ _ plain unrefused
    have silent : state.out.added config (.onRead conn input) conn = [] := by
      have whole : state.out.added config (.onRead conn input) conn =
          (((state.out.el.hold conn).onReadOutput config.limits conn input).strings ++
            ((state.out.el.hold conn).onReadOutput config.limits conn input).late).flatten :=
        if_pos rfl
      rw [whole, strings, late]
      rfl
    rw [silent, nothing] at queued
    exact ⟨waits.reads (serves.closable conn) unrefused taken, queued⟩
  · simp only [clientsAfter, Function.update_self, readAfter]
    intro answer isAnswer accepted
    refine (tracks.answers answer isAnswer accepted).grows ?_ queued
    simp only [Function.update_self]

/-- `WorkerThread` answers the client. -/
theorem Serves.tracks_runTask (serves : state.Serves config) {input : WorkInput} {task : Session}
    (held_task : state.out.el.worker = some task)
    (descriptor : ¬ (state.out.el.connections task.conn).fd < 0)
    (stepped : state.step config (.runTask input) = some later) :
    later.Tracks config task.conn := by
  have tracks := serves.tracks task.conn
  obtain ⟨out, outStepped, rfl⟩ := Option.map_eq_some_iff.mp stepped
  have queued := @Outgoing.queued_of_step _ _ _ _ task.conn outStepped (by simp)
  have client : state.clientsAfter config (.runTask input) task.conn =
      state.answeredAfter task.conn input := by
    simp only [clientsAfter, held_task, if_neg descriptor, Function.update_self]
  refine ⟨?_, ?_, ?_⟩
  · simp only [client]
    exact tracks.short
  · simp only [client, answeredAfter]
    intro _ unanswered
    cases (Option.or_eq_none_iff.mp unanswered).2
  · simp only [client]
    have sameAddr : (state.clientsAfter config (.runTask input) task.conn).addr =
        (state.clients task.conn).addr := by
      rw [client]
      rfl
    intro answer isAnswer accepted
    rcases Option.or_eq_some_iff.mp isAnswer with earlier | ⟨unanswered, same⟩
    · exact (tracks.answers answer earlier accepted).grows sameAddr queued
    · cases same
      obtain ⟨waits, nothing⟩ := tracks.waits accepted unanswered
      have added : state.out.added config (.runTask input) task.conn =
          (((state.out.el.hold task.conn).workOutput task.conn config input).strings ++
            ((state.out.el.hold task.conn).workOutput task.conn config input).late).flatten := by
        simp only [Outgoing.added, EventLoop.output, held_task, Option.bind_some,
          if_neg descriptor, if_true]
      refine ⟨descriptor, ?_, tracks.short, ?_⟩
      · simp only [client]
        exact waits.resolve_left descriptor
      · rw [queued, nothing, added, List.nil_append, List.flatten_append]
        exact List.prefix_append _ _

theorem Serves.step (serves : state.Serves config) (regular : state.Regular config action)
    (stepped : state.step config action = some later) : later.Serves config := by
  obtain ⟨⟨last, -, special⟩, short, sends⟩ := regular
  have whole := stepped
  obtain ⟨out, outStepped, rfl⟩ := Option.map_eq_some_iff.mp stepped
  obtain ⟨el, taken, rfl⟩ := Option.map_eq_some_iff.mp outStepped
  have behind : (state.out.behind config el action).el = el := by
    unfold Outgoing.behind
    split
    · rfl
    · split <;> rfl
  refine ⟨?_, ?_, ?_⟩
  · rw [behind]
    exact serves.apart.step last taken
  · rw [behind]
    intro conn
    cases action with
    | install other clifd addr now ready =>
        by_cases same : conn = other
        · subst same
          exact (EventLoop.waits_install serves.apart special taken).2
        · rw [(EventLoop.installs_of_step taken).2, Function.update_of_ne same]
          exact serves.closable conn
    | _ => exact EventLoop.closable_step serves.closable taken (by simp) conn
  · intro conn
    have frame := (serves.tracks conn).frame whole
    cases action with
    | install other clifd addr now ready =>
        by_cases same : conn = other
        · subst same
          exact serves.tracks_install special whole
        · refine frame (Function.update_of_ne same _ _) ?_ (by simp) (by simp) (by simp)
          rintro _ _ _ _ ⟨⟩
          exact same rfl
    | onRead other input =>
        by_cases same : conn = other
        · subst same
          exact serves.tracks_onRead short whole
        · refine frame (Function.update_of_ne same _ _) (by simp) ?_ (by simp) (by simp)
          rintro _ ⟨⟩
          exact same rfl
    | runTask input =>
        by_cases works : ∃ task, state.out.el.worker = some task ∧
            ¬ (state.out.el.connections task.conn).fd < 0 ∧ task.conn = conn
        · obtain ⟨task, held_task, descriptor, rfl⟩ := works
          exact serves.tracks_runTask held_task descriptor whole
        · refine frame ?_ (by simp) (by simp) ?_ (by simp)
          · simp only [clientsAfter]
            cases held_task : state.out.el.worker with
            | none => rfl
            | some task =>
                by_cases descriptor : (state.out.el.connections task.conn).fd < 0
                · simp only [if_pos descriptor]
                · have different : conn ≠ task.conn := fun same =>
                    works ⟨task, held_task, descriptor, same.symm⟩
                  simp only [if_neg descriptor, Function.update_of_ne different]
          · intro _ task _ held_task descriptor same
            exact works ⟨task, held_task, descriptor, same⟩
    | safeWrite other data writes =>
        have answered : (state.clients other).answer.isSome = true := sends
        refine frame rfl (by simp) (by simp) (by simp) ?_
        rintro unanswered _ _ ⟨⟩
        rw [unanswered] at answered
        cases answered
    | _ => exact frame rfl (by simp) (by simp) (by simp) (by simp)

/-- In every run whose steps are regular, whatever the threads do meanwhile: what `WorkerThread`
has found when it has first answered a client that had not been refused is what `ReadData` makes
of the bytes of this client, with its address, and everything else is as it is constructed; and
its answer is the first that is queued for this client. -/
theorem answers_of_regular {config : Config} {state : Serving}
    (reached : Reaches (step config) (fun state => state.Regular config) (initial config) state)
    (conn : ConnId) : ∀ answer ∈ (state.clients conn).answer, answer.refused = false →
      state.AnswersFirst config conn answer := by
  have serves : state.Serves config := by
    refine reached.invariant (serves_initial config) ?_
    intro state action later serves regular stepped
    exact serves.step regular stepped
  exact (serves.tracks conn).answers

/-- The second client on a connection asks for `/b`, in two pieces; the answer to the first one
has broken off. -/
theorem answers_second_client : ∃ (state : Serving) (answer : Answer),
    (state.clients 0).answer = some answer ∧ answer.pieces.map List.length = [6, 5] ∧
      state.AnswersFirst EventLoop.plainConfig 0 answer := by
  have replays : (replay (step EventLoop.plainConfig)
      (fun state => state.Regular EventLoop.plainConfig) (initial EventLoop.plainConfig)
      (EventLoop.accepting 5 1 ++
        EventLoop.reading (EventLoop.arrival 2 EventLoop.smallRequest) ++
        [.takeTask, .runTask ⟨[], [], [.accepted 3, .failed .other .other], []⟩] ++
        EventLoop.accepting 6 3 ++
        EventLoop.reading (EventLoop.arrival 4 [.delivered 71 [69, 84, 32, 47, 98]]) ++
        EventLoop.reading (EventLoop.arrival 5 [.delivered 32 [13, 10, 13, 10]]) ++
        [.takeTask, .runTask ⟨[], [], [.accepted 5], []⟩])).bind (fun state =>
          (state.clients 0).answer.map fun answer =>
            (answer.refused, answer.pieces.map List.length)) = some (false, [6, 5]) := by
    decide +kernel
  obtain ⟨state, replayed, answered⟩ := Option.bind_eq_some_iff.mp replays
  obtain ⟨answer, isAnswer, same⟩ := Option.map_eq_some_iff.mp answered
  obtain ⟨accepted, lengths⟩ := Prod.mk.inj same
  exact ⟨state, answer, isAnswer, lengths,
    answers_of_regular (reaches_of_replay replayed) 0 answer isAnswer accepted⟩

end Serving

end Mevent
