import Mevent.EventLoop.Isolation
import Mevent.EventLoop.Leftovers
import Mevent.EventLoop.Settling

/-!
# What each client gets

The event loop with what is queued in the session of each connection and what its socket has
accepted.  On plain sockets a client gets what has been queued for it, in order and once, and
nothing that has been queued for another client.
-/

namespace Mevent

open Library

def Call.strings (limits : Limits) (conn : Connection) : Call → List Bytes
  | .writeErrorMessage code date => [Response.errorText code date]
  | .upgrade date =>
      if conn.req.secWebsocketKey = [] then
        []
      else
        [WebSocket.handshake limits.sha1 conn.req.secWebsocketKey date]
  | .sendPong str => [WebSocket.makeFrame [] str (UInt8.ofNat WebSocketOpcodeType.pong.code)]
  | .sendPing str => [WebSocket.makeFrame [] str (UInt8.ofNat WebSocketOpcodeType.ping.code)]
  | .writeString str =>
      [WebSocket.makeFrame [] str (UInt8.ofNat WebSocketOpcodeType.textFrame.code)]
  | _ => []

/-- Nothing is queued on a connection without a descriptor. -/
def Connection.kept (conn : Connection) (strs : List Bytes) : List Bytes :=
  if conn.fd < 0 then [] else strs

namespace Held

variable (limits : Limits) (conn : ConnId)

mutual

def opStrings : HandlerOp → Held → List Bytes
  | .call call, held => held.connection.kept (call.strings limits held.connection)
  | .close onClose, held =>
      if 0 < held.connection.fd ∧ held.connection.req.status = .upgrade then
        opsStrings onClose held
      else
        []

def opsStrings : List HandlerOp → Held → List Bytes
  | [], _ => []
  | op :: ops, held =>
      opStrings op held ++
        match held.runOp limits conn op with
        | some middle => opsStrings ops middle
        | none => []

end

def requestStrings (config : Config) (input : WorkInput) (held : Held) : List Bytes :=
  match config.routes held.connection.req.path with
  | some _ => held.opsStrings config.limits conn input.script
  | none => held.connection.kept [Response.errorText 404 input.date]

def responseStrings (date : Bytes) (held : Held) : List Bytes :=
  if held.connection.req.status = .upgrade then
    []
  else
    held.connection.kept (held.connection.resp.flush date).2

def messageStrings (config : Config) (opcode : WebSocketOpcodeType) (input : WorkInput)
    (held : Held) : List Bytes :=
  match held.connection.ws.handlerFor opcode with
  | some _ => held.opsStrings config.limits conn input.script
  | none => []

/-- What a connection is left as by `Flush`. -/
def flushed (writes : List WriteResult) (held : Held) : Held :=
  { held with connection := (held.connection.flush writes).2 }

end Held

/-- What a section gives to the socket of its connection: the strings that it queues, the
calls of `Writen`, and the strings that `on_close_func_` queues behind them. -/
structure Output where
  strings : List Bytes
  writings : List Writing
  late : List Bytes

namespace Held

variable (limits : Limits) (conn : ConnId)

def onWriteOutput (writes : List WriteResult) (onClose : List HandlerOp) (held : Held) :
    Output where
  strings := []
  writings := held.connection.writings writes
  late :=
    if (held.connection.flush writes).1 = .again then
      []
    else
      (held.flushed writes).opStrings limits conn (.close onClose)

def onReadOutput (input : ReadInput) (held : Held) : Output :=
  match held.connection.readData limits input.now input.reads with
  | some read =>
      let answered := answer read.status input.date input.writes read.conn
      let replies := read.status = .error ∧ read.conn.req.errorCode ≠ 0
      { strings :=
          if replies then
            read.conn.kept [Response.errorText read.conn.req.errorCode input.date]
          else
            []
        writings :=
          if replies then
            (read.conn.writeErrorMessage read.conn.req.errorCode input.date).writings input.writes
          else
            []
        late :=
          if answered.1 = .again then
            []
          else
            { held with connection := answered.2 }.opStrings limits conn (.close input.onClose) }
  | none => ⟨[], [], []⟩

/-- The output of `finishWork`, behind what has been queued. -/
def finishOutput (strings : List Bytes) (writes : List WriteResult) (onClose : List HandlerOp)
    (held : Held) : Output where
  strings := strings
  writings := held.connection.writings writes
  late :=
    match (held.connection.flush writes).1 with
    | .again | .upgrade => []
    | _ => (held.flushed writes).opStrings limits conn (.close onClose)

def workOutput (config : Config) (input : WorkInput) (held : Held) : Output :=
  match held.handleRequest config conn input with
  | some handled =>
      (handled.flushUnlessUpgraded input.date).finishOutput config.limits conn
        (held.requestStrings conn config input ++ handled.responseStrings input.date)
        input.writes input.onClose
  | none => ⟨[], [], []⟩

def wsWorkOutput (config : Config) (opcode : WebSocketOpcodeType) (input : WorkInput)
    (held : Held) : Output :=
  match held.handleMessage config conn opcode input with
  | some handled =>
      handled.finishOutput config.limits conn (held.messageStrings conn config opcode input)
        input.writes input.onClose
  | none => ⟨[], [], []⟩

end Held

namespace EventLoop

/-- The output of a step, with its connection. -/
def output (config : Config) (el : EventLoop) : Action → Option (ConnId × Output)
  | .onRead conn input => some (conn, (el.hold conn).onReadOutput config.limits conn input)
  | .onWrite conn writes onClose =>
      some (conn, (el.hold conn).onWriteOutput config.limits conn writes onClose)
  | .runTask input =>
      el.worker.bind fun task =>
        if (el.connections task.conn).fd < 0 then
          none
        else
          some (task.conn, (el.hold task.conn).workOutput task.conn config input)
  | .runWsTask input =>
      el.wsWorker.bind fun item =>
        let conn := item.session.conn
        if (el.connections conn).fd < 0 then
          none
        else
          some (conn, (el.hold conn).wsWorkOutput conn config item.task.opcode input)
  | .expire onClose =>
      match el.timeout with
      | .checking now conn =>
          let activeTime := (el.connections conn).activeTime
          if 0 < activeTime ∧ config.idleTimeout ≤ now - activeTime then
            some (conn, ⟨[], [], (el.hold conn).opStrings config.limits conn (.close onClose)⟩)
          else
            none
      | _ => none
  | .safeWrite conn data writes =>
      let connection := el.connections conn
      some (conn, ⟨connection.kept [data], (connection.writeString data).writings writes, []⟩)
  | _ => none

end EventLoop

namespace Connection

variable {limits : Limits} {conn later : Connection} {strs : List Bytes}

def InOrder (conn : Connection) (queued accepted : Bytes) (torn : Bool) : Prop :=
  (Sending.mk conn queued accepted torn none false).Sound

def Sends (conn later : Connection) (strs : List Bytes) : Prop :=
  ∀ queued accepted torn, (∀ str ∈ strs, str.length ≤ vectorMaxSize) →
    conn.InOrder queued accepted torn → later.InOrder (queued ++ strs.flatten) accepted torn

theorem Sends.refl (conn : Connection) : conn.Sends conn [] := by
  intro queued accepted torn _ inOrder
  rwa [List.flatten_nil, List.append_nil]

theorem Sends.trans {middle : Connection} {more : List Bytes} (first : conn.Sends middle strs)
    (second : middle.Sends later more) : conn.Sends later (strs ++ more) := by
  intro queued accepted torn inMemory inOrder
  rw [List.forall_mem_append] at inMemory
  rw [List.flatten_append, ← List.append_assoc]
  exact second _ _ _ inMemory.2 (first _ _ _ inMemory.1 inOrder)

theorem InOrder.of_same {queued accepted : Bytes} {torn : Bool}
    (inOrder : conn.InOrder queued accepted torn) (fd : later.fd = conn.fd)
    (chain : later.writeBufferChain = conn.writeBufferChain) (ssl : later.ssl = conn.ssl) :
    later.InOrder queued accepted torn := by
  refine ⟨ssl.trans inOrder.plain, ?_, inOrder.inOrder, ?_, ?_, nofun⟩
  · simp only [chain]
    exact inOrder.waiting
  · simp only [fd, chain]
    exact inOrder.whole
  · simp only [fd, chain]
    exact inOrder.kept

theorem inOrder_empty (plain : conn.ssl = false) (chain : conn.writeBufferChain = []) :
    conn.InOrder [] [] false := by
  refine ⟨plain, ?_, List.prefix_rfl, ?_, ?_, ?_⟩
  · simp [chain]
  · simp [chain]
  · simp
  · simp

theorem Sends.of_same (fd : later.fd = conn.fd)
    (chain : later.writeBufferChain = conn.writeBufferChain) (ssl : later.ssl = conn.ssl) :
    conn.Sends later [] := by
  intro queued accepted torn _ inOrder
  rw [List.flatten_nil, List.append_nil]
  exact inOrder.of_same fd chain ssl

theorem kept_nil (conn : Connection) : conn.kept [] = [] := by
  unfold kept
  split
  · rfl
  · rfl

theorem kept_cons (conn : Connection) (str : Bytes) (strs : List Bytes) :
    conn.kept (str :: strs) = conn.kept [str] ++ conn.kept strs := by
  unfold kept
  split
  · rfl
  · rfl

theorem sends_writeString (conn : Connection) (str : Bytes) :
    conn.Sends (conn.writeString str) (conn.kept [str]) := by
  intro queued accepted torn inMemory inOrder
  unfold kept at inMemory ⊢
  by_cases closed : conn.fd < 0
  · have same : conn.writeString str = conn := if_pos (.inr closed)
    rw [same, if_pos closed, List.flatten_nil, List.append_nil]
    exact inOrder
  · rw [if_neg closed] at inMemory ⊢
    have written := Sending.Sound.writeString inOrder (inMemory str List.mem_cons_self)
    simp only [Sending.writeString, if_neg closed] at written
    rwa [List.flatten_singleton]

theorem sends_writeErrorMessage (conn : Connection) (code : Int) (date : Bytes) :
    conn.Sends (conn.writeErrorMessage code date)
      (conn.kept [Response.errorText code date]) := by
  have restamped : (conn.writeString (Response.errorText code date)).Sends
      (conn.writeErrorMessage code date) [] := .of_same rfl rfl rfl
  have sends := (sends_writeString conn (Response.errorText code date)).trans restamped
  rwa [List.append_nil] at sends

theorem sends_foldl (strs : List Bytes) (conn : Connection) :
    conn.Sends (strs.foldl writeString conn) (conn.kept strs) := by
  induction strs generalizing conn with
  | nil =>
      rw [kept_nil]
      exact .refl conn
  | cons str strs inductionHypothesis =>
      have rest := inductionHypothesis (conn.writeString str)
      rw [kept, fd_writeString] at rest
      rw [kept_cons]
      exact (sends_writeString conn str).trans rest

/-- `Reset` of a connection that is closed by it, or is closed already. -/
theorem sends_reset (closable : conn.fd ≠ 0) : conn.Sends conn.reset [] := by
  intro queued accepted torn _ inOrder
  rw [List.flatten_nil, List.append_nil]
  have gone := fd_reset closable
  exact ⟨rfl, nofun, inOrder.inOrder, fun opened => absurd gone opened,
    fun opened => absurd gone opened, nofun⟩

theorem sends_call {call : Call} (called : conn.call limits call = some later) :
    conn.Sends later (conn.kept (call.strings limits conn)) := by
  have unqueued : later.fd = conn.fd → later.writeBufferChain = conn.writeBufferChain →
      later.ssl = conn.ssl → conn.Sends later (conn.kept []) := by
    intro fd chain ssl
    rw [kept_nil]
    exact .of_same fd chain ssl
  cases call with
  | parseHeader | parsePostForm =>
      obtain ⟨req, -, rfl⟩ := Option.map_eq_some_iff.mp called
      exact unqueued rfl rfl rfl
  | writeErrorMessage code date =>
      cases called
      exact sends_writeErrorMessage conn code date
  | upgrade date =>
      cases called
      by_cases keyless : conn.req.secWebsocketKey = []
      · have same : conn.upgrade limits date = conn := if_pos keyless
        rw [Call.strings, if_pos keyless]
        exact unqueued (by rw [same]) (by rw [same]) (by rw [same])
      · have upgraded : conn.Sends { conn with req := { conn.req with status := .upgrade } } [] :=
          .of_same rfl rfl rfl
        rw [Call.strings, if_neg keyless, upgrade, if_neg keyless]
        exact upgraded.trans (sends_writeString _ _)
  | sendPong str | sendPing str | writeString str =>
      cases called
      exact sends_writeString conn _
  | _ =>
      cases called
      exact unqueued rfl rfl rfl

end Connection

namespace Held

variable {limits : Limits} {conn : ConnId} {held later : Held}

mutual

theorem sends_runOp (op : HandlerOp) (held later : Held)
    (ran : held.runOp limits conn op = some later) :
    held.connection.Sends later.connection (held.opStrings limits conn op) := by
  cases op with
  | call call =>
      rw [runOp] at ran
      obtain ⟨connection, called, rfl⟩ := Option.map_eq_some_iff.mp ran
      rw [opStrings]
      exact Connection.sends_call called
  | close onClose =>
      rw [runOp] at ran
      rw [opStrings]
      split at ran
      next opened =>
        split at ran
        next upgraded =>
          split at ran
          · cases ran
          · obtain ⟨closed, closing, rfl⟩ := Option.map_eq_some_iff.mp ran
            have closable := (handled_runOps onClose held closed closing).fd_ne_zero opened
            have sends := (sends_runOps onClose held closed closing).trans
              (Connection.sends_reset closable)
            rw [if_pos ⟨opened, upgraded⟩]
            rwa [List.append_nil] at sends
        next plain =>
          cases ran
          rw [if_neg fun both => plain both.2]
          exact Connection.sends_reset (Int.ne_of_gt opened)
      next closed =>
        cases ran
        rw [if_neg fun both => closed both.1]
        exact .refl _

theorem sends_runOps (ops : List HandlerOp) (held later : Held)
    (ran : held.runOps limits conn ops = some later) :
    held.connection.Sends later.connection (held.opsStrings limits conn ops) := by
  cases ops with
  | nil =>
      rw [runOps] at ran
      cases ran
      rw [opsStrings]
      exact .refl _
  | cons op ops =>
      rw [runOps] at ran
      obtain ⟨middle, first, rest⟩ := Option.bind_eq_some_iff.mp ran
      rw [opsStrings, first]
      exact (sends_runOp op held middle first).trans (sends_runOps ops middle later rest)

end

end Held

namespace Output

/-- A string is in memory, and `write(2)` accepts no more than it is given. -/
def Possible (output : Output) : Prop :=
  (∀ str ∈ output.strings ++ output.late, str.length ≤ vectorMaxSize) ∧
    ∀ writing ∈ output.writings, writing.written.accepted ≤ writing.buffer.asked

instance (output : Output) : Decidable output.Possible := inferInstanceAs (Decidable (_ ∧ _))

/-- A call of `Writen` fails behind a `write(2)` that has accepted bytes. -/
def Tears (output : Output) : Prop := ∃ writing ∈ output.writings, writing.Tears

instance (output : Output) : Decidable output.Tears :=
  inferInstanceAs (Decidable (∃ writing ∈ output.writings, _))

def sent (output : Output) : Bytes := output.writings.flatMap Writing.sent

end Output

namespace Connection

variable {conn later : Connection}

/-- `Flush` returns an error when a call of `Writen` has torn a buffer. -/
theorem error_of_tears {tls : Bool} {chain : List WriteBuffer} {results : List WriteResult}
    (tears : ∃ writing ∈ chainWritings tls chain results, writing.Tears) :
    (flushChain tls chain results).1 = some .error := by
  induction chain generalizing results with
  | nil =>
      obtain ⟨writing, listed, -⟩ := tears
      cases listed
  | cons wb chain inductionHypothesis =>
      rw [flushChain_cons]
      rw [chainWritings] at tears
      dsimp only at tears ⊢
      split
      next nonnegative =>
        obtain ⟨writing, listed, torn⟩ := tears
        rcases List.mem_cons.mp listed with rfl | behind
        · exact absurd torn.1 (Int.not_lt.mpr nonnegative)
        · split at behind
          next written =>
            rw [if_pos written.2]
            exact inductionHypothesis ⟨writing, behind, torn⟩
          next => cases behind
      next => rfl

/-- A connection of which a buffer has been torn is closed. -/
structure Owed (conn : Connection) (queued accepted : Bytes) (torn : Bool) : Prop where
  inOrder : conn.InOrder queued accepted torn
  closed : torn = true → conn.fd < 0

def Flows (conn later : Connection) (output : Output) : Prop :=
  ∀ queued accepted torn, output.Possible → conn.Owed queued accepted torn →
    later.Owed (queued ++ (output.strings ++ output.late).flatten) (accepted ++ output.sent)
      (torn || decide output.Tears)

/-- `Flush`. -/
theorem Owed.flush {queued accepted : Bytes} {torn : Bool} {results : List WriteResult}
    (owed : conn.Owed queued accepted torn)
    (possible : ∀ writing ∈ conn.writings results,
      writing.written.accepted ≤ writing.buffer.asked) :
    (conn.flush results).2.InOrder queued
        (accepted ++ (conn.writings results).flatMap Writing.sent)
        (torn || decide (∃ writing ∈ conn.writings results, writing.Tears)) ∧
      ((∃ writing ∈ conn.writings results, writing.Tears) →
        (conn.flush results).1 = .error) := by
  by_cases closed : conn.fd < 0
  · have flushed : conn.flush results = (.closed, conn) := if_pos closed
    have unwritten : conn.writings results = [] := if_pos closed
    simp only [flushed, unwritten]
    simpa using owed.inOrder
  · have whole : torn = false := by
      cases torn with
      | false => rfl
      | true => exact absurd (owed.closed rfl) closed
    subst whole
    have flushed := @Sending.Sound.flush _ owed.inOrder .worker results possible
      fun resends => Bool.false_ne_true resends.1
    refine ⟨⟨flushed.plain, flushed.waiting, flushed.inOrder, flushed.whole, flushed.kept, nofun⟩,
      fun tears => ?_⟩
    rw [writings, if_neg closed] at tears
    simp only [Connection.flush, if_neg closed, error_of_tears tears, Option.getD_some]

theorem Flows.behind {middle : Connection} {strs late : List Bytes} {writings : List Writing}
    (sends : conn.Sends middle strs) (closed : conn.fd < 0 → middle.fd < 0)
    (flows : middle.Flows later ⟨[], writings, late⟩) :
    conn.Flows later ⟨strs, writings, late⟩ := by
  intro queued accepted torn possible owed
  obtain ⟨inMemory, accepts⟩ := possible
  rw [List.forall_mem_append] at inMemory
  have before := sends queued accepted torn inMemory.1 owed.inOrder
  have behind := flows _ accepted torn ⟨inMemory.2, accepts⟩
    ⟨before, fun torn => closed (owed.closed torn)⟩
  rw [List.flatten_append, ← List.append_assoc]
  exact behind

/-- One of the functions of `WebSocket` that take the lock themselves. -/
theorem flows_safeWrite (data : Bytes) (writes : List WriteResult)
    (untorn : ¬ ∃ writing ∈ (conn.writeString data).writings writes, writing.Tears) :
    conn.Flows ((conn.writeString data).flush writes).2
      ⟨conn.kept [data], (conn.writeString data).writings writes, []⟩ := by
  refine .behind (sends_writeString conn data) (fun gone => ?_) ?_
  · rwa [fd_writeString]
  · intro queued accepted torn possible owed
    obtain ⟨flushed, -⟩ := owed.flush possible.2
    refine ⟨?_, fun tears => ?_⟩
    · rw [List.append_nil, List.flatten_nil, List.append_nil]
      exact flushed
    · rcases Bool.or_eq_true_iff.mp tears with earlier | now
      · rw [fd_flush]
        exact owed.closed earlier
      · exact absurd (of_decide_eq_true now) untorn

/-- A section without a call of `Flush`. -/
theorem flows_of_sends {late : List Bytes} (sends : conn.Sends later late)
    (closed : conn.fd < 0 → later.fd < 0) : conn.Flows later ⟨[], [], late⟩ := by
  intro queued accepted torn possible owed
  have sent : (Output.mk [] [] late).sent = [] := rfl
  have untorn : ¬ (Output.mk [] [] late).Tears := nofun
  rw [sent, decide_eq_false untorn, List.append_nil, Bool.or_false]
  exact ⟨sends _ _ _ possible.1 owed.inOrder, fun torn => closed (owed.closed torn)⟩

end Connection

namespace Held

variable {limits : Limits} {conn : ConnId} {held later : Held}

/-- `Flush` and what `ResetConnection` does behind it, if it is called. -/
theorem flows_flush {writes : List WriteResult} {late : List Bytes}
    (sends : (held.flushed writes).connection.Sends later.connection late)
    (closes : (held.connection.flush writes).1 = .error → later.connection.fd < 0)
    (gone : held.connection.fd < 0 → later.connection.fd < 0) :
    held.connection.Flows later.connection ⟨[], held.connection.writings writes, late⟩ := by
  intro queued accepted torn possible owed
  obtain ⟨inMemory, accepts⟩ := possible
  obtain ⟨flushed, error⟩ := owed.flush accepts
  refine ⟨sends _ _ _ inMemory flushed, ?_⟩
  intro tears
  rcases Bool.or_eq_true_iff.mp tears with earlier | now
  · exact gone (owed.closed earlier)
  · exact closes (error (of_decide_eq_true now))

/-- A section that flushes its connection and closes it unless a status is `AGAIN`. -/
theorem flows_unlessAgain {writes : List WriteResult} {onClose : List HandlerOp}
    (closable : held.connection.fd ≠ 0)
    (reset : (held.flushed writes).resetUnlessAgain limits conn onClose
      (held.connection.flush writes).1 = some later) :
    held.connection.Flows later.connection
      ⟨[], held.connection.writings writes,
        if (held.connection.flush writes).1 = .again then
          []
        else
          (held.flushed writes).opStrings limits conn (.close onClose)⟩ := by
  have still : (held.flushed writes).connection.fd ≠ 0 := by
    rw [flushed, Connection.fd_flush]
    exact closable
  unfold resetUnlessAgain at reset
  split at reset
  next again =>
    cases reset
    rw [if_pos again]
    refine flows_flush (.refl _) ?_ ?_
    · intro error
      rw [again] at error
      cases error
    · intro gone
      rwa [flushed, Connection.fd_flush]
  next stops =>
    have gone := closed_of_resetConnection reset still
    rw [if_neg stops]
    exact flows_flush (sends_runOp _ _ _ reset) (fun _ => gone) (fun _ => gone)

theorem flows_onRead {input : ReadInput} {result : OnReadResult}
    (closable : held.connection.fd ≠ 0)
    (read : held.onRead limits conn input = some result) :
    held.connection.Flows result.held.connection (held.onReadOutput limits conn input) := by
  obtain ⟨data, reading, answering⟩ := Option.bind_eq_some_iff.mp read
  obtain ⟨closed, closing, rfl⟩ := Option.map_eq_some_iff.mp answering
  have same_fd := Connection.fd_readData reading
  have received : held.connection.Sends data.conn [] :=
    .of_same same_fd (Connection.chain_readData reading) (Connection.queues_readData reading).ssl
  have fell : held.connection.fd < 0 → data.conn.fd < 0 := fun gone => same_fd.symm ▸ gone
  unfold onReadOutput answer
  unfold answer at closing
  rw [reading]
  by_cases replies : data.status = .error ∧ data.conn.req.errorCode ≠ 0
  · simp only [if_pos replies] at closing ⊢
    have written := received.trans (Connection.sends_writeErrorMessage data.conn
      data.conn.req.errorCode input.date)
    have fd := (Connection.fd_writeErrorMessage data.conn data.conn.req.errorCode
      input.date).trans same_fd
    generalize data.conn.writeErrorMessage data.conn.req.errorCode input.date = reply
      at closing written fd ⊢
    have closes := @flows_unlessAgain limits conn ⟨reply, held.pool⟩ closed input.writes
      input.onClose (by rw [fd]; exact closable) closing
    exact Connection.Flows.behind written (fun gone => fd.symm ▸ gone) closes
  · simp only [if_neg replies] at closing ⊢
    refine Connection.flows_of_sends ?_ ?_
    · unfold resetUnlessAgain at closing
      split at closing
      next again =>
        cases closing
        rw [if_pos again]
        exact received
      next stops =>
        rw [if_neg stops]
        exact received.trans (sends_runOp _ _ _ closing)
    · intro gone
      rcases resetUnlessAgain_cases closing with closed | rfl
      · exact closed
      · exact fell gone

theorem flows_finishWork {writes : List WriteResult} {onClose : List HandlerOp}
    (closable : held.connection.fd ≠ 0)
    (finished : held.finishWork limits conn writes onClose = some later) :
    held.connection.Flows later.connection (held.finishOutput limits conn [] writes onClose) := by
  have still : (held.flushed writes).connection.fd ≠ 0 := by
    rw [flushed, Connection.fd_flush]
    exact closable
  have fell : held.connection.fd < 0 → (held.flushed writes).connection.fd < 0 := by
    intro gone
    rwa [flushed, Connection.fd_flush]
  have closes : (held.flushed writes).resetConnection limits conn onClose = some later →
      held.connection.Flows later.connection ⟨[], held.connection.writings writes,
        (held.flushed writes).opStrings limits conn (.close onClose)⟩ := by
    intro reset
    have gone := closed_of_resetConnection reset still
    exact flows_flush (sends_runOp _ _ _ reset) (fun _ => gone) (fun _ => gone)
  unfold finishWork at finished
  unfold finishOutput
  dsimp only at finished ⊢
  cases status : (held.connection.flush writes).1 with
  | again =>
      rw [status] at finished
      cases finished
      refine flows_flush (.of_same rfl rfl rfl) (fun error => ?_) fell
      rw [status] at error
      cases error
  | upgrade =>
      rw [status] at finished
      cases finished
      refine flows_flush (.of_same rfl rfl rfl) (fun error => ?_) fell
      rw [status] at error
      cases error
  | _ =>
      rw [status] at finished
      exact closes finished

theorem Handled.stays_closed (handled : held.Handled later) (gone : held.connection.fd < 0) :
    later.connection.fd < 0 := by
  rcases handled with closed | ⟨fd, -⟩
  · exact closed
  · exact fd.symm ▸ gone

theorem sends_handleRequest {config : Config} {input : WorkInput}
    (handling : held.handleRequest config conn input = some later) :
    held.connection.Sends later.connection (held.requestStrings conn config input) ∧
      held.Handled later := by
  unfold handleRequest at handling
  unfold requestStrings
  cases routed : config.routes held.connection.req.path with
  | some func =>
      rw [routed] at handling
      exact ⟨sends_runOps _ _ _ handling, handled_runOps _ _ _ handling⟩
  | none =>
      rw [routed] at handling
      cases handling
      refine ⟨Connection.sends_writeErrorMessage _ _ _, .inr ⟨Connection.fd_writeErrorMessage ..,
        .inl ?_⟩⟩
      rw [Connection.req_writeErrorMessage]

theorem sends_flushUnlessUpgraded (date : Bytes) (held : Held) :
    held.connection.Sends (held.flushUnlessUpgraded date).connection
        (held.responseStrings date) ∧ held.Handled (held.flushUnlessUpgraded date) := by
  unfold flushUnlessUpgraded responseStrings
  split
  · exact ⟨.refl _, .refl held⟩
  · have emptied : held.connection.Sends
        { held.connection with resp := (held.connection.resp.flush date).1 } [] :=
      .of_same rfl rfl rfl
    refine ⟨emptied.trans (Connection.sends_foldl _ _), .inr ⟨Connection.fd_flushResponse ..,
      .inl ?_⟩⟩
    rw [Connection.req_flushResponse]

theorem flows_work {config : Config} {input : WorkInput} (opened : 0 < held.connection.fd)
    (worked : held.work config conn input = some later) :
    held.connection.Flows later.connection (held.workOutput conn config input) := by
  obtain ⟨handled, handling, finished⟩ := Option.bind_eq_some_iff.mp worked
  obtain ⟨request, first⟩ := sends_handleRequest handling
  obtain ⟨response, second⟩ := sends_flushUnlessUpgraded input.date handled
  have both := first.trans second
  rw [workOutput, handling]
  exact .behind (request.trans response) both.stays_closed
    (flows_finishWork (both.fd_ne_zero opened) finished)

theorem flows_wsWork {config : Config} {opcode : WebSocketOpcodeType} {input : WorkInput}
    (opened : 0 < held.connection.fd)
    (worked : held.wsWork config conn opcode input = some later) :
    held.connection.Flows later.connection (held.wsWorkOutput conn config opcode input) := by
  obtain ⟨handled, handling, finished⟩ := Option.bind_eq_some_iff.mp worked
  have message : held.connection.Sends handled.connection
      (held.messageStrings conn config opcode input) ∧ held.Handled handled := by
    unfold handleMessage at handling
    unfold messageStrings
    cases set : held.connection.ws.handlerFor opcode with
    | some func =>
        rw [set] at handling
        exact ⟨sends_runOps _ _ _ handling, handled_runOps _ _ _ handling⟩
    | none =>
        rw [set] at handling
        cases handling
        exact ⟨.refl _, .refl _⟩
  rw [wsWorkOutput, handling]
  exact .behind message.1 message.2.stays_closed
    (flows_finishWork (message.2.fd_ne_zero opened) finished)

end Held

namespace EventLoop

variable {config : Config} {el later : EventLoop} {action : Action}

/-- The sections of the threads have this output. -/
theorem flows_lockedSection {locked : LockedSection} {held : Held}
    (found : el.lockedSection config action = some locked) (result : locked.result = some held)
    (closable : (el.connections locked.conn).fd ≠ 0) :
    ∃ output, el.output config action = some (locked.conn, output) ∧
      (el.connections locked.conn).Flows held.connection output ∧ held.connection.fd ≠ 0 := by
  have opened : ∀ {conn}, (el.connections conn).fd ≠ 0 → ¬ (el.connections conn).fd < 0 →
      0 < (el.connections conn).fd := fun closable descriptor =>
    Int.lt_iff_le_and_ne.mpr ⟨Int.not_lt.mp descriptor, closable.symm⟩
  have stays : ∀ {fd : Int}, fd < 0 ∨ fd = (el.connections locked.conn).fd → fd ≠ 0 := by
    rintro fd (gone | rfl)
    · exact Int.ne_of_lt gone
    · exact closable
  cases locks_of_lockedSection found with
  | reads conn input =>
      obtain ⟨read, received, rfl⟩ := Option.map_eq_some_iff.mp result
      exact ⟨_, rfl, Held.flows_onRead closable received,
        stays (Held.readEffect_onRead received).fd⟩
  | writes conn writes onClose =>
      exact ⟨_, rfl, Held.flows_unlessAgain closable result,
        stays ((Held.kept_onWrite result).imp_right And.left)⟩
  | works input task held_task descriptor =>
      refine ⟨_, ?_, Held.flows_work (opened closable descriptor) result,
        stays ((Held.handled_work result).imp_right And.left)⟩
      rw [output, held_task, Option.bind_some, if_neg descriptor]
  | wsWorks input item held_item descriptor =>
      refine ⟨_, ?_, Held.flows_wsWork (opened closable descriptor) result,
        stays ((Held.handled_wsWork result).imp_right And.left)⟩
      simp only [output, held_item, Option.bind_some, if_neg descriptor]
  | expires conn now onClose checking active idle =>
      have gone := Held.closed_of_resetConnection result closable
      refine ⟨_, ?_, Connection.flows_of_sends (Held.sends_runOp _ _ _ result) fun _ => gone,
        Int.ne_of_lt gone⟩
      simp only [output, checking, if_pos (And.intro active idle)]

theorem output_of_unlocked (unlocked : el.lockedSection config action = none)
    (stepped : el.step config action = some later)
    (others : ∀ conn data writes, action ≠ .safeWrite conn data writes) :
    el.output config action = none := by
  cases action with
  | onRead conn input => simp [lockedSection, enabled_of_onRead stepped] at unlocked
  | onWrite conn writes onClose => simp [lockedSection, enabled_of_onWrite stepped] at unlocked
  | safeWrite conn data writes => exact absurd rfl (others conn data writes)
  | runTask input =>
      unfold lockedSection at unlocked
      unfold output
      cases held_task : el.worker with
      | none => rfl
      | some task =>
          simp only [held_task, Option.bind_some] at unlocked ⊢
          split at unlocked
          next gone => rw [if_pos gone]
          next => cases unlocked
  | runWsTask input =>
      unfold lockedSection at unlocked
      unfold output
      cases held_item : el.wsWorker with
      | none => rfl
      | some item =>
          simp only [held_item, Option.bind_some] at unlocked ⊢
          split at unlocked
          next gone => rw [if_pos gone]
          next => cases unlocked
  | expire onClose =>
      unfold lockedSection at unlocked
      unfold output
      cases timeout : el.timeout with
      | checking now conn =>
          simp only [timeout] at unlocked ⊢
          split at unlocked
          next => cases unlocked
          next fresh => rw [if_neg fresh]
      | _ => rfl
  | _ => rfl

theorem safeWrite_of_step {conn : ConnId} {data : Bytes} {writes : List WriteResult}
    (stepped : el.step config (.safeWrite conn data writes) = some later) :
    later.connections = Function.update el.connections conn
      (((el.connections conn).writeString data).flush writes).2 := by
  simp only [step, stepLoop, stepWorker, stepWsWorker, stepTimeout, stepApplication,
    Option.none_or, Option.some.injEq] at stepped
  subst stepped
  rfl

end EventLoop

/-- The event loop with what has been queued in the session of each connection, what its
socket has accepted, and whether a call of `Writen` has torn a buffer. -/
structure Outgoing where
  el : EventLoop
  queued : ConnId → Bytes
  accepted : ConnId → Bytes
  torn : ConnId → Bool

namespace Outgoing

variable {config : Config} {state later : Outgoing}

def initial (config : Config) : Outgoing where
  el := .initial config
  queued := fun _ => []
  accepted := fun _ => []
  torn := fun _ => false

def put (state : Outgoing) (later : EventLoop) (conn : ConnId) (output : Output) : Outgoing where
  el := later
  queued := Function.update state.queued conn
    (state.queued conn ++ (output.strings ++ output.late).flatten)
  accepted := Function.update state.accepted conn (state.accepted conn ++ output.sent)
  torn := Function.update state.torn conn (state.torn conn || decide output.Tears)

/-- The history behind a step.  A session begins when `Accept` installs its descriptor. -/
def behind (config : Config) (state : Outgoing) (later : EventLoop) (action : Action) : Outgoing :=
  match action with
  | .install conn .. =>
      { el := later
        queued := Function.update state.queued conn []
        accepted := Function.update state.accepted conn []
        torn := Function.update state.torn conn false }
  | _ =>
      match state.el.output config action with
      | some (conn, output) => state.put later conn output
      | none => { state with el := later }

def step (config : Config) (state : Outgoing) (action : Action) : Option Outgoing :=
  (state.el.step config action).map fun later => state.behind config later action

/-- A step that closes a connection last, that does not install the descriptor 0, whose output
is possible, and in which no function of `WebSocket` that takes the lock itself finds that
`write(2)` fails behind bytes that have been accepted. -/
def Regular (config : Config) (state : Outgoing) (action : Action) : Prop :=
  state.el.ClosesLast config action ∧
    (∀ output ∈ state.el.output config action, output.2.Possible) ∧
      match action with
      | .install _ clifd _ _ _ => clifd ≠ 0
      | .safeWrite .. => ∀ output ∈ state.el.output config action, ¬ output.2.Tears
      | _ => True

instance (config : Config) (state : Outgoing) : DecidablePred (state.Regular config) := by
  intro action
  unfold Regular
  cases action <;> infer_instance

/-- A client gets what has been queued in its session, in order and once: nothing is missing
but what its connection holds, as long as it is open. -/
structure Delivers (state : Outgoing) (conn : ConnId) : Prop where
  inOrder : state.accepted conn <+: state.queued conn
  whole : ¬ (state.el.connections conn).fd < 0 →
    state.accepted conn ++
        (state.el.connections conn).writeBufferChain.flatMap WriteBuffer.pending =
      state.queued conn

structure Kept (state : Outgoing) : Prop where
  apart : state.el.KeptApart
  closable : ∀ conn, (state.el.connections conn).fd ≠ 0
  owed : ∀ conn, (state.el.connections conn).Owed (state.queued conn) (state.accepted conn)
    (state.torn conn)

theorem Kept.delivers (kept : state.Kept) (conn : ConnId) : state.Delivers conn := by
  obtain ⟨inOrder, closed⟩ := kept.owed conn
  refine ⟨inOrder.inOrder, fun opened => inOrder.whole opened ?_⟩
  by_contra torn
  exact opened (closed (Bool.eq_true_of_not_eq_false torn))

theorem kept_initial (config : Config) : (initial config).Kept where
  apart := .initial config
  closable := by
    intro conn
    have closed : Connection.new.fd ≠ 0 := by decide
    exact closed
  owed := by
    intro conn
    exact ⟨Connection.inOrder_empty rfl rfl, fun torn => absurd torn Bool.false_ne_true⟩

theorem Kept.frame (kept : state.Kept) {el : EventLoop} (apart : el.KeptApart)
    (connections : el.connections = state.el.connections) : Kept { state with el := el } := by
  refine ⟨apart, ?_, ?_⟩
  · simp only [connections]
    exact kept.closable
  · simp only [connections]
    exact kept.owed

theorem Kept.flows (kept : state.Kept) {el : EventLoop} {conn : ConnId} {held : Held}
    {output : Output} (apart : el.KeptApart)
    (connections : el.connections = Function.update state.el.connections conn held.connection)
    (closable : held.connection.fd ≠ 0) (possible : output.Possible)
    (flows : (state.el.connections conn).Flows held.connection output) :
    (state.put el conn output).Kept := by
  refine ⟨apart, ?_, ?_⟩
  · intro other
    by_cases same : other = conn
    · subst same
      simp only [put, connections, Function.update_self]
      exact closable
    · simp only [put, connections, Function.update_of_ne same]
      exact kept.closable other
  · intro other
    by_cases same : other = conn
    · subst same
      simp only [put, connections, Function.update_self]
      exact flows _ _ _ possible (kept.owed other)
    · simp only [put, connections, Function.update_of_ne same]
      exact kept.owed other

/-- `Accept` begins a session on a connection that is new. -/
theorem Kept.installs (kept : state.Kept) {el : EventLoop} {conn : ConnId} {clifd : Int}
    {addr : UInt32} {now : Int} {ready : Bool} (plain : config.tls = false)
    (apart : el.KeptApart) (popped : state.el.loop = .popped conn clifd) (closable : clifd ≠ 0)
    (connections : el.connections = Function.update state.el.connections conn
      (EventLoop.installIn config conn clifd addr now ready (state.el.hold conn)).connection) :
    (state.behind config el (.install conn clifd addr now ready)).Kept := by
  obtain ⟨free, before⟩ := kept.apart
  obtain ⟨-, new, -, nonnegative⟩ := before.popped conn clifd popped
  have opened : 0 < clifd := Int.lt_iff_le_and_ne.mpr ⟨nonnegative, closable.symm⟩
  have installed : ∀ connection, connection =
      (EventLoop.installIn config conn clifd addr now ready (state.el.hold conn)).connection →
        connection.fd ≠ 0 ∧ connection.ssl = false ∧ connection.writeBufferChain = [] := by
    rintro connection rfl
    cases ready with
    | true =>
        simp only [EventLoop.installIn, EventLoop.hold, new, if_true]
        exact ⟨closable, plain, rfl⟩
    | false =>
        have gone : (EventLoop.installIn config conn clifd addr now false
            (state.el.hold conn)).connection = .new := Connection.reset_of_open opened
        rw [gone]
        exact ⟨by decide, rfl, rfl⟩
  obtain ⟨fd, ssl, chain⟩ := installed _ rfl
  refine ⟨apart, ?_, ?_⟩
  · intro other
    by_cases same : other = conn
    · subst same
      simp only [behind, connections, Function.update_self]
      exact fd
    · simp only [behind, connections, Function.update_of_ne same]
      exact kept.closable other
  · intro other
    by_cases same : other = conn
    · subst same
      simp only [behind, connections, Function.update_self]
      exact ⟨Connection.inOrder_empty ssl chain, fun torn => absurd torn Bool.false_ne_true⟩
    · simp only [behind, connections, Function.update_of_ne same]
      exact kept.owed other

/-- A step of a thread that is neither `Accept` nor one of the application. -/
theorem Kept.others (kept : state.Kept) {action : Action} {el : EventLoop} (apart : el.KeptApart)
    (possible : ∀ output ∈ state.el.output config action, output.2.Possible)
    (taken : state.el.step config action = some el)
    (notInstall : ∀ conn clifd addr now ready, action ≠ .install conn clifd addr now ready)
    (notSafe : ∀ conn data writes, action ≠ .safeWrite conn data writes) :
    (state.behind config el action).Kept := by
  have behind_eq : state.behind config el action =
      match state.el.output config action with
      | some (conn, output) => state.put el conn output
      | none => { state with el := el } := by
    cases action with
    | install conn clifd addr now ready => exact absurd rfl (notInstall conn clifd addr now ready)
    | _ => rfl
  rw [behind_eq]
  cases found : state.el.lockedSection config action with
  | some locked =>
      have back := EventLoop.putsBack_step found
      unfold EventLoop.PutsBack at back
      split at back
      next held result =>
        obtain ⟨other, stepped, connections, -⟩ := back
        cases stepped.symm.trans taken
        obtain ⟨output, isOutput, flows, closable⟩ :=
          EventLoop.flows_lockedSection found result (kept.closable locked.conn)
        rw [isOutput] at possible ⊢
        exact kept.flows apart connections closable (possible _ rfl) flows
      next => cases back.symm.trans taken
  | none =>
      rw [EventLoop.output_of_unlocked found taken notSafe]
      cases EventLoop.unlocked_of_step found taken with
      | same connections => exact kept.frame apart connections
      | installs conn clifd addr now ready =>
          exact absurd rfl (notInstall conn clifd addr now ready)
      | sends conn data writes => exact absurd rfl (notSafe conn data writes)

theorem Kept.step (kept : state.Kept) {action : Action} (plain : config.tls = false)
    (regular : state.Regular config action)
    (stepped : state.step config action = some later) : later.Kept := by
  obtain ⟨el, taken, rfl⟩ := Option.map_eq_some_iff.mp stepped
  obtain ⟨last, possible, special⟩ := regular
  have apart := kept.apart.step last taken
  cases action with
  | install conn clifd addr now ready =>
      obtain ⟨popped, connections⟩ := EventLoop.installs_of_step taken
      exact kept.installs plain apart popped special connections
  | safeWrite conn data writes =>
      have flows := Connection.flows_safeWrite data writes (special _ rfl)
      have fd : (((state.el.connections conn).writeString data).flush writes).2.fd ≠ 0 := by
        rw [Connection.fd_flush, Connection.fd_writeString]
        exact kept.closable conn
      exact @Kept.flows _ kept _ _ ⟨_, state.el.pool⟩ _ apart (EventLoop.safeWrite_of_step taken)
        fd (possible _ rfl) flows
  | _ => exact kept.others apart possible taken nofun nofun

/-- In every run whose steps are regular, whatever the threads do: without TLS, each client
gets what has been queued in its session, in order and once. -/
theorem delivers_of_regular {config : Config} (plain : config.tls = false) {state : Outgoing}
    (reached : Reaches (step config) (fun state => state.Regular config) (initial config) state)
    (conn : ConnId) : state.Delivers conn := by
  have kept : state.Kept := by
    refine reached.invariant (kept_initial config) ?_
    intro state action later kept regular stepped
    exact kept.step plain regular stepped
  exact kept.delivers conn

/-- The answer to a client breaks off behind four bytes.  The next client on its connection
has got the first six bytes of its own answer. -/
theorem delivers_next_client : ∃ state : Outgoing,
    state.el.occupant 0 = ⟨0, 2⟩ ∧ (state.accepted 0).length = 6 ∧ state.Delivers 0 := by
  have replays : (replay (step EventLoop.plainConfig)
      (fun state => state.Regular EventLoop.plainConfig) (initial EventLoop.plainConfig)
      (EventLoop.accepting 5 1 ++
        EventLoop.reading (EventLoop.arrival 2 EventLoop.smallRequest) ++
        [.takeTask, .runTask ⟨[], [], [.accepted 3, .failed .other .other], []⟩] ++
        EventLoop.accepting 6 3 ++
        EventLoop.reading (EventLoop.arrival 4 EventLoop.smallRequest) ++
        [.takeTask, .runTask ⟨[], [], [.accepted 5], []⟩])).map (fun state =>
          (state.el.occupant 0, (state.accepted 0).length)) = some (⟨0, 2⟩, 6) := by
    decide +kernel
  obtain ⟨state, replayed, same⟩ := Option.map_eq_some_iff.mp replays
  obtain ⟨occupant, accepted⟩ := Prod.mk.inj same
  exact ⟨state, occupant, accepted, delivers_of_regular rfl (reaches_of_replay replayed) 0⟩

end Outgoing

end Mevent
