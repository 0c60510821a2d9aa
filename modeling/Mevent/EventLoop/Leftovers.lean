import Mevent.EventLoop.Polling

/-!
# What a section leaves to be written

A section that flushes a connection closes it, empties its queue, or stops because `Writen`
has returned less than it was asked for.  A worker registers `OUT` before it leaves output in
the queue.
-/

namespace Mevent

open Library

/-- A connection with a descriptor that `ResetConnection` can close, and with nothing to
write and no `OUT` registered when it is closed.  Without TLS, some of every queued string is
left to be written. -/
structure Connection.Sane (conn : Connection) : Prop where
  closable : conn.fd ≠ 0
  closed : conn.fd < 0 → conn.writeBufferChain = [] ∧ conn.evWritable = false
  waiting : conn.ssl = false →
    ∀ wb ∈ conn.writeBufferChain, wb.len ≤ vectorMaxSize → wb.Waiting

namespace Connection

variable {limits : Limits} {conn later : Connection}

theorem sane_new : new.Sane := ⟨by decide, fun _ => ⟨rfl, rfl⟩, nofun⟩

theorem Sane.of_same (sane : conn.Sane) (fd : later.fd = conn.fd)
    (chain : later.writeBufferChain = conn.writeBufferChain)
    (evWritable : later.evWritable = conn.evWritable) (ssl : later.ssl = conn.ssl) :
    later.Sane := by
  refine ⟨?_, ?_, ?_⟩
  · rw [fd]
    exact sane.closable
  · rw [fd, chain, evWritable]
    exact sane.closed
  · rw [ssl, chain]
    exact sane.waiting

theorem Sane.reset (sane : conn.Sane) : conn.reset.Sane := by
  refine ⟨Int.ne_of_lt (fd_reset sane.closable), fun _ => ⟨rfl, rfl⟩, fun _ => nofun⟩

/-- What a call of a handler does to the queue and to its neighbours. -/
structure Queues (conn later : Connection) : Prop where
  fd : later.fd = conn.fd
  evWritable : later.evWritable = conn.evWritable
  ssl : later.ssl = conn.ssl
  sane : conn.Sane → later.Sane

theorem Queues.refl (conn : Connection) : conn.Queues conn := ⟨rfl, rfl, rfl, id⟩

theorem Queues.trans {middle : Connection} (first : conn.Queues middle)
    (second : middle.Queues later) : conn.Queues later :=
  ⟨second.fd.trans first.fd, second.evWritable.trans first.evWritable,
    second.ssl.trans first.ssl, fun sane => second.sane (first.sane sane)⟩

theorem queues_of_same (fd : later.fd = conn.fd)
    (chain : later.writeBufferChain = conn.writeBufferChain)
    (evWritable : later.evWritable = conn.evWritable) (ssl : later.ssl = conn.ssl) :
    conn.Queues later :=
  ⟨fd, evWritable, ssl, fun sane => sane.of_same fd chain evWritable ssl⟩

theorem queues_writeString (conn : Connection) (str : Bytes) :
    conn.Queues (conn.writeString str) := by
  unfold writeString
  split
  next => exact .refl conn
  next queued =>
    obtain ⟨nonempty, opened⟩ := not_or.mp queued
    refine ⟨rfl, rfl, rfl, fun sane => ⟨sane.closable, fun closed => absurd closed opened, ?_⟩⟩
    intro plain wb listed inMemory
    rcases List.mem_append.mp listed with earlier | fresh
    · exact sane.waiting plain wb earlier inMemory
    · rw [List.mem_singleton.mp fresh] at inMemory ⊢
      exact WriteBuffer.waiting_new nonempty inMemory

theorem queues_writeErrorMessage (conn : Connection) (code : Int) (date : Bytes) :
    conn.Queues (conn.writeErrorMessage code date) :=
  (queues_writeString conn _).trans (queues_of_same rfl rfl rfl rfl)

theorem queues_foldl_writeString (strs : List Bytes) (conn : Connection) :
    conn.Queues (strs.foldl writeString conn) := by
  induction strs generalizing conn with
  | nil => exact .refl conn
  | cons str strs inductionHypothesis =>
      exact (queues_writeString conn str).trans (inductionHypothesis _)

theorem queues_flushResponse (conn : Connection) (date : Bytes) :
    conn.Queues (conn.flushResponse date) := by
  have emptied : conn.Queues { conn with resp := (conn.resp.flush date).1 } :=
    queues_of_same rfl rfl rfl rfl
  exact emptied.trans (queues_foldl_writeString _ _)

theorem queues_call {call : Call} (called : conn.call limits call = some later) :
    conn.Queues later := by
  cases call with
  | parseHeader | parsePostForm =>
      obtain ⟨req, parsed, same⟩ := Option.map_eq_some_iff.mp called
      subst same
      exact queues_of_same rfl rfl rfl rfl
  | upgrade date =>
      cases called
      unfold upgrade
      split
      next => exact .refl conn
      next =>
        have upgraded : conn.Queues { conn with req := { conn.req with status := .upgrade } } :=
          queues_of_same rfl rfl rfl rfl
        exact upgraded.trans (queues_writeString _ _)
  | writeErrorMessage code date =>
      cases called
      exact queues_writeErrorMessage conn code date
  | sendPong str | sendPing str | writeString str =>
      cases called
      exact queues_writeString conn _
  | _ =>
      cases called
      exact queues_of_same rfl rfl rfl rfl

theorem queues_readData {now : Int} {reads : List ReadResult} {read : ReadDataResult}
    (received : conn.readData limits now reads = some read) : conn.Queues read.conn := by
  unfold readData at received
  split at received
  · cases received
    exact .refl conn
  · split at received
    · obtain ⟨ws, -, same⟩ := Option.map_eq_some_iff.mp received
      subst same
      exact queues_of_same rfl rfl rfl rfl
    · obtain ⟨req, -, same⟩ := Option.map_eq_some_iff.mp received
      subst same
      exact queues_of_same rfl rfl rfl rfl

theorem chain_readData {now : Int} {reads : List ReadResult} {read : ReadDataResult}
    (received : conn.readData limits now reads = some read) :
    read.conn.writeBufferChain = conn.writeBufferChain := by
  unfold readData at received
  split at received
  · cases received
    rfl
  · split at received
    · obtain ⟨ws, -, same⟩ := Option.map_eq_some_iff.mp received
      subst same
      rfl
    · obtain ⟨req, -, same⟩ := Option.map_eq_some_iff.mp received
      subst same
      rfl

theorem evWritable_flush (conn : Connection) (results : List WriteResult) :
    (conn.flush results).2.evWritable = conn.evWritable := by
  unfold flush
  split
  · rfl
  · rfl

theorem sane_flush {results : List WriteResult} (sane : conn.Sane)
    (possible : conn.Feasible results) :
    (conn.flush results).2.Sane := by
  by_cases closed : conn.fd < 0
  · rw [flush, if_pos closed]
    exact sane
  · rw [flush, if_neg closed]
    refine ⟨sane.closable, fun gone => absurd gone closed, ?_⟩
    intro plain wb listed inMemory
    have plain' : conn.ssl = false := plain
    obtain ⟨small, within⟩ := possible plain'
    have writings : conn.writings results =
        chainWritings false conn.writeBufferChain results := by
      rw [Connection.writings, if_neg closed, plain']
    rw [writings] at within
    have waiting : ∀ wb ∈ conn.writeBufferChain, wb.Waiting :=
      fun wb listed => sane.waiting plain' wb listed (small wb listed)
    rw [plain'] at listed
    exact (chainFlushed waiting within).waiting wb listed

/-- What a section that flushes a connection leaves of it, unless `Writen` fails. -/
inductive Leaves (conn : Connection) (results : List WriteResult) (later : Connection) :
    Prop where
  | closed : later.fd < 0 → Leaves conn results later
  | emptied : later.writeBufferChain = [] → later.fd = conn.fd →
      later.evWritable = conn.evWritable ∨ later.evWritable = true →
      Leaves conn results later
  | waits : conn.WritesPartly results → later.fd = conn.fd →
      later.evWritable = conn.evWritable ∨ later.evWritable = true →
      Leaves conn results later

theorem leaves_of_again {results : List WriteResult}
    (again : (conn.flush results).1 = .again) : conn.Leaves results (conn.flush results).2 := by
  have ends := conn.flushEnds results
  generalize conn.flush results = flushed at again ends ⊢
  cases ends with
  | closed => cases again
  | drained => exact .emptied rfl rfl (.inl rfl)
  | waits wb chain partly => exact .waits partly rfl (.inl rfl)
  | fails => cases again

end Connection

namespace Held

variable {limits : Limits} {conn : ConnId} {held later : Held}

/-- The descriptor is gone, or it is the same and so is what is registered for it. -/
def Stays (held later : Held) : Prop :=
  later.connection.fd < 0 ∨
    later.connection.fd = held.connection.fd ∧
      later.connection.evWritable = held.connection.evWritable

theorem Stays.trans {middle : Held} (first : held.Stays middle) (second : middle.Stays later) :
    held.Stays later := by
  rcases second with gone | ⟨fd, evWritable⟩
  · exact .inl gone
  · rcases first with gone | ⟨first_fd, first_evWritable⟩
    · exact .inl (fd ▸ gone)
    · exact .inr ⟨fd.trans first_fd, evWritable.trans first_evWritable⟩

theorem stays_of_queues {connection : Connection} (queues : held.connection.Queues connection) :
    held.Stays { held with connection := connection } := .inr ⟨queues.fd, queues.evWritable⟩

mutual

theorem sane_runOp (op : HandlerOp) (held later : Held) (sane : held.connection.Sane)
    (ran : held.runOp limits conn op = some later) :
    later.connection.Sane ∧ held.Stays later := by
  cases op with
  | call call =>
      rw [runOp] at ran
      obtain ⟨connection, called, same⟩ := Option.map_eq_some_iff.mp ran
      subst same
      have queues := Connection.queues_call called
      exact ⟨queues.sane sane, stays_of_queues queues⟩
  | close onClose =>
      rw [runOp] at ran
      split at ran
      next opened =>
        split at ran
        next upgraded =>
          split at ran
          · cases ran
          · obtain ⟨closed, closing, same⟩ := Option.map_eq_some_iff.mp ran
            subst same
            have closed_sane := (sane_runOps onClose held closed sane closing).1
            exact ⟨closed_sane.reset, .inl (Connection.fd_reset closed_sane.closable)⟩
        next not_upgraded =>
          cases ran
          exact ⟨sane.reset, .inl (Connection.fd_reset sane.closable)⟩
      next closed =>
        cases ran
        exact ⟨sane, .inr ⟨rfl, rfl⟩⟩

theorem sane_runOps (ops : List HandlerOp) (held later : Held) (sane : held.connection.Sane)
    (ran : held.runOps limits conn ops = some later) :
    later.connection.Sane ∧ held.Stays later := by
  cases ops with
  | nil =>
      rw [runOps] at ran
      cases ran
      exact ⟨sane, .inr ⟨rfl, rfl⟩⟩
  | cons op ops =>
      rw [runOps] at ran
      obtain ⟨middle, first, rest⟩ := Option.bind_eq_some_iff.mp ran
      obtain ⟨middle_sane, stays⟩ := sane_runOp op held middle sane first
      obtain ⟨later_sane, later_stays⟩ := sane_runOps ops middle later middle_sane rest
      exact ⟨later_sane, stays.trans later_stays⟩

end

/-- `ResetConnection` leaves a sane connection without its descriptor. -/
theorem sane_resetConnection {onClose : List HandlerOp} (sane : held.connection.Sane)
    (reset : held.resetConnection limits conn onClose = some later) :
    later.connection.Sane ∧ later.connection.fd < 0 := by
  obtain ⟨later_sane, -⟩ := sane_runOp _ held later sane reset
  refine ⟨later_sane, ?_⟩
  rw [resetConnection, runOp] at reset
  split at reset
  next opened =>
    split at reset
    next upgraded =>
      split at reset
      · cases reset
      · obtain ⟨closed, closing, same⟩ := Option.map_eq_some_iff.mp reset
        subst same
        exact Connection.fd_reset (sane_runOps onClose held closed sane closing).1.closable
    next not_upgraded =>
      cases reset
      exact Connection.fd_reset sane.closable
  next closed =>
    cases reset
    exact lt_of_le_of_ne (Int.not_lt.mp closed) sane.closable

/-- A section that flushes a sane connection and closes it unless `Flush` returns `AGAIN`. -/
theorem leaves_unlessAgain {connection : Connection} {writes : List WriteResult}
    {onClose : List HandlerOp} (sane : connection.Sane)
    (possible : connection.Feasible writes)
    (reset : { held with connection := (connection.flush writes).2 }.resetUnlessAgain limits conn
      onClose (connection.flush writes).1 = some later) :
    later.connection.Sane ∧ connection.Leaves writes later.connection := by
  have flushed := Connection.sane_flush sane possible
  unfold resetUnlessAgain at reset
  split at reset
  next again =>
    cases reset
    exact ⟨flushed, Connection.leaves_of_again again⟩
  next =>
    have closed := @sane_resetConnection limits conn
      { held with connection := (connection.flush writes).2 } later onClose flushed reset
    exact ⟨closed.1, .closed closed.2⟩

theorem leaves_onWrite {writes : List WriteResult} {onClose : List HandlerOp}
    (sane : held.connection.Sane)
    (possible : held.connection.Feasible writes)
    (wrote : held.onWrite limits conn writes onClose = some later) :
    later.connection.Sane ∧ held.connection.Leaves writes later.connection :=
  leaves_unlessAgain sane possible wrote

/-- `OnRead` flushes its answer, or leaves the queue alone, or closes the connection. -/
theorem leaves_onRead {input : ReadInput} {result : OnReadResult} (sane : held.connection.Sane)
    (possible : ∀ reply ∈ held.readReply limits input,
      reply.Feasible input.writes)
    (read : held.onRead limits conn input = some result) :
    result.held.connection.Sane ∧
      ((∃ reply ∈ held.readReply limits input, held.connection.Queues reply ∧
          reply.Leaves input.writes result.held.connection) ∨
        result.held.connection.fd < 0 ∨
        held.readReply limits input = none ∧
          result.held.connection.fd = held.connection.fd ∧
          result.held.connection.writeBufferChain = held.connection.writeBufferChain ∧
          result.held.connection.evWritable = held.connection.evWritable) := by
  obtain ⟨data, reading, answering⟩ := Option.bind_eq_some_iff.mp read
  obtain ⟨closed, closing, same⟩ := Option.map_eq_some_iff.mp answering
  subst same
  have queues := Connection.queues_readData reading
  have data_sane := queues.sane sane
  unfold answer at closing
  split at closing
  next fails =>
    have replied : held.readReply limits input =
        some (data.conn.writeErrorMessage data.conn.req.errorCode input.date) := by
      rw [readReply, reading, Option.bind_some, if_pos fails]
    have reply_queues := queues.trans
      (Connection.queues_writeErrorMessage data.conn data.conn.req.errorCode input.date)
    have leaves := leaves_unlessAgain (reply_queues.sane sane)
      (possible _ replied) closing
    exact ⟨leaves.1, .inl ⟨_, replied, reply_queues, leaves.2⟩⟩
  next unanswered =>
    unfold resetUnlessAgain at closing
    split at closing
    next again =>
      cases closing
      have unreplied : held.readReply limits input = none := by
        rw [readReply, reading, Option.bind_some, if_neg unanswered]
      exact ⟨data_sane, .inr (.inr ⟨unreplied, queues.fd, Connection.chain_readData reading,
        queues.evWritable⟩)⟩
    next =>
      have gone := @sane_resetConnection limits conn { held with connection := data.conn } closed
        input.onClose data_sane closing
      exact ⟨gone.1, .inr (.inl gone.2)⟩

theorem leaves_finishWork {writes : List WriteResult} {onClose : List HandlerOp}
    (sane : held.connection.Sane)
    (possible : held.connection.Feasible writes)
    (finished : held.finishWork limits conn writes onClose = some later) :
    later.connection.Sane ∧
      (held.connection.Leaves writes later.connection ∧
        (later.connection.fd < 0 ∨ later.connection.writeBufferChain = [] ∨
          later.connection.evWritable = true)) := by
  have flushed := Connection.sane_flush sane possible
  unfold finishWork at finished
  dsimp only at finished
  split at finished
  next again =>
    cases finished
    have opened : ¬ (held.connection.flush writes).2.fd < 0 := by
      intro closed
      rw [Connection.fd_flush] at closed
      rw [Connection.flush, if_pos closed] at again
      cases again
    have leaves := Connection.leaves_of_again again
    refine ⟨⟨flushed.closable, fun closed => absurd closed opened, flushed.waiting⟩, ?_,
      .inr (.inr rfl)⟩
    cases leaves with
    | closed closed => exact absurd closed opened
    | emptied empty fd => exact .emptied empty fd (.inr rfl)
    | waits partly fd => exact .waits partly fd (.inr rfl)
  next upgraded =>
    cases finished
    have ends := held.connection.flushEnds writes
    generalize held.connection.flush writes = result at upgraded flushed ends ⊢
    cases ends with
    | closed => cases upgraded
    | drained => exact ⟨flushed, .emptied rfl rfl (.inl rfl), .inr (.inl rfl)⟩
    | waits => cases upgraded
    | fails => cases upgraded
  next =>
    have gone := @sane_resetConnection limits conn
      { held with connection := (held.connection.flush writes).2 } later onClose flushed finished
    exact ⟨gone.1, .closed gone.2, .inl gone.2⟩

variable {config : Config} {input : WorkInput}

theorem sane_flushUnlessUpgraded (date : Bytes) (sane : held.connection.Sane) :
    (held.flushUnlessUpgraded date).connection.Sane ∧
      held.Stays (held.flushUnlessUpgraded date) := by
  unfold flushUnlessUpgraded
  split
  · exact ⟨sane, .inr ⟨rfl, rfl⟩⟩
  · have queues := Connection.queues_flushResponse held.connection date
    exact ⟨queues.sane sane, stays_of_queues queues⟩

theorem sane_handleRequest (sane : held.connection.Sane)
    (handling : held.handleRequest config conn input = some later) :
    later.connection.Sane ∧ held.Stays later := by
  unfold handleRequest at handling
  split at handling
  · exact sane_runOps _ held later sane handling
  · cases handling
    have queues := Connection.queues_writeErrorMessage held.connection 404 input.date
    exact ⟨queues.sane sane, stays_of_queues queues⟩

theorem sane_handleMessage {opcode : WebSocketOpcodeType} (sane : held.connection.Sane)
    (handling : held.handleMessage config conn opcode input = some later) :
    later.connection.Sane ∧ held.Stays later := by
  unfold handleMessage at handling
  split at handling
  · exact sane_runOps _ held later sane handling
  · cases handling
    exact ⟨sane, .inr ⟨rfl, rfl⟩⟩

end Held

namespace EventLoop

variable {config : Config} {el later : EventLoop} {action : Action}

/-- What a step with a section leaves of the connection: it is closed, the section has not
flushed it, its queue is empty, or `Flush` has stopped with `OUT` registered. -/
inductive Outcome (before : Connection) (site : Option FlushSite) (later : Connection) :
    Prop where
  | closed : later.fd < 0 → Outcome before site later
  | kept : site = none → later.fd = before.fd → later.writeBufferChain = before.writeBufferChain →
      later.evWritable = before.evWritable → Outcome before site later
  | emptied : later.fd = before.fd →
      later.evWritable = before.evWritable ∨ later.evWritable = true →
      later.writeBufferChain = [] → Outcome before site later
  | waits (reply : FlushSite) : site = some reply → reply.connection.Sane →
      reply.connection.WritesPartly reply.results → later.fd = before.fd →
      later.evWritable = true → Outcome before site later

theorem chain_ne_nil_of_writesPartly {conn : Connection} {results : List WriteResult}
    (partly : conn.WritesPartly results) : conn.writeBufferChain ≠ [] := by
  obtain ⟨-, writing, listed, -⟩ := partly
  intro empty
  unfold Connection.writings at listed
  split at listed
  · cases listed
  · rw [empty] at listed
    cases listed

theorem outcome_finishWork {limits : Limits} {conn : ConnId} {before : Connection}
    {held handled later : Held} {writes : List WriteResult} {onClose : List HandlerOp}
    (connection : held.connection = before) (stays : held.Stays handled)
    (sane : handled.connection.Sane)
    (possible : handled.connection.Feasible writes)
    (finished : handled.finishWork limits conn writes onClose = some later) :
    later.connection.Sane ∧
      Outcome before (some ⟨conn, handled.connection, writes⟩) later.connection := by
  subst connection
  obtain ⟨later_sane, leaves, registered⟩ :=
    Held.leaves_finishWork sane possible finished
  refine ⟨later_sane, ?_⟩
  cases leaves with
  | closed gone => exact .closed gone
  | emptied empty fd evWritable =>
      rcases stays with gone | ⟨same_fd, same_evWritable⟩
      · exact .closed (fd ▸ gone)
      · exact .emptied (fd.trans same_fd) (same_evWritable ▸ evWritable) empty
  | waits partly fd evWritable =>
      rcases stays with gone | ⟨same_fd, same_evWritable⟩
      · exact .closed (fd ▸ gone)
      · rcases registered with gone | empty | registered
        · exact .closed gone
        · exact .emptied (fd.trans same_fd) (same_evWritable ▸ evWritable) empty
        · exact .waits _ rfl sane partly (fd.trans same_fd) registered

/-- `OnRead`, if `OUT` is registered for what it cannot write of its answer. -/
theorem outcome_onRead {conn : ConnId} {input : ReadInput} {read : OnReadResult}
    (received : (el.hold conn).onRead config.limits conn input = some read)
    (sane : (el.connections conn).Sane)
    (possible : ∀ site ∈ el.flushSite config (.onRead conn input),
      site.connection.Feasible site.results)
    (answers : ∀ reply ∈ (el.hold conn).readReply config.limits input,
      reply.WritesPartly input.writes → (el.connections conn).evWritable = true) :
    read.held.connection.Sane ∧
      Outcome (el.connections conn) (el.flushSite config (.onRead conn input))
        read.held.connection := by
  have reply_possible : ∀ reply ∈ (el.hold conn).readReply config.limits input,
      reply.Feasible input.writes := by
    intro reply replied
    apply possible ⟨conn, reply, input.writes⟩
    rw [flushSite, Option.mem_def.mp replied]
    rfl
  obtain ⟨held_sane, ⟨reply, replied, queues, leaves⟩ | gone |
    ⟨unreplied, fd, chain, evWritable⟩⟩ := Held.leaves_onRead sane reply_possible received
  · have site : el.flushSite config (.onRead conn input) = some ⟨conn, reply, input.writes⟩ := by
      rw [flushSite, Option.mem_def.mp replied]
      rfl
    refine ⟨held_sane, ?_⟩
    have same_evWritable : reply.evWritable = (el.connections conn).evWritable :=
      queues.evWritable
    cases leaves with
    | closed gone => exact .closed gone
    | emptied empty fd evWritable =>
        exact .emptied (fd.trans queues.fd) (same_evWritable ▸ evWritable) empty
    | waits partly fd evWritable =>
        refine .waits _ site (queues.sane sane) partly (fd.trans queues.fd) ?_
        rcases evWritable with same | registered
        · rw [same, same_evWritable]
          exact answers reply replied partly
        · exact registered
  · exact ⟨held_sane, .closed gone⟩
  · have site : el.flushSite config (.onRead conn input) = none := by
      rw [flushSite, unreplied]
      rfl
    exact ⟨held_sane, .kept site fd chain evWritable⟩

/-- `OnWrite`, if `OUT` is registered for what is in the queue. -/
theorem outcome_onWrite {conn : ConnId} {writes : List WriteResult} {onClose : List HandlerOp}
    {held : Held} (wrote : (el.hold conn).onWrite config.limits conn writes onClose = some held)
    (sane : (el.connections conn).Sane)
    (registered : (el.connections conn).writeBufferChain ≠ [] →
      (el.connections conn).evWritable = true)
    (possible : (el.connections conn).Feasible writes) :
    held.connection.Sane ∧
      Outcome (el.connections conn) (el.flushSite config (.onWrite conn writes onClose))
        held.connection := by
  obtain ⟨held_sane, leaves⟩ := Held.leaves_onWrite sane possible wrote
  refine ⟨held_sane, ?_⟩
  cases leaves with
  | closed gone => exact .closed gone
  | emptied empty fd evWritable => exact .emptied fd evWritable empty
  | waits partly fd evWritable =>
      refine .waits _ rfl sane partly fd ?_
      rcases evWritable with same | already
      · exact same.trans (registered (chain_ne_nil_of_writesPartly partly))
      · exact already

theorem outcome_lockedSection {locked : LockedSection} {held : Held}
    (found : el.lockedSection config action = some locked) (result : locked.result = some held)
    (sane : (el.connections locked.conn).Sane)
    (registered : (el.connections locked.conn).writeBufferChain ≠ [] →
      (el.connections locked.conn).evWritable = true)
    (possible : ∀ site ∈ el.flushSite config action, site.connection.Feasible site.results)
    (answers : ∀ conn input, action = .onRead conn input →
      ∀ reply ∈ (el.hold conn).readReply config.limits input,
        reply.WritesPartly input.writes → (el.connections conn).evWritable = true) :
    held.connection.Sane ∧
      Outcome (el.connections locked.conn) (el.flushSite config action) held.connection := by
  cases locks_of_lockedSection found with
  | reads conn input =>
      obtain ⟨read, received, same⟩ := Option.map_eq_some_iff.mp result
      subst same
      exact outcome_onRead received sane possible (answers conn input rfl)
  | writes => exact outcome_onWrite result sane registered (possible _ rfl)
  | works input task held_task descriptor =>
      obtain ⟨handled, handling, finished⟩ := Option.bind_eq_some_iff.mp result
      have site : el.flushSite config (.runTask input) = some ⟨task.conn,
          (handled.flushUnlessUpgraded input.date).connection, input.writes⟩ := by
        simp only [flushSite, held_task, Option.bind_some, if_neg descriptor, Held.workReply,
          handling, Option.map_some]
      obtain ⟨handled_sane, handled_stays⟩ := Held.sane_handleRequest sane handling
      obtain ⟨flushed_sane, flushed_stays⟩ :=
        Held.sane_flushUnlessUpgraded input.date handled_sane
      rw [site] at possible ⊢
      exact outcome_finishWork rfl (handled_stays.trans flushed_stays) flushed_sane
        (possible _ rfl) finished
  | wsWorks input item held_item descriptor =>
      obtain ⟨handled, handling, finished⟩ := Option.bind_eq_some_iff.mp result
      have site : el.flushSite config (.runWsTask input) = some ⟨item.session.conn,
          handled.connection, input.writes⟩ := by
        simp only [flushSite, held_item, Option.bind_some, if_neg descriptor, Held.wsWorkReply,
          handling, Option.map_some]
      obtain ⟨handled_sane, handled_stays⟩ := Held.sane_handleMessage sane handling
      rw [site] at possible ⊢
      exact outcome_finishWork rfl handled_stays handled_sane (possible _ rfl) finished
  | expires =>
      obtain ⟨held_sane, gone⟩ := Held.sane_resetConnection sane result
      exact ⟨held_sane, .closed gone⟩

end EventLoop

end Mevent
