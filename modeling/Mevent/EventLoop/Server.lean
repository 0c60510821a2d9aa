import Mathlib.Data.List.Induction
import Mathlib.Algebra.BigOperators.Group.List.Basic
import Mathlib.Algebra.Order.BigOperators.Group.Finset
import Mevent.EventLoop.Clients

/-!
# `HTTPServer`

The event loops of a server share the descriptors that its process may open.
`ListenAndServe` limits their number to the product of `worker_threads_` and
`max_worker_connections_`.
-/

namespace Mevent

open Library

/-- The event loop of one `EventLoopThread`, behind `Create`.  `incoming` is the socket that
`accept` has returned while `Accept` has not called `FreeListPop` yet. -/
structure ServerLoop where
  evfd : Nat
  incoming : Option Nat
  eventLoop : EventLoop

/-- `HTTPServer` behind a successful `setrlimit`.  `lost` are the sockets that `Accept` has
written over in a connection that still held one; the process keeps them open. -/
structure HTTPServer where
  workerThreads : Nat
  rlimitNofile : Nat
  listenFd : Nat
  loops : Nat → Option ServerLoop
  lost : List Nat
  exited : Bool

/-- The steps of the threads of a server.  `waiting` tells whether a client waits. -/
inductive ServerAction where
  | create (thread : Nat)
  | accept (thread : Nat) (waiting : Bool)
  | pop (thread : Nat)
  | run (thread : Nat) (action : Action)

def ServerAction.opens : ServerAction → Bool
  | .create _ | .accept _ _ => true
  | .pop _ | .run _ _ => false

/-- The call of `accept` and what follows it are steps of the server. -/
def Action.accepts : Action → Bool
  | .accepted _ | .wouldBlock => true
  | _ => false

namespace HTTPServer

/-- The limit behind `setrlimit`, which is called for a positive number only; the process
has started with the limit `inherited`. -/
def limitOf (config : Config) (inherited workerThreads : Nat) : Nat :=
  let rlimitNofile := Connection.asInt (workerThreads * config.maxWorkerConnections)
  if 0 < rlimitNofile then rlimitNofile.toNat else inherited

/-- `ListenAndServe` up to the creation of its threads. -/
def listenAndServe (config : Config) (inherited workerThreads : Nat) : HTTPServer where
  workerThreads := workerThreads
  rlimitNofile := limitOf config inherited workerThreads
  listenFd := lowestUnused [0, 1, 2]
  loops := fun _ => none
  lost := []
  exited := false

def clientsOf (server : HTTPServer) (thread : Nat) : List Nat :=
  match server.loops thread with
  | some loop => loop.incoming.toList ++ loop.eventLoop.clients
  | none => []

def descriptorsOf (server : HTTPServer) (thread : Nat) : List Nat :=
  ((server.loops thread).map (·.evfd)).toList ++ server.clientsOf thread

/-- The descriptors of the process: the standard ones, the listening socket, those of the
threads, and the sockets that are lost. -/
def descriptors (server : HTTPServer) : List Nat :=
  [0, 1, 2, server.listenFd] ++
    (List.range server.workerThreads).flatMap server.descriptorsOf ++ server.lost

/-- A new descriptor, unless the limit is reached, which is `EMFILE`. -/
def newDescriptor (server : HTTPServer) : Option Nat :=
  if lowestUnused server.descriptors < server.rlimitNofile then
    some (lowestUnused server.descriptors)
  else
    none

def setLoop (server : HTTPServer) (thread : Nat) (loop : ServerLoop) : HTTPServer :=
  { server with loops := Function.update server.loops thread (some loop) }

/-- `MEVENT_LOG_DEBUG_EXIT`. -/
def exit (server : HTTPServer) : HTTPServer := { server with exited := true }

/-- `EventLoop::Loop` up to its threads. -/
def create (config : Config) (server : HTTPServer) (thread : Nat) : Option HTTPServer :=
  if thread < server.workerThreads ∧ (server.loops thread).isNone then
    some <| match server.newDescriptor with
      | some evfd => server.setLoop thread ⟨evfd, none, .initial config⟩
      | none => server.exit
  else
    none

/-- The call of `accept`.  The kernel takes a descriptor before it looks for a client, so that
`EMFILE` comes before `EWOULDBLOCK`. -/
def accept (config : Config) (server : HTTPServer) (thread : Nat) (waiting : Bool) :
    Option HTTPServer :=
  (server.loops thread).bind fun loop =>
    if loop.eventLoop.loop = .accepting ∧ loop.incoming = none then
      match server.newDescriptor with
      | some clifd =>
          if waiting then
            some (server.setLoop thread { loop with incoming := some clifd })
          else
            (loop.eventLoop.step config .wouldBlock).map fun el =>
              server.setLoop thread { loop with eventLoop := el }
      | none => some server.exit
    else
      none

/-- `FreeListPop` for the client that has been accepted, and the `close` of its socket when the
pool is at its limit. -/
def pop (config : Config) (server : HTTPServer) (thread : Nat) : Option HTTPServer :=
  (server.loops thread).bind fun loop =>
    loop.incoming.bind fun clifd =>
      (loop.eventLoop.step config (.accepted clifd)).map fun el =>
        server.setLoop thread { loop with incoming := none, eventLoop := el }

/-- Any other step of a thread of one event loop. -/
def run (config : Config) (server : HTTPServer) (thread : Nat) (action : Action) :
    Option HTTPServer :=
  (server.loops thread).bind fun loop =>
    if action.accepts then
      none
    else
      (loop.eventLoop.step config action).map fun el =>
        { server.setLoop thread { loop with eventLoop := el } with
          lost := server.lost ++ loop.eventLoop.overwritten action }

def step (config : Config) (server : HTTPServer) (action : ServerAction) : Option HTTPServer :=
  if server.exited then
    none
  else
    match action with
    | .create thread => server.create config thread
    | .accept thread waiting => server.accept config thread waiting
    | .pop thread => server.pop config thread
    | .run thread action => server.run config thread action

/-- What a run leaves. -/
def after (config : Config) (inherited threads : Nat) (actions : List ServerAction) :
    Option HTTPServer :=
  actions.foldlM (step config) (listenAndServe config inherited threads)

/-- No more descriptors are open than the limit allows, and none has been refused. -/
structure WithinLimit (server : HTTPServer) : Prop where
  descriptors : server.descriptors.toFinset.card ≤ server.rlimitNofile
  running : server.exited = false

/-- A run keeps within the limit behind each of its steps. -/
def StaysWithin (config : Config) (inherited threads : Nat) (actions : List ServerAction) : Prop :=
  ∀ before behind server, actions = before ++ behind →
    after config inherited threads before = some server → server.WithinLimit

/-- The threads that have opened their event descriptor. -/
def started (server : HTTPServer) : Nat :=
  (List.range server.workerThreads).countP fun thread => (server.loops thread).isSome

def openClients (server : HTTPServer) : List Nat :=
  (List.range server.workerThreads).flatMap server.clientsOf ++ server.lost

/-- Whenever `Create` or `accept` is called, the three standard descriptors, the listening
socket, the event descriptors and the sockets of clients are fewer than the limit. -/
structure HasRoom (config : Config) (inherited threads : Nat) (actions : List ServerAction) :
    Prop where
  listens : 4 ≤ threads * config.maxWorkerConnections
  opens : ∀ before action behind server, actions = before ++ action :: behind →
    action.opens = true → after config inherited threads before = some server →
    4 + server.started + server.openClients.length < threads * config.maxWorkerConnections

section Descriptors

variable {config : Config} {server : HTTPServer} {thread : Nat}

theorem length_descriptors :
    server.descriptors.length = 4 + server.started + server.openClients.length := by
  have each : ∀ threads : List Nat, (threads.flatMap server.descriptorsOf).length =
      (threads.countP fun thread => (server.loops thread).isSome) +
        (threads.flatMap server.clientsOf).length := by
    intro threads
    induction threads with
    | nil => rfl
    | cons thread threads inductionHypothesis =>
        rw [List.flatMap_cons, List.flatMap_cons, List.length_append, List.length_append,
          inductionHypothesis, List.countP_cons, descriptorsOf]
        cases server.loops thread with
        | none => simp [Nat.add_left_comm]
        | some loop =>
            simp only [Option.map_some, Option.toList_some, List.length_append,
              List.length_singleton, Option.isSome_some, if_true]
            omega
  rw [descriptors, openClients, started, List.length_append, List.length_append, each,
    List.length_append]
  simp only [List.length_cons, List.length_nil]
  omega

theorem perm_descriptors {later : HTTPServer}
    (workerThreads : later.workerThreads = server.workerThreads)
    (listenFd : later.listenFd = server.listenFd) (inside : thread < server.workerThreads)
    (others : ∀ other, other ≠ thread → later.loops other = server.loops other) :
    (server.descriptorsOf thread ++ server.lost ++ later.descriptors).Perm
      (later.descriptorsOf thread ++ later.lost ++ server.descriptors) := by
  have same : ∀ other, other ≠ thread →
      later.descriptorsOf other = server.descriptorsOf other := by
    intro other different
    rw [descriptorsOf, descriptorsOf, clientsOf, clientsOf, others other different]
  have moved := perm_flatMap_of_agrees (@List.nodup_range server.workerThreads)
    (List.mem_range.mpr inside) same
  rw [List.perm_iff_count] at moved ⊢
  intro fd
  have counted := moved fd
  simp only [descriptors, workerThreads, listenFd, List.count_append] at counted ⊢
  omega

end Descriptors

/-- The descriptors of a server that has not exited, and what its steps rely on. -/
structure Sound (config : Config) (threads : Nat) (server : HTTPServer) : Prop where
  workerThreads : server.workerThreads = threads
  rlimitNofile : server.rlimitNofile = threads * config.maxWorkerConnections
  distinct : server.descriptors.Nodup
  below : ∀ fd ∈ server.descriptors, fd < server.rlimitNofile
  loops : ∀ thread loop, server.loops thread = some loop →
    thread < threads ∧ loop.eventLoop.Numbered

structure Opens (config : Config) (threads : Nat) (server : HTTPServer) (fds : List Nat)
    (later : HTTPServer) : Prop where
  given : fds = [] ∨ ∃ fd, server.newDescriptor = some fd ∧ fds = [fd]
  workerThreads : later.workerThreads = server.workerThreads
  rlimitNofile : later.rlimitNofile = server.rlimitNofile
  running : later.exited = server.exited
  descriptors : later.descriptors.Subperm (fds ++ server.descriptors)
  loops : ∀ thread loop, later.loops thread = some loop →
    thread < threads ∧ loop.eventLoop.Numbered

section Steps

variable {config : Config} {threads thread : Nat} {server later : HTTPServer} {loop : ServerLoop}

theorem Sound.newDescriptor_eq_none_iff (sound : Sound config threads server) :
    server.newDescriptor = none ↔
      threads * config.maxWorkerConnections ≤ server.descriptors.length := by
  have room := lowestUnused_lt_iff sound.distinct sound.below
  rw [← sound.rlimitNofile, newDescriptor]
  split
  next below => exact iff_of_false (Option.some_ne_none _) (Nat.not_le.mpr (room.mp below))
  next full => exact iff_of_true rfl (Nat.not_lt.mp fun few => full (room.mpr few))

theorem newDescriptor_eq_some {fd : Nat} (given : server.newDescriptor = some fd) :
    fd ∉ server.descriptors ∧ fd < server.rlimitNofile := by
  obtain ⟨below, same⟩ := Option.ite_none_right_eq_some.mp given
  cases same
  exact ⟨(lowestUnused_spec _).1, below⟩

theorem Sound.opens {fds : List Nat} (sound : Sound config threads server)
    (opens : Opens config threads server fds later) : Sound config threads later where
  workerThreads := opens.workerThreads.trans sound.workerThreads
  rlimitNofile := opens.rlimitNofile.trans sound.rlimitNofile
  distinct := by
    apply nodup_of_subperm opens.descriptors
    rcases opens.given with rfl | ⟨fd, given, rfl⟩
    · exact sound.distinct
    · exact List.nodup_cons.mpr ⟨(newDescriptor_eq_some given).1, sound.distinct⟩
  below := by
    intro fd isOpen
    rw [opens.rlimitNofile]
    have before := opens.descriptors.subset isOpen
    rcases opens.given with rfl | ⟨other, given, rfl⟩
    · exact sound.below fd before
    · rcases List.mem_cons.mp before with rfl | before
      · exact (newDescriptor_eq_some given).2
      · exact sound.below fd before
  loops := opens.loops

@[simp]
theorem loops_setLoop : (server.setLoop thread loop).loops thread = some loop := by
  simp [setLoop]

@[simp]
theorem setLoop_setLoop (first second : ServerLoop) :
    (server.setLoop thread first).setLoop thread second = server.setLoop thread second := by
  simp [setLoop]

theorem Sound.sets {fds lost : List Nat} (sound : Sound config threads server)
    (inside : thread < threads) (numbered : loop.eventLoop.Numbered)
    (given : fds = [] ∨ ∃ fd, server.newDescriptor = some fd ∧ fds = [fd])
    (set : later = { server.setLoop thread loop with lost := server.lost ++ lost })
    (changes : (lost ++ (loop.evfd :: (loop.incoming.toList ++ loop.eventLoop.clients))).Subperm
      (fds ++ server.descriptorsOf thread)) :
    Opens config threads server fds later where
  given := given
  workerThreads := by rw [set]; rfl
  rlimitNofile := by rw [set]; rfl
  running := by rw [set]; rfl
  descriptors := by
    subst set
    have own : descriptorsOf { server.setLoop thread loop with lost := server.lost ++ lost }
        thread = loop.evfd :: (loop.incoming.toList ++ loop.eventLoop.clients) := by
      simp [HTTPServer.setLoop, descriptorsOf, clientsOf]
    have moved := @perm_descriptors server thread
      { server.setLoop thread loop with lost := server.lost ++ lost } rfl rfl
      (sound.workerThreads ▸ inside) (fun other different => Function.update_of_ne different _ _)
    rw [← own] at changes
    rw [List.perm_iff_count] at moved
    rw [List.subperm_iff_count] at changes ⊢
    intro fd
    have movedOne := moved fd
    have changesOne := changes fd
    simp only [List.count_append] at movedOne changesOne ⊢
    omega
  loops := by
    intro other otherLoop isStarted
    rw [set] at isStarted
    by_cases same : other = thread
    · subst same
      have stored : some loop = some otherLoop := by simpa [HTTPServer.setLoop] using isStarted
      cases stored
      exact ⟨inside, numbered⟩
    · exact sound.loops other otherLoop (by simpa [HTTPServer.setLoop, same] using isStarted)

theorem Sound.setsLoop {fds : List Nat} (sound : Sound config threads server)
    (inside : thread < threads) (numbered : loop.eventLoop.Numbered)
    (given : fds = [] ∨ ∃ fd, server.newDescriptor = some fd ∧ fds = [fd])
    (changes : (loop.evfd :: (loop.incoming.toList ++ loop.eventLoop.clients)).Subperm
      (fds ++ server.descriptorsOf thread)) :
    Opens config threads server fds (server.setLoop thread loop) := by
  have nothing : server.setLoop thread loop =
      { server.setLoop thread loop with lost := server.lost ++ [] } := by
    rw [List.append_nil]
    rfl
  exact sound.sets inside numbered given nothing changes

theorem descriptorsOf_eq (isStarted : server.loops thread = some loop) :
    server.descriptorsOf thread =
      loop.evfd :: (loop.incoming.toList ++ loop.eventLoop.clients) := by
  simp [descriptorsOf, clientsOf, isStarted]

theorem Sound.create (sound : Sound config threads server)
    (created : server.create config thread = some later) :
    (server.newDescriptor = none ∧ later = server.exit) ∨
      ∃ fds, Opens config threads server fds later := by
  obtain ⟨⟨inside, fresh⟩, same⟩ := Option.ite_none_right_eq_some.mp created
  cases given : server.newDescriptor with
  | none =>
      rw [given] at same
      exact .inl ⟨rfl, (Option.some.inj same).symm⟩
  | some evfd =>
      rw [given] at same
      cases same
      refine .inr ⟨[evfd], sound.setsLoop (sound.workerThreads ▸ inside)
        (EventLoop.numbered_initial config) (.inr ⟨evfd, given, rfl⟩) ?_⟩
      have nothing : (EventLoop.initial config).clients = [] := rfl
      rw [nothing]
      exact (List.sublist_append_left [evfd] _).subperm

theorem Sound.accept {waiting : Bool} (sound : Sound config threads server)
    (accepted : server.accept config thread waiting = some later) :
    (server.newDescriptor = none ∧ later = server.exit) ∨
      ∃ fds, Opens config threads server fds later := by
  obtain ⟨loop, isStarted, calls⟩ := Option.bind_eq_some_iff.mp accepted
  obtain ⟨⟨-, idle⟩, same⟩ := Option.ite_none_right_eq_some.mp calls
  obtain ⟨inside, numbered⟩ := sound.loops thread loop isStarted
  have before := descriptorsOf_eq isStarted
  rw [idle] at before
  cases given : server.newDescriptor with
  | none =>
      rw [given] at same
      exact .inl ⟨rfl, (Option.some.inj same).symm⟩
  | some clifd =>
      rw [given] at same
      simp only at same
      cases waiting with
      | true =>
          cases same
          refine .inr ⟨[clifd], sound.setsLoop inside numbered (.inr ⟨clifd, given, rfl⟩) ?_⟩
          rw [before]
          exact (List.Perm.swap clifd loop.evfd loop.eventLoop.clients).subperm
      | false =>
          obtain ⟨el, stepped, rfl⟩ := Option.map_eq_some_iff.mp same
          have holds := numbered.step stepped
          refine .inr ⟨[], sound.setsLoop inside holds.numbered (.inl rfl) ?_⟩
          rw [before, idle]
          exact (List.subperm_cons _).mpr holds.clients

theorem Sound.pop (sound : Sound config threads server)
    (popped : server.pop config thread = some later) :
    ∃ fds, Opens config threads server fds later := by
  obtain ⟨loop, isStarted, calls⟩ := Option.bind_eq_some_iff.mp popped
  obtain ⟨clifd, incoming, taken⟩ := Option.bind_eq_some_iff.mp calls
  obtain ⟨el, stepped, rfl⟩ := Option.map_eq_some_iff.mp taken
  obtain ⟨inside, numbered⟩ := sound.loops thread loop isStarted
  have holds := numbered.step stepped
  refine ⟨[], sound.setsLoop inside holds.numbered (.inl rfl) ?_⟩
  rw [List.nil_append, descriptorsOf_eq isStarted, incoming]
  exact (List.subperm_cons _).mpr holds.clients

theorem Sound.run {action : Action} (sound : Sound config threads server)
    (ran : server.run config thread action = some later) :
    ∃ fds, Opens config threads server fds later := by
  obtain ⟨loop, isStarted, calls⟩ := Option.bind_eq_some_iff.mp ran
  obtain ⟨other, taken⟩ := Option.ite_none_left_eq_some.mp calls
  obtain ⟨el, stepped, same⟩ := Option.map_eq_some_iff.mp taken
  obtain ⟨inside, numbered⟩ := sound.loops thread loop isStarted
  have holds := numbered.step stepped
  have nothing : EventLoop.brought action = [] := by
    cases action <;> first | rfl | exact absurd rfl other
  refine ⟨[], sound.sets inside holds.numbered (.inl rfl) same.symm ?_⟩
  have clients := holds.clients
  rw [nothing, List.nil_append] at clients
  rw [List.nil_append, descriptorsOf_eq isStarted]
  rw [List.subperm_iff_count] at clients ⊢
  intro fd
  have one := clients fd
  simp only [List.count_append, List.count_cons] at one ⊢
  omega

/-- The answer to `EMFILE`, by `Create` and by `accept`. -/
theorem eq_exit_of_refused {action : ServerAction} (opening : action.opens = true)
    (refused : server.newDescriptor = none) (stepped : server.step config action = some later) :
    later = server.exit := by
  obtain ⟨-, taken⟩ := Option.ite_none_left_eq_some.mp stepped
  cases action with
  | create thread =>
      obtain ⟨-, same⟩ := Option.ite_none_right_eq_some.mp taken
      rw [refused] at same
      exact (Option.some.inj same).symm
  | accept thread waiting =>
      obtain ⟨loop, -, calls⟩ := Option.bind_eq_some_iff.mp taken
      obtain ⟨-, same⟩ := Option.ite_none_right_eq_some.mp calls
      rw [refused] at same
      exact (Option.some.inj same).symm
  | pop thread => cases opening
  | run thread action => cases opening

theorem Sound.step {action : ServerAction} (sound : Sound config threads server)
    (stepped : server.step config action = some later) :
    (action.opens = true ∧ server.newDescriptor = none ∧ later = server.exit) ∨
      server.exited = false ∧ ∃ fds, Opens config threads server fds later := by
  obtain ⟨running, taken⟩ := Option.ite_none_left_eq_some.mp stepped
  have still : server.exited = false := Bool.eq_false_of_not_eq_true running
  cases action with
  | create thread => exact (sound.create taken).imp (.intro rfl) (.intro still)
  | accept thread waiting => exact (sound.accept taken).imp (.intro rfl) (.intro still)
  | pop thread => exact .inr ⟨still, sound.pop taken⟩
  | run thread action => exact .inr ⟨still, sound.run taken⟩

end Steps

/-! ### The runs that keep within the limit -/

section Runs

variable {config : Config} {inherited threads : Nat} {actions : List ServerAction}
  {server later : HTTPServer}

theorem after_concat (config : Config) (inherited threads : Nat) (actions : List ServerAction)
    (action : ServerAction) :
    after config inherited threads (actions ++ [action]) =
      (after config inherited threads actions).bind fun server => server.step config action := by
  have single : ∀ server : HTTPServer,
      [action].foldlM (step config) server = server.step config action := by
    intro server
    rw [List.foldlM_cons]
    exact bind_pure _
  rw [after, List.foldlM_append]
  simp only [single]
  rfl

theorem exists_after_of_append {behind : List ServerAction}
    (left : after config inherited threads (actions ++ behind) = some later) :
    ∃ server, after config inherited threads actions = some server := by
  rw [after, List.foldlM_append] at left
  obtain ⟨server, before, -⟩ := Option.bind_eq_some_iff.mp left
  exact ⟨server, before⟩

theorem limitOf_of_representable {config : Config} (inherited : Nat) {threads : Nat}
    (someThreads : 1 ≤ threads) (someConnections : 1 ≤ config.maxWorkerConnections)
    (representable : threads * config.maxWorkerConnections < 2 ^ 31) :
    limitOf config inherited threads = threads * config.maxWorkerConnections := by
  have positive : 0 < threads * config.maxWorkerConnections :=
    Nat.mul_pos someThreads someConnections
  have same : Connection.asInt (threads * config.maxWorkerConnections) =
      (threads * config.maxWorkerConnections : Nat) := by
    unfold Connection.asInt
    apply Int.bmod_eq_of_le
    · omega
    · omega
  unfold limitOf
  rw [same]
  simp only [Int.toNat_natCast]
  exact if_pos (by omega)

theorem descriptors_listenAndServe (config : Config) (inherited threads : Nat) :
    (listenAndServe config inherited threads).descriptors = [0, 1, 2, 3] := by
  have nothing : (List.range threads).flatMap
      (listenAndServe config inherited threads).descriptorsOf = [] :=
    List.flatMap_eq_nil_iff.mpr fun _ _ => rfl
  have listening : (listenAndServe config inherited threads).listenFd = 3 := rfl
  have none : (listenAndServe config inherited threads).lost = [] := rfl
  have workers : (listenAndServe config inherited threads).workerThreads = threads := rfl
  rw [descriptors, workers, nothing, listening, none]
  rfl

theorem rlimitNofile_listenAndServe (config : Config) (inherited threads : Nat) :
    (listenAndServe config inherited threads).rlimitNofile = limitOf config inherited threads := by
  rw [listenAndServe]

theorem sound_listenAndServe
    (limit : limitOf config inherited threads = threads * config.maxWorkerConnections)
    (listens : 4 ≤ threads * config.maxWorkerConnections) :
    Sound config threads (listenAndServe config inherited threads) where
  workerThreads := rfl
  rlimitNofile := by rw [rlimitNofile_listenAndServe, limit]
  distinct := by
    rw [descriptors_listenAndServe]
    decide
  below := by
    rw [descriptors_listenAndServe, rlimitNofile_listenAndServe, limit]
    intro fd isOpen
    simp only [List.mem_cons, List.not_mem_nil, or_false] at isOpen
    omega
  loops := by
    intro thread loop started
    cases started

/-- Behind every run the server has exited, or its descriptors are sound. -/
theorem sound_of_after
    (limit : limitOf config inherited threads = threads * config.maxWorkerConnections)
    (listens : 4 ≤ threads * config.maxWorkerConnections)
    (left : after config inherited threads actions = some server) :
    server.exited = true ∨ server.exited = false ∧ Sound config threads server := by
  induction actions using List.reverseRecOn generalizing server with
  | nil =>
      cases left
      exact .inr ⟨rfl, sound_listenAndServe limit listens⟩
  | append_singleton actions action inductionHypothesis =>
      rw [after_concat] at left
      obtain ⟨earlier, before, stepped⟩ := Option.bind_eq_some_iff.mp left
      rcases inductionHypothesis before with exited | ⟨-, sound⟩
      · have stopped : earlier.step config action = none := if_pos exited
        rw [stopped] at stepped
        cases stepped
      · rcases sound.step stepped with ⟨-, -, rfl⟩ | ⟨running, fds, opens⟩
        · exact .inl rfl
        · exact .inr ⟨opens.running.trans running, sound.opens opens⟩

theorem Sound.withinLimit (sound : Sound config threads server)
    (running : server.exited = false) : server.WithinLimit where
  descriptors := by
    have inside : server.descriptors.toFinset ⊆ Finset.range server.rlimitNofile := by
      intro fd isOpen
      exact Finset.mem_range.mpr (sound.below fd (List.mem_toFinset.mp isOpen))
    simpa using Finset.card_le_card inside
  running := running

theorem HasRoom.append_left {behind : List ServerAction}
    (room : HasRoom config inherited threads (actions ++ behind)) :
    HasRoom config inherited threads actions where
  listens := room.listens
  opens := by
    intro before action between server same opening left
    exact room.opens before action (between ++ behind) server (by rw [same]; simp) opening left

/-- With room for each of its descriptors a run is never refused one. -/
theorem HasRoom.running (room : HasRoom config inherited threads actions)
    (limit : limitOf config inherited threads = threads * config.maxWorkerConnections)
    (left : after config inherited threads actions = some server) : server.exited = false := by
  induction actions using List.reverseRecOn generalizing server with
  | nil =>
      cases left
      rfl
  | append_singleton actions action inductionHypothesis =>
      rw [after_concat] at left
      obtain ⟨earlier, before, stepped⟩ := Option.bind_eq_some_iff.mp left
      have still := inductionHypothesis room.append_left before
      rcases sound_of_after limit room.listens before with exited | ⟨-, sound⟩
      · rw [still] at exited
        cases exited
      rcases sound.step stepped with ⟨opening, refused, -⟩ | ⟨-, fds, opens⟩
      · have few := room.opens actions action [] earlier rfl opening before
        have full := sound.newDescriptor_eq_none_iff.mp refused
        rw [length_descriptors] at full
        omega
      · exact opens.running.trans still

def defaultConfig : Config where
  limits := ⟨2048, 8192, fun _ => []⟩
  routes := fun _ => none
  tls := false
  idleTimeout := 30
  maxWorkerConnections := 1024

/-- One client comes, and `Accept` looks for another one. -/
def oneClient : List ServerAction :=
  [.create 0, .run 0 (.poll [.listening]), .run 0 .beginAccept, .accept 0 true, .pop 0,
    .run 0 (.install 0 5 0 0 true), .accept 0 false]

end Runs

/-! ### Clients that fill the table -/

def Reached (config : Config) (inherited threads : Nat) (server : HTTPServer) : Prop :=
  ∃ actions, after config inherited threads actions = some server

/-- An event loop that is about to call `accept` and has never had a connection to give back. -/
structure Idle (config : Config) (loop : ServerLoop) : Prop where
  incoming : loop.incoming = none
  accepting : loop.eventLoop.loop = .accepting
  free : loop.eventLoop.pool.freeListHead = none
  maxConn : loop.eventLoop.pool.maxConn = config.maxWorkerConnections
  full : loop.eventLoop.clients.length = loop.eventLoop.pool.count

def atAccept (config : Config) : EventLoop := { EventLoop.initial config with loop := .accepting }

def popped (el : EventLoop) (clifd : Nat) : EventLoop :=
  { el with
    pool := { el.pool with count := el.pool.count + 1 }
    loop := .popped el.pool.count clifd }

def installed (config : Config) (el : EventLoop) (clifd : Nat) : EventLoop :=
  { (popped el clifd).put el.pool.count (EventLoop.installIn config el.pool.count clifd 0 0 true
      ((popped el clifd).hold el.pool.count)) with
    loop := .accepting
    installs := Function.update el.installs el.pool.count (el.installs el.pool.count + 1) }

/-- A server to which clients have come and from which none has gone. -/
structure Filling (config : Config) (threads : Nat) (server : HTTPServer) : Prop where
  sound : Sound config threads server
  running : server.exited = false
  idle : ∀ thread loop, server.loops thread = some loop → Idle config loop

section Filling

variable {config : Config} {inherited threads thread : Nat} {server later : HTTPServer}
  {loop : ServerLoop}

theorem Reached.next {action : ServerAction} (reached : Reached config inherited threads server)
    (stepped : server.step config action = some later) :
    Reached config inherited threads later := by
  obtain ⟨actions, left⟩ := reached
  refine ⟨actions ++ [action], ?_⟩
  rw [after_concat, left]
  exact stepped

theorem step_create (running : server.exited = false) (inside : thread < server.workerThreads)
    (fresh : server.loops thread = none) :
    server.step config (.create thread) =
      some (match server.newDescriptor with
        | some evfd => server.setLoop thread ⟨evfd, none, .initial config⟩
        | none => server.exit) := by
  simp [step, running, create, inside, fresh]

theorem step_accept (running : server.exited = false) (isStarted : server.loops thread = some loop)
    (idle : Idle config loop) :
    server.step config (.accept thread true) =
      match server.newDescriptor with
      | some clifd => some (server.setLoop thread { loop with incoming := some clifd })
      | none => some server.exit := by
  simp [step, running, accept, isStarted, idle.accepting, idle.incoming]

theorem step_pop (running : server.exited = false) {clifd : Nat}
    (isStarted : server.loops thread = some loop) (incoming : loop.incoming = some clifd)
    {el : EventLoop} (stepped : loop.eventLoop.step config (.accepted clifd) = some el) :
    server.step config (.pop thread) =
      some (server.setLoop thread { loop with incoming := none, eventLoop := el }) := by
  simp [step, running, pop, isStarted, incoming, stepped]

theorem step_run (running : server.exited = false) (isStarted : server.loops thread = some loop)
    {action : Action} (other : action.accepts = false) {el : EventLoop}
    (keeps : loop.eventLoop.overwritten action = [])
    (stepped : loop.eventLoop.step config action = some el) :
    server.step config (.run thread action) =
      some (server.setLoop thread { loop with eventLoop := el }) := by
  simp [step, running, run, isStarted, other, stepped, keeps, setLoop]

/-- An idle event loop admits a client while it has created no more connections than
`max_worker_connections_`. -/
theorem steps_installed (idle : Idle config loop)
    (room : loop.eventLoop.pool.count ≤ config.maxWorkerConnections) (clifd : Nat) :
    loop.eventLoop.step config (.accepted clifd) = some (popped loop.eventLoop clifd) ∧
      (popped loop.eventLoop clifd).step config
          (.install loop.eventLoop.pool.count clifd 0 0 true) =
        some (installed config loop.eventLoop clifd) := by
  have within : ¬ loop.eventLoop.pool.maxConn < loop.eventLoop.pool.count := by
    rw [idle.maxConn]
    exact Nat.not_lt.mpr room
  have pops : loop.eventLoop.pool.freeListPop = (some loop.eventLoop.pool.count,
      { loop.eventLoop.pool with count := loop.eventLoop.pool.count + 1 }) := by
    simp [ConnectionPool.freeListPop, idle.free, within]
  have accepted : loop.eventLoop.stepLoop config (.accepted clifd) =
      some (popped loop.eventLoop clifd) := by
    simp [EventLoop.stepLoop, idle.accepting, pops, popped]
  have installing : (popped loop.eventLoop clifd).stepLoop config
      (.install loop.eventLoop.pool.count clifd 0 0 true) =
        some (installed config loop.eventLoop clifd) := if_pos rfl
  refine ⟨?_, ?_⟩
  · rw [EventLoop.step, accepted, Option.some_or]
  · rw [EventLoop.step, installing, Option.some_or]

theorem sameFree_installed (config : Config) (el : EventLoop) (clifd : Nat) :
    { el.pool with count := el.pool.count + 1 }.SameFree (installed config el clifd).pool :=
  ConnectionPool.sameFree_activeListPush

theorem clients_installed {el : EventLoop} (accepting : el.loop = .accepting) (clifd : Nat) :
    (installed config el clifd).clients = el.clients ++ [clifd] := by
  have created : (installed config el clifd).pool.count = el.pool.count + 1 :=
    (sameFree_installed config el clifd).count
  have others : ∀ conn ∈ List.range el.pool.count,
      (installed config el clifd).socketOf conn = el.socketOf conn := by
    intro conn inside
    have different : conn ≠ el.pool.count := Nat.ne_of_lt (List.mem_range.mp inside)
    apply EventLoop.socketOf_congr
    simp [installed, popped, different]
  have own : (installed config el clifd).socketOf el.pool.count = [clifd] := by
    apply EventLoop.socketOf_eq
    simp [installed, EventLoop.installIn]
  have nothing : EventLoop.incomingSocket .accepting = [] := rfl
  have still : (installed config el clifd).loop = .accepting := rfl
  rw [EventLoop.clients, EventLoop.clients, still, accepting, nothing, List.append_nil,
    List.append_nil, EventLoop.installedSockets, created, List.range_succ, List.flatMap_append,
    List.flatMap_singleton, own, List.flatMap_congr others, EventLoop.installedSockets]

theorem idle_installed (idle : Idle config loop) (clifd : Nat) :
    Idle config { loop with eventLoop := installed config loop.eventLoop clifd } where
  incoming := idle.incoming
  accepting := rfl
  free := (sameFree_installed config loop.eventLoop clifd).freeListHead.trans idle.free
  maxConn := by
    change (ConnectionPool.activeListPush _ _).maxConn = _
    rw [ConnectionPool.maxConn_activeListPush]
    exact idle.maxConn
  full := by
    have created : (installed config loop.eventLoop clifd).pool.count =
        loop.eventLoop.pool.count + 1 := (sameFree_installed config loop.eventLoop clifd).count
    dsimp only
    rw [clients_installed idle.accepting, created, List.length_append, idle.full]
    rfl

theorem Filling.setLoop (filling : Filling config threads server) {fd : Nat}
    (given : server.newDescriptor = some fd) (inside : thread < threads)
    (numbered : loop.eventLoop.Numbered) (idle : Idle config loop)
    (changes : (loop.evfd :: (loop.incoming.toList ++ loop.eventLoop.clients)).Perm
      ([fd] ++ server.descriptorsOf thread)) :
    Filling config threads (server.setLoop thread loop) ∧
      (server.setLoop thread loop).descriptors.length = server.descriptors.length + 1 := by
  have opens := filling.sound.setsLoop inside numbered (.inr ⟨fd, given, rfl⟩) changes.subperm
  refine ⟨⟨filling.sound.opens opens, opens.running.trans filling.running, ?_⟩, ?_⟩
  · intro other otherLoop isStarted
    by_cases same : other = thread
    · subst same
      have stored : some loop = some otherLoop := loops_setLoop.symm.trans isStarted
      cases stored
      exact idle
    · exact filling.idle other otherLoop
        (by simpa [HTTPServer.setLoop, same] using isStarted)
  · have moved := (@perm_descriptors server thread (server.setLoop thread loop) rfl rfl
      (filling.sound.workerThreads ▸ inside)
      (fun other different => Function.update_of_ne different _ _)).length_eq
    have lost : (server.setLoop thread loop).lost = server.lost := rfl
    have counted := changes.length_eq
    rw [descriptorsOf_eq loops_setLoop, lost] at moved
    simp only [List.length_append, List.length_singleton] at moved counted
    omega

theorem Filling.create (filling : Filling config threads server)
    (reached : Reached config inherited threads server) {evfd : Nat}
    (given : server.newDescriptor = some evfd) (inside : thread < threads)
    (fresh : server.loops thread = none) :
    ∃ later, Reached config inherited threads later ∧ Filling config threads later ∧
      later.descriptors.length = server.descriptors.length + 1 := by
  have running : ∀ loop, (server.setLoop thread loop).exited = false := fun _ => filling.running
  have polled : (EventLoop.initial config).step config (.poll [.listening]) =
      some { EventLoop.initial config with batch := [.listening] } := by
    simp [EventLoop.step, EventLoop.stepLoop, EventLoop.initial, EventLoop.Reports]
  have begun : { EventLoop.initial config with batch := [.listening] }.step config .beginAccept =
      some (atAccept config) := by
    simp [EventLoop.step, EventLoop.stepLoop, EventLoop.initial, atAccept]
  have first := @step_create config _ _ filling.running
    (filling.sound.workerThreads ▸ inside) fresh
  rw [given] at first
  have second := @step_run config thread _ ⟨evfd, none, .initial config⟩ (running _)
    loops_setLoop _ rfl _ rfl polled
  have third := @step_run config thread _
    ⟨evfd, none, { EventLoop.initial config with batch := [.listening] }⟩ (running _)
    loops_setLoop _ rfl _ rfl begun
  rw [setLoop_setLoop] at second third
  have numbered : (atAccept config).Numbered :=
    { EventLoop.numbered_initial config with popped := by intro _ _ atPop; cases atPop }
  have nothing : server.descriptorsOf thread = [] := by simp [descriptorsOf, clientsOf, fresh]
  refine ⟨server.setLoop thread ⟨evfd, none, atAccept config⟩,
    ((reached.next first).next second).next third, ?_⟩
  apply filling.setLoop given inside numbered ⟨rfl, rfl, rfl, rfl, rfl⟩
  rw [nothing]
  exact .refl _

theorem Filling.admits (filling : Filling config threads server)
    (reached : Reached config inherited threads server) {clifd : Nat}
    (given : server.newDescriptor = some clifd) (isStarted : server.loops thread = some loop)
    (room : loop.eventLoop.pool.count ≤ config.maxWorkerConnections) :
    ∃ later, Reached config inherited threads later ∧ Filling config threads later ∧
      later.descriptors.length = server.descriptors.length + 1 := by
  have idle := filling.idle thread loop isStarted
  obtain ⟨inside, numbered⟩ := filling.sound.loops thread loop isStarted
  obtain ⟨accepted, installing⟩ := steps_installed idle room clifd
  have running : ∀ loop, (server.setLoop thread loop).exited = false := fun _ => filling.running
  have keeps : (popped loop.eventLoop clifd).overwritten
      (.install loop.eventLoop.pool.count clifd 0 0 true) = [] :=
    EventLoop.socketOf_of_negative
      (Int.not_le.mp fun opened => Nat.lt_irrefl _ (numbered.holders _ opened))
  have first := @step_accept config _ _ _ filling.running isStarted idle
  rw [given] at first
  have second := @step_pop config thread _ { loop with incoming := some clifd } (running _) _
    loops_setLoop rfl _ accepted
  have third := @step_run config thread _
    { loop with incoming := none, eventLoop := popped loop.eventLoop clifd } (running _)
    loops_setLoop _ rfl _ keeps installing
  rw [setLoop_setLoop] at second third
  have admitted := numbered.step accepted
  have unchanged : { loop with
        incoming := none
        eventLoop := installed config loop.eventLoop clifd } =
      { loop with eventLoop := installed config loop.eventLoop clifd } := by
    rw [← idle.incoming]
  rw [unchanged] at third
  refine ⟨_, ((reached.next first).next second).next third, ?_⟩
  apply filling.setLoop given inside (admitted.numbered.step installing).numbered
    (idle_installed idle clifd)
  rw [descriptorsOf_eq isStarted, clients_installed idle.accepting, ← List.append_assoc,
    ← List.cons_append]
  exact List.perm_append_comm

/-- Below the limit there is always a thread that opens one more descriptor: all threads
together admit more clients than the limit allows descriptors. -/
theorem Filling.grows (filling : Filling config threads server)
    (reached : Reached config inherited threads server)
    (below : server.descriptors.length < threads * config.maxWorkerConnections) :
    ∃ later, Reached config inherited threads later ∧ Filling config threads later ∧
      later.descriptors.length = server.descriptors.length + 1 := by
  obtain ⟨fd, given⟩ := Option.ne_none_iff_exists'.mp fun refused =>
    Nat.not_le.mpr below (filling.sound.newDescriptor_eq_none_iff.mp refused)
  by_contra stuck
  have full : ∀ opened ∈ (List.range threads).map fun thread =>
      (server.descriptorsOf thread).length, config.maxWorkerConnections ≤ opened := by
    intro opened among
    obtain ⟨thread, member, rfl⟩ := List.mem_map.mp among
    cases isStarted : server.loops thread with
    | none =>
        exact absurd (filling.create reached given (List.mem_range.mp member) isStarted) stuck
    | some loop =>
        by_contra few
        rw [descriptorsOf_eq isStarted, List.length_cons, List.length_append,
          (filling.idle thread loop isStarted).full] at few
        exact stuck (filling.admits reached given isStarted (by omega))
  have total := List.card_nsmul_le_sum _ _ full
  rw [List.length_map, List.length_range, smul_eq_mul] at total
  have counted : server.descriptors.length = 4 +
      ((List.range threads).map fun thread => (server.descriptorsOf thread).length).sum +
        server.lost.length := by
    rw [descriptors, filling.sound.workerThreads, List.length_append, List.length_append,
      List.length_flatMap]
    rfl
  omega

theorem Filling.exits (filling : Filling config threads server)
    (reached : Reached config inherited threads server) (inside : 0 < threads)
    (full : threads * config.maxWorkerConnections ≤ server.descriptors.length) :
    Reached config inherited threads server.exit := by
  have refused := filling.sound.newDescriptor_eq_none_iff.mpr full
  cases isStarted : server.loops 0 with
  | none =>
      have created := @step_create config _ _ filling.running
        (filling.sound.workerThreads ▸ inside) isStarted
      rw [refused] at created
      exact reached.next created
  | some loop =>
      have accepted := @step_accept config _ _ _ filling.running isStarted
        (filling.idle 0 loop isStarted)
      rw [refused] at accepted
      exact reached.next accepted

theorem Filling.reaches_exit (inside : 0 < threads) (missing : Nat) {server : HTTPServer}
    (filling : Filling config threads server) (reached : Reached config inherited threads server)
    (distance : threads * config.maxWorkerConnections ≤ server.descriptors.length + missing) :
    ∃ later, Reached config inherited threads later ∧ later.exited = true := by
  induction missing generalizing server with
  | zero => exact ⟨server.exit, filling.exits reached inside distance, rfl⟩
  | succ missing inductionHypothesis =>
      by_cases below : server.descriptors.length < threads * config.maxWorkerConnections
      · obtain ⟨later, laterReached, laterFilling, longer⟩ := filling.grows reached below
        exact inductionHypothesis laterFilling laterReached (by omega)
      · exact ⟨server.exit, filling.exits reached inside (Nat.not_lt.mp below), rfl⟩

theorem reaches_exit (inherited : Nat) (someThreads : 1 ≤ threads)
    (limit : limitOf config inherited threads = threads * config.maxWorkerConnections)
    (listens : 4 ≤ threads * config.maxWorkerConnections) :
    ∃ server, Reached config inherited threads server ∧ server.exited = true := by
  have filling : Filling config threads (listenAndServe config inherited threads) :=
    ⟨sound_listenAndServe limit listens, rfl, by intro thread loop started; cases started⟩
  exact filling.reaches_exit someThreads (threads * config.maxWorkerConnections) ⟨[], rfl⟩
    (Nat.le_add_left _ _)

end Filling

/-- Whatever the numbers of threads and connections, clients can come that make the server
run out of descriptors. -/
theorem not_withinLimit (config : Config) (inherited threads : Nat) (someThreads : 1 ≤ threads)
    (someConnections : 1 ≤ config.maxWorkerConnections)
    (representable : threads * config.maxWorkerConnections < 2 ^ 31) :
    ∃ actions server, after config inherited threads actions = some server ∧
      ¬ StaysWithin config inherited threads actions := by
  have limit := limitOf_of_representable inherited someThreads someConnections representable
  by_cases listens : 4 ≤ threads * config.maxWorkerConnections
  · obtain ⟨server, ⟨actions, left⟩, exited⟩ := reaches_exit inherited someThreads limit listens
    refine ⟨actions, server, left, fun within => ?_⟩
    have running := (within actions [] server (List.append_nil _).symm left).running
    rw [exited] at running
    cases running
  · refine ⟨[], _, rfl, fun within => listens ?_⟩
    have first := (within [] [] _ rfl rfl).descriptors
    rwa [descriptors_listenAndServe, rlimitNofile_listenAndServe, limit] at first

end HTTPServer

end Mevent
