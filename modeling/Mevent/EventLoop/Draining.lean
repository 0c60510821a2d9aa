import Mevent.EventLoop.Accounting
import Mevent.EventLoop.Requests

/-!
# `Accept` until `accept` would block

What is accounted for is preserved by every round of the loop.  The loop comes to its end if
there is always a connection for a descriptor.
-/

namespace Mevent

open Library

namespace Accepting

variable {config : Config} {accepting : Accepting} {free active fewer : List ConnId}
  {arrival : Arrival} {conn : ConnId} {pool : ConnectionPool} {start : Nat} {leaks : Prop}
  {later : Accepting}

/-! ### A round, and the whole loop -/

theorem Ledger.congr {other : Prop} (ledger : accepting.Ledger start leaks active)
    (same : leaks ↔ other) : accepting.Ledger start other active := by
  rwa [← propext same]

section Install

variable (sound : accepting.Sound free active) (ledger : accepting.Ledger start leaks active)
  (offers : accepting.Offers (.arrival arrival))
  (popped : accepting.Popped free active conn pool fewer)
include sound ledger offers popped

theorem Sound.install_ready (ready : arrival.ready config = true) :
    ((accepting.afterPop arrival conn pool).install config arrival conn).Sound fewer
        (active ++ [conn]) ∧
      ((accepting.afterPop arrival conn pool).install config arrival conn).Ledger start
        (leaks ∨ AcceptEvent.LeavesZero config (.arrival arrival)) (active ++ [conn]) ∧
      room ((accepting.afterPop arrival conn pool).install config arrival conn).pool fewer =
        room pool fewer := by
  obtain ⟨-, unused⟩ := offers
  obtain ⟨fd_eq, pool_eq, sockets_eq, popped_eq⟩ :=
    @Accepting.install_ready config (accepting.afterPop arrival conn pool) arrival conn ready
  have opened_eq : (accepting.afterPop arrival conn pool).sockets.opened =
      accepting.sockets.opened + 1 := Descriptors.opened_tryOpen unused
  have file_eq : ∀ descriptor, (accepting.afterPop arrival conn pool).sockets.file descriptor =
      if descriptor = arrival.clifd then some accepting.sockets.opened
      else accepting.sockets.file descriptor := Descriptors.file_tryOpen unused
  rw [← sockets_eq] at file_eq opened_eq
  refine ⟨sound.ready popped unused fd_eq file_eq pool_eq popped_eq, ?_, ?_⟩
  · refine (ledger.ready popped unused fd_eq file_eq opened_eq).congr ?_
    simp [AcceptEvent.LeavesZero, ready]
  · rw [pool_eq, room, room, ConnectionPool.maxConn_activeListPush,
      ConnectionPool.count_activeListPush]
    rfl

theorem Sound.install_refused (refused : arrival.ready config = false) :
    ((accepting.afterPop arrival conn pool).install config arrival conn).Sound (conn :: fewer)
        active ∧
      ((accepting.afterPop arrival conn pool).install config arrival conn).Ledger start
        (leaks ∨ AcceptEvent.LeavesZero config (.arrival arrival)) active ∧
      room ((accepting.afterPop arrival conn pool).install config arrival conn).pool
        (conn :: fewer) = room pool fewer + 1 := by
  obtain ⟨descriptor, unused⟩ := offers
  obtain ⟨fd_eq, pool_eq, sockets_eq, popped_eq⟩ :=
    @Accepting.install_refused config (accepting.afterPop arrival conn pool) arrival conn refused
  have opened_eq :
      ((accepting.afterPop arrival conn pool).install config arrival conn).sockets.opened =
        accepting.sockets.opened + 1 := by
    rw [sockets_eq]
    split
    next => exact Descriptors.opened_close.trans (Descriptors.opened_tryOpen unused)
    next => exact Descriptors.opened_tryOpen unused
  have file_eq : ∀ at_fd,
      ((accepting.afterPop arrival conn pool).install config arrival conn).sockets.file at_fd =
        if at_fd = arrival.clifd then
          if 0 < arrival.clifd then none else some accepting.sockets.opened
        else accepting.sockets.file at_fd := by
    intro at_fd
    rw [sockets_eq]
    split
    next positive =>
      rw [Descriptors.file_close, afterPop, Descriptors.file_tryOpen unused]
      split
      next => rfl
      next => rfl
    next => exact Descriptors.file_tryOpen unused at_fd
  have elsewhere : ∀ at_fd, at_fd ≠ arrival.clifd →
      ((accepting.afterPop arrival conn pool).install config arrival conn).sockets.file at_fd =
        accepting.sockets.file at_fd := by
    intro at_fd different
    rw [file_eq, if_neg different]
  refine ⟨?_, ?_, ?_⟩
  · refine sound.refused popped unused fd_eq elsewhere ?_ pool_eq popped_eq
    split
    next => omega
    next => omega
  · refine (Ledger.refused popped unused fd_eq elsewhere sound ledger descriptor opened_eq
      ?_).congr ?_
    · rw [file_eq, if_pos rfl]
    · simp [AcceptEvent.LeavesZero, refused]
  · have limit : ((accepting.afterPop arrival conn pool).pool.freeListPush conn).maxConn =
        pool.maxConn := rfl
    rw [pool_eq, room, room, ConnectionPool.count_freeListPush, limit, List.length_cons]
    simp only [afterPop]
    omega

end Install

theorem Sound.relist (sound : accepting.Sound free active) {listed : List ConnId}
    (freeList : later.pool.FreeList free) (activeList : later.pool.ActiveList listed)
    (same : ∀ conn, conn ∈ listed ↔ conn ∈ active)
    (count_eq : later.pool.count = accepting.pool.count)
    (popped_eq : later.popped = accepting.popped) (fd_eq : later.fd = accepting.fd)
    (file_eq : later.sockets.file = accepting.sockets.file) : later.Sound free listed := by
  have apart : ∀ conn ∈ free, conn ∉ listed := by
    intro conn freed
    rw [same]
    exact sound.apart conn freed
  constructor
  · exact freeList
  · exact activeList
  · exact sound.nodup
  · exact apart
  · intro conn
    rw [same, count_eq]
    exact sound.created conn
  · intro conn
    rw [same, popped_eq]
    exact sound.popped conn
  · intro conn
    rw [same, fd_eq, file_eq]
    exact sound.opened conn
  · intro conn inside other also
    rw [same] at inside also
    rw [fd_eq]
    exact sound.differ conn inside other also
  · intro conn
    rw [same, fd_eq]
    exact sound.listed conn

/-- `Accept` returns when there is no room for a descriptor; every other round preserves what it
leaves behind. -/
theorem Sound.round (sound : accepting.Sound free active)
    (ledger : accepting.Ledger start leaks active) {event : AcceptEvent}
    (goes_on : event.GoesOn) (offers : accepting.Offers event) :
    (∃ later, accepting.round config event = (some .full, later) ∧ later.Sound free active ∧
      ∀ events, ¬ Fits config (room accepting.pool free) (event :: events)) ∨
    ∃ later rest listed, accepting.round config event = (none, later) ∧
      later.Sound rest listed ∧
      later.Ledger start (leaks ∨ event.LeavesZero config) listed ∧
      ∀ events, Fits config (room accepting.pool free) (event :: events) ↔
        Fits config (room later.pool rest) events := by
  cases event with
  | again => cases goes_on
  | failed => cases goes_on
  | reset conn =>
      right
      refine ⟨_, _, _, rfl, sound.reset offers, ?_, ?_⟩
      · exact (Ledger.reset sound offers ledger).congr (by simp [AcceptEvent.LeavesZero])
      · intro events
        rw [room_resetConnection offers]
        rfl
  | arrival arrival =>
      rcases sound.pop_cases with ⟨none_left, full⟩ | ⟨conn, pool, fewer, taken, popped⟩
      · left
        refine ⟨_, by simp only [Accepting.round, none_left]; rfl, ?_, ?_⟩
        · exact sound.relist sound.freeList sound.activeList (fun _ => Iff.rfl) rfl rfl rfl
            (Descriptors.file_close_tryOpen offers.2)
        · rintro events ⟨some_room, -⟩
          omega
      · right
        have at_room := popped.room
        have round_eq : accepting.round config (.arrival arrival) =
            (none, (accepting.afterPop arrival conn pool).install config arrival conn) := by
          simp only [Accepting.round, taken]
        cases ready : arrival.ready config with
        | true =>
            obtain ⟨later_sound, later_ledger, later_room⟩ :=
              sound.install_ready ledger offers popped ready
            refine ⟨_, _, _, round_eq, later_sound, later_ledger, ?_⟩
            intro events
            have one_less : room accepting.pool free - 1 = room pool fewer := by omega
            simp only [Fits, ready, if_true, later_room, one_less]
            exact and_iff_right (by omega)
        | false =>
            obtain ⟨later_sound, later_ledger, later_room⟩ :=
              sound.install_refused ledger offers popped ready
            refine ⟨_, _, _, round_eq, later_sound, later_ledger, ?_⟩
            intro events
            simp only [Fits, ready, Bool.false_eq_true, if_false, later_room, at_room]
            exact and_iff_right (by omega)

theorem accept_of_goesOn {event : AcceptEvent} {events : List AcceptEvent}
    (rounded : accepting.round config event = (none, later)) :
    accepting.accept config (event :: events) = later.accept config events := by
  rw [Accepting.accept, rounded]

theorem accept_of_ends {event : AcceptEvent} {events : List AcceptEvent} {exit : AcceptExit}
    (rounded : accepting.round config event = (some exit, later)) :
    accepting.accept config (event :: events) = (some exit, later) := by
  rw [Accepting.accept, rounded]

/-- `Accept` goes on until `accept` would block just when there is always room. -/
theorem Sound.accept {calls : List AcceptEvent} (sound : accepting.Sound free active)
    (ledger : accepting.Ledger start leaks active)
    (goes_on : ∀ event ∈ calls, event.GoesOn)
    (possible : Possible config accepting (calls ++ [.again])) :
    ((accepting.accept config (calls ++ [.again])).1 = some .full ∧
      ¬ Fits config (room accepting.pool free) calls) ∨
    ∃ later rest listed, accepting.accept config (calls ++ [.again]) = (some .drained, later) ∧
      later.Sound rest listed ∧
      later.Ledger start (leaks ∨ ∃ event ∈ calls, event.LeavesZero config) listed ∧
      Fits config (room accepting.pool free) calls := by
  induction calls generalizing accepting free active leaks with
  | nil =>
      refine .inr ⟨accepting, free, active, rfl, sound, ledger.congr (by simp), ?_⟩
      simp only [Fits]
  | cons event calls inductionHypothesis =>
      obtain ⟨offers, possible⟩ := possible
      rcases sound.round ledger (goes_on event (by simp)) offers with
        ⟨later, rounded, -, unfit⟩ |
        ⟨later, rest, listed, rounded, later_sound, later_ledger, fits_iff⟩
      · left
        rw [List.cons_append, accept_of_ends rounded]
        exact ⟨rfl, unfit calls⟩
      · rw [rounded] at possible
        rw [List.cons_append, accept_of_goesOn rounded, fits_iff]
        rcases inductionHypothesis later_sound later_ledger
          (fun other inside => goes_on other (List.mem_cons_of_mem _ inside)) (possible rfl) with
          full | ⟨last, rest, listed, finished, last_sound, last_ledger, fits⟩
        · exact .inl full
        · refine .inr ⟨last, rest, listed, finished, last_sound, last_ledger.congr ?_, fits⟩
          simp only [List.mem_cons, exists_eq_or_imp, or_assoc]

/-! ### What is accounted for -/

theorem Ledger.begins : accepting.Ledger accepting.sockets.opened False active where
  numbered := le_rfl
  leaked := False.elim
  covered := by
    intro _ descriptor socket numbered held
    exact absurd (accepting.sockets.below descriptor socket held) (Nat.not_lt.mpr numbered)

/-- `Accept` leaves the lists sound, however it ends. -/
theorem Sound.accepted {events : List AcceptEvent} (sound : accepting.Sound free active)
    (possible : Possible config accepting events) :
    ∃ rest listed, (accepting.accept config events).2.Sound rest listed := by
  induction events generalizing accepting free active with
  | nil => exact ⟨free, active, sound⟩
  | cons event events inductionHypothesis =>
      obtain ⟨offers, possible⟩ := possible
      by_cases goes_on : event.GoesOn
      · rcases sound.round Ledger.begins goes_on offers with
          ⟨later, rounded, later_sound, -⟩ | ⟨later, rest, listed, rounded, later_sound, -⟩
        · rw [accept_of_ends rounded]
          exact ⟨free, active, later_sound⟩
        · rw [rounded] at possible
          rw [accept_of_goesOn rounded]
          exact inductionHypothesis later_sound (possible rfl)
      · cases event with
        | again => exact ⟨free, active, sound⟩
        | failed => exact ⟨free, active, sound⟩
        | arrival => exact absurd trivial goes_on
        | reset => exact absurd trivial goes_on

theorem sound_initial : (initial config).Sound [] [] where
  freeList := ConnectionPool.freeList_new _
  activeList := ConnectionPool.activeList_new _
  nodup := List.nodup_nil
  apart := nofun
  created := by simp
  popped := nofun
  opened := nofun
  differ := nofun
  listed := by
    intro conn positive
    have none_open : ¬ (0 : Int) < -1 := by decide
    exact absurd positive none_open

theorem Sound.update (sound : accepting.Sound free active)
    (listed : accepting.pool.OnActiveList conn) :
    ∃ rest, { accepting with pool := accepting.pool.activeListUpdate conn }.Sound free rest := by
  have inside := mem_of_met sound.activeList.forward listed
  obtain ⟨rest, erased, members⟩ :=
    ConnectionPool.activeList_erase_of_mem sound.activeList inside
  have outside : conn ∉ rest := fun still => ((members conn).mp still).2 rfl
  refine ⟨rest ++ [conn], sound.relist ?_ ?_ ?_ ?_ rfl rfl rfl⟩
  · exact ConnectionPool.freeList_activeListPush.mpr
      (ConnectionPool.freeList_activeListErase.mpr sound.freeList)
  · exact ConnectionPool.activeList_push erased outside
  · intro other
    rw [List.mem_append, members, List.mem_singleton]
    by_cases same : other = conn
    · simp [same, inside]
    · simp [same]
  · exact ConnectionPool.count_activeListPush.trans ConnectionPool.count_activeListErase

/-- The lists are sound in every run. -/
theorem sound_of_reaches
    (reached : Reaches (step config) (Allows config) (initial config) accepting) :
    ∃ free active, accepting.Sound free active := by
  induction reached with
  | refl => exact ⟨[], [], sound_initial⟩
  | @next state later turn _ allowed stepped inductionHypothesis =>
      obtain ⟨free, active, sound⟩ := inductionHypothesis
      cases turn with
      | accepts events =>
          cases stepped
          exact sound.accepted allowed
      | resets conn =>
          cases stepped
          by_cases positive : 0 < state.fd conn
          · exact ⟨_, _, sound.reset positive⟩
          · rw [resetConnection, if_neg positive]
            exact ⟨free, active, sound⟩
      | updates conn =>
          cases stepped
          exact ⟨free, sound.update allowed⟩
      | timeoutCheck =>
          cases stepped
          exact ⟨free, active, sound.relist sound.freeList sound.activeList (fun _ => Iff.rfl)
            rfl rfl rfl rfl⟩
      | checkNext =>
          cases stepped
          exact ⟨free, active, sound.relist sound.freeList sound.activeList (fun _ => Iff.rfl)
            rfl rfl rfl rfl⟩
      | works conn connection =>
          cases stepped
          have fd_eq : connection.fd = state.fd conn := allowed
          refine ⟨free, active, sound.relist sound.freeList sound.activeList
            (fun _ => Iff.rfl) rfl rfl ?_ rfl⟩
          funext other
          by_cases same : other = conn
          · subst same
            simp only [fd, Function.update_self, fd_eq]
          · simp [fd, same]

/-! ### The calls of `close` -/

theorem ClosesSince.of_same (same : later.sockets.closes = accepting.sockets.closes) :
    ClosesSince accepting later :=
  ⟨[], by rw [same, List.append_nil], List.not_mem_nil⟩

theorem ClosesSince.trans {before : Accepting} (first : ClosesSince before accepting)
    (second : ClosesSince accepting later) : ClosesSince before later := by
  obtain ⟨calls, done, noneFails⟩ := first
  obtain ⟨others, more, noneFailsEither⟩ := second
  refine ⟨calls ++ others, ?_, ?_⟩
  · rw [more, done, List.append_assoc]
  · rw [List.mem_append]
    exact not_or.mpr ⟨noneFails, noneFailsEither⟩

theorem ClosesSince.close {table : Descriptors Int} {clifd : Int} {socket : Nat}
    (same : table.closes = accepting.sockets.closes) (held : table.file clifd = some socket)
    (closes : later.sockets = table.close clifd) : ClosesSince accepting later := by
  refine ⟨[some socket], ?_, by simp⟩
  rw [closes, Descriptors.closes_close, same, held]

/-- `Accept` closes a descriptor that it has just accepted, and `ResetConnection` one that its
connection holds. -/
theorem Sound.closes_round (sound : accepting.Sound free active) {event : AcceptEvent}
    (offers : accepting.Offers event) :
    ClosesSince accepting (accepting.round config event).2 := by
  cases event with
  | again => exact .of_same rfl
  | failed => exact .of_same rfl
  | reset conn =>
      obtain ⟨socket, opened⟩ := sound.opened conn (sound.listed conn offers)
      refine .close rfl opened ?_
      change (accepting.resetConnection conn).sockets = _
      rw [resetConnection_eq offers]
  | arrival arrival =>
      obtain ⟨descriptor, unused⟩ := offers
      have opened : (accepting.sockets.tryOpen arrival.clifd).file arrival.clifd =
          some accepting.sockets.opened := by
        rw [Descriptors.file_tryOpen unused, if_pos rfl]
      cases popped : accepting.pool.freeListPop with
      | mk conn pool =>
          cases conn with
          | none =>
              refine .close Descriptors.closes_tryOpen opened ?_
              simp only [Accepting.round, popped]
          | some conn =>
              have rounded : (accepting.round config (.arrival arrival)).2 =
                  (accepting.afterPop arrival conn pool).install config arrival conn := by
                simp only [Accepting.round, popped]
              rw [rounded]
              cases ready : arrival.ready config with
              | true =>
                  apply ClosesSince.of_same
                  rw [(Accepting.install_ready ready).2.2.1]
                  exact Descriptors.closes_tryOpen
              | false =>
                  have sockets := (@Accepting.install_refused config
                    (accepting.afterPop arrival conn pool) arrival conn ready).2.2.1
                  by_cases positive : 0 < arrival.clifd
                  · rw [if_pos positive] at sockets
                    exact .close Descriptors.closes_tryOpen opened sockets
                  · rw [if_neg positive] at sockets
                    apply ClosesSince.of_same
                    rw [sockets]
                    exact Descriptors.closes_tryOpen

theorem Sound.closes_accept {calls : List AcceptEvent} (sound : accepting.Sound free active)
    (goes_on : ∀ event ∈ calls, event.GoesOn)
    (possible : Possible config accepting (calls ++ [.again])) :
    ClosesSince accepting (accepting.accept config (calls ++ [.again])).2 := by
  induction calls generalizing accepting free active with
  | nil => exact .of_same rfl
  | cons event calls inductionHypothesis =>
      obtain ⟨offers, possible⟩ := possible
      have first := @Sound.closes_round config _ _ _ sound event offers
      rcases sound.round Ledger.begins (goes_on event (by simp)) offers with
        ⟨later, rounded, -⟩ | ⟨later, rest, listed, rounded, later_sound, -⟩
      · rw [rounded] at first
        rwa [List.cons_append, accept_of_ends rounded]
      · rw [rounded] at first possible
        rw [List.cons_append, accept_of_goesOn rounded]
        exact first.trans (inductionHypothesis later_sound
          (fun other inside => goes_on other (List.mem_cons_of_mem _ inside)) (possible rfl))

/-- Every socket is accounted for unless one of them has been left at the descriptor 0. -/
theorem Sound.accountsFor_iff {before : Accepting} (sound : later.Sound free active)
    (ledger : later.Ledger before.sockets.opened leaks active)
    (closes : ClosesSince before later) : AccountsFor before later ↔ ¬ leaks := by
  constructor
  · intro accounts leaked
    obtain ⟨socket, numbered, held, apart⟩ := ledger.leaked leaked
    rcases accounts.sockets socket numbered (later.sockets.below 0 socket held) with
      closed | ⟨conn, ⟨listed, at_fd⟩, -⟩
    · have open_still := List.count_eq_zero.mpr (Descriptors.not_mem_closes held)
      omega
    · exact apart conn (mem_of_met sound.activeList.forward listed)
        (later.sockets.apart _ _ socket at_fd held)
  · intro complete
    constructor
    · intro socket numbered below
      by_cases left : ∀ descriptor, later.sockets.file descriptor ≠ some socket
      · exact .inl (Descriptors.count_closes below left)
      · right
        push Not at left
        obtain ⟨descriptor, held⟩ := left
        obtain ⟨conn, inside, at_fd⟩ := ledger.covered complete descriptor socket numbered held
        refine ⟨conn, ⟨met_of_mem sound.activeList.forward inside, by rw [at_fd, held]⟩, ?_⟩
        rintro other ⟨listed, also⟩
        have other_inside := mem_of_met sound.activeList.forward listed
        refine sound.differ other other_inside conn inside ?_
        rw [at_fd]
        exact later.sockets.apart _ _ socket also held
    · exact closes
    · intro conn inside
      rcases sound.popped conn inside with freed | listed
      · exact .inr (met_of_mem sound.freeList freed)
      · exact .inl (met_of_mem sound.activeList.forward listed)

/-- `Accept` returns because `accept` would block and leaves every socket accounted for just when
the pool has a connection for every descriptor and the descriptor 0 is set up if it is returned. -/
theorem accepts_iff {before : Accepting} {calls : List AcceptEvent}
    (sound : before.Sound free active) (goes_on : ∀ event ∈ calls, event.GoesOn)
    (possible : Possible config before (calls ++ [.again])) :
    Accepts config before (calls ++ [.again]) ↔
      Fits config (room before.pool free) calls ∧
        ∀ event ∈ calls, ¬ event.LeavesZero config := by
  have closes := sound.closes_accept goes_on possible
  rcases sound.accept Ledger.begins goes_on possible with
    ⟨full, unfit⟩ | ⟨later, rest, listed, finished, later_sound, later_ledger, fits⟩
  · simp [Accepts, full, unfit]
  · rw [finished] at closes
    rw [Accepts, finished, later_sound.accountsFor_iff later_ledger closes]
    simp [fits]

/-- A server for two connections: `max_conn_` is 1. -/
def smallConfig : Config := { EventLoop.plainConfig with maxWorkerConnections := 1 }

def client (clifd : Int) : AcceptEvent := .arrival ⟨clifd, 0, 1, true, true, true, .created⟩

/-- A client whose descriptor cannot be set to `O_NONBLOCK`. -/
def refusedClient (clifd : Int) : AcceptEvent :=
  .arrival ⟨clifd, 0, 1, false, true, true, .created⟩

theorem accepts_clients : Accepts smallConfig (initial smallConfig)
    ([client 5, refusedClient 6, client 6, .reset 0, client 5] ++ [.again]) := by
  refine (accepts_iff sound_initial ?_ ?_).mpr ⟨?_, ?_⟩
  · simp [client, refusedClient, AcceptEvent.GoesOn]
  · decide
  · decide
  · simp [client, refusedClient, AcceptEvent.LeavesZero]

/-- Three clients are queued. The third is closed, and `Accept` returns although `accept` has not
told that there are no more. -/
theorem not_accepts_third_client : (initial smallConfig).Sound [] [] ∧
    (∀ event ∈ [client 5, client 6, client 7], event.GoesOn) ∧
    Possible smallConfig (initial smallConfig) ([client 5, client 6, client 7] ++ [.again]) ∧
    ¬ Accepts smallConfig (initial smallConfig)
      ([client 5, client 6, client 7] ++ [.again]) := by
  refine ⟨sound_initial, ?_, ?_, ?_⟩
  · simp [client, AcceptEvent.GoesOn]
  · decide
  · rintro ⟨drained, -⟩
    revert drained
    decide

end Accepting

end Mevent
