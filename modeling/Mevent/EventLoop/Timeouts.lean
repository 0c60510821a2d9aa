import Mevent.EventLoop.Requests
import Mevent.EventLoop.Incidents
import Mevent.EventLoop.Settling
import Mevent.EventLoop.Tracking

/-!
# Idle connections

`CheckConnectionTimeout` goes through the active list from its head and stops at the first
connection that is not idle.  This is right because the list is in the order of
`active_time_`, as long as `ActiveListUpdate` works on a connection that stays on the list
and the connection at which the scan stops is still where it has been looked up.
-/

namespace Mevent

open Library

/-- `idle_timeout_` behind the constructor and `SetIdleTimeout`. -/
def setIdleTimeout (secs : Int) : Int := if secs < 1 then 30 else secs

theorem setIdleTimeout_pos (secs : Int) : 0 < setIdleTimeout secs := by
  unfold setIdleTimeout
  split
  · decide
  · omega

/-- No `on_close_func_` that a step calls closes its connection. -/
def Action.ClosesOnce : Action → Prop
  | .onRead _ input => NoClose input.onClose
  | .onWrite _ _ onClose | .expire onClose => NoClose onClose
  | .runTask input | .runWsTask input => Mevent.ClosesOnce input.script ∧ NoClose input.onClose
  | _ => True

instance : DecidablePred Action.ClosesOnce
  | .onRead _ input => inferInstanceAs (Decidable (NoClose input.onClose))
  | .onWrite _ _ onClose | .expire onClose => inferInstanceAs (Decidable (NoClose onClose))
  | .runTask input | .runWsTask input =>
      inferInstanceAs (Decidable (Mevent.ClosesOnce input.script ∧ NoClose input.onClose))
  | .poll _ | .beginAccept | .accepted _ | .wouldBlock | .install .. | .updateErase _
  | .updatePush _ | .takeTask | .takeWsTask | .timeoutCheck _ | .checkFirst | .peek | .checkNext
  | .safeWrite .. => inferInstanceAs (Decidable True)

instance : DecidablePred Incident.IsReset
  | .reset .. => inferInstanceAs (Decidable True)
  | .onClose _ => inferInstanceAs (Decidable False)

namespace EventLoop

variable {config : Config} {el later : EventLoop} {action : Action}

/-- A connection with an `active_time_` that has been idle for `idle_timeout_`. -/
def Expired (config : Config) (el : EventLoop) (now : Int) (conn : ConnId) : Prop :=
  0 < (el.connections conn).activeTime ∧
    config.idleTimeout ≤ now - (el.connections conn).activeTime

instance (config : Config) (el : EventLoop) (now : Int) (conn : ConnId) :
    Decidable (el.Expired config now conn) :=
  inferInstanceAs (Decidable (_ ∧ _))

/-- No `on_close_func_` resets its connection again, and no thread resets the connection
that `ActiveListUpdate` is at work on. -/
def Undisturbed (config : Config) (el : EventLoop) (action : Action) : Prop :=
  action.ClosesOnce ∧ ∀ recorded ∈ el.incidents config action,
    recorded.2.IsReset → el.loop ≠ .moving recorded.1.conn

/-- The connection that the timeout thread has looked up stays where it is until it is
locked: the loop thread neither moves it nor gives it to another client.  A connection
that has expired then does not have the descriptor 0, which `ResetConnection` takes for
none. -/
def Prompt (config : Config) (el : EventLoop) : Action → Prop
  | .updateErase conn => el.timeout.found ≠ some conn
  | .install conn _ _ _ ready => ready = true → el.timeout.found ≠ some conn
  | .expire _ => ∀ now ∈ el.timeout.now, ∀ conn ∈ el.timeout.found,
      el.Expired config now conn → (el.connections conn).fd ≠ 0
  | _ => True

instance (config : Config) (el : EventLoop) : DecidablePred (el.Undisturbed config) :=
  fun action => inferInstanceAs (Decidable (action.ClosesOnce ∧
    ∀ recorded ∈ el.incidents config action,
      recorded.2.IsReset → el.loop ≠ .moving recorded.1.conn))

instance (config : Config) (el : EventLoop) : DecidablePred (el.Prompt config)
  | .updateErase conn => inferInstanceAs (Decidable (el.timeout.found ≠ some conn))
  | .install conn _ _ _ ready =>
      inferInstanceAs (Decidable (ready = true → el.timeout.found ≠ some conn))
  | .expire _ => inferInstanceAs (Decidable (∀ now ∈ el.timeout.now,
      ∀ conn ∈ el.timeout.found, el.Expired config now conn → (el.connections conn).fd ≠ 0))
  | .poll _ | .beginAccept | .accepted _ | .wouldBlock | .updatePush _ | .onRead .. | .onWrite ..
  | .takeTask | .runTask _ | .takeWsTask | .runWsTask _ | .timeoutCheck _ | .checkFirst | .peek
  | .checkNext | .safeWrite .. => inferInstanceAs (Decidable True)

/-- The active list is in the order of `active_time_` where it is positive, up to a last
connection that the loop thread has moved and not yet stamped. -/
def ListedInOrder (el : EventLoop) : Prop :=
  ∃ front just, el.pool.ActiveList (front ++ just) ∧
    (just = [] ∨ ∃ conn, just = [conn] ∧ el.loop = .moved conn) ∧
      ((front.filter fun conn => 0 < (el.connections conn).activeTime).map
        fun conn => (el.connections conn).activeTime).Pairwise (· ≤ ·)

/-- The scan that has begun at `now` stops at a connection that is not idle. -/
def StopsAt (config : Config) (el : EventLoop) (now : Int) (conn : ConnId) : Prop :=
  el.timeout.now = some now ∧ el.timeout.found = some conn ∧
    ∃ action later, el.stepTimeout config action = some later ∧ later.timeout = .starting

/-- Behind the connection at which a scan stops, no connection has expired, other than one
that the loop thread has just moved. -/
def NoneExpiredBehind (config : Config) (el : EventLoop) : Prop :=
  ∀ now conn, el.StopsAt config now conn → ∀ front behind,
    el.pool.ActiveList (front ++ conn :: behind) → ∀ other ∈ behind,
      el.Expired config now other → el.loop = .moved other

/-- A scan that stops leaves no connection that has expired, other than one that the loop
thread has just moved. -/
def NoneExpired (config : Config) (el : EventLoop) : Prop :=
  ∀ now conn, el.StopsAt config now conn → ∀ other, el.Expired config now other →
    el.loop = .moving other ∨ el.loop = .moved other

end EventLoop

/-- An event loop, and the latest time that one of its threads has read. -/
structure Clocked where
  el : EventLoop
  clock : Int

namespace Clocked

def initial (config : Config) (start : Int) : Clocked := ⟨.initial config, start⟩

/-- The time that a step reads.  `ReadData` reads none if the connection has been reset. -/
def timeRead (clocked : Clocked) : Action → Option Int
  | .install _ _ _ now _ | .timeoutCheck now => some now
  | .onRead conn input =>
      if (clocked.el.connections conn).fd < 0 then none else some input.now
  | _ => none

def step (config : Config) (clocked : Clocked) (action : Action) : Option Clocked :=
  (clocked.el.step config action).map fun el =>
    ⟨el, (clocked.timeRead action).elim clocked.clock (max clocked.clock)⟩

/-- The clock does not go back, and `ActiveListUpdate` is called on a connection of the active
list.  The timeout thread reads the clock before it locks the list, so that another thread
may have read a later time in between. -/
def Assumed (clocked : Clocked) : Action → Prop
  | .install _ _ _ now _ => clocked.clock ≤ now
  | .onRead conn input => 0 ≤ (clocked.el.connections conn).fd → clocked.clock ≤ input.now
  | .updateErase conn => clocked.el.pool.OnActiveList conn
  | _ => True

/-- What the timeout thread changes is a connection that has expired. -/
def ResetsOnlyExpired (config : Config) (clocked : Clocked) : Prop :=
  ∀ action later conn, clocked.el.stepTimeout config action = some later →
    later.connections conn ≠ clocked.el.connections conn →
      clocked.el.Expired config clocked.clock conn

/-- The part of the event loop that the timeouts depend on. -/
def tracking (clocked : Clocked) : Tracking where
  pool := clocked.el.pool
  fd := fun conn => (clocked.el.connections conn).fd
  activeTime := fun conn => (clocked.el.connections conn).activeTime
  loop := clocked.el.loop
  timeout := clocked.el.timeout
  clock := clocked.clock

variable {config : Config} {clocked later : Clocked} {action : Action} {prompt : Prop}
  {conn : ConnId}

theorem tracking_put (clocked : Clocked) (conn : ConnId) (held : Held) (loop : Pool.LoopPoint)
    (clock : Int) : tracking ⟨{ clocked.el.put conn held with loop := loop }, clock⟩ =
      { clocked.tracking with
        pool := held.pool
        fd := Function.update clocked.tracking.fd conn held.connection.fd
        activeTime := Function.update clocked.tracking.activeTime conn held.connection.activeTime
        loop := loop
        clock := clock } := by
  have field : ∀ read : Connection → Int,
      (fun other => read ((clocked.el.put conn held).connections other)) =
        Function.update (fun other => read (clocked.el.connections other)) conn
          (read held.connection) := by
    intro read
    exact Function.comp_update read clocked.el.connections conn held.connection
  have fd := field Connection.fd
  have activeTime := field Connection.activeTime
  simp only [tracking, fd, activeTime]
  rfl

theorem changes_put {held : Held} (settles : (clocked.el.hold conn).Settles conn held)
    (apart : 0 < (clocked.el.connections conn).fd → held.connection.fd < 0 →
      clocked.el.loop ≠ .moving conn) :
    Relation.ReflTransGen (Tracking.Change config prompt) clocked.tracking
      (tracking ⟨clocked.el.put conn held, clocked.clock⟩) := by
  rw [show tracking ⟨clocked.el.put conn held, clocked.clock⟩ = _ from
    tracking_put clocked conn held clocked.el.loop clocked.clock]
  rcases settles with ⟨fd, activeTime, pool⟩ | ⟨opened, closed, activeTime, pool⟩
  · rw [fd, activeTime, pool]
    have same_fd : Function.update clocked.tracking.fd conn (clocked.el.hold conn).connection.fd =
        clocked.tracking.fd := Function.update_eq_self conn _
    have same_time : Function.update clocked.tracking.activeTime conn
        (clocked.el.hold conn).connection.activeTime = clocked.tracking.activeTime :=
      Function.update_eq_self conn _
    rw [same_fd, same_time]
    exact .refl
  · rw [activeTime, pool]
    exact .single (.frees conn held.connection.fd opened closed (apart opened closed))

/-- `ReadData` stamps the connection, and `OnRead` may reset it then. -/
theorem changes_onRead {input : ReadInput} {held stamped : Held}
    (at_conn : clocked.el.loop = .moved conn)
    (now : 0 ≤ (clocked.el.connections conn).fd → clocked.clock ≤ input.now)
    (fd : stamped.connection.fd = (clocked.el.connections conn).fd)
    (activeTime : stamped.connection.activeTime =
      if (clocked.el.connections conn).fd < 0 then (clocked.el.connections conn).activeTime
      else input.now)
    (pool : stamped.pool = clocked.el.pool) (settles : stamped.Settles conn held) :
    Relation.ReflTransGen (Tracking.Change config prompt) clocked.tracking
      (tracking ⟨{ clocked.el.put conn held with loop := .between },
        (clocked.timeRead (.onRead conn input)).elim clocked.clock (max clocked.clock)⟩) := by
  by_cases closed : (clocked.el.connections conn).fd < 0
  · have untouched : (clocked.el.hold conn).Untouched stamped :=
      ⟨fd, activeTime.trans (if_pos closed), pool⟩
    have missed : Tracking.Change config prompt clocked.tracking
        (tracking ⟨{ clocked.el with loop := .between }, clocked.clock⟩) :=
      .misses conn clocked.clock at_conn closed (Int.le_refl _)
    simp only [timeRead, if_pos closed, Option.elim_none]
    refine (Relation.ReflTransGen.single missed).trans ?_
    exact @changes_put config ⟨{ clocked.el with loop := .between }, clocked.clock⟩ prompt conn
      held (untouched.settles settles) (fun _ _ => nofun)
  · have descriptor := Int.not_lt.mp closed
    have later := now descriptor
    rw [if_neg closed] at activeTime
    simp only [timeRead, if_neg closed, Option.elim_some, Int.max_eq_right later]
    let read : Clocked := ⟨{ clocked.el.put conn stamped with loop := .between }, input.now⟩
    have marked : read.tracking = { clocked.tracking with
        activeTime := Function.update clocked.tracking.activeTime conn input.now
        loop := .between
        clock := input.now } := by
      have same_fd : Function.update clocked.tracking.fd conn
          (clocked.el.connections conn).fd = clocked.tracking.fd := Function.update_eq_self conn _
      simp only [read, tracking_put, fd, activeTime, pool, same_fd]
      rfl
    have stamps : Tracking.Change config prompt clocked.tracking read.tracking := by
      rw [marked]
      exact .stamps conn input.now at_conn descriptor later
    have held_stamped : read.el.hold conn = stamped := by
      simp [read, EventLoop.hold, EventLoop.put]
    have twice : read.el.put conn held = { clocked.el.put conn held with loop := .between } := by
      simp [read, EventLoop.put]
    refine (Relation.ReflTransGen.single stamps).trans ?_
    rw [← twice]
    exact changes_put (held_stamped ▸ settles) (fun _ _ => nofun)

/-- A thread that resets a connection does not do so inside `ActiveListUpdate` of it. -/
theorem not_moving_of_undisturbed {el next : EventLoop}
    (undisturbed : el.Undisturbed config action) (stepped : el.step config action = some next)
    (installs : next.installs = el.installs) (opened : 0 < (el.connections conn).fd)
    (closed : (next.connections conn).fd < 0) : el.loop ≠ .moving conn := by
  obtain ⟨recorded, inside, occupant, reset⟩ :=
    EventLoop.exists_reset_of_step stepped opened closed installs
  have apart := undisturbed.2 recorded inside reset
  rwa [occupant] at apart

theorem idle_of_loop {loop : Pool.LoopPoint} (at_loop : loop = .between ∨ loop = .accepting) :
    loop.Idle := by
  rcases at_loop with rfl | rfl
  · trivial
  · trivial

/-- `Accept` keeps the client or refuses it. -/
theorem changes_install {clifd : Int} {addr : UInt32} {now : Int} {ready : Bool}
    (at_conn : clocked.el.loop = .popped conn clifd) (later : clocked.clock ≤ now)
    (unlooked : prompt → ready = true → clocked.el.timeout.found ≠ some conn) :
    Tracking.Change config prompt clocked.tracking
      (tracking ⟨{ clocked.el.put conn
        (EventLoop.installIn config conn clifd addr now ready (clocked.el.hold conn)) with
          loop := .accepting }, now⟩) := by
  rw [tracking_put]
  cases ready with
  | true => exact .installs conn clifd now at_conn later fun prompt => unlooked prompt rfl
  | false =>
      refine .refuses conn clifd now _ at_conn later ?_
      change (if 0 < clifd then -1 else clifd) ≤ 0
      split
      · decide
      · omega

theorem changes_of_stepLoop {el : EventLoop} (assumed : clocked.Assumed action)
    (once : action.ClosesOnce) (prompted : prompt → clocked.el.Prompt config action)
    (stepped : clocked.el.stepLoop config action = some el) :
    Relation.ReflTransGen (Tracking.Change config prompt) clocked.tracking
      (tracking ⟨el, (clocked.timeRead action).elim clocked.clock (max clocked.clock)⟩) := by
  cases action <;>
    simp only [EventLoop.stepLoop, Option.ite_none_right_eq_some, Option.some.injEq,
      Option.map_eq_some_iff, reduceCtorEq] at stepped
  case poll events =>
    obtain ⟨-, rfl⟩ := stepped
    exact .refl
  case beginAccept =>
    obtain ⟨⟨at_loop, -⟩, rfl⟩ := stepped
    exact .single (.wanders .accepting (idle_of_loop (.inl at_loop)) trivial)
  case accepted clifd =>
    obtain ⟨⟨at_loop, descriptor⟩, rfl⟩ := stepped
    have idle := idle_of_loop (.inr at_loop)
    split
    next pool popped =>
      rw [ConnectionPool.freeListPop_eq_none popped]
      exact .single (.wanders .between idle trivial)
    next conn pool popped => exact .single (.pops conn clifd pool idle descriptor popped)
  case wouldBlock =>
    obtain ⟨at_loop, rfl⟩ := stepped
    exact .single (.wanders .between (idle_of_loop (.inr at_loop)) trivial)
  case install conn clifd addr now ready =>
    obtain ⟨at_conn, rfl⟩ := stepped
    have clock : max clocked.clock now = now := Int.max_eq_right assumed
    simp only [timeRead, Option.elim_some, clock]
    exact .single (changes_install at_conn assumed prompted)
  case updateErase conn =>
    obtain ⟨⟨at_loop, -⟩, rfl⟩ := stepped
    exact .single (.erases conn (idle_of_loop (.inl at_loop)) assumed prompted)
  case updatePush conn =>
    obtain ⟨at_conn, rfl⟩ := stepped
    exact .single (.pushes conn at_conn)
  case onRead conn input =>
    obtain ⟨at_conn, read, reading, rfl⟩ := stepped
    obtain ⟨stamped, fd, activeTime, pool, settles⟩ := Held.settles_onRead once reading
    have changes := @changes_onRead config clocked prompt conn input read.held stamped at_conn
      assumed fd activeTime pool settles
    cases pushed : read.pushed with
    | false => exact changes
    | true => exact changes
  case onWrite conn writes onClose =>
    obtain ⟨⟨at_loop, -⟩, held, writing, rfl⟩ := stepped
    exact changes_put (Held.settles_onWrite once writing) fun _ _ => by simp [at_loop]

theorem changes_of_stepWorker {el : EventLoop}
    (undisturbed : clocked.el.Undisturbed config action)
    (taken : clocked.el.step config action = some el)
    (stepped : clocked.el.stepWorker config action = some el) :
    Relation.ReflTransGen (Tracking.Change config prompt) clocked.tracking
      (tracking ⟨el, (clocked.timeRead action).elim clocked.clock (max clocked.clock)⟩) := by
  cases action <;>
    simp only [EventLoop.stepWorker, Option.ite_none_right_eq_some, reduceCtorEq] at stepped
  case takeTask =>
    obtain ⟨-, took⟩ := stepped
    split at took
    next => cases took
    next =>
      cases took
      exact .refl
  case runTask input =>
    split at stepped
    next => cases stepped
    next task held_task =>
      split at stepped
      next =>
        cases stepped
        exact .refl
      next =>
        obtain ⟨held, worked, rfl⟩ := Option.map_eq_some_iff.mp stepped
        refine changes_put (Held.settles_work undisturbed.1.1 undisturbed.1.2 worked) ?_
        intro opened closed
        exact not_moving_of_undisturbed undisturbed taken rfl opened (by simpa using closed)

theorem changes_of_stepWsWorker {el : EventLoop}
    (undisturbed : clocked.el.Undisturbed config action)
    (taken : clocked.el.step config action = some el)
    (stepped : clocked.el.stepWsWorker config action = some el) :
    Relation.ReflTransGen (Tracking.Change config prompt) clocked.tracking
      (tracking ⟨el, (clocked.timeRead action).elim clocked.clock (max clocked.clock)⟩) := by
  cases action <;>
    simp only [EventLoop.stepWsWorker, Option.ite_none_right_eq_some, reduceCtorEq] at stepped
  case takeWsTask =>
    obtain ⟨-, took⟩ := stepped
    split at took
    next => cases took
    next =>
      cases took
      exact .refl
  case runWsTask input =>
    split at stepped
    next => cases stepped
    next item held_item =>
      split at stepped
      next =>
        cases stepped
        exact .refl
      next =>
        obtain ⟨held, worked, rfl⟩ := Option.map_eq_some_iff.mp stepped
        refine changes_put (Held.settles_wsWork undisturbed.1.1 undisturbed.1.2 worked) ?_
        intro opened closed
        exact not_moving_of_undisturbed undisturbed taken rfl opened (by simpa using closed)

theorem changes_expire {now : Int} {onClose : List HandlerOp} {el : EventLoop}
    (checking : clocked.el.timeout = .checking now conn)
    (undisturbed : clocked.el.Undisturbed config (.expire onClose))
    (prompted : prompt → clocked.el.Prompt config (.expire onClose))
    (taken : clocked.el.step config (.expire onClose) = some el)
    (stepped : clocked.el.checkTimeout config now conn onClose = some el) :
    Relation.ReflTransGen (Tracking.Change config prompt) clocked.tracking
      (tracking ⟨el, clocked.clock⟩) := by
  unfold EventLoop.checkTimeout at stepped
  simp only at stepped
  split at stepped
  next timed =>
    split at stepped
    next idle =>
      obtain ⟨held, reset, rfl⟩ := Option.map_eq_some_iff.mp stepped
      have settled : Tracking.Change config prompt
          (tracking ⟨clocked.el.put conn held, clocked.clock⟩)
          (tracking ⟨{ clocked.el.put conn held with timeout := .following now },
            clocked.clock⟩) := by
        refine .follows now conn checking fun prompt => .inr ?_
        have descriptor := prompted prompt now (congrArg TimeoutPoint.now checking) conn
          (congrArg TimeoutPoint.found checking) ⟨timed, idle⟩
        simpa [tracking] using Held.closed_of_resetConnection reset descriptor
      refine (changes_put (Held.settles_resetConnection undisturbed.1 reset) ?_).tail settled
      intro opened closed
      exact not_moving_of_undisturbed undisturbed taken rfl opened (by simpa using closed)
    next =>
      cases stepped
      exact .single .stops
  next untimed =>
    cases stepped
    exact .single (.follows now conn checking fun _ => .inl (Int.not_lt.mp untimed))

theorem changes_looks {now : Int} (locking : ConnId → TimeoutPoint) {timeout : TimeoutPoint}
    (at_now : clocked.el.timeout.now = some now) (unlooked : clocked.el.timeout.found = none)
    (looked : ∀ conn, (locking conn).now = some now ∧ (locking conn).found = some conn)
    (next : timeout = clocked.el.pool.activeListCheckNext.1.elim .starting locking) :
    Relation.ReflTransGen (Tracking.Change config prompt) clocked.tracking
      (tracking ⟨{ clocked.el with
        pool := clocked.el.pool.activeListCheckNext.2
        timeout := timeout }, clocked.clock⟩) := by
  rw [next]
  exact .single (.looks now locking at_now unlooked looked)

theorem changes_of_stepTimeout {el : EventLoop}
    (undisturbed : clocked.el.Undisturbed config action)
    (prompted : prompt → clocked.el.Prompt config action)
    (taken : clocked.el.step config action = some el)
    (stepped : clocked.el.stepTimeout config action = some el) :
    Relation.ReflTransGen (Tracking.Change config prompt) clocked.tracking
      (tracking ⟨el, (clocked.timeRead action).elim clocked.clock (max clocked.clock)⟩) := by
  cases action <;>
    simp only [EventLoop.stepTimeout, Option.ite_none_right_eq_some, Option.some.injEq,
      reduceCtorEq] at stepped
  case timeoutCheck now =>
    obtain ⟨-, rfl⟩ := stepped
    exact .single (.starts now)
  case checkFirst =>
    split at stepped
    next now first =>
      cases stepped
      refine changes_looks (.peeking now) (congrArg TimeoutPoint.now first)
        (congrArg TimeoutPoint.found first) (fun _ => ⟨rfl, rfl⟩) ?_
      cases clocked.el.pool.activeListCheckNext.1 with
      | none => rfl
      | some conn => rfl
    next => cases stepped
  case peek =>
    split at stepped
    next now conn peeking =>
      split at stepped
      · cases stepped
        exact .single .stops
      · cases stepped
        exact .single (.locks now conn peeking)
    next => cases stepped
  case expire onClose =>
    split at stepped
    next now conn checking => exact changes_expire checking undisturbed prompted taken stepped
    next => cases stepped
  case checkNext =>
    split at stepped
    next now following =>
      cases stepped
      refine changes_looks (.checking now) (congrArg TimeoutPoint.now following)
        (congrArg TimeoutPoint.found following) (fun _ => ⟨rfl, rfl⟩) ?_
      cases clocked.el.pool.activeListCheckNext.1 with
      | none => rfl
      | some conn => rfl
    next => cases stepped

/-- Every step of an event loop is a number of changes of what the timeouts depend on. -/
theorem changes_of_step (assumed : clocked.Assumed action)
    (undisturbed : clocked.el.Undisturbed config action)
    (prompted : prompt → clocked.el.Prompt config action)
    (stepped : clocked.step config action = some later) :
    Relation.ReflTransGen (Tracking.Change config prompt) clocked.tracking later.tracking := by
  obtain ⟨el, taken, rfl⟩ := Option.map_eq_some_iff.mp stepped
  rcases Option.or_eq_some_iff.mp taken with loop | ⟨-, others⟩
  · refine changes_of_stepLoop assumed ?_ prompted loop
    exact undisturbed.1
  rcases Option.or_eq_some_iff.mp others with worker | ⟨-, others⟩
  · exact changes_of_stepWorker undisturbed taken worker
  rcases Option.or_eq_some_iff.mp others with wsWorker | ⟨-, others⟩
  · exact changes_of_stepWsWorker undisturbed taken wsWorker
  rcases Option.or_eq_some_iff.mp others with timeout | ⟨-, application⟩
  · exact changes_of_stepTimeout undisturbed prompted taken timeout
  · cases action with
    | safeWrite conn data writes =>
        cases application
        refine changes_put (.inl ⟨?_, ?_, rfl⟩) ?_
        · exact (Connection.fd_flush _ _).trans (Connection.fd_writeString _ _)
        · exact (Connection.activeTime_flush _ _).trans (Connection.activeTime_writeString _ _)
        · intro opened closed
          rw [Connection.fd_flush, Connection.fd_writeString] at closed
          exact absurd opened (Int.not_lt.mpr (Int.le_of_lt closed))
    | _ => simp [EventLoop.stepApplication] at application

theorem sound_initial (config : Config) (prompt : Prop) (start : Int) :
    (initial config start).tracking.Sound config prompt := by
  have listed : Tracking.Listed (initial config start).tracking [] [] [] := by
    exact {
      freeList := ConnectionPool.freeList_new _
      nodup := List.nodup_nil
      divided := ConnectionPool.divided_new _
      apart := nofun
      created := by
        rintro conn (contrary | contrary | contrary)
        · cases contrary
        · cases contrary
        · cases contrary
      popped := nofun
      moving := nofun
      moved := nofun
      opened := nofun
      listed := by
        rintro conn (opened | timed)
        · exact absurd opened (show ¬ (0 : Int) < -1 by decide)
        · exact absurd timed (Int.lt_irrefl 0)
      past := by
        intro conn timed
        exact absurd timed (Int.lt_irrefl 0)
      started := nofun
      ordered := .nil }
  exact ⟨[], [], [], listed, fun _ => ⟨nofun, nofun⟩⟩

theorem sound_of_reaches {allowed : Clocked → Action → Prop} {start : Int}
    (positive : 0 < config.idleTimeout)
    (permits : ∀ state action, allowed state action → state.Assumed action ∧
      state.el.Undisturbed config action ∧ (prompt → state.el.Prompt config action))
    (reached : Reaches (step config) allowed (initial config start) clocked) :
    clocked.tracking.Sound config prompt := by
  refine @Reaches.invariant _ _ _ _ _ (fun state => state.tracking.Sound config prompt)
    (sound_initial config prompt start) ?_ _ reached
  intro state action later sound allowed stepped
  obtain ⟨assumed, undisturbed, prompted⟩ := permits state action allowed
  exact sound.changes positive (changes_of_step assumed undisturbed prompted stepped)

end Clocked

namespace EventLoop

variable {config : Config} {el : EventLoop} {now : Int} {conn : ConnId}

theorem StopsAt.fresh (stops : el.StopsAt config now conn) :
    0 < (el.connections conn).activeTime ∧
      now - (el.connections conn).activeTime < config.idleTimeout := by
  obtain ⟨at_now, looked, action, later, stepped, starting⟩ := stops
  cases timeout : el.timeout with
  | starting | first | following =>
      rw [timeout] at looked
      cases looked
  | peeking time found =>
      rw [timeout] at at_now looked
      cases at_now
      cases looked
      cases action <;> simp only [stepTimeout, timeout, reduceCtorEq, if_false] at stepped
      split at stepped
      next fresh => exact fresh
      next =>
        cases stepped
        cases starting
  | checking time found =>
      rw [timeout] at at_now looked
      cases at_now
      cases looked
      cases action <;> simp only [stepTimeout, timeout, checkTimeout, reduceCtorEq, if_false]
        at stepped
      split at stepped
      next timed =>
        split at stepped
        next =>
          obtain ⟨held, -, rfl⟩ := Option.map_eq_some_iff.mp stepped
          cases starting
        next fresh => exact ⟨timed, Int.not_le.mp fresh⟩
      next =>
        cases stepped
        cases starting

theorem expired_of_stepTimeout {later : EventLoop} {action : Action}
    (stepped : el.stepTimeout config action = some later)
    (changed : later.connections conn ≠ el.connections conn) :
    ∃ now, el.timeout.now = some now ∧ el.Expired config now conn := by
  cases action <;>
    simp only [stepTimeout, Option.ite_none_right_eq_some, Option.some.injEq,
      reduceCtorEq] at stepped
  case timeoutCheck now =>
    obtain ⟨-, rfl⟩ := stepped
    exact absurd rfl changed
  case checkFirst =>
    split at stepped
    · cases stepped
      exact absurd rfl changed
    · cases stepped
  case peek =>
    split at stepped
    · split at stepped
      · cases stepped
        exact absurd rfl changed
      · cases stepped
        exact absurd rfl changed
    · cases stepped
  case expire onClose =>
    split at stepped
    next now other checking =>
      unfold checkTimeout at stepped
      simp only at stepped
      split at stepped
      next timed =>
        split at stepped
        next idle =>
          obtain ⟨held, -, rfl⟩ := Option.map_eq_some_iff.mp stepped
          have same : conn = other := by
            by_contra different
            exact changed (Function.update_of_ne different _ _)
          subst same
          exact ⟨now, congrArg TimeoutPoint.now checking, timed, idle⟩
        next =>
          cases stepped
          exact absurd rfl changed
      next =>
        cases stepped
        exact absurd rfl changed
    next => cases stepped
  case checkNext =>
    split at stepped
    · cases stepped
      exact absurd rfl changed
    · cases stepped

end EventLoop

namespace Clocked

variable {config : Config} {clocked : Clocked} {prompt : Prop}

/-- The list is in order, a scan that stops leaves nothing that has expired, and it resets
nothing else. -/
structure KeepsTime (config : Config) (clocked : Clocked) : Prop where
  ordered : clocked.el.ListedInOrder
  resets : clocked.ResetsOnlyExpired config
  leaves : clocked.el.NoneExpired config

theorem listedInOrder_of_sound (sound : clocked.tracking.Sound config prompt) :
    clocked.el.ListedInOrder := by
  obtain ⟨_, _, _, listed, -⟩ := sound
  exact listed.inOrder

theorem resetsOnlyExpired_of_sound (sound : clocked.tracking.Sound config prompt) :
    clocked.ResetsOnlyExpired config := by
  obtain ⟨_, _, _, listed, -⟩ := sound
  intro action later conn stepped changed
  obtain ⟨now, at_now, timed, idle⟩ := EventLoop.expired_of_stepTimeout stepped changed
  have started : now ≤ clocked.clock := listed.started now at_now
  exact ⟨timed, by omega⟩

theorem noneExpiredBehind_of_sound (sound : clocked.tracking.Sound config prompt) :
    clocked.el.NoneExpiredBehind config := by
  obtain ⟨_, _, _, listed, -⟩ := sound
  intro now conn stops front behind active other inside ⟨other_timed, other_idle⟩
  obtain ⟨timed, fresh⟩ := stops.fresh
  refine (listed.fresh_behind active timed inside other_timed).resolve_right ?_
  intro (later : (clocked.el.connections conn).activeTime ≤
    (clocked.el.connections other).activeTime)
  omega

theorem noneExpired_of_sound (sound : clocked.tracking.Sound config True) :
    clocked.el.NoneExpired config := by
  obtain ⟨_, _, _, listed, scanned⟩ := sound
  intro now conn stops other ⟨other_timed, other_idle⟩
  obtain ⟨timed, fresh⟩ := stops.fresh
  exact (scanned trivial).none_idle listed stops.1 stops.2.1 timed fresh other_timed other_idle

/-- The timeouts are right in every run in which the timeout thread finds each connection where
it has looked it up.  In the other runs a scan may leave connections that have expired, but
none of them is behind the one at which it stops. -/
theorem keepsTime_of_prompt (secs : Int) (set : config.idleTimeout = setIdleTimeout secs)
    (start : Int) (clocked : Clocked) :
    (Reaches (step config) (fun state action => state.Assumed action ∧
      state.el.Undisturbed config action ∧ state.el.Prompt config action)
      (initial config start) clocked → clocked.KeepsTime config) ∧
    (Reaches (step config) (fun state action => state.Assumed action ∧
      state.el.Undisturbed config action) (initial config start) clocked →
      clocked.el.ListedInOrder ∧ clocked.ResetsOnlyExpired config ∧
        clocked.el.NoneExpiredBehind config) := by
  have positive : 0 < config.idleTimeout := set ▸ setIdleTimeout_pos secs
  constructor
  · intro reached
    have sound : clocked.tracking.Sound config True :=
      sound_of_reaches positive
        (fun _ _ allowed => ⟨allowed.1, allowed.2.1, fun _ => allowed.2.2⟩) reached
    exact ⟨listedInOrder_of_sound sound, resetsOnlyExpired_of_sound sound,
      noneExpired_of_sound sound⟩
  · intro reached
    have sound : clocked.tracking.Sound config False :=
      sound_of_reaches positive (fun _ _ allowed => ⟨allowed.1, allowed.2, False.elim⟩) reached
    exact ⟨listedInOrder_of_sound sound, resetsOnlyExpired_of_sound sound,
      noneExpiredBehind_of_sound sound⟩

/-- What is assumed of a step, when the connection that is moved is the first of the active
list. -/
def AssumedAtHead (clocked : Clocked) : Action → Prop
  | .install _ _ _ now _ => clocked.clock ≤ now
  | .onRead _ input => clocked.clock ≤ input.now
  | .updateErase conn => clocked.el.pool.activeListHead = some conn
  | _ => True

instance (clocked : Clocked) : DecidablePred clocked.AssumedAtHead
  | .install _ _ _ now _ => inferInstanceAs (Decidable (clocked.clock ≤ now))
  | .onRead _ input => inferInstanceAs (Decidable (clocked.clock ≤ input.now))
  | .updateErase conn => inferInstanceAs (Decidable (clocked.el.pool.activeListHead = some conn))
  | .poll _ | .beginAccept | .accepted _ | .wouldBlock | .updatePush _ | .onWrite .. | .takeTask
  | .runTask _ | .takeWsTask | .runWsTask _ | .timeoutCheck _ | .checkFirst | .peek | .expire _
  | .checkNext | .safeWrite .. => inferInstanceAs (Decidable True)

theorem AssumedAtHead.assumed {action : Action} (atHead : clocked.AssumedAtHead action) :
    clocked.Assumed action := by
  cases action with
  | updateErase conn =>
      have head : clocked.el.pool.activeListHead = some conn := atHead
      change Met _ clocked.el.pool.activeListHead conn
      rw [head]
      exact .here conn
  | onRead conn input => exact fun _ => atHead
  | install conn clifd addr now ready => exact atHead
  | _ => trivial

/-- Two clients are accepted at the time 1 and `later`. -/
def acceptingTwo (later : Int) : List Action :=
  [.poll [.listening], .beginAccept, .accepted 5, .install 0 5 0 1 true, .accepted 6,
    .install 1 6 0 later true, .wouldBlock]

/-- A scan resets the connection that has been idle for 31 seconds and stops at the one that
has been read from since. -/
theorem keepsTime_resets_one : ∃ clocked : Clocked, clocked.el.timeout = .checking 33 0 ∧
    clocked.KeepsTime EventLoop.plainConfig ∧
      clocked.el.NoneExpiredBehind EventLoop.plainConfig := by
  have scans : (replay (step EventLoop.plainConfig) (fun state action =>
      state.AssumedAtHead action ∧ state.el.Undisturbed EventLoop.plainConfig action ∧
        state.el.Prompt EventLoop.plainConfig action) (initial EventLoop.plainConfig 0)
      (acceptingTwo 2 ++ EventLoop.reading (EventLoop.arrival 20 [.delivered 71 []]) ++
        [.timeoutCheck 33, .checkFirst, .peek, .expire [], .checkNext])).map (·.el.timeout) =
      some (.checking 33 0) := by decide +kernel
  obtain ⟨clocked, replayed, timeout⟩ := Option.map_eq_some_iff.mp scans
  have reached := reaches_of_replay replayed
  obtain ⟨prompt, undisturbed⟩ :=
    @keepsTime_of_prompt EventLoop.plainConfig 30 rfl 0 clocked
  refine ⟨clocked, timeout, prompt (reached.mono ?_), (undisturbed (reached.mono ?_)).2.2⟩
  · intro _ _ allowed
    exact ⟨allowed.1.assumed, allowed.2⟩
  · intro _ _ allowed
    exact ⟨allowed.1.assumed, allowed.2.1⟩

/-- The loop thread reads from the connection that the timeout thread has looked up; the scan
stops at it and leaves the other one, which has been idle for 30 seconds. -/
theorem not_keepsTime_read_meanwhile :
    ¬ ∀ (config : Config) (secs start : Int) (clocked : Clocked),
      config.idleTimeout = setIdleTimeout secs →
        Reaches (step config) Assumed (initial config start) clocked →
          clocked.KeepsTime config := by
  intro keeps
  have scans : (replay (step EventLoop.plainConfig) AssumedAtHead
      (initial EventLoop.plainConfig 0)
      (acceptingTwo 1 ++ [.poll [.readable 0], .timeoutCheck 31, .checkFirst, .updateErase 0,
        .updatePush 0, .onRead 0 (EventLoop.arrival 31 [.delivered 71 []])])).map
          (fun state => (state.el.timeout, state.el.loop, (state.el.connections 0).activeTime,
            (state.el.connections 1).activeTime)) =
      some (.peeking 31 0, .between, 31, 1) := by decide +kernel
  obtain ⟨clocked, replayed, same⟩ := Option.map_eq_some_iff.mp scans
  simp only [Prod.mk.injEq] at same
  obtain ⟨timeout, loop, stamped, idle⟩ := same
  have reached : Reaches (step EventLoop.plainConfig) Assumed (initial EventLoop.plainConfig 0)
      clocked := (reaches_of_replay replayed).mono fun _ _ atHead => atHead.assumed
  have stops : clocked.el.StopsAt EventLoop.plainConfig 31 0 := by
    refine ⟨congrArg TimeoutPoint.now timeout, congrArg TimeoutPoint.found timeout, .peek,
      { clocked.el with timeout := .starting }, ?_, rfl⟩
    simp [EventLoop.stepTimeout, timeout, stamped, EventLoop.plainConfig]
  have expired : clocked.el.Expired EventLoop.plainConfig 31 1 := by
    unfold EventLoop.Expired
    rw [idle]
    decide
  have kept := keeps EventLoop.plainConfig 30 0 clocked rfl reached
  have moving := kept.leaves 31 0 stops 1 expired
  rw [loop] at moving
  simp at moving

end Clocked

end Mevent
