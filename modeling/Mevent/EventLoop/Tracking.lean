import Mevent.EventLoop.Model
import Mevent.Library.Recency
import Mevent.Pool.Cursor

/-!
# What the timeouts depend on

The pool, the descriptors and the times of the connections, and where the loop thread and
the timeout thread are.  The active list is in the order of `active_time_`, because a
connection is at its end when it is stamped; `CheckConnectionTimeout` has passed only
connections that are not idle, unless the one that it has looked up is moved before it
locks it.
-/

namespace Mevent

open Library

/-- Between two events, or in front of `accept`. -/
def Pool.LoopPoint.Idle : Pool.LoopPoint → Prop
  | .between | .accepting => True
  | _ => False

namespace TimeoutPoint

/-- The variable `now`. -/
def now : TimeoutPoint → Option Int
  | .starting => none
  | .first now | .peeking now _ | .checking now _ | .following now => some now

def found : TimeoutPoint → Option ConnId
  | .peeking _ conn | .checking _ conn => some conn
  | _ => none

end TimeoutPoint

/-- The part of an event loop that the timeouts depend on.  `clock` is the latest time
that has been read. -/
structure Tracking where
  pool : ConnectionPool
  fd : ConnId → Int
  activeTime : ConnId → Int
  loop : Pool.LoopPoint
  timeout : TimeoutPoint
  clock : Int

namespace Tracking

/-- What the threads do to this part.  When `prompt` holds, the connection that the
timeout thread has looked up is neither moved nor given to another client before it is
locked, and it is reset if it is idle. -/
inductive Change (config : Config) (prompt : Prop) (tracking : Tracking) : Tracking → Prop where
  | wanders (loop : Pool.LoopPoint) : tracking.loop.Idle → loop.Idle →
      Change config prompt tracking { tracking with loop := loop }
  | pops (conn : ConnId) (clifd : Int) (pool : ConnectionPool) : tracking.loop.Idle →
      0 ≤ clifd → tracking.pool.freeListPop = (some conn, pool) →
      Change config prompt tracking { tracking with pool := pool, loop := .popped conn clifd }
  | refuses (conn : ConnId) (clifd now fd : Int) : tracking.loop = .popped conn clifd →
      tracking.clock ≤ now → fd ≤ 0 →
      Change config prompt tracking { tracking with
        pool := tracking.pool.freeListPush conn
        fd := Function.update tracking.fd conn fd
        activeTime := Function.update tracking.activeTime conn 0
        loop := .accepting
        clock := now }
  | installs (conn : ConnId) (clifd now : Int) : tracking.loop = .popped conn clifd →
      tracking.clock ≤ now → (prompt → tracking.timeout.found ≠ some conn) →
      Change config prompt tracking { tracking with
        pool := tracking.pool.activeListPush conn
        fd := Function.update tracking.fd conn clifd
        activeTime := Function.update tracking.activeTime conn now
        loop := .accepting
        clock := now }
  | erases (conn : ConnId) : tracking.loop.Idle → tracking.pool.OnActiveList conn →
      (prompt → tracking.timeout.found ≠ some conn) →
      Change config prompt tracking { tracking with
        pool := tracking.pool.activeListErase conn
        loop := .moving conn }
  | pushes (conn : ConnId) : tracking.loop = .moving conn →
      Change config prompt tracking { tracking with
        pool := tracking.pool.activeListPush conn
        loop := .moved conn }
  | stamps (conn : ConnId) (now : Int) : tracking.loop = .moved conn → 0 ≤ tracking.fd conn →
      tracking.clock ≤ now →
      Change config prompt tracking { tracking with
        activeTime := Function.update tracking.activeTime conn now
        loop := .between
        clock := now }
  | misses (conn : ConnId) (now : Int) : tracking.loop = .moved conn → tracking.fd conn < 0 →
      tracking.clock ≤ now →
      Change config prompt tracking { tracking with loop := .between, clock := now }
  | frees (conn : ConnId) (fd : Int) : 0 < tracking.fd conn → fd < 0 →
      tracking.loop ≠ .moving conn →
      Change config prompt tracking { tracking with
        pool := (tracking.pool.freeListPush conn).activeListErase conn
        fd := Function.update tracking.fd conn fd
        activeTime := Function.update tracking.activeTime conn 0 }
  | starts (now : Int) :
      Change config prompt tracking { tracking with
        pool := tracking.pool.activeListTimeoutCheck
        timeout := .first now
        clock := max tracking.clock now }
  | looks (now : Int) (locking : ConnId → TimeoutPoint) : tracking.timeout.now = some now →
      tracking.timeout.found = none →
      (∀ conn, (locking conn).now = some now ∧ (locking conn).found = some conn) →
      Change config prompt tracking { tracking with
        pool := tracking.pool.activeListCheckNext.2
        timeout := (tracking.pool.activeListCheckNext.1).elim .starting locking }
  | locks (now : Int) (conn : ConnId) : tracking.timeout = .peeking now conn →
      Change config prompt tracking { tracking with timeout := .checking now conn }
  | follows (now : Int) (conn : ConnId) : tracking.timeout = .checking now conn →
      (prompt → tracking.activeTime conn ≤ 0 ∨ tracking.fd conn < 0) →
      Change config prompt tracking { tracking with timeout := .following now }
  | stops : Change config prompt tracking { tracking with timeout := .starting }

/-- What is on the two lists, and in which order. -/
structure Listed (tracking : Tracking) (free passed rest : List ConnId) : Prop where
  freeList : tracking.pool.FreeList free
  nodup : free.Nodup
  divided : tracking.pool.Divided passed rest
  apart : ∀ conn ∈ free, conn ∉ passed ++ rest ∧ tracking.loop ≠ .moving conn
  created : ∀ conn, conn ∈ free ∨ conn ∈ passed ++ rest ∨ tracking.loop = .moving conn →
    conn < tracking.pool.count
  popped : ∀ conn clifd, tracking.loop = .popped conn clifd →
    conn ∉ free ∧ conn ∉ passed ++ rest ∧ conn < tracking.pool.count ∧ 0 ≤ clifd
  moving : ∀ conn, tracking.loop = .moving conn → conn ∉ passed ++ rest ∧ 0 ≤ tracking.fd conn
  moved : ∀ conn, tracking.loop = .moved conn →
    tracking.fd conn < 0 ∨ (passed ++ rest).getLast? = some conn
  opened : ∀ conn ∈ passed ++ rest, 0 ≤ tracking.fd conn
  listed : ∀ conn, 0 < tracking.fd conn ∨ 0 < tracking.activeTime conn →
    conn ∈ passed ++ rest ∨ tracking.loop = .moving conn
  past : ∀ conn, 0 < tracking.activeTime conn → tracking.activeTime conn ≤ tracking.clock
  started : ∀ now, tracking.timeout.now = some now → now ≤ tracking.clock
  ordered : OldestFirst (fun conn => 0 < tracking.activeTime conn)
    (fun conn => tracking.loop = .moved conn) tracking.activeTime (passed ++ rest)

/-- What `CheckConnectionTimeout` knows of the connections that it has passed. -/
structure Scanned (config : Config) (tracking : Tracking) (passed rest : List ConnId) :
    Prop where
  found : ∀ conn, tracking.timeout.found = some conn →
    conn ∉ rest ∧ tracking.loop ≠ .moving conn
  fresh : ∀ now, tracking.timeout.now = some now → ∀ conn ∈ passed,
    0 < tracking.activeTime conn → tracking.timeout.found = some conn ∨
      tracking.loop = .moved conn ∨ now - tracking.activeTime conn < config.idleTimeout

def Sound (config : Config) (prompt : Prop) (tracking : Tracking) : Prop :=
  ∃ free passed rest, tracking.Listed free passed rest ∧
    (prompt → tracking.Scanned config passed rest)

variable {config : Config} {prompt : Prop} {tracking later : Tracking} {conn : ConnId}
  {free passed rest before behind : List ConnId}

section Idle

variable {loop : Pool.LoopPoint} (idle : loop.Idle)
include idle

theorem Idle.ne_moving : loop ≠ .moving conn := by
  rintro rfl
  exact idle

theorem Idle.ne_moved : loop ≠ .moved conn := by
  rintro rfl
  exact idle

theorem Idle.ne_popped {clifd : Int} : loop ≠ .popped conn clifd := by
  rintro rfl
  exact idle

end Idle

theorem mem_erase_append (nodup : (passed ++ rest).Nodup) {other : ConnId} :
    other ∈ passed.erase conn ++ rest.erase conn ↔ other ∈ passed ++ rest ∧ other ≠ conn := by
  obtain ⟨nodup_passed, nodup_rest, -⟩ := List.nodup_append.mp nodup
  rw [List.mem_append, nodup_passed.mem_erase_iff, nodup_rest.mem_erase_iff, List.mem_append]
  tauto

theorem sublist_erase_append :
    (passed.erase conn ++ rest.erase conn).Sublist (passed ++ rest) :=
  List.Sublist.append List.erase_sublist List.erase_sublist

theorem getLast?_erase_append {last : ConnId} (nodup : (passed ++ rest).Nodup)
    (inside : conn ∈ passed ++ rest) (different : last ≠ conn)
    (at_last : (passed ++ rest).getLast? = some last) :
    (passed.erase conn ++ rest.erase conn).getLast? = some last := by
  have whole : passed.erase conn ++ rest.erase conn = (passed ++ rest).erase conn :=
    @CursorList.nodes_erase ConnId ⟨passed, rest⟩ conn _ nodup
  obtain ⟨front, split⟩ := List.getLast?_eq_some_iff.mp at_last
  rw [whole, split, List.erase_append_left]
  · exact List.getLast?_concat
  · rw [split, List.mem_append, List.mem_singleton] at inside
    exact inside.resolve_right (Ne.symm different)

namespace Listed

theorem frame (listed : tracking.Listed free passed rest)
    (same : before ++ behind = passed ++ rest) (divided : later.pool.Divided before behind)
    (sameFree : tracking.pool.SameFree later.pool)
    (fd : later.fd = tracking.fd) (activeTime : later.activeTime = tracking.activeTime)
    (clock : tracking.clock ≤ later.clock)
    (started : ∀ now, later.timeout.now = some now → now ≤ later.clock)
    (loop : later.loop = tracking.loop ∨ tracking.loop.Idle ∧ later.loop.Idle) :
    later.Listed free before behind := by
  have moving : ∀ conn, later.loop = .moving conn ↔ tracking.loop = .moving conn := by
    rcases loop with same | ⟨idle, still⟩
    · rw [same]
      exact fun _ => Iff.rfl
    · exact fun conn => iff_of_false (Idle.ne_moving still) (Idle.ne_moving idle)
  have moved : ∀ conn, later.loop = .moved conn ↔ tracking.loop = .moved conn := by
    rcases loop with same | ⟨idle, still⟩
    · rw [same]
      exact fun _ => Iff.rfl
    · exact fun conn => iff_of_false (Idle.ne_moved still) (Idle.ne_moved idle)
  have popped : ∀ conn clifd, later.loop = .popped conn clifd →
      tracking.loop = .popped conn clifd := by
    rcases loop with same | ⟨-, still⟩
    · rw [same]
      exact fun _ _ => id
    · exact fun _ _ at_loop => (Idle.ne_popped still at_loop).elim
  constructor
  · exact sameFree.freeList.mpr listed.freeList
  · exact listed.nodup
  · exact divided
  · simpa only [same, ne_eq, moving] using listed.apart
  · simpa only [same, moving, sameFree.count] using listed.created
  · intro conn clifd at_loop
    simpa only [same, sameFree.count] using listed.popped conn clifd (popped conn clifd at_loop)
  · simpa only [same, moving, fd] using listed.moving
  · simpa only [same, moved, fd] using listed.moved
  · simpa only [same, fd] using listed.opened
  · simpa only [same, moving, fd, activeTime] using listed.listed
  · intro conn active
    rw [activeTime] at active ⊢
    exact (listed.past conn active).trans clock
  · exact started
  · simpa only [same, moved, activeTime] using listed.ordered

theorem pops (listed : tracking.Listed free passed rest) {clifd : Int} {pool : ConnectionPool}
    (idle : tracking.loop.Idle) (descriptor : 0 ≤ clifd)
    (popped : tracking.pool.freeListPop = (some conn, pool)) : ∃ fewer,
      Listed { tracking with pool := pool, loop := .popped conn clifd } fewer passed rest := by
  have divided : pool.Divided passed rest := by
    have kept := listed.divided.freeListPop
    rwa [popped] at kept
  have ordered : OldestFirst (fun conn => 0 < tracking.activeTime conn)
      (fun other => Pool.LoopPoint.popped conn clifd = .moved other) tracking.activeTime
      (passed ++ rest) :=
    listed.ordered.congr (fun _ _ => id)
      fun _ _ _ _ _ _ early => .inr (early.resolve_left (Idle.ne_moved idle))
  have unlisted : ∀ other, 0 < tracking.fd other ∨ 0 < tracking.activeTime other →
      other ∈ passed ++ rest ∨ Pool.LoopPoint.popped conn clifd = .moving other :=
    fun other active => .inl ((listed.listed other active).resolve_right (Idle.ne_moving idle))
  rcases ConnectionPool.freeListPop_cases listed.freeList with
    ⟨first, fewer, same, taken, remaining⟩ | ⟨none_free, none_left | created⟩
  · subst same
    rw [popped] at taken remaining
    cases taken
    obtain ⟨outside, nodup⟩ := List.nodup_cons.mp listed.nodup
    refine ⟨fewer, ?_⟩
    exact {
      freeList := remaining
      nodup := nodup
      divided := divided
      apart := by
        intro other inside
        exact ⟨(listed.apart other (List.mem_cons_of_mem _ inside)).1, nofun⟩
      created := by
        rintro other (inside | inside | contrary)
        · exact listed.created other (.inl (List.mem_cons_of_mem _ inside))
        · exact listed.created other (.inr (.inl inside))
        · cases contrary
      popped := by
        intro other otherfd at_loop
        cases at_loop
        exact ⟨outside, (listed.apart conn List.mem_cons_self).1,
          listed.created conn (.inl List.mem_cons_self), descriptor⟩
      moving := nofun
      moved := nofun
      opened := listed.opened
      listed := unlisted
      past := listed.past
      started := listed.started
      ordered := ordered }
  · rw [popped] at none_left
    cases none_left
  · rw [popped] at created
    cases created
    subst none_free
    have unused : ∀ other ∈ passed ++ rest, other < tracking.pool.count :=
      fun other inside => listed.created other (.inr (.inl inside))
    refine ⟨[], ?_⟩
    exact {
      freeList := listed.freeList
      nodup := List.nodup_nil
      divided := divided
      apart := nofun
      created := by
        rintro other (inside | inside | contrary)
        · cases inside
        · exact Nat.lt_succ_of_lt (unused other inside)
        · cases contrary
      popped := by
        intro other otherfd at_loop
        cases at_loop
        refine ⟨List.not_mem_nil, ?_, Nat.lt_succ_self _, descriptor⟩
        exact fun inside => Nat.lt_irrefl _ (unused _ inside)
      moving := nofun
      moved := nofun
      opened := listed.opened
      listed := unlisted
      past := listed.past
      started := listed.started
      ordered := ordered }

theorem ordered_apart (listed : tracking.Listed free passed rest) {late : ConnId → Prop}
    {time : Int} (outside : conn ∉ passed ++ rest)
    (early : ∀ other ∈ passed ++ rest, tracking.loop = .moved other → late other) :
    OldestFirst (fun other => 0 < Function.update tracking.activeTime conn time other) late
      (Function.update tracking.activeTime conn time) (passed ++ rest) := by
  have kept : ∀ other ∈ passed ++ rest,
      Function.update tracking.activeTime conn time other = tracking.activeTime other := by
    intro other inside
    have different : other ≠ conn := fun same => outside (same ▸ inside)
    exact Function.update_of_ne different _ _
  refine listed.ordered.congr ?_ ?_
  · intro other inside
    rw [kept other inside]
    exact id
  · intro earlier inside other also_inside _ _ before
    rw [kept earlier inside, kept other also_inside]
    exact before.imp_left (early other also_inside)

theorem ordered_latest (listed : tracking.Listed free passed rest) {late : ConnId → Prop}
    {front : List ConnId} {now : Int} (fewer : front.Sublist (passed ++ rest))
    (outside : conn ∉ front) (early : ∀ other ∈ front, tracking.loop ≠ .moved other)
    (later : tracking.clock ≤ now) :
    OldestFirst (fun other => 0 < Function.update tracking.activeTime conn now other) late
      (Function.update tracking.activeTime conn now) (front ++ [conn]) := by
  have kept : ∀ other ∈ front,
      Function.update tracking.activeTime conn now other = tracking.activeTime other := by
    intro other inside
    have different : other ≠ conn := fun same => outside (same ▸ inside)
    exact Function.update_of_ne different _ _
  refine OldestFirst.snoc ((listed.ordered.sublist fewer).congr ?_ ?_) ?_
  · intro other inside
    rw [kept other inside]
    exact id
  · intro earlier inside other also_inside _ _ before
    rw [kept earlier inside, kept other also_inside]
    exact .inr (before.resolve_left (early other also_inside))
  · intro earlier inside active _
    right
    rw [kept earlier inside] at active ⊢
    rw [Function.update_self]
    exact (listed.past earlier active).trans later

theorem past_update (listed : tracking.Listed free passed rest) {time now : Int}
    (later : tracking.clock ≤ now) (set : 0 < time → time ≤ now) (other : ConnId)
    (active : 0 < Function.update tracking.activeTime conn time other) :
    Function.update tracking.activeTime conn time other ≤ now := by
  by_cases same : other = conn
  · subst same
    rw [Function.update_self] at active ⊢
    exact set active
  · rw [Function.update_of_ne same] at active ⊢
    exact (listed.past other active).trans later

theorem refuses (listed : tracking.Listed free passed rest) {clifd now fd : Int}
    (at_conn : tracking.loop = .popped conn clifd) (later : tracking.clock ≤ now)
    (closed : fd ≤ 0) :
    Listed { tracking with
      pool := tracking.pool.freeListPush conn
      fd := Function.update tracking.fd conn fd
      activeTime := Function.update tracking.activeTime conn 0
      loop := .accepting
      clock := now } (conn :: free) passed rest := by
  obtain ⟨outside_free, outside, used, -⟩ := listed.popped conn clifd at_conn
  exact {
    freeList := ConnectionPool.freeList_push listed.freeList outside_free
    nodup := List.nodup_cons.mpr ⟨outside_free, listed.nodup⟩
    divided := listed.divided.freeListPush
    apart := by
      intro other inside
      rcases List.mem_cons.mp inside with same | inside
      · subst same
        exact ⟨outside, nofun⟩
      · exact ⟨(listed.apart other inside).1, nofun⟩
    created := by
      rintro other (inside | inside | contrary)
      · rcases List.mem_cons.mp inside with same | inside
        · subst same
          exact used
        · exact listed.created other (.inl inside)
      · exact listed.created other (.inr (.inl inside))
      · cases contrary
    popped := nofun
    moving := nofun
    moved := nofun
    opened := by
      intro other inside
      have different : other ≠ conn := fun same => outside (same ▸ inside)
      simpa [different] using listed.opened other inside
    listed := by
      intro other active
      by_cases same : other = conn
      · subst same
        simp only [Function.update_self, Int.lt_irrefl, or_false] at active
        exact absurd active (Int.not_lt.mpr closed)
      · simp only [Function.update_of_ne same] at active
        exact .inl ((listed.listed other active).resolve_right (by rw [at_conn]; nofun))
    past := listed.past_update later nofun
    started := fun now at_now => (listed.started now at_now).trans later
    ordered := by
      refine listed.ordered_apart outside ?_
      intro other _ moved
      cases at_conn.symm.trans moved }

theorem installs (listed : tracking.Listed free passed rest) {clifd now : Int}
    (at_conn : tracking.loop = .popped conn clifd) (later : tracking.clock ≤ now)
    (pushed : (tracking.pool.activeListPush conn).Divided before behind)
    (same : before ++ behind = passed ++ rest ++ [conn]) :
    Listed { tracking with
      pool := tracking.pool.activeListPush conn
      fd := Function.update tracking.fd conn clifd
      activeTime := Function.update tracking.activeTime conn now
      loop := .accepting
      clock := now } free before behind := by
  obtain ⟨outside_free, outside, used, descriptor⟩ := listed.popped conn clifd at_conn
  have before_conn : ∀ other ∈ passed ++ rest, other ≠ conn :=
    fun other inside same => outside (same ▸ inside)
  exact {
    freeList := ConnectionPool.freeList_activeListPush.mpr listed.freeList
    nodup := listed.nodup
    divided := pushed
    apart := by
      intro other inside
      have different : other ≠ conn := fun same => outside_free (same ▸ inside)
      rw [same, List.mem_append, List.mem_singleton, not_or]
      exact ⟨⟨(listed.apart other inside).1, different⟩, nofun⟩
    created := by
      intro other mentioned
      rw [same, List.mem_append, List.mem_singleton] at mentioned
      rw [ConnectionPool.count_activeListPush]
      rcases mentioned with inside | (inside | rfl) | contrary
      · exact listed.created other (.inl inside)
      · exact listed.created other (.inr (.inl inside))
      · exact used
      · cases contrary
    popped := nofun
    moving := nofun
    moved := nofun
    opened := by
      intro other inside
      rw [same, List.mem_append, List.mem_singleton] at inside
      rcases inside with inside | rfl
      · simpa [before_conn other inside] using listed.opened other inside
      · simpa using descriptor
    listed := by
      intro other active
      rw [same, List.mem_append, List.mem_singleton]
      by_cases at_other : other = conn
      · exact .inl (.inr at_other)
      · simp only [Function.update_of_ne at_other] at active
        exact .inl (.inl ((listed.listed other active).resolve_right (by rw [at_conn]; nofun)))
    past := listed.past_update later (fun _ => Int.le_refl _)
    started := fun now at_now => (listed.started now at_now).trans later
    ordered := by
      rw [same]
      refine listed.ordered_latest (.refl _) outside ?_ later
      intro other _ moved
      cases at_conn.symm.trans moved }

theorem erases (listed : tracking.Listed free passed rest) (idle : tracking.loop.Idle)
    (inside : conn ∈ passed ++ rest) :
    Listed { tracking with
      pool := tracking.pool.activeListErase conn
      loop := .moving conn } free (passed.erase conn) (rest.erase conn) := by
  have kept := fun other => @mem_erase_append conn passed rest listed.divided.nodup other
  exact {
    freeList := ConnectionPool.freeList_activeListErase.mpr listed.freeList
    nodup := listed.nodup
    divided := listed.divided.activeListErase inside
    apart := by
      intro other free
      have apart := (listed.apart other free).1
      refine ⟨fun still => apart ((kept other).mp still).1, ?_⟩
      rintro same
      cases same
      exact apart inside
    created := by
      intro other mentioned
      rw [ConnectionPool.count_activeListErase]
      rcases mentioned with free | still | at_conn
      · exact listed.created other (.inl free)
      · exact listed.created other (.inr (.inl ((kept other).mp still).1))
      · cases at_conn
        exact listed.created conn (.inr (.inl inside))
    popped := nofun
    moving := by
      intro other at_conn
      cases at_conn
      exact ⟨fun still => ((kept conn).mp still).2 rfl, listed.opened conn inside⟩
    moved := nofun
    opened := by
      intro other still
      exact listed.opened other ((kept other).mp still).1
    listed := by
      intro other active
      by_cases at_other : other = conn
      · subst at_other
        exact .inr rfl
      · have before := (listed.listed other active).resolve_right (Idle.ne_moving idle)
        exact .inl ((kept other).mpr ⟨before, at_other⟩)
    past := listed.past
    started := listed.started
    ordered := by
      refine (listed.ordered.sublist sublist_erase_append).congr (fun _ _ => id) ?_
      intro _ _ _ _ _ _ before
      exact .inr (before.resolve_left (Idle.ne_moved idle)) }

theorem pushes (listed : tracking.Listed free passed rest)
    (at_conn : tracking.loop = .moving conn)
    (pushed : (tracking.pool.activeListPush conn).Divided before behind)
    (same : before ++ behind = passed ++ rest ++ [conn]) :
    Listed { tracking with
      pool := tracking.pool.activeListPush conn
      loop := .moved conn } free before behind := by
  obtain ⟨outside, opened⟩ := listed.moving conn at_conn
  exact {
    freeList := ConnectionPool.freeList_activeListPush.mpr listed.freeList
    nodup := listed.nodup
    divided := pushed
    apart := by
      intro other free
      obtain ⟨apart, not_moving⟩ := listed.apart other free
      have different : other ≠ conn := fun same => not_moving (same ▸ at_conn)
      rw [same, List.mem_append, List.mem_singleton, not_or]
      exact ⟨⟨apart, different⟩, nofun⟩
    created := by
      intro other mentioned
      rw [same, List.mem_append, List.mem_singleton] at mentioned
      rw [ConnectionPool.count_activeListPush]
      rcases mentioned with free | (inside | rfl) | contrary
      · exact listed.created other (.inl free)
      · exact listed.created other (.inr (.inl inside))
      · exact listed.created other (.inr (.inr at_conn))
      · cases contrary
    popped := nofun
    moving := nofun
    moved := by
      intro other moved
      cases moved
      rw [same, List.getLast?_concat]
      exact .inr rfl
    opened := by
      intro other inside
      rw [same, List.mem_append, List.mem_singleton] at inside
      rcases inside with inside | rfl
      · exact listed.opened other inside
      · exact opened
    listed := by
      intro other active
      rw [same, List.mem_append, List.mem_singleton]
      rcases listed.listed other active with inside | moving
      · exact .inl (.inl inside)
      · cases at_conn.symm.trans moving
        exact .inl (.inr rfl)
    past := listed.past
    started := listed.started
    ordered := by
      rw [same]
      refine (listed.ordered.congr (fun _ _ => id) ?_).snoc (fun _ _ _ _ => .inl rfl)
      intro _ _ other _ _ _ before
      refine .inr (before.resolve_left ?_)
      rw [at_conn]
      nofun }

theorem stamps (listed : tracking.Listed free passed rest) {now : Int}
    (at_conn : tracking.loop = .moved conn) (descriptor : 0 ≤ tracking.fd conn)
    (later : tracking.clock ≤ now) :
    Listed { tracking with
      activeTime := Function.update tracking.activeTime conn now
      loop := .between
      clock := now } free passed rest := by
  have last := (listed.moved conn at_conn).resolve_left (Int.not_lt.mpr descriptor)
  obtain ⟨front, split⟩ := List.getLast?_eq_some_iff.mp last
  have inside : conn ∈ passed ++ rest := List.mem_of_getLast? last
  exact {
    freeList := listed.freeList
    nodup := listed.nodup
    divided := listed.divided
    apart := by
      intro other free
      exact ⟨(listed.apart other free).1, nofun⟩
    created := by
      rintro other (free | inside | contrary)
      · exact listed.created other (.inl free)
      · exact listed.created other (.inr (.inl inside))
      · cases contrary
    popped := nofun
    moving := nofun
    moved := nofun
    opened := listed.opened
    listed := by
      intro other active
      by_cases at_other : other = conn
      · subst at_other
        exact .inl inside
      · simp only [Function.update_of_ne at_other] at active
        exact .inl ((listed.listed other active).resolve_right (by rw [at_conn]; nofun))
    past := listed.past_update later (fun _ => Int.le_refl _)
    started := fun now at_now => (listed.started now at_now).trans later
    ordered := by
      have nodup := listed.divided.nodup
      rw [split] at nodup ⊢
      have outside : conn ∉ front := by
        intro contrary
        exact (List.nodup_append.mp nodup).2.2 conn contrary conn List.mem_cons_self rfl
      refine listed.ordered_latest (split ▸ List.sublist_append_left front _) outside ?_ later
      intro other also_inside moved
      cases at_conn.symm.trans moved
      exact outside also_inside }

theorem misses (listed : tracking.Listed free passed rest) {now : Int}
    (at_conn : tracking.loop = .moved conn) (closed : tracking.fd conn < 0)
    (later : tracking.clock ≤ now) :
    Listed { tracking with loop := .between, clock := now } free passed rest := by
  exact {
    freeList := listed.freeList
    nodup := listed.nodup
    divided := listed.divided
    apart := by
      intro other free
      exact ⟨(listed.apart other free).1, nofun⟩
    created := by
      rintro other (free | inside | contrary)
      · exact listed.created other (.inl free)
      · exact listed.created other (.inr (.inl inside))
      · cases contrary
    popped := nofun
    moving := nofun
    moved := nofun
    opened := listed.opened
    listed := by
      intro other active
      exact .inl ((listed.listed other active).resolve_right (by rw [at_conn]; nofun))
    past := by
      intro other active
      exact (listed.past other active).trans later
    started := fun now at_now => (listed.started now at_now).trans later
    ordered := by
      refine listed.ordered.congr (fun _ _ => id) ?_
      intro _ _ other inside _ _ before
      refine .inr (before.resolve_left ?_)
      intro moved
      cases at_conn.symm.trans moved
      exact absurd closed (Int.not_lt.mpr (listed.opened conn inside)) }

theorem inside_of_open (listed : tracking.Listed free passed rest) (opened : 0 < tracking.fd conn)
    (not_moving : tracking.loop ≠ .moving conn) : conn ∈ passed ++ rest :=
  (listed.listed conn (.inl opened)).resolve_right not_moving

theorem frees (listed : tracking.Listed free passed rest) {fd : Int}
    (opened : 0 < tracking.fd conn) (closed : fd < 0)
    (not_moving : tracking.loop ≠ .moving conn) :
    Listed { tracking with
      pool := (tracking.pool.freeListPush conn).activeListErase conn
      fd := Function.update tracking.fd conn fd
      activeTime := Function.update tracking.activeTime conn 0 }
      (conn :: free) (passed.erase conn) (rest.erase conn) := by
  have inside := listed.inside_of_open opened not_moving
  have outside_free : conn ∉ free := fun free => (listed.apart conn free).1 inside
  have nodup := listed.divided.nodup
  have kept := fun other => @mem_erase_append conn passed rest nodup other
  exact {
    freeList := by
      exact ConnectionPool.freeList_activeListErase.mpr
        (ConnectionPool.freeList_push listed.freeList outside_free)
    nodup := List.nodup_cons.mpr ⟨outside_free, listed.nodup⟩
    divided := listed.divided.freeListPush.activeListErase inside
    apart := by
      intro other free
      rcases List.mem_cons.mp free with same | free
      · subst same
        exact ⟨fun still => ((kept other).mp still).2 rfl, not_moving⟩
      · obtain ⟨apart, other_not_moving⟩ := listed.apart other free
        exact ⟨fun still => apart ((kept other).mp still).1, other_not_moving⟩
    created := by
      intro other mentioned
      rw [ConnectionPool.count_activeListErase, ConnectionPool.count_freeListPush]
      rcases mentioned with free | still | moving
      · rcases List.mem_cons.mp free with same | free
        · subst same
          exact listed.created other (.inr (.inl inside))
        · exact listed.created other (.inl free)
      · exact listed.created other (.inr (.inl ((kept other).mp still).1))
      · exact listed.created other (.inr (.inr moving))
    popped := by
      intro other clifd at_other
      obtain ⟨other_free, other_outside, used, descriptor⟩ := listed.popped other clifd at_other
      have different : other ≠ conn := fun same => other_outside (same ▸ inside)
      refine ⟨?_, fun still => other_outside ((kept other).mp still).1, ?_, descriptor⟩
      · exact List.not_mem_cons_of_ne_of_not_mem different other_free
      · rwa [ConnectionPool.count_activeListErase, ConnectionPool.count_freeListPush]
    moving := by
      intro other moving
      obtain ⟨other_outside, other_opened⟩ := listed.moving other moving
      have different : other ≠ conn := fun same => other_outside (same ▸ inside)
      refine ⟨fun still => other_outside ((kept other).mp still).1, ?_⟩
      simpa [different] using other_opened
    moved := by
      intro other moved
      by_cases at_other : other = conn
      · subst at_other
        exact .inl (by simpa using closed)
      · simp only [Function.update_of_ne at_other]
        refine (listed.moved other moved).imp_right ?_
        exact getLast?_erase_append nodup inside at_other
    opened := by
      intro other still
      obtain ⟨before, different⟩ := (kept other).mp still
      simpa [different] using listed.opened other before
    listed := by
      intro other active
      by_cases at_other : other = conn
      · subst at_other
        simp only [Function.update_self, Int.lt_irrefl, or_false] at active
        exact absurd active (Int.not_lt.mpr (Int.le_of_lt closed))
      · simp only [Function.update_of_ne at_other] at active
        refine (listed.listed other active).imp_left ?_
        exact fun before => (kept other).mpr ⟨before, at_other⟩
    past := listed.past_update (Int.le_refl _) nofun
    started := listed.started
    ordered := by
      have times : ∀ other ∈ passed.erase conn ++ rest.erase conn,
          Function.update tracking.activeTime conn 0 other = tracking.activeTime other :=
        fun other still => Function.update_of_ne ((kept other).mp still).2 _ _
      refine (listed.ordered.sublist sublist_erase_append).congr ?_ ?_
      · intro other still
        simp only [times other still]
        exact id
      · intro earlier still other also_still _ _ before
        simpa only [times earlier still, times other also_still] using before }

end Listed

namespace Scanned

theorem wanders (scanned : tracking.Scanned config passed rest) {pool : ConnectionPool}
    {loop : Pool.LoopPoint} {clock : Int}
    (at_loop : ∀ conn ∈ passed, tracking.loop ≠ .moved conn)
    (not_moving : ∀ conn, loop ≠ .moving conn) :
    Scanned config { tracking with pool := pool, loop := loop, clock := clock } passed rest where
  found conn at_conn := ⟨(scanned.found conn at_conn).1, not_moving conn⟩
  fresh now at_now conn inside active :=
    (scanned.fresh now at_now conn inside active).imp_right
      fun fresh => .inr (fresh.resolve_left (at_loop conn inside))

theorem refuses (scanned : tracking.Scanned config passed rest) {pool : ConnectionPool}
    {fd : ConnId → Int} {now : Int} (at_loop : ∀ conn, tracking.loop ≠ .moved conn)
    (outside : conn ∉ passed ++ rest) :
    Scanned config { tracking with
      pool := pool
      fd := fd
      activeTime := Function.update tracking.activeTime conn 0
      loop := .accepting
      clock := now } passed rest where
  found other at_other := ⟨(scanned.found other at_other).1, nofun⟩
  fresh now at_now other inside active := by
    have different : other ≠ conn :=
      fun same => outside (List.mem_append_left rest (same ▸ inside))
    simp only [Function.update_of_ne different] at active ⊢
    exact (scanned.fresh now at_now other inside active).imp_right
      fun fresh => .inr (fresh.resolve_left (at_loop other))

theorem fresh_update (scanned : tracking.Scanned config passed rest)
    (listed : tracking.Listed free passed rest) (positive : 0 < config.idleTimeout)
    {clock : Int} (later : tracking.clock ≤ clock)
    (early : ∀ other ∈ passed, other ≠ conn → tracking.loop ≠ .moved other) {now : Int}
    (at_now : tracking.timeout.now = some now) {other : ConnId}
    (inside : other ∈ passed ∨ other = conn)
    (active : 0 < Function.update tracking.activeTime conn clock other) :
    tracking.timeout.found = some other ∨
      now - Function.update tracking.activeTime conn clock other < config.idleTimeout := by
  by_cases same : other = conn
  · subst same
    have started := listed.started now at_now
    rw [Function.update_self]
    exact .inr (by omega)
  · have inside := inside.resolve_right same
    rw [Function.update_of_ne same] at active ⊢
    exact (scanned.fresh now at_now other inside active).imp_right
      fun fresh => fresh.resolve_left (early other inside same)

theorem installs (scanned : tracking.Scanned config passed rest)
    (listed : tracking.Listed free passed rest) (positive : 0 < config.idleTimeout)
    {pool : ConnectionPool} {fd : ConnId → Int} {clock : Int}
    (at_loop : ∀ conn, tracking.loop ≠ .moved conn) (later : tracking.clock ≤ clock)
    (unlooked : tracking.timeout.found ≠ some conn)
    (front : ∀ other ∈ before, other ∈ passed ∨ other = conn)
    (back : ∀ other ∈ behind, other ∈ rest ∨ other = conn) :
    Scanned config { tracking with
      pool := pool
      fd := fd
      activeTime := Function.update tracking.activeTime conn clock
      loop := .accepting
      clock := clock } before behind where
  found other at_other := by
    refine ⟨?_, nofun⟩
    intro inside
    rcases back other inside with inside | same
    · exact (scanned.found other at_other).1 inside
    · exact unlooked (same ▸ at_other)
  fresh now at_now other inside active :=
    (scanned.fresh_update listed positive later (fun other _ _ => at_loop other) at_now
      (front other inside) active).imp_right .inr

theorem erases (scanned : tracking.Scanned config passed rest) {pool : ConnectionPool}
    (at_loop : ∀ conn, tracking.loop ≠ .moved conn)
    (unlooked : tracking.timeout.found ≠ some conn) :
    Scanned config { tracking with pool := pool, loop := .moving conn }
      (passed.erase conn) (rest.erase conn) where
  found other at_other := by
    refine ⟨fun inside => (scanned.found other at_other).1 (List.mem_of_mem_erase inside), ?_⟩
    rintro same
    cases same
    exact unlooked at_other
  fresh now at_now other inside active :=
    (scanned.fresh now at_now other (List.mem_of_mem_erase inside) active).imp_right
      fun fresh => .inr (fresh.resolve_left (at_loop other))

theorem pushes (scanned : tracking.Scanned config passed rest) {pool : ConnectionPool}
    (at_conn : tracking.loop = .moving conn)
    (front : ∀ other ∈ before, other ∈ passed ∨ other = conn)
    (back : ∀ other ∈ behind, other ∈ rest ∨ other = conn) :
    Scanned config { tracking with pool := pool, loop := .moved conn } before behind where
  found other at_other := by
    obtain ⟨outside, not_moving⟩ := scanned.found other at_other
    refine ⟨?_, nofun⟩
    intro inside
    rcases back other inside with inside | same
    · exact outside inside
    · exact not_moving (same ▸ at_conn)
  fresh now at_now other inside active := by
    rcases front other inside with inside | same
    · exact (scanned.fresh now at_now other inside active).imp_right
        fun fresh => .inr (fresh.resolve_left (by rw [at_conn]; nofun))
    · exact .inr (.inl (same ▸ rfl))

theorem stamps (scanned : tracking.Scanned config passed rest)
    (listed : tracking.Listed free passed rest) (positive : 0 < config.idleTimeout)
    {clock : Int} (at_conn : tracking.loop = .moved conn) (later : tracking.clock ≤ clock) :
    Scanned config { tracking with
      activeTime := Function.update tracking.activeTime conn clock
      loop := .between
      clock := clock } passed rest where
  found other at_other := ⟨(scanned.found other at_other).1, nofun⟩
  fresh now at_now other inside active := by
    have early : ∀ other ∈ passed, other ≠ conn → tracking.loop ≠ .moved other := by
      intro other _ different moved
      cases at_conn.symm.trans moved
      exact different rfl
    have fresh := scanned.fresh_update listed positive later early at_now (.inl inside) active
    exact fresh.imp_right .inr

theorem frees (scanned : tracking.Scanned config passed rest) {pool : ConnectionPool}
    {fd : ConnId → Int} :
    Scanned config { tracking with
      pool := pool
      fd := fd
      activeTime := Function.update tracking.activeTime conn 0 }
      (passed.erase conn) (rest.erase conn) where
  found other at_other := by
    obtain ⟨outside, not_moving⟩ := scanned.found other at_other
    exact ⟨fun inside => outside (List.mem_of_mem_erase inside), not_moving⟩
  fresh now at_now other inside active := by
    have different : other ≠ conn := by
      rintro rfl
      simp at active
    simp only [Function.update_of_ne different] at active ⊢
    exact scanned.fresh now at_now other (List.mem_of_mem_erase inside) active

theorem looks (scanned : tracking.Scanned config passed (conn :: rest))
    (listed : tracking.Listed free passed (conn :: rest)) {pool : ConnectionPool} {now : Int}
    {timeout : TimeoutPoint} (at_now : tracking.timeout.now = some now)
    (unlooked : tracking.timeout.found = none) (still : timeout.now = some now)
    (looked : timeout.found = some conn) :
    Scanned config { tracking with pool := pool, timeout := timeout }
      (passed ++ [conn]) rest where
  found other at_other := by
    cases looked.symm.trans at_other
    have nodup := (List.nodup_append.mp listed.divided.nodup).2.1
    refine ⟨(List.nodup_cons.mp nodup).1, ?_⟩
    intro moving
    exact (listed.moving conn moving).1 (by simp)
  fresh other at_other conn inside active := by
    cases still.symm.trans at_other
    rcases List.mem_append.mp inside with inside | last
    · refine .inr ((scanned.fresh now at_now conn inside active).resolve_left ?_)
      rw [unlooked]
      nofun
    · cases List.mem_singleton.mp last
      exact .inl looked

theorem follows (scanned : tracking.Scanned config passed rest)
    (listed : tracking.Listed free passed rest) {now : Int}
    (checking : tracking.timeout = .checking now conn)
    (settled : tracking.activeTime conn ≤ 0 ∨ tracking.fd conn < 0) :
    Scanned config { tracking with timeout := .following now } passed rest where
  found := nofun
  fresh other at_other conn inside active := by
    cases at_other
    right
    refine (scanned.fresh now (by rw [checking]; rfl) conn inside active).resolve_left ?_
    intro looked
    rw [checking] at looked
    cases looked
    rcases settled with untimed | closed
    · exact absurd active (Int.not_lt.mpr untimed)
    · exact absurd closed (Int.not_lt.mpr (listed.opened conn (List.mem_append_left rest inside)))

end Scanned

theorem Sound.looks (sound : tracking.Sound config prompt) {now : Int}
    {locking : ConnId → TimeoutPoint} (at_now : tracking.timeout.now = some now)
    (unlooked : tracking.timeout.found = none)
    (looked : ∀ conn, (locking conn).now = some now ∧ (locking conn).found = some conn) :
    Sound config prompt { tracking with
      pool := tracking.pool.activeListCheckNext.2
      timeout := (tracking.pool.activeListCheckNext.1).elim .starting locking } := by
  obtain ⟨free, passed, rest, listed, scanned⟩ := sound
  cases rest with
  | nil =>
      rw [listed.divided.checkNext_nil]
      refine ⟨free, passed, [], listed.frame rfl listed.divided (.refl _) rfl rfl
        (Int.le_refl _) nofun (.inl rfl), ?_⟩
      exact fun _ => ⟨nofun, nofun⟩
  | cons conn rest =>
      obtain ⟨next, divided⟩ := listed.divided.checkNext_cons
      rw [next]
      have started : ∀ other, (locking conn).now = some other → other ≤ tracking.clock := by
        intro other at_other
        cases (looked conn).1.symm.trans at_other
        exact listed.started now at_now
      refine ⟨free, passed ++ [conn], rest, listed.frame (by simp) divided ⟨rfl, rfl, rfl⟩
        rfl rfl (Int.le_refl _) started (.inl rfl), ?_⟩
      intro prompt
      exact (scanned prompt).looks listed at_now unlooked (looked conn).1 (looked conn).2

/-- Every change keeps the lists and the order, and the timeout thread has passed no idle
connection if it is prompt. -/
theorem Sound.change (sound : tracking.Sound config prompt) (positive : 0 < config.idleTimeout)
    (changed : Change config prompt tracking later) : later.Sound config prompt := by
  obtain ⟨free, passed, rest, listed, scanned⟩ := sound
  cases changed with
  | looks now locking at_now unlooked looked =>
      exact Sound.looks ⟨free, passed, rest, listed, scanned⟩ at_now unlooked looked
  | wanders loop idle still =>
      refine ⟨free, passed, rest, listed.frame rfl listed.divided (.refl _) rfl rfl
        (Int.le_refl _) listed.started (.inr ⟨idle, still⟩), ?_⟩
      intro prompt
      exact (scanned prompt).wanders (fun _ _ => Idle.ne_moved idle)
        fun _ => Idle.ne_moving still
  | pops conn clifd pool idle descriptor popped =>
      obtain ⟨fewer, kept⟩ := listed.pops idle descriptor popped
      refine ⟨fewer, passed, rest, kept, ?_⟩
      intro prompt
      exact (scanned prompt).wanders (fun _ _ => Idle.ne_moved idle) nofun
  | refuses conn clifd now fd at_conn later closed =>
      refine ⟨conn :: free, passed, rest, listed.refuses at_conn later closed, ?_⟩
      intro prompt
      exact (scanned prompt).refuses (fun _ => by rw [at_conn]; nofun)
        (listed.popped conn clifd at_conn).2.1
  | installs conn clifd now at_conn later unlooked =>
      obtain ⟨before, behind, pushed, same, front, back⟩ :=
        listed.divided.activeListPush (listed.popped conn clifd at_conn).2.1
      refine ⟨free, before, behind, listed.installs at_conn later pushed same, ?_⟩
      intro prompt
      exact (scanned prompt).installs listed positive (fun _ => by rw [at_conn]; nofun) later
        (unlooked prompt) front back
  | erases conn idle inside unlooked =>
      refine ⟨free, passed.erase conn, rest.erase conn,
        listed.erases idle (listed.divided.mem_of_onActiveList inside), ?_⟩
      intro prompt
      exact (scanned prompt).erases (fun _ => Idle.ne_moved idle) (unlooked prompt)
  | pushes conn at_conn =>
      obtain ⟨before, behind, pushed, same, front, back⟩ :=
        listed.divided.activeListPush (listed.moving conn at_conn).1
      refine ⟨free, before, behind, listed.pushes at_conn pushed same, ?_⟩
      intro prompt
      exact (scanned prompt).pushes at_conn front back
  | stamps conn now at_conn descriptor later =>
      refine ⟨free, passed, rest, listed.stamps at_conn descriptor later, ?_⟩
      intro prompt
      exact (scanned prompt).stamps listed positive at_conn later
  | misses conn now at_conn closed later =>
      refine ⟨free, passed, rest, listed.misses at_conn closed later, ?_⟩
      intro prompt
      refine (scanned prompt).wanders ?_ nofun
      intro other inside moved
      cases at_conn.symm.trans moved
      exact absurd closed (Int.not_lt.mpr (listed.opened conn (List.mem_append_left rest inside)))
  | frees conn fd opened closed not_moving =>
      exact ⟨conn :: free, passed.erase conn, rest.erase conn,
        listed.frees opened closed not_moving, fun prompt => (scanned prompt).frees⟩
  | starts now =>
      have started : ∀ other, (TimeoutPoint.first now).now = some other →
          other ≤ max tracking.clock now := by
        intro other at_other
        cases at_other
        exact Int.le_max_right _ _
      exact ⟨free, [], passed ++ rest, listed.frame rfl listed.divided.timeoutCheck
        ⟨rfl, rfl, rfl⟩ rfl rfl (Int.le_max_left _ _) started (.inl rfl),
        fun _ => ⟨nofun, nofun⟩⟩
  | locks now conn peeking =>
      have started : ∀ other, (TimeoutPoint.checking now conn).now = some other →
          other ≤ tracking.clock := by
        intro other at_other
        exact listed.started other (by rwa [peeking])
      refine ⟨free, passed, rest, listed.frame rfl listed.divided (.refl _) rfl rfl
        (Int.le_refl _) started (.inl rfl), ?_⟩
      intro prompt
      obtain ⟨found, fresh⟩ := scanned prompt
      rw [peeking] at found fresh
      exact ⟨found, fresh⟩
  | follows now conn checking settled =>
      have started : ∀ other, (TimeoutPoint.following now).now = some other →
          other ≤ tracking.clock := by
        intro other at_other
        exact listed.started other (by rwa [checking])
      refine ⟨free, passed, rest, listed.frame rfl listed.divided (.refl _) rfl rfl
        (Int.le_refl _) started (.inl rfl), ?_⟩
      intro prompt
      exact (scanned prompt).follows listed checking (settled prompt)
  | stops =>
      exact ⟨free, passed, rest, listed.frame rfl listed.divided (.refl _) rfl rfl
        (Int.le_refl _) nofun (.inl rfl), fun _ => ⟨nofun, nofun⟩⟩

theorem Sound.changes (sound : tracking.Sound config prompt) (positive : 0 < config.idleTimeout)
    (changed : Relation.ReflTransGen (Change config prompt) tracking later) :
    later.Sound config prompt := by
  induction changed with
  | refl => exact sound
  | tail _ changed inductionHypothesis => exact inductionHypothesis.change positive changed

theorem Listed.inOrder (listed : tracking.Listed free passed rest) :
    ∃ front just, tracking.pool.ActiveList (front ++ just) ∧
      (just = [] ∨ ∃ conn, just = [conn] ∧ tracking.loop = .moved conn) ∧
        ((front.filter fun conn => 0 < tracking.activeTime conn).map
          tracking.activeTime).Pairwise (· ≤ ·) := by
  have active := listed.divided.activeList
  have nodup := listed.divided.nodup
  by_cases last : ∃ conn, tracking.loop = .moved conn ∧ conn ∈ passed ++ rest
  · obtain ⟨conn, moved, inside⟩ := last
    have opened := Int.not_lt.mpr (listed.opened conn inside)
    have at_end := (listed.moved conn moved).resolve_left opened
    obtain ⟨front, split⟩ := List.getLast?_eq_some_iff.mp at_end
    rw [split] at active nodup
    refine ⟨front, [conn], active, .inr ⟨conn, rfl, moved⟩, ?_⟩
    refine (listed.ordered.sublist (split ▸ List.sublist_append_left front _)).stamps ?_
    intro other also_inside also_moved
    cases moved.symm.trans also_moved
    exact (List.nodup_append.mp nodup).2.2 conn also_inside conn List.mem_cons_self rfl
  · refine ⟨passed ++ rest, [], by simpa using active, .inl rfl, ?_⟩
    exact listed.ordered.stamps fun conn inside moved => last ⟨conn, moved, inside⟩

theorem Listed.fresh_behind (listed : tracking.Listed free passed rest) {front back : List ConnId}
    (active : tracking.pool.ActiveList (front ++ conn :: back))
    (timed : 0 < tracking.activeTime conn) {other : ConnId} (inside : other ∈ back)
    (other_timed : 0 < tracking.activeTime other) :
    tracking.loop = .moved other ∨ tracking.activeTime conn ≤ tracking.activeTime other := by
  have same := isChain_unique listed.divided.activeList.forward active.forward
  have ordered := listed.ordered
  rw [same] at ordered
  exact ordered.behind timed inside other_timed

/-- A scan that comes to a connection that is not idle leaves no idle one. -/
theorem Scanned.none_idle (scanned : tracking.Scanned config passed rest)
    (listed : tracking.Listed free passed rest) {now : Int}
    (at_now : tracking.timeout.now = some now) (looked : tracking.timeout.found = some conn)
    (timed : 0 < tracking.activeTime conn)
    (fresh : now - tracking.activeTime conn < config.idleTimeout) {other : ConnId}
    (other_timed : 0 < tracking.activeTime other)
    (idle : config.idleTimeout ≤ now - tracking.activeTime other) :
    tracking.loop = .moving other ∨ tracking.loop = .moved other := by
  obtain ⟨outside, not_moving⟩ := scanned.found conn looked
  rcases listed.listed other (.inr other_timed) with inside | moving
  · right
    rcases List.mem_append.mp inside with in_passed | in_rest
    · rcases scanned.fresh now at_now other in_passed other_timed with same | moved | other_fresh
      · cases looked.symm.trans same
        exact absurd fresh (Int.not_lt.mpr idle)
      · exact moved
      · exact absurd other_fresh (Int.not_lt.mpr idle)
    · have listed_conn := (listed.listed conn (.inr timed)).resolve_right not_moving
      have in_passed := (List.mem_append.mp listed_conn).resolve_right outside
      obtain ⟨front, back, split⟩ := List.append_of_mem in_passed
      have active := listed.divided.activeList
      rw [split, List.append_assoc, List.cons_append] at active
      refine (listed.fresh_behind active timed (List.mem_append_right back in_rest)
        other_timed).resolve_right ?_
      omega
  · exact .inl moving

end Tracking

end Mevent
