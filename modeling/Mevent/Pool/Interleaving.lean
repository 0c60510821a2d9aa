import Mevent.Pool.Threads

/-!
# The two lists under interleaving

The lists stay apart as long as each `ActiveListErase` finds its connection on the
active list.  `Loop` calls `ActiveListUpdate` without the connection's lock, so another
thread can take the connection off the list before either half of it.
-/

namespace Mevent.Pool

open Library

namespace Threads

/-- A thread has put `conn` on the free list and is about to erase it from the active
list. -/
def Erasing (threads : Threads) (conn : ConnId) : Prop :=
  ∃ thread resets, threads.sections thread = some ⟨conn, .erasing resets⟩

/-- No thread is inside `ActiveListUpdate`, or inside `ResetConnection` behind
`FreeListPush`. -/
def BetweenOperations (threads : Threads) : Prop :=
  (∀ conn, ¬ threads.Erasing conn) ∧ ∀ conn, threads.loop ≠ .moving conn

/-- No connection is on both lists or twice on one, and every connection with an open
descriptor that `Accept` has published is on the active list. -/
def ListsApart (threads : Threads) : Prop :=
  ∃ free active : List ConnId, threads.pool.FreeList free ∧ threads.pool.ActiveList active ∧
    free.Nodup ∧ active.Nodup ∧ (∀ conn ∈ free, conn ∉ active) ∧
      ∀ conn, threads.published conn = true → 0 ≤ threads.fd conn → conn ∈ active

/-- `ActiveListUpdate` begins on a connection that no other thread has reset since
`Poll` reported it, or whose reset has not come to `ActiveListErase` yet; no other thread
erases it between the two halves; and no `on_close_func_` that `ResetConnection` calls
resets the connection again. -/
def Undisturbed (threads : Threads) : Action → Prop
  | .updateErase conn => threads.published conn = true ∨ threads.Erasing conn
  | .unlist _ conn _ => threads.loop ≠ .moving conn
  | .resetConnection _ _ resets => resets = 0
  | _ => True

/-- What a thread may be doing under a connection's lock. -/
def Fits (threads : Threads) (thread : Thread) (conn : ConnId) : Phase → Prop
  | .installing =>
      thread = .loop ∧ threads.published conn = false ∧ conn < threads.pool.count
  | .running resets => resets = 0 ∨ resets = 1 ∧ threads.published conn = true
  | .erasing resets => resets = 0 ∧ threads.published conn = false

/-- One thread at a time holds a connection's lock. -/
structure Locked (threads : Threads) : Prop where
  exclusive : ∀ thread other conn phase different, threads.sections thread = some ⟨conn, phase⟩ →
    threads.sections other = some ⟨conn, different⟩ → thread = other
  fits : ∀ thread conn phase, threads.sections thread = some ⟨conn, phase⟩ →
    threads.Fits thread conn phase

/-- Which connections are on the two lists. -/
structure Accounted (threads : Threads) (free active : List ConnId) : Prop where
  freeList : threads.pool.FreeList free
  nodup : free.Nodup
  activeList : threads.pool.ActiveList active
  listed : ∀ conn, conn ∈ active ↔
    (threads.published conn = true ∨ threads.Erasing conn) ∧ threads.loop ≠ .moving conn
  moving : ∀ conn, threads.loop = .moving conn →
    threads.published conn = true ∨ threads.Erasing conn
  unpublished : ∀ conn ∈ free, threads.published conn = false
  created : ∀ conn, threads.published conn = true ∨ conn ∈ free → conn < threads.pool.count
  popped : ∀ conn clifd, threads.loop = .popped conn clifd →
    conn ∉ free ∧ threads.published conn = false ∧ conn < threads.pool.count
  installed : ∀ conn, threads.sections .loop = some ⟨conn, .installing⟩ → conn ∉ free
  opened : ∀ conn, 0 < threads.fd conn →
    threads.published conn = true ∨ threads.sections .loop = some ⟨conn, .installing⟩

section Locked

variable {threads later : Threads} {thread : Thread} {conn : ConnId}

theorem mem_all (thread : Thread) : thread ∈ Thread.all := by
  cases thread <;> simp [Thread.all]

theorem Unlocked.apart (unlocked : threads.Unlocked conn) {other : ConnId} {phase : Phase}
    (held : threads.sections thread = some ⟨other, phase⟩) : other ≠ conn := by
  intro same
  exact unlocked thread (mem_all thread) (by simp [held, same])

theorem Locked.apart (locked : threads.Locked) {phase : Phase}
    (held : threads.sections thread = some ⟨conn, phase⟩) {other : Thread} {others : ConnId}
    {different : Phase} (another : other ≠ thread)
    (also : threads.sections other = some ⟨others, different⟩) : others ≠ conn := by
  rintro rfl
  exact another (locked.exclusive other thread others different phase also held)

theorem Fits.congr {phase : Phase} (fits : threads.Fits thread conn phase)
    (published : later.published conn = threads.published conn)
    (count : threads.pool.count ≤ later.pool.count) : later.Fits thread conn phase := by
  cases phase with
  | installing =>
      obtain ⟨loop, unpublished, created⟩ := fits
      exact ⟨loop, published.trans unpublished, Nat.lt_of_lt_of_le created count⟩
  | running resets => exact fits.imp_right fun entered => ⟨entered.1, published.trans entered.2⟩
  | erasing resets => exact ⟨fits.1, published.trans fits.2⟩

theorem Locked.change (conn : ConnId) (phase : Option Phase) (locked : threads.Locked)
    (alone : ∀ other others different, other ≠ thread →
      threads.sections other = some ⟨others, different⟩ → others ≠ conn)
    (sections : later.sections =
      Function.update threads.sections thread (phase.map (Section.mk conn)))
    (published : ∀ other, other ≠ conn → later.published other = threads.published other)
    (count : threads.pool.count ≤ later.pool.count)
    (fits : ∀ entered, phase = some entered → later.Fits thread conn entered) :
    later.Locked := by
  have own : ∀ other entered, later.sections thread = some ⟨other, entered⟩ →
      other = conn ∧ phase = some entered := by
    intro other entered held
    rw [sections, Function.update_self] at held
    obtain ⟨held_phase, same, made⟩ := Option.map_eq_some_iff.mp held
    cases made
    exact ⟨rfl, same⟩
  have kept : ∀ other, other ≠ thread → later.sections other = threads.sections other := by
    intro other different
    rw [sections, Function.update_of_ne different]
  constructor
  · intro first second held entered different at_first at_second
    by_cases first_own : first = thread <;> by_cases second_own : second = thread
    · exact first_own.trans second_own.symm
    · subst first_own
      rw [kept second second_own] at at_second
      have apart := alone second held different second_own at_second
      exact (apart (own held entered at_first).1).elim
    · subst second_own
      rw [kept first first_own] at at_first
      exact ((alone first held entered first_own at_first) (own held different at_second).1).elim
    · rw [kept first first_own] at at_first
      rw [kept second second_own] at at_second
      exact locked.exclusive first second held entered different at_first at_second
  · intro other held entered at_other
    by_cases other_own : other = thread
    · subst other_own
      obtain ⟨same, entry⟩ := own held entered at_other
      subst same
      exact fits entered entry
    · rw [kept other other_own] at at_other
      have apart := alone other held entered other_own at_other
      exact (locked.fits other held entered at_other).congr (published held apart) count

theorem Locked.frame (locked : threads.Locked) (sections : later.sections = threads.sections)
    (published : later.published = threads.published)
    (count : threads.pool.count ≤ later.pool.count) : later.Locked where
  exclusive := by
    rw [sections]
    exact locked.exclusive
  fits other held phase at_other := by
    rw [sections] at at_other
    exact (locked.fits other held phase at_other).congr (congrFun published held) count

end Locked

section Accounted

variable {threads later : Threads} {thread : Thread} {conn : ConnId}
  {free active : List ConnId}

theorem Accounted.frame (accounted : threads.Accounted free active)
    (freeList : later.pool.FreeList free)
    (activeLinks : later.pool.activeLinks = threads.pool.activeLinks)
    (count : threads.pool.count = later.pool.count)
    (published : later.published = threads.published) (fd : later.fd = threads.fd)
    (erasing : ∀ conn, later.Erasing conn ↔ threads.Erasing conn)
    (moving : ∀ conn, later.loop = .moving conn ↔ threads.loop = .moving conn)
    (popped : ∀ conn clifd, later.loop = .popped conn clifd →
      threads.loop = .popped conn clifd)
    (installing : ∀ conn, later.sections .loop = some ⟨conn, .installing⟩ ↔
      threads.sections .loop = some ⟨conn, .installing⟩) :
    later.Accounted free active where
  freeList := freeList
  nodup := accounted.nodup
  activeList := by
    have active_links : threads.pool.activeLinks.Represents active := accounted.activeList
    rw [← activeLinks] at active_links
    exact active_links
  listed conn := by
    simpa only [published, erasing, ne_eq, moving] using accounted.listed conn
  moving conn at_conn := by
    simpa only [published, erasing] using accounted.moving conn ((moving conn).mp at_conn)
  unpublished := by simpa only [published] using accounted.unpublished
  created := by simpa only [published, ← count] using accounted.created
  popped conn clifd at_conn := by
    simpa only [published, ← count] using
      accounted.popped conn clifd (popped conn clifd at_conn)
  installed conn held := accounted.installed conn ((installing conn).mp held)
  opened := by simpa only [published, fd, installing] using accounted.opened

/-- A change of one thread's section from and to a phase other than `erasing`. -/
theorem erasing_update {phase : Option Section}
    (before : ∀ conn resets, threads.sections thread ≠ some ⟨conn, .erasing resets⟩)
    (behind : ∀ conn resets, phase ≠ some ⟨conn, .erasing resets⟩)
    (sections : later.sections = Function.update threads.sections thread phase) :
    later.Erasing conn ↔ threads.Erasing conn := by
  unfold Erasing
  constructor
  · rintro ⟨other, resets, held⟩
    by_cases own : other = thread
    · subst own
      rw [sections, Function.update_self] at held
      exact (behind conn resets held).elim
    · rw [sections, Function.update_of_ne own] at held
      exact ⟨other, resets, held⟩
  · rintro ⟨other, resets, held⟩
    by_cases own : other = thread
    · subst own
      exact (before conn resets held).elim
    · refine ⟨other, resets, ?_⟩
      rw [sections, Function.update_of_ne own]
      exact held

/-- A change of one thread's section from and to a phase other than `installing`. -/
theorem installing_update {phase : Option Section}
    (before : ∀ conn, threads.sections thread ≠ some ⟨conn, .installing⟩)
    (behind : ∀ conn, phase ≠ some ⟨conn, .installing⟩)
    (sections : later.sections = Function.update threads.sections thread phase) :
    later.sections .loop = some ⟨conn, .installing⟩ ↔
      threads.sections .loop = some ⟨conn, .installing⟩ := by
  by_cases own : Thread.loop = thread
  · subst own
    rw [sections, Function.update_self]
    exact iff_of_false (behind conn) (before conn)
  · rw [sections, Function.update_of_ne own]

/-- A thread has put `conn` on the free list. -/
theorem erasing_release {resets : Nat}
    (held : threads.sections thread = some ⟨conn, .running (resets + 1)⟩)
    (sections : later.sections =
      Function.update threads.sections thread (some ⟨conn, .erasing resets⟩))
    {other : ConnId} : later.Erasing other ↔ other = conn ∨ threads.Erasing other := by
  constructor
  · rintro ⟨another, count, erasing⟩
    rw [sections] at erasing
    by_cases own : another = thread
    · subst own
      have same : conn = other ∧ resets = count := by simpa using erasing
      exact .inl same.1.symm
    · exact .inr ⟨another, count, by simpa [own] using erasing⟩
  · rintro (same | ⟨another, count, erasing⟩)
    · exact ⟨thread, resets, by simp [sections, same]⟩
    · have own : another ≠ thread := by
        rintro rfl
        simp [held] at erasing
      exact ⟨another, count, by simpa [sections, own] using erasing⟩

/-- A thread has erased `conn` from the active list. -/
theorem erasing_unlist {resets : Nat} (locked : threads.Locked)
    (held : threads.sections thread = some ⟨conn, .erasing resets⟩)
    (sections : later.sections =
      Function.update threads.sections thread (some ⟨conn, .running resets⟩))
    {other : ConnId} : later.Erasing other ↔ threads.Erasing other ∧ other ≠ conn := by
  constructor
  · rintro ⟨another, count, erasing⟩
    rw [sections] at erasing
    have own : another ≠ thread := by
      rintro rfl
      simp at erasing
    have also : threads.sections another = some ⟨other, .erasing count⟩ := by
      simpa [own] using erasing
    exact ⟨⟨another, count, also⟩, locked.apart held own also⟩
  · rintro ⟨⟨another, count, erasing⟩, apart⟩
    have own : another ≠ thread := by
      rintro rfl
      have same := Option.some.inj (held.symm.trans erasing)
      cases same
      exact apart rfl
    exact ⟨another, count, by simpa [sections, own] using erasing⟩

end Accounted

section Sound

variable {threads later : Threads} {thread : Thread} {conn : ConnId}

/-- The locks and the lists are in order. -/
structure Sound (threads : Threads) : Prop where
  locked : threads.Locked
  accounted : ∃ free active, threads.Accounted free active

/-- A step of the loop thread or of `CheckConnectionTimeout` that neither locks a
connection nor moves one. -/
theorem Sound.wander (sound : threads.Sound) {point : LoopPoint} {batch : List Event}
    {found cursor : Option ConnId}
    (moving : ∀ conn, point = .moving conn ↔ threads.loop = .moving conn)
    (popped : ∀ conn clifd, point = .popped conn clifd → threads.loop = .popped conn clifd) :
    Sound { threads with
      pool := { threads.pool with activeListLookupCursor := cursor }
      batch := batch
      loop := point
      found := found } where
  locked := sound.locked.frame rfl rfl (Nat.le_refl _)
  accounted := by
    obtain ⟨free, active, accounted⟩ := sound.accounted
    exact ⟨free, active, accounted.frame accounted.freeList rfl rfl rfl rfl (fun _ => Iff.rfl)
      moving popped (fun _ => Iff.rfl)⟩

/-- A thread takes a lock, calls `ResetConnection` or releases the lock. -/
theorem Sound.run (sound : threads.Sound) {point : LoopPoint} {batch : List Event}
    (resets : Option Nat)
    (moving : ∀ conn, point = .moving conn ↔ threads.loop = .moving conn)
    (popped : ∀ conn clifd, point = .popped conn clifd → threads.loop = .popped conn clifd)
    (before : ∀ other phase, threads.sections thread = some ⟨other, phase⟩ →
      ∃ resets, phase = .running resets)
    (alone : ∀ other others different, other ≠ thread →
      threads.sections other = some ⟨others, different⟩ → others ≠ conn)
    (fits : ∀ count, resets = some count → threads.Fits thread conn (.running count)) :
    Sound { threads with
      batch := batch
      loop := point
      sections := Function.update threads.sections thread
        ((resets.map Phase.running).map (Section.mk conn)) } where
  locked := by
    refine sound.locked.change conn (resets.map Phase.running) alone rfl (fun _ _ => rfl)
      (Nat.le_refl _) ?_
    intro entered running
    obtain ⟨count, some_count, same⟩ := Option.map_eq_some_iff.mp running
    subst same
    exact fits count some_count
  accounted := by
    obtain ⟨free, active, accounted⟩ := sound.accounted
    have not_erasing : ∀ conn resets, threads.sections thread ≠ some ⟨conn, .erasing resets⟩ := by
      intro other count held
      obtain ⟨_, same⟩ := before other _ held
      cases same
    refine ⟨free, active, accounted.frame accounted.freeList rfl rfl rfl rfl ?_ moving popped ?_⟩
    · intro other
      refine erasing_update not_erasing ?_ rfl
      intro other count
      cases resets <;> simp
    · intro other
      refine installing_update ?_ ?_ rfl
      · intro other held
        obtain ⟨_, same⟩ := before other _ held
        cases same
      · intro other
        cases resets <;> simp

theorem Sound.accept (sound : threads.Sound) (at_loop : threads.LoopAt .accepting)
    (clifd : Int) :
    Sound (match threads.pool.freeListPop with
        | (none, pool) => { threads with pool := pool, loop := .between }
        | (some conn, pool) => { threads with pool := pool, loop := .popped conn clifd }) := by
  obtain ⟨free, active, accounted⟩ := sound.accounted
  have settled : ∀ conn, threads.loop ≠ .moving conn := by
    intro conn
    simp [at_loop.1]
  rcases ConnectionPool.freeListPop_cases accounted.freeList with
    ⟨conn, rest, split, same, free_rest⟩ | ⟨empty, same | same⟩
  · rw [same] at free_rest ⊢
    subst split
    obtain ⟨outside, nodup⟩ := List.nodup_cons.mp accounted.nodup
    refine ⟨sound.locked.frame rfl rfl (Nat.le_refl _), rest, active, ?_⟩
    exact {
      freeList := free_rest
      nodup := nodup
      activeList := accounted.activeList
      listed := by
        intro other
        have listed := accounted.listed other
        simp only [ne_eq, settled other, not_false_eq_true, and_true] at listed
        simpa [Erasing] using listed
      moving := by simp
      unpublished := fun other inside => accounted.unpublished other (by simp [inside])
      created :=
        fun other tracked => accounted.created other (tracked.imp_right (by simp +contextual))
      popped := by
        rintro _ _ ⟨⟩
        exact ⟨outside, accounted.unpublished conn (by simp), accounted.created conn (by simp)⟩
      installed := fun other held inside => accounted.installed other held (by simp [inside])
      opened := accounted.opened }
  · rw [same]
    exact sound.wander (by simp [settled]) (by simp)
  · rw [same]
    subst empty
    have fresh : threads.published threads.pool.count = false := by
      by_contra published
      exact absurd (accounted.created _ (.inl (by simpa using published))) (Nat.lt_irrefl _)
    refine ⟨sound.locked.frame rfl rfl (Nat.le_succ _), [], active, ?_⟩
    exact {
      freeList := accounted.freeList
      nodup := List.nodup_nil
      activeList := accounted.activeList
      listed := by
        intro other
        have listed := accounted.listed other
        simp only [ne_eq, settled other, not_false_eq_true, and_true] at listed
        simpa [Erasing] using listed
      moving := by simp
      unpublished := by simp
      created := fun other tracked => Nat.lt_succ_of_lt (accounted.created other tracked)
      popped := by
        rintro _ _ ⟨⟩
        exact ⟨by simp, fresh, Nat.lt_succ_self _⟩
      installed := by simp
      opened := accounted.opened }

theorem Locked.not_erasing (locked : threads.Locked) {phase : Phase}
    (held : threads.sections thread = some ⟨conn, phase⟩)
    (other_phase : ∀ resets, phase ≠ .erasing resets) : ¬ threads.Erasing conn := by
  rintro ⟨other, resets, erasing⟩
  have same := locked.exclusive thread other conn _ _ held erasing
  subst same
  have phases := Option.some.inj (held.symm.trans erasing)
  cases phases
  exact other_phase resets rfl

theorem Sound.install (sound : threads.Sound) {clifd : Int}
    (at_loop : threads.LoopAt (.popped conn clifd)) (unlocked : threads.Unlocked conn) :
    Sound { threads.enter .loop conn .installing with
      fd := Function.update threads.fd conn clifd
      loop := .accepting } where
  locked := by
    obtain ⟨free, active, accounted⟩ := sound.accounted
    obtain ⟨-, unpublished, created⟩ := accounted.popped conn clifd at_loop.1
    refine sound.locked.change conn (some .installing) ?_ rfl (fun _ _ => rfl) (Nat.le_refl _) ?_
    · intro other others different _ held
      exact unlocked.apart held
    · rintro _ ⟨⟩
      exact ⟨rfl, unpublished, created⟩
  accounted := by
    obtain ⟨free, active, accounted⟩ := sound.accounted
    obtain ⟨outside, unpublished, created⟩ := accounted.popped conn clifd at_loop.1
    have erasing : ∀ other, Threads.Erasing { threads.enter .loop conn .installing with
        fd := Function.update threads.fd conn clifd
        loop := .accepting } other ↔ threads.Erasing other :=
      fun other => erasing_update (by simp [at_loop.2]) (by simp) rfl
    refine ⟨free, active, ?_⟩
    exact {
      freeList := accounted.freeList
      nodup := accounted.nodup
      activeList := accounted.activeList
      listed := by
        intro other
        rw [erasing]
        simpa [at_loop.1] using accounted.listed other
      moving := by simp
      unpublished := accounted.unpublished
      created := accounted.created
      popped := by simp
      installed := by
        intro other held
        have same : conn = other := by simpa using held
        exact same ▸ outside
      opened := by
        intro other open_fd
        by_cases same : other = conn
        · subst same
          exact .inr (by simp)
        · simp only [Function.update_of_ne same] at open_fd
          rcases accounted.opened other open_fd with published | installing
          · exact .inl published
          · simp [at_loop.2] at installing }

theorem Sound.publish (sound : threads.Sound) (settled : threads.loop = .accepting)
    (held : threads.sections .loop = some ⟨conn, .installing⟩) :
    Sound { threads.leave .loop with
      pool := threads.pool.activeListPush conn
      published := Function.update threads.published conn true } where
  locked := by
    refine sound.locked.change conn none ?_ rfl ?_ (by simp) (by simp)
    · intro other others different another also
      exact sound.locked.apart held another also
    · intro other different
      exact Function.update_of_ne different _ _
  accounted := by
    obtain ⟨free, active, accounted⟩ := sound.accounted
    obtain ⟨-, unpublished, created⟩ := sound.locked.fits _ _ _ held
    have unerased := sound.locked.not_erasing held (by simp)
    have unlisted : conn ∉ active := by
      intro inside
      rcases ((accounted.listed conn).mp inside).1 with published | erasing
      · exact absurd (published.symm.trans unpublished) (by simp)
      · exact unerased erasing
    have erasing : ∀ other, Threads.Erasing { threads.leave .loop with
        pool := threads.pool.activeListPush conn
        published := Function.update threads.published conn true } other ↔
          threads.Erasing other :=
      fun other => erasing_update (by simp [held]) (by simp) rfl
    refine ⟨free, active ++ [conn], ?_⟩
    exact {
      freeList := by simpa using accounted.freeList
      nodup := accounted.nodup
      activeList := ConnectionPool.activeList_push accounted.activeList unlisted
      listed := by
        intro other
        rw [erasing]
        have listed := accounted.listed other
        by_cases same : other = conn
        · subst same
          simp [settled]
        · simpa [same, settled] using listed
      moving := by simp [settled]
      unpublished := by
        intro other inside
        have different : other ≠ conn := by
          rintro rfl
          exact accounted.installed other held inside
        simpa [different] using accounted.unpublished other inside
      created := by
        intro other tracked
        by_cases same : other = conn
        · subst same
          simpa using created
        · simpa using accounted.created other (by simpa [same] using tracked)
      popped := by simp [settled]
      installed := by simp
      opened := by
        intro other open_fd
        by_cases same : other = conn
        · subst same
          exact .inl (by simp)
        · rcases accounted.opened other open_fd with published | installing
          · exact .inl (by simpa [same] using published)
          · exact (same (by simpa [held] using installing.symm)).elim }

theorem resetFd_nonpos (fd : Int) : ¬ 0 < resetFd fd := by
  unfold resetFd
  split
  · decide
  · assumption

theorem Sound.refuse (sound : threads.Sound) (settled : threads.loop = .accepting)
    (held : threads.sections .loop = some ⟨conn, .installing⟩) :
    Sound { threads.leave .loop with
      pool := threads.pool.freeListPush conn
      fd := Function.update threads.fd conn (resetFd (threads.fd conn)) } where
  locked := by
    refine sound.locked.change conn none ?_ rfl (fun _ _ => rfl) (Nat.le_refl _) (by simp)
    intro other others different another also
    exact sound.locked.apart held another also
  accounted := by
    obtain ⟨free, active, accounted⟩ := sound.accounted
    obtain ⟨-, unpublished, created⟩ := sound.locked.fits _ _ _ held
    have outside := accounted.installed conn held
    have erasing : ∀ other, Threads.Erasing { threads.leave .loop with
        pool := threads.pool.freeListPush conn
        fd := Function.update threads.fd conn (resetFd (threads.fd conn)) } other ↔
          threads.Erasing other :=
      fun other => erasing_update (by simp [held]) (by simp) rfl
    refine ⟨conn :: free, active, ?_⟩
    exact {
      freeList := ConnectionPool.freeList_push accounted.freeList outside
      nodup := List.nodup_cons.mpr ⟨outside, accounted.nodup⟩
      activeList := accounted.activeList
      listed := by
        intro other
        rw [erasing]
        exact accounted.listed other
      moving := by simp [settled]
      unpublished := by
        intro other inside
        rcases List.mem_cons.mp inside with same | earlier
        · exact same ▸ unpublished
        · exact accounted.unpublished other earlier
      created := by
        intro other tracked
        rcases tracked with published | inside
        · exact accounted.created other (.inl published)
        · rcases List.mem_cons.mp inside with same | earlier
          · exact same ▸ created
          · exact accounted.created other (.inr earlier)
      popped := by simp [settled]
      installed := by simp
      opened := by
        intro other open_fd
        by_cases same : other = conn
        · subst same
          simp only [Function.update_self] at open_fd
          exact (resetFd_nonpos _ open_fd).elim
        · simp only [Function.update_of_ne same] at open_fd
          rcases accounted.opened other open_fd with published | installing
          · exact .inl published
          · exact (same (by simpa [held] using installing.symm)).elim }

/-- The first half of `ActiveListUpdate`. -/
theorem Sound.updateErase (sound : threads.Sound) (at_loop : threads.LoopAt .between)
    (tracked : threads.published conn = true ∨ threads.Erasing conn) {batch : List Event} :
    Sound { threads with
      pool := threads.pool.activeListErase conn
      batch := batch
      loop := .moving conn } where
  locked := sound.locked.frame rfl rfl (by simp)
  accounted := by
    obtain ⟨free, active, accounted⟩ := sound.accounted
    have inside := (accounted.listed conn).mpr ⟨tracked, by simp [at_loop.1]⟩
    obtain ⟨rest, erased, remaining⟩ :=
      ConnectionPool.activeList_erase_of_mem accounted.activeList inside
    refine ⟨free, rest, ?_⟩
    exact {
      freeList := by simpa using accounted.freeList
      nodup := accounted.nodup
      activeList := erased
      listed := by
        intro other
        have apart : conn ≠ other ↔ other ≠ conn := ne_comm
        rw [remaining, accounted.listed]
        simp [at_loop.1, Erasing, apart]
      moving := by
        rintro other ⟨⟩
        exact tracked
      unpublished := accounted.unpublished
      created := by simpa using accounted.created
      popped := by simp
      installed := accounted.installed
      opened := accounted.opened }

/-- The second half of `ActiveListUpdate`. -/
theorem Sound.updatePush (sound : threads.Sound) (at_loop : threads.LoopAt (.moving conn)) :
    Sound { threads with pool := threads.pool.activeListPush conn, loop := .moved conn } where
  locked := sound.locked.frame rfl rfl (by simp)
  accounted := by
    obtain ⟨free, active, accounted⟩ := sound.accounted
    have unlisted : conn ∉ active := fun inside =>
      ((accounted.listed conn).mp inside).2 at_loop.1
    refine ⟨free, active ++ [conn], ?_⟩
    exact {
      freeList := by simpa using accounted.freeList
      nodup := accounted.nodup
      activeList := ConnectionPool.activeList_push accounted.activeList unlisted
      listed := by
        intro other
        have listed := accounted.listed other
        by_cases same : other = conn
        · subst same
          simpa [Erasing] using accounted.moving other at_loop.1
        · have different : conn ≠ other := fun same' => same same'.symm
          simpa [same, different, at_loop.1, Erasing] using listed
      moving := by simp
      unpublished := accounted.unpublished
      created := by simpa using accounted.created
      popped := by simp
      installed := accounted.installed
      opened := accounted.opened }

/-- `ResetConnection` up to `FreeListPush`. -/
theorem Sound.release (sound : threads.Sound) {resets : Nat}
    (held : threads.sections thread = some ⟨conn, .running (resets + 1)⟩) :
    Sound { threads.enter thread conn (.erasing resets) with
      pool := threads.pool.freeListPush conn
      fd := Function.update threads.fd conn (resetFd (threads.fd conn))
      published := Function.update threads.published conn false } where
  locked := by
    refine sound.locked.change conn (some (.erasing resets)) ?_ rfl ?_ (Nat.le_refl _) ?_
    · intro other others different another also
      exact sound.locked.apart held another also
    · intro other different
      exact Function.update_of_ne different _ _
    · rintro _ ⟨⟩
      have fits := sound.locked.fits _ _ _ held
      refine ⟨?_, Function.update_self _ _ _⟩
      rcases fits with none_left | one_left
      · exact absurd none_left (Nat.succ_ne_zero resets)
      · exact Nat.succ.inj one_left.1
  accounted := by
    obtain ⟨free, active, accounted⟩ := sound.accounted
    have published : threads.published conn = true := by
      rcases sound.locked.fits _ _ _ held with none_left | one_left
      · exact absurd none_left (Nat.succ_ne_zero resets)
      · exact one_left.2
    have outside : conn ∉ free := by
      intro inside
      exact absurd (published.symm.trans (accounted.unpublished conn inside)) (by simp)
    have not_installing : ∀ other, threads.sections thread ≠ some ⟨other, .installing⟩ := by
      simp [held]
    refine ⟨conn :: free, active, ?_⟩
    exact {
      freeList := ConnectionPool.freeList_push accounted.freeList outside
      nodup := List.nodup_cons.mpr ⟨outside, accounted.nodup⟩
      activeList := accounted.activeList
      listed := by
        intro other
        rw [erasing_release held rfl]
        have listed := accounted.listed other
        by_cases same : other = conn
        · subst same
          simpa [published] using listed
        · simpa [same] using listed
      moving := by
        intro other at_loop
        rw [erasing_release held rfl]
        by_cases same : other = conn
        · exact .inr (.inl same)
        · simpa [same] using accounted.moving other at_loop
      unpublished := by
        intro other inside
        by_cases same : other = conn
        · subst same
          simp
        · simpa [same] using accounted.unpublished other (by simpa [same] using inside)
      created := by
        intro other tracked
        by_cases same : other = conn
        · subst same
          exact accounted.created other (.inl published)
        · exact accounted.created other (by simpa [same] using tracked)
      popped := by
        intro other clifd at_loop
        have popped := accounted.popped other clifd at_loop
        have different : other ≠ conn := by
          rintro rfl
          exact absurd (published.symm.trans popped.2.1) (by simp)
        simpa [different] using popped
      installed := by
        intro other installing
        have before := (installing_update not_installing (by simp) rfl).mp installing
        have apart : other ≠ conn := by
          rintro rfl
          have unpublished := (sound.locked.fits _ _ _ before).2.1
          exact absurd (published.symm.trans unpublished) (by simp)
        simpa [apart] using accounted.installed other before
      opened := by
        intro other open_fd
        by_cases same : other = conn
        · subst same
          simp only [Function.update_self] at open_fd
          exact (resetFd_nonpos _ open_fd).elim
        · simp only [Function.update_of_ne same] at open_fd ⊢
          refine (accounted.opened other open_fd).imp_right ?_
          exact (installing_update not_installing (by simp) rfl).mpr }

/-- The rest of `ResetConnection`. -/
theorem Sound.unlist (sound : threads.Sound) {resets : Nat}
    (held : threads.sections thread = some ⟨conn, .erasing resets⟩)
    (still : threads.loop ≠ .moving conn) :
    Sound { threads.enter thread conn (.running resets) with
      pool := threads.pool.activeListErase conn } where
  locked := by
    refine sound.locked.change conn (some (.running resets)) ?_ rfl (fun _ _ => rfl) (by simp) ?_
    · intro other others different another also
      exact sound.locked.apart held another also
    · rintro _ ⟨⟩
      exact .inl (sound.locked.fits _ _ _ held).1
  accounted := by
    obtain ⟨free, active, accounted⟩ := sound.accounted
    have unpublished : threads.published conn = false := (sound.locked.fits _ _ _ held).2
    have inside := (accounted.listed conn).mpr ⟨.inr ⟨thread, resets, held⟩, still⟩
    obtain ⟨rest, erased, remaining⟩ :=
      ConnectionPool.activeList_erase_of_mem accounted.activeList inside
    have not_installing : ∀ other, threads.sections thread ≠ some ⟨other, .installing⟩ := by
      simp [held]
    refine ⟨free, rest, ?_⟩
    exact {
      freeList := by simpa using accounted.freeList
      nodup := accounted.nodup
      activeList := erased
      listed := by
        intro other
        rw [erasing_unlist sound.locked held rfl, remaining, accounted.listed]
        by_cases same : other = conn
        · subst same
          simp [unpublished]
        · simp [same]
      moving := by
        intro other at_loop
        rw [erasing_unlist sound.locked held rfl]
        have different : other ≠ conn := by
          rintro rfl
          exact still at_loop
        exact (accounted.moving other at_loop).imp_right fun erasing => ⟨erasing, different⟩
      unpublished := accounted.unpublished
      created := by simpa using accounted.created
      popped := by simpa using accounted.popped
      installed := by
        intro other installing
        exact accounted.installed other
          ((installing_update not_installing (by simp) rfl).mp installing)
      opened := by
        intro other open_fd
        refine (accounted.opened other open_fd).imp_right ?_
        exact (installing_update not_installing (by simp) rfl).mpr }

theorem Sound.initial (maxConn : Nat) : (Threads.initial maxConn).Sound where
  locked := ⟨by simp [Threads.initial], by simp [Threads.initial]⟩
  accounted := by
    refine ⟨[], [], ConnectionPool.freeList_new maxConn, List.nodup_nil,
      ConnectionPool.activeList_new maxConn, ?_, ?_, ?_, ?_, ?_, ?_, ?_⟩ <;>
        simp [Threads.initial, Erasing]

/-- The loop thread keeps the lists in order. -/
theorem Sound.stepLoop (sound : threads.Sound) {action : Action}
    (undisturbed : threads.Undisturbed action)
    (stepped : threads.stepLoop action = some later) : later.Sound := by
  cases action <;>
    simp only [Threads.stepLoop, Option.ite_none_right_eq_some, Option.some.injEq,
      reduceCtorEq] at stepped
  case poll events =>
    obtain ⟨-, rfl⟩ := stepped
    exact sound.wander (fun _ => Iff.rfl) (fun _ _ => id)
  case beginAccept =>
    obtain ⟨⟨at_loop, -⟩, rfl⟩ := stepped
    exact sound.wander (by simp [at_loop.1]) (by simp)
  case accepted clifd =>
    obtain ⟨⟨at_loop, -⟩, rfl⟩ := stepped
    exact sound.accept at_loop clifd
  case wouldBlock =>
    obtain ⟨at_loop, rfl⟩ := stepped
    exact sound.wander (by simp [at_loop.1]) (by simp)
  case install conn clifd =>
    obtain ⟨⟨at_loop, unlocked⟩, rfl⟩ := stepped
    exact sound.install at_loop unlocked
  case publish conn =>
    obtain ⟨⟨settled, held⟩, rfl⟩ := stepped
    exact sound.publish settled held
  case refuse conn =>
    obtain ⟨⟨settled, held⟩, rfl⟩ := stepped
    exact sound.refuse settled held
  case updateErase conn =>
    obtain ⟨⟨at_loop, -⟩, rfl⟩ := stepped
    exact sound.updateErase at_loop undisturbed
  case updatePush conn =>
    obtain ⟨at_loop, rfl⟩ := stepped
    exact sound.updatePush at_loop
  case lockToRead conn =>
    obtain ⟨⟨at_loop, unlocked⟩, rfl⟩ := stepped
    exact sound.run (some 0) (by simp [at_loop.1]) (by simp) (by simp [at_loop.2])
      (fun _ _ _ _ held => unlocked.apart held) (by rintro _ ⟨⟩; exact .inl rfl)
  case lockToWrite conn =>
    obtain ⟨⟨at_loop, -, unlocked⟩, rfl⟩ := stepped
    exact sound.run (some 0) (fun _ => Iff.rfl) (fun _ _ => id) (by simp [at_loop.2])
      (fun _ _ _ _ held => unlocked.apart held) (by rintro _ ⟨⟩; exact .inl rfl)

/-- So do the workers and `CheckConnectionTimeout`. -/
theorem Sound.stepOthers (sound : threads.Sound) {action : Action}
    (stepped : threads.stepOthers action = some later) : later.Sound := by
  cases action <;>
    simp only [Threads.stepOthers, Option.ite_none_right_eq_some, Option.some.injEq,
      reduceCtorEq] at stepped
  case lockToWork thread conn =>
    obtain ⟨⟨-, idle, unlocked⟩, rfl⟩ := stepped
    exact sound.run (some 0) (fun _ => Iff.rfl) (fun _ _ => id) (by simp [idle])
      (fun _ _ _ _ held => unlocked.apart held) (by rintro _ ⟨⟩; exact .inl rfl)
  case timeoutCheck =>
    obtain ⟨-, rfl⟩ := stepped
    exact sound.wander (fun _ => Iff.rfl) (fun _ _ => id)
  case checkNext =>
    obtain ⟨-, rfl⟩ := stepped
    exact sound.wander (fun _ => Iff.rfl) (fun _ _ => id)
  case lockToCheck conn =>
    obtain ⟨⟨idle, -, unlocked⟩, rfl⟩ := stepped
    exact sound.run (some 0) (fun _ => Iff.rfl) (fun _ _ => id) (by simp [idle])
      (fun _ _ _ _ held => unlocked.apart held) (by rintro _ ⟨⟩; exact .inl rfl)

/-- So does `ResetConnection`. -/
theorem Sound.stepReset (sound : threads.Sound) {action : Action}
    (undisturbed : threads.Undisturbed action)
    (stepped : threads.stepReset action = some later) : later.Sound := by
  cases action <;>
    simp only [Threads.stepReset, Option.ite_none_right_eq_some, Option.some.injEq,
      reduceCtorEq] at stepped
  case resetConnection thread conn resets =>
    obtain ⟨⟨held, opened⟩, rfl⟩ := stepped
    obtain ⟨free, active, accounted⟩ := sound.accounted
    have published : threads.published conn = true := by
      refine (accounted.opened conn opened).resolve_right ?_
      intro installing
      have same := sound.locked.exclusive _ _ conn _ _ held installing
      subst same
      exact absurd (held.symm.trans installing) (by simp)
    have first : resets = 0 := undisturbed
    subst first
    exact sound.run (some 1) (fun _ => Iff.rfl) (fun _ _ => id) (by simp [held])
      (fun _ _ _ another also => sound.locked.apart held another also)
      (by rintro _ ⟨⟩; exact .inr ⟨rfl, published⟩)
  case release thread conn resets =>
    obtain ⟨held, rfl⟩ := stepped
    exact sound.release held
  case unlist thread conn resets =>
    obtain ⟨held, rfl⟩ := stepped
    exact sound.unlist held undisturbed
  case unlock thread conn =>
    obtain ⟨held, rfl⟩ := stepped
    exact sound.run none (fun _ => Iff.rfl) (fun _ _ => id) (by simp [held])
      (fun _ _ _ another also => sound.locked.apart held another also) (by simp)

theorem Sound.step (sound : threads.Sound) {action : Action}
    (undisturbed : threads.Undisturbed action) (stepped : threads.step action = some later) :
    later.Sound := by
  rcases Option.or_eq_some_iff.mp stepped with loop | ⟨-, rest⟩
  · exact sound.stepLoop undisturbed loop
  · rcases Option.or_eq_some_iff.mp rest with others | ⟨-, reset⟩
    · exact sound.stepOthers others
    · exact sound.stepReset undisturbed reset

theorem Sound.listsApart (sound : threads.Sound) (between : threads.BetweenOperations) :
    threads.ListsApart := by
  obtain ⟨free, active, accounted⟩ := sound.accounted
  refine ⟨free, active, accounted.freeList, accounted.activeList, accounted.nodup,
    accounted.activeList.nodup, ?_, ?_⟩
  · intro conn on_free on_active
    rcases ((accounted.listed conn).mp on_active).1 with published | erasing
    · exact absurd (published.symm.trans (accounted.unpublished conn on_free)) (by simp)
    · exact between.1 conn erasing
  · intro conn published _
    exact (accounted.listed conn).mpr ⟨.inl published, between.2 conn⟩

end Sound

/-- As long as every step is undisturbed, the lists are apart between operations. -/
theorem listsApart_of_undisturbed {maxConn : Nat} {threads : Threads}
    (reached : Reaches step Undisturbed (initial maxConn) threads)
    (between : threads.BetweenOperations) : threads.ListsApart := by
  have sound : threads.Sound := by
    refine reached.invariant (Sound.initial maxConn) ?_
    intro state action later sound undisturbed stepped
    exact sound.step undisturbed stepped
  exact sound.listsApart between

/-- A client is accepted, sends, and is reset by the loop. -/
theorem listsApart_client :
    ∃ threads : Threads, Reaches step Undisturbed (initial 4) threads ∧
      threads.pool.freeListHead = some 0 ∧ threads.ListsApart := by
  have started : Reaches step Undisturbed (initial 4) (initial 4) := .refl
  have accepted := (((started.next (Action.poll [.listening]) trivial rfl).next
    Action.beginAccept trivial rfl).next (Action.accepted 5) trivial rfl).next
    (Action.install 0 5) trivial rfl
  have published := (accepted.next (Action.publish 0) trivial rfl).next
    Action.wouldBlock trivial rfl
  have moved := ((published.next (Action.poll [.readable 0]) trivial rfl).next
    (Action.updateErase 0) (.inl rfl) rfl).next (Action.updatePush 0) trivial rfl
  have erasing := ((moved.next (Action.lockToRead 0) trivial rfl).next
    (Action.resetConnection .loop 0 0) rfl rfl).next (Action.release .loop 0 0) trivial rfl
  have reset := (erasing.next (Action.unlist .loop 0 0) nofun rfl).next
    (Action.unlock .loop 0) trivial rfl
  refine ⟨_, reset, rfl, listsApart_of_undisturbed reset ⟨?_, nofun⟩⟩
  rintro conn ⟨thread, resets, held⟩
  cases thread <;> exact (Option.some_ne_none _ held.symm).elim

/-- The timeout thread resets the connection of an event that the loop has yet to
handle. -/
theorem not_listsApart_stale_event :
    ¬ ∀ (maxConn : Nat) (threads : Threads),
      Reaches step (fun _ _ => True) (initial maxConn) threads → threads.BetweenOperations →
        threads.ListsApart := by
  intro apart
  obtain ⟨last, ran, on_free, on_active, loop, unheld⟩ : ∃ last,
      replay step (fun _ _ => True) (initial 4)
        [.poll [.listening], .beginAccept, .accepted 5, .install 0 5, .publish 0, .wouldBlock,
          .poll [.readable 0], .timeoutCheck, .checkNext, .lockToCheck 0,
          .resetConnection .timeout 0 0, .release .timeout 0 0, .unlist .timeout 0 0,
          .unlock .timeout 0, .updateErase 0, .updatePush 0] = some last ∧
        last.pool.freeListHead = some 0 ∧ last.pool.activeListHead = some 0 ∧
        last.loop = .moved 0 ∧ ∀ thread, last.sections thread = none :=
    ⟨_, rfl, rfl, rfl, rfl, by intro thread; cases thread <;> rfl⟩
  have between : last.BetweenOperations := by
    refine ⟨?_, by simp [loop]⟩
    rintro conn ⟨thread, resets, held⟩
    simp [unheld] at held
  obtain ⟨free, active, freeList, activeList, -, -, disjoint, -⟩ :=
    apart 4 last (reaches_of_replay ran) between
  have free_head := (first_of_chain freeList).symm.trans on_free
  have active_head := activeList.head_eq.symm.trans on_active
  exact disjoint 0 (List.mem_of_mem_head? free_head) (List.mem_of_mem_head? active_head)

end Threads

end Mevent.Pool
