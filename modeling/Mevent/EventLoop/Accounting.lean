import Mevent.EventLoop.Accept
import Mevent.Pool.Capacity

/-!
# What `Accept` leaves behind

Every connection is on one of the two lists, and the sockets of those on the active list are
open.  A socket is left open elsewhere only if it is refused at the descriptor 0, which
`Connection::Reset` does not close.
-/

namespace Mevent

open Library

namespace Accepting

/-- The lists of a pool that is in use, in any numbers. -/
structure Sound (accepting : Accepting) (free active : List ConnId) : Prop where
  freeList : accepting.pool.FreeList free
  activeList : accepting.pool.ActiveList active
  nodup : free.Nodup
  apart : ∀ conn ∈ free, conn ∉ active
  created : ∀ conn, conn ∈ free ∨ conn ∈ active → conn < accepting.pool.count
  popped : ∀ conn ∈ accepting.popped, conn ∈ free ∨ conn ∈ active
  opened : ∀ conn ∈ active, ∃ socket, accepting.sockets.file (accepting.fd conn) = some socket
  differ : ∀ conn ∈ active, ∀ other ∈ active,
    accepting.fd conn = accepting.fd other → conn = other
  listed : ∀ conn, 0 < accepting.fd conn → conn ∈ active

/-- What a `FreeListPop` that returns `conn` leaves. -/
structure Popped (accepting : Accepting) (free active : List ConnId) (conn : ConnId)
    (pool : ConnectionPool) (fewer : List ConnId) : Prop where
  freeList : pool.FreeList fewer
  activeList : pool.ActiveList active
  nodup : (conn :: fewer).Nodup
  apart : ∀ other ∈ conn :: fewer, other ∉ active
  created : ∀ other, other ∈ conn :: fewer ∨ other ∈ active → other < pool.count
  popped : ∀ other ∈ conn :: accepting.popped, other ∈ conn :: fewer ∨ other ∈ active
  room : room pool fewer + 1 = room accepting.pool free

variable {config : Config} {accepting : Accepting} {free active fewer : List ConnId}
  {arrival : Arrival} {conn : ConnId} {pool : ConnectionPool}

/-! ### `FreeListPop` -/

/-- `FreeListPop` returns `NULL` just when there is no room. -/
theorem Sound.pop_cases (sound : accepting.Sound free active) :
    (accepting.pool.freeListPop = (none, accepting.pool) ∧ room accepting.pool free = 0) ∨
    ∃ conn pool fewer, accepting.pool.freeListPop = (some conn, pool) ∧
      accepting.Popped free active conn pool fewer := by
  cases free with
  | cons conn fewer =>
      right
      rcases ConnectionPool.freeListPop_cases sound.freeList with
        ⟨first, rest, same, taken, remaining⟩ | ⟨none, -⟩
      · cases same
        refine ⟨conn, _, fewer, taken, ?_⟩
        rw [taken] at remaining
        exact {
          freeList := remaining
          activeList := sound.activeList
          nodup := sound.nodup
          apart := sound.apart
          created := sound.created
          popped := by
            intro other inside
            rcases List.mem_cons.mp inside with rfl | before
            · exact .inl List.mem_cons_self
            · exact sound.popped other before
          room := by
            simp only [room, List.length_cons]
            omega }
      · cases none
  | nil =>
      have taken := ConnectionPool.freeListPop_nil sound.freeList
      by_cases full : accepting.pool.maxConn < accepting.pool.count
      · rw [if_pos full] at taken
        refine .inl ⟨taken, ?_⟩
        simp only [room, List.length_nil]
        omega
      · rw [if_neg full] at taken
        have unused : ∀ other ∈ active, other ≠ accepting.pool.count :=
          fun other inside => Nat.ne_of_lt (sound.created other (.inr inside))
        refine .inr ⟨accepting.pool.count, _, [], taken, ?_⟩
        exact {
          freeList := sound.freeList
          activeList := sound.activeList
          nodup := List.nodup_singleton _
          apart := by
            intro other only inside
            exact unused other inside (List.mem_singleton.mp only)
          created := by
            rintro other (only | inside)
            · rw [List.mem_singleton.mp only]
              exact Nat.lt_succ_self _
            · exact Nat.lt_succ_of_lt (sound.created other (.inr inside))
          popped := by
            intro other inside
            rcases List.mem_cons.mp inside with rfl | before
            · exact .inl List.mem_cons_self
            · rcases sound.popped other before with none | listed
              · cases none
              · exact .inr listed
          room := by
            simp only [room, List.length_nil]
            omega }

/-! ### A descriptor that is set up, and one that is not -/

theorem install_ready (ready : arrival.ready config = true) :
    (accepting.install config arrival conn).fd =
        Function.update accepting.fd conn arrival.clifd ∧
      (accepting.install config arrival conn).pool = accepting.pool.activeListPush conn ∧
      (accepting.install config arrival conn).sockets = accepting.sockets ∧
      (accepting.install config arrival conn).popped = accepting.popped := by
  have status : (((accepting.connections conn).occupy arrival).setUp config arrival).1 = true :=
    Connection.setUp_fst.trans ready
  simp only [install, status, if_true, and_true]
  funext other
  by_cases same : other = conn
  · subst same
    simp [fd, Connection.occupy]
  · simp [fd, same]

/-- `fd_` behind `Connection::Reset`. -/
theorem install_refused (refused : arrival.ready config = false) :
    (accepting.install config arrival conn).fd = Function.update accepting.fd conn
        (if 0 < arrival.clifd then -1 else arrival.clifd) ∧
      (accepting.install config arrival conn).pool = accepting.pool.freeListPush conn ∧
      (accepting.install config arrival conn).sockets =
        (if 0 < arrival.clifd then accepting.sockets.close arrival.clifd
          else accepting.sockets) ∧
      (accepting.install config arrival conn).popped = accepting.popped := by
  have status : (((accepting.connections conn).occupy arrival).setUp config arrival).1 = false :=
    Connection.setUp_fst.trans refused
  have clifd : (((accepting.connections conn).occupy arrival).setUp config arrival).2.fd =
      arrival.clifd := Connection.fd_setUp
  simp only [install, status, Bool.false_eq_true, if_false, and_true, closeFd, fd,
    Function.update_self, clifd]
  funext other
  by_cases same : other = conn
  · subst same
    simp [fd, Connection.reset, Connection.occupy]
  · simp [fd, same]

/-! ### What a round preserves -/

/-- The sockets from the number `start` on: those that are open belong to connections on the
active list, unless one of them has been left at the descriptor 0. -/
structure Ledger (start : Nat) (leaks : Prop) (accepting : Accepting) (active : List ConnId) :
    Prop where
  numbered : start ≤ accepting.sockets.opened
  leaked : leaks → ∃ socket, start ≤ socket ∧ accepting.sockets.file 0 = some socket ∧
    ∀ conn ∈ active, accepting.fd conn ≠ 0
  covered : ¬ leaks → ∀ descriptor socket, start ≤ socket →
    accepting.sockets.file descriptor = some socket →
      ∃ conn ∈ active, accepting.fd conn = descriptor

variable {start : Nat} {leaks : Prop} {later : Accepting}

theorem Sound.fd_ne (sound : accepting.Sound free active) {clifd : Int}
    (unused : accepting.sockets.file clifd = none) (inside : conn ∈ active) :
    accepting.fd conn ≠ clifd := by
  obtain ⟨socket, opened⟩ := sound.opened conn inside
  exact Descriptors.ne_of_held opened unused

theorem Popped.fd_of_mem (popped : accepting.Popped free active conn pool fewer) {fd : Int}
    (fd_eq : later.fd = Function.update accepting.fd conn fd) {other : ConnId}
    (inside : other ∈ active) : later.fd other = accepting.fd other := by
  rw [fd_eq, Function.update_of_ne]
  rintro rfl
  exact popped.apart other List.mem_cons_self inside

section Ready

variable (popped : accepting.Popped free active conn pool fewer) {clifd : Int}
  (unused : accepting.sockets.file clifd = none)
  (fd_eq : later.fd = Function.update accepting.fd conn clifd)
  (file_eq : ∀ descriptor, later.sockets.file descriptor =
    if descriptor = clifd then some accepting.sockets.opened
    else accepting.sockets.file descriptor)
include popped unused fd_eq file_eq

theorem Sound.ready (sound : accepting.Sound free active)
    (pool_eq : later.pool = pool.activeListPush conn)
    (popped_eq : later.popped = conn :: accepting.popped) :
    later.Sound fewer (active ++ [conn]) := by
  have unlisted : conn ∉ active := popped.apart conn List.mem_cons_self
  have new : later.fd conn = clifd := by rw [fd_eq, Function.update_self]
  have old : ∀ other ∈ active, later.fd other = accepting.fd other :=
    fun other inside => popped.fd_of_mem fd_eq inside
  have differs : ∀ other ∈ active, later.fd other ≠ clifd := by
    intro other inside
    rw [old other inside]
    exact sound.fd_ne unused inside
  constructor
  · rw [pool_eq]
    exact ConnectionPool.freeList_activeListPush.mpr popped.freeList
  · rw [pool_eq]
    exact ConnectionPool.activeList_push popped.activeList unlisted
  · exact (List.nodup_cons.mp popped.nodup).2
  · intro other inside listed
    rcases List.mem_append.mp listed with before | only
    · exact popped.apart other (List.mem_cons_of_mem _ inside) before
    · rw [List.mem_singleton.mp only] at inside
      exact (List.nodup_cons.mp popped.nodup).1 inside
  · intro other inside
    rw [pool_eq, ConnectionPool.count_activeListPush]
    apply popped.created
    simp only [List.mem_append, List.mem_cons] at inside ⊢
    tauto
  · intro other inside
    rw [popped_eq] at inside
    have listed := popped.popped other inside
    simp only [List.mem_append, List.mem_cons] at listed ⊢
    tauto
  · intro other inside
    rcases List.mem_append.mp inside with before | only
    · rw [file_eq, if_neg (differs other before), old other before]
      exact sound.opened other before
    · rw [List.mem_singleton.mp only, new, file_eq, if_pos rfl]
      exact ⟨_, rfl⟩
  · intro one inside other also same
    rcases List.mem_append.mp inside with before | only <;>
      rcases List.mem_append.mp also with before' | only'
    · rw [old one before, old other before'] at same
      exact sound.differ one before other before' same
    · rw [List.mem_singleton.mp only', new] at same
      exact absurd same (differs one before)
    · rw [List.mem_singleton.mp only, new] at same
      exact absurd same.symm (differs other before')
    · rw [List.mem_singleton.mp only, List.mem_singleton.mp only']
  · intro other positive
    by_cases same : other = conn
    · rw [same]
      exact List.mem_append_right _ List.mem_cons_self
    · rw [fd_eq, Function.update_of_ne same] at positive
      exact List.mem_append_left _ (sound.listed other positive)

theorem Ledger.ready (ledger : accepting.Ledger start leaks active)
    (opened_eq : later.sockets.opened = accepting.sockets.opened + 1) :
    later.Ledger start leaks (active ++ [conn]) := by
  have new : later.fd conn = clifd := by rw [fd_eq, Function.update_self]
  have old : ∀ other ∈ active, later.fd other = accepting.fd other :=
    fun other inside => popped.fd_of_mem fd_eq inside
  constructor
  · rw [opened_eq]
    exact Nat.le_succ_of_le ledger.numbered
  · intro leaked
    obtain ⟨socket, later_than, held, apart⟩ := ledger.leaked leaked
    have different : 0 ≠ clifd := Descriptors.ne_of_held held unused
    refine ⟨socket, later_than, ?_, ?_⟩
    · rw [file_eq, if_neg different, held]
    · intro other inside
      rcases List.mem_append.mp inside with before | only
      · rw [old other before]
        exact apart other before
      · rw [List.mem_singleton.mp only, new]
        exact different.symm
  · intro complete descriptor socket later_than held
    rw [file_eq] at held
    split at held
    next same => exact ⟨conn, by simp, new.trans same.symm⟩
    next =>
      obtain ⟨other, inside, same⟩ := ledger.covered complete descriptor socket later_than held
      exact ⟨other, List.mem_append_left _ inside, (old other inside).trans same⟩

end Ready

section Refused

variable (popped : accepting.Popped free active conn pool fewer) {clifd fd : Int}
  (unused : accepting.sockets.file clifd = none)
  (fd_eq : later.fd = Function.update accepting.fd conn fd)
  (file_eq : ∀ descriptor, descriptor ≠ clifd →
    later.sockets.file descriptor = accepting.sockets.file descriptor)
include popped unused fd_eq file_eq

theorem Sound.refused (sound : accepting.Sound free active) (nonpos : fd ≤ 0)
    (pool_eq : later.pool = pool.freeListPush conn)
    (popped_eq : later.popped = conn :: accepting.popped) :
    later.Sound (conn :: fewer) active := by
  have old : ∀ other ∈ active, later.fd other = accepting.fd other :=
    fun other inside => popped.fd_of_mem fd_eq inside
  constructor
  · rw [pool_eq]
    exact ConnectionPool.freeList_push popped.freeList (List.nodup_cons.mp popped.nodup).1
  · rw [pool_eq]
    exact popped.activeList
  · exact popped.nodup
  · exact popped.apart
  · intro other inside
    rw [pool_eq, ConnectionPool.count_freeListPush]
    exact popped.created other inside
  · intro other inside
    rw [popped_eq] at inside
    exact popped.popped other inside
  · intro other inside
    rw [old other inside, file_eq _ (sound.fd_ne unused inside)]
    exact sound.opened other inside
  · intro one inside other also same
    rw [old one inside, old other also] at same
    exact sound.differ one inside other also same
  · intro other positive
    by_cases same : other = conn
    · rw [same, fd_eq, Function.update_self] at positive
      omega
    · rw [fd_eq, Function.update_of_ne same] at positive
      exact sound.listed other positive

theorem Ledger.refused (sound : accepting.Sound free active)
    (ledger : accepting.Ledger start leaks active) (descriptor : 0 ≤ clifd)
    (opened_eq : later.sockets.opened = accepting.sockets.opened + 1)
    (clifd_eq : later.sockets.file clifd =
      if 0 < clifd then none else some accepting.sockets.opened) :
    later.Ledger start (leaks ∨ clifd = 0) active := by
  have old : ∀ other ∈ active, later.fd other = accepting.fd other :=
    fun other inside => popped.fd_of_mem fd_eq inside
  constructor
  · rw [opened_eq]
    exact Nat.le_succ_of_le ledger.numbered
  · rintro (leaked | zero)
    · obtain ⟨socket, later_than, held, apart⟩ := ledger.leaked leaked
      have different : 0 ≠ clifd := Descriptors.ne_of_held held unused
      refine ⟨socket, later_than, by rw [file_eq 0 different, held], ?_⟩
      intro other inside
      rw [old other inside]
      exact apart other inside
    · subst zero
      refine ⟨accepting.sockets.opened, ledger.numbered, by simpa using clifd_eq, ?_⟩
      intro other inside
      rw [old other inside]
      exact sound.fd_ne unused inside
  · intro complete at_descriptor socket later_than held
    rw [not_or] at complete
    by_cases same : at_descriptor = clifd
    · have positive : 0 < clifd := by omega
      rw [same, clifd_eq, if_pos positive] at held
      cases held
    · rw [file_eq _ same] at held
      obtain ⟨other, inside, same⟩ :=
        ledger.covered complete.1 at_descriptor socket later_than held
      exact ⟨other, inside, (old other inside).trans same⟩

end Refused

/-! ### A reset -/

theorem resetConnection_eq (positive : 0 < accepting.fd conn) :
    accepting.resetConnection conn = { accepting with
      pool := (accepting.pool.freeListPush conn).activeListErase conn
      connections :=
        Function.update accepting.connections conn (accepting.connections conn).reset
      sockets := accepting.sockets.close (accepting.fd conn) } := by
  rw [resetConnection, if_pos positive, closeFd, if_pos positive]
  rfl

theorem pool_resetConnection (positive : 0 < accepting.fd conn) :
    (accepting.resetConnection conn).pool =
      (accepting.pool.freeListPush conn).activeListErase conn := by
  rw [resetConnection_eq positive]

section Reset

variable (sound : accepting.Sound free active) (positive : 0 < accepting.fd conn)
include sound positive

theorem Sound.fd_reset_of_mem_erase {other : ConnId} (inside : other ∈ active.erase conn) :
    other ∈ active ∧ other ≠ conn ∧
      (accepting.resetConnection conn).fd other = accepting.fd other := by
  have nodup : active.Nodup := sound.activeList.nodup
  obtain ⟨different, listed⟩ := nodup.mem_erase_iff.mp inside
  refine ⟨listed, different, ?_⟩
  rw [resetConnection_eq positive]
  simp [fd, different]

theorem Sound.reset : (accepting.resetConnection conn).Sound (conn :: free)
    (active.erase conn) := by
  have listed : conn ∈ active := sound.listed conn positive
  have unfree : conn ∉ free := fun inside => sound.apart conn inside listed
  have nodup : active.Nodup := sound.activeList.nodup
  have old := fun other => @Sound.fd_reset_of_mem_erase accepting free active conn sound
    positive other
  have pool_eq := pool_resetConnection positive
  constructor
  · rw [pool_eq]
    exact ConnectionPool.freeList_activeListErase.mpr
      (ConnectionPool.freeList_push sound.freeList unfree)
  · rw [pool_eq]
    obtain ⟨front, behind, -, split, erased⟩ := List.exists_erase_eq listed
    rw [erased]
    apply ConnectionPool.activeList_erase
    rw [← split]
    exact sound.activeList
  · exact List.nodup_cons.mpr ⟨unfree, sound.nodup⟩
  · intro other inside still
    rcases List.mem_cons.mp inside with rfl | before
    · exact nodup.not_mem_erase still
    · exact sound.apart other before (List.mem_of_mem_erase still)
  · intro other inside
    rw [pool_eq, ConnectionPool.count_activeListErase, ConnectionPool.count_freeListPush]
    rcases inside with freed | still
    · rcases List.mem_cons.mp freed with rfl | before
      · exact sound.created other (.inr listed)
      · exact sound.created other (.inl before)
    · exact sound.created other (.inr (List.mem_of_mem_erase still))
  · intro other inside
    have before : other ∈ accepting.popped := by
      rwa [resetConnection_eq positive] at inside
    by_cases same : other = conn
    · exact .inl (same ▸ List.mem_cons_self)
    · rcases sound.popped other before with freed | still
      · exact .inl (List.mem_cons_of_mem _ freed)
      · exact .inr (nodup.mem_erase_iff.mpr ⟨same, still⟩)
  · intro other inside
    obtain ⟨still, different, same⟩ := old other inside
    obtain ⟨socket, held⟩ := sound.opened other still
    have apart : accepting.fd other ≠ accepting.fd conn :=
      fun equal => different (sound.differ other still conn listed equal)
    refine ⟨socket, ?_⟩
    rw [same, resetConnection_eq positive, Descriptors.file_close, if_neg apart, held]
  · intro one inside other also same
    obtain ⟨one_still, -, one_same⟩ := old one inside
    obtain ⟨other_still, -, other_same⟩ := old other also
    rw [one_same, other_same] at same
    exact sound.differ one one_still other other_still same
  · intro other open_still
    by_cases same : other = conn
    · subst same
      have freed : (accepting.resetConnection other).fd other = -1 := by
        rw [resetConnection_eq positive]
        simp only [fd, Function.update_self]
        exact if_pos positive
      omega
    · have kept : (accepting.resetConnection conn).fd other = accepting.fd other := by
        rw [resetConnection_eq positive]
        simp [fd, same]
      rw [kept] at open_still
      exact nodup.mem_erase_iff.mpr ⟨same, sound.listed other open_still⟩

theorem Ledger.reset (ledger : accepting.Ledger start leaks active) :
    (accepting.resetConnection conn).Ledger start leaks (active.erase conn) := by
  have nodup : active.Nodup := sound.activeList.nodup
  have old := fun other => @Sound.fd_reset_of_mem_erase accepting free active conn sound
    positive other
  have file_eq : ∀ descriptor, (accepting.resetConnection conn).sockets.file descriptor =
      if descriptor = accepting.fd conn then none else accepting.sockets.file descriptor := by
    rw [resetConnection_eq positive]
    exact fun descriptor => Descriptors.file_close descriptor
  constructor
  · rw [resetConnection_eq positive, Descriptors.opened_close]
    exact ledger.numbered
  · intro leaked
    obtain ⟨socket, later_than, held, apart⟩ := ledger.leaked leaked
    refine ⟨socket, later_than, ?_, ?_⟩
    · rw [file_eq, if_neg (by omega), held]
    · intro other inside
      obtain ⟨still, -, same⟩ := old other inside
      rw [same]
      exact apart other still
  · intro complete descriptor socket later_than held
    rw [file_eq] at held
    split at held
    next => cases held
    next different =>
      obtain ⟨other, inside, same⟩ := ledger.covered complete descriptor socket later_than held
      have other_ne : other ≠ conn := by
        rintro rfl
        exact different same.symm
      have still := nodup.mem_erase_iff.mpr ⟨other_ne, inside⟩
      exact ⟨other, still, (old other still).2.2.trans same⟩

end Reset

theorem room_resetConnection (positive : 0 < accepting.fd conn) :
    room (accepting.resetConnection conn).pool (conn :: free) =
      room accepting.pool free + 1 := by
  have pool_eq := pool_resetConnection positive
  have limit : (accepting.pool.freeListPush conn).maxConn = accepting.pool.maxConn := rfl
  rw [pool_eq, room, room, ConnectionPool.maxConn_activeListErase,
    ConnectionPool.count_activeListErase, ConnectionPool.count_freeListPush, limit,
    List.length_cons]
  omega

end Accepting

end Mevent
