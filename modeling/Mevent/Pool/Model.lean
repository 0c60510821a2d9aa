import Mevent.Library.Linked

/-!
# `ConnectionPool`

The free list and the active list are threaded through the connections by the
fields `free_next_`, `active_next_` and `active_prev_`.  Only the pool touches these
fields, so the model keeps them with the pool, as functions of the connection.
The pool hands out the connections in the order in which it creates them; `count`
is the next one.
-/

namespace Mevent

open Library

/-- A `Connection *` that is not null. -/
abbrev ConnId := Nat

/-- `ConnectionPool`, with the link fields of its connections. -/
structure ConnectionPool where
  freeListHead : Option ConnId
  freeNext : ConnId → Option ConnId
  activeListHead : Option ConnId
  activeListTail : Option ConnId
  activeListLookupCursor : Option ConnId
  activeNext : ConnId → Option ConnId
  activePrev : ConnId → Option ConnId
  count : Nat
  maxConn : Nat

namespace ConnectionPool

def new (maxConn : Nat) : ConnectionPool where
  freeListHead := none
  freeNext := fun _ => none
  activeListHead := none
  activeListTail := none
  activeListLookupCursor := none
  activeNext := fun _ => none
  activePrev := fun _ => none
  count := 0
  maxConn := maxConn

/-- `ConnectionPool::FreeListPop`. -/
def freeListPop (pool : ConnectionPool) : Option ConnId × ConnectionPool :=
  match pool.freeListHead with
  | some conn => (some conn, { pool with freeListHead := pool.freeNext conn })
  | none =>
      if pool.maxConn < pool.count then
        (none, pool)
      else
        (some pool.count, { pool with count := pool.count + 1 })

/-- `ConnectionPool::FreeListPush`. -/
def freeListPush (pool : ConnectionPool) (conn : ConnId) : ConnectionPool :=
  { pool with
    freeNext := Function.update pool.freeNext conn pool.freeListHead
    freeListHead := some conn }

/-- `ConnectionPool::ActiveListPush`. -/
def activeListPush (pool : ConnectionPool) (conn : ConnId) : ConnectionPool :=
  match pool.activeListTail with
  | none => { pool with activeListTail := some conn, activeListHead := some conn }
  | some tail =>
      { pool with
        activeNext :=
          Function.update (Function.update pool.activeNext tail (some conn)) conn none
        activePrev := Function.update pool.activePrev conn (some tail)
        activeListTail := some conn }

/-- `ActiveListErase` takes `conn` out of the forward direction: its predecessor, or
`active_list_head_`, leads to its successor. -/
def eraseForward (pool : ConnectionPool) (conn : ConnId) : ConnectionPool :=
  match pool.activePrev conn with
  | some prev =>
      { pool with activeNext := Function.update pool.activeNext prev (pool.activeNext conn) }
  | none =>
      { pool with
        activeListHead := pool.activeNext conn
        activePrev := redirect pool.activePrev (pool.activeNext conn) none }

/-- `ActiveListErase` takes `conn` out of the backward direction. -/
def eraseBackward (pool : ConnectionPool) (conn : ConnId) : ConnectionPool :=
  match pool.activeNext conn with
  | some next =>
      { pool with activePrev := Function.update pool.activePrev next (pool.activePrev conn) }
  | none =>
      { pool with
        activeListTail := pool.activePrev conn
        activeNext := redirect pool.activeNext (pool.activePrev conn) none }

/-- `ActiveListErase` behind its first statement. -/
def eraseLinks (pool : ConnectionPool) (conn : ConnId) : ConnectionPool :=
  let erased :=
    if pool.activeListTail = pool.activeListHead then
      { pool with activeListTail := none, activeListHead := none }
    else
      (pool.eraseForward conn).eraseBackward conn
  { erased with
    activeNext := Function.update erased.activeNext conn none
    activePrev := Function.update erased.activePrev conn none }

/-- `ConnectionPool::ActiveListErase`. -/
def activeListErase (pool : ConnectionPool) (conn : ConnId) : ConnectionPool :=
  if some conn = pool.activeListLookupCursor then
    { pool with activeListLookupCursor := pool.activeNext conn }.eraseLinks conn
  else
    pool.eraseLinks conn

/-- `ConnectionPool::ActiveListUpdate`. -/
def activeListUpdate (pool : ConnectionPool) (conn : ConnId) : ConnectionPool :=
  (pool.activeListErase conn).activeListPush conn

/-- `ConnectionPool::ActiveListTimeoutCheck`. -/
def activeListTimeoutCheck (pool : ConnectionPool) : ConnectionPool :=
  { pool with activeListLookupCursor := pool.activeListHead }

/-- `ConnectionPool::ActiveListCheckNext`. -/
def activeListCheckNext (pool : ConnectionPool) : Option ConnId × ConnectionPool :=
  (pool.activeListLookupCursor,
    { pool with
      activeListLookupCursor := pool.activeListLookupCursor.bind pool.activeNext })

def activeLinks (pool : ConnectionPool) : Links ConnId where
  head := pool.activeListHead
  tail := pool.activeListTail
  next := pool.activeNext
  prev := pool.activePrev

def FreeList (pool : ConnectionPool) (conns : List ConnId) : Prop :=
  IsChain pool.freeNext pool.freeListHead conns

/-- A connection that `FreeListPop` comes upon sooner or later. -/
def OnFreeList (pool : ConnectionPool) (conn : ConnId) : Prop :=
  Met pool.freeNext pool.freeListHead conn

/-- The connections on the active list, which is linked properly. -/
def ActiveList (pool : ConnectionPool) (conns : List ConnId) : Prop :=
  pool.activeLinks.Represents conns

end ConnectionPool

end Mevent
