import Mathlib.Data.List.DropRight
import Mevent.Pool.Cursor

/-!
# Scans of the active list

The operations on the active list act on a list with a cursor.  A scan begins with
`ActiveListTimeoutCheck` and ends when `ActiveListCheckNext` returns `NULL`; a connection that
stays where it is in between is returned once, unless the scan is begun again.
-/

namespace Mevent.ConnectionPool

open Library

inductive ActiveListCall where
  | push (conn : ConnId)
  | erase (conn : ConnId)
  | update (conn : ConnId)
  | timeoutCheck
  | checkNext
  deriving DecidableEq, Repr

namespace ActiveListCall

def run (pool : ConnectionPool) : ActiveListCall → Option ConnId × ConnectionPool
  | .push conn => (none, pool.activeListPush conn)
  | .erase conn => (none, pool.activeListErase conn)
  | .update conn => (none, pool.activeListUpdate conn)
  | .timeoutCheck => (none, pool.activeListTimeoutCheck)
  | .checkNext => pool.activeListCheckNext

/-- Members are erased and updated, and others are pushed. -/
def Allowed (pool : ConnectionPool) : ActiveListCall → Prop
  | .push conn => ¬ pool.OnActiveList conn
  | .erase conn | .update conn => pool.OnActiveList conn
  | .timeoutCheck | .checkNext => True

def listed (conns : List ConnId) : ActiveListCall → List ConnId
  | .push conn => conns ++ [conn]
  | .erase conn => conns.erase conn
  | .update conn => conns.erase conn ++ [conn]
  | .timeoutCheck | .checkNext => conns

def moved (list : CursorList ConnId) : ActiveListCall → CursorList ConnId
  | .push conn => list.push conn
  | .erase conn => list.erase conn
  | .update conn => (list.erase conn).push conn
  | .timeoutCheck => list.rewind
  | .checkNext => list.next

def touches (conn : ConnId) : ActiveListCall → Bool
  | .erase other | .update other => other = conn
  | _ => false

end ActiveListCall

def afterCalls (maxConn : Nat) (calls : List ActiveListCall) : ConnectionPool :=
  calls.foldl (fun pool call => (call.run pool).2) (new maxConn)

/-- Every call is allowed where it is made. -/
inductive Called (maxConn : Nat) : List ActiveListCall → Prop
  | nil : Called maxConn []
  | concat {calls : List ActiveListCall} (call : ActiveListCall) : Called maxConn calls →
      call.Allowed (afterCalls maxConn calls) → Called maxConn (calls ++ [call])

/-- The members behind a sequence of calls. -/
def members (calls : List ActiveListCall) : List ConnId := calls.foldl ActiveListCall.listed []

def returned (pool : ConnectionPool) : List ActiveListCall → List ConnId
  | [] => []
  | call :: calls => (call.run pool).1.toList ++ returned (call.run pool).2 calls

/-- The connections that are returned behind the last `ActiveListTimeoutCheck`. -/
def lastScan (maxConn : Nat) (calls : List ActiveListCall) : List ConnId :=
  returned (afterCalls maxConn (calls.rdropWhile (· ≠ .timeoutCheck)))
    (calls.rtakeWhile (· ≠ .timeoutCheck))

/-- The last call is an `ActiveListCheckNext` that returns `NULL`. -/
def Finished (maxConn : Nat) (calls : List ActiveListCall) : Prop :=
  ∃ earlier, calls = earlier ++ [.checkNext] ∧
    (afterCalls maxConn earlier).activeListCheckNext.1 = none

/-- The members behind `before` that no call of `scan` erases or updates. -/
def keptMembers (before scan : List ActiveListCall) : List ConnId :=
  (members before).filter fun conn => !scan.any (·.touches conn)

/-- Each of the connections once, in their order. -/
def ReturnsOnce (conns returned : List ConnId) : Prop :=
  conns.Sublist returned ∧ ∀ conn ∈ conns, returned.count conn = 1

/-- The pointers represent the sequence of the members, which the cursor does not leave. -/
structure ActsAsList (maxConn : Nat) (calls : List ActiveListCall) : Prop where
  represents : (afterCalls maxConn calls).ActiveList (members calls)
  inverse : ∀ conn other, (afterCalls maxConn calls).activeNext conn = some other ↔
    (afterCalls maxConn calls).activePrev other = some conn
  outside : ∀ conn, conn ∉ members calls → (afterCalls maxConn calls).activeNext conn = none ∧
    (afterCalls maxConn calls).activePrev conn = none
  cursor : ∀ conn ∈ (afterCalls maxConn calls).activeListLookupCursor, conn ∈ members calls

/-- A scan that finishes returns each connection once that has been a member all the time
since an `ActiveListTimeoutCheck`. -/
def ScansOnce (maxConn : Nat) (calls : List ActiveListCall) : Prop :=
  ∀ before scan, calls = before ++ .timeoutCheck :: scan → Finished maxConn calls →
    ReturnsOnce (keptMembers before scan)
      (returned (afterCalls maxConn (before ++ [.timeoutCheck])) scan)

/-- The same, for the part of the calls behind the last `ActiveListTimeoutCheck`. -/
def ScansOnceAtLast (maxConn : Nat) (calls : List ActiveListCall) : Prop :=
  ∀ before scan, calls = before ++ .timeoutCheck :: scan → Finished maxConn calls →
    ReturnsOnce (keptMembers before scan) (lastScan maxConn calls)

variable {pool : ConnectionPool} {list : CursorList ConnId} {call : ActiveListCall}
  {maxConn : Nat} {calls before scan : List ActiveListCall}

/-! ### One call -/

theorem mem_nodes_iff (divided : pool.Divided list.passed list.rest) (conn : ConnId) :
    pool.OnActiveList conn ↔ conn ∈ list.nodes :=
  ⟨divided.mem_of_onActiveList, met_of_mem divided.activeList.forward⟩

theorem nodes_moved (nodup : list.nodes.Nodup) :
    (call.moved list).nodes = call.listed list.nodes := by
  cases call with
  | push conn => exact CursorList.nodes_push
  | erase conn => exact CursorList.nodes_erase nodup
  | update conn =>
      rw [ActiveListCall.moved, CursorList.nodes_push, CursorList.nodes_erase nodup]
      rfl
  | timeoutCheck => rfl
  | checkNext => exact CursorList.nodes_next

theorem divided_run (divided : pool.Divided list.passed list.rest) (allowed : call.Allowed pool) :
    (call.run pool).2.Divided (call.moved list).passed (call.moved list).rest := by
  cases call with
  | push conn =>
      exact divided.push ((mem_nodes_iff divided conn).not.mp allowed)
  | erase conn => exact divided.activeListErase ((mem_nodes_iff divided conn).mp allowed)
  | update conn =>
      have erased := divided.activeListErase ((mem_nodes_iff divided conn).mp allowed)
      refine Divided.push erased ?_
      have outside : conn ∉ list.nodes.erase conn := List.Nodup.not_mem_erase divided.nodup
      rwa [← CursorList.nodes_erase divided.nodup] at outside
  | timeoutCheck => exact divided.timeoutCheck
  | checkNext =>
      cases rest : list.rest with
      | nil =>
          rw [rest] at divided
          have same := divided.checkNext_nil
          simp only [ActiveListCall.run, ActiveListCall.moved, CursorList.next, rest, same]
          simpa using divided
      | cons first behind =>
          rw [rest] at divided
          simp only [ActiveListCall.run, ActiveListCall.moved, CursorList.next, rest]
          exact divided.checkNext_cons.2

/-- What `ActiveListCheckNext` returns is in front of the cursor. -/
theorem returned_checkNext (divided : pool.Divided list.passed list.rest) :
    (ActiveListCall.checkNext.run pool).1 = list.rest.head? :=
  divided.cursor

/-! ### A sequence of calls -/

/-- The list and the cursor behind a sequence of calls. -/
def cursorList (calls : List ActiveListCall) : CursorList ConnId :=
  calls.foldl ActiveListCall.moved ⟨[], []⟩

theorem afterCalls_concat : afterCalls maxConn (calls ++ [call]) =
    (call.run (afterCalls maxConn calls)).2 := by
  simp [afterCalls]

theorem cursorList_concat : cursorList (calls ++ [call]) = call.moved (cursorList calls) := by
  simp [cursorList]

theorem members_concat : members (calls ++ [call]) = call.listed (members calls) := by
  simp [members]

theorem returned_append (pool : ConnectionPool) (calls more : List ActiveListCall) :
    returned pool (calls ++ more) = returned pool calls ++
      returned (calls.foldl (fun pool call => (call.run pool).2) pool) more := by
  induction calls generalizing pool with
  | nil => rfl
  | cons call calls inductionHypothesis => simp [returned, inductionHypothesis]

/-- The pool represents a list with a cursor. -/
theorem divided_afterCalls (called : Called maxConn calls) :
    (afterCalls maxConn calls).Divided (cursorList calls).passed (cursorList calls).rest := by
  induction called with
  | nil => exact divided_new maxConn
  | concat call _ allowed inductionHypothesis =>
      rw [afterCalls_concat, cursorList_concat]
      exact divided_run inductionHypothesis allowed

theorem nodes_cursorList (called : Called maxConn calls) :
    (cursorList calls).nodes = members calls := by
  induction called with
  | nil => rfl
  | concat call called _ inductionHypothesis =>
      rw [cursorList_concat, members_concat, nodes_moved (divided_afterCalls called).nodup,
        inductionHypothesis]

theorem Called.of_concat (called : Called maxConn (calls ++ [call])) :
    Called maxConn calls ∧ call.Allowed (afterCalls maxConn calls) := by
  generalize whole : calls ++ [call] = all at called
  cases called with
  | nil => simp at whole
  | concat last earlier allowed =>
      obtain ⟨rfl, same⟩ := List.append_inj' whole rfl
      cases same
      exact ⟨earlier, allowed⟩

theorem lastScan_timeoutCheck : lastScan maxConn (calls ++ [.timeoutCheck]) = [] := by
  rw [lastScan, List.rtakeWhile_concat_neg _ _ _ (by simp)]
  rfl

theorem lastScan_concat (goes_on : call ≠ .timeoutCheck) :
    lastScan maxConn (calls ++ [call]) =
      lastScan maxConn calls ++ (call.run (afterCalls maxConn calls)).1.toList := by
  have whole : (calls.rtakeWhile (· ≠ .timeoutCheck)).foldl
      (fun pool call => (call.run pool).2)
      (afterCalls maxConn (calls.rdropWhile (· ≠ .timeoutCheck))) = afterCalls maxConn calls := by
    rw [afterCalls, ← List.foldl_append, List.rdropWhile_append_rtakeWhile, afterCalls]
  rw [lastScan, List.rtakeWhile_concat_pos _ _ _ (by simpa using goes_on),
    List.rdropWhile_concat_pos _ _ _ (by simpa using goes_on), returned_append, whole]
  simp [lastScan, returned]

theorem lastScan_eq_returned (once : .timeoutCheck ∉ scan) :
    lastScan maxConn (before ++ .timeoutCheck :: scan) =
      returned (afterCalls maxConn (before ++ [.timeoutCheck])) scan := by
  induction scan using List.reverseRecOn with
  | nil => exact lastScan_timeoutCheck
  | append_singleton scan call inductionHypothesis =>
      rw [List.mem_append, List.mem_singleton, not_or] at once
      have split : before ++ .timeoutCheck :: (scan ++ [call]) =
          (before ++ .timeoutCheck :: scan) ++ [call] := by simp
      have whole : scan.foldl (fun pool call => (call.run pool).2)
          (afterCalls maxConn (before ++ [.timeoutCheck])) =
            afterCalls maxConn (before ++ .timeoutCheck :: scan) := by
        simp [afterCalls]
      rw [split, lastScan_concat (Ne.symm once.2), inductionHypothesis once.1, returned_append,
        whole]
      simp [returned]

/-! ### A scan -/

/-- As far as the connections that are kept are concerned, the list is the one behind `before`,
and the cursor has passed those that have been returned since it was last put at the head. -/
theorem follows_scan {sees : ConnId → Bool}
    (listed : ∀ conn, sees conn = true → conn ∈ members before)
    (kept : ∀ call ∈ scan, ∀ conn, sees conn = true → call.touches conn = false)
    (called : Called maxConn (before ++ .timeoutCheck :: scan)) :
    CursorList.Follows sees (members before)
      (lastScan maxConn (before ++ .timeoutCheck :: scan))
      (cursorList (before ++ .timeoutCheck :: scan)) := by
  induction scan using List.reverseRecOn with
  | nil =>
      have nodes := nodes_cursorList called.of_concat.1
      rw [cursorList_concat, lastScan_timeoutCheck]
      refine ⟨?_, rfl⟩
      rw [ActiveListCall.moved, CursorList.nodes_rewind, nodes]
  | append_singleton scan call inductionHypothesis =>
      have split : before ++ .timeoutCheck :: (scan ++ [call]) =
          (before ++ .timeoutCheck :: scan) ++ [call] := by simp
      rw [split] at called ⊢
      obtain ⟨earlier, allowed⟩ := called.of_concat
      have follows := inductionHypothesis
        (fun other inside => kept other (by simp [inside])) earlier
      have divided := divided_afterCalls earlier
      have untouched : ∀ conn, call.touches conn = true → sees conn = false := by
        intro conn touched
        by_contra seen
        have left := kept call (by simp) conn (eq_true_of_ne_false seen)
        rw [left] at touched
        cases touched
      rw [cursorList_concat]
      cases call with
      | push conn =>
          rw [lastScan_concat (by simp), ActiveListCall.run, Option.toList_none, List.append_nil]
          refine follows.push ?_
          -- A member that has been kept is still on the list and is not pushed again.
          by_contra seen
          have sees_conn := eq_true_of_ne_false seen
          have still : conn ∈ (members before).filter sees :=
            List.mem_filter.mpr ⟨listed conn sees_conn, sees_conn⟩
          rw [← follows.nodes] at still
          exact allowed ((mem_nodes_iff divided conn).mpr (List.mem_of_mem_filter still))
      | erase conn =>
          rw [lastScan_concat (by simp), ActiveListCall.run, Option.toList_none, List.append_nil]
          exact follows.erase (untouched conn (by simp [ActiveListCall.touches]))
      | update conn =>
          rw [lastScan_concat (by simp), ActiveListCall.run, Option.toList_none, List.append_nil]
          have unseen := untouched conn (by simp [ActiveListCall.touches])
          exact (follows.erase unseen).push unseen
      | timeoutCheck =>
          rw [lastScan_timeoutCheck]
          exact follows.rewind
      | checkNext =>
          rw [lastScan_concat (by simp), returned_checkNext divided]
          exact follows.next

theorem Called.of_append (called : Called maxConn (calls ++ scan)) : Called maxConn calls := by
  induction scan using List.reverseRecOn with
  | nil => simpa using called
  | append_singleton scan call inductionHypothesis =>
      rw [← List.append_assoc] at called
      exact inductionHypothesis called.of_concat.1

theorem rest_of_finished (called : Called maxConn calls) (finished : Finished maxConn calls) :
    (cursorList calls).rest = [] := by
  obtain ⟨earlier, rfl, none_left⟩ := finished
  have at_end : (cursorList earlier).rest.head? = none := by
    rw [← returned_checkNext (divided_afterCalls called.of_concat.1)]
    exact none_left
  rw [cursorList_concat, ActiveListCall.moved, CursorList.next, List.head?_eq_none_iff.mp at_end]
  rfl

/-- What is found among the connections with `sees`, and only once, is found once. -/
theorem returnsOnce_of_filter {sees : ConnId → Bool} {conns met : List ConnId}
    (nodup : conns.Nodup) (same : met.filter sees = conns.filter sees) :
    ReturnsOnce (conns.filter sees) met := by
  refine ⟨?_, ?_⟩
  · rw [← same]
    exact List.filter_sublist
  · intro conn inside
    rw [← List.count_filter (List.mem_filter.mp inside).2, same]
    exact List.count_eq_one_of_mem (nodup.filter sees) inside

/-- The operations act as append, removal and move to the end on the list that the pointers
represent, the cursor stays on it, and a scan returns once what stays where it is, counted from
the last time that the scan was begun. -/
theorem actsAsList_of_called (called : Called maxConn calls) :
    ActsAsList maxConn calls ∧ ScansOnceAtLast maxConn calls := by
  have divided := divided_afterCalls called
  have nodes := nodes_cursorList called
  have represents : (afterCalls maxConn calls).ActiveList (members calls) := by
    rw [← nodes]
    exact divided.activeList
  refine ⟨⟨represents, ?_, represents.outside, ?_⟩, ?_⟩
  · intro conn other
    exact represents.next_iff_prev
  · intro conn at_cursor
    rw [divided.cursor] at at_cursor
    rw [← nodes]
    exact List.mem_append_right _ (List.mem_of_mem_head? at_cursor)
  · rintro before scan rfl finished
    let sees : ConnId → Bool := fun conn =>
      decide (conn ∈ members before) && !scan.any (·.touches conn)
    have listed : ∀ conn, sees conn = true → conn ∈ members before := by
      intro conn seen
      exact of_decide_eq_true (Bool.and_eq_true_iff.mp seen).1
    have kept : ∀ call ∈ scan, ∀ conn, sees conn = true → call.touches conn = false := by
      intro call inside conn seen
      have untouched := (Bool.and_eq_true_iff.mp seen).2
      rw [Bool.not_eq_true', List.any_eq_false] at untouched
      exact eq_false_of_ne_true (untouched call inside)
    have same : keptMembers before scan = (members before).filter sees := by
      apply List.filter_congr
      intro conn inside
      simp [sees, inside]
    have nodup : (members before).Nodup := by
      rw [← nodes_cursorList called.of_append]
      exact (divided_afterCalls called.of_append).nodup
    rw [same]
    apply returnsOnce_of_filter nodup
    exact (follows_scan listed kept called).at_end (rest_of_finished called finished)

def begunAgain : List ActiveListCall :=
  [.push 0, .push 1, .timeoutCheck, .checkNext, .timeoutCheck, .checkNext, .checkNext, .checkNext]

theorem Called.push (called : Called maxConn calls) {conn : ConnId}
    (outside : conn ∉ members calls) : Called maxConn (calls ++ [.push conn]) := by
  refine called.concat (.push conn) ?_
  rw [← nodes_cursorList called] at outside
  exact (mem_nodes_iff (divided_afterCalls called) conn).not.mpr outside

theorem called_begunAgain : Called 1 begunAgain := by
  have pushed : Called 1 [.push 0, .push 1] := (Called.nil.push (by decide)).push (by decide)
  have begun := (pushed.concat .timeoutCheck trivial).concat .checkNext trivial
  have again := (begun.concat .timeoutCheck trivial).concat .checkNext trivial
  exact (again.concat .checkNext trivial).concat .checkNext trivial

theorem actsAsList_begunAgain : ActsAsList 1 begunAgain ∧ ScansOnceAtLast 1 begunAgain :=
  actsAsList_of_called called_begunAgain

/-- The first connection is returned twice behind the first `ActiveListTimeoutCheck`. -/
theorem not_scansOnce_begunAgain : Called 1 begunAgain ∧ ¬ ScansOnce 1 begunAgain := by
  refine ⟨called_begunAgain, ?_⟩
  intro scansOnce
  have finished : Finished 1 begunAgain := ⟨begunAgain.dropLast, by decide, by decide⟩
  have once := (scansOnce [.push 0, .push 1] _ rfl finished).2 0 (by decide)
  revert once
  decide

end Mevent.ConnectionPool
