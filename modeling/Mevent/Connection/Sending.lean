import Mevent.Connection.Model
import Mevent.Library.Transition

/-!
# What the kernel gets of a connection's output

Beside a connection without TLS the model keeps what has been queued on it and what the
calls to `write(2)` have accepted.  `Writen` that fails does not tell `Flush` how many bytes
have been accepted before; a caller that keeps the connection then sends them again.
-/

namespace Mevent

open Library

/-- Whether a call to `write(2)` has accepted bytes. -/
def WriteResult.accepts : WriteResult → Bool
  | .accepted _ => true
  | _ => false

/-- Who calls `Flush`: a worker, `OnRead`, `OnWrite`, or a function of `WebSocket` that takes
the lock itself. -/
inductive FlushCaller where
  | worker
  | onRead
  | onWrite
  | safe
  deriving DecidableEq, Repr

/-- Whether the caller of `Flush` passes the connection to `ResetConnection`. -/
def FlushCaller.closes : FlushCaller → ConnStatus → Bool
  | .worker, status => decide (status ≠ .again ∧ status ≠ .upgrade)
  | .onRead, status => decide (status ≠ .again)
  | .onWrite, status => decide (status ≠ .again)
  | .safe, _ => false

namespace WriteBuffer

/-- The number of bytes for which `Flush` calls `Writen`. -/
def asked (wb : WriteBuffer) : Nat := wrap64 (wb.len + 2 ^ 64 - wb.writeLen)

/-- The bytes that `Flush` has not counted as written. -/
def pending (wb : WriteBuffer) : Bytes := wb.str.drop wb.writeLen

/-- `Writen` has returned `n` bytes. -/
def advance (wb : WriteBuffer) (n : Nat) : WriteBuffer :=
  { wb with writeLen := wrap64 (wb.writeLen + n) }

structure Waiting (wb : WriteBuffer) : Prop where
  len : wb.len = wb.str.length
  left : wb.writeLen < wb.len
  inMemory : wb.len ≤ vectorMaxSize

end WriteBuffer

/-- One call of `Writen` by `Flush`: its buffer, what the calls to the socket are to return,
and what it leaves behind. -/
structure Writing where
  buffer : WriteBuffer
  tls : Bool
  results : List WriteResult
  written : Connection.WritenResult

namespace Writing

/-- The bytes that the kernel has accepted. -/
def sent (writing : Writing) : Bytes := writing.buffer.pending.take writing.written.accepted

/-- The call fails behind a `write(2)` that has accepted bytes. -/
def Tears (writing : Writing) : Prop :=
  writing.written.ret < 0 ∧ 0 < writing.written.accepted

instance (writing : Writing) : Decidable writing.Tears := inferInstanceAs (Decidable (_ ∧ _))

end Writing

namespace Connection

/-- The calls of `Writen` in the loop of `Flush`. -/
def chainWritings (tls : Bool) : List WriteBuffer → List WriteResult → List Writing
  | [], _ => []
  | wb :: chain, results =>
      let written := writen tls wb.asked results
      ⟨wb, tls, results, written⟩ ::
        if 0 ≤ written.ret ∧ (wb.advance written.ret.toNat).writeLen = wb.len then
          chainWritings tls chain written.rest
        else
          []

/-- The calls of `Writen` in a `Flush`. -/
def writings (conn : Connection) (results : List WriteResult) : List Writing :=
  if conn.fd < 0 then [] else chainWritings conn.ssl conn.writeBufferChain results

/-- A connection behind `Accept`, without TLS. -/
structure Installed (conn : Connection) : Prop where
  opened : 0 ≤ conn.fd
  empty : conn.writeBufferChain = []
  plain : conn.ssl = false

end Connection

/-- A connection with its history since `Accept`: the non-empty strings queued on it, the
bytes that the kernel has accepted, whether a call of `Writen` has torn a buffer, and what
`Flush` has returned if it was the last to be called.  A connection is closing when
`ResetConnection` is to end the section that has called `Flush`. -/
structure Sending where
  conn : Connection
  queued : Bytes
  accepted : Bytes
  torn : Bool
  returned : Option ConnStatus
  closing : Bool

/-- The calls on a connection.  `others` stands for all that changes neither its descriptor
nor its queue. -/
inductive SendCall where
  | writeString (str : Bytes)
  | flush (caller : FlushCaller) (results : List WriteResult)
  | resetConnection
  | others (req : Request) (resp : Response) (ws : WebSocket) (activeTime : Int)
      (evWritable : Bool)

namespace Sending

/-- Behind `Accept`. -/
def start (conn : Connection) : Sending := ⟨conn, [], [], false, none, false⟩

/-- `WriteString` and `WriteData`. -/
def writeString (sending : Sending) (str : Bytes) : Sending :=
  { sending with
    conn := sending.conn.writeString str
    queued := if sending.conn.fd < 0 then sending.queued else sending.queued ++ str
    returned := none }

/-- `Flush`. -/
def flush (sending : Sending) (caller : FlushCaller) (results : List WriteResult) : Sending :=
  let flushed := sending.conn.flush results
  let writings := sending.conn.writings results
  { sending with
    conn := flushed.2
    accepted := sending.accepted ++ writings.flatMap Writing.sent
    torn := sending.torn || decide (∃ writing ∈ writings, writing.Tears)
    returned := some flushed.1
    closing := caller.closes flushed.1 && decide (0 < sending.conn.fd) }

/-- `ResetConnection` behind `OnClose`. -/
def resetConnection (sending : Sending) : Sending :=
  { sending with
    conn := if 0 < sending.conn.fd then sending.conn.reset else sending.conn
    returned := none
    closing := false }

/-- One call.  Between a `Flush` and the `ResetConnection` that its caller makes behind it,
`on_close_func_` may still queue. -/
def step (sending : Sending) : SendCall → Option Sending
  | .writeString str => some (sending.writeString str)
  | .flush caller results => if sending.closing then none else some (sending.flush caller results)
  | .resetConnection => some sending.resetConnection
  | .others req resp ws activeTime evWritable =>
      some { sending with
        conn := { sending.conn with
          req := req, resp := resp, ws := ws, activeTime := activeTime, evWritable := evWritable }
        returned := none }

end Sending

namespace Connection

section Writen

variable {tls : Bool} {len : Nat}

/-- `Writen` fails, or returns the number of bytes that have been accepted. -/
theorem ret_writenFrom (tls : Bool) (len n : Nat) (results : List WriteResult) :
    (writenFrom tls len n results).ret = -1 ∨
      (writenFrom tls len n results).ret = (writenFrom tls len n results).accepted := by
  induction results generalizing n with
  | nil => exact .inr rfl
  | cons result rest inductionHypothesis =>
      unfold writenFrom
      split
      · cases result with
        | accepted more => exact inductionHypothesis _
        | ended sslError => exact (stopped_cases tls n sslError none).symm
        | failed sslError errno => exact (stopped_cases tls n sslError (some errno)).symm
      · exact .inr rfl

/-- Nothing is accepted when the first `write(2)` accepts nothing. -/
theorem accepted_writen (tls : Bool) (len : Nat) {results : List WriteResult}
    (refused : results.head?.any WriteResult.accepts = false) :
    (writen tls len results).accepted = 0 := by
  cases results with
  | nil => rfl
  | cons result rest =>
      unfold writen writenFrom
      split
      · cases result with
        | accepted more => simp [WriteResult.accepts] at refused
        | ended sslError => rfl
        | failed sslError errno => rfl
      · rfl

end Writen

end Connection

namespace WriteBuffer

variable {wb : WriteBuffer}

theorem Waiting.asked (waiting : wb.Waiting) : wb.asked = wb.len - wb.writeLen := by
  have left := waiting.left
  have inMemory := waiting.inMemory
  unfold vectorMaxSize at inMemory
  unfold WriteBuffer.asked wrap64
  omega

theorem Waiting.advance (waiting : wb.Waiting) {n : Nat} (within : n ≤ wb.asked) :
    (wb.advance n).writeLen = wb.writeLen + n := by
  have left := waiting.left
  have inMemory := waiting.inMemory
  rw [waiting.asked] at within
  unfold vectorMaxSize at inMemory
  apply wrap64_of_lt
  omega

theorem Waiting.pending_advance (waiting : wb.Waiting) {n : Nat} (within : n ≤ wb.asked) :
    (wb.advance n).pending = wb.pending.drop n := by
  unfold pending
  rw [waiting.advance within, List.drop_drop]
  rfl

theorem Waiting.length_pending (waiting : wb.Waiting) : wb.pending.length = wb.asked := by
  rw [waiting.asked, pending, List.length_drop, waiting.len]

theorem waiting_new {str : Bytes} (nonempty : str ≠ []) (inMemory : str.length ≤ vectorMaxSize) :
    (new str).Waiting :=
  ⟨rfl, List.length_pos_iff.mpr nonempty, inMemory⟩

end WriteBuffer

namespace Connection

/-- What the first call of `Writen` in a `Flush` leads to: it writes the rest of its buffer,
or a part of it, or it fails. -/
inductive FirstWriting (wb : WriteBuffer) (chain : List WriteBuffer)
    (results : List WriteResult) :
    Option ConnStatus × List WriteBuffer → List Writing → Prop where
  | whole (writing : Writing) (rest : List WriteResult) : writing.sent = wb.pending →
      ¬ writing.Tears → FirstWriting wb chain results (flushChain false chain rest)
        (writing :: chainWritings false chain rest)
  | part (writing : Writing) (advanced : WriteBuffer) : advanced.Waiting →
      writing.sent ++ advanced.pending = wb.pending → ¬ writing.Tears →
      FirstWriting wb chain results (some .again, advanced :: chain) [writing]
  | failed (writing : Writing) : writing.sent <+: wb.pending →
      (¬ writing.Tears → writing.sent = []) →
      FirstWriting wb chain results (some .error, wb :: chain) [writing]

theorem flushChain_cons (tls : Bool) (wb : WriteBuffer) (chain : List WriteBuffer)
    (results : List WriteResult) :
    flushChain tls (wb :: chain) results =
      let written := writen tls wb.asked results
      if 0 ≤ written.ret then
        if (wb.advance written.ret.toNat).writeLen = wb.len then
          flushChain tls chain written.rest
        else
          (some .again, wb.advance written.ret.toNat :: chain)
      else
        (some .error, wb :: chain) := rfl

theorem firstWriting {wb : WriteBuffer} {chain : List WriteBuffer} {results : List WriteResult}
    (waiting : wb.Waiting)
    (possible : ∀ writing ∈ chainWritings false (wb :: chain) results,
      writing.written.accepted ≤ writing.buffer.asked) :
    FirstWriting wb chain results (flushChain false (wb :: chain) results)
      (chainWritings false (wb :: chain) results) := by
  have within : (writen false wb.asked results).accepted ≤ wb.asked :=
    possible ⟨wb, false, results, writen false wb.asked results⟩ List.mem_cons_self
  have returned : (writen false wb.asked results).ret = -1 ∨
      (writen false wb.asked results).ret = (writen false wb.asked results).accepted :=
    ret_writenFrom false wb.asked 0 results
  rw [flushChain_cons, chainWritings]
  generalize writen false wb.asked results = written at within returned ⊢
  dsimp only
  rcases returned with failed | counted
  · have negative : ¬ 0 ≤ written.ret := by simp [failed]
    rw [if_neg negative, if_neg (fun both => negative both.1)]
    apply FirstWriting.failed
    · exact List.take_prefix _ _
    · intro untorn
      have refused : written.accepted = 0 :=
        Nat.eq_zero_of_not_pos fun some_bytes => untorn ⟨Int.not_le.mp negative, some_bytes⟩
      simp [Writing.sent, refused]
  · have nonnegative : 0 ≤ written.ret := counted ▸ Int.natCast_nonneg _
    have untorn : ¬ Writing.Tears ⟨wb, false, results, written⟩ :=
      fun torn => absurd torn.1 (Int.not_lt.mpr nonnegative)
    have toNat : written.ret.toNat = written.accepted := by simp [counted]
    have advance := waiting.advance within
    have rest := waiting.pending_advance within
    have left := waiting.left
    rw [if_pos nonnegative, toNat]
    split
    next finished =>
      rw [if_pos ⟨nonnegative, finished⟩]
      refine .whole ⟨wb, false, results, written⟩ written.rest ?_ untorn
      have everything : wb.pending.length ≤ written.accepted := by
        rw [waiting.length_pending, waiting.asked]
        omega
      exact List.take_of_length_le everything
    next unfinished =>
      rw [if_neg (fun both => unfinished both.2)]
      rw [waiting.asked] at within
      refine .part ⟨wb, false, results, written⟩ (wb.advance written.accepted)
        ⟨waiting.len, ?_, waiting.inMemory⟩ ?_ untorn
      · have remaining : (wb.advance written.accepted).writeLen < wb.len := by omega
        exact remaining
      · rw [rest]
        exact List.take_append_drop _ _

/-- What `Flush` makes of a queue. -/
structure ChainFlushed (chain : List WriteBuffer)
    (flushed : Option ConnStatus × List WriteBuffer) (writings : List Writing) : Prop where
  waiting : ∀ wb ∈ flushed.2, wb.Waiting
  inOrder : writings.flatMap Writing.sent <+: chain.flatMap WriteBuffer.pending
  whole : (∀ writing ∈ writings, ¬ writing.Tears) →
    writings.flatMap Writing.sent ++ flushed.2.flatMap WriteBuffer.pending =
      chain.flatMap WriteBuffer.pending
  torn : (∃ writing ∈ writings, writing.Tears) → flushed.2 ≠ []
  drained : flushed.1 = none → flushed.2 = []
  early : flushed.1 ≠ some .finished ∧ flushed.1 ≠ some .upgrade

section FlushChain

variable {chain : List WriteBuffer} {results : List WriteResult}

theorem chainFlushed (waiting : ∀ wb ∈ chain, wb.Waiting)
    (possible : ∀ writing ∈ chainWritings false chain results,
      writing.written.accepted ≤ writing.buffer.asked) :
    ChainFlushed chain (flushChain false chain results) (chainWritings false chain results) := by
  induction chain generalizing results with
  | nil => exact ⟨nofun, List.prefix_rfl, fun _ => rfl, nofun, fun _ => rfl, nofun, nofun⟩
  | cons wb chain inductionHypothesis =>
      rw [List.forall_mem_cons] at waiting
      have first := firstWriting waiting.1 possible
      generalize flushChain false (wb :: chain) results = flushed at first ⊢
      generalize chainWritings false (wb :: chain) results = writings at first possible ⊢
      cases first with
      | whole writing rest sent untorn =>
          rw [List.forall_mem_cons] at possible
          have later := inductionHypothesis waiting.2 possible.2
          refine ⟨later.waiting, ?_, ?_, ?_, later.drained, later.early⟩
          · rw [List.flatMap_cons, List.flatMap_cons, sent, List.prefix_append_right_inj]
            exact later.inOrder
          · intro noneTears
            rw [List.forall_mem_cons] at noneTears
            rw [List.flatMap_cons, List.flatMap_cons, sent, List.append_assoc,
              later.whole noneTears.2]
          · intro someTears
            rw [List.exists_mem_cons_iff] at someTears
            exact later.torn (someTears.resolve_left untorn)
      | part writing advanced stillWaiting sent untorn =>
          have listed : ∀ other ∈ advanced :: chain, other.Waiting :=
            List.forall_mem_cons.mpr ⟨stillWaiting, waiting.2⟩
          refine ⟨listed, ?_, ?_, fun _ => List.cons_ne_nil _ _, nofun, nofun, nofun⟩
          · rw [List.flatMap_singleton, List.flatMap_cons, ← sent, List.append_assoc]
            exact List.prefix_append _ _
          · intro _
            rw [List.flatMap_singleton, List.flatMap_cons, List.flatMap_cons, ← sent,
              List.append_assoc]
      | failed writing sent untorn =>
          have listed : ∀ other ∈ wb :: chain, other.Waiting := List.forall_mem_cons.mpr waiting
          refine ⟨listed, ?_, ?_, fun _ => List.cons_ne_nil _ _, nofun, nofun, nofun⟩
          · rw [List.flatMap_singleton, List.flatMap_cons]
            exact sent.trans (List.prefix_append _ _)
          · intro noneTears
            rw [List.flatMap_singleton, untorn (noneTears writing List.mem_cons_self),
              List.nil_append]

/-- When the first `write(2)` accepts nothing, nothing is sent and the queue keeps all. -/
theorem chain_refused (waiting : ∀ wb ∈ chain, wb.Waiting) (nonempty : chain ≠ [])
    (possible : ∀ writing ∈ chainWritings false chain results,
      writing.written.accepted ≤ writing.buffer.asked)
    (refused : results.head?.any WriteResult.accepts = false) :
    (chainWritings false chain results).flatMap Writing.sent = [] ∧
      (flushChain false chain results).2 ≠ [] := by
  cases chain with
  | nil => exact absurd rfl nonempty
  | cons wb chain =>
      rw [List.forall_mem_cons] at waiting
      have first := firstWriting waiting.1 possible
      have unsent : ∀ writing ∈ (chainWritings false (wb :: chain) results).head?,
          writing.sent = [] := by
        intro writing at_head
        cases at_head
        simp [Writing.sent, accepted_writen false wb.asked refused]
      generalize flushChain false (wb :: chain) results = flushed at first ⊢
      generalize chainWritings false (wb :: chain) results = writings at first unsent ⊢
      cases first with
      | whole writing rest sent untorn =>
          have left := waiting.1.left
          have pending := waiting.1.length_pending
          rw [← sent, unsent writing rfl, waiting.1.asked, List.length_nil] at pending
          omega
      | part writing advanced stillWaiting sent untorn =>
          exact ⟨by simp [unsent writing rfl], List.cons_ne_nil _ _⟩
      | failed writing sent untorn =>
          exact ⟨by simp [unsent writing rfl], List.cons_ne_nil _ _⟩

end FlushChain

end Connection

/-- What holds of a call whatever the program does: a `std::string` has at most its
`max_size()`, and `write(2)` accepts no more than it is given. -/
def SendCall.Possible (sending : Sending) : SendCall → Prop
  | .writeString str => str.length ≤ vectorMaxSize
  | .flush _ results =>
      ∀ writing ∈ sending.conn.writings results, writing.written.accepted ≤ writing.buffer.asked
  | .resetConnection => True
  | .others .. => True

/-- The first `write(2)` behind a torn buffer accepts bytes. -/
def SendCall.Resends (sending : Sending) : SendCall → Prop
  | .flush _ results => sending.torn = true ∧ results.head?.any WriteResult.accepts = true
  | _ => False

instance (sending : Sending) : DecidablePred (SendCall.Possible sending)
  | .writeString _ => inferInstanceAs (Decidable (_ ≤ _))
  | .flush _ results => inferInstanceAs (Decidable (∀ writing ∈ sending.conn.writings results,
      writing.written.accepted ≤ writing.buffer.asked))
  | .resetConnection => inferInstanceAs (Decidable True)
  | .others .. => inferInstanceAs (Decidable True)

instance (sending : Sending) : DecidablePred (SendCall.Resends sending)
  | .writeString _ => inferInstanceAs (Decidable False)
  | .flush .. => inferInstanceAs (Decidable (_ ∧ _))
  | .resetConnection => inferInstanceAs (Decidable False)
  | .others .. => inferInstanceAs (Decidable False)

namespace Sending

/-- The kernel has accepted a prefix of what has been queued, no buffer counts more than it
holds, and `Flush` returns `END` or `UPGRADE` only if that prefix is everything. -/
structure Delivers (sending : Sending) : Prop where
  inOrder : sending.accepted <+: sending.queued
  within : ∀ wb ∈ sending.conn.writeBufferChain, wb.writeLen ≤ wb.len
  complete : sending.returned = some .finished ∨ sending.returned = some .upgrade →
    sending.accepted = sending.queued

structure Sound (sending : Sending) : Prop where
  plain : sending.conn.ssl = false
  waiting : ∀ wb ∈ sending.conn.writeBufferChain, wb.Waiting
  inOrder : sending.accepted <+: sending.queued
  whole : ¬ sending.conn.fd < 0 → sending.torn = false →
    sending.accepted ++ sending.conn.writeBufferChain.flatMap WriteBuffer.pending =
      sending.queued
  kept : ¬ sending.conn.fd < 0 → sending.torn = true → sending.conn.writeBufferChain ≠ []
  complete : sending.returned = some .finished ∨ sending.returned = some .upgrade →
    sending.accepted = sending.queued

variable {sending later : Sending}

theorem Sound.delivers (sound : sending.Sound) : sending.Delivers :=
  ⟨sound.inOrder, fun wb listed => Nat.le_of_lt (sound.waiting wb listed).left, sound.complete⟩

theorem sound_start {conn : Connection} (installed : conn.Installed) : (start conn).Sound := by
  refine ⟨installed.plain, ?_, List.prefix_rfl, ?_, ?_, ?_⟩
  · simp [start, installed.empty]
  · simp [start, installed.empty]
  · simp [start]
  · simp [start]

theorem Sound.writeString (sound : sending.Sound) {str : Bytes}
    (inMemory : str.length ≤ vectorMaxSize) : (sending.writeString str).Sound := by
  unfold Sending.writeString Connection.writeString
  by_cases closed : sending.conn.fd < 0
  · simp only [closed, or_true, if_true]
    exact ⟨sound.plain, sound.waiting, sound.inOrder, sound.whole, sound.kept, nofun⟩
  · simp only [closed, or_false, if_false]
    split
    next empty =>
      rw [empty, List.append_nil]
      exact ⟨sound.plain, sound.waiting, sound.inOrder, sound.whole, sound.kept, nofun⟩
    next nonempty =>
      refine ⟨sound.plain, ?_, sound.inOrder.trans (List.prefix_append _ _), ?_, ?_, nofun⟩
      · intro wb listed
        rcases List.mem_append.mp listed with earlier | fresh
        · exact sound.waiting wb earlier
        · rw [List.mem_singleton.mp fresh]
          exact WriteBuffer.waiting_new nonempty inMemory
      · intro _ untorn
        have queued := sound.whole closed untorn
        simp only [List.flatMap_append, List.flatMap_singleton]
        rw [← List.append_assoc, queued]
        rfl
      · intro _ _
        simp

theorem Sound.resetConnection (sound : sending.Sound) : sending.resetConnection.Sound := by
  unfold Sending.resetConnection
  split
  next opened =>
    have gone : sending.conn.reset.fd < 0 := by simp [Connection.reset, opened]
    refine ⟨rfl, nofun, sound.inOrder, ?_, ?_, nofun⟩
    · exact fun opened' => absurd gone opened'
    · exact fun opened' => absurd gone opened'
  next =>
    exact ⟨sound.plain, sound.waiting, sound.inOrder, sound.whole, sound.kept, nofun⟩

theorem Sound.writings (sound : sending.Sound) (results : List WriteResult)
    (opened : ¬ sending.conn.fd < 0) : sending.conn.writings results =
      Connection.chainWritings false sending.conn.writeBufferChain results := by
  rw [Connection.writings, if_neg opened, sound.plain]

theorem Sound.possible (sound : sending.Sound) {caller : FlushCaller}
    {results : List WriteResult} (opened : ¬ sending.conn.fd < 0)
    (possible : (SendCall.flush caller results).Possible sending) :
    ∀ writing ∈ Connection.chainWritings false sending.conn.writeBufferChain results,
      writing.written.accepted ≤ writing.buffer.asked := by
  rw [← sound.writings results opened]
  exact possible

/-- `Flush` returns `END` or `UPGRADE` only behind its loop. -/
theorem drained_of_returned {early : Option ConnStatus} {status : ConnStatus}
    (notFinished : early ≠ some .finished ∧ early ≠ some .upgrade)
    (returned : some (early.getD status) = some .finished ∨
      some (early.getD status) = some .upgrade) : early = none := by
  cases early with
  | none => rfl
  | some status =>
      rcases returned with finished | upgraded
      · exact absurd finished notFinished.1
      · exact absurd upgraded notFinished.2

theorem Sound.flush (sound : sending.Sound) {caller : FlushCaller} {results : List WriteResult}
    (possible : (SendCall.flush caller results).Possible sending)
    (fresh : ¬ (SendCall.flush caller results).Resends sending) :
    (sending.flush caller results).Sound := by
  by_cases closed : sending.conn.fd < 0
  · have flushed : sending.conn.flush results = (.closed, sending.conn) := if_pos closed
    have none_written : sending.conn.writings results = [] := if_pos closed
    simp only [Sending.flush, flushed, none_written]
    refine ⟨sound.plain, sound.waiting, ?_, ?_, ?_, nofun⟩
    · simpa using sound.inOrder
    · exact fun opened => absurd closed opened
    · exact fun opened => absurd closed opened
  · have chain := Connection.chainFlushed sound.waiting (sound.possible closed possible)
    simp only [Sending.flush, Connection.flush, if_neg closed, sound.plain,
      sound.writings results closed]
    cases torn : sending.torn with
    | false =>
        have queued := sound.whole closed torn
        refine ⟨rfl, chain.waiting, ?_, ?_, ?_, ?_⟩
        · rw [← queued, List.prefix_append_right_inj]
          exact chain.inOrder
        · intro _ noneTears
          rw [Bool.false_or, decide_eq_false_iff_not, not_exists] at noneTears
          rw [← queued, List.append_assoc,
            chain.whole fun writing listed tears => noneTears writing ⟨listed, tears⟩]
        · intro _ someTears
          rw [Bool.false_or, decide_eq_true_iff] at someTears
          exact chain.torn someTears
        · intro returned
          have empty := chain.drained (drained_of_returned chain.early returned)
          have everything := chain.whole
            fun writing listed tears => chain.torn ⟨writing, listed, tears⟩ empty
          rw [empty, List.flatMap_nil, List.append_nil] at everything
          rw [← queued, everything]
    | true =>
        have refused : results.head?.any WriteResult.accepts = false :=
          Bool.eq_false_iff.mpr fun accepts => fresh ⟨torn, accepts⟩
        obtain ⟨unsent, kept⟩ := Connection.chain_refused sound.waiting (sound.kept closed torn)
          (sound.possible closed possible) refused
        rw [unsent, List.append_nil]
        refine ⟨rfl, chain.waiting, sound.inOrder, nofun, fun _ _ => kept, ?_⟩
        intro returned
        exact absurd (chain.drained (drained_of_returned chain.early returned)) kept

theorem Sound.step (sound : sending.Sound) {call : SendCall} (possible : call.Possible sending)
    (fresh : ¬ call.Resends sending) (stepped : sending.step call = some later) :
    later.Sound := by
  cases call with
  | writeString str =>
      cases stepped
      exact sound.writeString possible
  | flush caller results =>
      obtain ⟨-, same⟩ := Option.ite_none_left_eq_some.mp stepped
      cases same
      exact sound.flush possible fresh
  | resetConnection =>
      cases stepped
      exact sound.resetConnection
  | others req resp ws activeTime evWritable =>
      cases stepped
      exact ⟨sound.plain, sound.waiting, sound.inOrder, sound.whole, sound.kept, nofun⟩

/-- Whatever the calls and whatever `write(2)` returns: as long as no bytes are accepted behind
a torn buffer, the kernel gets what has been queued, in order and once. -/
theorem delivers_of_reaches {conn : Connection} (installed : conn.Installed)
    (reached : Reaches step
      (fun sending call => call.Possible sending ∧ ¬ call.Resends sending) (start conn) sending) :
    sending.Delivers := by
  have sound : sending.Sound :=
    reached.invariant (sound_start installed)
      (fun _ _ _ sound allowed stepped => sound.step allowed.1 allowed.2 stepped)
  exact sound.delivers

def fresh : Connection := { Connection.new with fd := 5 }

def upgrades : SendCall :=
  .others { Request.reset with status := .upgrade } .reset .reset 0 false

/-- A worker writes a frame in two parts, the second before the next frame. -/
def twoParts : List SendCall :=
  [upgrades, .writeString [97, 98], .flush .worker [.accepted 0, .failed .other .again],
    .writeString [99], .flush .worker [.accepted 0, .accepted 0]]

/-- Two functions of `WebSocket` that take the lock themselves: the call of `write(2)` behind
the first byte fails. -/
def sentTwice : List SendCall :=
  [upgrades, .writeString [97, 98], .flush .safe [.accepted 0, .failed .other .other],
    .writeString [99], .flush .safe [.accepted 1, .accepted 0]]

theorem installed_fresh : fresh.Installed := ⟨by decide, rfl, rfl⟩

/-- Behind the two parts the kernel has got everything. -/
theorem delivers_twoParts : ∃ sending, replay step
    (fun sending call => call.Possible sending ∧ ¬ call.Resends sending) (start fresh) twoParts =
      some sending ∧ sending.accepted = [97, 98, 99] ∧ sending.Delivers :=
  ⟨_, rfl, by decide +kernel,
    delivers_of_reaches installed_fresh (@reaches_of_replay _ _ _ _ _ _ _ twoParts rfl)⟩

/-- The kernel gets the first byte twice. -/
theorem not_delivers_sentTwice :
    ¬ ∀ (conn : Connection), conn.Installed → ∀ sending,
      Reaches step (fun sending call => call.Possible sending) (start conn) sending →
        sending.Delivers := by
  intro claim
  have sent : ∃ sending, replay step (fun sending call => call.Possible sending) (start fresh)
      sentTwice = some sending ∧ sending.accepted = [97, 97, 98, 99] ∧
        sending.queued = [97, 98, 99] :=
    ⟨_, rfl, by decide +kernel, by decide +kernel⟩
  obtain ⟨sending, replayed, accepted, queued⟩ := sent
  have delivers := claim fresh installed_fresh sending (reaches_of_replay replayed)
  have inOrder := delivers.inOrder
  rw [accepted, queued] at inOrder
  exact absurd inOrder (by decide)

end Sending

end Mevent
