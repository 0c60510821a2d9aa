import Mevent.Connection.Flushing

/-!
# `WriteStringSafe` and its siblings

Four functions of `WebSocket` take the lock, queue a frame, call `Flush` and compare its
value with `ERROR` and with `CLOSE` at once, so they return true whatever becomes of the
frame.
-/

namespace Mevent

/-- A call to the socket has failed, as opposed to one that would block. -/
def WriteResult.fails (tls : Bool) : WriteResult → Bool
  | .accepted _ => false
  | .ended sslError => !tls || decide (sslError ≠ .wantRead ∧ sslError ≠ .wantWrite)
  | .failed sslError errno =>
      if tls then
        match sslError with
        | .wantRead => false
        | .wantWrite => false
        | .syscall => decide (errno = .other)
        | .ssl => true
        | .other => true
      else
        decide (errno = .other)

namespace Connection

/-- Whether `Writen` has returned because a call to the socket has failed. -/
def writenFails (tls : Bool) (len : Nat) : (n : Nat) → List WriteResult → Bool
  | _, [] => false
  | n, result :: rest =>
      if (n : Int) < asSsize len then
        match result with
        | .accepted more => writenFails tls len (n + (more + 1)) rest
        | .ended sslError => WriteResult.fails tls (.ended sslError)
        | .failed sslError errno => WriteResult.fails tls (.failed sslError errno)
      else
        false

/-- How far a socket takes output. -/
inductive Uptake where
  | whole
  | blocks
  | fails
  deriving DecidableEq, Repr

/-- What becomes of `left` bytes when the calls to the socket return these results. -/
def uptake (tls : Bool) : (left : Nat) → List WriteResult → Uptake
  | 0, _ => .whole
  | _ + 1, [] => .blocks
  | left + 1, .accepted more :: rest => uptake tls (left - more) rest
  | _ + 1, .ended sslError :: _ =>
      if WriteResult.fails tls (.ended sslError) then .fails else .blocks
  | _ + 1, .failed sslError errno :: _ =>
      if WriteResult.fails tls (.failed sslError errno) then .fails else .blocks

/-- What the four functions have in common, behind `MakeFrame`. -/
def writeSafe (conn : Connection) (data : Bytes) (results : List WriteResult) :
    Bool × Connection :=
  let flushed := (conn.writeString data).flush results
  if flushed.1 = .error ∧ flushed.1 = .closed then (false, flushed.2) else (true, flushed.2)

/-- `WebSocket::SendPongSafe`. -/
def sendPongSafe (conn : Connection) (str : Bytes) : List WriteResult → Bool × Connection :=
  conn.writeSafe (WebSocket.makeFrame [] str (UInt8.ofNat WebSocketOpcodeType.pong.code))

/-- `WebSocket::SendPingSafe`. -/
def sendPingSafe (conn : Connection) (str : Bytes) : List WriteResult → Bool × Connection :=
  conn.writeSafe (WebSocket.makeFrame [] str (UInt8.ofNat WebSocketOpcodeType.ping.code))

/-- `WebSocket::WriteStringSafe`. -/
def writeStringSafe (conn : Connection) (str : Bytes) : List WriteResult → Bool × Connection :=
  conn.writeSafe (WebSocket.makeFrame [] str (UInt8.ofNat WebSocketOpcodeType.textFrame.code))

/-- `WebSocket::WriteRawDataSafe`. -/
def writeRawDataSafe (conn : Connection) (data : Bytes) :
    List WriteResult → Bool × Connection :=
  conn.writeSafe data

end Connection

/-- A call of one of the four functions. -/
inductive SafeCall where
  | sendPongSafe (str : Bytes)
  | sendPingSafe (str : Bytes)
  | writeStringSafe (str : Bytes)
  | writeRawDataSafe (data : Bytes)
  deriving DecidableEq, Repr

namespace SafeCall

/-- The bytes that the call queues. -/
def frame : SafeCall → Bytes
  | .sendPongSafe str =>
      WebSocket.makeFrame [] str (UInt8.ofNat WebSocketOpcodeType.pong.code)
  | .sendPingSafe str =>
      WebSocket.makeFrame [] str (UInt8.ofNat WebSocketOpcodeType.ping.code)
  | .writeStringSafe str =>
      WebSocket.makeFrame [] str (UInt8.ofNat WebSocketOpcodeType.textFrame.code)
  | .writeRawDataSafe data => data

def run (conn : Connection) (results : List WriteResult) : SafeCall → Bool × Connection
  | .sendPongSafe str => conn.sendPongSafe str results
  | .sendPingSafe str => conn.sendPingSafe str results
  | .writeStringSafe str => conn.writeStringSafe str results
  | .writeRawDataSafe data => conn.writeRawDataSafe data results

theorem run_eq (conn : Connection) (results : List WriteResult) (call : SafeCall) :
    call.run conn results = conn.writeSafe call.frame results := by
  cases call with
  | sendPongSafe str => rfl
  | sendPingSafe str => rfl
  | writeStringSafe str => rfl
  | writeRawDataSafe data => rfl

/-- Whatever `Flush` returns. -/
theorem run_fst (conn : Connection) (results : List WriteResult) (call : SafeCall) :
    (call.run conn results).1 = true := by
  rw [run_eq, Connection.writeSafe]
  split
  next both =>
    rw [both.1] at both
    cases both.2
  next => rfl

theorem run_snd (conn : Connection) (results : List WriteResult) (call : SafeCall) :
    (call.run conn results).2 = ((conn.writeString call.frame).flush results).2 := by
  rw [run_eq, Connection.writeSafe]
  split
  · rfl
  · rfl

end SafeCall

/-- A call of `Writen` has met a failure of the socket. -/
def Writing.Fails (writing : Writing) : Prop :=
  Connection.writenFails writing.tls writing.buffer.asked 0 writing.results = true

instance (writing : Writing) : Decidable writing.Fails := inferInstanceAs (Decidable (_ = _))

namespace Connection

section Writen

variable {tls : Bool} {len : Nat}

theorem accepted_writenFrom_ge (tls : Bool) (len n : Nat) (results : List WriteResult) :
    n ≤ (writenFrom tls len n results).accepted := by
  induction results generalizing n with
  | nil => exact Nat.le_refl n
  | cons result rest inductionHypothesis =>
      unfold writenFrom
      split
      · cases result with
        | accepted more => exact Nat.le_trans (Nat.le_add_right _ _) (inductionHypothesis _)
        | ended sslError => exact Nat.le_refl n
        | failed sslError errno => exact Nat.le_refl n
      · exact Nat.le_refl n

/-- How a call of `Writen` ends that is to write the first `len - n` of the bytes left: it has
written them, a call to the socket has failed, or one would block. -/
inductive WritenEnds (tls : Bool) (len : Nat) (n behind : Nat) (results : List WriteResult) :
    WritenResult → Prop where
  | whole (rest : List WriteResult) : writenFails tls len n results = false →
      uptake tls (len - n + behind) results = uptake tls behind rest →
      WritenEnds tls len n behind results ⟨len, len, rest⟩
  | fails (ret : Int) (accepted : Nat) (rest : List WriteResult) : accepted < len →
      ret = -1 ∨ ret = accepted → writenFails tls len n results = true →
      uptake tls (len - n + behind) results = .fails →
      WritenEnds tls len n behind results ⟨ret, accepted, rest⟩
  | blocks (accepted : Nat) (rest : List WriteResult) : accepted < len →
      writenFails tls len n results = false → uptake tls (len - n + behind) results = .blocks →
      WritenEnds tls len n behind results ⟨accepted, accepted, rest⟩

theorem stopped_of_not_fails_ended {n : Nat} {sslError : SslError}
    (waits : WriteResult.fails tls (.ended sslError) = false) :
    stopped tls n sslError none = n := by
  cases tls <;> cases sslError <;> simp_all [WriteResult.fails, stopped]

theorem stopped_of_not_fails_failed {n : Nat} {sslError : SslError} {errno : Errno}
    (waits : WriteResult.fails tls (.failed sslError errno) = false) :
    stopped tls n sslError (some errno) = n := by
  cases tls <;> cases sslError <;> cases errno <;> simp_all [WriteResult.fails, stopped]

/-- A call to the socket that accepts nothing ends `Writen`. -/
theorem writenEnds_stopped {n behind : Nat} {results rest : List WriteResult} {ret : Int}
    {failed : Bool} (below : n < len) (failing : writenFails tls len n results = failed)
    (ends : uptake tls (len - n + behind) results = if failed then .fails else .blocks)
    (returned : ret = -1 ∨ ret = n) (waits : failed = false → ret = n) :
    WritenEnds tls len n behind results ⟨ret, n, rest⟩ := by
  cases failed with
  | true => exact .fails ret n rest below returned failing ends
  | false =>
      rw [waits rfl]
      exact .blocks n rest below failing ends

theorem writenEnds (size : asSsize len = len) (behind : Nat) {n : Nat}
    {results : List WriteResult} (start : n ≤ len)
    (possible : (writenFrom tls len n results).accepted ≤ len) :
    WritenEnds tls len n behind results (writenFrom tls len n results) := by
  induction results generalizing n with
  | nil =>
      rcases Nat.lt_or_eq_of_le start with room | rfl
      · have some_left : len - n + behind = (len - n + behind - 1) + 1 := by omega
        refine .blocks n [] room rfl ?_
        rw [some_left, uptake]
      · refine .whole [] rfl ?_
        rw [Nat.sub_self, Nat.zero_add]
  | cons result rest inductionHypothesis =>
      unfold writenFrom at possible ⊢
      by_cases room : (n : Int) < asSsize len
      · have below : n < len := by
          rw [size] at room
          exact Int.ofNat_lt.mp room
        have some_left : len - n + behind = (len - n + behind - 1) + 1 := by omega
        rw [if_pos room] at possible ⊢
        cases result with
        | accepted more =>
            have within : n + (more + 1) ≤ len :=
              Nat.le_trans (accepted_writenFrom_ge tls len _ rest) possible
            have later := inductionHypothesis within possible
            have failing : writenFails tls len n (.accepted more :: rest) =
                writenFails tls len (n + (more + 1)) rest := by
              rw [writenFails, if_pos room]
            have same : uptake tls (len - n + behind) (.accepted more :: rest) =
                uptake tls (len - (n + (more + 1)) + behind) rest := by
              have fewer : len - n + behind - 1 - more = len - (n + (more + 1)) + behind := by
                omega
              rw [some_left, uptake, fewer]
            dsimp only
            generalize writenFrom tls len (n + (more + 1)) rest = written at later ⊢
            cases later with
            | whole left unfailed all => exact .whole left (failing.trans unfailed) (same.trans all)
            | fails ret accepted left short returned failed none =>
                exact .fails ret accepted left short returned (failing.trans failed)
                  (same.trans none)
            | blocks accepted left short unfailed none =>
                exact .blocks accepted left short (failing.trans unfailed) (same.trans none)
        | ended sslError =>
            have failing : writenFails tls len n (.ended sslError :: rest) =
                WriteResult.fails tls (.ended sslError) := by
              rw [writenFails, if_pos room]
            have none : uptake tls (len - n + behind) (.ended sslError :: rest) =
                if WriteResult.fails tls (.ended sslError) then .fails else .blocks := by
              rw [some_left, uptake]
            exact writenEnds_stopped below failing none (stopped_cases tls n sslError _).symm
              stopped_of_not_fails_ended
        | failed sslError errno =>
            have failing : writenFails tls len n (.failed sslError errno :: rest) =
                WriteResult.fails tls (.failed sslError errno) := by
              rw [writenFails, if_pos room]
            have none : uptake tls (len - n + behind) (.failed sslError errno :: rest) =
                if WriteResult.fails tls (.failed sslError errno) then .fails else .blocks := by
              rw [some_left, uptake]
            exact writenEnds_stopped below failing none (stopped_cases tls n sslError _).symm
              stopped_of_not_fails_failed
      · rw [if_neg room]
        rw [size] at room
        have all : n = len := Nat.le_antisymm start (Int.ofNat_le.mp (Int.not_lt.mp room))
        subst all
        refine .whole (result :: rest) ?_ ?_
        · unfold writenFails
          rw [size]
          exact if_neg room
        · rw [Nat.sub_self, Nat.zero_add]

end Writen

/-- What a `Flush` leaves of its queue, by how far the socket takes the bytes in it. -/
inductive QueueEnds (total : Bytes) : Uptake → List WriteBuffer → List Writing → Prop where
  | whole {chain : List WriteBuffer} {writings : List Writing} :
      writings.flatMap Writing.sent = total → QueueEnds total .whole chain writings
  | blocks {chain : List WriteBuffer} {writings : List Writing} :
      writings.flatMap Writing.sent ++ chain.flatMap WriteBuffer.pending = total →
      (∀ writing ∈ writings, ¬ writing.Fails) →
      (writings.flatMap Writing.sent).length < total.length →
      QueueEnds total .blocks chain writings
  | fails {chain : List WriteBuffer} {writings : List Writing} :
      (∃ writing ∈ writings, writing.Fails) →
      (writings.flatMap Writing.sent).length < total.length →
      QueueEnds total .fails chain writings

theorem uptake_zero (tls : Bool) (results : List WriteResult) : uptake tls 0 results = .whole := by
  cases results with
  | nil => rfl
  | cons result rest => rfl

section Queue

variable {tls : Bool}

theorem QueueEnds.behind {total : Bytes} {far : Uptake} {chain : List WriteBuffer}
    {writings : List Writing} (ends : QueueEnds total far chain writings) {writing : Writing}
    (unfailed : ¬ writing.Fails) :
    QueueEnds (writing.sent ++ total) far chain (writing :: writings) := by
  cases ends with
  | whole all =>
      refine .whole ?_
      rw [List.flatMap_cons, all]
  | blocks kept none short =>
      refine .blocks ?_ (List.forall_mem_cons.mpr ⟨unfailed, none⟩) ?_
      · rw [List.flatMap_cons, List.append_assoc, kept]
      · rw [List.flatMap_cons, List.length_append, List.length_append]
        exact Nat.add_lt_add_left short _
  | fails failed short =>
      obtain ⟨other, among, failed⟩ := failed
      refine .fails ⟨other, List.mem_cons_of_mem _ among, failed⟩ ?_
      rw [List.flatMap_cons, List.length_append, List.length_append]
      exact Nat.add_lt_add_left short _

theorem queueEnds {chain : List WriteBuffer} {results : List WriteResult}
    (waiting : ∀ wb ∈ chain, wb.Waiting)
    (possible : ∀ writing ∈ chainWritings tls chain results,
      writing.written.accepted ≤ writing.buffer.asked) :
    QueueEnds (chain.flatMap WriteBuffer.pending)
      (uptake tls (chain.flatMap WriteBuffer.pending).length results)
      (flushChain tls chain results).2 (chainWritings tls chain results) := by
  induction chain generalizing results with
  | nil =>
      rw [List.flatMap_nil, List.length_nil, uptake_zero]
      exact .whole rfl
  | cons wb chain inductionHypothesis =>
      obtain ⟨first, others⟩ := List.forall_mem_cons.mp waiting
      have left := first.left
      have asked := first.asked
      have pending := first.length_pending
      have size : asSsize wb.asked = wb.asked := asSsize_of_le (by have := first.inMemory; omega)
      have within : (writen tls wb.asked results).accepted ≤ wb.asked :=
        possible ⟨wb, tls, results, writen tls wb.asked results⟩ List.mem_cons_self
      have ends := writenEnds size (chain.flatMap WriteBuffer.pending).length (Nat.zero_le _) within
      have length : (List.flatMap WriteBuffer.pending (wb :: chain)).length =
          wb.asked - 0 + (chain.flatMap WriteBuffer.pending).length := by
        rw [List.flatMap_cons, List.length_append, pending, Nat.sub_zero]
      rw [length, flushChain_cons, List.flatMap_cons]
      rw [chainWritings] at possible ⊢
      change WritenEnds tls wb.asked 0 _ results (writen tls wb.asked results) at ends
      generalize writen tls wb.asked results = written at ends possible ⊢
      dsimp only at possible ⊢
      cases ends with
      | whole rest unfailed all =>
          have whole : (wb.advance wb.asked).writeLen = wb.len := by
            rw [first.advance (Nat.le_refl _), asked]
            omega
          have sent : Writing.sent ⟨wb, tls, results, ⟨wb.asked, wb.asked, rest⟩⟩ = wb.pending :=
            List.take_of_length_le (Nat.le_of_eq pending)
          rw [Int.toNat_natCast, if_pos ⟨Int.natCast_nonneg _, whole⟩] at possible
          rw [Int.toNat_natCast, if_pos (Int.natCast_nonneg _), if_pos whole,
            if_pos ⟨Int.natCast_nonneg _, whole⟩, all]
          have later := inductionHypothesis others (List.forall_mem_cons.mp possible).2
          have untouched : ¬ Writing.Fails ⟨wb, tls, results, ⟨wb.asked, wb.asked, rest⟩⟩ :=
            Bool.eq_false_iff.mp unfailed
          have behind := later.behind untouched
          rw [sent] at behind
          exact behind
      | fails ret accepted rest short returned failed none =>
          have stays : ¬ (0 ≤ ret ∧ (wb.advance ret.toNat).writeLen = wb.len) := by
            rintro ⟨nonnegative, whole⟩
            have counted : ret.toNat = accepted := by omega
            rw [counted, first.advance (Nat.le_of_lt short)] at whole
            omega
          rw [if_neg stays, none]
          refine .fails ⟨_, List.mem_cons_self, failed⟩ ?_
          rw [List.flatMap_singleton, List.length_append, Writing.sent, List.length_take]
          dsimp only
          omega
      | blocks accepted rest short unfailed none =>
          have partly : ¬ (wb.advance accepted).writeLen = wb.len := by
            rw [first.advance (Nat.le_of_lt short)]
            omega
          rw [Int.toNat_natCast, if_pos (Int.natCast_nonneg _), if_neg partly,
            if_neg (fun both => partly both.2), none]
          refine .blocks ?_ (List.forall_mem_singleton.mpr (Bool.eq_false_iff.mp unfailed)) ?_
          · have both : wb.pending.take accepted ++ wb.pending.drop accepted = wb.pending :=
              List.take_append_drop _ _
            rw [List.flatMap_singleton, List.flatMap_cons,
              first.pending_advance (Nat.le_of_lt short), ← List.append_assoc, Writing.sent, both]
          · rw [List.flatMap_singleton, List.length_append, Writing.sent, List.length_take]
            dsimp only
            omega

/-- `Flush` leaves buffers with something left to be written. -/
theorem waiting_flushChain {chain : List WriteBuffer} {results : List WriteResult}
    (waiting : ∀ wb ∈ chain, wb.Waiting)
    (possible : ∀ writing ∈ chainWritings tls chain results,
      writing.written.accepted ≤ writing.buffer.asked) :
    ∀ wb ∈ (flushChain tls chain results).2, wb.Waiting := by
  induction chain generalizing results with
  | nil => exact List.forall_mem_nil _
  | cons wb chain inductionHypothesis =>
      obtain ⟨first, others⟩ := List.forall_mem_cons.mp waiting
      have within : (writen tls wb.asked results).accepted ≤ wb.asked :=
        possible ⟨wb, tls, results, writen tls wb.asked results⟩ List.mem_cons_self
      have returned : (writen tls wb.asked results).ret = -1 ∨
          (writen tls wb.asked results).ret = (writen tls wb.asked results).accepted :=
        ret_writenFrom tls wb.asked 0 results
      rw [chainWritings] at possible
      rw [flushChain_cons]
      generalize writen tls wb.asked results = written at within returned possible ⊢
      dsimp only at possible ⊢
      split
      next nonnegative =>
        have counted : written.ret.toNat = written.accepted := by omega
        split
        next whole =>
          rw [if_pos ⟨nonnegative, whole⟩] at possible
          exact inductionHypothesis others (List.forall_mem_cons.mp possible).2
        next partly =>
          have asked := first.asked
          have left := first.left
          rw [counted] at partly ⊢
          have advanced := first.advance within
          refine List.forall_mem_cons.mpr ⟨⟨first.len, ?_, first.inMemory⟩, others⟩
          have behind : (wb.advance written.accepted).writeLen < wb.len := by omega
          exact behind
      next => exact waiting

end Queue

theorem writeString_of_open {conn : Connection} {str : Bytes} (nonempty : str ≠ [])
    (opened : ¬ conn.fd < 0) :
    conn.writeString str = { conn with writeBufferChain := conn.writeBufferChain ++ [.new str] } :=
  if_neg (not_or.mpr ⟨nonempty, opened⟩)

theorem waiting_writeString {conn : Connection} {str : Bytes}
    (waiting : ∀ wb ∈ conn.writeBufferChain, wb.Waiting) (inMemory : str.length ≤ vectorMaxSize) :
    ∀ wb ∈ (conn.writeString str).writeBufferChain, wb.Waiting := by
  unfold writeString
  split
  next => exact waiting
  next queues =>
    exact List.forall_mem_append.mpr ⟨waiting, List.forall_mem_singleton.mpr
      (WriteBuffer.waiting_new (not_or.mp queues).1 inMemory)⟩

theorem waiting_flush {conn : Connection} {results : List WriteResult}
    (waiting : ∀ wb ∈ conn.writeBufferChain, wb.Waiting)
    (possible : ∀ writing ∈ conn.writings results,
      writing.written.accepted ≤ writing.buffer.asked) :
    ∀ wb ∈ (conn.flush results).2.writeBufferChain, wb.Waiting := by
  unfold flush
  unfold writings at possible
  split
  next => exact waiting
  next opened =>
    rw [if_neg opened] at possible
    exact waiting_flushChain waiting possible

def pending (conn : Connection) : Bytes := conn.writeBufferChain.flatMap WriteBuffer.pending

/-- `Flush` on an open connection. -/
theorem queueEnds_flush {conn : Connection} {results : List WriteResult}
    (opened : ¬ conn.fd < 0) (waiting : ∀ wb ∈ conn.writeBufferChain, wb.Waiting)
    (possible : ∀ writing ∈ conn.writings results,
      writing.written.accepted ≤ writing.buffer.asked) :
    QueueEnds conn.pending (uptake conn.ssl conn.pending.length results)
      (conn.flush results).2.writeBufferChain (conn.writings results) := by
  rw [writings, if_neg opened] at possible ⊢
  rw [flush, if_neg opened]
  exact queueEnds waiting possible

/-- `WriteData` and `Flush` on an open connection. -/
theorem queueEnds_writeString {conn : Connection} {str : Bytes} {results : List WriteResult}
    (waiting : ∀ wb ∈ conn.writeBufferChain, wb.Waiting) (nonempty : str ≠ [])
    (inMemory : str.length ≤ vectorMaxSize) (opened : ¬ conn.fd < 0)
    (possible : ∀ writing ∈ (conn.writeString str).writings results,
      writing.written.accepted ≤ writing.buffer.asked) :
    QueueEnds (conn.pending ++ str) (uptake conn.ssl (conn.pending ++ str).length results)
      ((conn.writeString str).flush results).2.writeBufferChain
      ((conn.writeString str).writings results) := by
  have queued := writeString_of_open nonempty opened
  have stillOpen : ¬ (conn.writeString str).fd < 0 := by
    rw [queued]
    exact opened
  have sameSsl : (conn.writeString str).ssl = conn.ssl := by rw [queued]
  have total : (conn.writeString str).pending = conn.pending ++ str := by
    rw [queued, pending, List.flatMap_append, List.flatMap_singleton]
    rfl
  have ends := queueEnds_flush stillOpen (waiting_writeString waiting inMemory) possible
  rw [total, sameSsl] at ends
  exact ends

end Connection

/-- A connection, and whether a call to its socket for output has failed since `Accept`. -/
structure Outlet where
  conn : Connection
  failed : Bool

/-- The calls on a connection.  `others` stands for all that changes neither its descriptor
nor its queue. -/
inductive OutletCall where
  | accept (fd : Int) (ssl : Bool)
  | safe (call : SafeCall) (results : List WriteResult)
  | writeString (str : Bytes)
  | flush (results : List WriteResult)
  | resetConnection
  | others (req : Request) (resp : Response) (ws : WebSocket) (activeTime : Int)
      (evWritable : Bool)

namespace Outlet

def new : Outlet := ⟨.new, false⟩

/-- Whether a call to the socket has failed, behind a `Flush` of this connection. -/
def failedBehind (outlet : Outlet) (conn : Connection) (results : List WriteResult) : Bool :=
  outlet.failed || decide (∃ writing ∈ conn.writings results, writing.Fails)

def step (outlet : Outlet) : OutletCall → Option Outlet
  | .accept fd ssl =>
      if outlet.conn.fd < 0 then some ⟨{ outlet.conn with fd := fd, ssl := ssl }, false⟩
      else none
  | .safe call results =>
      some ⟨(call.run outlet.conn results).2,
        outlet.failedBehind (outlet.conn.writeString call.frame) results⟩
  | .writeString str => some { outlet with conn := outlet.conn.writeString str }
  | .flush results =>
      some ⟨(outlet.conn.flush results).2, outlet.failedBehind outlet.conn results⟩
  | .resetConnection =>
      some { outlet with
        conn := if 0 < outlet.conn.fd then outlet.conn.reset else outlet.conn }
  | .others req resp ws activeTime evWritable =>
      some { outlet with
        conn := { outlet.conn with
          req := req, resp := resp, ws := ws, activeTime := activeTime, evWritable := evWritable } }

end Outlet

/-- What holds of a call whatever the program does: a `std::string` has at most its
`max_size()`, and the socket accepts no more than it is given. -/
def OutletCall.Possible (outlet : Outlet) : OutletCall → Prop
  | .accept _ _ => True
  | .safe call results =>
      call.frame.length ≤ vectorMaxSize ∧
        ∀ writing ∈ (outlet.conn.writeString call.frame).writings results,
          writing.written.accepted ≤ writing.buffer.asked
  | .writeString str => str.length ≤ vectorMaxSize
  | .flush results =>
      ∀ writing ∈ outlet.conn.writings results, writing.written.accepted ≤ writing.buffer.asked
  | .resetConnection => True
  | .others .. => True

instance (outlet : Outlet) : DecidablePred (OutletCall.Possible outlet)
  | .accept _ _ => inferInstanceAs (Decidable True)
  | .safe call results => inferInstanceAs (Decidable (_ ∧
      ∀ writing ∈ (outlet.conn.writeString call.frame).writings results,
        writing.written.accepted ≤ writing.buffer.asked))
  | .writeString _ => inferInstanceAs (Decidable (_ ≤ _))
  | .flush results => inferInstanceAs (Decidable (∀ writing ∈ outlet.conn.writings results,
      writing.written.accepted ≤ writing.buffer.asked))
  | .resetConnection => inferInstanceAs (Decidable True)
  | .others .. => inferInstanceAs (Decidable True)

namespace Outlet

open Library

variable {outlet : Outlet}

/-- Every byte of `frame`, queued behind what is pending, has been accepted by the kernel, or
is still queued on an open connection on which no write has failed. -/
def Accounted (outlet : Outlet) (frame : Bytes) (results : List WriteResult) : Prop :=
  let queued := outlet.conn.writeString frame
  let sent := (queued.writings results).flatMap Writing.sent
  frame = [] ∨ sent = outlet.conn.pending ++ frame ∨
    (0 ≤ outlet.conn.fd ∧ outlet.failed = false ∧
      (∀ writing ∈ queued.writings results, ¬ writing.Fails) ∧
      sent ++ (queued.flush results).2.pending = outlet.conn.pending ++ frame)

/-- The frame is empty; or the connection is open and its socket takes all that is queued, or
would block and has never failed. -/
def Takes (outlet : Outlet) (frame : Bytes) (results : List WriteResult) : Prop :=
  let far := Connection.uptake outlet.conn.ssl (outlet.conn.pending ++ frame).length results
  frame = [] ∨ 0 ≤ outlet.conn.fd ∧ (far = .whole ∨ far = .blocks ∧ outlet.failed = false)

instance (outlet : Outlet) (frame : Bytes) (results : List WriteResult) :
    Decidable (outlet.Takes frame results) :=
  inferInstanceAs (Decidable (_ ∨ _ ∧ (_ ∨ _ ∧ _)))

theorem accounted_of_closed {frame : Bytes} {results : List WriteResult}
    (nonempty : frame ≠ []) (closed : outlet.conn.fd < 0) :
    ¬ outlet.Accounted frame results := by
  have unsent : (outlet.conn.writeString frame).writings results = [] := by
    rw [Connection.writeString, if_pos (.inr closed), Connection.writings, if_pos closed]
  rintro (empty | sent | ⟨opened, -⟩)
  · exact nonempty empty
  · rw [unsent, List.flatMap_nil] at sent
    exact nonempty (List.append_eq_nil_iff.mp sent.symm).2
  · omega

theorem accounted_iff_takes {frame : Bytes} {results : List WriteResult}
    (waiting : ∀ wb ∈ outlet.conn.writeBufferChain, wb.Waiting)
    (inMemory : frame.length ≤ vectorMaxSize)
    (possible : ∀ writing ∈ (outlet.conn.writeString frame).writings results,
      writing.written.accepted ≤ writing.buffer.asked) :
    outlet.Accounted frame results ↔ outlet.Takes frame results := by
  by_cases empty : frame = []
  · exact iff_of_true (.inl empty) (.inl empty)
  by_cases closed : outlet.conn.fd < 0
  · refine iff_of_false (accounted_of_closed empty closed) ?_
    rintro (empty' | ⟨opened, -⟩)
    · exact empty empty'
    · omega
  · have opened : 0 ≤ outlet.conn.fd := Int.not_lt.mp closed
    have ends := Connection.queueEnds_writeString waiting empty inMemory closed possible
    rw [Accounted, Takes, or_iff_right empty, or_iff_right empty, and_iff_right opened,
      and_iff_right opened]
    have left : ((outlet.conn.writeString frame).flush results).2.pending =
        ((outlet.conn.writeString frame).flush results).2.writeBufferChain.flatMap
          WriteBuffer.pending := rfl
    rw [left]
    generalize (outlet.conn.writeString frame).writings results = writings at ends ⊢
    generalize ((outlet.conn.writeString frame).flush results).2.writeBufferChain = chain at ends ⊢
    generalize Connection.uptake outlet.conn.ssl (outlet.conn.pending ++ frame).length results =
      far at ends ⊢
    cases ends with
    | whole all => exact iff_of_true (.inl all) (.inl rfl)
    | blocks kept unfailed short =>
        have incomplete : writings.flatMap Writing.sent ≠ outlet.conn.pending ++ frame := by
          intro all
          rw [all] at short
          exact Nat.lt_irrefl _ short
        constructor
        · rintro (all | ⟨never, -⟩)
          · exact absurd all incomplete
          · exact .inr ⟨rfl, never⟩
        · rintro (all | ⟨-, never⟩)
          · cases all
          · exact .inr ⟨never, unfailed, kept⟩
    | fails failed short =>
        refine iff_of_false ?_ ?_
        · rintro (all | ⟨-, unfailed, -⟩)
          · rw [all] at short
            exact Nat.lt_irrefl _ short
          · obtain ⟨writing, among, fails⟩ := failed
            exact unfailed writing among fails
        · rintro (all | ⟨blocks, -⟩)
          · cases all
          · cases blocks

theorem waiting_step {later : Outlet} {call : OutletCall}
    (waiting : ∀ wb ∈ outlet.conn.writeBufferChain, wb.Waiting)
    (possible : call.Possible outlet) (stepped : outlet.step call = some later) :
    ∀ wb ∈ later.conn.writeBufferChain, wb.Waiting := by
  cases call with
  | accept fd ssl =>
      obtain ⟨-, same⟩ := Option.ite_none_right_eq_some.mp stepped
      cases same
      exact waiting
  | safe call results =>
      cases stepped
      dsimp only
      rw [SafeCall.run_snd]
      exact Connection.waiting_flush (Connection.waiting_writeString waiting possible.1) possible.2
  | writeString str =>
      cases stepped
      exact Connection.waiting_writeString waiting possible
  | flush results =>
      cases stepped
      exact Connection.waiting_flush waiting possible
  | resetConnection =>
      cases stepped
      dsimp only
      split
      · exact List.forall_mem_nil _
      · exact waiting
  | others req resp ws activeTime evWritable =>
      cases stepped
      exact waiting

/-- A connection by any calls, from its constructor on. -/
abbrev Reached : Outlet → Prop :=
  Reaches step (fun outlet call => call.Possible outlet) new

theorem waiting_of_reached (reached : Reached outlet) :
    ∀ wb ∈ outlet.conn.writeBufferChain, wb.Waiting := by
  induction reached with
  | refl => exact List.forall_mem_nil _
  | next call _ possible stepped waiting => exact waiting_step waiting possible stepped

/-- The value of a call says what becomes of its frame when the frame is empty, when the socket
takes it, and when it would block and has never failed. -/
theorem reports_iff (reached : Reached outlet) (call : SafeCall) (results : List WriteResult)
    (possible : (OutletCall.safe call results).Possible outlet) :
    ((call.run outlet.conn results).1 = true ↔ outlet.Accounted call.frame results) ↔
      outlet.Takes call.frame results := by
  rw [SafeCall.run_fst, ← accounted_iff_takes (waiting_of_reached reached) possible.1 possible.2]
  exact ⟨fun reports => reports.mp rfl, fun accounted => iff_of_true rfl accounted⟩

def accepted : Outlet := ⟨{ Connection.new with fd := 5 }, false⟩

theorem reached_accepted : Reached accepted :=
  (Reaches.refl).next (.accept 5 false) trivial rfl

theorem reports_iff_hi :
    ((SafeCall.writeStringSafe [104, 105]).run accepted.conn [.accepted 3]).1 = true ↔
      accepted.Accounted (SafeCall.writeStringSafe [104, 105]).frame [.accepted 3] :=
  (reports_iff reached_accepted (.writeStringSafe [104, 105]) [.accepted 3]
    (by decide +kernel)).mpr (by decide +kernel)

/-- `SendPingSafe` returns true for a peer that is gone. -/
theorem not_reports_dead_peer :
    ¬ ∀ outlet, Reached outlet → ∀ (call : SafeCall) (results : List WriteResult),
      (OutletCall.safe call results).Possible outlet →
        ((call.run outlet.conn results).1 = true ↔ outlet.Accounted call.frame results) := by
  intro reports
  have possible :
      (OutletCall.safe (.sendPingSafe []) [.failed .other .other]).Possible accepted := by
    decide +kernel
  have reported := (reports accepted reached_accepted (.sendPingSafe []) [.failed .other .other]
    possible).mp (SafeCall.run_fst _ _ _)
  have takes := (accounted_iff_takes (waiting_of_reached reached_accepted) possible.1
    possible.2).mp reported
  exact absurd takes (by decide +kernel)

end Outlet

end Mevent
