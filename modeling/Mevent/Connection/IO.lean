import Mevent.Basic

/-!
# Reading and writing sockets

`Connection::Readn` and `Connection::Writen`, run on what the calls to `read(2)`,
`SSL_read`, `write(2)` and `SSL_write` return.  When the results are used up, the
next call would block.

On a TLS connection both functions ask for `len` bytes at every call, however
many they have got already.
-/

namespace Mevent

/-- `SSL_get_error`. -/
inductive SslError where
  | wantRead
  | wantWrite
  | ssl
  | syscall
  | other
  deriving DecidableEq, Repr

/-- `errno`: `EAGAIN` and `EWOULDBLOCK`, or anything else. -/
inductive Errno where
  | again
  | other
  deriving DecidableEq, Repr

/-- What one call to `read` or `SSL_read` returns: at least one byte, zero, or a
negative number. -/
inductive ReadResult where
  | delivered (first : UInt8) (more : Bytes)
  | ended (sslError : SslError)
  | failed (sslError : SslError) (errno : Errno)
  deriving DecidableEq, Repr

/-- What one call to `write` or `SSL_write` returns: `more + 1`, zero, or a
negative number. -/
inductive WriteResult where
  | accepted (more : Nat)
  | ended (sslError : SslError)
  | failed (sslError : SslError) (errno : Errno)
  deriving DecidableEq, Repr

namespace Connection

/-- `static_cast<int>(len)`. -/
def asInt (len : Nat) : Int := Int.bmod len (2 ^ 32)

/-- `(ssize_t)len`. -/
def asSsize (len : Nat) : Int := Int.bmod len (2 ^ 64)

theorem asInt_readBufferSize : asInt readBufferSize = readBufferSize := by
  unfold asInt readBufferSize
  decide

theorem asSsize_readBufferSize : asSsize readBufferSize = readBufferSize := by
  unfold asSsize readBufferSize
  decide

/-- Return behind a call that returned zero, when `errno` is `none`, or less. -/
def stopped (tls : Bool) (n : Nat) (sslError : SslError) (errno : Option Errno) : Int :=
  let byErrno : Int :=
    match errno with
    | some .again => n
    | some .other => -1
    | none => -1
  if tls then
    match sslError with
    | .wantRead | .wantWrite | .ssl => n
    | .syscall => byErrno
    | .other => -1
  else
    byErrno

/-- What a call to `Readn` leaves behind: its return value, what the calls have
written to `buf`, where they have written it, and the results that are left. -/
structure ReadnResult where
  ret : Int
  bytes : Bytes
  writes : List (Nat × Nat)
  rest : List ReadResult
  deriving DecidableEq, Repr

/-- The loop of `Readn`, with `n` bytes read. -/
def readnFrom (tls : Bool) (len : Nat) : (n : Nat) → List ReadResult → ReadnResult
  | n, [] => ⟨n, [], [], []⟩
  | n, result :: rest =>
      if (n : Int) < asSsize len then
        match result with
        | .delivered first more =>
            let later := readnFrom tls len (n + (more.length + 1)) rest
            { later with
              bytes := first :: more ++ later.bytes
              writes := (n, more.length + 1) :: later.writes }
        | .ended sslError => ⟨stopped tls n sslError none, [], [], rest⟩
        | .failed sslError errno => ⟨stopped tls n sslError (some errno), [], [], rest⟩
      else
        ⟨n, [], [], result :: rest⟩

/-- `Connection::Readn`. -/
def readn (tls : Bool) (len : Nat) (results : List ReadResult) : ReadnResult :=
  readnFrom tls len 0 results

/-- What a call to `Writen` leaves behind: its return value, the number of bytes
the calls have accepted, and the results that are left. -/
structure WritenResult where
  ret : Int
  accepted : Nat
  rest : List WriteResult
  deriving DecidableEq, Repr

/-- The loop of `Writen`, with `n` bytes written. -/
def writenFrom (tls : Bool) (len : Nat) : (n : Nat) → List WriteResult → WritenResult
  | n, [] => ⟨n, n, []⟩
  | n, result :: rest =>
      if (n : Int) < asSsize len then
        match result with
        | .accepted more => writenFrom tls len (n + (more + 1)) rest
        | .ended sslError => ⟨stopped tls n sslError none, n, rest⟩
        | .failed sslError errno => ⟨stopped tls n sslError (some errno), n, rest⟩
      else
        ⟨n, n, result :: rest⟩

/-- `Connection::Writen`. -/
def writen (tls : Bool) (len : Nat) (results : List WriteResult) : WritenResult :=
  writenFrom tls len 0 results

/-- The bytes that `ReadData` appends after a call to `Readn`. -/
def ReadnResult.appended (result : ReadnResult) : Bytes :=
  if 0 < result.ret then result.bytes else []

section Readn

variable {tls : Bool} {len : Nat}

theorem readnFrom_of_full {n : Nat} (full : ¬ (n : Int) < asSsize len)
    (results : List ReadResult) : readnFrom tls len n results = ⟨n, [], [], results⟩ := by
  cases results with
  | nil => rfl
  | cons result rest =>
      unfold readnFrom
      rw [if_neg full]

theorem readnFrom_delivered {n : Nat} (room : (n : Int) < asSsize len) (first : UInt8)
    (more : Bytes) (rest : List ReadResult) :
    readnFrom tls len n (.delivered first more :: rest) =
      let later := readnFrom tls len (n + (more.length + 1)) rest
      { later with
        bytes := first :: more ++ later.bytes
        writes := (n, more.length + 1) :: later.writes } := by
  conv => lhs; unfold readnFrom
  rw [if_pos room]

theorem stopped_cases (tls : Bool) (n : Nat) (sslError : SslError) (errno : Option Errno) :
    stopped tls n sslError errno = n ∨ stopped tls n sslError errno = -1 := by
  rcases errno with _ | _ | _ <;> cases tls <;> cases sslError <;> simp [stopped]

theorem readnFrom_stopped (tls : Bool) {n : Nat} (room : (n : Int) < asSsize len)
    {result : ReadResult}
    (nothing : ∀ first more, result ≠ .delivered first more) (rest : List ReadResult) :
    ∃ ret : Int, (ret = n ∨ ret = -1) ∧
      readnFrom tls len n (result :: rest) = ⟨ret, [], [], rest⟩ := by
  cases result with
  | delivered first more => exact absurd rfl (nothing first more)
  | ended sslError =>
      refine ⟨stopped tls n sslError none, stopped_cases tls n sslError none, ?_⟩
      unfold readnFrom
      rw [if_pos room]
  | failed sslError errno =>
      refine ⟨stopped tls n sslError errno, stopped_cases tls n sslError errno, ?_⟩
      unfold readnFrom
      rw [if_pos room]

/-- Induction over the calls that `Readn` makes. -/
theorem readnFrom_induction (len : Nat) {motive : Nat → List ReadResult → Prop}
    (drained : ∀ n, motive n [])
    (full : ∀ (n : Nat) results, ¬ (n : Int) < asSsize len → motive n results)
    (stop : ∀ (n : Nat) result rest, (n : Int) < asSsize len →
      (∀ first more, result ≠ .delivered first more) → motive n (result :: rest))
    (deliver : ∀ (n : Nat) first more rest, (n : Int) < asSsize len →
      motive (n + (more.length + 1)) rest → motive n (.delivered first more :: rest))
    (n : Nat) (results : List ReadResult) : motive n results := by
  induction results generalizing n with
  | nil => exact drained n
  | cons result rest inductionHypothesis =>
      by_cases room : (n : Int) < asSsize len
      · cases result with
        | delivered first more => exact deliver n first more rest room (inductionHypothesis _)
        | ended sslError => exact stop n _ rest room (by simp)
        | failed sslError errno => exact stop n _ rest room (by simp)
      · exact full n _ room

/-- `Readn` fails, or returns the number of bytes it has read. -/
theorem ret_readnFrom (tls : Bool) (len n : Nat) (results : List ReadResult) :
    (readnFrom tls len n results).ret = -1 ∨
      (readnFrom tls len n results).ret =
        (n + (readnFrom tls len n results).bytes.length : Nat) := by
  induction n, results using readnFrom_induction len with
  | drained n => exact .inr (by simp [readnFrom])
  | full n results full => exact .inr (by simp [readnFrom_of_full full])
  | stop n result rest room nothing =>
      obtain ⟨ret, returned, same⟩ := readnFrom_stopped tls room nothing rest
      rcases returned with counted | failed
      · exact .inr (by simp [same, counted])
      · exact .inl (by simp [same, failed])
  | deliver n first more rest room inductionHypothesis =>
      simp only [readnFrom_delivered room]
      rcases inductionHypothesis with failed | counted
      · exact .inl failed
      · right
        simp only [counted, List.length_append, List.length_cons]
        omega

theorem length_rest_readnFrom (tls : Bool) (len n : Nat) (results : List ReadResult) :
    (readnFrom tls len n results).rest.length ≤ results.length := by
  induction n, results using readnFrom_induction len with
  | drained n => simp [readnFrom]
  | full n results full => simp [readnFrom_of_full full]
  | stop n result rest room nothing =>
      obtain ⟨ret, -, same⟩ := readnFrom_stopped tls room nothing rest
      simp [same]
  | deliver n first more rest room inductionHypothesis =>
      simp only [readnFrom_delivered room, List.length_cons]
      exact Nat.le_succ_of_le inductionHypothesis

theorem length_rest_readn_lt (tls : Bool) (len : Nat) {results : List ReadResult}
    (some_bytes : 0 < (readn tls len results).ret) :
    (readn tls len results).rest.length < results.length := by
  by_cases room : ((0 : Nat) : Int) < asSsize len
  · cases results with
    | nil => exact absurd some_bytes (by simp [readn, readnFrom])
    | cons result rest =>
        cases result with
        | delivered first more =>
            simp only [readn, readnFrom_delivered room, List.length_cons]
            exact Nat.lt_succ_of_le (length_rest_readnFrom tls len _ rest)
        | ended sslError =>
            have nothing : ∀ first more, ReadResult.ended sslError ≠ .delivered first more := by
              simp
            obtain ⟨ret, -, same⟩ := readnFrom_stopped tls room nothing rest
            simp only [readn, same, List.length_cons, Nat.lt_succ_self]
        | failed sslError errno =>
            have nothing : ∀ first more,
                ReadResult.failed sslError errno ≠ .delivered first more := by simp
            obtain ⟨ret, -, same⟩ := readnFrom_stopped tls room nothing rest
            simp only [readn, same, List.length_cons, Nat.lt_succ_self]
  · exact absurd some_bytes (by simp [readn, readnFrom_of_full room])

/-- The sizes of the deliveries that come before the first call that fails. -/
def counts : List ReadResult → List Nat
  | .delivered _ more :: rest => (more.length + 1) :: counts rest
  | _ => []

theorem counts_stopped {result : ReadResult}
    (nothing : ∀ first more, result ≠ .delivered first more)
    (rest : List ReadResult) : counts (result :: rest) = [] := by
  cases result with
  | delivered first more => exact absurd rfl (nothing first more)
  | ended sslError => rfl
  | failed sslError errno => rfl

/-- The writes of `Readn` are the deliveries that find fewer than `len` bytes read. -/
theorem mem_writes_readnFrom_iff {n : Nat} {results : List ReadResult} {offset count : Nat} :
    (offset, count) ∈ (readnFrom tls len n results).writes ↔
      ∃ front behind, counts results = front ++ count :: behind ∧
        offset = n + front.sum ∧ (offset : Int) < asSsize len := by
  induction n, results using readnFrom_induction len with
  | drained n => simp [readnFrom, counts]
  | full n results full =>
      simp only [readnFrom_of_full full, List.not_mem_nil, false_iff]
      rintro ⟨front, behind, -, at_offset, room⟩
      omega
  | stop n result rest room nothing =>
      obtain ⟨ret, -, same⟩ := readnFrom_stopped tls room nothing rest
      simp [same, counts_stopped nothing rest]
  | deliver n first more rest room inductionHypothesis =>
      simp only [readnFrom_delivered room, List.mem_cons, inductionHypothesis, counts,
        Prod.mk.injEq]
      constructor
      · rintro (⟨at_offset, at_count⟩ | ⟨front, behind, split, at_offset, later⟩)
        · exact ⟨[], counts rest, by simp [at_count], by simp [at_offset], by omega⟩
        · refine ⟨(more.length + 1) :: front, behind, by simp [split], ?_, later⟩
          simp only [at_offset, List.sum_cons]
          omega
      · rintro ⟨front, behind, split, at_offset, later⟩
        cases front with
        | nil =>
            simp only [List.nil_append, List.cons.injEq] at split
            exact .inl ⟨by simpa using at_offset, split.1.symm⟩
        | cons head front =>
            simp only [List.cons_append, List.cons.injEq] at split
            refine .inr ⟨front, behind, split.2, ?_, later⟩
            simp only [at_offset, List.sum_cons, split.1]
            omega

theorem length_bytes_readnFrom_le {n : Nat} {results : List ReadResult} (start : n ≤ len)
    (inside : ∀ write ∈ (readnFrom tls len n results).writes, write.1 + write.2 ≤ len) :
    n + (readnFrom tls len n results).bytes.length ≤ len := by
  induction n, results using readnFrom_induction len with
  | drained n => simpa [readnFrom] using start
  | full n results full => simpa [readnFrom_of_full full] using start
  | stop n result rest room nothing =>
      obtain ⟨ret, -, same⟩ := readnFrom_stopped tls room nothing rest
      simpa [same] using start
  | deliver n first more rest room inductionHypothesis =>
      simp only [readnFrom_delivered room, List.mem_cons, forall_eq_or_imp] at inside
      have behind := inductionHypothesis inside.1 inside.2
      simp only [readnFrom_delivered room, List.length_append, List.length_cons]
      omega

end Readn

/-- `Readn` on a TLS connection, asked for `len` bytes, writes only inside `buf`,
returns at most `len`, and `ReadData` appends at most `len` bytes behind it. -/
structure StaysInBuffer (len : Nat) (results : List ReadResult) : Prop where
  inside : ∀ write ∈ (readn true len results).writes, write.1 + write.2 ≤ len
  atMost : (readn true len results).ret ≤ len
  appended : (readn true len results).appended.length ≤ len

/-- No delivery that finds fewer than `len` bytes delivered takes their number
past `len`. -/
def FitsTogether (len : Nat) (results : List ReadResult) : Prop :=
  ∀ front count behind, counts results = front ++ count :: behind →
    (front.sum : Int) < asSsize len → front.sum + count ≤ len

theorem inside_iff_fitsTogether (len : Nat) (results : List ReadResult) :
    (∀ write ∈ (readn true len results).writes, write.1 + write.2 ≤ len) ↔
      FitsTogether len results := by
  constructor
  · intro inside front count behind split room
    have written : (front.sum, count) ∈ (readn true len results).writes :=
      mem_writes_readnFrom_iff.mpr ⟨front, behind, split, by simp, room⟩
    exact inside _ written
  · rintro fits ⟨offset, count⟩ written
    obtain ⟨front, behind, split, at_offset, room⟩ := mem_writes_readnFrom_iff.mp written
    have same : offset = front.sum := by simpa using at_offset
    subst same
    exact fits front count behind split room

/-- `Readn` respects its buffer exactly when the deliveries fit it together. -/
theorem staysInBuffer_iff (len : Nat) (results : List ReadResult) :
    StaysInBuffer len results ↔ FitsTogether len results := by
  constructor
  · intro stays
    exact (inside_iff_fitsTogether len results).mp stays.inside
  · intro fits
    have inside := (inside_iff_fitsTogether len results).mpr fits
    have length_le : (readn true len results).bytes.length ≤ len := by
      simpa [readn] using length_bytes_readnFrom_le (Nat.zero_le len) inside
    refine ⟨inside, ?_, ?_⟩
    · rcases ret_readnFrom true len 0 results with failed | counted
      · simp only [readn, failed]
        omega
      · simp only [readn] at length_le ⊢
        omega
    · unfold ReadnResult.appended
      split
      · exact length_le
      · exact Nat.zero_le len

/-- Two records, the first of 2000 bytes and the second of the 2048 that `Readn`
asks for again. -/
theorem not_staysInBuffer_two_records :
    ¬ ∀ results : List ReadResult,
      (∀ count ∈ counts results, (count : Int) ≤ asInt readBufferSize) →
        StaysInBuffer readBufferSize results := by
  intro stays
  have of_length : ∀ length : Nat, ∃ bytes : Bytes, bytes.length = length :=
    fun length => ⟨List.replicate length 0, List.length_replicate⟩
  obtain ⟨first, first_length⟩ := of_length 1999
  obtain ⟨second, second_length⟩ := of_length 2047
  have counted : counts [.delivered 0 first, .delivered 0 second] = [2000, 2048] := by
    simp [counts, first_length, second_length]
  have inside := (stays [.delivered 0 first, .delivered 0 second]
    (by simp only [counted, asInt_readBufferSize]; decide)).inside
  have beyond := (inside_iff_fitsTogether _ _).mp inside [2000] 2048 [] counted
    (by simp only [asSsize_readBufferSize]; decide)
  simp [readBufferSize] at beyond

end Connection

end Mevent
