import Mevent.Connection.Sending

/-!
# How `Flush` ends

`Flush` has written the whole queue, or a call of `Writen` has failed, or one has returned
less than it was asked for.  Without TLS the last is the case only when the socket would
block.
-/

namespace Mevent

namespace Connection

/-- Whether `Writen` has returned because a call to the socket would block, or has returned
in the next call. -/
def writenBlocks (tls : Bool) (len : Nat) : (n : Nat) → List WriteResult → Bool
  | n, [] => decide ((n : Int) < asSsize len)
  | n, result :: rest =>
      if (n : Int) < asSsize len then
        match result with
        | .accepted more => writenBlocks tls len (n + (more + 1)) rest
        | .ended sslError => tls && decide (sslError = .wantWrite)
        | .failed sslError errno =>
            if tls then
              decide (sslError = .wantWrite ∨ sslError = .syscall ∧ errno = .again)
            else
              decide (errno = .again)
      else
        false

end Connection

namespace Writing

/-- `Writen` returns all that it has been asked for. -/
def Whole (writing : Writing) : Prop :=
  0 ≤ writing.written.ret ∧
    (writing.buffer.advance writing.written.ret.toNat).writeLen = writing.buffer.len

instance (writing : Writing) : Decidable writing.Whole := inferInstanceAs (Decidable (_ ∧ _))

def Blocks (writing : Writing) : Prop :=
  Connection.writenBlocks writing.tls writing.buffer.asked 0 writing.results = true

instance (writing : Writing) : Decidable writing.Blocks := inferInstanceAs (Decidable (_ = _))

/-- `Writen` does not fail and does not block, and yet leaves some of its buffer. -/
def Stalls (writing : Writing) : Prop :=
  0 ≤ writing.written.ret ∧ ¬ writing.Whole ∧ ¬ writing.Blocks

instance (writing : Writing) : Decidable writing.Stalls :=
  inferInstanceAs (Decidable (_ ∧ _ ∧ _))

end Writing

namespace Connection

/-- A call of `Writen` fails. -/
def WriteFails (conn : Connection) (results : List WriteResult) : Prop :=
  ∃ writing ∈ conn.writings results, writing.written.ret < 0

/-- Every call of `Writen` returns all that it has been asked for. -/
def WritesAll (conn : Connection) (results : List WriteResult) : Prop :=
  ∀ writing ∈ conn.writings results, writing.Whole

/-- No call of `Writen` fails, and one returns less than it has been asked for. -/
def WritesPartly (conn : Connection) (results : List WriteResult) : Prop :=
  (∀ writing ∈ conn.writings results, 0 ≤ writing.written.ret) ∧
    ∃ writing ∈ conn.writings results, ¬ writing.Whole

instance (conn : Connection) (results : List WriteResult) :
    Decidable (conn.WritesAll results) :=
  inferInstanceAs (Decidable (∀ writing ∈ conn.writings results, writing.Whole))

instance (conn : Connection) (results : List WriteResult) :
    Decidable (conn.WritesPartly results) :=
  inferInstanceAs (Decidable ((∀ writing ∈ conn.writings results, 0 ≤ writing.written.ret) ∧
    ∃ writing ∈ conn.writings results, ¬ writing.Whole))

/-- How the loop of `Flush` ends, and what it leaves in the queue. -/
inductive ChainEnds : Option ConnStatus × List WriteBuffer → List Writing → Prop where
  | drained {writings : List Writing} : (∀ writing ∈ writings, writing.Whole) →
      ChainEnds (none, []) writings
  | waits {writings : List Writing} (wb : WriteBuffer) (chain : List WriteBuffer) :
      (∀ writing ∈ writings, 0 ≤ writing.written.ret) → (∃ writing ∈ writings, ¬ writing.Whole) →
      ChainEnds (some .again, wb :: chain) writings
  | fails {writings : List Writing} (wb : WriteBuffer) (chain : List WriteBuffer) :
      (∃ writing ∈ writings, writing.written.ret < 0) →
      ChainEnds (some .error, wb :: chain) writings

theorem chainEnds (tls : Bool) (chain : List WriteBuffer) (results : List WriteResult) :
    ChainEnds (flushChain tls chain results) (chainWritings tls chain results) := by
  induction chain generalizing results with
  | nil => exact .drained nofun
  | cons wb chain inductionHypothesis =>
      rw [flushChain_cons, chainWritings]
      generalize writen tls wb.asked results = written
      dsimp only
      split
      next nonnegative =>
        split
        next whole =>
          rw [if_pos ⟨nonnegative, whole⟩]
          have ends := inductionHypothesis written.rest
          generalize flushChain tls chain written.rest = flushed at ends ⊢
          generalize chainWritings tls chain written.rest = writings at ends ⊢
          cases ends with
          | drained all => exact .drained (List.forall_mem_cons.mpr ⟨⟨nonnegative, whole⟩, all⟩)
          | waits other rest unfailed partly =>
              obtain ⟨writing, listed, partly⟩ := partly
              exact .waits other rest (List.forall_mem_cons.mpr ⟨nonnegative, unfailed⟩)
                ⟨writing, List.mem_cons_of_mem _ listed, partly⟩
          | fails other rest failed =>
              obtain ⟨writing, listed, failed⟩ := failed
              exact .fails other rest ⟨writing, List.mem_cons_of_mem _ listed, failed⟩
        next partly =>
          rw [if_neg (fun both => partly both.2)]
          exact .waits _ _ (List.forall_mem_singleton.mpr nonnegative)
            ⟨_, List.mem_cons_self, fun whole => partly whole.2⟩
      next negative =>
        rw [if_neg (fun both => negative both.1)]
        exact .fails _ _ ⟨_, List.mem_cons_self, Int.not_le.mp negative⟩

/-- `Flush` by what it returns, and what is left in the queue. -/
inductive FlushEnds (conn : Connection) (results : List WriteResult) :
    ConnStatus × Connection → Prop where
  | closed : conn.fd < 0 → FlushEnds conn results (.closed, conn)
  | drained : conn.WritesAll results →
      FlushEnds conn results (conn.drainedStatus, { conn with writeBufferChain := [] })
  | waits (wb : WriteBuffer) (chain : List WriteBuffer) : conn.WritesPartly results →
      FlushEnds conn results (.again, { conn with writeBufferChain := wb :: chain })
  | fails (wb : WriteBuffer) (chain : List WriteBuffer) : conn.WriteFails results →
      FlushEnds conn results (.error, { conn with writeBufferChain := wb :: chain })

theorem flushEnds (conn : Connection) (results : List WriteResult) :
    conn.FlushEnds results (conn.flush results) := by
  by_cases closed : conn.fd < 0
  · rw [flush, if_pos closed]
    exact .closed closed
  · have writings : conn.writings results =
        chainWritings conn.ssl conn.writeBufferChain results := if_neg closed
    have ends := chainEnds conn.ssl conn.writeBufferChain results
    rw [flush, if_neg closed]
    rw [← writings] at ends
    dsimp only
    generalize flushChain conn.ssl conn.writeBufferChain results = flushed at ends ⊢
    cases ends with
    | drained all => exact .drained all
    | waits wb chain unfailed partly => exact .waits wb chain ⟨unfailed, partly⟩
    | fails wb chain failed => exact .fails wb chain failed

theorem flush_of_writesAll {conn : Connection} {results : List WriteResult}
    (opened : ¬ conn.fd < 0) (all : conn.WritesAll results) :
    conn.flush results = (conn.drainedStatus, { conn with writeBufferChain := [] }) := by
  have ends := conn.flushEnds results
  generalize conn.flush results = flushed at ends ⊢
  cases ends with
  | closed closed => exact absurd closed opened
  | drained => rfl
  | waits wb chain partly =>
      obtain ⟨-, writing, listed, partly⟩ := partly
      exact absurd (all writing listed) partly
  | fails wb chain failed =>
      obtain ⟨writing, listed, failed⟩ := failed
      exact absurd (all writing listed).1 (Int.not_le.mpr failed)

theorem exists_of_mem_chainWritings {tls : Bool} {chain : List WriteBuffer}
    {results : List WriteResult} {writing : Writing}
    (listed : writing ∈ chainWritings tls chain results) :
    ∃ wb ∈ chain, ∃ rest, writing = ⟨wb, tls, rest, writen tls wb.asked rest⟩ := by
  induction chain generalizing results with
  | nil => cases listed
  | cons wb chain inductionHypothesis =>
      rw [chainWritings] at listed
      rcases List.mem_cons.mp listed with rfl | later
      · exact ⟨wb, List.mem_cons_self, results, rfl⟩
      · split at later
        · obtain ⟨other, member, same⟩ := inductionHypothesis later
          exact ⟨other, List.mem_cons_of_mem _ member, same⟩
        · cases later

/-- Without TLS, `Writen` returns fewer bytes than it is asked for only if the socket would
block. -/
theorem writenBlocks_of_short {len n : Nat} {results : List WriteResult}
    (size : asSsize len = len) (returned : 0 ≤ (writenFrom false len n results).ret)
    (short : (writenFrom false len n results).accepted < len) :
    writenBlocks false len n results = true := by
  induction results generalizing n with
  | nil =>
      have room : (n : Int) < asSsize len := by
        rw [size]
        exact Int.ofNat_lt.mpr short
      simp [writenBlocks, room]
  | cons result rest inductionHypothesis =>
      unfold writenFrom at returned short
      unfold writenBlocks
      by_cases room : (n : Int) < asSsize len
      · rw [if_pos room] at returned short ⊢
        cases result with
        | accepted more => exact inductionHypothesis returned short
        | ended sslError => simp [stopped] at returned
        | failed sslError errno =>
            cases errno with
            | again => rfl
            | other => simp [stopped] at returned
      · rw [if_neg room] at short
        rw [size] at room
        exact absurd (Int.ofNat_lt.mpr short) room

theorem asSsize_of_le {len : Nat} (inMemory : len ≤ vectorMaxSize) : asSsize len = len := by
  unfold vectorMaxSize at inMemory
  apply Int.bmod_eq_of_le
  · omega
  · omega

/-- Without TLS, `Flush` does not leave output behind that the socket would take. -/
theorem not_stalls {chain : List WriteBuffer} {results : List WriteResult}
    (waiting : ∀ wb ∈ chain, wb.Waiting)
    (possible : ∀ writing ∈ chainWritings false chain results,
      writing.written.accepted ≤ writing.buffer.asked) :
    ∀ writing ∈ chainWritings false chain results, ¬ writing.Stalls := by
  rintro writing listed ⟨returned, partly, unblocked⟩
  have within := possible writing listed
  obtain ⟨wb, member, rest, rfl⟩ := exists_of_mem_chainWritings listed
  have buffer := waiting wb member
  have asked := buffer.asked
  have inMemory := buffer.inMemory
  have left := buffer.left
  have counted : (writen false wb.asked rest).ret = (writen false wb.asked rest).accepted := by
    rcases ret_writenFrom false wb.asked 0 rest with failed | counted
    · have negative : (writen false wb.asked rest).ret = -1 := failed
      rw [negative] at returned
      exact absurd returned (by decide)
    · exact counted
  have short : (writen false wb.asked rest).accepted < wb.asked := by
    apply Nat.lt_of_le_of_ne within
    intro everything
    apply partly
    refine ⟨returned, ?_⟩
    dsimp only
    rw [counted, Int.toNat_natCast, buffer.advance within, everything, asked]
    omega
  have size : asSsize wb.asked = wb.asked := asSsize_of_le (by omega)
  exact unblocked (writenBlocks_of_short size returned short)

end Connection

end Mevent
