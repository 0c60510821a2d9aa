import Mevent.WebSocket.Parse

/-!
# Rounds of the frame parser

What one round of `WebSocket::Parse` does, said once for each way it can go.
A complete header is followed by two length guards; when the sum of the header
size and the declared length does not wrap, a frame that passes both guards is
consumed, and when the sum wraps, it is not.
-/

namespace Mevent.WebSocket

open Library

theorem readByte_of_lt {rbuf : Bytes} {index : Nat} (inside : index < rbuf.length) :
    readByte rbuf index = .ok rbuf[index] := by
  simp [readByte, inside]

theorem readByte_append {rbuf : Bytes} {index : Nat} {byte : UInt8}
    (read : readByte rbuf index = .ok byte) (more : Bytes) :
    readByte (rbuf ++ more) index = .ok byte := by
  unfold readByte at read ⊢
  cases found : rbuf[index]? with
  | none => simp [found] at read
  | some other =>
      have inside : index < rbuf.length := (List.getElem?_eq_some_iff.mp found).1
      rw [List.getElem?_append_left inside, found]
      simpa [found] using read

theorem readLength_of_le {rbuf : Bytes} (index count acc : Nat)
    (inside : index + count ≤ rbuf.length) :
    ∃ len, readLength rbuf index count acc = .ok len ∧
      len < (acc + 1) * 256 ^ count := by
  induction count generalizing index acc with
  | zero => exact ⟨acc, rfl, by simp⟩
  | succ count inductionHypothesis =>
      have indexInside : index < rbuf.length := by omega
      rcases inductionHypothesis (index + 1) (acc * 256 + rbuf[index].toNat) (by omega) with
        ⟨len, read, bound⟩
      refine ⟨len, ?_, ?_⟩
      · rw [readLength, readByte_of_lt indexInside]
        exact read
      · have byteBound : rbuf[index].toNat < 256 := rbuf[index].toNat_lt
        calc
          len < (acc * 256 + rbuf[index].toNat + 1) * 256 ^ count := bound
          _ ≤ ((acc + 1) * 256) * 256 ^ count :=
              Nat.mul_le_mul_right _ (by omega)
          _ = (acc + 1) * 256 ^ (count + 1) := by
              rw [Nat.pow_succ, Nat.mul_assoc, Nat.mul_comm 256]

theorem readLength_append {rbuf : Bytes} {index count acc len : Nat}
    (read : readLength rbuf index count acc = .ok len) (more : Bytes) :
    readLength (rbuf ++ more) index count acc = .ok len := by
  induction count generalizing index acc with
  | zero => exact read
  | succ count inductionHypothesis =>
      simp only [readLength] at read ⊢
      cases first : readByte rbuf index with
      | error reason => rw [first] at read; cases read
      | ok byte =>
          rw [first] at read
          rw [readByte_append first more]
          exact inductionHypothesis read

theorem readMaskingKey_of_le {rbuf : Bytes} {index : Nat}
    (inside : index + 4 ≤ rbuf.length) :
    readMaskingKey rbuf index =
      .ok #v[rbuf[index], rbuf[index + 1], rbuf[index + 2], rbuf[index + 3]] := by
  simp only [readMaskingKey]
  rw [readByte_of_lt (by omega), readByte_of_lt (by omega),
    readByte_of_lt (by omega), readByte_of_lt (by omega)]
  rfl

theorem headerSizeOf_bounds (len0 : Nat) (mask : Bool) :
    2 ≤ headerSizeOf len0 mask ∧ headerSizeOf len0 mask ≤ 14 := by
  unfold headerSizeOf
  split <;> split <;> (try split) <;> omega

theorem readLen_of_le {rbuf : Bytes} {len0 : Nat} {mask : Bool}
    (small : len0 < 128) (inside : headerSizeOf len0 mask ≤ rbuf.length) :
    ∃ len, readLen rbuf len0 = .ok len ∧ len < 2 ^ 64 := by
  unfold headerSizeOf at inside
  unfold readLen
  split
  next short => exact ⟨len0, rfl, by omega⟩
  next long =>
    split at inside
    next two =>
      rcases @readLength_of_le rbuf 2 2 0 (by omega) with
        ⟨len, read, bound⟩
      exact ⟨len, by rw [if_pos two, read], by omega⟩
    next notTwo =>
      have eight : len0 = 127 := by omega
      rw [if_pos eight] at inside
      rcases @readLength_of_le rbuf 2 8 0 (by omega) with
        ⟨len, read, bound⟩
      exact ⟨len, by rw [if_neg notTwo, if_pos eight, read], by omega⟩

theorem readKey_of_le {rbuf : Bytes} {len0 : Nat} {mask : Bool}
    (inside : headerSizeOf len0 mask ≤ rbuf.length) :
    ∃ maskingKey, readKey rbuf mask (headerSizeOf len0 mask) = .ok maskingKey := by
  unfold readKey
  cases mask with
  | false => exact ⟨_, rfl⟩
  | true =>
      have inside' : headerSizeOf len0 true - 4 + 4 ≤ rbuf.length := by
        have bounds := headerSizeOf_bounds len0 true
        simp only [headerSizeOf, if_true] at inside bounds ⊢
        omega
      exact ⟨_, readMaskingKey_of_le inside'⟩

/-- The shape of `readHeader` behind its first guard. -/
theorem readHeader_of_le {rbuf : Bytes} (long : 2 ≤ rbuf.length) :
    readHeader rbuf =
      if rbuf.length <
          headerSizeOf (rbuf[1] &&& 0x7f).toNat (rbuf[1] &&& 0x80 == 0x80) then
        .error .returnsTrue
      else do
        let len ← readLen rbuf (rbuf[1] &&& 0x7f).toNat
        let maskingKey ← readKey rbuf (rbuf[1] &&& 0x80 == 0x80)
          (headerSizeOf (rbuf[1] &&& 0x7f).toNat (rbuf[1] &&& 0x80 == 0x80))
        return {
          headerSize :=
            headerSizeOf (rbuf[1] &&& 0x7f).toNat (rbuf[1] &&& 0x80 == 0x80)
          fin := rbuf[0] &&& 0x80 == 0x80
          mask := rbuf[1] &&& 0x80 == 0x80
          opcode := .ofCode (rbuf[0] &&& 0x0f).toNat
          len0 := (rbuf[1] &&& 0x7f).toNat
          len := len
          maskingKey := maskingKey } := by
  rw [readHeader, if_neg (by omega), readByte_of_lt (by omega), readByte_of_lt (by omega)]
  rfl

theorem and_127_lt (byte : UInt8) : (byte &&& 0x7f).toNat < 128 := by
  rw [UInt8.toNat_and]
  exact Nat.lt_of_le_of_lt Nat.and_le_right (by decide)

theorem readHeader_cases (rbuf : Bytes) :
    readHeader rbuf = .error .returnsTrue ∨
      ∃ wsh, readHeader rbuf = .ok wsh ∧ 2 ≤ wsh.headerSize ∧
        wsh.headerSize ≤ 14 ∧ wsh.headerSize ≤ rbuf.length ∧ wsh.len < 2 ^ 64 := by
  by_cases short : rbuf.length < 2
  · exact .inl (if_pos short)
  · rw [readHeader_of_le (by omega)]
    split
    next incomplete => exact .inl rfl
    next complete =>
      rcases readLen_of_le (and_127_lt _) (Nat.le_of_not_lt complete) with
        ⟨len, lenRead, bound⟩
      rcases readKey_of_le (Nat.le_of_not_lt complete) with ⟨maskingKey, keyRead⟩
      have bounds := headerSizeOf_bounds (rbuf[1] &&& 0x7f).toNat
        (rbuf[1] &&& 0x80 == 0x80)
      rw [lenRead, keyRead]
      exact .inr ⟨_, rfl, bounds.1, bounds.2, Nat.le_of_not_lt complete, bound⟩

theorem readLen_append {rbuf : Bytes} {len0 len : Nat}
    (read : readLen rbuf len0 = .ok len) (more : Bytes) :
    readLen (rbuf ++ more) len0 = .ok len := by
  unfold readLen at read ⊢
  split
  next short => rwa [if_pos short] at read
  next long =>
    rw [if_neg long] at read
    split
    next two =>
      rw [if_pos two] at read
      exact readLength_append read more
    next notTwo =>
      rw [if_neg notTwo] at read
      split
      next eight =>
        rw [if_pos eight] at read
        exact readLength_append read more
      next notEight => rwa [if_neg notEight] at read

theorem readKey_append {rbuf : Bytes} {mask : Bool} {headerSize : Nat}
    {maskingKey : Vector UInt8 4}
    (inside : headerSize ≤ rbuf.length) (fits : mask = true → 4 ≤ headerSize)
    (read : readKey rbuf mask headerSize = .ok maskingKey) (more : Bytes) :
    readKey (rbuf ++ more) mask headerSize = .ok maskingKey := by
  unfold readKey at read ⊢
  cases mask with
  | false => exact read
  | true =>
      have room := fits rfl
      have keyInside : headerSize - 4 + 4 ≤ rbuf.length := by omega
      have keyInsideMore : headerSize - 4 + 4 ≤ (rbuf ++ more).length := by
        rw [List.length_append]
        omega
      simp only [if_true] at read ⊢
      rw [readMaskingKey_of_le keyInside] at read
      rw [readMaskingKey_of_le keyInsideMore, ← read]
      rw [List.getElem_append_left, List.getElem_append_left,
        List.getElem_append_left, List.getElem_append_left]

theorem headerSizeOf_of_mask {len0 : Nat} {mask : Bool} (masked : mask = true) :
    4 ≤ headerSizeOf len0 mask := by
  simp only [headerSizeOf, masked, if_true]
  omega

theorem readHeader_append {rbuf : Bytes} {wsh : WebSocketHeader}
    (read : readHeader rbuf = .ok wsh) (more : Bytes) :
    readHeader (rbuf ++ more) = .ok wsh := by
  have long : 2 ≤ rbuf.length := by
    by_contra short
    rw [readHeader, if_pos (by omega)] at read
    cases read
  have longMore : 2 ≤ (rbuf ++ more).length := by
    rw [List.length_append]
    omega
  rw [readHeader_of_le long] at read
  rw [readHeader_of_le longMore]
  rw [List.getElem_append_left (by omega), List.getElem_append_left (by omega)]
  split at read
  next incomplete => cases read
  next complete =>
    have inside := Nat.le_of_not_lt complete
    rw [if_neg (by rw [List.length_append]; omega)]
    rcases readLen_of_le (and_127_lt _) inside with ⟨len, lenRead, -⟩
    rcases readKey_of_le inside with ⟨maskingKey, keyRead⟩
    rw [lenRead, keyRead] at read
    rw [readLen_append lenRead more,
      readKey_append inside headerSizeOf_of_mask keyRead more]
    exact read

def applyMask (maskingKey : Vector UInt8 4) : Nat → Bytes → Bytes
  | _, [] => []
  | index, byte :: rest =>
      (byte ^^^ keyByte maskingKey index) :: applyMask maskingKey (index + 1) rest

@[simp]
theorem length_applyMask (maskingKey : Vector UInt8 4) (index : Nat) (bytes : Bytes) :
    (applyMask maskingKey index bytes).length = bytes.length := by
  induction bytes generalizing index with
  | nil => rfl
  | cons byte rest inductionHypothesis => simp [applyMask, inductionHypothesis]

@[simp]
theorem applyMask_applyMask (maskingKey : Vector UInt8 4) (index : Nat) (bytes : Bytes) :
    applyMask maskingKey index (applyMask maskingKey index bytes) = bytes := by
  induction bytes generalizing index with
  | nil => rfl
  | cons byte rest inductionHypothesis =>
      rw [applyMask, applyMask, inductionHypothesis, UInt8.xor_assoc, UInt8.xor_self,
        UInt8.xor_zero]

theorem unmask_of_buffered (wsh : WebSocketHeader) (front payload behind : Bytes)
    {index : Nat} (reached : front.length = wsh.headerSize + index)
    (small : wsh.headerSize + index + payload.length < 2 ^ 64) :
    unmask wsh payload.length index (front ++ payload ++ behind) =
      .ok (front ++ applyMask wsh.maskingKey index payload ++ behind) := by
  induction payload generalizing front index with
  | nil => rfl
  | cons byte rest inductionHypothesis =>
      have position : wrap64 (index + wsh.headerSize) = front.length := by
        rw [wrap64_of_lt (by omega)]
        omega
      have read : readByte (front ++ byte :: rest ++ behind) front.length = .ok byte := by
        rw [readByte_of_lt (by simp)]
        simp
      have written :
          (front ++ byte :: rest ++ behind).set front.length
              (byte ^^^ keyByte wsh.maskingKey index) =
            (front ++ [byte ^^^ keyByte wsh.maskingKey index]) ++ rest ++ behind := by
        simp
      rw [List.length_cons, unmask, position, read]
      change unmask wsh rest.length (index + 1) _ = _
      rw [written, inductionHypothesis _ (by simp; omega) (by simp at small; omega)]
      simp [applyMask]

theorem unmask_error {wsh : WebSocketHeader} {count index : Nat} {rbuf : Bytes}
    {reason : ParseExit} (stopped : unmask wsh count index rbuf = .error reason) :
    reason = .outOfRange := by
  induction count generalizing index rbuf with
  | zero => cases stopped
  | succ count inductionHypothesis =>
      unfold unmask readByte at stopped
      cases found : rbuf[wrap64 (index + wsh.headerSize)]? with
      | none =>
          simp only [found] at stopped
          cases stopped
          rfl
      | some byte =>
          simp only [found] at stopped
          exact inductionHypothesis stopped

theorem unmaskFrame_error {wsh : WebSocketHeader} {rbuf : Bytes} {reason : ParseExit}
    (stopped : unmaskFrame wsh rbuf = .error reason) : reason = .outOfRange := by
  unfold unmaskFrame at stopped
  split at stopped
  next masked => exact unmask_error stopped
  next plain => cases stopped

def plain (wsh : WebSocketHeader) (payload : Bytes) : Bytes :=
  if wsh.mask then applyMask wsh.maskingKey 0 payload else payload

theorem unmaskFrame_of_buffered (wsh : WebSocketHeader) {front payload behind : Bytes}
    (reached : front.length = wsh.headerSize) (length : payload.length = wsh.len)
    (small : wsh.headerSize + wsh.len < 2 ^ 64) :
    unmaskFrame wsh (front ++ payload ++ behind) =
      .ok (front ++ plain wsh payload ++ behind) := by
  rw [← length] at small
  have loop := @unmask_of_buffered wsh front payload behind 0 (by omega) (by omega)
  unfold unmaskFrame plain
  rw [← length]
  cases masked : wsh.mask with
  | false => simp
  | true =>
      cases payload with
      | nil => simp [applyMask]
      | cons byte rest =>
          rw [if_pos ⟨rfl, by simp⟩, loop]
          simp

@[simp]
theorem length_plain (wsh : WebSocketHeader) (payload : Bytes) :
    (plain wsh payload).length = payload.length := by
  unfold plain
  split <;> simp

theorem consumeFrame_of_buffered (ws : WebSocket) {wsh : WebSocketHeader}
    {front payload behind : Bytes}
    (buffer : ws.rbuf = front ++ payload ++ behind)
    (reached : front.length = wsh.headerSize) (length : payload.length = wsh.len)
    (small : wsh.headerSize + wsh.len < 2 ^ 64) :
    ws.consumeFrame wsh (wsh.headerSize + wsh.len) =
      .ok ({ ws with
              rbuf := behind
              cacheStr := (dispatch wsh.opcode wsh.fin
                (ws.cacheStr ++ plain wsh payload)).2 },
        (dispatch wsh.opcode wsh.fin (ws.cacheStr ++ plain wsh payload)).1) := by
  have copied : copyRange (front ++ plain wsh payload ++ behind) wsh.headerSize
      (wsh.headerSize + wsh.len) = .ok (plain wsh payload) := by
    rw [copyRange, if_pos (by simp; omega), ← reached, ← length]
    rw [List.take_append_of_le_length (by simp), List.take_of_length_le (by simp)]
    rw [List.drop_left]
  have erased : eraseFront (front ++ plain wsh payload ++ behind)
      (wsh.headerSize + wsh.len) = .ok behind := by
    rw [eraseFront, if_pos (by simp; omega)]
    rw [List.drop_left' (by simp; omega)]
  rw [consumeFrame, buffer, unmaskFrame_of_buffered wsh reached length small]
  change (copyRange _ _ _ >>= _) = _
  rw [copied]
  change (eraseFront _ _ >>= _) = _
  rw [erased]
  rfl

theorem consumeFrame_of_wrapped (ws : WebSocket) {wsh : WebSocketHeader} {last : Nat}
    (wrapped : last < wsh.headerSize) :
    ws.consumeFrame wsh last = .error .outOfRange := by
  have backwards : ∀ rbuf, copyRange rbuf wsh.headerSize last = .error .outOfRange := by
    intro rbuf
    rw [copyRange, if_neg (by omega)]
  rw [consumeFrame]
  cases unmasked : unmaskFrame wsh ws.rbuf with
  | error reason =>
      rw [unmaskFrame_error unmasked]
      rfl
  | ok rbuf =>
      change (copyRange _ _ _ >>= _) = _
      rw [backwards]
      rfl

theorem parseFrame_of_buffered (ws : WebSocket) {wsh : WebSocketHeader}
    {front payload behind : Bytes}
    (buffer : ws.rbuf = front ++ payload ++ behind)
    (header : readHeader ws.rbuf = .ok wsh)
    (reached : front.length = wsh.headerSize) (length : payload.length = wsh.len)
    (small : wsh.headerSize + wsh.len < 2 ^ 64)
    (accepted : wrap64 (ws.cacheStr.length + wsh.len) ≤ ws.maxBufferSize) :
    ws.parseFrame =
      .ok ({ ws with
              rbuf := behind
              cacheStr := (dispatch wsh.opcode wsh.fin
                (ws.cacheStr ++ plain wsh payload)).2 },
        (dispatch wsh.opcode wsh.fin (ws.cacheStr ++ plain wsh payload)).1) := by
  have enough : ¬ ws.rbuf.length < wsh.headerSize + wsh.len := by
    rw [buffer]
    simp
    omega
  rw [parseFrame, header]
  change (if ws.rbuf.length < wrap64 (wsh.headerSize + wsh.len) then _ else _) = _
  rw [wrap64_of_lt small, if_neg enough, if_neg (Nat.not_lt.mpr accepted)]
  exact consumeFrame_of_buffered ws buffer reached length small

/-- The declared length of the frame at the front of `rbuf_` wraps the sum of
both length guards past `2 ^ 64`, and neither guard stops the frame. -/
def Overflows (ws : WebSocket) : Prop :=
  ∃ wsh, readHeader ws.rbuf = .ok wsh ∧
    2 ^ 64 ≤ wsh.headerSize + wsh.len ∧
    wrap64 (wsh.headerSize + wsh.len) ≤ ws.rbuf.length ∧
    wrap64 (ws.cacheStr.length + wsh.len) ≤ ws.maxBufferSize

theorem parseFrame_cases (ws : WebSocket) :
    ws.parseFrame = .error .returnsTrue ∨
      (∃ wsh, readHeader ws.rbuf = .ok wsh ∧
        wrap64 (wsh.headerSize + wsh.len) ≤ ws.rbuf.length ∧
        ws.maxBufferSize < wrap64 (ws.cacheStr.length + wsh.len) ∧
        ws.parseFrame = .error .returnsFalse) ∨
      (∃ wsh front payload behind, ws.rbuf = front ++ payload ++ behind ∧
        readHeader ws.rbuf = .ok wsh ∧
        front.length = wsh.headerSize ∧ payload.length = wsh.len ∧
        2 ≤ wsh.headerSize ∧ wsh.headerSize + wsh.len < 2 ^ 64 ∧
        wrap64 (ws.cacheStr.length + wsh.len) ≤ ws.maxBufferSize ∧
        ws.parseFrame =
          .ok ({ ws with
                  rbuf := behind
                  cacheStr := (dispatch wsh.opcode wsh.fin
                    (ws.cacheStr ++ plain wsh payload)).2 },
            (dispatch wsh.opcode wsh.fin (ws.cacheStr ++ plain wsh payload)).1)) ∨
      (ws.Overflows ∧ ws.parseFrame = .error .outOfRange) := by
  rcases readHeader_cases ws.rbuf with incomplete | ⟨wsh, header, lower, upper, inside, lenSmall⟩
  · left
    rw [parseFrame, incomplete]
    rfl
  · have shape : ws.parseFrame = _ := rfl
    conv at shape => rhs; unfold parseFrame
    rw [header] at shape
    change ws.parseFrame =
      if ws.rbuf.length < wrap64 (wsh.headerSize + wsh.len) then _ else _ at shape
    by_cases missing : ws.rbuf.length < wrap64 (wsh.headerSize + wsh.len)
    · left
      rw [shape, if_pos missing]
    · rw [if_neg missing] at shape
      by_cases tooLong : ws.maxBufferSize < wrap64 (ws.cacheStr.length + wsh.len)
      · right; left
        rw [if_pos tooLong] at shape
        exact ⟨wsh, header, by omega, tooLong, shape⟩
      · right; right
        rw [if_neg tooLong] at shape
        by_cases small : wsh.headerSize + wsh.len < 2 ^ 64
        · left
          rw [wrap64_of_lt small] at missing
          refine ⟨wsh, ws.rbuf.take wsh.headerSize,
            (ws.rbuf.drop wsh.headerSize).take wsh.len,
            (ws.rbuf.drop wsh.headerSize).drop wsh.len, ?_⟩
          have buffer : ws.rbuf = ws.rbuf.take wsh.headerSize ++
              (ws.rbuf.drop wsh.headerSize).take wsh.len ++
              (ws.rbuf.drop wsh.headerSize).drop wsh.len := by
            rw [List.append_assoc, List.take_append_drop, List.take_append_drop]
          have reached : (ws.rbuf.take wsh.headerSize).length = wsh.headerSize := by
            rw [List.length_take]
            omega
          have length : ((ws.rbuf.drop wsh.headerSize).take wsh.len).length = wsh.len := by
            rw [List.length_take, List.length_drop]
            omega
          exact ⟨buffer, header, reached, length, lower, small, by omega,
            parseFrame_of_buffered ws buffer header reached length small (by omega)⟩
        · right
          refine ⟨⟨wsh, header, by omega, by omega, by omega⟩, ?_⟩
          rw [shape]
          apply consumeFrame_of_wrapped
          unfold wrap64
          omega

end Mevent.WebSocket
