import Mevent.WebSocket.Frames

/-!
# Messages survive their framing

However a message is cut into frames, and however its frames are masked and
their lengths encoded, the parser hands exactly the message to the handlers.
-/

namespace Mevent.WebSocket

open Library

/-- The frames carry the message: the first one has the given opcode, the others
continue it, and only the last one is final. -/
inductive Fragments : WebSocketOpcodeType → Bytes → List WireFrame → Prop where
  | last {opcode : WebSocketOpcodeType} (frame : WireFrame) :
      frame.opcode = opcode → frame.fin = true →
      Fragments opcode frame.payload [frame]
  | more {opcode : WebSocketOpcodeType} (frame : WireFrame) {message : Bytes}
      {frames : List WireFrame} :
      frame.opcode = opcode → frame.fin = false →
      Fragments .continuation message frames →
      Fragments opcode (frame.payload ++ message) (frame :: frames)

/-- The frames carry a text or a binary message. -/
def Carries (message : Bytes) (frames : List WireFrame) : Prop :=
  Fragments .textFrame message frames ∨ Fragments .binaryFrame message frames

theorem deliver_fragments {opcode : WebSocketOpcodeType} {message : Bytes}
    {frames : List WireFrame} (fragments : Fragments opcode message frames)
    (data : opcode.isData = true) {maxBufferSize : Nat} (cacheStr : Bytes)
    (within : cacheStr.length + message.length ≤ maxBufferSize)
    (rest : List WireFrame) :
    ∃ final : WebSocketOpcodeType, final.isData = true ∧
      deliver maxBufferSize cacheStr (frames ++ rest) =
        { deliver maxBufferSize [] rest with
          tasks := ⟨final, cacheStr ++ message⟩ ::
            (deliver maxBufferSize [] rest).tasks } := by
  induction fragments generalizing cacheStr with
  | @last opcode frame sameOpcode final =>
      subst sameOpcode
      refine ⟨frame.opcode, data, ?_⟩
      simp only [List.cons_append, List.nil_append, deliver]
      rw [if_neg (Nat.not_lt.mpr within), dispatch_of_isData data, final]
      rfl
  | @more opcode frame message frames sameOpcode notFinal _ inductionHypothesis =>
      subst sameOpcode
      rw [List.length_append] at within
      rcases inductionHypothesis rfl (cacheStr ++ frame.payload)
          (by rw [List.length_append]; omega) with ⟨final, finalData, delivered⟩
      refine ⟨final, finalData, ?_⟩
      simp only [List.cons_append, deliver]
      rw [if_neg (by omega), dispatch_of_isData data, notFinal]
      simp only [Bool.false_eq_true, if_false, List.nil_append]
      rw [delivered, List.append_assoc]

/-- A list of framed messages pushes one data task for each of them. -/
theorem deliver_messages {maxBufferSize : Nat} {messages : List Bytes}
    {frames : List (List WireFrame)}
    (carried : List.Forall₂ Carries messages frames)
    (within : ∀ message ∈ messages, message.length ≤ maxBufferSize) :
    (deliver maxBufferSize [] frames.flatten).accepted = true ∧
      (deliver maxBufferSize [] frames.flatten).cacheStr = [] ∧
      (deliver maxBufferSize [] frames.flatten).tasks.map WebSocketTask.msg = messages ∧
      ∀ task ∈ (deliver maxBufferSize [] frames.flatten).tasks,
        task.opcode.isData = true := by
  induction carried with
  | nil => simp [deliver]
  | @cons message first messages others carries _ inductionHypothesis =>
      have laterWithin : ∀ message ∈ messages, message.length ≤ maxBufferSize :=
        fun later membership => within later (List.mem_cons_of_mem _ membership)
      rcases inductionHypothesis laterWithin with ⟨accepted, cache, msgs, data⟩
      have messageWithin : ([] : Bytes).length + message.length ≤ maxBufferSize := by
        simpa using within message List.mem_cons_self
      obtain ⟨final, finalData, delivered⟩ : ∃ final : WebSocketOpcodeType,
          final.isData = true ∧
          deliver maxBufferSize [] (first ++ others.flatten) =
            { deliver maxBufferSize [] others.flatten with
              tasks := ⟨final, [] ++ message⟩ ::
                (deliver maxBufferSize [] others.flatten).tasks } := by
        rcases carries with text | binary
        · exact deliver_fragments text rfl [] messageWithin others.flatten
        · exact deliver_fragments binary rfl [] messageWithin others.flatten
      rw [List.flatten_cons, delivered]
      refine ⟨accepted, cache, by simp [msgs], ?_⟩
      intro task membership
      rcases List.mem_cons.mp membership with rfl | later
      · exact finalData
      · exact data task later

/-- The frame that `MakeFrame` makes: unmasked, with the shortest length. -/
def madeFrame (opcode : WebSocketOpcodeType) (named : ∀ code, opcode ≠ .reserved code)
    (message : Bytes) (small : message.length < 2 ^ 64) : WireFrame where
  fin := true
  opcode := opcode
  key := none
  form :=
    if message.length < 126 then .seven
    else if message.length < 65536 then .sixteen
    else .sixtyFour
  payload := message
  fits := by
    split
    next short => exact short
    next long =>
      split
      next medium => exact medium
      next huge => exact small
  named := named

theorem byte_of_shift (value count : Nat) :
    UInt8.ofNat ((value >>> (8 * count)) &&& 0xff) = UInt8.ofNat (value / 256 ^ count) := by
  have masked : (value >>> (8 * count)) &&& 0xff = value / 256 ^ count % 256 := by
    rw [Nat.shiftRight_eq_div_pow, Nat.pow_mul]
    exact Nat.and_two_pow_sub_one_eq_mod _ 8
  rw [masked]
  apply UInt8.toNat_inj.mp
  simp [UInt8.toNat_ofNat']

theorem makeFrame_eq_encode (opcode : WebSocketOpcodeType)
    (named : ∀ code, opcode ≠ .reserved code)
    (message : Bytes) (small : message.length < 2 ^ 64) :
    makeFrame [] message (UInt8.ofNat opcode.code) =
      (madeFrame opcode named message small).encode := by
  have first : 0x80 ||| UInt8.ofNat opcode.code = UInt8.ofNat (128 + opcode.code) := by
    cases opcode with
    | reserved code => exact absurd rfl (named code)
    | _ => rfl
  have byte := byte_of_shift message.length
  have bigEndian8 : bigEndian 8 message.length =
      [56, 48, 40, 32, 24, 16, 8, 0].map fun shift =>
        UInt8.ofNat ((message.length >>> shift) &&& 0xff) := by
    simp only [bigEndian, List.map]
    rw [← byte 7, ← byte 6, ← byte 5, ← byte 4, ← byte 3, ← byte 2, ← byte 1, ← byte 0]
  have bigEndian2 : bigEndian 2 message.length =
      [8, 0].map fun shift => UInt8.ofNat ((message.length >>> shift) &&& 0xff) := by
    simp only [bigEndian, List.map]
    rw [← byte 1, ← byte 0]
  have lowest : UInt8.ofNat ((message.length >>> 0) &&& 0xff) =
      UInt8.ofNat message.length := by
    rw [byte 0, Nat.pow_zero, Nat.div_one]
  simp only [makeFrame, WireFrame.encode, WireFrame.head, WireFrame.start,
    WireFrame.keyBytes, WireFrame.masked, madeFrame]
  rw [first]
  split
  next short =>
    rw [lowest]
    simp [LengthForm.extended, LengthForm.len0, bigEndian]
  next long =>
    split
    next medium =>
      simp only [LengthForm.extended, bigEndian2]
      simp [LengthForm.len0]
    next huge =>
      simp only [LengthForm.extended, bigEndian8]
      simp [LengthForm.len0]

/-- The parser undoes every encoding of a list of messages, the one that
`MakeFrame` chooses among them: it returns `true`, pushes exactly the messages,
and leaves nothing behind. -/
theorem parse_framed_messages :
    (∀ (opcode : WebSocketOpcodeType) (message : Bytes),
      opcode = .textFrame ∨ opcode = .binaryFrame → message.length < 2 ^ 64 →
      ∃ frame, Fragments opcode message [frame] ∧ frame.key = none ∧
        frame.encode = makeFrame [] message (UInt8.ofNat opcode.code)) ∧
    ∀ (ws : WebSocket) (messages : List Bytes) (frames : List (List WireFrame)),
      List.Forall₂ Carries messages frames →
      (∀ message ∈ messages, message.length ≤ ws.maxBufferSize) →
      ws.rbuf = encodeAll frames.flatten → ws.rbuf.length ≤ vectorMaxSize →
      ws.cacheStr = [] →
      ws.parse.verdict = .returnsTrue ∧
        ws.parse.outputs.map WebSocketTask.msg = messages ∧
        (∀ task ∈ ws.parse.outputs, task.opcode.isData = true) ∧
        ws.parse.state = { ws with rbuf := [], cacheStr := [] } := by
  constructor
  · intro opcode message data small
    have named : ∀ code, opcode ≠ .reserved code := by
      intro code
      rcases data with rfl | rfl <;> simp
    let frame := madeFrame opcode named message small
    have fragments : Fragments opcode frame.payload [frame] := .last frame rfl rfl
    exact ⟨frame, fragments, rfl, (makeFrame_eq_encode opcode named message small).symm⟩
  · intro ws messages frames carried within buffer small empty
    have total : ws.cacheStr.length + ws.rbuf.length < 2 ^ 64 := by
      rw [empty]
      unfold vectorMaxSize at small
      simp only [List.length_nil]
      omega
    rcases deliver_messages carried within with ⟨accepted, cache, msgs, data⟩
    rcases ws.parse_encodeAll frames.flatten buffer total with ⟨verdict, outputs, state⟩
    rw [empty] at verdict outputs state
    refine ⟨by rw [verdict, if_pos accepted], by rw [outputs, msgs], ?_, ?_⟩
    · rw [outputs]
      exact data
    · rw [state accepted, cache]

/-- The message `hi` in a masked text frame and an unmasked continuation frame. -/
theorem parse_framed_hi :
    (parse { reset with rbuf :=
        [0x01, 0x81, 0x10, 0x20, 0x30, 0x40, 0x78, 0x80, 0x7e, 0x00, 0x01, 0x69] }).outputs.map
      WebSocketTask.msg = [[0x68, 0x69]] := by
  let first : WireFrame :=
    ⟨false, .textFrame, some #v[0x10, 0x20, 0x30, 0x40], .seven, [0x68], by decide, by simp⟩
  let second : WireFrame :=
    ⟨true, .continuation, none, .sixteen, [0x69], by decide, by simp⟩
  have fragments : Fragments .textFrame [0x68, 0x69] [first, second] :=
    .more first rfl rfl (.last second rfl rfl)
  have carried : List.Forall₂ Carries [[0x68, 0x69]] [[first, second]] :=
    .cons (.inl fragments) .nil
  exact (parse_framed_messages.2 _ [[0x68, 0x69]] [[first, second]] carried
    (by decide) (by decide) (by decide) rfl).2.1

end Mevent.WebSocket
