import Mevent.WebSocket.Reading

/-!
# Frames on the wire

An encoded frame carries the proof that its length field can hold the length of
its payload.  The parser, run over the bytes of a list of frames, does what an
interpreter of the frames themselves does: that interpreter knows nothing about
headers, masks or the three encodings of a length.
-/

namespace Mevent

open Library

/-- The three encodings of a payload length. -/
inductive LengthForm where
  | seven
  | sixteen
  | sixtyFour
  deriving DecidableEq, Repr

namespace LengthForm

def capacity : LengthForm → Nat
  | .seven => 126
  | .sixteen => 65536
  | .sixtyFour => 2 ^ 64

def len0 (length : Nat) : LengthForm → Nat
  | .seven => length
  | .sixteen => 126
  | .sixtyFour => 127

def extended : LengthForm → Nat
  | .seven => 0
  | .sixteen => 2
  | .sixtyFour => 8

end LengthForm

/-- One frame, with the choices its sender has made. -/
structure WireFrame where
  fin : Bool
  opcode : WebSocketOpcodeType
  key : Option (Vector UInt8 4)
  form : LengthForm
  payload : Bytes
  /-- The length field can hold the length. -/
  fits : payload.length < form.capacity
  /-- The opcode has a name. -/
  named : ∀ code, opcode ≠ .reserved code

/-- The last `count` bytes of a number, the most significant one first. -/
def bigEndian : (count value : Nat) → Bytes
  | 0, _ => []
  | count + 1, value => UInt8.ofNat (value / 256 ^ count) :: bigEndian count value

@[simp]
theorem length_bigEndian (count value : Nat) : (bigEndian count value).length = count := by
  induction count with
  | zero => rfl
  | succ count inductionHypothesis => simp [bigEndian, inductionHypothesis]

namespace WireFrame

def start (frame : WireFrame) : Bytes :=
  [UInt8.ofNat ((if frame.fin then 128 else 0) + frame.opcode.code),
    UInt8.ofNat ((if frame.key.isSome then 128 else 0) +
      frame.form.len0 frame.payload.length)]

def keyBytes (frame : WireFrame) : Bytes :=
  match frame.key with
  | some key => [key[0], key[1], key[2], key[3]]
  | none => []

def masked (frame : WireFrame) : Bytes :=
  match frame.key with
  | some key => WebSocket.applyMask key 0 frame.payload
  | none => frame.payload

def head (frame : WireFrame) : Bytes :=
  frame.start ++ bigEndian frame.form.extended frame.payload.length ++ frame.keyBytes

def encode (frame : WireFrame) : Bytes :=
  frame.head ++ frame.masked

def header (frame : WireFrame) : WebSocketHeader where
  headerSize := WebSocket.headerSizeOf (frame.form.len0 frame.payload.length)
    frame.key.isSome
  fin := frame.fin
  mask := frame.key.isSome
  opcode := frame.opcode
  len0 := frame.form.len0 frame.payload.length
  len := frame.payload.length
  maskingKey := frame.key.getD WebSocket.noMaskingKey

@[simp]
theorem length_masked (frame : WireFrame) : frame.masked.length = frame.payload.length := by
  unfold masked
  split <;> simp

theorem len0_lt (frame : WireFrame) : frame.form.len0 frame.payload.length < 128 := by
  have fits := frame.fits
  cases form : frame.form <;> simp [LengthForm.len0, LengthForm.capacity, form] at fits ⊢
  omega

theorem length_head (frame : WireFrame) :
    frame.head.length = frame.header.headerSize := by
  have fits := frame.fits
  have keyLength : frame.keyBytes.length = if frame.key.isSome then 4 else 0 := by
    unfold keyBytes
    split <;> simp_all
  simp only [head, start, header, List.length_append, length_bigEndian, keyLength,
    List.length_cons, List.length_nil, WebSocket.headerSizeOf]
  cases form : frame.form with
  | seven =>
      simp only [LengthForm.capacity, form] at fits
      have notTwo : frame.payload.length ≠ 126 := by omega
      have notEight : frame.payload.length ≠ 127 := by omega
      simp [LengthForm.extended, LengthForm.len0, notTwo, notEight]
  | sixteen => rfl
  | sixtyFour => rfl

theorem plain_masked (frame : WireFrame) :
    WebSocket.plain frame.header frame.masked = frame.payload := by
  unfold WebSocket.plain header masked
  cases frame.key with
  | none => rfl
  | some key => simp

end WireFrame

namespace WebSocket

theorem code_lt_of_named {opcode : WebSocketOpcodeType}
    (named : ∀ code, opcode ≠ .reserved code) :
    opcode.code < 16 ∧ .ofCode opcode.code = opcode := by
  cases opcode with
  | reserved code => exact absurd rfl (named code)
  | _ => exact ⟨by decide, rfl⟩

theorem bits_of_byte (bit : Bool) (low : Nat) (small : low < 128) :
    ((UInt8.ofNat ((if bit then 128 else 0) + low)) &&& 0x80 == 0x80) = bit ∧
      ((UInt8.ofNat ((if bit then 128 else 0) + low)) &&& 0x7f).toNat = low := by
  have all : ∀ (bit : Bool) (low : Fin 128),
      ((UInt8.ofNat ((if bit then 128 else 0) + low)) &&& 0x80 == 0x80) = bit ∧
        ((UInt8.ofNat ((if bit then 128 else 0) + low)) &&& 0x7f).toNat = low := by
    decide +kernel
  exact all bit ⟨low, small⟩

theorem low_bits_of_byte (bit : Bool) {low : Nat} (small : low < 16) :
    ((UInt8.ofNat ((if bit then 128 else 0) + low)) &&& 0x0f).toNat = low := by
  have all : ∀ (bit : Bool) (low : Fin 16),
      ((UInt8.ofNat ((if bit then 128 else 0) + low)) &&& 0x0f).toNat = low := by
    decide +kernel
  exact all bit ⟨low, small⟩

theorem readLength_bigEndian (front behind : Bytes) (count acc value : Nat) :
    readLength (front ++ bigEndian count value ++ behind) front.length count acc =
      .ok (acc * 256 ^ count + value % 256 ^ count) := by
  induction count generalizing front acc with
  | zero => simp [readLength, Nat.mod_one]
  | succ count inductionHypothesis =>
      have read : readByte (front ++ bigEndian (count + 1) value ++ behind) front.length =
          .ok (UInt8.ofNat (value / 256 ^ count)) := by
        have inside : front.length < (front ++ bigEndian (count + 1) value ++ behind).length := by
          rw [List.length_append, List.length_append, length_bigEndian]
          omega
        rw [readByte_of_lt inside]
        simp [bigEndian]
      have shifted := inductionHypothesis (front ++ [UInt8.ofNat (value / 256 ^ count)])
        (acc * 256 + value / 256 ^ count % 256)
      rw [readLength, read]
      change readLength _ _ _ (acc * 256 + (UInt8.ofNat (value / 256 ^ count)).toNat) = _
      rw [UInt8.toNat_ofNat']
      have sameBytes : front ++ bigEndian (count + 1) value ++ behind =
          front ++ [UInt8.ofNat (value / 256 ^ count)] ++ bigEndian count value ++ behind := by
        simp [bigEndian]
      rw [sameBytes]
      rw [List.length_append] at shifted
      refine shifted.trans ?_
      congr 1
      rw [Nat.pow_succ, Nat.mod_mul, Nat.add_mul]
      have split := Nat.mul_comm (256 ^ count) (value / 256 ^ count % 256)
      rw [Nat.mul_assoc, Nat.mul_comm 256]
      omega

theorem readLen_encode (frame : WireFrame) (behind : Bytes) :
    readLen (frame.encode ++ behind) (frame.form.len0 frame.payload.length) =
      .ok frame.payload.length := by
  have fits := frame.fits
  have buffer : frame.encode ++ behind =
      frame.start ++ bigEndian frame.form.extended frame.payload.length ++
        (frame.keyBytes ++ frame.masked ++ behind) := by
    simp [WireFrame.encode, WireFrame.head]
  have extended : readLength (frame.encode ++ behind) 2 frame.form.extended 0 =
      .ok (frame.payload.length % 256 ^ frame.form.extended) := by
    rw [buffer]
    have read := readLength_bigEndian frame.start
      (frame.keyBytes ++ frame.masked ++ behind) frame.form.extended 0 frame.payload.length
    rw [Nat.zero_mul, Nat.zero_add] at read
    exact read
  unfold readLen
  cases form : frame.form with
  | seven =>
      simp only [LengthForm.capacity, form] at fits
      exact if_pos fits
  | sixteen =>
      simp only [LengthForm.capacity, form] at fits
      rw [form] at extended
      change readLength _ _ _ _ = _
      exact extended.trans (congrArg _ (Nat.mod_eq_of_lt fits))
  | sixtyFour =>
      simp only [LengthForm.capacity, form] at fits
      rw [form] at extended
      change readLength _ _ _ _ = _
      exact extended.trans (congrArg _ (Nat.mod_eq_of_lt fits))

theorem readKey_encode (frame : WireFrame) (behind : Bytes) :
    readKey (frame.encode ++ behind) frame.key.isSome frame.header.headerSize =
      .ok (frame.key.getD noMaskingKey) := by
  unfold readKey
  cases chosen : frame.key with
  | none => rfl
  | some key =>
      let before := frame.start ++ bigEndian frame.form.extended frame.payload.length
      have buffer : frame.encode ++ behind =
          before ++ [key[0], key[1], key[2], key[3]] ++ (frame.masked ++ behind) := by
        simp [before, WireFrame.encode, WireFrame.head, WireFrame.keyBytes, chosen]
      have position : frame.header.headerSize - 4 = before.length := by
        rw [← frame.length_head]
        simp [before, WireFrame.head, WireFrame.keyBytes, chosen]
        omega
      simp only [Option.isSome_some, if_true]
      rw [buffer, position, readMaskingKey_of_le (by simp)]
      simp only [Option.getD_some, Except.ok.injEq]
      ext index inside
      match index, inside with
      | 0, _ => simp
      | 1, _ => simp
      | 2, _ => simp
      | 3, _ => simp

/-- The parser reads back the header of every encoded frame. -/
theorem readHeader_encode (frame : WireFrame) (behind : Bytes) :
    readHeader (frame.encode ++ behind) = .ok frame.header := by
  have headLength := frame.length_head
  have atLeast := headerSizeOf_bounds (frame.form.len0 frame.payload.length)
    frame.key.isSome
  have headerSize : frame.header.headerSize =
      headerSizeOf (frame.form.len0 frame.payload.length) frame.key.isSome := rfl
  have inside : frame.header.headerSize ≤ (frame.encode ++ behind).length := by
    rw [← headLength]
    simp [WireFrame.encode]
  have long : 2 ≤ (frame.encode ++ behind).length := by omega
  have firstByte : (frame.encode ++ behind)[0] =
      UInt8.ofNat ((if frame.fin then 128 else 0) + frame.opcode.code) := rfl
  have secondByte : (frame.encode ++ behind)[1] =
      UInt8.ofNat ((if frame.key.isSome then 128 else 0) +
        frame.form.len0 frame.payload.length) := rfl
  have codes := code_lt_of_named frame.named
  have firstBits := bits_of_byte frame.fin frame.opcode.code (by omega)
  have lowBits := low_bits_of_byte frame.fin codes.1
  have secondBits := bits_of_byte frame.key.isSome _ frame.len0_lt
  rw [readHeader_of_le long, firstByte, secondByte]
  rw [firstBits.1, lowBits, secondBits.1, secondBits.2, codes.2]
  rw [← headerSize, if_neg (Nat.not_lt.mpr inside)]
  rw [readLen_encode, readKey_encode]
  rfl

theorem parseFrame_encode (ws : WebSocket) (frame : WireFrame) {behind : Bytes}
    (buffer : ws.rbuf = frame.encode ++ behind)
    (small : frame.encode.length < 2 ^ 64)
    (accepted : ws.cacheStr.length + frame.payload.length ≤ ws.maxBufferSize) :
    ws.parseFrame =
      .ok ({ ws with
              rbuf := behind
              cacheStr :=
                (dispatch frame.opcode frame.fin (ws.cacheStr ++ frame.payload)).2 },
        (dispatch frame.opcode frame.fin (ws.cacheStr ++ frame.payload)).1) := by
  have header : readHeader ws.rbuf = .ok frame.header := by
    rw [buffer]
    exact readHeader_encode frame behind
  have parts : ws.rbuf = frame.head ++ frame.masked ++ behind := by
    rw [buffer]
    rfl
  have fits : frame.header.headerSize + frame.header.len < 2 ^ 64 := by
    have lengths : frame.encode.length = frame.header.headerSize + frame.payload.length := by
      rw [← frame.length_head, ← frame.length_masked]
      exact List.length_append
    exact lengths ▸ small
  have parsed := parseFrame_of_buffered ws parts header frame.length_head
    frame.length_masked fits (Nat.le_trans (wrap64_le _) accepted)
  rw [parsed, frame.plain_masked]
  rfl

theorem parseFrame_encode_of_exceeds (ws : WebSocket) (frame : WireFrame)
    {behind : Bytes} (buffer : ws.rbuf = frame.encode ++ behind)
    (small : ws.cacheStr.length + frame.encode.length < 2 ^ 64)
    (exceeds : ws.maxBufferSize < ws.cacheStr.length + frame.payload.length) :
    ws.parseFrame = .error .returnsFalse := by
  have lengths : frame.encode.length = frame.header.headerSize + frame.payload.length := by
    rw [← frame.length_head, ← frame.length_masked]
    exact List.length_append
  have payload : frame.header.len = frame.payload.length := rfl
  have complete : ¬ ws.rbuf.length < frame.header.headerSize + frame.header.len := by
    rw [buffer, List.length_append]
    omega
  rw [parseFrame, buffer, readHeader_encode, ← buffer]
  change (if ws.rbuf.length < wrap64 (frame.header.headerSize + frame.header.len)
    then _ else _) = _
  rw [wrap64_of_lt (by omega), if_neg complete, payload, wrap64_of_lt (by omega),
    if_pos exceeds]

/-- The outcome of a list of frames: the tasks they push, what they leave in
`cache_str_`, and whether all of them were accepted. -/
structure Delivery where
  tasks : List WebSocketTask
  cacheStr : Bytes
  accepted : Bool
  deriving DecidableEq, Repr

/-- What a list of frames amounts to, without its encoding. -/
def deliver (maxBufferSize : Nat) : Bytes → List WireFrame → Delivery
  | cacheStr, [] => ⟨[], cacheStr, true⟩
  | cacheStr, frame :: rest =>
      if maxBufferSize < cacheStr.length + frame.payload.length then
        ⟨[], cacheStr, false⟩
      else
        let pushed := dispatch frame.opcode frame.fin (cacheStr ++ frame.payload)
        let later := deliver maxBufferSize pushed.2 rest
        { later with tasks := pushed.1 ++ later.tasks }

def encodeAll (frames : List WireFrame) : Bytes := frames.flatMap WireFrame.encode

theorem dispatch_of_isData {opcode : WebSocketOpcodeType} (data : opcode.isData = true)
    (fin : Bool) (cacheStr : Bytes) :
    dispatch opcode fin cacheStr =
      if fin then ([⟨opcode, cacheStr⟩], []) else ([], cacheStr) := by
  cases opcode <;> simp [WebSocketOpcodeType.isData] at data <;> rfl

theorem length_dispatch_le (opcode : WebSocketOpcodeType) (fin : Bool) (cacheStr : Bytes) :
    (dispatch opcode fin cacheStr).2.length ≤ cacheStr.length := by
  cases opcode <;> cases fin <;> simp [dispatch]

theorem length_payload_le (frame : WireFrame) :
    frame.payload.length ≤ frame.encode.length := by
  rw [← frame.length_masked, WireFrame.encode, List.length_append]
  omega

/-- The byte-level parser refines the frame-level interpreter. -/
theorem parse_encodeAll (ws : WebSocket) (frames : List WireFrame)
    (buffer : ws.rbuf = encodeAll frames)
    (small : ws.cacheStr.length + ws.rbuf.length < 2 ^ 64) :
    (ws.parse.verdict =
        if (deliver ws.maxBufferSize ws.cacheStr frames).accepted then .returnsTrue
        else .returnsFalse) ∧
      ws.parse.outputs = (deliver ws.maxBufferSize ws.cacheStr frames).tasks ∧
      ((deliver ws.maxBufferSize ws.cacheStr frames).accepted →
        ws.parse.state =
          { ws with
            rbuf := []
            cacheStr := (deliver ws.maxBufferSize ws.cacheStr frames).cacheStr }) := by
  unfold parse
  induction frames generalizing ws with
  | nil =>
      have stopped : ws.parseFrame = .error .returnsTrue := by
        rw [parseFrame, buffer]
        rfl
      rw [parser.run_of_leave (parser_round_of_error stopped)]
      refine ⟨rfl, rfl, fun _ => ?_⟩
      rw [show encodeAll [] = [] from rfl] at buffer
      simp [deliver, ← buffer]
  | cons frame rest inductionHypothesis =>
      have buffer' : ws.rbuf = frame.encode ++ encodeAll rest := by
        simpa [encodeAll] using buffer
      have lengths : ws.rbuf.length = frame.encode.length + (encodeAll rest).length := by
        rw [buffer', List.length_append]
      by_cases exceeds :
          ws.maxBufferSize < ws.cacheStr.length + frame.payload.length
      · have stopped := parseFrame_encode_of_exceeds ws frame buffer' (by omega) exceeds
        rw [parser.run_of_leave (parser_round_of_error stopped)]
        simp [deliver, exceeds]
      · have parsed := parseFrame_encode ws frame buffer' (by omega)
          (Nat.le_of_not_lt exceeds)
        have kept := length_dispatch_le frame.opcode frame.fin
          (ws.cacheStr ++ frame.payload)
        have payloadLe := length_payload_le frame
        rw [List.length_append] at kept
        have later := inductionHypothesis
          { ws with
            rbuf := encodeAll rest
            cacheStr := (dispatch frame.opcode frame.fin
              (ws.cacheStr ++ frame.payload)).2 }
          rfl (by simp only; omega)
        rw [parser.run_of_advance (parser_round_of_ok parsed)]
        simp only [deliver, if_neg exceeds, Scanned.after_verdict, Scanned.after_outputs,
          Scanned.after_state]
        exact ⟨later.1, congrArg _ later.2.1, later.2.2⟩

end WebSocket

end Mevent
