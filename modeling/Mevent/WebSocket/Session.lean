import Mevent.Connection.SafeCalls
import Mevent.Response.Framing
import Mevent.Util.Base64
import Mevent.Util.GMTime
import Mevent.WebSocket.RoundTrip

/-!
# What a client gets on an upgraded connection

The head of the handshake and, behind its blank line, the frames.  Both can be taken apart
in one way only.
-/

namespace Mevent

open Library

namespace WireFrame

theorem form_eq {frame other : WireFrame} (payload : frame.payload = other.payload)
    (len0 : frame.form.len0 frame.payload.length = other.form.len0 other.payload.length) :
    frame.form = other.form := by
  have fits := frame.fits
  have otherFits := other.fits
  rw [payload] at fits len0
  cases form : frame.form <;> cases otherForm : other.form <;>
    simp [form, otherForm, LengthForm.len0, LengthForm.capacity] at fits otherFits len0 ⊢ <;>
    omega

theorem encode_append_inj {frame other : WireFrame} {rest otherRest : Bytes}
    (same : frame.encode ++ rest = other.encode ++ otherRest) :
    frame = other ∧ rest = otherRest := by
  have header : frame.header = other.header := by
    have read := WebSocket.readHeader_encode frame rest
    rw [same, WebSocket.readHeader_encode] at read
    exact (Except.ok.inj read).symm
  have headerSize : frame.head.length = other.head.length := by
    rw [length_head, length_head, header]
  have length : frame.payload.length = other.payload.length :=
    congrArg WebSocketHeader.len header
  rw [encode, encode, List.append_assoc, List.append_assoc] at same
  obtain ⟨-, behind⟩ := List.append_inj same headerSize
  obtain ⟨masked, rests⟩ := List.append_inj behind (by simpa using length)
  have payload : frame.payload = other.payload := by
    rw [← frame.plain_masked, ← other.plain_masked, masked, header]
  have fin : frame.fin = other.fin := congrArg WebSocketHeader.fin header
  have opcode : frame.opcode = other.opcode := congrArg WebSocketHeader.opcode header
  have isSome : frame.key.isSome = other.key.isSome := congrArg WebSocketHeader.mask header
  have value : frame.key.getD WebSocket.noMaskingKey = other.key.getD WebSocket.noMaskingKey :=
    congrArg WebSocketHeader.maskingKey header
  have key : frame.key = other.key := by
    cases first : frame.key <;> cases second : other.key <;> simp_all
  have form := form_eq payload (congrArg WebSocketHeader.len0 header)
  refine ⟨?_, rests⟩
  cases frame
  cases other
  simp only at fin opcode key form payload
  subst fin opcode key form payload
  rfl

theorem encode_ne_nil (frame : WireFrame) : frame.encode ≠ [] := by
  simp [encode, head, start]

end WireFrame

/-- A stream of whole frames can be read in one way only. -/
theorem WebSocket.encodeAll_injective {frames others : List WireFrame}
    (same : encodeAll frames = encodeAll others) : frames = others := by
  induction frames generalizing others with
  | nil =>
      cases others with
      | nil => rfl
      | cons other others =>
          have empty : other.encode ++ encodeAll others = [] := same.symm
          exact absurd (List.append_eq_nil_iff.mp empty).1 other.encode_ne_nil
  | cons frame frames inductionHypothesis =>
      cases others with
      | nil =>
          have empty : frame.encode ++ encodeAll frames = [] := same
          exact absurd (List.append_eq_nil_iff.mp empty).1 frame.encode_ne_nil
      | cons other others =>
          obtain ⟨rfl, rests⟩ := WireFrame.encode_append_inj
            (show frame.encode ++ encodeAll frames = other.encode ++ encodeAll others from same)
          rw [inductionHypothesis rests]

namespace WebSocket

def switching : Bytes := ascii "HTTP/1.1 101 Switching Protocols".toList

/-- What the handshake digests. -/
def secStr (secWebsocketKey : Bytes) : Bytes :=
  secWebsocketKey ++ ascii "258EAFA5-E914-47DA-95CA-C5AB0DC85B11".toList

def upgradeHeaders (accept date : Bytes) : List (Bytes × Bytes) :=
  [(ascii "Server".toList, Response.server), (ascii "Date".toList, date),
    (ascii "Upgrade".toList, ascii "websocket".toList),
    (ascii "Connection".toList, ascii "Upgrade".toList),
    (ascii "Sec-WebSocket-Accept".toList, accept)]

theorem handshake_eq_terminate (sha1 : Bytes → Bytes) (secWebsocketKey date : Bytes) :
    handshake sha1 secWebsocketKey date =
      terminate Response.crlf (switching ::
        (upgradeHeaders (base64Encode (sha1 (secStr secWebsocketKey))) date).map
          Response.fieldLine) ++
          Response.crlf := by
  have field : ∀ name value : Bytes, name ++ ascii ": ".toList ++ value =
      Response.fieldLine (name, value) := fun _ _ => rfl
  simp only [handshake, upgradeHeaders, terminate, List.map_cons, List.map_nil,
    List.flatMap_cons, List.flatMap_nil, List.append_nil, List.append_assoc,
    Response.fieldLine, switching, secStr]
  rfl

theorem clean_base64Encode (octets : Bytes) : Response.Clean (base64Encode octets) := by
  intro inside
  have carriageReturn : (13 : UInt8) ∈ base64Encode octets := inside.subset (by decide)
  rw [base64Encode_eq, ← encodedDigits] at carriageReturn
  rcases List.mem_append.mp carriageReturn with digit | pad
  · exact absurd (isBase64_encodedDigits octets 13 digit) (by decide)
  · exact absurd (List.eq_of_mem_replicate pad) (by decide)

theorem clean_handshake (digest : Bytes) {date : Bytes} (cleanDate : Response.Clean date) :
    ∀ line ∈ switching :: (upgradeHeaders (base64Encode digest) date).map Response.fieldLine,
      line ≠ [] ∧ ¬ [13, 10] <:+: line := by
  have names : ∀ name ∈ ["Server", "Date", "Upgrade", "Connection", "Sec-WebSocket-Accept"],
      Response.Clean (ascii name.toList) := by decide +kernel
  intro line member
  rcases List.mem_cons.mp member with rfl | listed
  · exact ⟨by decide, by decide +kernel⟩
  · obtain ⟨header, given, rfl⟩ := List.mem_map.mp listed
    refine ⟨Response.fieldLine_ne_nil header, (Response.clean_fieldLine_iff header).mpr ?_⟩
    simp only [upgradeHeaders, List.mem_cons, List.not_mem_nil, or_false] at given
    rcases given with rfl | rfl | rfl | rfl | rfl
    · exact ⟨names _ (by simp), by decide +kernel⟩
    · exact ⟨names _ (by simp), cleanDate⟩
    · exact ⟨names _ (by simp), by decide +kernel⟩
    · exact ⟨names _ (by simp), by decide +kernel⟩
    · exact ⟨names _ (by simp), clean_base64Encode digest⟩

/-- The head of the handshake ends at the blank line that ends the handshake. -/
theorem handshake_split (sha1 : Bytes → Bytes) (secWebsocketKey : Bytes) {date : Bytes}
    (cleanDate : Response.Clean date) (behind : Bytes) :
    ∃ head, head ++ Response.crlf = terminate Response.crlf (switching ::
        (upgradeHeaders (base64Encode (sha1 (secStr secWebsocketKey))) date).map
          Response.fieldLine) ∧
      FirstSplit Response.blankLine (handshake sha1 secWebsocketKey date ++ behind) head
        behind := by
  obtain ⟨head, ends⟩ := suffix_terminate Response.crlf switching
    ((upgradeHeaders (base64Encode (sha1 (secStr secWebsocketKey))) date).map
          Response.fieldLine)
  refine ⟨head, ends, ?_⟩
  rw [handshake_eq_terminate]
  exact firstSplit_terminate (by decide) (clean_handshake _ cleanDate) ends

end WebSocket

namespace Connection

def queuedText (conn : Connection) : Bytes := conn.writeBufferChain.flatMap WriteBuffer.str

/-- `WriteString`, `SendPing` and `SendPong` of its WebSocket, one after the other. -/
def sendFrames (conn : Connection) (sends : List (WebSocketOpcodeType × Bytes)) : Connection :=
  sends.foldl (fun conn send => conn.sendFrame send.1 send.2) conn

theorem queuedText_writeString {conn : Connection} (opened : ¬ conn.fd < 0) (str : Bytes) :
    (conn.writeString str).queuedText = conn.queuedText ++ str ∧
      (conn.writeString str).fd = conn.fd := by
  by_cases nonempty : str = []
  · subst nonempty
    simp [writeString]
  · rw [writeString_of_open nonempty opened]
    simp [queuedText, WriteBuffer.new]

theorem queuedText_sendFrames {sends : List (WebSocketOpcodeType × Bytes)}
    (named : ∀ send ∈ sends, ∀ code, send.1 ≠ .reserved code)
    (small : ∀ send ∈ sends, send.2.length < 2 ^ 64) (conn : Connection)
    (opened : ¬ conn.fd < 0) :
    ∃ frames : List WireFrame,
      (conn.sendFrames sends).queuedText = conn.queuedText ++ WebSocket.encodeAll frames ∧
        frames.map (fun frame => (frame.opcode, frame.payload)) = sends ∧
        ∀ frame ∈ frames, frame.fin = true ∧ frame.key = none := by
  induction sends generalizing conn with
  | nil => exact ⟨[], (List.append_nil _).symm, rfl, fun _ none => by cases none⟩
  | cons send sends inductionHypothesis =>
      obtain ⟨opcode, message⟩ := send
      have firstNamed := named (opcode, message) List.mem_cons_self
      have firstSmall := small (opcode, message) List.mem_cons_self
      let frame := WebSocket.madeFrame opcode firstNamed message firstSmall
      have encoded : WebSocket.makeFrame [] message (UInt8.ofNat opcode.code) = frame.encode :=
        WebSocket.makeFrame_eq_encode opcode firstNamed message firstSmall
      obtain ⟨queued, sameFd⟩ := queuedText_writeString opened frame.encode
      obtain ⟨frames, later, sent, plain⟩ := inductionHypothesis
        (fun other member => named other (List.mem_cons_of_mem _ member))
        (fun other member => small other (List.mem_cons_of_mem _ member))
        (conn.writeString frame.encode) (by rwa [sameFd])
      refine ⟨frame :: frames, ?_, ?_, ?_⟩
      · have first : (conn.sendFrames ((opcode, message) :: sends)) =
            (conn.writeString frame.encode).sendFrames sends := by
          rw [← encoded]
          rfl
        rw [first, later, queued, List.append_assoc]
        rfl
      · rw [List.map_cons, sent]
        rfl
      · intro other member
        rcases List.mem_cons.mp member with rfl | member
        · exact ⟨rfl, rfl⟩
        · exact plain other member

/-- A text splits at its first blank line into the lines of a handshake, the last of which
accepts the digest, and into the frames of the messages; and nobody can read others there. -/
def OpensWith (text digest date : Bytes) (sends : List (WebSocketOpcodeType × Bytes)) : Prop :=
  ∃ accept head frames,
    base64Decode accept = digest ∧
    head ++ Response.crlf = terminate Response.crlf (WebSocket.switching ::
      (WebSocket.upgradeHeaders accept date).map Response.fieldLine) ∧
    FirstSplit Response.blankLine text head (WebSocket.encodeAll frames) ∧
    frames.map (fun frame => (frame.opcode, frame.payload)) = sends ∧
    (∀ frame ∈ frames, frame.fin = true ∧ frame.key = none) ∧
    ∀ others, WebSocket.encodeAll others = WebSocket.encodeAll frames → others = frames

/-- Whatever key a client has sent, and whatever messages are sent behind the upgrade, what is
queued is a handshake for that key and the frames of the messages. -/
theorem opensWith_upgrade (limits : Limits) (conn : Connection) (time : Nat)
    (sends : List (WebSocketOpcodeType × Bytes)) (opened : ¬ conn.fd < 0)
    (empty : conn.writeBufferChain = []) (key : conn.req.secWebsocketKey ≠ [])
    (named : ∀ send ∈ sends, ∀ code, send.1 ≠ .reserved code)
    (small : ∀ send ∈ sends, send.2.length < 2 ^ 64) :
    OpensWith ((conn.upgrade limits (getGMTimeStr time)).sendFrames sends).queuedText
      (limits.sha1 (WebSocket.secStr conn.req.secWebsocketKey)) (getGMTimeStr time) sends := by
  let upgraded := { conn with req := { conn.req with status := .upgrade } }
  have upgrades : conn.upgrade limits (getGMTimeStr time) = upgraded.writeString
      (WebSocket.handshake limits.sha1 conn.req.secWebsocketKey (getGMTimeStr time)) :=
    if_neg key
  obtain ⟨queued, sameFd⟩ := queuedText_writeString (show ¬ upgraded.fd < 0 from opened)
    (WebSocket.handshake limits.sha1 conn.req.secWebsocketKey (getGMTimeStr time))
  have nothing : upgraded.queuedText = [] := by
    simp [queuedText, upgraded, empty]
  obtain ⟨frames, text, sent, plain⟩ := queuedText_sendFrames named small
    (conn.upgrade limits (getGMTimeStr time)) (by rwa [upgrades, sameFd])
  obtain ⟨head, ends, split⟩ := WebSocket.handshake_split limits.sha1 conn.req.secWebsocketKey
    (clean_getGMTimeStr time) (WebSocket.encodeAll frames)
  refine ⟨_, head, frames, base64Decode_encode _, ends, ?_, sent, plain, fun others same =>
    WebSocket.encodeAll_injective same⟩
  rw [text, upgrades, queued, nothing, List.nil_append]
  exact split

/-- A request for an upgrade, as far as the handshake depends on it. -/
def keyed : Connection :=
  { new with fd := 5, req := { Request.reset with secWebsocketKey := [107, 101, 121] } }

theorem opensWith_upgrade_keyed :
    OpensWith ((keyed.upgrade ⟨2048, 8192, List.reverse⟩ (getGMTimeStr 0)).sendFrames
        [(.textFrame, [104, 105]), (.ping, [])]).queuedText
      (WebSocket.secStr [107, 101, 121]).reverse (getGMTimeStr 0)
      [(.textFrame, [104, 105]), (.ping, [])] :=
  opensWith_upgrade ⟨2048, 8192, List.reverse⟩ keyed 0 _ (by decide) rfl (by decide) (by simp)
    (by simp)

end Connection

end Mevent
