import Mevent.WebSocket.Frames

/-!
# Control frames among data frames

Fragments of a message and payloads of control frames share `cache_str_`.  The
bytes in it are split here into the pending fragments of a message and the stale
payload of an earlier control frame: the two uses stay apart exactly as long as
no frame meets the leftovers of the other kind.
-/

namespace Mevent.WebSocket

open Library

def dataPayloads (tasks : List WebSocketTask) : List Bytes :=
  (tasks.filter fun task => task.opcode.isData).map WebSocketTask.msg

def controlTasks (tasks : List WebSocketTask) : List WebSocketTask :=
  tasks.filter fun task => !task.opcode.isData

def dataFrames (frames : List WireFrame) : List WireFrame :=
  frames.filter fun frame => frame.opcode.isData

def ownControlTasks (frames : List WireFrame) : List WebSocketTask :=
  (frames.filter fun frame => !frame.opcode.isData).map fun frame =>
    ⟨frame.opcode, frame.payload⟩

/-- Every payload, and every message as far as it is assembled, is within the
limit; `pending` bytes of a message have been assembled before. -/
def WithinLimit (maxBufferSize : Nat) : (pending : Nat) → List WireFrame → Prop
  | _, [] => True
  | pending, frame :: rest =>
      if frame.opcode.isData then
        pending + frame.payload.length ≤ maxBufferSize ∧
          WithinLimit maxBufferSize
            (if frame.fin then 0 else pending + frame.payload.length) rest
      else
        frame.payload.length ≤ maxBufferSize ∧ WithinLimit maxBufferSize pending rest

/-- The frames never meet the leftovers of the other kind.  A control frame
arrives while no fragment and no earlier payload is left; the payload of a PONG
or CLOSE frame stays behind, and then no message may end. -/
def KeepsApart (maxBufferSize : Nat) : (stale pending : Bytes) → List WireFrame → Prop
  | _, _, [] => True
  | stale, pending, frame :: rest =>
      if frame.opcode.isData then
        if frame.fin then
          stale = [] ∧ KeepsApart maxBufferSize [] [] rest
        else
          (stale ++ pending ++ frame.payload).length ≤ maxBufferSize ∧
            KeepsApart maxBufferSize stale (pending ++ frame.payload) rest
      else
        stale = [] ∧ pending = [] ∧
          KeepsApart maxBufferSize
            (if frame.opcode = .ping then [] else frame.payload) [] rest

/-- What a run over a list of frames should do: it refuses nothing, its messages
are those of the list without control frames, and every control frame pushes
its own payload. -/
structure Separates (delivered plain : Delivery) (frames : List WireFrame) : Prop where
  accepted : delivered.accepted = true
  data : dataPayloads delivered.tasks = dataPayloads plain.tasks
  control : controlTasks delivered.tasks = ownControlTasks frames

theorem dispatch_of_control {frame : WireFrame} (control : frame.opcode.isData = false)
    (cacheStr : Bytes) :
    dispatch frame.opcode frame.fin cacheStr =
      ([⟨frame.opcode, cacheStr⟩], if frame.opcode = .ping then [] else cacheStr) := by
  have named := frame.named
  cases opcode : frame.opcode with
  | reserved code => exact absurd opcode (named code)
  | ping => rfl
  | pong => rfl
  | close => rfl
  | continuation => rw [opcode] at control; cases control
  | textFrame => rw [opcode] at control; cases control
  | binaryFrame => rw [opcode] at control; cases control

theorem separates_final {maxBufferSize : Nat} {frame : WireFrame}
    {rest : List WireFrame} {stale pending : Bytes}
    (data : frame.opcode.isData = true) (final : frame.fin = true)
    (fits : pending.length + frame.payload.length ≤ maxBufferSize) :
    Separates (deliver maxBufferSize (stale ++ pending) (frame :: rest))
        (deliver maxBufferSize pending (frame :: dataFrames rest)) (frame :: rest) ↔
      stale = [] ∧
        Separates (deliver maxBufferSize [] rest)
          (deliver maxBufferSize [] (dataFrames rest)) rest := by
  by_cases exceeds : maxBufferSize < (stale ++ pending).length + frame.payload.length
  · have refused : (deliver maxBufferSize (stale ++ pending) (frame :: rest)).accepted =
        false := by
      rw [deliver, if_pos exceeds]
    constructor
    · intro separates
      rw [separates.accepted] at refused
      cases refused
    · rintro ⟨rfl, _⟩
      rw [List.nil_append] at exceeds
      omega
  · have whole : deliver maxBufferSize (stale ++ pending) (frame :: rest) =
        { deliver maxBufferSize [] rest with
          tasks := ⟨frame.opcode, stale ++ pending ++ frame.payload⟩ ::
            (deliver maxBufferSize [] rest).tasks } := by
      rw [deliver, if_neg exceeds, dispatch_of_isData data, if_pos final]
      rfl
    have plain : deliver maxBufferSize pending (frame :: dataFrames rest) =
        { deliver maxBufferSize [] (dataFrames rest) with
          tasks := ⟨frame.opcode, pending ++ frame.payload⟩ ::
            (deliver maxBufferSize [] (dataFrames rest)).tasks } := by
      rw [deliver, if_neg (Nat.not_lt.mpr fits), dispatch_of_isData data, if_pos final]
      rfl
    rw [whole, plain]
    constructor
    · rintro ⟨accepted, payloads, control⟩
      simp only [dataPayloads, List.filter_cons, data, if_true, List.map_cons,
        List.cons.injEq, List.append_assoc] at payloads
      have staleNil : stale = [] := List.append_left_eq_self.mp payloads.1
      refine ⟨staleNil, accepted, payloads.2, ?_⟩
      simpa [controlTasks, ownControlTasks, data] using control
    · rintro ⟨rfl, accepted, payloads, control⟩
      refine ⟨accepted, ?_, ?_⟩
      · simpa [dataPayloads, data] using payloads
      · simpa [controlTasks, ownControlTasks, data] using control

theorem separates_fragment {maxBufferSize : Nat} {frame : WireFrame}
    {rest : List WireFrame} {stale pending : Bytes}
    (data : frame.opcode.isData = true) (notFinal : frame.fin = false)
    (fits : pending.length + frame.payload.length ≤ maxBufferSize) :
    Separates (deliver maxBufferSize (stale ++ pending) (frame :: rest))
        (deliver maxBufferSize pending (frame :: dataFrames rest)) (frame :: rest) ↔
      (stale ++ pending ++ frame.payload).length ≤ maxBufferSize ∧
        Separates (deliver maxBufferSize (stale ++ (pending ++ frame.payload)) rest)
          (deliver maxBufferSize (pending ++ frame.payload) (dataFrames rest)) rest := by
  have plain : deliver maxBufferSize pending (frame :: dataFrames rest) =
      deliver maxBufferSize (pending ++ frame.payload) (dataFrames rest) := by
    rw [deliver, if_neg (Nat.not_lt.mpr fits), dispatch_of_isData data, notFinal]
    rfl
  have own : ownControlTasks (frame :: rest) = ownControlTasks rest := by
    simp [ownControlTasks, data]
  rw [List.length_append, plain]
  by_cases exceeds : maxBufferSize < (stale ++ pending).length + frame.payload.length
  · constructor
    · intro separates
      have accepted := separates.accepted
      rw [deliver, if_pos exceeds] at accepted
      cases accepted
    · rintro ⟨small, _⟩
      omega
  · have whole : deliver maxBufferSize (stale ++ pending) (frame :: rest) =
        deliver maxBufferSize (stale ++ (pending ++ frame.payload)) rest := by
      rw [deliver, if_neg exceeds, dispatch_of_isData data, notFinal, List.append_assoc]
      rfl
    rw [whole]
    constructor
    · rintro ⟨accepted, payloads, control⟩
      exact ⟨by omega, accepted, payloads, own ▸ control⟩
    · rintro ⟨_, accepted, payloads, control⟩
      exact ⟨accepted, payloads, own ▸ control⟩

theorem separates_control {maxBufferSize : Nat} {frame : WireFrame}
    {rest : List WireFrame} {stale pending : Bytes}
    (kind : frame.opcode.isData = false)
    (fits : frame.payload.length ≤ maxBufferSize) :
    Separates (deliver maxBufferSize (stale ++ pending) (frame :: rest))
        (deliver maxBufferSize pending (dataFrames rest)) (frame :: rest) ↔
      stale = [] ∧ pending = [] ∧
        Separates
          (deliver maxBufferSize (if frame.opcode = .ping then [] else frame.payload) rest)
          (deliver maxBufferSize [] (dataFrames rest)) rest := by
  by_cases exceeds : maxBufferSize < (stale ++ pending).length + frame.payload.length
  · constructor
    · intro separates
      have accepted := separates.accepted
      rw [deliver, if_pos exceeds] at accepted
      cases accepted
    · rintro ⟨rfl, rfl, _⟩
      simp only [List.append_nil, List.length_nil] at exceeds
      omega
  · have whole : deliver maxBufferSize (stale ++ pending) (frame :: rest) =
        { deliver maxBufferSize
            (if frame.opcode = .ping then [] else stale ++ pending ++ frame.payload) rest with
          tasks := ⟨frame.opcode, stale ++ pending ++ frame.payload⟩ ::
            (deliver maxBufferSize
              (if frame.opcode = .ping then [] else stale ++ pending ++ frame.payload)
              rest).tasks } := by
      rw [deliver, if_neg exceeds, dispatch_of_control kind]
      rfl
    have own : ownControlTasks (frame :: rest) =
        ⟨frame.opcode, frame.payload⟩ :: ownControlTasks rest := by
      simp [ownControlTasks, kind]
    rw [whole]
    constructor
    · rintro ⟨accepted, payloads, control⟩
      simp only [controlTasks, List.filter_cons, kind, Bool.not_false, if_true, own,
        List.cons.injEq, WebSocketTask.mk.injEq, true_and] at control
      have nothing : stale ++ pending = [] := List.append_left_eq_self.mp control.1
      rcases List.append_eq_nil_iff.mp nothing with ⟨rfl, rfl⟩
      refine ⟨rfl, rfl, accepted, ?_, control.2⟩
      simpa [dataPayloads, kind] using payloads
    · rintro ⟨rfl, rfl, accepted, payloads, control⟩
      refine ⟨accepted, ?_, ?_⟩
      · simpa [dataPayloads, kind] using payloads
      · rw [own]
        simpa [controlTasks, kind] using control

/-- One frame after the other, the leftovers decide whether the two uses of
`cache_str_` stay apart. -/
theorem separates_iff (maxBufferSize : Nat) (frames : List WireFrame)
    (stale pending : Bytes) (within : WithinLimit maxBufferSize pending.length frames) :
    Separates (deliver maxBufferSize (stale ++ pending) frames)
        (deliver maxBufferSize pending (dataFrames frames)) frames ↔
      KeepsApart maxBufferSize stale pending frames := by
  induction frames generalizing stale pending with
  | nil =>
      constructor
      · intro _
        trivial
      · intro _
        exact ⟨rfl, rfl, rfl⟩
  | cons frame rest inductionHypothesis =>
      cases kind : frame.opcode.isData with
      | true =>
          have kept : dataFrames (frame :: rest) = frame :: dataFrames rest := by
            simp [dataFrames, kind]
          simp only [WithinLimit, kind, if_true] at within
          simp only [KeepsApart, kind, if_true]
          rw [kept]
          cases final : frame.fin with
          | true =>
              simp only [final, if_true] at within
              rw [separates_final kind final within.1, if_pos rfl]
              have later := inductionHypothesis [] [] within.2
              rw [List.append_nil] at later
              rw [later]
          | false =>
              simp only [final, Bool.false_eq_true, if_false] at within
              rw [separates_fragment kind final within.1, if_neg (by simp)]
              rw [inductionHypothesis stale (pending ++ frame.payload)
                (by rw [List.length_append]; exact within.2)]
      | false =>
          have dropped : dataFrames (frame :: rest) = dataFrames rest := by
            simp [dataFrames, kind]
          simp only [WithinLimit, kind, Bool.false_eq_true, if_false] at within
          simp only [KeepsApart, kind, Bool.false_eq_true, if_false]
          rw [dropped, separates_control kind within.1]
          constructor
          · rintro ⟨rfl, rfl, separates⟩
            refine ⟨rfl, rfl, ?_⟩
            apply (inductionHypothesis _ [] within.2).mp
            rwa [List.append_nil]
          · rintro ⟨rfl, rfl, apart⟩
            have later := (inductionHypothesis _ [] within.2).mpr apart
            rw [List.append_nil] at later
            exact ⟨rfl, rfl, later⟩

/-- The same property for the parser itself, fed with the bytes of the frames in
chunks: `Parse` never returns `false`, the messages are those of the stream
without control frames, and every control frame pushes its own payload. -/
structure ParsesControlsApart (ws : WebSocket) (frames : List WireFrame)
    (chunks : List Bytes) : Prop where
  neverFalse : (ws.parseChunks chunks).verdict ≠ .returnsFalse
  data : dataPayloads (ws.parseChunks chunks).outputs =
    dataPayloads (ws.append (encodeAll (dataFrames frames))).parse.outputs
  control : controlTasks (ws.parseChunks chunks).outputs = ownControlTasks frames

theorem length_encodeAll_dataFrames_le (frames : List WireFrame) :
    (encodeAll (dataFrames frames)).length ≤ (encodeAll frames).length := by
  induction frames with
  | nil => simp [dataFrames]
  | cons frame rest inductionHypothesis =>
      simp only [encodeAll, dataFrames] at inductionHypothesis ⊢
      cases kind : frame.opcode.isData <;>
        simp only [List.filter_cons, kind, Bool.false_eq_true, if_true, if_false,
          List.flatMap_cons, List.length_append] <;>
        omega

/-- Fed in any chunks, the parser delivers what the frames amount to. -/
theorem parseChunks_encodeAll {ws : WebSocket} {frames : List WireFrame}
    {chunks : List Bytes} (unread : ws.rbuf = []) (uncached : ws.cacheStr = [])
    (stream : chunks.flatten = encodeAll frames)
    (small : (encodeAll frames).length ≤ vectorMaxSize) :
    ((ws.parseChunks chunks).verdict =
        if (deliver ws.maxBufferSize [] frames).accepted then .returnsTrue
        else .returnsFalse) ∧
      (ws.parseChunks chunks).outputs = (deliver ws.maxBufferSize [] frames).tasks := by
  have buffer : (ws.append chunks.flatten).rbuf = encodeAll frames := by
    rw [append, unread, stream, List.nil_append]
  have room : (ws.append chunks.flatten).cacheStr.length +
      (ws.append chunks.flatten).rbuf.length < 2 ^ 64 := by
    rw [buffer]
    simp only [append, uncached, List.length_nil]
    unfold vectorMaxSize at small
    omega
  rcases ws.parseChunks_eq_parse chunks unread with ⟨behind, whole, _⟩
  rcases (ws.append chunks.flatten).parse_encodeAll frames buffer room with
    ⟨verdict, outputs, _⟩
  rw [whole] at verdict outputs
  simp only [append, uncached] at verdict outputs
  exact ⟨verdict, outputs⟩

/-- Control frames leave the messages alone and push their own payloads exactly
when the frames never meet the leftovers of the other kind. -/
theorem parsesControlsApart_iff (ws : WebSocket) (frames : List WireFrame)
    (chunks : List Bytes) (unread : ws.rbuf = []) (uncached : ws.cacheStr = [])
    (within : WithinLimit ws.maxBufferSize 0 frames)
    (stream : chunks.flatten = encodeAll frames)
    (small : (encodeAll frames).length ≤ vectorMaxSize) :
    ws.ParsesControlsApart frames chunks ↔
      KeepsApart ws.maxBufferSize [] [] frames := by
  have separated := separates_iff ws.maxBufferSize frames [] [] within
  rw [← separated, List.append_nil]
  have delivered := parseChunks_encodeAll unread uncached stream small
  have plainStream : [encodeAll (dataFrames frames)].flatten =
      encodeAll (dataFrames frames) := by simp
  have plain := (ws.append (encodeAll (dataFrames frames))).parse_encodeAll
    (dataFrames frames) (by rw [append, unread, List.nil_append]) (by
      have shorter := length_encodeAll_dataFrames_le frames
      unfold vectorMaxSize at small
      simp only [append, unread, uncached, List.nil_append, List.length_nil]
      omega)
  have plainOutputs : (ws.append (encodeAll (dataFrames frames))).parse.outputs =
      (deliver ws.maxBufferSize [] (dataFrames frames)).tasks := by
    rw [plain.2.1]
    simp only [append, uncached]
  constructor
  · rintro ⟨neverFalse, data, control⟩
    rw [delivered.1] at neverFalse
    rw [delivered.2] at data control
    rw [plainOutputs] at data
    refine ⟨?_, data, control⟩
    by_contra refused
    exact neverFalse (if_neg refused)
  · rintro ⟨accepted, data, control⟩
    refine ⟨?_, ?_, ?_⟩
    · rw [delivered.1, if_pos accepted]
      simp
    · rw [delivered.2, plainOutputs]
      exact data
    · rw [delivered.2]
      exact control

/-- A PING in front of a message, in two chunks, leaves the message alone. -/
theorem parsesControlsApart_ping_text :
    reset.ParsesControlsApart
      [⟨true, .ping, none, .seven, [0x70], by decide, by simp⟩,
        ⟨true, .textFrame, none, .seven, [0x68, 0x69], by decide, by simp⟩]
      [[0x89, 0x01], [0x70, 0x81, 0x02, 0x68, 0x69]] := by
  refine (parsesControlsApart_iff reset _ _ rfl rfl ?_ (by decide) (by decide)).mpr ?_
  · exact ⟨by decide, by decide, trivial⟩
  · exact ⟨rfl, rfl, rfl, trivial⟩

/-- A PING between two fragments pushes the first fragment in front of its own
payload, and the message loses it. -/
theorem not_parsesControlsApart_ping_between_fragments :
    ¬ ∀ (ws : WebSocket) (frames : List WireFrame) (chunks : List Bytes),
      ws.rbuf = [] → ws.cacheStr = [] → WithinLimit ws.maxBufferSize 0 frames →
      chunks.flatten = encodeAll frames → (encodeAll frames).length ≤ vectorMaxSize →
      ws.ParsesControlsApart frames chunks := by
  intro claim
  have apart := claim reset
    [⟨false, .textFrame, none, .seven, [0x61], by decide, by simp⟩,
      ⟨true, .ping, none, .seven, [0x70], by decide, by simp⟩,
      ⟨true, .continuation, none, .seven, [0x62], by decide, by simp⟩]
    [[0x01, 0x01, 0x61, 0x89, 0x01, 0x70, 0x80, 0x01, 0x62]]
    rfl rfl ⟨by decide, by decide, by decide, trivial⟩ (by decide) (by decide)
  have control := apart.control
  revert control
  decide

end Mevent.WebSocket
