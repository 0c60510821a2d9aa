import Mevent.Request.Receiving

/-!
# The address of the client

`Accept` stores the address of the client in the request.  Neither `Request::Parse` nor
`ReadData` looks at it: a request with an address is received as one without.
-/

namespace Mevent.Request

open Library

/-- `addr_`, which `Accept` sets. -/
def withAddr (addr : UInt32) (req : Request) : Request := { req with addr := addr }

def Handled.withAddr (addr : UInt32) : Handled → Handled
  | .bottom req => .bottom (req.withAddr addr)
  | .again req => .again (req.withAddr addr)
  | .break req status => .break (req.withAddr addr) status

section Handlers

variable (addr : UInt32) {req : Request}

theorem withByte_withAddr {index : Nat} {rest changed : UInt8 → Handled}
    (same : ∀ ch, changed ch = (rest ch).withAddr addr) :
    (req.withAddr addr).withByte index changed = (req.withByte index rest).withAddr addr := by
  have buffer : (req.withAddr addr).rbuf = req.rbuf := rfl
  unfold withByte
  rw [buffer]
  cases req.rbuf[index]? with
  | some ch => exact same ch
  | none => rfl

theorem withDistance_withAddr {rest changed : Nat → Handled}
    (same : ∀ distance, changed distance = (rest distance).withAddr addr) :
    (req.withAddr addr).withDistance changed = (req.withDistance rest).withAddr addr := by
  unfold withDistance
  rw [apply_ite (Handled.withAddr addr), ← same]
  rfl

theorem withNameByte_withAddr {name : Bytes} {index : Nat} {rest changed : UInt8 → Handled}
    (same : ∀ c, changed c = (rest c).withAddr addr) :
    (req.withAddr addr).withNameByte name index changed =
      (req.withNameByte name index rest).withAddr addr := by
  unfold withNameByte
  cases (name ++ [0])[index]? with
  | some c => exact same c
  | none => rfl

theorem lookAhead_withAddr {index : Nat} {expected : Bytes}
    {found missed foundChanged missedChanged : Handled}
    (sameFound : foundChanged = found.withAddr addr)
    (sameMissed : missedChanged = missed.withAddr addr) :
    (req.withAddr addr).lookAhead index expected foundChanged missedChanged =
      (req.lookAhead index expected found missed).withAddr addr := by
  induction expected generalizing index with
  | nil => exact sameFound
  | cons c rest inductionHypothesis =>
      apply withByte_withAddr
      intro ch
      rw [apply_ite (Handled.withAddr addr), ← sameMissed, inductionHypothesis]

theorem handleName_withAddr (name : Bytes) (value : RequestParseStatus) (c : UInt8) :
    (req.withAddr addr).handleName name value c =
      (req.handleName name value c).withAddr addr := by
  apply withDistance_withAddr
  intro distance
  rw [apply_ite (Handled.withAddr addr), apply_ite (Handled.withAddr addr)]
  rw [← withNameByte_withAddr addr fun _ => (apply_ite (Handled.withAddr addr) _ _ _).symm]
  rfl

theorem handleEol_withAddr (c : UInt8) :
    (req.withAddr addr).handleEol c = (req.handleEol c).withAddr addr := by
  unfold handleEol
  rw [apply_ite (Handled.withAddr addr), apply_ite (Handled.withAddr addr)]
  rw [← withByte_withAddr addr fun _ => (apply_ite (Handled.withAddr addr) _ _ _).symm]
  rfl

theorem handleMethod_withAddr (c : UInt8) :
    (req.withAddr addr).handleMethod c = (req.handleMethod c).withAddr addr := by
  have same : (req.withAddr addr).method = req.method := rfl
  unfold handleMethod
  rw [same]
  cases req.method.name with
  | none => rfl
  | some name =>
      change _ = Handled.withAddr addr (if _ then if _ then if _ then _ else _ else _ else _)
      rw [apply_ite (Handled.withAddr addr), apply_ite (Handled.withAddr addr),
        apply_ite (Handled.withAddr addr)]
      rw [← withDistance_withAddr addr fun _ => withNameByte_withAddr addr fun _ =>
        (apply_ite (Handled.withAddr addr) _ _ _).symm]
      rfl

theorem handleContent_withAddr :
    (req.withAddr addr).handleContent = req.handleContent.withAddr addr := by
  apply lookAhead_withAddr
  · apply withByte_withAddr
    intro ch
    rw [apply_ite (Handled.withAddr addr), apply_ite (Handled.withAddr addr)]
    rfl
  · rfl

theorem handleHeaderField_withAddr (c : UInt8) :
    (req.withAddr addr).handleHeaderField c = (req.handleHeaderField c).withAddr addr := by
  unfold handleHeaderField
  rw [handleContent_withAddr]
  simp only [apply_ite (Handled.withAddr addr)]
  rfl

theorem handle_withAddr (ch c : UInt8) :
    (req.withAddr addr).handle ch c = (req.handle ch c).withAddr addr := by
  have same : (req.withAddr addr).parseStatus = req.parseStatus := rfl
  unfold handle handleAt
  rw [same]
  cases req.parseStatus with
  | eol => exact handleEol_withAddr addr c
  | start =>
      unfold handleStart
      simp only [apply_ite (Handled.withAddr addr)]
      rfl
  | method => exact handleMethod_withAddr addr c
  | methodP =>
      unfold handleMethodP
      simp only [apply_ite (Handled.withAddr addr)]
      rfl
  | path =>
      unfold handlePath
      simp only [apply_ite (Handled.withAddr addr)]
      rfl
  | queryString =>
      unfold handleQueryString
      simp only [apply_ite (Handled.withAddr addr)]
      rfl
  | headerField => exact handleHeaderField_withAddr addr c
  | eoh =>
      unfold handleEoh
      simp only [apply_ite (Handled.withAddr addr)]
      rfl
  | contentLength | secWebsocketKey | contentType => exact handleName_withAddr addr _ _ c
  | contentLengthV =>
      unfold handleContentLengthV
      simp only [apply_ite (Handled.withAddr addr)]
      rfl
  | secWebsocketKeyV =>
      unfold handleSecWebsocketKeyV
      simp only [apply_ite (Handled.withAddr addr)]
      rfl
  | contentTypeV =>
      unfold handleContentTypeV
      simp only [apply_ite (Handled.withAddr addr)]
      rfl
  | upgrade => rfl

theorem finish_withAddr (handled : Handled) :
    (handled.withAddr addr).finish = handled.finish.map (withAddr addr) := by
  cases handled with
  | bottom next => rfl
  | again next => rfl
  | «break» last status => rfl

end Handlers

section Loops

variable (addr : UInt32)

theorem parser_withAddr : parser.Commutes (withAddr addr) := by
  intro req
  rw [parser_round, parser_round]
  unfold parseByte
  rw [apply_ite (Round.map (withAddr addr)), ← finish_withAddr]
  rw [← withByte_withAddr addr fun ch => (apply_ite (Handled.withAddr addr) _ _ _).symm]
  simp only [← handle_withAddr]
  rfl

theorem parse_withAddr (req : Request) :
    (req.withAddr addr).parse.state = req.parse.state.withAddr addr ∧
      (req.withAddr addr).parse.verdict = req.parse.verdict := by
  unfold parse
  rw [Scanner.run_change (parser_withAddr addr)]
  exact ⟨rfl, rfl⟩

def Reading.withAddr (reading : Reading) : Reading := (reading.1.withAddr addr, reading.2)

variable {tls : Bool} {maxHeaderSize maxPostSize : Nat}

theorem headerParsed_withAddr (n : Int) (req : Request) (rest : List ReadResult)
    (status : HTTPParserStatus) :
    headerParsed n (req.withAddr addr) rest status =
      (headerParsed n req rest status).map (Reading.withAddr addr) := by
  cases status with
  | continues =>
      unfold headerParsed
      rw [apply_ite (Round.map (Reading.withAddr addr))]
      rfl
  | error | finished | outOfRange => rfl

theorem headerReader_withAddr :
    (headerReader tls maxHeaderSize).Commutes (Reading.withAddr addr) := by
  intro reading
  obtain ⟨state, verdict⟩ := parse_withAddr addr
    ((reading.1.count (Connection.readn tls readBufferSize reading.2).ret).rbufAppend
      (Connection.readn tls readBufferSize reading.2).bytes)
  simp only [headerReader, headerRound, apply_ite (Round.map (Reading.withAddr addr)),
    ← headerParsed_withAddr, ← state, ← verdict]
  rfl

theorem bodyReader_withAddr : (bodyReader tls).Commutes (Reading.withAddr addr) := by
  intro reading
  simp only [bodyReader, bodyRound, apply_ite (Round.map (Reading.withAddr addr))]
  rfl

/-- What a call to `ReadData` leaves behind, with an address. -/
def ReadDataResult.withAddr (result : ReadDataResult) : ReadDataResult :=
  { result with req := result.req.withAddr addr }

theorem readBody_withAddr (reading : Reading) :
    readBody tls maxPostSize (Reading.withAddr addr reading) =
      (readBody tls maxPostSize reading).withAddr addr := by
  have whole := Scanner.run_change (@bodyReader_withAddr addr tls) reading
  unfold readBody
  rw [whole]
  simp only [apply_ite (ReadDataResult.withAddr addr)]
  cases verdict : ((bodyReader tls).run reading).verdict with
  | proceeds | outOfRange | returns status => rfl

theorem readData_withAddr (req : Request) (results : List ReadResult) :
    (req.withAddr addr).readData tls maxHeaderSize maxPostSize results =
      (req.readData tls maxHeaderSize maxPostSize results).map
        (ReadDataResult.withAddr addr) := by
  have whole := Scanner.run_change (@headerReader_withAddr addr tls maxHeaderSize) (req, results)
  have body := @readBody_withAddr addr tls maxPostSize
  have same : (req.withAddr addr).status = req.status := rfl
  unfold readData
  rw [same]
  by_cases head : req.status = .headerReceiving
  · rw [if_pos head, if_pos head]
    simp only [Reading.withAddr] at whole
    simp only [whole]
    cases verdict : ((headerReader tls maxHeaderSize).run (req, results)).verdict with
    | proceeds => exact congrArg some (body _)
    | outOfRange | returns status => rfl
  · have received : readBody tls maxPostSize (req.withAddr addr, results) =
        (readBody tls maxPostSize (req, results)).withAddr addr := body (req, results)
    rw [if_neg head, if_neg head, apply_ite (Option.map (ReadDataResult.withAddr addr)), received]
    rfl

theorem bodyPieces_withAddr (reading : Reading) :
    bodyPieces tls maxPostSize (Reading.withAddr addr reading) =
      bodyPieces tls maxPostSize reading := by
  unfold bodyPieces
  rw [Scanner.trace_change (@bodyReader_withAddr addr tls), List.filterMap_map]
  rfl

/-- The calls to `Readn` return the same. -/
theorem pieces_withAddr (req : Request) (results : List ReadResult) :
    (req.withAddr addr).pieces tls maxHeaderSize maxPostSize results =
      req.pieces tls maxHeaderSize maxPostSize results := by
  have whole := Scanner.run_change (@headerReader_withAddr addr tls maxHeaderSize) (req, results)
  have trace := Scanner.trace_change (@headerReader_withAddr addr tls maxHeaderSize)
    (req, results)
  have body : bodyPieces tls maxPostSize (req.withAddr addr, results) =
      bodyPieces tls maxPostSize (req, results) := bodyPieces_withAddr addr (req, results)
  have behind := @bodyPieces_withAddr addr tls maxPostSize
  have same : (req.withAddr addr).status = req.status := rfl
  unfold pieces
  rw [same, body]
  simp only [Reading.withAddr] at whole trace behind
  simp only [headerPieces, whole, trace, behind, List.filterMap_map]
  rfl

end Loops

end Mevent.Request
