import Mathlib.Data.List.TakeWhile
import Mevent.Request.Grammar
import Mevent.Request.Rounds

/-!
# The parser reads heads line by line

The parser is followed over a head that lies in the buffer in one piece, one
state at a time: it gets through a line exactly when the line is accepted, and
then stands in front of the next one.
-/

namespace Mevent.Request

open Library

theorem forall_byte {motive : UInt8 → Prop}
    (all : ∀ index : Fin 256, motive (UInt8.ofNat index)) (ch : UInt8) : motive ch := by
  have this := all ⟨ch.toNat, ch.toNat_lt⟩
  rwa [UInt8.ofNat_toNat] at this

theorem token_eq_space_iff (ch : UInt8) : token ch = space ↔ ch = space := by
  revert ch
  apply forall_byte
  decide +kernel

theorem token_eq_cr_iff (ch : UInt8) : token ch = cr ↔ ch = cr := by
  revert ch
  apply forall_byte
  decide +kernel

theorem token_eq_lf_iff (ch : UInt8) : token ch = lf ↔ ch = lf := by
  revert ch
  apply forall_byte
  decide +kernel

theorem clean_cons {ch : UInt8} {line : Bytes} :
    Clean (ch :: line) ↔ token ch ≠ 0 ∧ Clean line :=
  List.forall_mem_cons

/-- The request while the parser stands between `front` and `rest`. -/
def reading (req : Request) (front rest : Bytes) : Request :=
  { req with
    rbuf := front ++ rest
    rbufLen := (front ++ rest).length
    parseOffset := front.length }

/-- The request while the parser stands in front of a line. -/
def lineStart (req : Request) (front rest : Bytes) : Request :=
  { req with parseStatus := .headerField, parseMatch := front.length - 1 }.reading front rest

/-- From `start` the parser comes to `next` if the bytes in between are accepted,
and fails otherwise. -/
structure Passes (start : Request) (accepted : Prop) (next : Request) : Prop where
  onward : accepted → parser.run start = parser.run next
  rejected : ¬ accepted → (parser.run start).verdict = .error

section Steps

variable {req next : Request} {front rest : Bytes} {ch : UInt8}

theorem handle_reading {status : RequestParseStatus} (here : req.parseStatus = status)
    (front rest : Bytes) (ch c : UInt8) :
    (req.reading front rest).handle ch c = handleAt status (req.reading front rest) ch c := by
  rw [← here]
  rfl

theorem parser_round_reading (accepted : token ch ≠ 0) :
    parser.round (req.reading front (ch :: rest)) =
      ((req.reading front (ch :: rest)).handle ch (token ch)).finish := by
  have more : (req.reading front (ch :: rest)).parseOffset <
      (req.reading front (ch :: rest)).rbufLen := by
    simp [reading]
  have read : (req.reading front (ch :: rest)).rbuf[front.length]? = some ch := by
    simp [reading]
  rw [parser_round, parseByte_of_byte more read, if_neg accepted]

theorem reading_next (req : Request) (front rest : Bytes) (ch : UInt8) :
    { req.reading front (ch :: rest) with
      parseOffset := (req.reading front (ch :: rest)).parseOffset + 1 } =
        req.reading (front ++ [ch]) rest := by
  simp [reading]

theorem finish_bottom (req : Request) (front rest : Bytes) (ch : UInt8) :
    (Handled.bottom (req.reading front (ch :: rest))).finish =
      .advance (req.reading (front ++ [ch]) rest) [] := by
  rw [Handled.finish, reading_next]

theorem run_of_bottom (accepted : token ch ≠ 0)
    (handled : (req.reading front (ch :: rest)).handle ch (token ch) =
      .bottom (next.reading front (ch :: rest))) :
    parser.run (req.reading front (ch :: rest)) =
      parser.run (next.reading (front ++ [ch]) rest) := by
  apply parser.run_of_quiet_advance
  rw [parser_round_reading accepted, handled, finish_bottom]

theorem run_of_again (accepted : token ch ≠ 0)
    (handled : (req.reading front (ch :: rest)).handle ch (token ch) = .again next) :
    parser.run (req.reading front (ch :: rest)) = parser.run next := by
  apply parser.run_of_quiet_advance
  rw [parser_round_reading accepted, handled]
  rfl

theorem run_of_break {last : Request} {status : HTTPParserStatus} (accepted : token ch ≠ 0)
    (handled : (req.reading front (ch :: rest)).handle ch (token ch) = .break last status) :
    parser.run (req.reading front (ch :: rest)) = ⟨last, [], status⟩ := by
  apply parser.run_of_leave
  rw [parser_round_reading accepted, handled]
  rfl

theorem verdict_of_unclean (unclean : token ch = 0) :
    (parser.run (req.reading front (ch :: rest))).verdict = .error := by
  have more : (req.reading front (ch :: rest)).parseOffset <
      (req.reading front (ch :: rest)).rbufLen := by
    simp [reading]
  have read : (req.reading front (ch :: rest)).rbuf[front.length]? = some ch := by
    simp [reading]
  have left : parser.round (req.reading front (ch :: rest)) =
      .leave (req.reading front (ch :: rest)) .error := by
    rw [parser_round, parseByte_of_byte more read, if_pos unclean]
    rfl
  rw [parser.run_of_leave left]

end Steps

section Passing

variable {start mid next : Request} {accepted : Prop}

theorem Passes.congr {target : Request} {condition : Prop}
    (passes : Passes mid accepted next) (stepped : parser.run start = parser.run mid)
    (same : condition ↔ accepted) (sameNext : target = next) :
    Passes start condition target := by
  rw [propext same, sameNext]
  constructor
  · rw [stepped]
    exact passes.onward
  · rw [stepped]
    exact passes.rejected

theorem passes_of_error (refused : ¬ accepted)
    (error : (parser.run start).verdict = .error) : Passes start accepted next :=
  ⟨fun impossible => absurd impossible refused, fun _ => error⟩

end Passing

/-- A line with its carriage return, behind which the line feed follows. -/
structure Ended (line : Bytes) : Prop where
  last : line.getLast? = some cr
  unbroken : ¬ crlf <:+: line

theorem Ended.rest {first second : UInt8} {line : Bytes}
    (ended : Ended (first :: second :: line)) : Ended (second :: line) where
  last := by
    rw [← ended.last, List.getLast?_cons_cons]
  unbroken := by
    intro broken
    exact ended.unbroken (broken.trans (List.suffix_cons first _).isInfix)

theorem Ended.eq_cr {ch : UInt8} (ended : Ended [ch]) : ch = cr := by
  simpa using ended.last

theorem ne_lf_of_ended {first second : UInt8} {line : Bytes}
    (ended : Ended (first :: second :: line)) (isCr : first = cr) : second ≠ lf := by
  intro isLf
  apply ended.unbroken
  rw [isCr, isLf]
  exact (List.prefix_append crlf line).isInfix

theorem handleEol_lf (req : Request) (front rest : Bytes) (previous : UInt8) :
    (req.reading (front ++ [previous]) rest).handleEol lf =
      if previous = cr then
        .bottom ({ req with
          parseStatus := .headerField
          parseMatch := (front ++ [previous]).length }.reading (front ++ [previous]) rest)
      else
        .break (req.reading (front ++ [previous]) rest) .error := by
  have offset : (req.reading (front ++ [previous]) rest).parseOffset ≠ 0 := by
    simp [reading]
  have byte : (req.reading (front ++ [previous]) rest).rbuf[
      (req.reading (front ++ [previous]) rest).parseOffset - 1]? = some previous := by
    simp [reading]
  unfold handleEol
  rw [if_pos rfl, if_neg offset, withByte, byte]
  rfl

/-- `S_EOL` behind a byte of the line. -/
theorem passes_eol {req : Request} {front line : Bytes} {previous : UInt8}
    (here : req.parseStatus = .eol) (ended : Ended (previous :: line)) (rest : Bytes) :
    Passes (req.reading (front ++ [previous]) (line ++ lf :: rest))
      (Clean line ∧ lf ∉ line)
      (req.lineStart (front ++ previous :: line ++ [lf]) rest) := by
  induction line generalizing front previous with
  | nil =>
      have isCr := ended.eq_cr
      have handled := handleEol_lf req front (lf :: rest) previous
      rw [if_pos isCr] at handled
      constructor
      · intro _
        have accepted : token lf ≠ 0 := by decide
        rw [List.nil_append, run_of_bottom accepted ((handle_reading here _ _ _ _).trans handled)]
        simp [lineStart]
      · intro refused
        exact absurd ⟨nofun, nofun⟩ refused
  | cons ch line inductionHypothesis =>
      by_cases clean : token ch = 0
      · apply passes_of_error
        · rintro ⟨allClean, _⟩
          exact allClean ch List.mem_cons_self clean
        · exact verdict_of_unclean clean
      · by_cases isLf : ch = lf
        · apply passes_of_error
          · rintro ⟨_, noLf⟩
            exact noLf (isLf ▸ List.mem_cons_self)
          · have handled := handleEol_lf req front (ch :: line ++ lf :: rest) previous
            rw [if_neg fun isCr => ne_lf_of_ended ended isCr isLf] at handled
            rw [List.cons_append, run_of_break clean
              ((handle_reading here _ _ _ _).trans
                (by rw [(token_eq_lf_iff ch).mpr isLf]; exact handled))]
        · have passesOn : (req.reading (front ++ [previous]) (ch :: line ++ lf :: rest)).handleEol
              (token ch) =
                .bottom (req.reading (front ++ [previous]) (ch :: line ++ lf :: rest)) := by
            rw [handleEol, if_neg (fun same => isLf ((token_eq_lf_iff ch).mp same))]
          have stepped := run_of_bottom clean ((handle_reading here _ _ _ _).trans passesOn)
          refine (inductionHypothesis ended.rest).congr stepped ?_ ?_
          · simp [clean_cons, clean, Ne.symm isLf]
          · simp [lineStart]

section Values

variable {req : Request} {front line : Bytes}

/-- A value state that stores the bytes of the value one by one. -/
structure StoresBytes (status : RequestParseStatus) (readable : UInt8 → Prop)
    (add : Request → UInt8 → Request) : Prop where
  stops : ∀ {req : Request} {ch : UInt8} (front rest : Bytes), req.parseStatus = status →
    inValue ch = false →
    (req.reading front rest).handle ch (token ch) =
      .bottom ({ req with parseStatus := .eol }.reading front rest)
  stores : ∀ {req : Request} {ch : UInt8} (front rest : Bytes), req.parseStatus = status →
    inValue ch = true → readable ch →
    (req.reading front rest).handle ch (token ch) = .bottom ((add req ch).reading front rest)
  refuses : ∀ {req : Request} {ch : UInt8} (front rest : Bytes), req.parseStatus = status →
    inValue ch = true → ¬ readable ch →
    (req.reading front rest).handle ch (token ch) = .break (req.reading front rest) .error
  keeps : ∀ (req : Request) (ch : UInt8), (add req ch).parseStatus = req.parseStatus

theorem passes_value {status : RequestParseStatus} {readable : UInt8 → Prop}
    {add : Request → UInt8 → Request} (values : StoresBytes status readable add)
    (here : req.parseStatus = status) (ended : Ended line) (rest : Bytes) :
    Passes (req.reading front (line ++ lf :: rest))
      (Clean line ∧ lf ∉ (line.dropWhile inValue).tail ∧
        ∀ ch ∈ line.takeWhile inValue, readable ch)
      (((line.takeWhile inValue).foldl add req).lineStart (front ++ line ++ [lf]) rest) := by
  induction line generalizing req front with
  | nil => cases ended.last
  | cons ch line inductionHypothesis =>
      by_cases clean : token ch = 0
      · apply passes_of_error
        · rintro ⟨allClean, _⟩
          exact allClean ch List.mem_cons_self clean
        · exact verdict_of_unclean clean
      · cases within : inValue ch with
        | false =>
            have stepped := run_of_bottom clean
              (values.stops front (ch :: (line ++ lf :: rest)) here within)
            have onEol : { req with parseStatus := .eol }.parseStatus = .eol := rfl
            refine (passes_eol onEol ended rest).congr stepped ?_ ?_
            · simp [clean_cons, clean, within]
            · simp [lineStart, within]
        | true =>
            by_cases read : readable ch
            · have stepped := run_of_bottom clean
                (values.stores front (ch :: (line ++ lf :: rest)) here within read)
              have stillHere : (add req ch).parseStatus = status :=
                (values.keeps req ch).trans here
              cases line with
              | nil =>
                  rw [ended.eq_cr] at within
                  exact absurd within (by decide)
              | cons second line =>
                  refine (inductionHypothesis stillHere ended.rest).congr stepped ?_ ?_
                  · simp [clean_cons, clean, within, read]
                  · simp [lineStart, within]
            · have handled :=
                values.refuses front (ch :: (line ++ lf :: rest)) here within read
              apply passes_of_error
              · rintro ⟨_, _, allRead⟩
                apply read
                apply allRead ch
                simp [within]
              · rw [List.cons_append, run_of_break clean handled]

theorem token_of_not_inValue {ch : UInt8} (outside : inValue ch = false) :
    token ch = space ∨ token ch = cr := by
  unfold inValue at outside
  simpa [or_iff_not_imp_left] using outside

theorem token_of_inValue {ch : UInt8} (within : inValue ch = true) :
    ¬ (token ch = space ∨ token ch = cr) := by
  unfold inValue at within
  simpa using within

theorem storesBytes_contentLengthV :
    StoresBytes .contentLengthV (fun ch => isNum (token ch) = true)
      (fun req ch => { req with contentLength := addDigit req.contentLength ch }) where
  stops := by
    intro req ch front rest here outside
    rw [handle_reading here]
    exact if_pos (token_of_not_inValue outside)
  stores := by
    intro req ch front rest here within read
    rw [handle_reading here]
    exact (if_neg (token_of_inValue within)).trans (if_pos read)
  refuses := by
    intro req ch front rest here within refused
    rw [handle_reading here]
    exact (if_neg (token_of_inValue within)).trans (if_neg refused)
  keeps := fun _ _ => rfl

theorem storesBytes_secWebsocketKeyV :
    StoresBytes .secWebsocketKeyV (fun _ => True)
      (fun req ch => { req with secWebsocketKey := req.secWebsocketKey ++ [ch] }) where
  stops := by
    intro req ch front rest here outside
    rw [handle_reading here]
    exact if_pos (token_of_not_inValue outside)
  stores := by
    intro req ch front rest here within _
    rw [handle_reading here]
    exact if_neg (token_of_inValue within)
  refuses := fun _ _ _ _ refused => absurd trivial refused
  keeps := fun _ _ => rfl

theorem storesBytes_contentTypeV :
    StoresBytes .contentTypeV (fun _ => True)
      (fun req ch => { req with contentType := req.contentType ++ [ch] }) where
  stops := by
    intro req ch front rest here outside
    rw [handle_reading here]
    exact if_pos (token_of_not_inValue outside)
  stores := by
    intro req ch front rest here within _
    rw [handle_reading here]
    exact if_neg (token_of_inValue within)
  refuses := fun _ _ _ _ refused => absurd trivial refused
  keeps := fun _ _ => rfl

theorem foldl_contentLength (req : Request) (value : Bytes) :
    value.foldl (fun req ch => { req with contentLength := addDigit req.contentLength ch }) req =
      req.store (some (.contentLength, value)) := by
  induction value generalizing req with
  | nil => rfl
  | cons ch value inductionHypothesis =>
      rw [List.foldl_cons, inductionHypothesis]
      rfl

theorem foldl_secWebsocketKey (req : Request) (value : Bytes) :
    value.foldl
        (fun req ch => { req with secWebsocketKey := req.secWebsocketKey ++ [ch] }) req =
      req.store (some (.secWebsocketKey, value)) := by
  induction value generalizing req with
  | nil => simp [store]
  | cons ch value inductionHypothesis =>
      rw [List.foldl_cons, inductionHypothesis]
      simp [store]

theorem foldl_contentType (req : Request) (value : Bytes) :
    value.foldl (fun req ch => { req with contentType := req.contentType ++ [ch] }) req =
      req.store (some (.contentType, value)) := by
  induction value generalizing req with
  | nil => simp [store]
  | cons ch value inductionHypothesis =>
      rw [List.foldl_cons, inductionHypothesis]
      simp [store]

theorem lineStart_store (req : Request) (status : RequestParseStatus) (offset : Nat)
    (entry : Option (Field × Bytes)) (front rest : Bytes) :
    (req.store entry).lineStart front rest =
      ({ req with parseStatus := status, parseMatch := offset }.store entry).lineStart
        front rest := by
  rcases entry with _ | ⟨_ | _ | _, value⟩ <;> rfl

theorem passes_valueStatus (field : Field) (here : req.parseStatus = field.valueStatus)
    (ended : Ended line) (rest : Bytes) :
    Passes (req.reading front (line ++ lf :: rest))
      (Clean line ∧ lf ∉ (line.dropWhile inValue).tail ∧
        Readable (some (field, line.takeWhile inValue)))
      ((req.store (some (field, line.takeWhile inValue))).lineStart
        (front ++ line ++ [lf]) rest) := by
  cases field with
  | contentLength =>
      rw [← foldl_contentLength]
      exact passes_value storesBytes_contentLengthV here ended rest
  | secWebsocketKey =>
      rw [← foldl_secWebsocketKey]
      refine (passes_value storesBytes_secWebsocketKeyV here ended rest).congr rfl ?_ rfl
      simp [Readable]
  | contentType =>
      rw [← foldl_contentType]
      refine (passes_value storesBytes_contentTypeV here ended rest).congr rfl ?_ rfl
      simp [Readable]

end Values

section Names

variable {req : Request} {front line : Bytes}

theorem handleAt_nameStatus (field : Field) (req : Request) (ch c : UInt8) :
    handleAt field.nameStatus req ch c = req.handleName field.name field.valueStatus c := by
  cases field with
  | contentLength => rfl
  | secWebsocketKey => rfl
  | contentType => rfl

theorem isSeparator_iff (ch : UInt8) :
    isSeparator ch = true ↔ ¬ (token ch ≠ space ∧ token ch ≠ ':'.toUInt8) := by
  unfold isSeparator
  rw [Bool.or_eq_true, decide_eq_true_iff, decide_eq_true_iff]
  tauto

theorem cr_of_separators {ch : UInt8} (isCr : ch = cr) : isSeparator ch = false := by
  rw [isCr]
  decide

theorem passes_separators (field : Field) (here : req.parseStatus = field.nameStatus)
    (matched : req.parseMatch + field.name.length ≤ front.length)
    (ended : Ended line) (rest : Bytes) :
    Passes (req.reading front (line ++ lf :: rest))
      (Clean line ∧ lf ∉ (readField [] line).2 ∧
        Readable ((readField [] line).1.map fun value => (field, value)))
      ((req.store ((readField [] line).1.map fun value => (field, value))).lineStart
        (front ++ line ++ [lf]) rest) := by
  have named : field.name ≠ [] := by
    cases field <;> decide
  induction line generalizing front with
  | nil => cases ended.last
  | cons ch line inductionHypothesis =>
      by_cases clean : token ch = 0
      · apply passes_of_error
        · rintro ⟨allClean, _⟩
          exact allClean ch List.mem_cons_self clean
        · exact verdict_of_unclean clean
      · have handled := handle_reading here front (ch :: (line ++ lf :: rest)) ch (token ch)
        rw [handleAt_nameStatus, handleName_of_matched named matched] at handled
        cases separator : isSeparator ch with
        | true =>
            rw [if_neg ((isSeparator_iff ch).mp separator)] at handled
            cases line with
            | nil =>
                rw [cr_of_separators ended.eq_cr] at separator
                cases separator
            | cons second line =>
                have stepped := run_of_bottom clean handled
                have stillMatched : req.parseMatch + field.name.length ≤
                    (front ++ [ch]).length := by
                  rw [List.length_append]
                  omega
                refine (inductionHypothesis stillMatched ended.rest).congr stepped ?_ ?_
                · simp [readField, clean_cons, clean, separator]
                · simp [readField, lineStart, separator]
        | false =>
            have other : token ch ≠ space ∧ token ch ≠ ':'.toUInt8 := by
              by_contra isSeparated
              rw [(isSeparator_iff ch).mpr isSeparated] at separator
              cases separator
            rw [if_pos other] at handled
            have stepped := run_of_again clean handled
            have onValue : ({ req with
                parseStatus := field.valueStatus
                parseMatch := front.length } : Request).parseStatus = field.valueStatus := rfl
            refine (passes_valueStatus field onValue ended rest).congr stepped ?_ ?_
            · simp [readField, separator]
            · simp only [readField, List.dropWhile_cons, separator]
              exact lineStart_store _ _ _ _ _ _

theorem cr_not_mem_name (field : Field) : cr ∉ field.name := by
  cases field <;> decide

theorem passes_name (field : Field) (here : req.parseStatus = field.nameStatus)
    {done later : Bytes} (named : field.name = done ++ later)
    (compared : req.parseMatch + done.length = front.length)
    (ended : Ended line) (rest : Bytes) :
    Passes (req.reading front (line ++ lf :: rest))
      (Clean line ∧ lf ∉ (readField later line).2 ∧
        Readable ((readField later line).1.map fun value => (field, value)))
      ((req.store ((readField later line).1.map fun value => (field, value))).lineStart
        (front ++ line ++ [lf]) rest) := by
  induction later generalizing done front line with
  | nil =>
      have matched : req.parseMatch + field.name.length = front.length := by
        rw [named, List.append_nil, compared]
      exact passes_separators field here (Nat.le_of_eq matched) ended rest
  | cons expected later inductionHypothesis =>
      cases line with
      | nil => cases ended.last
      | cons ch line =>
          by_cases clean : token ch = 0
          · apply passes_of_error
            · rintro ⟨allClean, _⟩
              exact allClean ch List.mem_cons_self clean
            · exact verdict_of_unclean clean
          · have handled : (req.reading front (ch :: (line ++ lf :: rest))).handle ch (token ch) =
                if expected ≠ token ch then
                  .bottom ({ req with parseStatus := .eol }.reading front
                    (ch :: (line ++ lf :: rest)))
                else .bottom (req.reading front (ch :: (line ++ lf :: rest))) := by
              rw [handle_reading here, handleAt_nameStatus, named]
              exact handleName_of_compared compared _ _
            by_cases same : token ch = expected
            · rw [if_neg (not_not.mpr same.symm)] at handled
              have stepped := run_of_bottom clean handled
              cases line with
              | nil =>
                  have inName : cr ∈ field.name := by
                    rw [named, ← same, ended.eq_cr]
                    exact List.mem_append_right done List.mem_cons_self
                  exact absurd inName (cr_not_mem_name field)
              | cons second line =>
                  have namedOn : field.name = done ++ [expected] ++ later := by
                    rw [named, List.append_assoc, List.singleton_append]
                  have comparedOn : req.parseMatch + (done ++ [expected]).length =
                      (front ++ [ch]).length := by
                    rw [List.length_append, List.length_append, ← compared]
                    rfl
                  refine (inductionHypothesis namedOn comparedOn ended.rest).congr stepped ?_ ?_
                  · have cleanName : expected ≠ 0 := same ▸ clean
                    simp [readField, clean_cons, cleanName, same]
                  · simp [readField, same]
            · rw [if_pos (Ne.symm same)] at handled
              have onEol : { req with parseStatus := .eol }.parseStatus = .eol := rfl
              refine (passes_eol onEol ended rest).congr (run_of_bottom clean handled) ?_ ?_
              · simp [readField, clean_cons, clean, same, Readable]
              · simp [readField, same, store, lineStart]

end Names

section HeaderLines

variable {req : Request} {front line : Bytes} {ch : UInt8}

theorem passes_line_of_field (field : Field) {rest : Bytes} (clean : token ch ≠ 0)
    (handled : (req.reading front (ch :: (line ++ lf :: rest))).handle ch (token ch) =
      .bottom ({ req with
        parseStatus := field.nameStatus
        parseMatch := front.length }.reading front (ch :: (line ++ lf :: rest))))
    (compared : fieldOf (ch :: line) = some field)
    (first : field.name.head? = some (token ch)) (ended : Ended (ch :: line)) :
    Passes (req.reading front (ch :: line ++ lf :: rest)) (LineAccepted (ch :: line))
      ((req.store (readLine (ch :: line)).1).lineStart (front ++ ch :: line ++ [lf]) rest) := by
  have notCr : ch ≠ cr := by
    intro isCr
    apply cr_not_mem_name field
    apply List.mem_of_mem_head?
    rw [first, isCr]
    rfl
  have named : field.name = [token ch] ++ field.name.tail := by
    rw [List.singleton_append]
    exact (List.cons_head?_tail first).symm
  have readRest : readField field.name (ch :: line) = readField field.name.tail line := by
    rw [named]
    simp [readField]
  cases line with
  | nil => exact absurd ended.eq_cr notCr
  | cons second line =>
      have onName : ({ req with
          parseStatus := field.nameStatus
          parseMatch := front.length } : Request).parseStatus = field.nameStatus := rfl
      have comparedFirst : ({ req with
          parseStatus := field.nameStatus
          parseMatch := front.length } : Request).parseMatch + [token ch].length =
            (front ++ [ch]).length := by
        simp
      refine (passes_name field onName named comparedFirst ended.rest rest).congr
        (run_of_bottom clean handled) ?_ ?_
      · unfold LineAccepted readLine
        rw [compared]
        simp only [readRest]
        simp [clean_cons, clean, notCr]
      · unfold readLine
        rw [compared]
        simp only [readRest, List.append_assoc, List.singleton_append]
        exact lineStart_store _ _ _ _ _ _

theorem passes_line_of_none {rest : Bytes} (clean : token ch ≠ 0) (notCr : ch ≠ cr)
    (handled : (req.reading front (ch :: (line ++ lf :: rest))).handle ch (token ch) =
      .bottom ({ req with parseStatus := .eol }.reading front (ch :: (line ++ lf :: rest))))
    (compared : fieldOf (ch :: line) = none) (ended : Ended (ch :: line)) :
    Passes (req.reading front (ch :: line ++ lf :: rest)) (LineAccepted (ch :: line))
      ((req.store (readLine (ch :: line)).1).lineStart (front ++ ch :: line ++ [lf]) rest) := by
  have onEol : { req with parseStatus := .eol }.parseStatus = .eol := rfl
  refine (passes_eol onEol ended rest).congr (run_of_bottom clean handled) ?_ ?_
  · unfold LineAccepted readLine
    rw [compared]
    simp [clean_cons, clean, notCr, Readable]
  · unfold readLine
    rw [compared]
    rfl

theorem take_line_eq_iff {name : Bytes} (long : name.length = 9) (noCr : cr ∉ name)
    (ended : Ended line) (behind : Bytes) :
    ((line ++ behind).take 9).map token = name ↔ (line.take 9).map token = name := by
  by_cases short : line.length < 9
  · have isLast : cr ∈ line := List.mem_of_getLast? ended.last
    constructor
    · intro same
      exfalso
      apply noCr
      rw [← same]
      have kept : cr ∈ (line ++ behind).take 9 := by
        rw [List.take_append, List.take_of_length_le (Nat.le_of_lt short)]
        exact List.mem_append_left _ isLast
      exact List.mem_map.mpr ⟨cr, kept, rfl⟩
    · intro same
      have lengths := congrArg List.length same
      rw [List.length_map, List.length_take, long] at lengths
      omega
  · rw [List.take_append_of_le_length (Nat.not_lt.mp short)]

theorem head_name_of_fieldOf {field : Field} (isC : token ch = 'c'.toUInt8)
    (compared : fieldOf (ch :: line) = some field) :
    field.name.head? = some 'c'.toUInt8 := by
  have notS : ¬ ((ch :: line).head?).map token = some 's'.toUInt8 := by
    rw [List.head?_cons, Option.map_some, isC]
    decide
  rw [fieldOf, if_neg notS] at compared
  split at compared
  · cases compared
    rfl
  · split at compared
    · cases compared
      rfl
    · cases compared

theorem handleContent_reading {rest : Bytes} (isC : token ch = 'c'.toUInt8)
    (long : 9 ≤ (ch :: line ++ lf :: rest).length) (ended : Ended (ch :: line)) :
    (req.reading front (ch :: line ++ lf :: rest)).handleContent =
      match fieldOf (ch :: line) with
      | some field =>
          .bottom ({ req with
            parseStatus := field.nameStatus
            parseMatch := front.length }.reading front (ch :: line ++ lf :: rest))
      | none =>
          .bottom ({ req with parseStatus := .eol }.reading front (ch :: line ++ lf :: rest)) := by
  have inside : (req.reading front (ch :: line ++ lf :: rest)).parseOffset + 9 ≤
      (req.reading front (ch :: line ++ lf :: rest)).rbuf.length := by
    change front.length + 9 ≤ (front ++ (ch :: line ++ lf :: rest)).length
    rw [List.length_append]
    omega
  have first : ((req.reading front (ch :: line ++ lf :: rest)).rbuf[
      (req.reading front (ch :: line ++ lf :: rest)).parseOffset]?).map token =
        some 'c'.toUInt8 := by
    simp [reading, isC]
  have ahead : (req.reading front (ch :: line ++ lf :: rest)).rbuf.drop
      (req.reading front (ch :: line ++ lf :: rest)).parseOffset = ch :: line ++ lf :: rest :=
    List.drop_left
  have notS : ¬ ((ch :: line).head?).map token = some 's'.toUInt8 := by
    rw [List.head?_cons, Option.map_some, isC]
    decide
  rw [handleContent_of_inside inside first, ahead]
  rw [fieldOf, if_neg notS]
  by_cases isLength : ((ch :: line).take 9).map token = contentLengthName.take 9
  · rw [if_pos ((take_line_eq_iff (by decide) (by decide) ended _).mpr isLength),
      if_pos isLength]
    rfl
  · rw [if_neg (fun same => isLength
      ((take_line_eq_iff (by decide) (by decide) ended _).mp same)), if_neg isLength]
    by_cases isType : ((ch :: line).take 9).map token = contentTypeName.take 9
    · rw [if_pos ((take_line_eq_iff (by decide) (by decide) ended _).mpr isType),
        if_pos isType]
      rfl
    · rw [if_neg (fun same => isType
        ((take_line_eq_iff (by decide) (by decide) ended _).mp same)), if_neg isType]
      rfl

theorem run_of_cr (here : req.parseStatus = .headerField) (front rest : Bytes) :
    parser.run (req.reading front (cr :: rest)) =
      parser.run ({ req with parseStatus := .eoh }.reading (front ++ [cr]) rest) := by
  apply run_of_bottom (by decide)
  rw [handle_reading here, handleAt, handleHeaderField, if_pos (by decide)]
  rfl

theorem run_of_blank (here : req.parseStatus = .headerField) (front rest : Bytes) :
    parser.run (req.reading front (cr :: lf :: rest)) =
      ⟨{ req with parseStatus := .eoh, headerLen := (front ++ crlf).length }.reading
        (front ++ [cr]) (lf :: rest), [], .finished⟩ := by
  have onEoh : { req with parseStatus := .eoh }.parseStatus = .eoh := rfl
  rw [run_of_cr here]
  apply run_of_break (by decide)
  rw [handle_reading onEoh, handleAt, handleEoh, if_pos (by decide)]
  simp [reading, crlf]

theorem verdict_of_cr (here : req.parseStatus = .headerField) {rest : Bytes}
    (filled : cr :: line ≠ [cr]) (ended : Ended (cr :: line)) :
    (parser.run (req.reading front (cr :: line ++ rest))).verdict = .error := by
  rw [List.cons_append, run_of_cr here]
  cases line with
  | nil => exact absurd rfl filled
  | cons second line =>
      by_cases clean : token second = 0
      · exact verdict_of_unclean clean
      · have notLf : token second ≠ lf := by
          rw [Ne, token_eq_lf_iff]
          exact ne_lf_of_ended ended rfl
        have onEoh : { req with parseStatus := .eoh }.parseStatus = .eoh := rfl
        have handled := handle_reading onEoh (front ++ [cr]) (second :: (line ++ rest))
          second (token second)
        rw [handleAt, handleEoh, if_neg notLf] at handled
        rw [List.cons_append, run_of_break clean handled]

/-- A header line of which every byte is looked at. -/
theorem passes_line (here : req.parseStatus = .headerField) {rest : Bytes}
    (long : (line.head?).map token = some 'c'.toUInt8 → 9 ≤ (line ++ lf :: rest).length)
    (filled : line ≠ [cr]) (ended : Ended line) :
    Passes (req.reading front (line ++ lf :: rest)) (LineAccepted line)
      ((req.store (readLine line).1).lineStart (front ++ line ++ [lf]) rest) := by
  cases line with
  | nil => cases ended.last
  | cons ch line =>
      by_cases clean : token ch = 0
      · apply passes_of_error
        · rintro ⟨allClean, _⟩
          exact allClean ch List.mem_cons_self clean
        · exact verdict_of_unclean clean
      · by_cases isCr : ch = cr
        · subst isCr
          apply passes_of_error
          · rintro ⟨_, notCr, _⟩
            exact notCr rfl
          · exact verdict_of_cr here filled ended
        · have handled := handle_reading here front (ch :: (line ++ lf :: rest))
            ch (token ch)
          rw [handleAt] at handled
          have notCr : token ch ≠ cr := fun same => isCr ((token_eq_cr_iff ch).mp same)
          by_cases isC : token ch = 'c'.toUInt8
          · have enough := long (by rw [List.head?_cons, Option.map_some, isC])
            have within : 9 ≤ (req.reading front (ch :: (line ++ lf :: rest))).rbufLen -
                (req.reading front (ch :: (line ++ lf :: rest))).parseOffset := by
              change 9 ≤ (front ++ (ch :: line ++ lf :: rest)).length - front.length
              rw [List.length_append]
              omega
            rw [isC, handleHeaderField_of_long within, ← isC] at handled
            have content : (req.reading front (ch :: (line ++ lf :: rest))).handleContent = _ :=
              handleContent_reading isC enough ended
            rw [content] at handled
            cases compared : fieldOf (ch :: line) with
            | none =>
                rw [compared] at handled
                exact passes_line_of_none clean isCr handled compared ended
            | some field =>
                rw [compared] at handled
                apply passes_line_of_field field clean handled compared _ ended
                rw [isC]
                exact head_name_of_fieldOf isC compared
          · by_cases isS : token ch = 's'.toUInt8
            · have compared : fieldOf (ch :: line) = some .secWebsocketKey := by
                rw [fieldOf, if_pos (by rw [List.head?_cons, Option.map_some, isS])]
              apply passes_line_of_field .secWebsocketKey clean _ compared _ ended
              · rw [handled, handleHeaderField, if_neg notCr, if_neg isC, if_pos isS]
                rfl
              · rw [isS]
                rfl
            · have notName : ∀ name : Bytes, name.head? = some 'c'.toUInt8 →
                  ((ch :: line).take 9).map token ≠ name := by
                intro name begins same
                rw [← same] at begins
                simp at begins
                exact isC begins
              have compared : fieldOf (ch :: line) = none := by
                rw [fieldOf, if_neg (by simpa using isS), if_neg (notName _ (by decide)),
                  if_neg (notName _ (by decide))]
              apply passes_line_of_none clean isCr _ compared ended
              rw [handled, handleHeaderField_of_plain notCr isC isS]
              rfl

theorem run_of_skipped (here : req.parseStatus = .headerField) {rest : Bytes}
    (isC : token ch = 'c'.toUInt8) (short : (ch :: rest).length < 9) :
    parser.run (req.reading front (ch :: rest)) =
      parser.run (req.reading (front ++ [ch]) rest) := by
  have few : (req.reading front (ch :: rest)).rbufLen -
      (req.reading front (ch :: rest)).parseOffset < 9 := by
    change (front ++ ch :: rest).length - front.length < 9
    rw [List.length_append]
    omega
  apply run_of_again (by rw [isC]; decide)
  rw [handle_reading here, handleAt, isC, handleHeaderField_of_short few]
  simp [reading]

theorem run_seenPart (here : req.parseStatus = .headerField) (line front rest : Bytes) :
    ∃ skipped, parser.run (req.reading front (line ++ rest)) =
      parser.run (req.reading (front ++ skipped)
        (seenPart line (line ++ rest).length ++ rest)) := by
  unfold seenPart
  split
  next short =>
    induction line generalizing front with
    | nil => exact ⟨[], by simp⟩
    | cons ch line inductionHypothesis =>
        by_cases isC : token ch = 'c'.toUInt8
        · have shorter : (line ++ rest).length < 9 := by
            rw [List.cons_append, List.length_cons] at short
            omega
          obtain ⟨skipped, same⟩ := inductionHypothesis (front ++ [ch]) shorter
          refine ⟨ch :: skipped, ?_⟩
          have first : parser.run (req.reading front (ch :: (line ++ rest))) =
              parser.run (req.reading (front ++ [ch]) (line ++ rest)) :=
            run_of_skipped here isC short
          rw [List.cons_append, first, same]
          simp [isC]
        · exact ⟨[], by simp [isC]⟩
  next => exact ⟨[], by simp⟩

end HeaderLines

theorem Ended.of_unbroken {line : Bytes} (unbroken : ¬ crlf <:+: line) :
    Ended (line ++ [cr]) where
  last := List.getLast?_concat
  unbroken := by
    rintro ⟨front, behind, split⟩
    rcases behind.eq_nil_or_concat with rfl | ⟨behind, last, rfl⟩
    · have last := congrArg List.getLast? split
      simp [crlf] at last
      exact absurd last (by decide)
    · apply unbroken
      rw [List.concat_eq_append, ← List.append_assoc] at split
      exact ⟨front, behind, List.append_inj_left' split rfl⟩

theorem Ended.of_suffix {line part : Bytes} (ended : Ended line) (suffix : part <:+ line)
    (filled : part ≠ []) : Ended part where
  last := by
    obtain ⟨front, rfl⟩ := suffix
    rw [← ended.last, List.getLast?_append_of_ne_nil front filled]
  unbroken := fun broken => ended.unbroken (broken.trans suffix.isInfix)

theorem Ended.seenPart {line : Bytes} (ended : Ended line) (left : Nat) :
    Ended (seenPart line left) := by
  unfold Request.seenPart
  split
  · apply ended.of_suffix (List.dropWhile_suffix _)
    intro nothing
    have isC := List.dropWhile_eq_nil_iff.mp nothing cr (List.mem_of_getLast? ended.last)
    exact absurd isC (by decide)
  · exact ended

/-- The parser is through with a head, and has stored what `final` stores. -/
def Finishes (start final : Request) : Prop :=
  ∃ status offset headerLen front rest,
    parser.run start =
      ⟨{ final with
        parseStatus := status
        parseMatch := offset
        headerLen := headerLen }.reading front rest, [], .finished⟩

theorem finishes_of_blank (req : Request) (status : RequestParseStatus) (offset : Nat)
    (here : status = .headerField) (front rest : Bytes) :
    Finishes
      ({ req with parseStatus := status, parseMatch := offset }.reading front
        (cr :: lf :: rest)) req :=
  ⟨_, _, _, _, _, run_of_blank here front rest⟩

theorem joinLines_cons (line : Bytes) (rest : List Bytes) (behind : Bytes) :
    joinLines (line :: rest) ++ behind =
      line ++ [cr] ++ lf :: (joinLines rest ++ behind) := by
  simp [joinLines, crlf]

theorem head_seenPart {line : Bytes} {left : Nat}
    (isC : ((seenPart line left).head?).map token = some 'c'.toUInt8) :
    9 ≤ left ∧ seenPart line left = line := by
  unfold seenPart at *
  split at isC
  · exfalso
    obtain ⟨ch, first, named⟩ := Option.map_eq_some_iff.mp isC
    have kept := List.head?_dropWhile_not (fun ch => decide (token ch = 'c'.toUInt8)) line
    rw [first] at kept
    simp [named] at kept
  next long => exact ⟨Nat.not_lt.mp long, by rw [if_neg long]⟩

theorem Finishes.congr {start mid final : Request} (finishes : Finishes mid final)
    (same : parser.run start = parser.run mid) : Finishes start final := by
  obtain ⟨status, offset, headerLen, front, rest, finished⟩ := finishes
  exact ⟨status, offset, headerLen, front, rest, same.trans finished⟩

theorem run_headerLine (req : Request) {line : Bytes} (ended : Ended line)
    (front rest : Bytes) :
    (seenPart line (line ++ lf :: rest).length = [cr] →
      Finishes (req.lineStart front (line ++ lf :: rest)) req) ∧
    (seenPart line (line ++ lf :: rest).length ≠ [cr] →
      ∃ newFront, Passes (req.lineStart front (line ++ lf :: rest))
        (LineAccepted (seenPart line (line ++ lf :: rest).length))
        ((req.store (readLine (seenPart line (line ++ lf :: rest).length)).1).lineStart
          newFront rest)) := by
  have onLine : ({ req with
      parseStatus := .headerField
      parseMatch := front.length - 1 } : Request).parseStatus = .headerField := rfl
  obtain ⟨skipped, same⟩ := run_seenPart onLine line front (lf :: rest)
  have endedSeen := ended.seenPart (line ++ lf :: rest).length
  constructor
  · intro blank
    rw [blank] at same
    exact (finishes_of_blank req .headerField _ rfl (front ++ skipped) rest).congr same
  · intro filled
    refine ⟨_, (passes_line onLine ?_ filled endedSeen).congr same Iff.rfl
      (lineStart_store _ _ _ _ _ _)⟩
    intro isC
    obtain ⟨long, whole⟩ := head_seenPart isC
    rw [whole]
    exact long

/-- The parser gets through the header lines as they are read line by line. -/
theorem run_headerLines {lines : List Bytes} (req : Request) (front behind : Bytes)
    (unbroken : ∀ line ∈ lines, ¬ crlf <:+: line) :
    match readLines behind.length req lines with
    | some final => Finishes (req.lineStart front (joinLines lines ++ behind)) final
    | none => (parser.run (req.lineStart front (joinLines lines ++ behind))).verdict = .error := by
  induction lines generalizing req front with
  | nil => exact finishes_of_blank req .headerField _ rfl front behind
  | cons line rest inductionHypothesis =>
      obtain ⟨ends, passes⟩ := run_headerLine req
        (Ended.of_unbroken (unbroken line List.mem_cons_self)) front (joinLines rest ++ behind)
      have whole : (joinLines (line :: rest)).length + behind.length =
          (line ++ [cr] ++ lf :: (joinLines rest ++ behind)).length := by
        rw [← joinLines_cons, List.length_append]
      rw [readLines, joinLines_cons, whole]
      generalize seenPart (line ++ [cr])
        (line ++ [cr] ++ lf :: (joinLines rest ++ behind)).length = seen at *
      by_cases blank : seen = [cr]
      · rw [if_pos blank]
        exact ends blank
      · rw [if_neg blank]
        obtain ⟨newFront, passesLine⟩ := passes blank
        by_cases accepted : LineAccepted seen
        · have later := inductionHypothesis (req.store (readLine seen).1) newFront
            (fun other among => unbroken other (List.mem_cons_of_mem line among))
          have onward := passesLine.onward accepted
          rw [if_pos accepted]
          cases result : readLines behind.length (req.store (readLine seen).1) rest with
          | some final =>
              rw [result] at later
              exact later.congr onward
          | none =>
              rw [result] at later
              exact (congrArg Scanned.verdict onward).trans later
        · rw [if_neg accepted]
          exact passesLine.rejected accepted

end Mevent.Request
