import Mevent.Request.Chunks
import Mevent.Request.RequestLine

/-!
# The `Content-Length` of a request

What the header fields of a head declare, what the parser accumulates in
`content_length_`, and when the two agree.  The parser never resets the sum: the
digits of all lines that begin with the name are run together.
-/

namespace Mevent.Request

open Library

section Declared

def lowerCase (ch : UInt8) : UInt8 :=
  if 'A'.toUInt8 ≤ ch && ch ≤ 'Z'.toUInt8 then ch + 32 else ch

def isBlank (ch : UInt8) : Bool := ch = space || ch = 9

def trim (value : Bytes) : Bytes :=
  ((value.dropWhile isBlank).reverse.dropWhile isBlank).reverse

/-- The value of a header line that is a `Content-Length` field, in any case. -/
def contentLengthOf (line : Bytes) : Option Bytes :=
  match line.dropWhile (· ≠ ':'.toUInt8) with
  | [] => none
  | _ :: value =>
      if (line.takeWhile (· ≠ ':'.toUInt8)).map lowerCase = contentLengthName then
        some (trim value)
      else
        none

def number (digits : Bytes) : Nat :=
  digits.foldl (fun sum ch => sum * 10 + (ch.toNat - 48)) 0

def decimal (value : Bytes) : Option Nat :=
  if value ≠ [] ∧ ∀ ch ∈ value, isNum ch = true then some (number value) else none

/-- The number that all `Content-Length` fields carry, zero if there is none.  It
has to fit in a `uint32_t`. -/
def Head.declared (head : Head) : Option Nat :=
  match head.headerLines.filterMap contentLengthOf with
  | [] => some 0
  | value :: others =>
      match decimal value with
      | none => none
      | some length =>
          if length < 2 ^ 32 ∧ ∀ other ∈ others, decimal other = some length then some length
          else none

/-- The parser finishes with the declared length, and refuses a head that declares
none. -/
structure ReadsDeclared (head : Head) (behind : Bytes) : Prop where
  declared : ∀ length, head.declared = some length →
    (reset.append (head.bytes ++ behind)).parse.verdict = .finished →
    (reset.append (head.bytes ++ behind)).parse.state.contentLength = length
  undeclared : head.declared = none →
    (reset.append (head.bytes ++ behind)).parse.verdict = .error

end Declared

section Spelled

/-- The digits that a line adds to `content_length_`. -/
def lengthDigits : Option (Field × Bytes) → Bytes
  | some (.contentLength, value) => value
  | _ => []

/-- The digits of all header lines, run together; nothing if a line is refused. -/
def spelledLines (behind : Nat) : List Bytes → Option Bytes
  | [] => some []
  | line :: rest =>
      let seen := seenPart (line ++ [cr]) ((joinLines (line :: rest)).length + behind)
      if seen = [cr] then some []
      else if LineAccepted seen then
        (spelledLines behind rest).map (lengthDigits (readLine seen).1 ++ ·)
      else none

/-- The digits that a head spells, in front of `behind` more bytes. -/
def Head.spelled (head : Head) (behind : Nat) : Option Bytes :=
  (readRequestLine reset (head.requestLine ++ [cr])).bind fun _ =>
    spelledLines behind head.headerLines

theorem store_contentLength (req : Request) (entry : Option (Field × Bytes)) :
    (req.store entry).contentLength = (lengthDigits entry).foldl addDigit req.contentLength := by
  rcases entry with _ | ⟨_ | _ | _, value⟩ <;> rfl

theorem readLines_contentLength (behind : Nat) (req : Request) (lines : List Bytes) :
    (readLines behind req lines).map (·.contentLength) =
      (spelledLines behind lines).map (·.foldl addDigit req.contentLength) := by
  induction lines generalizing req with
  | nil => rfl
  | cons line rest inductionHypothesis =>
      rw [readLines, spelledLines]
      generalize seenPart _ _ = seen
      by_cases blank : seen = [cr]
      · rw [if_pos blank, if_pos blank]
        rfl
      · rw [if_neg blank, if_neg blank]
        by_cases accepted : LineAccepted seen
        · rw [if_pos accepted, if_pos accepted, inductionHypothesis, Option.map_map,
            store_contentLength]
          simp [Function.comp_def]
        · rw [if_neg accepted, if_neg accepted]
          rfl

theorem digit_of_isNum {ch : UInt8} (read : isNum (token ch) = true) :
    token ch = ch ∧ isNum ch = true := by
  revert read
  revert ch
  apply forall_byte
  decide +kernel

theorem foldl_addDigit {digits : Bytes} (read : ∀ ch ∈ digits, isNum (token ch) = true)
    (sum : Nat) :
    digits.foldl addDigit (sum % 2 ^ 32) =
      digits.foldl (fun sum ch => sum * 10 + (ch.toNat - 48)) sum % 2 ^ 32 := by
  induction digits generalizing sum with
  | nil => rfl
  | cons ch digits inductionHypothesis =>
      obtain ⟨first, others⟩ := List.forall_mem_cons.mp read
      rw [List.foldl_cons, List.foldl_cons, ← inductionHypothesis others]
      congr 1
      rw [addDigit, (digit_of_isNum first).1, wrap32, wrap32]
      omega

theorem lengthDigits_of_readable {entry : Option (Field × Bytes)}
    (readable : Readable entry) : ∀ ch ∈ lengthDigits entry, isNum (token ch) = true := by
  rcases entry with _ | ⟨_ | _ | _, value⟩
  · nofun
  · exact readable
  · nofun
  · nofun

theorem spelledLines_digits {behind : Nat} {lines : List Bytes} {digits : Bytes}
    (spelled : spelledLines behind lines = some digits) :
    ∀ ch ∈ digits, isNum (token ch) = true := by
  induction lines generalizing digits with
  | nil =>
      cases spelled
      nofun
  | cons line rest inductionHypothesis =>
      rw [spelledLines] at spelled
      generalize seenPart _ _ = seen at spelled
      by_cases blank : seen = [cr]
      · rw [if_pos blank] at spelled
        cases spelled
        nofun
      · rw [if_neg blank] at spelled
        by_cases accepted : LineAccepted seen
        · rw [if_pos accepted] at spelled
          obtain ⟨later, spelledRest, rfl⟩ := Option.map_eq_some_iff.mp spelled
          intro ch among
          rcases List.mem_append.mp among with here | there
          · exact lengthDigits_of_readable accepted.2.2.2 ch here
          · exact inductionHypothesis spelledRest ch there
        · rw [if_neg accepted] at spelled
          cases spelled

/-- The parser would end with the number that the head spells, modulo `2 ^ 32`. -/
theorem read_contentLength (head : Head) (behind : Nat) :
    (head.read behind).map (·.contentLength) =
      (head.spelled behind).map fun digits => number digits % 2 ^ 32 := by
  unfold Head.read Head.spelled
  cases read : readRequestLine reset (head.requestLine ++ [cr]) with
  | none => rfl
  | some req =>
      obtain ⟨method, path, query, rfl⟩ := readRequestLine_keeps read
      have fresh : reset.contentLength = 0 % 2 ^ 32 := rfl
      rw [Option.bind_some, Option.bind_some, readLines_contentLength, fresh]
      cases spelled : spelledLines behind head.headerLines with
      | none => rfl
      | some digits =>
          rw [Option.map_some, Option.map_some, foldl_addDigit (spelledLines_digits spelled)]
          rfl

end Spelled

theorem reset_append (bytes : Bytes) : reset.append bytes = reset.reading [] bytes := by
  simp [append, reading, reset]

/-- `Request::Parse` on a head in one piece: it finishes with the number that the
head spells, or refuses the head. -/
theorem parse_contentLength (head : Head) (behind : Bytes) :
    match head.spelled behind.length with
    | some digits =>
        (reset.append (head.bytes ++ behind)).parse.verdict = .finished ∧
        (reset.append (head.bytes ++ behind)).parse.state.contentLength =
          number digits % 2 ^ 32
    | none => (reset.append (head.bytes ++ behind)).parse.verdict = .error := by
  have parsed := parse_head head behind
  have lengths := read_contentLength head behind.length
  rw [reset_append]
  cases spelled : head.spelled behind.length with
  | none =>
      rw [spelled] at lengths
      rw [Option.map_eq_none_iff.mp lengths] at parsed
      exact parsed
  | some digits =>
      rw [spelled] at lengths
      obtain ⟨final, read, sameLength⟩ := Option.map_eq_some_iff.mp lengths
      rw [read] at parsed
      obtain ⟨status, offset, headerLen, front, rest, finished⟩ := parsed
      unfold parse
      rw [finished]
      exact ⟨rfl, sameLength⟩

/-- The digits that the head spells denote the declared length. -/
def SpellsDeclared (head : Head) (behind : Bytes) : Prop :=
  ∀ digits, head.spelled behind.length = some digits →
    head.declared = some (number digits % 2 ^ 32)

/-- The parser reads the declared length exactly when the digits it runs together
denote it. -/
theorem readsDeclared_iff (head : Head) (behind : Bytes) :
    ReadsDeclared head behind ↔ SpellsDeclared head behind := by
  have parsed := parse_contentLength head behind
  unfold SpellsDeclared
  cases spelled : head.spelled behind.length with
  | none =>
      rw [spelled] at parsed
      constructor
      · nofun
      · intro _
        refine ⟨?_, fun _ => parsed⟩
        intro length _ finished
        rw [parsed] at finished
        cases finished
  | some digits =>
      rw [spelled] at parsed
      obtain ⟨finished, length⟩ := parsed
      constructor
      · rintro reads _ ⟨⟩
        cases declared : head.declared with
        | none =>
            have refused := reads.undeclared declared
            rw [finished] at refused
            cases refused
        | some other =>
            rw [← reads.declared other declared finished, length]
      · intro spells
        have declared := spells digits rfl
        constructor
        · intro other otherDeclared _
          rw [declared] at otherDeclared
          cases otherDeclared
          exact length
        · intro undeclared
          rw [declared] at undeclared
          cases undeclared

/-- Two `Content-Length` fields that disagree are run together. -/
theorem not_readsDeclared_two_lengths :
    ¬ ∀ (head : Head) (behind : Bytes), ReadsDeclared head behind := by
  intro claim
  have reads := claim
    { requestLine := ascii ['G', 'E', 'T', ' ', '/', ' ', 'H', 'T', 'T', 'P']
      headerLines :=
        [ascii ['C', 'o', 'n', 't', 'e', 'n', 't', '-', 'L', 'e', 'n', 'g', 't', 'h', ':', '1'],
          ascii ['C', 'o', 'n', 't', 'e', 'n', 't', '-', 'L', 'e', 'n', 'g', 't', 'h', ':', '2']]
      unbroken := by decide +kernel
      filled := by decide +kernel } []
  have refused := reads.undeclared (by decide +kernel)
  revert refused
  decide +kernel

end Mevent.Request
