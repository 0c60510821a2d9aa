import Mevent.Request.Lines

/-!
# The parser reads request lines

The states from `S_START` to `S_QUERY_STRING`, followed over the first line of a
head.
-/

namespace Mevent.Request

open Library

/-- From `start` the parser comes to the first header line with what was read of
the request line, or fails. -/
def Leads (start : Request) (read : Option Request) (front rest : Bytes) : Prop :=
  match read with
  | some req => parser.run start = parser.run (req.lineStart front rest)
  | none => (parser.run start).verdict = .error

theorem Leads.congr {start mid : Request} {read other : Option Request}
    {front otherFront rest : Bytes} (leads : Leads mid read front rest)
    (stepped : parser.run start = parser.run mid) (same : other = read)
    (sameFront : otherFront = front) : Leads start other otherFront rest := by
  unfold Leads at *
  rw [stepped, same, sameFront]
  exact leads

theorem leads_rest (req : Request) (offset : Nat) {front line : Bytes} {previous : UInt8}
    (ended : Ended (previous :: line)) (rest : Bytes) :
    Leads ({ req with parseStatus := .eol, parseMatch := offset }.reading (front ++ [previous])
        (line ++ lf :: rest))
      (if Clean line ∧ lf ∉ line then some req else none)
      (front ++ previous :: line ++ [lf]) rest := by
  have onEol : { req with parseStatus := .eol, parseMatch := offset }.parseStatus = .eol := rfl
  have passes : Passes _ _ (req.lineStart (front ++ previous :: line ++ [lf]) rest) :=
    passes_eol onEol ended rest
  by_cases accepted : Clean line ∧ lf ∉ line
  · rw [if_pos accepted]
    exact passes.onward accepted
  · rw [if_neg accepted]
    exact passes.rejected accepted

theorem isUrlChar_ne {ch : UInt8} (isUrl : isUrlChar ch = true) : ch ≠ space ∧ ch ≠ cr := by
  revert isUrl
  revert ch
  apply forall_byte
  decide +kernel

theorem space_ne_cr : space ≠ cr := by decide

theorem cr_ne_mark : cr ≠ '?'.toUInt8 := by decide

section Targets

variable {req : Request} {front line : Bytes}

theorem readQuery_of_url {ch : UInt8} (clean : token ch ≠ 0) (isUrl : isUrlChar ch = true) :
    readQuery req (ch :: line) =
      readQuery { req with queryString := req.queryString ++ [ch] } line := by
  simp [readQuery, clean_cons, clean, isUrl]

theorem readQuery_of_end {ch : UInt8} (clean : token ch ≠ 0) (isUrl : isUrlChar ch = false) :
    readQuery req (ch :: line) =
      if ch = space then if Clean line ∧ lf ∉ line then some req else none else none := by
  by_cases isSpace : ch = space
  · subst isSpace
    by_cases cleanLine : Clean line
    · simp [readQuery, clean_cons, clean, isUrl, cleanLine]
    · simp [readQuery, clean_cons, cleanLine]
  · simp [readQuery, isUrl, isSpace]

theorem leads_query (req : Request) (offset : Nat) (ended : Ended line) (rest : Bytes) :
    Leads ({ req with parseStatus := .queryString, parseMatch := offset }.reading front
        (line ++ lf :: rest))
      (readQuery req line) (front ++ line ++ [lf]) rest := by
  have here : ∀ req : Request,
      { req with parseStatus := .queryString, parseMatch := offset }.parseStatus =
        .queryString := fun _ => rfl
  induction line generalizing req front with
  | nil => cases ended.last
  | cons ch line inductionHypothesis =>
      by_cases clean : token ch = 0
      · rw [readQuery, if_neg fun allClean => allClean ch List.mem_cons_self clean]
        exact verdict_of_unclean clean
      · have handled := handle_reading (here req) front (ch :: (line ++ lf :: rest)) ch (token ch)
        rw [handleAt, handleQueryString] at handled
        cases isUrl : isUrlChar ch with
        | true =>
            rw [if_pos (isUrlChar_ne isUrl).1, if_pos isUrl] at handled
            cases line with
            | nil => exact absurd ended.eq_cr (isUrlChar_ne isUrl).2
            | cons second line =>
                refine (inductionHypothesis { req with queryString := req.queryString ++ [ch] }
                  ended.rest).congr (run_of_bottom clean handled)
                  (readQuery_of_url clean isUrl) ?_
                simp
        | false =>
            rw [readQuery_of_end clean isUrl]
            by_cases isSpace : ch = space
            · rw [if_neg (not_not.mpr isSpace)] at handled
              rw [if_pos isSpace]
              exact (leads_rest req offset ended rest).congr (run_of_bottom clean handled) rfl rfl
            · rw [if_pos isSpace, if_neg (by rw [isUrl]; decide)] at handled
              rw [if_neg isSpace]
              exact congrArg Scanned.verdict (run_of_break clean handled)

theorem readPath_of_url {ch : UInt8} (clean : token ch ≠ 0) (isUrl : isUrlChar ch = true) :
    readPath req (ch :: line) = readPath { req with path := req.path ++ [ch] } line := by
  simp [readPath, clean_cons, clean, isUrl]

theorem readPath_of_end {ch : UInt8} (clean : token ch ≠ 0) (isUrl : isUrlChar ch = false) :
    readPath req (ch :: line) =
      if ch = space then
        if req.path ≠ [] then if Clean line ∧ lf ∉ line then some req else none else none
      else if ch = '?'.toUInt8 then readQuery req line
      else none := by
  by_cases isSpace : ch = space
  · subst isSpace
    by_cases cleanLine : Clean line
    · simp [readPath, clean_cons, clean, isUrl, cleanLine, ite_and]
    · simp [readPath, clean_cons, cleanLine]
  · by_cases cleanLine : Clean line
    · simp [readPath, clean_cons, clean, isUrl, isSpace, cleanLine]
    · simp [readPath, readQuery, clean_cons, isSpace, cleanLine]

theorem leads_path (req : Request) (offset : Nat) (ended : Ended line) (rest : Bytes) :
    Leads ({ req with parseStatus := .path, parseMatch := offset }.reading front
        (line ++ lf :: rest))
      (readPath req line) (front ++ line ++ [lf]) rest := by
  have here : ∀ req : Request,
      { req with parseStatus := .path, parseMatch := offset }.parseStatus = .path :=
    fun _ => rfl
  induction line generalizing req front with
  | nil => cases ended.last
  | cons ch line inductionHypothesis =>
      by_cases clean : token ch = 0
      · rw [readPath, if_neg fun allClean => allClean ch List.mem_cons_self clean]
        exact verdict_of_unclean clean
      · have handled := handle_reading (here req) front (ch :: (line ++ lf :: rest)) ch (token ch)
        rw [handleAt, handlePath] at handled
        cases isUrl : isUrlChar ch with
        | true =>
            rw [if_pos (isUrlChar_ne isUrl).1, if_pos isUrl] at handled
            cases line with
            | nil => exact absurd ended.eq_cr (isUrlChar_ne isUrl).2
            | cons second line =>
                refine (inductionHypothesis { req with path := req.path ++ [ch] }
                  ended.rest).congr (run_of_bottom clean handled)
                  (readPath_of_url clean isUrl) ?_
                simp
        | false =>
            rw [readPath_of_end clean isUrl]
            by_cases isSpace : ch = space
            · rw [if_neg (not_not.mpr isSpace)] at handled
              rw [if_pos isSpace]
              by_cases filled : req.path ≠ []
              · rw [if_pos filled]
                have handled := handled.trans (if_pos filled)
                exact (leads_rest req offset ended rest).congr (run_of_bottom clean handled)
                  rfl rfl
              · rw [if_neg filled]
                have handled := handled.trans (if_neg filled)
                exact congrArg Scanned.verdict (run_of_break clean handled)
            · rw [if_pos isSpace, if_neg (by rw [isUrl]; decide)] at handled
              rw [if_neg isSpace]
              by_cases isMark : ch = '?'.toUInt8
              · rw [if_pos isMark] at handled
                rw [if_pos isMark]
                cases line with
                | nil =>
                    rw [ended.eq_cr] at isMark
                    exact (cr_ne_mark isMark).elim
                | cons second line =>
                    have consumed := reading_next
                      { req with parseStatus := .queryString, parseMatch := offset } front
                      (second :: line ++ lf :: rest) ch
                    refine (leads_query req offset ended.rest rest).congr
                      ((run_of_again clean handled).trans (congrArg parser.run consumed)) rfl ?_
                    simp
              · rw [if_neg isMark] at handled
                rw [if_neg isMark]
                exact congrArg Scanned.verdict (run_of_break clean handled)

/-- The request while `S_METHOD` stands between `front` and `rest`. -/
def onMethod (req : Request) (front rest : Bytes) : Request :=
  { req with parseStatus := .method }.reading front rest

theorem handle_of_method {name : Bytes} (named : req.method.name = some name)
    (front rest : Bytes) (ch c : UInt8) :
    (req.onMethod front rest).handle ch c =
      if name.length - 1 < front.length then
        if c ≠ space then
          if front.length = name.length then .break (req.onMethod front rest) .error
          else .again ({ req with
            parseStatus := .path
            parseMatch := front.length }.reading front rest)
        else .bottom (req.onMethod front rest)
      else
        (req.onMethod front rest).withDistance fun distance =>
          (req.onMethod front rest).withNameByte name distance fun expected =>
            if expected ≠ c then .break (req.onMethod front rest) .error
            else .bottom (req.onMethod front rest) := by
  have dispatched : (req.onMethod front rest).handle ch c =
      (req.onMethod front rest).handleMethod c := rfl
  have namedHere : (req.onMethod front rest).method.name = some name := named
  rw [dispatched, handleMethod, namedHere]
  rfl

theorem handle_of_method_compared {done later : Bytes} {expected : UInt8}
    (named : req.method.name = some (done ++ expected :: later))
    (fromStart : req.parseMatch = 0) (compared : done.length = front.length)
    (rest : Bytes) (ch c : UInt8) :
    (req.onMethod front rest).handle ch c =
      if expected ≠ c then .break (req.onMethod front rest) .error
      else .bottom (req.onMethod front rest) := by
  have inside : ¬ (done ++ expected :: later).length - 1 < front.length := by
    rw [List.length_append, List.length_cons]
    omega
  have byte : (done ++ expected :: later ++ [0])[front.length]? = some expected := by
    rw [← compared]
    simp
  have begun : (req.onMethod front rest).parseMatch = 0 := fromStart
  have here : (req.onMethod front rest).parseOffset = front.length := rfl
  rw [handle_of_method named, if_neg inside, withDistance, begun, here,
    if_pos (Nat.zero_le _), Nat.sub_zero, withNameByte, byte]

/-- Behind the first space, `S_METHOD` skips the other ones. -/
theorem leads_spaces {name : Bytes} (named : req.method.name = some name)
    (behind : name.length < front.length) (ended : Ended line) (rest : Bytes) :
    Leads (req.onMethod front (line ++ lf :: rest))
      (readPath req (line.dropWhile (· = space))) (front ++ line ++ [lf]) rest := by
  induction line generalizing front with
  | nil => cases ended.last
  | cons ch line inductionHypothesis =>
      have past : name.length - 1 < front.length :=
        Nat.lt_of_le_of_lt (Nat.sub_le _ _) behind
      have handled := handle_of_method named front (ch :: (line ++ lf :: rest)) ch (token ch)
      rw [if_pos past] at handled
      by_cases isSpace : ch = space
      · subst isSpace
        rw [if_neg (by decide)] at handled
        cases line with
        | nil => exact (space_ne_cr ended.eq_cr).elim
        | cons second line =>
            have farther : name.length < (front ++ [space]).length := by
              rw [List.length_append]
              omega
            refine (inductionHypothesis farther ended.rest).congr
              (run_of_bottom (by decide) handled) ?_ ?_
            · simp
            · simp
      · rw [List.dropWhile_cons_of_neg (by simpa using isSpace)]
        by_cases clean : token ch = 0
        · rw [readPath, if_neg fun allClean => allClean ch List.mem_cons_self clean]
          exact verdict_of_unclean clean
        · have notSpace : token ch ≠ space := by
            rwa [Ne, token_eq_space_iff]
          have notAtEnd : front.length ≠ name.length := Nat.ne_of_gt behind
          rw [if_pos notSpace, if_neg notAtEnd] at handled
          exact (leads_path req front.length ended rest).congr
            (run_of_again clean handled) rfl rfl

theorem not_mem_methodName {method : RequestMethod} {name : Bytes}
    (named : method.name = some name) : 0 ∉ name ∧ cr ∉ name ∧ name ≠ [] := by
  cases method <;> cases named <;> decide

def readName (req : Request) (later line : Bytes) : Option Request :=
  if (line.take later.length).map token = later then
    if (line.drop later.length).head? = some space then
      readPath req ((line.drop later.length).dropWhile (· = space))
    else
      none
  else
    none

/-- Behind the whole name, `S_METHOD` wants a space. -/
theorem leads_name_end {name : Bytes} (named : req.method.name = some name) (filled : name ≠ [])
    (compared : name.length = front.length) (ended : Ended line) (rest : Bytes) :
    Leads (req.onMethod front (line ++ lf :: rest))
      (readName req [] line) (front ++ line ++ [lf]) rest := by
  cases line with
  | nil => cases ended.last
  | cons ch line =>
      have positive := List.length_pos_iff.mpr filled
      have past : name.length - 1 < front.length := compared ▸ Nat.sub_one_lt_of_lt positive
      have handled := handle_of_method named front (ch :: (line ++ lf :: rest)) ch (token ch)
      rw [if_pos past] at handled
      by_cases isSpace : ch = space
      · subst isSpace
        rw [if_neg (by decide)] at handled
        cases line with
        | nil => exact (space_ne_cr ended.eq_cr).elim
        | cons second line =>
            have farther : name.length < (front ++ [space]).length := by
              rw [List.length_append, compared]
              exact Nat.lt_succ_self _
            refine (leads_spaces named farther ended.rest rest).congr
              (run_of_bottom (by decide) handled) ?_ ?_
            · simp [readName]
            · simp
      · have unread : readName req [] (ch :: line) = none := by
          simp [readName, isSpace]
        rw [unread]
        by_cases clean : token ch = 0
        · exact verdict_of_unclean clean
        · have notSpace : token ch ≠ space :=
            fun same => isSpace ((token_eq_space_iff ch).mp same)
          rw [if_pos notSpace, if_pos compared.symm] at handled
          exact congrArg Scanned.verdict (run_of_break clean handled)

/-- `S_METHOD` compares the line with the name from any place in it. -/
theorem leads_name {done later : Bytes} (named : req.method.name = some (done ++ later))
    (fromStart : req.parseMatch = 0) (compared : done.length = front.length)
    (ended : Ended line) (rest : Bytes) :
    Leads (req.onMethod front (line ++ lf :: rest))
      (readName req later line) (front ++ line ++ [lf]) rest := by
  obtain ⟨noZero, noCr, filled⟩ := not_mem_methodName named
  induction later generalizing done front line with
  | nil =>
      rw [List.append_nil] at named filled
      exact leads_name_end named filled compared ended rest
  | cons expected later inductionHypothesis =>
      cases line with
      | nil => cases ended.last
      | cons ch line =>
          have handled := handle_of_method_compared named fromStart compared
            (ch :: (line ++ lf :: rest)) ch (token ch)
          have expectedIn : expected ∈ done ++ expected :: later :=
            List.mem_append_right done List.mem_cons_self
          by_cases same : token ch = expected
          · have clean : token ch ≠ 0 := by
              intro isZero
              rw [same] at isZero
              exact noZero (isZero ▸ expectedIn)
            rw [if_neg (not_not.mpr same.symm)] at handled
            cases line with
            | nil =>
                rw [ended.eq_cr] at same
                exact absurd (same ▸ expectedIn) noCr
            | cons second line =>
                have namedOn : req.method.name = some (done ++ [expected] ++ later) := by
                  rw [named, List.append_assoc, List.singleton_append]
                have comparedOn : (done ++ [expected]).length = (front ++ [ch]).length := by
                  rw [List.length_append, List.length_append, compared]
                  rfl
                obtain ⟨noZeroOn, noCrOn, filledOn⟩ := not_mem_methodName namedOn
                refine (inductionHypothesis namedOn comparedOn ended.rest noZeroOn noCrOn
                  filledOn).congr (run_of_bottom clean handled) ?_ ?_
                · simp [readName, same]
                · simp
          · have unread : readName req (expected :: later) (ch :: line) = none := by
              simp [readName, same]
            rw [unread]
            by_cases clean : token ch = 0
            · exact verdict_of_unclean clean
            · rw [if_pos (Ne.symm same)] at handled
              exact congrArg Scanned.verdict (run_of_break clean handled)

end Targets

/-- Only `p` begins more than one method. -/
theorem methodOf_first {first : UInt8} (notP : first ≠ 'p'.toUInt8) (second : UInt8) :
    methodOf first second = methodOf first 0 := by
  unfold methodOf
  rw [if_neg notP, if_neg notP]

theorem name_methodOf {first second : UInt8} {name : Bytes}
    (named : (methodOf first second).name = some name) : name.head? = some first := by
  unfold methodOf at named
  repeat' split at named
  all_goals first | (cases named; subst first; rfl) | cases named

theorem methodOf_p (second : UInt8) :
    methodOf 'p'.toUInt8 second =
      if second = 'o'.toUInt8 then .post
      else if second = 'u'.toUInt8 then .put
      else if second = 'a'.toUInt8 then .patch
      else .unknown := by
  rw [methodOf, if_neg (by decide), if_pos rfl]

theorem name_methodOf_p {second : UInt8} {name : Bytes}
    (named : (methodOf 'p'.toUInt8 second).name = some name) :
    name.tail.head? = some second := by
  rw [methodOf_p] at named
  repeat' split at named
  all_goals first | (cases named; subst second; rfl) | cases named

theorem handleStart_of_p (req : Request) :
    req.handleStart 'p'.toUInt8 = .bottom { req with parseStatus := .methodP } := by
  unfold handleStart
  rw [if_neg (by decide), if_pos rfl]

theorem handleStart_of_ne {first : UInt8} (notP : first ≠ 'p'.toUInt8) (req : Request) :
    req.handleStart first =
      match (methodOf first 0).name with
      | some _ => .bottom { req with parseStatus := .method, method := methodOf first 0 }
      | none => .break { req with parseStatus := .start } .error := by
  simp only [handleStart, methodOf, if_neg notP]
  repeat' split
  all_goals first | rfl | contradiction

theorem handleMethodP_eq (req : Request) (second : UInt8) :
    req.handleMethodP second =
      match (methodOf 'p'.toUInt8 second).name with
      | some _ =>
          .bottom { req with parseStatus := .method, method := methodOf 'p'.toUInt8 second }
      | none => .break { req with parseStatus := .method } .error := by
  rw [methodOf_p]
  unfold handleMethodP
  repeat' split
  all_goals first | rfl | contradiction

theorem readRequestLine_of_name {req : Request} {method : RequestMethod}
    {begun later front line : Bytes}
    (known : methodOf (token ((front ++ line).getD 0 0)) (token ((front ++ line).getD 1 0)) =
      method)
    (named : method.name = some (begun ++ later)) (same : front.map token = begun) :
    readRequestLine req (front ++ line) = readName { req with method } later line := by
  have lengths : begun.length = front.length := by
    rw [← same, List.length_map]
  have taken : ((front ++ line).take (begun ++ later).length).map token =
      begun ++ (line.take later.length).map token := by
    rw [List.length_append, lengths, List.take_length_add_append, List.map_append, same]
  have dropped : (front ++ line).drop (begun ++ later).length = line.drop later.length := by
    rw [List.length_append, lengths, List.drop_length_add_append]
  unfold readRequestLine readMethod readName
  simp only [known, named, taken, dropped, List.append_cancel_left_eq]
  by_cases matched : (line.take later.length).map token = later
  · rw [if_pos matched, if_pos matched]
  · rw [if_neg matched, if_neg matched]

theorem readRequestLine_of_unknown {req : Request} {line : Bytes}
    (unknown : (methodOf (token (line.getD 0 0)) (token (line.getD 1 0))).name = none) :
    readRequestLine req line = none := by
  unfold readRequestLine readMethod
  simp only [unknown]

section Start

variable {req : Request}

theorem leads_known {method : RequestMethod} {name begun front line : Bytes}
    (fromStart : req.parseMatch = 0)
    (known : methodOf (token ((front ++ line).getD 0 0)) (token ((front ++ line).getD 1 0)) =
      method)
    (named : method.name = some name) (begins : begun <+: name)
    (same : front.map token = begun) (ended : Ended line) (rest : Bytes) :
    Leads ({ req with parseStatus := .method, method := method }.reading front
        (line ++ lf :: rest))
      (readRequestLine req (front ++ line)) (front ++ line ++ [lf]) rest := by
  obtain ⟨later, rfl⟩ := begins
  have namedHere : { req with method := method }.method.name = some (begun ++ later) := named
  rw [readRequestLine_of_name known named same]
  exact leads_name namedHere fromStart (by rw [← same, List.length_map]) ended rest

/-- `S_METHOD_P`, behind the first byte. -/
theorem leads_methodP {first : UInt8} {line : Bytes} (fromStart : req.parseMatch = 0)
    (isP : token first = 'p'.toUInt8) (ended : Ended line) (rest : Bytes) :
    Leads ({ req with parseStatus := .methodP }.reading [first] (line ++ lf :: rest))
      (readRequestLine req (first :: line)) (first :: line ++ [lf]) rest := by
  have here : { req with parseStatus := .methodP }.parseStatus = .methodP := rfl
  cases line with
  | nil => cases ended.last
  | cons second line =>
      have known : methodOf (token ((first :: second :: line).getD 0 0))
          (token ((first :: second :: line).getD 1 0)) =
            methodOf 'p'.toUInt8 (token second) := by
        rw [List.getD_cons_zero, List.getD_cons_succ, List.getD_cons_zero, isP]
      cases named : (methodOf 'p'.toUInt8 (token second)).name with
      | none =>
          rw [readRequestLine_of_unknown (by rw [known, named])]
          by_cases clean : token second = 0
          · exact verdict_of_unclean clean
          · have handled := handle_reading here [first] (second :: (line ++ lf :: rest))
              second (token second)
            rw [handleAt, handleMethodP_eq, named] at handled
            exact congrArg Scanned.verdict (run_of_break clean handled)
      | some name =>
          have clean : token second ≠ 0 := by
            intro isZero
            rw [isZero] at named
            cases named
          have handled := handle_reading here [first] (second :: (line ++ lf :: rest))
            second (token second)
          rw [handleAt, handleMethodP_eq, named] at handled
          have begins : ['p'.toUInt8, token second] <+: name := by
            refine ⟨name.tail.tail, ?_⟩
            rw [List.cons_append, List.cons_append, List.nil_append,
              List.cons_head?_tail (name_methodOf_p named),
              List.cons_head?_tail (name_methodOf named)]
          cases line with
          | nil =>
              rw [ended.eq_cr] at named
              cases named
          | cons third line =>
              exact (leads_known fromStart known named begins (by rw [← isP]; rfl)
                ended.rest rest).congr (run_of_bottom clean handled) rfl rfl

/-- From `S_START` a request line is read as a whole, or refused. -/
theorem leads_requestLine {line : Bytes} (here : req.parseStatus = .start)
    (fromStart : req.parseMatch = 0) (ended : Ended line) (rest : Bytes) :
    Leads (req.reading [] (line ++ lf :: rest)) (readRequestLine req line)
      (line ++ [lf]) rest := by
  cases line with
  | nil => cases ended.last
  | cons first line =>
      have handled := handle_reading here [] (first :: (line ++ lf :: rest)) first (token first)
      rw [handleAt] at handled
      by_cases isP : token first = 'p'.toUInt8
      · have clean : token first ≠ 0 := by
          rw [isP]
          decide
        rw [isP, handleStart_of_p, ← isP] at handled
        cases line with
        | nil =>
            rw [ended.eq_cr] at isP
            exact absurd isP (by decide)
        | cons second line =>
            exact (leads_methodP fromStart isP ended.rest rest).congr
              (run_of_bottom clean handled) rfl rfl
      · have known : methodOf (token ((first :: line).getD 0 0))
            (token ((first :: line).getD 1 0)) = methodOf (token first) 0 :=
          methodOf_first isP _
        rw [handleStart_of_ne isP] at handled
        cases named : (methodOf (token first) 0).name with
        | none =>
            rw [readRequestLine_of_unknown (by rw [known, named])]
            by_cases clean : token first = 0
            · exact verdict_of_unclean clean
            · rw [named] at handled
              exact congrArg Scanned.verdict (run_of_break clean handled)
        | some name =>
            have clean : token first ≠ 0 := by
              intro isZero
              rw [isZero] at named
              cases named
            rw [named] at handled
            have begins : [token first] <+: name :=
              ⟨name.tail, List.cons_head?_tail (name_methodOf named)⟩
            cases line with
            | nil =>
                rw [ended.eq_cr] at named
                cases named
            | cons second line =>
                have ahead : Leads ({ req with
                      parseStatus := .method
                      method := methodOf (token first) 0 }.reading [first]
                        (second :: line ++ lf :: rest))
                    (readRequestLine req ([first] ++ second :: line))
                    ([first] ++ second :: line ++ [lf]) rest :=
                  leads_known fromStart known named begins rfl ended.rest rest
                exact ahead.congr (run_of_bottom clean handled) rfl rfl

end Start

/-- The parser reads a head, sent in one piece and followed by any bytes, line by
line. -/
theorem parse_head (head : Head) (behind : Bytes) :
    match head.read behind.length with
    | some final => Finishes (reset.reading [] (head.bytes ++ behind)) final
    | none => (reset.reading [] (head.bytes ++ behind)).parse.verdict = .error := by
  have unbroken := head.unbroken head.requestLine List.mem_cons_self
  have sent : head.bytes ++ behind =
      head.requestLine ++ [cr] ++ lf :: (joinLines head.headerLines ++ behind) := by
    simp [Head.bytes, crlf]
  have leads : Leads (reset.reading [] _) _ _ _ :=
    leads_requestLine rfl rfl (Ended.of_unbroken unbroken) (joinLines head.headerLines ++ behind)
  have headers := fun req => run_headerLines req (head.requestLine ++ [cr] ++ [lf]) behind
    fun line among => head.unbroken line (List.mem_cons_of_mem _ among)
  unfold Head.read
  rw [sent]
  cases read : readRequestLine reset (head.requestLine ++ [cr]) with
  | none =>
      rw [read] at leads
      exact leads
  | some req =>
      rw [read] at leads
      have later := headers req
      rw [Option.bind_some]
      cases result : readLines behind.length req head.headerLines with
      | none =>
          rw [result] at later
          exact (congrArg Scanned.verdict leads).trans later
      | some final =>
          rw [result] at later
          exact later.congr leads

section Kept

theorem readQuery_keeps {req final : Request} {line : Bytes}
    (read : readQuery req line = some final) :
    ∃ query, final = { req with queryString := query } := by
  unfold readQuery at read
  split at read
  · split at read
    · cases read
    · split at read
      · cases read
        exact ⟨_, rfl⟩
      · cases read
  · cases read

theorem readPath_keeps {req final : Request} {line : Bytes}
    (read : readPath req line = some final) :
    ∃ path query, final = { req with path := path, queryString := query } := by
  unfold readPath at read
  split at read
  · split at read
    · cases read
    · dsimp only at read
      split at read
      · split at read
        · cases read
          exact ⟨_, _, rfl⟩
        · cases read
      · split at read
        · obtain ⟨query, rfl⟩ := readQuery_keeps read
          exact ⟨_, query, rfl⟩
        · cases read
  · cases read

theorem readRequestLine_keeps {req final : Request} {line : Bytes}
    (read : readRequestLine req line = some final) :
    ∃ method path query,
      final = { req with method := method, path := path, queryString := query } := by
  unfold readRequestLine at read
  split at read
  · cases read
  · split at read
    · obtain ⟨path, query, rfl⟩ := readPath_keeps read
      exact ⟨_, path, query, rfl⟩
    · cases read

end Kept

end Mevent.Request
