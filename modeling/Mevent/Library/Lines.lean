import Mathlib.Data.List.Basic
import Mathlib.Data.List.Infix

/-!
# Lines that end with a mark

A mark of two different elements ends every line, and an empty line ends a group of lines.
A text that consists of such a group and of anything behind it can be taken apart in one
way only, as long as no line contains the mark.
-/

namespace Mevent.Library

universe u
variable {Symbol : Type u}

/-- The text splits into these parts where `mark` occurs first. -/
structure FirstSplit (mark text front behind : List Symbol) : Prop where
  split : text = front ++ mark ++ behind
  first : ∀ other rest, text = other ++ mark ++ rest → front.length ≤ other.length

theorem FirstSplit.unique {mark text front behind other rest : List Symbol}
    (one : FirstSplit mark text front behind) (two : FirstSplit mark text other rest) :
    front = other ∧ behind = rest := by
  have lengths := Nat.le_antisymm (one.first other rest two.split)
    (two.first front behind one.split)
  have same := one.split.symm.trans two.split
  rw [List.append_assoc, List.append_assoc] at same
  obtain ⟨fronts, rests⟩ := List.append_inj same lengths
  exact ⟨fronts, List.append_cancel_left rests⟩

def terminate (mark : List Symbol) (lines : List (List Symbol)) : List Symbol :=
  lines.flatMap (· ++ mark)

@[simp]
theorem terminate_nil (mark : List Symbol) : terminate mark [] = [] := rfl

@[simp]
theorem terminate_cons (mark line : List Symbol) (lines : List (List Symbol)) :
    terminate mark (line :: lines) = line ++ mark ++ terminate mark lines := rfl

@[simp]
theorem terminate_append (mark : List Symbol) (lines others : List (List Symbol)) :
    terminate mark (lines ++ others) = terminate mark lines ++ terminate mark others :=
  List.flatMap_append

theorem suffix_terminate (mark line : List Symbol) (lines : List (List Symbol)) :
    mark <:+ terminate mark (line :: lines) := by
  induction lines generalizing line with
  | nil => simp
  | cons other lines inductionHypothesis =>
      rw [terminate_cons]
      exact (inductionHypothesis other).trans (List.suffix_append _ _)

section Mark

variable {first second : Symbol}

theorem mark_infix_iff {symbol : Symbol} (notFirst : symbol ≠ first) (notSecond : symbol ≠ second)
    (line rest : List Symbol) :
    [first, second] <:+: line ++ symbol :: rest ↔
      [first, second] <:+: line ∨ [first, second] <:+: rest := by
  constructor
  · intro inside
    induction line with
    | nil =>
        rcases List.infix_cons_iff.mp inside with starts | later
        · exact absurd (List.cons_prefix_cons.mp starts).1.symm notFirst
        · exact .inr later
    | cons head line inductionHypothesis =>
        rcases List.infix_cons_iff.mp inside with starts | later
        · obtain ⟨rfl, follows⟩ := List.cons_prefix_cons.mp starts
          cases line with
          | nil => exact absurd (List.cons_prefix_cons.mp follows).1.symm notSecond
          | cons next line =>
              obtain ⟨rfl, -⟩ := List.cons_prefix_cons.mp follows
              exact .inl ⟨[], line, rfl⟩
        · exact (inductionHypothesis later).imp_left
            (fun inLine => inLine.trans (List.suffix_cons head line).isInfix)
  · rintro (inLine | inRest)
    · exact inLine.trans (List.prefix_append _ _).isInfix
    · exact inRest.trans ((List.suffix_cons symbol rest).trans (List.suffix_append _ _)).isInfix

theorem length_le_of_mark (different : first ≠ second)
    {line front rest behind : List Symbol}
    (clean : ¬ [first, second] <:+: line)
    (same : line ++ [first, second] ++ rest = front ++ [first, second] ++ behind) :
    line.length ≤ front.length := by
  induction front generalizing line with
  | nil =>
      match line, same with
      | [], _ => exact Nat.le_refl _
      | [last], same =>
          simp only [List.cons_append, List.nil_append, List.cons.injEq] at same
          exact absurd same.2.1 different
      | symbol :: next :: line, same =>
          simp only [List.cons_append, List.nil_append, List.cons.injEq] at same
          obtain ⟨rfl, rfl, -⟩ := same
          exact absurd ⟨[], line, rfl⟩ clean
  | cons symbol front inductionHypothesis =>
      cases line with
      | nil => exact Nat.zero_le _
      | cons other line =>
          simp only [List.cons_append, List.cons.injEq] at same
          have cleanTail : ¬ [first, second] <:+: line :=
            fun inside => clean (inside.trans (List.suffix_cons other line).isInfix)
          exact Nat.succ_le_succ (inductionHypothesis cleanTail same.2)

theorem length_terminate_le (different : first ≠ second) {lines : List (List Symbol)}
    {front rest behind : List Symbol}
    (clean : ∀ line ∈ lines, line ≠ [] ∧ ¬ [first, second] <:+: line)
    (same : terminate [first, second] lines ++ ([first, second] ++ rest) =
      front ++ ([first, second] ++ ([first, second] ++ behind))) :
    (terminate [first, second] lines).length ≤ front.length + 2 := by
  induction lines generalizing front with
  | nil => exact Nat.zero_le _
  | cons line lines inductionHypothesis =>
      rw [List.forall_mem_cons] at clean
      have reaches : line.length ≤ front.length := by
        apply length_le_of_mark different clean.1.2
        rw [terminate_cons, List.append_assoc, List.append_assoc] at same
        rw [List.append_assoc, List.append_assoc]
        exact same
      rw [terminate_cons, List.append_assoc, List.append_assoc] at same
      have prefixes : line <+: front := by
        have one := List.prefix_append line
          ([first, second] ++ (terminate [first, second] lines ++ ([first, second] ++ rest)))
        have two := List.prefix_append front ([first, second] ++ ([first, second] ++ behind))
        rw [same] at one
        exact List.prefix_of_prefix_length_le one two reaches
      obtain ⟨more, rfl⟩ := prefixes
      rw [List.append_assoc] at same
      have same := List.append_cancel_left same
      rw [terminate_cons, List.length_append, List.length_append, List.length_append]
      match more, same with
      | [], same =>
          -- The mark behind the line is followed by the other one at once.
          have next := List.append_cancel_left (same.trans (List.nil_append _))
          cases lines with
          | nil => simp
          | cons other lines =>
              rw [List.forall_mem_cons] at clean
              rw [terminate_cons, List.append_assoc, List.append_assoc] at next
              have none_left : other.length ≤ ([] : List Symbol).length := by
                apply length_le_of_mark different clean.2.1.2
                rw [List.append_assoc, List.nil_append]
                exact next
              exact absurd (List.length_eq_zero_iff.mp (Nat.le_zero.mp none_left)) clean.2.1.1
      | [symbol], same =>
          simp only [List.cons_append, List.nil_append, List.cons.injEq] at same
          exact absurd same.2.1.symm different
      | symbol :: next :: more, same =>
          simp only [List.cons_append, List.nil_append, List.cons.injEq] at same
          have later := inductionHypothesis clean.2 same.2.2
          simp only [List.length_cons, List.length_nil]
          omega

/-- A group of lines and what follows it split at the first empty line. -/
theorem firstSplit_terminate (different : first ≠ second) {lines : List (List Symbol)}
    {front body : List Symbol}
    (clean : ∀ line ∈ lines, line ≠ [] ∧ ¬ [first, second] <:+: line)
    (ends : front ++ [first, second] = terminate [first, second] lines) :
    FirstSplit ([first, second] ++ [first, second])
      (terminate [first, second] lines ++ [first, second] ++ body) front body where
  split := by
    rw [← ends]
    simp
  first := by
    intro other rest same
    have reaches := @length_terminate_le _ first second different lines other body rest clean
      (by simpa using same)
    rw [← ends, List.length_append] at reaches
    simpa using reaches

/-! ### The lines of a text -/

section Cut

variable [DecidableEq Symbol]

/-- The lines of a text that a mark separates. -/
def cut (first second : Symbol) : List Symbol → List (List Symbol)
  | [] => [[]]
  | [symbol] => [[symbol]]
  | symbol :: next :: rest =>
      if symbol = first ∧ next = second then
        [] :: cut first second rest
      else
        (cut first second (next :: rest)).modifyHead (symbol :: ·)

theorem cut_ne_nil (text : List Symbol) : cut first second text ≠ [] := by
  fun_induction cut first second text with
  | case1 => simp
  | case2 => simp
  | case3 => simp
  | case4 symbol next rest _ inductionHypothesis => simpa using inductionHypothesis

theorem cut_append (different : first ≠ second) (front behind : List Symbol) :
    cut first second (front ++ [first, second] ++ behind) =
      cut first second front ++ cut first second behind := by
  fun_induction cut first second front with
  | case1 => simp [cut]
  | case2 symbol =>
      have other : ¬ (symbol = first ∧ first = second) := fun both => different both.2
      simp [cut, other]
  | case3 symbol next rest marked inductionHypothesis =>
      rw [List.cons_append, List.cons_append, List.cons_append, List.cons_append, cut,
        if_pos marked, inductionHypothesis, List.cons_append]
  | case4 symbol next rest unmarked inductionHypothesis =>
      rw [List.cons_append, List.cons_append, List.cons_append, List.cons_append, cut,
        if_neg unmarked]
      rw [List.cons_append, List.cons_append] at inductionHypothesis
      obtain ⟨line, lines, same⟩ := List.exists_cons_of_ne_nil (@cut_ne_nil _ first second _
        (next :: rest))
      rw [inductionHypothesis, same]
      rfl

theorem cut_of_clean {line : List Symbol} (clean : ¬ [first, second] <:+: line) :
    cut first second line = [line] := by
  fun_induction cut first second line with
  | case1 => rfl
  | case2 => rfl
  | case3 symbol next rest marked =>
      obtain ⟨rfl, rfl⟩ := marked
      exact absurd ⟨[], rest, rfl⟩ clean
  | case4 symbol next rest _ inductionHypothesis =>
      rw [inductionHypothesis fun inside =>
        clean (inside.trans (List.suffix_cons symbol _).isInfix)]
      rfl

theorem terminate_cut (text : List Symbol) :
    terminate [first, second] (cut first second text) = text ++ [first, second] := by
  fun_induction cut first second text with
  | case1 => rfl
  | case2 => rfl
  | case3 symbol next rest marked inductionHypothesis =>
      obtain ⟨rfl, rfl⟩ := marked
      rw [terminate_cons, inductionHypothesis]
      rfl
  | case4 symbol next rest _ inductionHypothesis =>
      obtain ⟨line, lines, same⟩ := List.exists_cons_of_ne_nil (@cut_ne_nil _ first second _
        (next :: rest))
      rw [same] at inductionHypothesis ⊢
      rw [List.modifyHead_cons, terminate_cons, List.cons_append, List.cons_append,
        ← terminate_cons, inductionHypothesis]
      rfl

theorem clean_of_mem_cut {text line : List Symbol} (member : line ∈ cut first second text) :
    ¬ [first, second] <:+: line := by
  fun_induction cut first second text generalizing line with
  | case1 =>
      rw [List.mem_singleton.mp member]
      simp
  | case2 symbol =>
      rw [List.mem_singleton.mp member]
      exact fun inside => absurd inside.length_le (by simp)
  | case3 symbol next rest _ inductionHypothesis =>
      rcases List.mem_cons.mp member with rfl | later
      · simp
      · exact inductionHypothesis later
  | case4 symbol next rest unmarked inductionHypothesis =>
      obtain ⟨head, lines, same⟩ := List.exists_cons_of_ne_nil (@cut_ne_nil _ first second _
        (next :: rest))
      rw [same, List.modifyHead_cons] at member
      rw [same] at inductionHypothesis
      rcases List.mem_cons.mp member with rfl | later
      · intro inside
        rcases List.infix_cons_iff.mp inside with starts | within
        · -- the line goes on with the symbol that the text goes on with
          obtain ⟨rfl, follows⟩ := List.cons_prefix_cons.mp starts
          have lineStarts : head <+: (next :: rest) ++ [first, second] := by
            rw [← terminate_cut, same, terminate_cons, List.append_assoc]
            exact List.prefix_append _ _
          obtain ⟨rfl, -⟩ := List.cons_prefix_cons.mp (follows.trans lineStarts)
          exact unmarked ⟨rfl, rfl⟩
        · exact inductionHypothesis List.mem_cons_self within
      · exact inductionHypothesis (List.mem_cons_of_mem _ later)

/-- A text that consists of lines is cut into these. -/
theorem cut_of_terminate (different : first ≠ second) {line front : List Symbol}
    {lines : List (List Symbol)}
    (clean : ∀ other ∈ line :: lines, ¬ [first, second] <:+: other)
    (ends : front ++ [first, second] = terminate [first, second] (line :: lines)) :
    cut first second front = line :: lines := by
  induction lines generalizing line front with
  | nil =>
      have same : front = line := by simpa using ends
      rw [same]
      exact cut_of_clean (clean line List.mem_cons_self)
  | cons other lines inductionHypothesis =>
      rw [List.forall_mem_cons] at clean
      obtain ⟨rest, restEnds⟩ := suffix_terminate [first, second] other lines
      have same : front = line ++ [first, second] ++ rest := by
        rw [terminate_cons, ← restEnds, ← List.append_assoc] at ends
        exact List.append_cancel_right ends
      rw [same, cut_append different, cut_of_clean clean.1,
        inductionHypothesis clean.2 restEnds]
      rfl

end Cut

end Mark

section Ended

universe v
variable [DecidableEq Symbol] (ending : Symbol)

/-- The lines that end in a text, of which the first one has begun already.  What is behind
the last ending is not a line. -/
def linesFrom (line : List Symbol) : List Symbol → List (List Symbol)
  | [] => []
  | symbol :: rest =>
      if symbol = ending then line :: linesFrom [] rest else linesFrom (line ++ [symbol]) rest

def endedLines (text : List Symbol) : List (List Symbol) := linesFrom ending [] text

theorem linesFrom_append (line text other : List Symbol) :
    linesFrom ending line (text ++ ending :: other) =
      linesFrom ending line (text ++ [ending]) ++ endedLines ending other := by
  induction text generalizing line with
  | nil => simp [linesFrom, endedLines]
  | cons symbol rest inductionHypothesis =>
      rw [List.cons_append, List.cons_append, linesFrom, linesFrom]
      split
      · rw [inductionHypothesis, List.cons_append]
      · exact inductionHypothesis _

theorem endedLines_append {text : List Symbol} (ends : [ending] <:+ text)
    (other : List Symbol) :
    endedLines ending (text ++ other) = endedLines ending text ++ endedLines ending other := by
  obtain ⟨front, rfl⟩ := ends
  rw [List.append_assoc, List.singleton_append]
  exact linesFrom_append ending [] front other

theorem linesFrom_of_line {front : List Symbol} (inside : ending ∉ front)
    (line rest : List Symbol) :
    linesFrom ending line (front ++ ending :: rest) =
      (line ++ front) :: endedLines ending rest := by
  induction front generalizing line with
  | nil => simp [linesFrom, endedLines]
  | cons symbol front inductionHypothesis =>
      obtain ⟨different, inside⟩ := List.ne_and_not_mem_of_not_mem_cons inside
      rw [List.cons_append, linesFrom, if_neg (Ne.symm different), inductionHypothesis inside]
      simp

theorem not_mem_of_linesFrom {line text : List Symbol} (inside : ending ∉ line) :
    ∀ other ∈ linesFrom ending line text, ending ∉ other := by
  induction text generalizing line with
  | nil => simp [linesFrom]
  | cons symbol rest inductionHypothesis =>
      rw [linesFrom]
      split
      next =>
        intro other member
        rcases List.mem_cons.mp member with rfl | later
        · exact inside
        · exact @inductionHypothesis [] List.not_mem_nil other later
      next different =>
        apply inductionHypothesis
        rw [List.mem_append, List.mem_singleton]
        rintro (earlier | same)
        · exact inside earlier
        · exact different same.symm

/-- A fold that begins anew behind every ending works line by line. -/
theorem foldl_linesFrom {State : Type v} {Result : Type u} (collect : State → Symbol → State)
    (fresh : Result → State) (result : State → Result)
    (restarts : ∀ state, collect state ending = fresh (result (collect state ending)))
    (keeps : ∀ first (line : List Symbol), ending ∉ line →
      result (line.foldl collect (fresh first)) = first)
    {line : List Symbol} (inside : ending ∉ line) (text : List Symbol) (first : Result) :
    result (text.foldl collect (line.foldl collect (fresh first))) =
      (linesFrom ending line text).foldl
        (fun (first : Result) (line : List Symbol) =>
          result (collect (line.foldl collect (fresh first)) ending)) first := by
  induction text generalizing line first with
  | nil => exact keeps first line inside
  | cons symbol rest inductionHypothesis =>
      rw [List.foldl_cons, linesFrom]
      split
      next isEnding =>
        rw [isEnding, restarts, List.foldl_cons]
        exact @inductionHypothesis [] List.not_mem_nil _
      next different =>
        have grown : ending ∉ line ++ [symbol] := by
          rw [List.mem_append, List.mem_singleton]
          rintro (earlier | same)
          · exact inside earlier
          · exact different same.symm
        have step := inductionHypothesis grown first
        rw [List.foldl_append, List.foldl_cons, List.foldl_nil] at step
        exact step

end Ended

end Mevent.Library
