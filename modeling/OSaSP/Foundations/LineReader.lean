import Mathlib.Data.List.Basic

/-!
# Reading lines from a stream

A line reader keeps the unfinished line from one piece of its input to the
next, so the lines it completes depend on the stream alone and not on the
pieces it arrives in.
-/

namespace OSaSP
namespace LineReader

universe u

variable {Symbol : Type u} (separator : Symbol)

/-- Lines written out, each with a separator behind it. -/
def unlines (texts : List (List Symbol)) : List Symbol :=
  texts.flatMap fun text => text ++ [separator]

theorem unlines_append (front back : List (List Symbol)) :
    unlines separator (front ++ back) =
      unlines separator front ++ unlines separator back :=
  List.flatMap_append

theorem unlines_cons (text : List Symbol) (texts : List (List Symbol)) :
    unlines separator (text :: texts) =
      text ++ separator :: unlines separator texts := by
  simp [unlines]

variable [DecidableEq Symbol]

/-- The lines that an input completes behind an unfinished line. -/
def completed (pending : List Symbol) : List Symbol → List (List Symbol)
  | [] => []
  | symbol :: input =>
      if symbol = separator then pending :: completed [] input
      else completed (pending ++ [symbol]) input

/-- The unfinished line that an input leaves behind. -/
def leftover (pending : List Symbol) : List Symbol → List Symbol
  | [] => pending
  | symbol :: input =>
      if symbol = separator then leftover [] input
      else leftover (pending ++ [symbol]) input

/-- The lines of a stream up to its last separator. -/
abbrev lines (stream : List Symbol) : List (List Symbol) :=
  completed separator [] stream

/-- The lines of a stream with the unfinished one, if it has begun. -/
def textLines (stream : List Symbol) : List (List Symbol) :=
  lines separator stream ++
    if (leftover separator [] stream).isEmpty then []
    else [leftover separator [] stream]

variable {separator}

/-- A piece continues where the piece before it left off. -/
theorem completed_append (pending first second : List Symbol) :
    completed separator pending (first ++ second) =
      completed separator pending first ++
        completed separator (leftover separator pending first) second := by
  induction first generalizing pending with
  | nil => rfl
  | cons symbol first inductionHypothesis =>
      simp only [List.cons_append, completed, leftover]
      split
      · rw [inductionHypothesis, List.cons_append]
      · exact inductionHypothesis _

/-- An input without a separator completes nothing. -/
theorem completed_of_not_mem
    {input : List Symbol}
    (unseparated : separator ∉ input)
    (pending : List Symbol) :
    completed separator pending input = [] := by
  induction input generalizing pending with
  | nil => rfl
  | cons symbol input inductionHypothesis =>
      rw [List.mem_cons, not_or] at unseparated
      rw [completed, if_neg (Ne.symm unseparated.1)]
      exact inductionHypothesis unseparated.2 _

theorem leftover_of_not_mem
    {input : List Symbol}
    (unseparated : separator ∉ input)
    (pending : List Symbol) :
    leftover separator pending input = pending ++ input := by
  induction input generalizing pending with
  | nil => exact (List.append_nil pending).symm
  | cons symbol input inductionHypothesis =>
      rw [List.mem_cons, not_or] at unseparated
      rw [leftover, if_neg (Ne.symm unseparated.1),
        inductionHypothesis unseparated.2, List.append_assoc]
      rfl

/-- The first separator completes the unfinished line. -/
theorem completed_line
    {line : List Symbol}
    (unseparated : separator ∉ line)
    (pending rest : List Symbol) :
    completed separator pending (line ++ separator :: rest) =
      (pending ++ line) :: lines separator rest := by
  rw [completed_append, completed_of_not_mem unseparated,
    leftover_of_not_mem unseparated, completed, if_pos rfl,
    List.nil_append]

/-- The first line of a stream and what follows it are determined. -/
theorem line_unique
    {first second firstRest secondRest : List Symbol}
    (firstLine : separator ∉ first)
    (secondLine : separator ∉ second)
    (same : first ++ separator :: firstRest =
      second ++ separator :: secondRest) :
    first = second ∧ firstRest = secondRest := by
  have completes := completed_line firstLine [] firstRest
  rw [same, completed_line secondLine] at completes
  obtain rfl : second = first := (List.cons.inj completes).1
  rw [List.append_cancel_left_eq, List.cons.injEq] at same
  exact ⟨rfl, same.2⟩

/-- A stream is its lines and the unfinished one. -/
theorem unlines_completed_append (pending input : List Symbol) :
    unlines separator (completed separator pending input) ++
        leftover separator pending input = pending ++ input := by
  induction input generalizing pending with
  | nil => exact (List.append_nil pending).symm
  | cons symbol input inductionHypothesis =>
      rw [completed, leftover]
      split
      · rename_i isSeparator
        rw [unlines_cons, List.append_assoc, List.cons_append,
          inductionHypothesis, isSeparator]
        rfl
      · rw [inductionHypothesis, List.append_assoc]
        rfl

/-- The lines of a stream are made of its symbols. -/
theorem mem_of_mem_lines
    {stream line : List Symbol}
    (member : line ∈ lines separator stream)
    {symbol : Symbol}
    (inside : symbol ∈ line) :
    symbol ∈ stream := by
  have whole : unlines separator (lines separator stream) ++
      leftover separator [] stream = stream :=
    unlines_completed_append [] stream
  rw [← whole, List.mem_append]
  left
  exact List.mem_flatMap.mpr ⟨line, member, List.mem_append_left _ inside⟩

/-- No line contains the separator. -/
theorem unseparated_of_mem_completed
    {pending : List Symbol}
    (unseparated : separator ∉ pending)
    {input line : List Symbol}
    (member : line ∈ completed separator pending input) :
    separator ∉ line := by
  induction input generalizing pending with
  | nil => cases member
  | cons symbol input inductionHypothesis =>
      rw [completed] at member
      split at member
      · rcases List.mem_cons.mp member with rfl | later
        · exact unseparated
        · exact inductionHypothesis List.not_mem_nil later
      · rename_i different
        exact inductionHypothesis (by simp [unseparated, Ne.symm different])
          member

/-- An unfinished line never contains the separator. -/
theorem leftover_unseparated
    {pending : List Symbol}
    (unseparated : separator ∉ pending)
    (input : List Symbol) :
    separator ∉ leftover separator pending input := by
  induction input generalizing pending with
  | nil => exact unseparated
  | cons symbol input inductionHypothesis =>
      rw [leftover]
      split
      · exact inductionHypothesis List.not_mem_nil
      · rename_i different
        apply inductionHypothesis
        simp [unseparated, Ne.symm different]

/-- A text and a separator are its lines and the unfinished one. -/
theorem lines_terminated (text : List Symbol) :
    lines separator (text ++ [separator]) =
      lines separator text ++ [leftover separator [] text] := by
  rw [lines, completed_append, completed, if_pos rfl]
  rfl

/-- A text and a separator are one line exactly if there is no separator in the
text. -/
theorem lines_terminated_eq_singleton_iff {text line : List Symbol} :
    lines separator (text ++ [separator]) = [line] ↔
      text = line ∧ separator ∉ text := by
  constructor
  · intro single
    rw [lines_terminated] at single
    have none : lines separator text = [] := by
      have length := congrArg List.length single
      rw [List.length_append, List.length_singleton,
        List.length_singleton] at length
      exact List.length_eq_zero_iff.mp (Nat.succ.inj length)
    have whole : unlines separator (lines separator text) ++
        leftover separator [] text = text :=
      unlines_completed_append [] text
    rw [none] at single whole
    have same : leftover separator [] text = text := whole
    have unseparated : separator ∉ leftover separator [] text :=
      leftover_unseparated List.not_mem_nil text
    rw [same] at single unseparated
    exact ⟨(List.cons.inj single).1, unseparated⟩
  · rintro ⟨rfl, unseparated⟩
    exact completed_line unseparated [] []

/-- The lines of a stream with the unfinished one are its pieces between the
separators. -/
theorem completed_leftover_eq_splitOn
    (pending : List Symbol)
    (unseparated : separator ∉ pending)
    (input : List Symbol) :
    completed separator pending input ++
        [leftover separator pending input] =
      (pending ++ input).splitOn separator := by
  induction input generalizing pending with
  | nil =>
      rw [List.append_nil, List.splitOn_eq_singleton unseparated]
      rfl
  | cons symbol input inductionHypothesis =>
      rw [completed, leftover]
      split
      · rename_i isSeparator
        subst isSeparator
        rw [List.splitOn_append_cons_self_of_not_mem unseparated,
          List.cons_append, inductionHypothesis [] List.not_mem_nil]
        rfl
      · rename_i different
        rw [inductionHypothesis (pending ++ [symbol])
          (by simp [unseparated, Ne.symm different]), List.append_assoc]
        rfl

/-- No piece of a text contains the separator. -/
theorem unseparated_of_mem_splitOn
    {text piece : List Symbol}
    (member : piece ∈ text.splitOn separator) :
    separator ∉ piece := by
  have outside : separator ∉ ([] : List Symbol) := List.not_mem_nil
  have pieces := completed_leftover_eq_splitOn [] outside text
  rw [List.nil_append] at pieces
  rw [← pieces, List.mem_append, List.mem_singleton] at member
  rcases member with line | rfl
  · exact unseparated_of_mem_completed outside line
  · exact leftover_unseparated outside text

/-- The pieces of a text, written out, are the text with a separator. -/
theorem unlines_splitOn (text : List Symbol) :
    unlines separator (text.splitOn separator) = text ++ [separator] := by
  have pieces := completed_leftover_eq_splitOn []
    (show separator ∉ [] from List.not_mem_nil) text
  have whole : unlines separator (lines separator text) ++
      leftover separator [] text = text :=
    unlines_completed_append [] text
  rw [List.nil_append] at pieces
  rw [← pieces, unlines_append, unlines_cons, ← List.append_assoc, whole]
  rfl

theorem unseparated_of_mem_textLines
    {stream line : List Symbol}
    (member : line ∈ textLines separator stream) :
    separator ∉ line := by
  rcases List.mem_append.mp member with whole | last
  · exact unseparated_of_mem_completed List.not_mem_nil whole
  · split at last
    · cases last
    · rw [List.mem_singleton.mp last]
      exact leftover_unseparated List.not_mem_nil stream

end LineReader
end OSaSP
