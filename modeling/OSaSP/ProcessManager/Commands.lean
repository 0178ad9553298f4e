import OSaSP.Foundations.BoundedReader
import OSaSP.Foundations.CString
import OSaSP.Foundations.LineReader

/-!
# The command lines of the process manager

`input_option` reads through a buffer of 32 bytes.  A line that does not fit is
read in several pieces, each of which is taken for a line: the last piece, or a
piece with a zero in its second byte, may look like a command.

The commands are logged with the number of the line they were read from.
-/

namespace OSaSP
namespace ProcessManager

open BoundedReader CString LineReader

/-- The bytes that fit into `buf`. -/
def bufRoom : Nat := 31

/-- The characters that `input_option` accepts. -/
def options : List UInt8 := ascii "+-lmkq"

/-- The command `q`. -/
def quit : UInt8 := 113

/-- `input_option` with what `fgets` read, `none` at the end of the input: the
option, or what is printed before -1 is returned. -/
def inputOption : Option (List UInt8) → Except (List UInt8) UInt8
  | none => .ok quit
  | some piece =>
      match chomp piece with
      | [cmd] =>
          if cmd ∈ options then .ok cmd
          else .error (ascii "Invalid command: " ++ [cmd] ++ ascii "\n")
      | buf =>
          .error (ascii "Invalid command format: " ++ buf ++ ascii "\n")

/-- A command that `main` executed, with the number of the line it was read
from, `none` for the end of the input. -/
structure Executed where
  line : Option Nat
  command : UInt8
  deriving DecidableEq

/-- One round of the loop in `main`; `complete_the_program` does not return. -/
def obey
    (line : Option Nat)
    (option : Except (List UInt8) UInt8)
    (later : List Executed) : List Executed :=
  match option with
  | .error _ => later
  | .ok command =>
      ⟨line, command⟩ :: if command = quit then [] else later

/-- The loop in `main` on what successive calls of `fgets` read. -/
def mainLoop (line : Nat) : List (List UInt8) → List Executed
  | [] => obey none (inputOption none) []
  | piece :: reads =>
      obey (some line) (inputOption (some piece))
        (mainLoop (if lineFeed ∈ piece then line + 1 else line) reads)

/-- What `main` executes for an input. -/
def main (stream : List UInt8) : List Executed :=
  mainLoop 0 (pieces lineFeed bufRoom stream)

/-! ## What the lines ask for -/

/-- The command of a line that consists of a single accepted character. -/
def lineCommand : List UInt8 → Option UInt8
  | [cmd] => if cmd ∈ options then some cmd else none
  | _ => none

/-- The log with the command of a line, if it has one; behind `q` there is
nothing. -/
def execute
    (line : Option Nat)
    (later : List Executed) : Option UInt8 → List Executed
  | none => later
  | some command =>
      ⟨line, command⟩ :: if command = quit then [] else later

/-- One command for each command line up to the first `q`, which the end of
the input stands for if there is none. -/
def expected (line : Nat) : List (List UInt8) → List Executed
  | [] => [⟨none, quit⟩]
  | text :: texts =>
      execute (some line) (expected (line + 1) texts) (lineCommand text)

/-- The command that stands alone in the C string at the beginning of a
text. -/
def leadingCommand (text : List UInt8) : Option UInt8 :=
  lineCommand (stringAt text)

/-- A line, not of a single character, with a command where a piece of it
begins, either as its last character or before a zero. -/
def Misread (text : List UInt8) : Prop :=
  text.length ≠ 1 ∧
    ∃ round, leadingCommand (text.drop (bufRoom * round)) ≠ none

/-! ## A line is read in pieces -/

section Pieces

variable {text ending : List UInt8}

/-- What a round of the loop makes of a piece. -/
theorem obey_piece
    (unseparated : lineFeed ∉ text)
    (ends : ending = [] ∨ ending = [lineFeed])
    (line : Option Nat)
    (later : List Executed) :
    obey line (inputOption (some (text ++ ending))) later =
      execute line later (leadingCommand text) := by
  rw [inputOption, chomp_line unseparated ends, leadingCommand]
  cases stringAt text with
  | nil => rfl
  | cons cmd rest =>
      cases rest with
      | nil =>
          simp only [lineCommand]
          split <;> rfl
      | cons _ _ => rfl

/-- A piece without a line feed is a text of its own. -/
theorem obey_text
    (unseparated : lineFeed ∉ text)
    (line : Option Nat)
    (later : List Executed) :
    obey line (inputOption (some text)) later =
      execute line later (leadingCommand text) := by
  have piece := obey_piece unseparated (.inl rfl) line later
  rwa [List.append_nil] at piece

/-- The beginning of a line decides what it leads with. -/
theorem leadingCommand_take (text : List UInt8) :
    leadingCommand (text.take bufRoom) = leadingCommand text := by
  unfold leadingCommand stringAt
  match text with
  | [] => rfl
  | [cmd] => rfl
  | first :: second :: rest =>
      rw [bufRoom, List.take_succ_cons, List.take_succ_cons,
        List.takeWhile_cons, List.takeWhile_cons, List.takeWhile_cons,
        List.takeWhile_cons]
      split
      · split <;> rfl
      · rfl

theorem not_mem_take
    (unseparated : lineFeed ∉ text)
    (count : Nat) :
    lineFeed ∉ text.take count :=
  fun member => unseparated (List.mem_of_mem_take member)

theorem not_mem_drop
    (unseparated : lineFeed ∉ text)
    (count : Nat) :
    lineFeed ∉ text.drop count :=
  fun member => unseparated (List.mem_of_mem_drop member)

/-- A line that fits is one piece. -/
theorem mainLoop_short
    (unseparated : lineFeed ∉ text)
    (fits : text.length < bufRoom)
    (line : Nat)
    (reads : List (List UInt8)) :
    mainLoop line (pieces lineFeed bufRoom (text ++ [lineFeed]) ++ reads) =
      execute (some line) (mainLoop (line + 1) reads)
        (leadingCommand text) := by
  rw [pieces_short unseparated fits, List.singleton_append, mainLoop,
    obey_piece unseparated (.inr rfl),
    if_pos (List.mem_append_right text (List.mem_singleton.mpr rfl))]

/-- A longer line is cut. -/
theorem mainLoop_long
    (unseparated : lineFeed ∉ text)
    (long : bufRoom ≤ text.length)
    (ending : List UInt8)
    (line : Nat)
    (reads : List (List UInt8)) :
    mainLoop line (pieces lineFeed bufRoom (text ++ ending) ++ reads) =
      execute (some line)
        (mainLoop line
          (pieces lineFeed bufRoom (text.drop bufRoom ++ ending) ++ reads))
        (leadingCommand text) := by
  have cut := not_mem_take unseparated bufRoom
  rw [pieces_long unseparated (by decide) long, List.cons_append, mainLoop,
    if_neg cut, obey_text cut, leadingCommand_take]

/-- A line without a command at the beginning of a piece is passed over. -/
theorem mainLoop_rejected
    (unseparated : lineFeed ∉ text)
    (rejected : ∀ round, leadingCommand (text.drop (bufRoom * round)) = none)
    (line : Nat)
    (reads : List (List UInt8)) :
    mainLoop line (pieces lineFeed bufRoom (text ++ [lineFeed]) ++ reads) =
      mainLoop (line + 1) reads := by
  induction size : text.length using Nat.strong_induction_on
    generalizing text with
  | _ bound inductionHypothesis =>
      have first : leadingCommand text = none := rejected 0
      by_cases fits : text.length < bufRoom
      · rw [mainLoop_short unseparated fits, first]
        rfl
      · have long : bufRoom ≤ text.length := Nat.le_of_not_lt fits
        have shorter : (text.drop bufRoom).length < bound := by
          rw [List.length_drop, ← size]
          exact Nat.sub_lt (Nat.lt_of_lt_of_le (by decide) long) (by decide)
        rw [mainLoop_long unseparated long, first, execute]
        apply inductionHypothesis _ shorter
          (not_mem_drop unseparated bufRoom) _ rfl
        intro round
        rw [List.drop_drop, Nat.add_comm, ← Nat.mul_succ]
        exact rejected (round + 1)

/-- Any other line makes `main` execute something. -/
theorem mainLoop_misread
    (unseparated : lineFeed ∉ text)
    {round : Nat}
    (misread : leadingCommand (text.drop (bufRoom * round)) ≠ none)
    (line : Nat)
    (reads : List (List UInt8)) :
    ∃ command later,
      mainLoop line (pieces lineFeed bufRoom (text ++ [lineFeed]) ++ reads) =
        ⟨some line, command⟩ :: later := by
  induction round generalizing text with
  | zero =>
      obtain ⟨command, leads⟩ := Option.ne_none_iff_exists'.mp misread
      rw [Nat.mul_zero, List.drop_zero] at leads
      by_cases fits : text.length < bufRoom
      · rw [mainLoop_short unseparated fits, leads]
        exact ⟨command, _, rfl⟩
      · rw [mainLoop_long unseparated (Nat.le_of_not_lt fits), leads]
        exact ⟨command, _, rfl⟩
  | succ round inductionHypothesis =>
      by_cases fits : text.length < bufRoom
      · -- Behind a line that fits there is nothing.
        rw [List.drop_of_length_le] at misread
        · exact absurd rfl misread
        · rw [Nat.mul_succ]
          omega
      · rw [mainLoop_long unseparated (Nat.le_of_not_lt fits)]
        cases leads : leadingCommand text with
        | some command => exact ⟨command, _, rfl⟩
        | none =>
            apply inductionHypothesis (not_mem_drop unseparated bufRoom)
            rwa [List.drop_drop, Nat.add_comm, ← Nat.mul_succ]

end Pieces

/-! ## The commands of an input -/

/-- The loop depends on the rest of its input only through what it executes for
it. -/
theorem mainLoop_congr
    {left right : List (List UInt8)}
    (same : ∀ line, mainLoop line left = mainLoop line right)
    (reads : List (List UInt8))
    (line : Nat) :
    mainLoop line (reads ++ left) = mainLoop line (reads ++ right) := by
  induction reads generalizing line with
  | nil => exact same line
  | cons piece reads inductionHypothesis =>
      rw [List.cons_append, List.cons_append, mainLoop.eq_2, mainLoop.eq_2,
        inductionHypothesis]

/-- `main` reads an input as if its last line were terminated. -/
theorem main_eq_mainLoop (stream : List UInt8) :
    main stream =
      mainLoop 0
        (pieces lineFeed bufRoom
          (unlines lineFeed (textLines lineFeed stream))) := by
  apply read_textLines
  intro front last unseparated
  apply mainLoop_congr
  intro line
  rw [mainLoop.eq_2, obey_piece unseparated (.inr rfl)]
  split
  · rename_i empty
    rw [List.isEmpty_iff.mp empty]
    rfl
  · rw [mainLoop.eq_2, obey_text unseparated]
    rfl

/-- Every entry of the expected log is from a line not before the first, or
from the end. -/
theorem line_of_mem_expected
    {line : Nat}
    {texts : List (List UInt8)}
    {entry : Executed}
    (member : entry ∈ expected line texts) :
    entry.line = none ∨ ∃ later, line ≤ later ∧ entry.line = some later := by
  induction texts generalizing line with
  | nil =>
      rw [List.mem_singleton.mp member]
      exact .inl rfl
  | cons text texts inductionHypothesis =>
      have later : entry ∈ expected (line + 1) texts →
          entry.line = none ∨
            ∃ later, line ≤ later ∧ entry.line = some later := by
        intro behind
        apply (inductionHypothesis behind).imp_right
        rintro ⟨later, order, lineEq⟩
        exact ⟨later, by omega, lineEq⟩
      rw [expected] at member
      cases command : lineCommand text with
      | none =>
          rw [command] at member
          exact later member
      | some cmd =>
          rw [command] at member
          rcases List.mem_cons.mp member with rfl | behind
          · exact .inr ⟨line, Nat.le_refl line, rfl⟩
          · split at behind
            · cases behind
            · exact later behind

/-- A line of a single character leads with its command. -/
theorem leadingCommand_single (cmd : UInt8) :
    leadingCommand [cmd] = lineCommand [cmd] := by
  unfold leadingCommand stringAt
  by_cases zero : cmd = 0
  · rw [zero]
    decide
  · rw [List.takeWhile_cons_of_pos (by simpa using zero)]
    rfl

theorem eq_of_lineCommand
    {text : List UInt8}
    {cmd : UInt8}
    (command : lineCommand text = some cmd) :
    text = [cmd] := by
  match text with
  | [] => cases command
  | [first] =>
      simp only [lineCommand] at command
      split at command <;> cases command
      rfl
  | _ :: _ :: _ => cases command

theorem lineCommand_of_length_ne
    {text : List UInt8}
    (length : text.length ≠ 1) :
    lineCommand text = none := by
  match text with
  | [] => rfl
  | [_] => exact absurd rfl length
  | _ :: _ :: _ => rfl

/-- A line that is not misread makes `main` do what the line asks for. -/
theorem mainLoop_faithful
    {text : List UInt8}
    (unseparated : lineFeed ∉ text)
    (faithful : ¬Misread text)
    (line : Nat)
    (reads : List (List UInt8)) :
    mainLoop line (pieces lineFeed bufRoom (text ++ [lineFeed]) ++ reads) =
      execute (some line) (mainLoop (line + 1) reads)
        (lineCommand text) := by
  by_cases single : text.length = 1
  · obtain ⟨cmd, rfl⟩ := List.length_eq_one_iff.mp single
    rw [mainLoop_short unseparated (show 1 < bufRoom by decide),
      leadingCommand_single]
  · rw [lineCommand_of_length_ne single, execute]
    apply mainLoop_rejected unseparated
    intro round
    by_contra leads
    exact faithful ⟨single, round, leads⟩

/-- The log is the expected one exactly if no line before the first `q` is
misread. -/
theorem mainLoop_eq_expected_iff
    {texts : List (List UInt8)}
    (unseparated : ∀ text ∈ texts, lineFeed ∉ text)
    (line : Nat) :
    mainLoop line (pieces lineFeed bufRoom (unlines lineFeed texts)) =
        expected line texts ↔
      ∀ text ∈ texts.takeWhile fun text => text ≠ [quit],
        ¬Misread text := by
  induction texts generalizing line with
  | nil => exact iff_of_true rfl fun _ member => nomatch member
  | cons text texts inductionHypothesis =>
      rw [List.forall_mem_cons] at unseparated
      have rest := inductionHypothesis unseparated.2 (line + 1)
      rw [unlines_cons, pieces_line unseparated.1, expected]
      by_cases isQuit : text = [quit]
      · have faithful : ¬Misread text := fun misread =>
          misread.1 (by rw [isQuit]; rfl)
        rw [mainLoop_faithful unseparated.1 faithful, isQuit,
          List.takeWhile_cons_of_neg (by decide)]
        exact iff_of_true rfl fun _ member => nomatch member
      rw [List.takeWhile_cons_of_pos (by simpa using isQuit),
        List.forall_mem_cons]
      by_cases misread : Misread text
      · obtain ⟨length, round, leads⟩ := misread
        refine iff_of_false ?_ fun all => all.1 ⟨length, round, leads⟩
        obtain ⟨command, later, executed⟩ := mainLoop_misread unseparated.1
          leads line (pieces lineFeed bufRoom (unlines lineFeed texts))
        rw [executed, lineCommand_of_length_ne length, execute]
        intro same
        have member : (⟨some line, command⟩ : Executed) ∈
            expected (line + 1) texts := by
          rw [← same]
          exact List.mem_cons_self
        rcases line_of_mem_expected member with ended | ⟨later, order, lineEq⟩
        · cases ended
        · cases lineEq
          omega
      · rw [mainLoop_faithful unseparated.1 misread, and_iff_right misread,
          ← rest]
        cases command : lineCommand text with
        | none => rfl
        | some cmd =>
            have goesOn : cmd ≠ quit := by
              rintro rfl
              exact isQuit (eq_of_lineCommand command)
            simp only [execute, if_neg goesOn, List.cons.injEq, true_and]

/-- For every input: `main` executes one command for each command line and
nothing else, up to the first `q` or the end, exactly if no line before it is
misread. -/
theorem main_eq_expected_iff (stream : List UInt8) :
    main stream = expected 0 (textLines lineFeed stream) ↔
      ∀ text ∈ (textLines lineFeed stream).takeWhile fun text => text ≠ [quit],
        ¬Misread text := by
  rw [main_eq_mainLoop]
  apply mainLoop_eq_expected_iff
  intro text
  exact unseparated_of_mem_textLines

/-- A line of 31 letters and a `k` kills all children. -/
theorem main_long_line :
    main (List.replicate 31 97 ++ [107, lineFeed]) =
        [⟨some 0, 107⟩, ⟨none, quit⟩] ∧
      expected 0
          (textLines lineFeed (List.replicate 31 97 ++ [107, lineFeed])) =
        [⟨none, quit⟩] := by
  decide

end ProcessManager
end OSaSP
