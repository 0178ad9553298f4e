import OSaSP.Foundations.LineReader

/-!
# Reading lines through a bounded buffer

A reader with room for `room` symbols takes a piece of the stream at a time: up
to the first separator, which is part of the piece, or as many symbols as fit.
A line that fits with its separator is one piece; a longer line is cut, and
what is left of it looks like a line of its own.
-/

namespace OSaSP
namespace BoundedReader

universe u

variable {Symbol : Type u} [DecidableEq Symbol] (separator : Symbol)

/-- What one read takes from a stream. -/
def readPiece : Nat → List Symbol → List Symbol
  | 0, _ => []
  | _ + 1, [] => []
  | room + 1, symbol :: stream =>
      if symbol = separator then [symbol] else symbol :: readPiece room stream

/-- What successive reads take behind the beginning of a piece. -/
def piecesFrom
    (room : Nat)
    (current : List Symbol) : List Symbol → List (List Symbol)
  | [] => if current.isEmpty then [] else [current]
  | symbol :: stream =>
      if symbol = separator ∨ current.length + 1 = room then
        (current ++ [symbol]) :: piecesFrom room [] stream
      else piecesFrom room (current ++ [symbol]) stream

/-- What successive reads take until the end of the stream. -/
abbrev pieces (room : Nat) (stream : List Symbol) : List (List Symbol) :=
  piecesFrom separator room [] stream

variable {separator} {room : Nat}

/-- The pieces are what single reads take, one after the other. -/
theorem piecesFrom_eq_cons
    (current : List Symbol)
    (space : current.length < room)
    (stream : List Symbol)
    (more : current ++ stream ≠ []) :
    piecesFrom separator room current stream =
      (current ++ readPiece separator (room - current.length) stream) ::
        pieces separator room
          (stream.drop
            (readPiece separator (room - current.length) stream).length) := by
  induction stream generalizing current with
  | nil =>
      have started : current ≠ [] := by rwa [List.append_nil] at more
      obtain ⟨left, leftEq⟩ := Nat.exists_eq_add_of_lt space
      rw [show room - current.length = left + 1 by omega, readPiece,
        piecesFrom, if_neg (by simpa using started), List.append_nil]
      rfl
  | cons symbol stream inductionHypothesis =>
      obtain ⟨left, leftEq⟩ := Nat.exists_eq_add_of_lt space
      rw [show room - current.length = left + 1 by omega, readPiece,
        piecesFrom]
      by_cases ends : symbol = separator
      · rw [if_pos (.inl ends), if_pos ends]
        rfl
      rw [if_neg ends]
      by_cases full : current.length + 1 = room
      · obtain rfl : left = 0 := by omega
        rw [if_pos (.inr full), readPiece]
        rfl
      · rw [if_neg (by simp only [ends, full, or_self, not_false_eq_true]),
          inductionHypothesis (current ++ [symbol])
            (by rw [List.length_append, List.length_singleton]; omega)
            (by simp)]
        rw [show room - (current ++ [symbol]).length = left by
          rw [List.length_append, List.length_singleton]; omega]
        rw [List.append_assoc, List.length_cons, List.drop_succ_cons]
        rfl

/-- The first piece of a stream and the others. -/
theorem pieces_eq_cons
    (positive : 0 < room)
    {stream : List Symbol}
    (more : stream ≠ []) :
    pieces separator room stream =
      readPiece separator room stream ::
        pieces separator room
          (stream.drop (readPiece separator room stream).length) :=
  piecesFrom_eq_cons [] positive stream more

/-- The pieces begin again behind every line. -/
theorem piecesFrom_line
    {line : List Symbol}
    (unseparated : separator ∉ line)
    (current rest : List Symbol) :
    piecesFrom separator room current (line ++ separator :: rest) =
      piecesFrom separator room current (line ++ [separator]) ++
        pieces separator room rest := by
  induction line generalizing current with
  | nil =>
      rw [List.nil_append, List.nil_append, piecesFrom, piecesFrom,
        if_pos (.inl rfl), if_pos (.inl rfl)]
      rfl
  | cons symbol line inductionHypothesis =>
      rw [List.mem_cons, not_or] at unseparated
      rw [List.cons_append, List.cons_append, piecesFrom, piecesFrom]
      split
      · rw [inductionHypothesis unseparated.2, List.cons_append]
      · exact inductionHypothesis unseparated.2 _

/-- A line that fits with its separator is read whole. -/
theorem piecesFrom_short
    {line : List Symbol}
    (unseparated : separator ∉ line)
    {current : List Symbol}
    (fits : current.length + line.length < room) :
    piecesFrom separator room current (line ++ [separator]) =
      [current ++ line ++ [separator]] := by
  induction line generalizing current with
  | nil =>
      rw [List.nil_append, piecesFrom, if_pos (.inl rfl), List.append_nil]
      rfl
  | cons symbol line inductionHypothesis =>
      rw [List.mem_cons, not_or] at unseparated
      rw [List.length_cons] at fits
      have goesOn : ¬(symbol = separator ∨ current.length + 1 = room) := by
        rintro (isSeparator | full)
        · exact unseparated.1 isSeparator.symm
        · omega
      rw [List.cons_append, piecesFrom, if_neg goesOn,
        inductionHypothesis unseparated.2
          (by rw [List.length_append, List.length_singleton]; omega),
        List.append_assoc current [symbol] line]
      rfl

/-- A line that does not fit is cut. -/
theorem piecesFrom_long
    {line : List Symbol}
    (unseparated : separator ∉ line)
    {current : List Symbol}
    (space : current.length < room)
    (long : room ≤ current.length + line.length)
    (rest : List Symbol) :
    piecesFrom separator room current (line ++ rest) =
      (current ++ line.take (room - current.length)) ::
        pieces separator room (line.drop (room - current.length) ++ rest) := by
  induction line generalizing current with
  | nil =>
      rw [List.length_nil] at long
      omega
  | cons symbol line inductionHypothesis =>
      rw [List.mem_cons, not_or] at unseparated
      rw [List.length_cons] at long
      rw [List.cons_append, piecesFrom]
      obtain ⟨left, leftEq⟩ := Nat.exists_eq_add_of_lt space
      rw [show room - current.length = left + 1 by omega,
        List.take_succ_cons, List.drop_succ_cons]
      by_cases full : current.length + 1 = room
      · obtain rfl : left = 0 := by omega
        rw [if_pos (.inr full), List.take_zero, List.drop_zero]
      · rw [if_neg (by simp only [Ne.symm unseparated.1, full, or_self,
            not_false_eq_true]),
          inductionHypothesis unseparated.2
            (by rw [List.length_append, List.length_singleton]; omega)
            (by rw [List.length_append, List.length_singleton]; omega)]
        rw [show room - (current ++ [symbol]).length = left by
          rw [List.length_append, List.length_singleton]; omega]
        rw [List.append_assoc]
        rfl

theorem pieces_line
    {line : List Symbol}
    (unseparated : separator ∉ line)
    (rest : List Symbol) :
    pieces separator room (line ++ separator :: rest) =
      pieces separator room (line ++ [separator]) ++
        pieces separator room rest :=
  piecesFrom_line unseparated [] rest

theorem pieces_short
    {line : List Symbol}
    (unseparated : separator ∉ line)
    (fits : line.length < room) :
    pieces separator room (line ++ [separator]) = [line ++ [separator]] := by
  apply piecesFrom_short unseparated
  rw [List.length_nil, Nat.zero_add]
  exact fits

theorem pieces_long
    {line : List Symbol}
    (unseparated : separator ∉ line)
    (positive : 0 < room)
    (long : room ≤ line.length)
    (rest : List Symbol) :
    pieces separator room (line ++ rest) =
      line.take room :: pieces separator room (line.drop room ++ rest) := by
  apply piecesFrom_long unseparated positive
  rw [List.length_nil, Nat.zero_add]
  exact long

/-- No piece is longer than the buffer. -/
theorem length_le_of_mem_piecesFrom
    {current stream piece : List Symbol}
    (space : current.length < room)
    (member : piece ∈ piecesFrom separator room current stream) :
    piece.length ≤ room := by
  induction stream generalizing current with
  | nil =>
      rw [piecesFrom] at member
      split at member
      · cases member
      · rw [List.mem_singleton.mp member]
        exact Nat.le_of_lt space
  | cons symbol stream inductionHypothesis =>
      have longer : (current ++ [symbol]).length = current.length + 1 := by
        rw [List.length_append, List.length_singleton]
      rw [piecesFrom] at member
      split at member
      · rcases List.mem_cons.mp member with rfl | behind
        · rw [longer]
          exact space
        · have empty : ([] : List Symbol).length < room :=
            Nat.zero_lt_of_lt space
          exact inductionHypothesis empty behind
      · rename_i goesOn
        rw [not_or] at goesOn
        apply inductionHypothesis _ member
        rw [longer]
        exact Nat.lt_of_le_of_ne space goesOn.2

variable (room) in
/-- A last line is read alike with and without its separator, which goes to the
last piece or is one of its own. -/
theorem piecesFrom_terminated
    {tail : List Symbol}
    (unseparated : separator ∉ tail)
    {current : List Symbol}
    (outside : separator ∉ current) :
    ∃ front last, (∀ piece ∈ front, separator ∉ piece) ∧
      separator ∉ last ∧
      piecesFrom separator room current (tail ++ [separator]) =
        front ++ [last ++ [separator]] ∧
      piecesFrom separator room current tail =
        front ++ if last.isEmpty then [] else [last] := by
  induction tail generalizing current with
  | nil =>
      refine ⟨[], current, fun _ member => (nomatch member), outside, ?_, rfl⟩
      rw [List.nil_append, piecesFrom, if_pos (.inl rfl)]
      rfl
  | cons symbol tail inductionHypothesis =>
      rw [List.mem_cons, not_or] at unseparated
      have longer : separator ∉ current ++ [symbol] := by
        rw [List.mem_append, List.mem_singleton, not_or]
        exact ⟨outside, unseparated.1⟩
      rw [List.cons_append, piecesFrom, piecesFrom]
      split
      · obtain ⟨front, last, frontUnseparated, lastUnseparated, terminated,
          unterminated⟩ := inductionHypothesis unseparated.2 List.not_mem_nil
        refine ⟨(current ++ [symbol]) :: front, last,
          List.forall_mem_cons.mpr ⟨longer, frontUnseparated⟩,
          lastUnseparated, ?_, ?_⟩
        · rw [terminated, List.cons_append]
        · rw [unterminated, List.cons_append]
      · exact inductionHypothesis unseparated.2 longer

/-- The pieces of written lines and what follows them. -/
theorem pieces_unlines
    {texts : List (List Symbol)}
    (unseparated : ∀ text ∈ texts, separator ∉ text)
    (rest : List Symbol) :
    pieces separator room (LineReader.unlines separator texts ++ rest) =
      pieces separator room (LineReader.unlines separator texts) ++
        pieces separator room rest := by
  induction texts with
  | nil => rfl
  | cons text texts inductionHypothesis =>
      rw [List.forall_mem_cons] at unseparated
      rw [LineReader.unlines_cons, List.append_assoc, List.cons_append,
        pieces_line unseparated.1 (LineReader.unlines separator texts ++ rest),
        pieces_line unseparated.1 (LineReader.unlines separator texts),
        inductionHypothesis unseparated.2, List.append_assoc]

/-- Whoever does not care whether the last piece has its separator reads a
stream as its lines. -/
theorem read_textLines
    {Result : Type v}
    (read : List (List Symbol) → Result)
    (careless : ∀ front last, separator ∉ last →
      read (front ++ if last.isEmpty then [] else [last]) =
        read (front ++ [last ++ [separator]]))
    (stream : List Symbol) :
    read (pieces separator room stream) =
      read (pieces separator room
        (LineReader.unlines separator
          (LineReader.textLines separator stream))) := by
  have whole : LineReader.unlines separator
      (LineReader.lines separator stream) ++
        LineReader.leftover separator [] stream = stream :=
    LineReader.unlines_completed_append [] stream
  have unseparated : ∀ text ∈ LineReader.lines separator stream,
      separator ∉ text :=
    fun _ => LineReader.unseparated_of_mem_completed List.not_mem_nil
  unfold LineReader.textLines
  split
  · rename_i empty
    rw [List.isEmpty_iff.mp empty, List.append_nil] at whole
    rw [List.append_nil, whole]
  · have unfinished : separator ∉ LineReader.leftover separator [] stream :=
      LineReader.leftover_unseparated List.not_mem_nil stream
    obtain ⟨front, last, _, lastUnseparated, terminated, unterminated⟩ :=
      piecesFrom_terminated room unfinished List.not_mem_nil
    have lastLine : LineReader.unlines separator
        [LineReader.leftover separator [] stream] =
          LineReader.leftover separator [] stream ++ [separator] :=
      LineReader.unlines_cons separator _ []
    have streamPieces : pieces separator room stream =
        pieces separator room
          (LineReader.unlines separator (LineReader.lines separator stream)) ++
            (front ++ if last.isEmpty then [] else [last]) := by
      rw [← unterminated, ← pieces_unlines unseparated, whole]
    rw [LineReader.unlines_append, lastLine, pieces_unlines unseparated,
      streamPieces, ← List.append_assoc, careless _ last lastUnseparated,
      List.append_assoc, ← terminated]

end BoundedReader
end OSaSP
