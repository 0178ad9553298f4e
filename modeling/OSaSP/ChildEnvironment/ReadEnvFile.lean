import OSaSP.Foundations.BoundedReader
import OSaSP.Foundations.CString
import Mathlib.Logic.Function.Basic

/-!
# The environment of the child processes

`read_env_file` reads names from a file, one to a line, and stores `NAME=VALUE`
for those that the environment of the parent has.  The loop leaves no slot for
the `NULL` behind the last entry, and a line that does not fit into the buffer
is looked up piece by piece.

Allocations succeed.
-/

namespace OSaSP
namespace ChildEnvironment

open BoundedReader CString LineReader

/-- The bytes that fit into `line`. -/
def lineRoom : Nat := 255

/-- The slots of `new_env` in `main`. -/
def newEnvSlots : Nat := 256

/-- `=`. -/
def equals : UInt8 := 61

/-- The strings of a process environment. -/
abbrev Environment := List { entry : List UInt8 // (0 : UInt8) ∉ entry }

/-- `getenv`: what follows the name and `=` in the first string that begins with
them. -/
def getenv (environ : Environment) (name : List UInt8) :
    Option (List UInt8) :=
  if name.isEmpty then none
  else
    environ.findSome? fun entry =>
      if (name ++ [equals]).isPrefixOf entry.val then
        some (entry.val.drop (name.length + 1))
      else none

/-- A variable that was found, with the number of the line that asked for
it. -/
structure Variable where
  line : Nat
  name : List UInt8
  value : List UInt8
  deriving DecidableEq

/-- `NAME=VALUE`. -/
def Variable.text (var : Variable) : List UInt8 :=
  var.name ++ [equals] ++ var.value

/-- The string with the number of the line that asked for it. -/
def Variable.entry (var : Variable) : Nat × List UInt8 :=
  (var.line, var.text)

/-- `new_env`, whose slots hold a string or `NULL`, with `count`, the variables
stored so far and the indices written so far. -/
structure Reading where
  newEnv : Nat → Option (List UInt8)
  count : Nat
  stored : List Variable
  writes : List Nat

/-- The variable that a text names. -/
def lookUp
    (environ : Environment)
    (line : Nat)
    (name : List UInt8) : Option Variable :=
  (getenv environ name).map fun value => ⟨line, name, value⟩

/-- A variable is printed into the next slot. -/
def Reading.store (reading : Reading) (var : Variable) : Reading where
  newEnv := Function.update reading.newEnv reading.count
    (some (snprintf (var.name.length + var.value.length + 2)
      var.text))
  count := reading.count + 1
  stored := reading.stored ++ [var]
  writes := reading.writes ++ [reading.count]

/-- The body of the loop. -/
def Reading.take
    (environ : Environment)
    (line : Nat)
    (reading : Reading)
    (buf : List UInt8) : Reading :=
  match lookUp environ line (chomp buf) with
  | some var => reading.store var
  | none => reading

/-- The line that follows what was read. -/
def lineAfter (line : Nat) (buf : List UInt8) : Nat :=
  if lineFeed ∈ buf then line + 1 else line

/-- The loop on what successive calls of `fgets` read. -/
def readLoop
    (environ : Environment)
    (maxVars line : Nat)
    (reading : Reading) : List (List UInt8) → Reading
  | [] => reading
  | buf :: reads =>
      if reading.count < maxVars then
        readLoop environ maxVars (lineAfter line buf)
          (reading.take environ line buf) reads
      else reading

/-- `new_env[count] = NULL`. -/
def Reading.terminate (reading : Reading) : Reading :=
  { reading with
    newEnv := Function.update reading.newEnv reading.count none
    writes := reading.writes ++ [reading.count] }

/-- `read_env_file` on the content of the file; `none` when the file cannot be
opened and the program ends. -/
def readEnvFile
    (environ : Environment)
    (file : Option (List UInt8))
    (newEnv : Nat → Option (List UInt8))
    (maxVars : Nat) : Option Reading :=
  file.map fun content =>
    (readLoop environ maxVars 0 ⟨newEnv, 0, [], []⟩
      (pieces lineFeed lineRoom content)).terminate

/-! ## What the lines ask for -/

/-- The variables that the lines name. -/
def setVariables
    (environ : Environment)
    (line : Nat) : List (List UInt8) → List Variable
  | [] => []
  | text :: texts =>
      (lookUp environ line text).toList ++
        setVariables environ (line + 1) texts

/-- What `read_env_file` owes: the strings of the lines in their order, as many
as there are slots for, a `NULL` behind them, and nothing outside. -/
structure StoresSetVariables
    (environ : Environment)
    (content : List UInt8)
    (maxVars : Nat)
    (reading : Reading) : Prop where
  stored : reading.stored.map Variable.entry =
    ((setVariables environ 0 (textLines lineFeed content)).take maxVars).map
      Variable.entry
  slots : ∀ index var, reading.stored[index]? = some var →
    reading.newEnv index = some var.text
  terminated : reading.newEnv reading.stored.length = none
  inside : ∀ index ∈ reading.writes, index < maxVars

/-- What a line is looked up as. -/
def namesIn (text : List UInt8) : List (List UInt8) :=
  (pieces lineFeed lineRoom (text ++ [lineFeed])).map chomp

/-- A line is looked up as a whole, or neither it nor what it is looked up as is
the name of a variable, or just one thing that it is looked up as is, which is
followed by `=` in the line and leads to the string of the line. -/
def Legible (environ : Environment) (text : List UInt8) : Prop :=
  (text.length ≤ lineRoom ∧ (0 : UInt8) ∉ text) ∨
    (∀ name ∈ text :: namesIn text, getenv environ name = none) ∨
    ∃ front name back more value,
      namesIn text = front ++ name :: back ∧
      (∀ other ∈ front ++ back, getenv environ other = none) ∧
      text = name ++ [equals] ++ more ∧
      getenv environ text = some value ∧
      getenv environ name = some (more ++ [equals] ++ value)

/-! ## What the loop stores -/

/-- The variables that successive pieces name. -/
def found (environ : Environment) (line : Nat) :
    List (List UInt8) → List Variable
  | [] => []
  | buf :: reads =>
      (lookUp environ line (chomp buf)).toList ++
        found environ (lineAfter line buf) reads

/-- The array holds what was stored. -/
structure Reading.Sound (reading : Reading) : Prop where
  count : reading.count = reading.stored.length
  writes : reading.writes = List.range reading.count
  slots : ∀ index var, reading.stored[index]? = some var →
    reading.newEnv index = some var.text

/-- The size passed to `snprintf` is that of the whole string. -/
theorem snprintf_text (var : Variable) :
    snprintf (var.name.length + var.value.length + 2) var.text =
      var.text := by
  apply List.take_of_length_le
  rw [Variable.text, List.length_append, List.length_append,
    List.length_singleton]
  omega

theorem Reading.Sound.store
    {reading : Reading}
    (sound : reading.Sound)
    (var : Variable) :
    (reading.store var).Sound where
  count := by
    change reading.count + 1 = (reading.stored ++ [var]).length
    rw [sound.count, List.length_append, List.length_singleton]
  writes := by
    change reading.writes ++ [reading.count] = List.range (reading.count + 1)
    rw [sound.writes, List.range_succ]
  slots := by
    intro index other present
    change (reading.stored ++ [var])[index]? = some other at present
    change Function.update reading.newEnv reading.count _ index = _
    by_cases last : index = reading.count
    · rw [last, sound.count, List.getElem?_concat_length] at present
      cases present
      rw [last, Function.update_self, snprintf_text]
    · have before : index < reading.stored.length := by
        obtain ⟨inside, _⟩ := List.getElem?_eq_some_iff.mp present
        rw [List.length_append, List.length_singleton] at inside
        rw [sound.count] at last
        omega
      rw [List.getElem?_append_left before] at present
      rw [Function.update_of_ne last]
      exact sound.slots index other present

section Loop

variable {environ : Environment} {maxVars : Nat} {reading : Reading}

theorem Reading.Sound.take
    (sound : reading.Sound)
    (line : Nat)
    (buf : List UInt8) :
    (reading.take environ line buf).Sound := by
  unfold Reading.take
  split
  · exact sound.store _
  · exact sound

theorem sound_readLoop
    (sound : reading.Sound)
    (line : Nat)
    (reads : List (List UInt8)) :
    (readLoop environ maxVars line reading reads).Sound := by
  induction reads generalizing line reading with
  | nil => exact sound
  | cons buf reads inductionHypothesis =>
      rw [readLoop]
      split
      · exact inductionHypothesis (sound.take line buf) _
      · exact sound

theorem stored_take (line : Nat) (buf : List UInt8) :
    (reading.take environ line buf).stored =
      reading.stored ++ (lookUp environ line (chomp buf)).toList := by
  unfold Reading.take
  cases lookUp environ line (chomp buf) with
  | none => exact (List.append_nil _).symm
  | some var => rfl

/-- The loop stores what is found until the array is full. -/
theorem stored_readLoop
    (sound : reading.Sound)
    (room : reading.count ≤ maxVars)
    (line : Nat)
    (reads : List (List UInt8)) :
    (readLoop environ maxVars line reading reads).stored =
      (reading.stored ++ found environ line reads).take maxVars := by
  induction reads generalizing line reading with
  | nil =>
      rw [readLoop, found, List.append_nil, List.take_of_length_le]
      rw [← sound.count]
      exact room
  | cons buf reads inductionHypothesis =>
      rw [readLoop]
      split
      · rename_i more
        have next : (reading.take environ line buf).Sound :=
          sound.take line buf
        have nextRoom : (reading.take environ line buf).count ≤ maxVars := by
          unfold Reading.take
          split
          · exact more
          · exact room
        rw [inductionHypothesis next nextRoom, stored_take, List.append_assoc]
        rfl
      · have full : reading.stored.length = maxVars := by
          rw [← sound.count]
          omega
        rw [← full, List.take_left]

end Loop

/-! ## Pieces and lines -/

section Lines

variable {environ : Environment}

/-- The variables that the pieces of a line name. -/
def named
    (environ : Environment)
    (line : Nat)
    (text : List UInt8) : List Variable :=
  (namesIn text).filterMap (lookUp environ line)

/-- The variables that the pieces of successive lines name. -/
def namedByLines
    (environ : Environment)
    (line : Nat) : List (List UInt8) → List Variable
  | [] => []
  | text :: texts =>
      named environ line text ++ namedByLines environ (line + 1) texts

/-- Pieces without a line feed belong to one line. -/
theorem found_append
    {front : List (List UInt8)}
    (unfinished : ∀ piece ∈ front, lineFeed ∉ piece)
    (line : Nat)
    (reads : List (List UInt8)) :
    found environ line (front ++ reads) =
      (front.map chomp).filterMap (lookUp environ line) ++
        found environ line reads := by
  induction front with
  | nil => rfl
  | cons piece front inductionHypothesis =>
      rw [List.forall_mem_cons] at unfinished
      rw [List.cons_append, found, lineAfter, if_neg unfinished.1,
        inductionHypothesis unfinished.2, List.map_cons,
        List.filterMap_cons]
      cases lookUp environ line (chomp piece) <;> rfl

/-- The piece with the line feed is the last of its line. -/
theorem found_line
    {text : List UInt8}
    (unseparated : lineFeed ∉ text)
    (line : Nat)
    (rest : List UInt8) :
    found environ line (pieces lineFeed lineRoom (text ++ lineFeed :: rest)) =
      named environ line text ++
        found environ (line + 1) (pieces lineFeed lineRoom rest) := by
  obtain ⟨front, last, unfinished, _, terminated, _⟩ :=
    piecesFrom_terminated lineRoom unseparated List.not_mem_nil
  have cut : pieces lineFeed lineRoom (text ++ [lineFeed]) =
      front ++ [last ++ [lineFeed]] := terminated
  have ends : lineFeed ∈ last ++ [lineFeed] :=
    List.mem_append_right last (List.mem_singleton_self _)
  rw [named, namesIn, pieces_line unseparated, cut, List.append_assoc,
    List.singleton_append, found_append unfinished, List.map_append,
    List.filterMap_append, List.append_assoc, found, lineAfter, if_pos ends,
    List.map_singleton, List.filterMap_cons]
  cases lookUp environ line (chomp (last ++ [lineFeed])) <;> rfl

/-- A line feed alone names nothing. -/
theorem found_last
    (front : List (List UInt8))
    (line : Nat)
    {last : List UInt8}
    (unfinished : lineFeed ∉ last) :
    found environ line (front ++ if last.isEmpty then [] else [last]) =
      found environ line (front ++ [last ++ [lineFeed]]) := by
  induction front generalizing line with
  | nil =>
      rw [List.nil_append, List.nil_append]
      split
      · rename_i empty
        rw [List.isEmpty_iff.mp empty]
        rfl
      · have whole : chomp last = stringAt last := by
          have unended := chomp_line unfinished (Or.inl rfl)
          rwa [List.append_nil] at unended
        change (lookUp environ line (chomp last)).toList ++ [] =
          (lookUp environ line (chomp (last ++ [lineFeed]))).toList ++ []
        rw [whole, chomp_line unfinished (Or.inr rfl)]
  | cons piece front inductionHypothesis =>
      rw [List.cons_append, List.cons_append, found, found,
        inductionHypothesis]

/-- The file is read line by line, however its lines are cut. -/
theorem found_pieces (content : List UInt8) :
    found environ 0 (pieces lineFeed lineRoom content) =
      namedByLines environ 0 (textLines lineFeed content) := by
  rw [read_textLines (found environ 0)
    fun front _ unfinished => found_last front 0 unfinished]
  have unseparated : ∀ text ∈ textLines lineFeed content, lineFeed ∉ text :=
    fun _ => unseparated_of_mem_textLines
  generalize textLines lineFeed content = texts at unseparated
  generalize 0 = line
  induction texts generalizing line with
  | nil => rfl
  | cons text texts inductionHypothesis =>
      rw [List.forall_mem_cons] at unseparated
      rw [unlines_cons, found_line unseparated.1,
        inductionHypothesis unseparated.2, namedByLines]

/-- A line that fits is looked up as it stands. -/
theorem named_of_fits
    {text : List UInt8}
    (unseparated : lineFeed ∉ text)
    (fits : text.length ≤ lineRoom)
    (noZero : (0 : UInt8) ∉ text)
    (line : Nat) :
    named environ line text = (lookUp environ line text).toList := by
  have wholeText : chomp text = text := by
    have unended := chomp_line unseparated (Or.inl rfl)
    rwa [List.append_nil, stringAt_of_noZero noZero] at unended
  have wholeLine : chomp (text ++ [lineFeed]) = text := by
    rw [chomp_line unseparated (Or.inr rfl), stringAt_of_noZero noZero]
  unfold named namesIn
  by_cases short : text.length < lineRoom
  · rw [pieces_short unseparated short, List.map_singleton, wholeLine,
      List.filterMap_cons]
    cases lookUp environ line text <;> rfl
  · have long : lineRoom ≤ text.length := Nat.le_of_not_lt short
    have rest : pieces lineFeed lineRoom [lineFeed] = [[lineFeed]] := rfl
    rw [pieces_long unseparated (by decide) long,
      List.take_of_length_le fits, List.drop_of_length_le fits,
      List.nil_append, rest, List.map_cons, wholeText, List.filterMap_cons]
    cases lookUp environ line text <;> rfl

/-- A name that a piece gives is shorter than the buffer and has no zero. -/
theorem short_of_mem_namesIn
    {text name : List UInt8}
    (member : name ∈ namesIn text) :
    name.length ≤ lineRoom ∧ (0 : UInt8) ∉ name := by
  obtain ⟨piece, isPiece, rfl⟩ := List.mem_map.mp member
  constructor
  · apply Nat.le_trans (List.takeWhile_prefix _).length_le
    exact length_le_of_mem_piecesFrom (by decide) isPiece
  · intro zero
    have passes := List.mem_takeWhile_imp zero
    cases passes

/-- A shorter name gives the string of a line only if the line goes on with `=`
behind it. -/
theorem eq_of_same_text
    {name text value' value : List UInt8}
    (shorter : ¬text <+: name)
    (same : name ++ [equals] ++ value' = text ++ [equals] ++ value) :
    ∃ more, text = name ++ [equals] ++ more ∧
      value' = more ++ [equals] ++ value := by
  rw [List.append_assoc, List.append_assoc] at same
  rcases List.append_eq_append_iff.mp same with
    ⟨rest, textEq, restEq⟩ | ⟨rest, nameEq, -⟩
  · cases rest with
    | nil => exact absurd ⟨[], by simpa using textEq⟩ shorter
    | cons first more =>
        obtain ⟨rfl, rfl⟩ := List.cons.inj restEq
        exact ⟨more, by simp [textEq], by simp⟩
  · exact absurd ⟨rest, nameEq.symm⟩ shorter

/-- Just one entry of a list is turned into something. -/
theorem filterMap_eq_singleton_iff
    {Entry Found : Type}
    {look : Entry → Option Found}
    {entries : List Entry}
    {found : Found} :
    entries.filterMap look = [found] ↔
      ∃ front entry back, entries = front ++ entry :: back ∧
        (∀ other ∈ front ++ back, look other = none) ∧
        look entry = some found := by
  simp only [List.filterMap_eq_cons_iff, List.filterMap_eq_nil_iff,
    List.forall_mem_append]
  constructor
  · rintro ⟨front, entry, back, cut, before, looked, behind⟩
    exact ⟨front, entry, back, cut, ⟨before, behind⟩, looked⟩
  · rintro ⟨front, entry, back, cut, ⟨before, behind⟩, looked⟩
    exact ⟨front, entry, back, cut, before, looked, behind⟩

/-- What a line is looked up as gives the string of the line exactly if the line
is legible. -/
theorem named_entries_iff
    {text : List UInt8}
    (unseparated : lineFeed ∉ text)
    (line : Nat) :
    (named environ line text).map Variable.entry =
        (lookUp environ line text).toList.map Variable.entry ↔
      Legible environ text := by
  have unset : ∀ name, lookUp environ line name = none ↔
      getenv environ name = none :=
    fun _ => Option.map_eq_none_iff
  by_cases whole : text.length ≤ lineRoom ∧ (0 : UInt8) ∉ text
  · rw [named_of_fits unseparated whole.1 whole.2]
    exact iff_of_true rfl (.inl whole)
  unfold Legible
  rw [or_iff_right whole]
  cases isSet : getenv environ text with
  | none =>
      rw [(unset text).mpr isSet, Option.toList_none, List.map_nil,
        List.map_eq_nil_iff, named, List.filterMap_eq_nil_iff]
      simp only [unset, List.forall_mem_cons, isSet, true_and, reduceCtorEq,
        false_and, and_false, exists_false, or_false]
  | some value =>
      have owed : lookUp environ line text = some ⟨line, text, value⟩ := by
        rw [lookUp, isSet]
        rfl
      rw [owed, Option.toList_some, List.map_singleton,
        List.map_eq_singleton_iff]
      simp only [List.forall_mem_cons, isSet, reduceCtorEq, false_and,
        false_or]
      constructor
      · rintro ⟨var, only, same⟩
        obtain ⟨front, name, back, cut, others, looked⟩ :=
          filterMap_eq_singleton_iff.mp only
        obtain ⟨value', found, rfl⟩ := Option.map_eq_some_iff.mp looked
        have shorter : ¬text <+: name := by
          intro isPrefix
          have listed : name ∈ namesIn text := by
            rw [cut]
            exact List.mem_append_right _ List.mem_cons_self
          obtain ⟨short, noZero⟩ := short_of_mem_namesIn listed
          exact whole ⟨isPrefix.length_le.trans short,
            fun zero => noZero (isPrefix.subset zero)⟩
        obtain ⟨more, textEq, rfl⟩ :=
          eq_of_same_text shorter (Prod.mk.inj same).2
        exact ⟨front, name, back, more, value, cut,
          fun other member => (unset other).mp (others other member), textEq,
          rfl, found⟩
      · rintro ⟨front, name, back, more, value', cut, others, textEq, same,
          found⟩
        cases same
        have looked : lookUp environ line name =
            some ⟨line, name, more ++ [equals] ++ value⟩ := by
          rw [lookUp, found]
          rfl
        refine ⟨⟨line, name, more ++ [equals] ++ value⟩, ?_, ?_⟩
        · exact filterMap_eq_singleton_iff.mpr ⟨front, name, back, cut,
            fun other member => (unset other).mpr (others other member), looked⟩
        · rw [Variable.entry, Variable.text, Variable.entry, Variable.text,
            textEq]
          simp only [List.append_assoc]

theorem line_of_named
    {line : Nat}
    {text : List UInt8}
    {var : Variable}
    (isNamed : var ∈ named environ line text) :
    var.line = line := by
  obtain ⟨_, _, looked⟩ := List.mem_filterMap.mp isNamed
  obtain ⟨_, _, rfl⟩ := Option.map_eq_some_iff.mp looked
  rfl

/-- Lines behind a line have other numbers. -/
theorem line_lt_of_namedByLines
    {line : Nat}
    {texts : List (List UInt8)}
    {var : Variable}
    (isNamed : var ∈ namedByLines environ (line + 1) texts) :
    line < var.line := by
  induction texts generalizing line with
  | nil => cases isNamed
  | cons text texts inductionHypothesis =>
      rw [namedByLines, List.mem_append] at isNamed
      rcases isNamed with here | behind
      · rw [line_of_named here]
        exact Nat.lt_succ_self line
      · exact Nat.lt_of_succ_lt (inductionHypothesis behind)

theorem line_lt_of_setVariables
    {line : Nat}
    {texts : List (List UInt8)}
    {var : Variable}
    (isSet : var ∈ setVariables environ (line + 1) texts) :
    line < var.line := by
  induction texts generalizing line with
  | nil => cases isSet
  | cons text texts inductionHypothesis =>
      rw [setVariables, List.mem_append, Option.mem_toList] at isSet
      rcases isSet with here | behind
      · obtain ⟨_, _, rfl⟩ := Option.map_eq_some_iff.mp here
        exact Nat.lt_succ_self line
      · exact Nat.lt_of_succ_lt (inductionHypothesis behind)

/-- The line numbers tell what one line gives from what later lines give. -/
theorem append_eq_append_iff_of_line
    {line : Nat}
    {front otherFront back otherBack : List (Nat × List UInt8)}
    (here : ∀ entry ∈ front, entry.1 = line)
    (otherHere : ∀ entry ∈ otherFront, entry.1 = line)
    (behind : ∀ entry ∈ back, line < entry.1)
    (otherBehind : ∀ entry ∈ otherBack, line < entry.1) :
    front ++ back = otherFront ++ otherBack ↔
      front = otherFront ∧ back = otherBack := by
  have keeps : ∀ {entries others : List (Nat × List UInt8)},
      (∀ entry ∈ entries, entry.1 = line) →
      (∀ entry ∈ others, line < entry.1) →
      (entries ++ others).filter (fun entry => entry.1 = line) = entries := by
    intro entries others now later
    rw [List.filter_append, List.filter_eq_self.mpr, List.filter_eq_nil_iff.mpr,
      List.append_nil]
    · intro entry member same
      exact (later entry member).ne' (of_decide_eq_true same)
    · intro entry member
      exact decide_eq_true (now entry member)
  constructor
  · intro same
    have sameFront : front = otherFront := by
      rw [← keeps here behind, same, keeps otherHere otherBehind]
    rw [sameFront, List.append_cancel_left_eq] at same
    exact ⟨sameFront, same⟩
  · rintro ⟨rfl, rfl⟩
    rfl

/-- The pieces give what the lines give exactly if every line is legible. -/
theorem namedByLines_entries_iff
    {texts : List (List UInt8)}
    (unseparated : ∀ text ∈ texts, lineFeed ∉ text)
    (line : Nat) :
    (namedByLines environ line texts).map Variable.entry =
        (setVariables environ line texts).map Variable.entry ↔
      ∀ text ∈ texts, Legible environ text := by
  induction texts generalizing line with
  | nil => exact ⟨fun _ _ member => (nomatch member), fun _ => rfl⟩
  | cons text texts inductionHypothesis =>
      rw [List.forall_mem_cons] at unseparated
      have here : ∀ entry ∈ (lookUp environ line text).toList.map
          Variable.entry, entry.1 = line := by
        rw [List.forall_mem_map]
        intro var isSet
        obtain ⟨_, _, rfl⟩ :=
          Option.map_eq_some_iff.mp (Option.mem_toList.mp isSet)
        rfl
      rw [namedByLines, setVariables, List.map_append, List.map_append,
        append_eq_append_iff_of_line
          (List.forall_mem_map.mpr fun _ => line_of_named) here
          (List.forall_mem_map.mpr fun _ => line_lt_of_namedByLines)
          (List.forall_mem_map.mpr fun _ => line_lt_of_setVariables),
        named_entries_iff unseparated.1, inductionHypothesis unseparated.2,
        List.forall_mem_cons]

end Lines

/-! ## What the array holds -/

/-- The terminator goes behind the last entry. -/
theorem Reading.Sound.terminate
    {reading : Reading}
    (sound : reading.Sound) :
    reading.terminate.newEnv reading.stored.length = none ∧
      reading.terminate.writes = List.range (reading.stored.length + 1) ∧
      ∀ index var, reading.stored[index]? = some var →
        reading.terminate.newEnv index = some var.text := by
  refine ⟨?_, ?_, ?_⟩
  · change Function.update reading.newEnv reading.count none _ = none
    rw [← sound.count, Function.update_self]
  · change reading.writes ++ [reading.count] = _
    rw [sound.writes, sound.count, List.range_succ]
  · intro index var present
    obtain ⟨inside, _⟩ := List.getElem?_eq_some_iff.mp present
    have before : index ≠ reading.count := by
      rw [sound.count]
      exact Nat.ne_of_lt inside
    change Function.update reading.newEnv reading.count none index = _
    rw [Function.update_of_ne before]
    exact sound.slots index var present

/-- What `read_env_file` leaves behind: the first variables that the pieces
name, and a `NULL` behind them. -/
theorem readEnvFile_spec
    (environ : Environment)
    (content : List UInt8)
    (newEnv : Nat → Option (List UInt8))
    (maxVars : Nat) :
    ∃ reading, readEnvFile environ (some content) newEnv maxVars =
        some reading ∧
      reading.stored =
        (namedByLines environ 0 (textLines lineFeed content)).take maxVars ∧
      reading.newEnv reading.stored.length = none ∧
      reading.writes = List.range (reading.stored.length + 1) ∧
      ∀ index var, reading.stored[index]? = some var →
        reading.newEnv index = some var.text := by
  have start : (⟨newEnv, 0, [], []⟩ : Reading).Sound :=
    ⟨rfl, rfl, fun _ _ present => (nomatch present)⟩
  have stored : (readLoop environ maxVars 0 ⟨newEnv, 0, [], []⟩
      (pieces lineFeed lineRoom content)).stored =
        (namedByLines environ 0 (textLines lineFeed content)).take maxVars := by
    rw [stored_readLoop start (Nat.zero_le maxVars), List.nil_append,
      found_pieces]
  have sound : (readLoop environ maxVars 0 ⟨newEnv, 0, [], []⟩
      (pieces lineFeed lineRoom content)).Sound := sound_readLoop start 0 _
  exact ⟨_, rfl, stored, sound.terminate⟩

/-- The file is stored as it should be exactly if a slot is left for the
terminator and every line is legible. -/
theorem storesSetVariables_iff
    (environ : Environment)
    (content : List UInt8)
    (newEnv : Nat → Option (List UInt8))
    (maxVars : Nat) :
    (∃ reading, readEnvFile environ (some content) newEnv maxVars =
        some reading ∧
      StoresSetVariables environ content maxVars reading) ↔
      (setVariables environ 0 (textLines lineFeed content)).length < maxVars ∧
        ∀ text ∈ textLines lineFeed content, Legible environ text := by
  have unseparated : ∀ text ∈ textLines lineFeed content, lineFeed ∉ text :=
    fun _ => unseparated_of_mem_textLines
  rw [← namedByLines_entries_iff unseparated 0]
  obtain ⟨reading, reads, stored, terminated, writes, slots⟩ :=
    readEnvFile_spec environ content newEnv maxVars
  constructor
  · rintro ⟨other, otherReads, stores⟩
    obtain rfl : reading = other :=
      Option.some.inj (reads.symm.trans otherReads)
    have few : reading.stored.length < maxVars := by
      apply stores.inside
      rw [writes]
      exact List.mem_range.mpr (Nat.lt_succ_self _)
    have whole : ∀ vars : List Variable,
        reading.stored.map Variable.entry =
          (vars.take maxVars).map Variable.entry →
        reading.stored.map Variable.entry = vars.map Variable.entry ∧
          vars.length < maxVars := by
      intro vars taken
      have lengths := congrArg List.length taken
      rw [List.length_map, List.length_map, List.length_take] at lengths
      rw [taken, List.take_of_length_le (by omega)]
      exact ⟨rfl, by omega⟩
    have namedAll := (whole _ (congrArg _ stored)).1
    obtain ⟨setAll, fewSet⟩ := whole _ stores.stored
    exact ⟨fewSet, namedAll.symm.trans setAll⟩
  · rintro ⟨few, agree⟩
    have lengths := congrArg List.length agree
    rw [List.length_map, List.length_map] at lengths
    have all : reading.stored =
        namedByLines environ 0 (textLines lineFeed content) := by
      rw [stored, List.take_of_length_le (by omega)]
    refine ⟨reading, reads, ?_, slots, terminated, ?_⟩
    · rw [all, agree, List.take_of_length_le (Nat.le_of_lt few)]
    · intro index written
      rw [writes, List.mem_range, all] at written
      omega

/-- As many lines as `new_env` has slots, each with the name of a variable. -/
def fullFile : List UInt8 :=
  (List.replicate newEnvSlots (ascii "A\n")).flatten

/-- A file that fills the array has its terminator written behind it. -/
theorem fullFile_overruns :
    ¬∃ reading,
      readEnvFile [⟨ascii "A=B", by decide⟩] (some fullFile) (fun _ => none)
          newEnvSlots = some reading ∧
        StoresSetVariables [⟨ascii "A=B", by decide⟩] fullFile newEnvSlots
          reading := by
  rintro ⟨reading, reads, stores⟩
  have overrun : ((readEnvFile [⟨ascii "A=B", by decide⟩] (some fullFile)
      (fun _ => none) newEnvSlots).map fun reading =>
        decide (newEnvSlots ∈ reading.writes)) = some true := by
    decide +kernel
  rw [reads] at overrun
  have written : newEnvSlots ∈ reading.writes :=
    of_decide_eq_true (Option.some.inj overrun)
  exact Nat.lt_irrefl _ (stores.inside newEnvSlots written)

end ChildEnvironment
end OSaSP
