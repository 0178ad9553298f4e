import OSaSP.Foundations.BoundedReader
import OSaSP.Foundations.Strtol
import OSaSP.RecordEditor.Editors

/-!
# The three questions of `do_get`

`do_get` asks for the device name, the location and the inventory number.  All
three loops read from the same input through a buffer of just `ADDR_LEN` bytes,
so what a prompt reads is a piece of a line when the line does not fit.

The replies are logged with the field that was asked for and the number of the
line that was read.
-/

namespace OSaSP
namespace RecordEditor

open BoundedReader CString LineReader

/-- The bytes that fit into `buf`. -/
def bufRoom : Nat := addrLen - 1

/-- What `do_get` asks for. -/
inductive Field
  | deviceName
  | location
  | inventoryNumber
  deriving DecidableEq

/-- What is printed before a prompt is repeated. -/
def Field.invalid : Field → List UInt8
  | .deviceName => ascii "Invalid name length.\n"
  | .location => ascii "Invalid location length.\n"
  | .inventoryNumber => ascii "Invalid inventory number.\n"

/-- What becomes of an input: the field is kept, it is set, or the prompt is
repeated. -/
inductive Reply
  | kept
  | text (buf : List UInt8)
  | number (value : UInt32)
  | rejected (message : List UInt8)
  deriving DecidableEq

/-- The prompt is repeated. -/
def Reply.asksAgain : Reply → Bool
  | .rejected _ => true
  | _ => false

/-- The loop body for a text field of `limit` bytes. -/
def textReply (field : Field) (limit : Nat) (buf : List UInt8) : Reply :=
  if buf.head? = some lineFeed then .kept
  else if 0 < (chomp buf).length ∧ (chomp buf).length < limit then
    .text (chomp buf)
  else .rejected field.invalid

/-- The test behind `strtol`. -/
def acceptsNumber (buf : List UInt8) : Bool :=
  ((strtol (stringAt buf)).2.head? = some lineFeed ||
      (strtol (stringAt buf)).2.isEmpty) &&
    decide (0 < (strtol (stringAt buf)).1)

/-- The loop body for the inventory number, with the cast to `uint32_t`. -/
def numberReply (buf : List UInt8) : Reply :=
  if buf.head? = some lineFeed then .kept
  else if acceptsNumber buf then
    .number (UInt32.ofInt (strtol (stringAt buf)).1)
  else .rejected Field.inventoryNumber.invalid

/-- The three loop bodies. -/
def Field.reply : Field → List UInt8 → Reply
  | .deviceName => textReply .deviceName nameLen
  | .location => textReply .location addrLen
  | .inventoryNumber => numberReply

/-- A reply to a prompt, with the number of the line it was taken from. -/
structure Entry where
  line : Nat
  field : Field
  reply : Reply
  deriving DecidableEq

/-- The loops for the fields still to be asked for, on what successive calls of
`fgets` read; at the end of the input `do_get` returns. -/
def ask
    (fields : List Field)
    (line : Nat)
    (reads : List (List UInt8)) : List Entry :=
  match reads, fields with
  | [], _ => []
  | _ :: _, [] => []
  | buf :: reads, field :: fields =>
      ⟨line, field, field.reply buf⟩ ::
        ask (if (field.reply buf).asksAgain then field :: fields else fields)
          (if lineFeed ∈ buf then line + 1 else line) reads

/-- The fields in the order of `do_get`. -/
def fields : List Field := [.deviceName, .location, .inventoryNumber]

/-- The replies that `do_get` takes from its input. -/
def replies (input : List UInt8) : List Entry :=
  ask fields 0 (pieces lineFeed bufRoom input)

/-- What the user answered. -/
def answers (log : List Entry) : Answers where
  deviceName := log.findSome? fun entry =>
    match entry.field, entry.reply with
    | .deviceName, .text buf => some buf
    | _, _ => none
  location := log.findSome? fun entry =>
    match entry.field, entry.reply with
    | .location, .text buf => some buf
    | _, _ => none
  inventoryNumber := log.findSome? fun entry =>
    match entry.field, entry.reply with
    | .inventoryNumber, .number value => some value
    | _, _ => none

/-- `do_get` with what the user types behind the record number. -/
def doGetFrom
    (editor : Editor)
    (recNo : Nat)
    (fetched : RecordT)
    (input : List UInt8) : Editor :=
  doGet editor recNo fetched (answers (replies input))

/-- The whole of `do_get` is one action among those of the editors. -/
theorem advance_doGetFrom
    {state : State}
    {editor : Editor}
    {recNo : Nat}
    (atPrompt : editor.place = .prompt)
    (inside : recNo < state.recordCount)
    (id : Nat)
    (fetched : RecordT)
    (input : List UInt8) :
    advance state id editor (.get recNo fetched (answers (replies input))) =
      some (doGetFrom editor recNo fetched input, state.file) :=
  if_pos ⟨atPrompt, inside⟩

/-! ## What the lines ask for -/

/-- What a whole line means at a prompt: an empty line keeps the field, a line
of `NAME_LEN` characters or more is rejected. -/
def Field.wanted (field : Field) (text : List UInt8) : Reply :=
  if nameLen ≤ text.length then .rejected field.invalid
  else if text.isEmpty then .kept
  else
    match field with
    | .inventoryNumber => numberReply (text ++ [lineFeed])
    | _ => .text text

/-- Every line answers one prompt, and a rejected line is followed by the same
prompt. -/
def wanted
    (fields : List Field)
    (line : Nat)
    (texts : List (List UInt8)) : List Entry :=
  match texts, fields with
  | [], _ => []
  | _ :: _, [] => []
  | text :: texts, field :: fields =>
      ⟨line, field, field.wanted text⟩ ::
        wanted
          (if (field.wanted text).asksAgain then field :: fields else fields)
          (line + 1) texts

/-- A line that fits into `buf` with its line feed and has no zeros. -/
def TextFits (text : List UInt8) : Prop :=
  text.length < bufRoom ∧ (0 : UInt8) ∉ text

/-- The lines up to the first one that is empty or accepted as a number fit;
that one may do without room for its line feed. -/
def NumbersFit : List (List UInt8) → Prop
  | [] => True
  | text :: texts =>
      if (numberReply (text ++ [lineFeed])).asksAgain then
        text.length < bufRoom ∧ NumbersFit texts
      else text.length ≤ bufRoom

/-- The first two lines fit, and those for the inventory number. -/
def LinesFit : List (List UInt8) → Prop
  | [] => True
  | [name] => TextFits name
  | name :: location :: numbers =>
      TextFits name ∧ TextFits location ∧ NumbersFit numbers

example :
    replies (ascii "lamp\n\n17\n") =
      [⟨0, .deviceName, .text (ascii "lamp")⟩, ⟨1, .location, .kept⟩,
        ⟨2, .inventoryNumber, .number 17⟩] := by
  decide

/-! ## What a prompt reads -/

section Reading

variable {text : List UInt8} {field : Field} {later : List Field} {line : Nat}

/-- With no prompt left nothing is read. -/
theorem ask_nil (line : Nat) (reads : List (List UInt8)) :
    ask [] line reads = [] := by
  cases reads <;> rfl

theorem wanted_nil (line : Nat) (texts : List (List UInt8)) :
    wanted [] line texts = [] := by
  cases texts <;> rfl

/-- A line that fits is read whole. -/
theorem ask_line
    (unseparated : lineFeed ∉ text)
    (fits : text.length < bufRoom)
    (rest : List UInt8) :
    ask (field :: later) line
        (pieces lineFeed bufRoom (text ++ lineFeed :: rest)) =
      ⟨line, field, field.reply (text ++ [lineFeed])⟩ ::
        ask
          (if (field.reply (text ++ [lineFeed])).asksAgain then field :: later
            else later)
          (line + 1) (pieces lineFeed bufRoom rest) := by
  have ends : lineFeed ∈ text ++ [lineFeed] :=
    List.mem_append_right text (List.mem_singleton.mpr rfl)
  rw [pieces_line unseparated, pieces_short unseparated fits,
    List.singleton_append, ask.eq_3, if_pos ends]

/-- Any other line is cut. -/
theorem ask_cut
    (unseparated : lineFeed ∉ text)
    (long : bufRoom ≤ text.length)
    (rest : List UInt8) :
    ask (field :: later) line
        (pieces lineFeed bufRoom (text ++ lineFeed :: rest)) =
      ⟨line, field, field.reply (text.take bufRoom)⟩ ::
        ask
          (if (field.reply (text.take bufRoom)).asksAgain then field :: later
            else later)
          line
          (pieces lineFeed bufRoom
            (text.drop bufRoom ++ lineFeed :: rest)) := by
  have goesOn : lineFeed ∉ text.take bufRoom :=
    fun member => unseparated (List.mem_of_mem_take member)
  rw [pieces_long unseparated (by decide) long, ask.eq_3, if_neg goesOn]

/-- While something is left the next prompt takes it from the same line. -/
theorem ask_more
    {input : List UInt8}
    (more : input ≠ []) :
    ∃ reply behind,
      ask (field :: later) line (pieces lineFeed bufRoom input) =
        ⟨line, field, reply⟩ :: behind := by
  rw [pieces_eq_cons (by decide) more, ask.eq_3]
  exact ⟨_, _, rfl⟩

/-- What is wanted of later lines has later numbers. -/
theorem line_of_mem_wanted
    {asked : List Field}
    {texts : List (List UInt8)}
    {entry : Entry}
    (member : entry ∈ wanted asked line texts) :
    line ≤ entry.line := by
  induction texts generalizing asked line with
  | nil => cases member
  | cons text texts inductionHypothesis =>
      cases asked with
      | nil => cases member
      | cons field later =>
          rw [wanted.eq_3] at member
          rcases List.mem_cons.mp member with rfl | behind
          · exact Nat.le_refl _
          · exact Nat.le_of_succ_le (inductionHypothesis behind)

/-- When the rest of a cut line is read by another prompt, the log is not the
wanted one. -/
theorem ask_ne_wanted_of_cut
    (unseparated : lineFeed ∉ text)
    (long : bufRoom ≤ text.length)
    (readsOn : (field.reply (text.take bufRoom)).asksAgain = true ∨
      later ≠ [])
    (rest : List UInt8)
    (texts : List (List UInt8)) :
    ask (field :: later) line
        (pieces lineFeed bufRoom (text ++ lineFeed :: rest)) ≠
      wanted (field :: later) line (text :: texts) := by
  obtain ⟨next, others, nextEq⟩ : ∃ next others,
      (if (field.reply (text.take bufRoom)).asksAgain then field :: later
        else later) = next :: others := by
    split
    · exact ⟨field, later, rfl⟩
    · rename_i notAgain
      exact List.exists_cons_of_ne_nil (readsOn.resolve_left notAgain)
  have more : text.drop bufRoom ++ lineFeed :: rest ≠ [] := by simp
  obtain ⟨reply, behind, second⟩ :
      ∃ reply behind, ask (next :: others) line
          (pieces lineFeed bufRoom (text.drop bufRoom ++ lineFeed :: rest)) =
        ⟨line, next, reply⟩ :: behind := ask_more more
  rw [ask_cut unseparated long, nextEq, second, wanted.eq_3]
  intro same
  have member : (⟨line, next, reply⟩ : Entry) ∈
      wanted
        (if (field.wanted text).asksAgain then field :: later else later)
        (line + 1) texts := by
    rw [← (List.cons.inj same).2]
    exact List.mem_cons_self
  exact absurd (line_of_mem_wanted member) (Nat.not_succ_le_self line)

end Reading

/-! ## The inventory number -/

section Numbers

variable {text : List UInt8} {line : Nat}

/-- A line feed behind the text makes no difference to the test. -/
theorem strtol_stringAt_lineFeed (text : List UInt8) :
    (strtol (stringAt (text ++ [lineFeed]))).1 = (strtol (stringAt text)).1 ∧
      acceptsNumber (text ++ [lineFeed]) = acceptsNumber text := by
  by_cases zero : (0 : UInt8) ∈ text
  · rw [acceptsNumber, acceptsNumber, stringAt_append_of_zero zero]
    exact ⟨rfl, rfl⟩
  · have noZero : (0 : UInt8) ∉ text ++ [lineFeed] := by
      rw [List.mem_append, not_or]
      exact ⟨zero, by decide⟩
    rw [acceptsNumber, acceptsNumber, stringAt_of_noZero noZero,
      stringAt_of_noZero zero, strtol_lineFeed]
    refine ⟨rfl, ?_⟩
    cases (strtol text).2 <;> simp

/-- A line is judged alike with and without its line feed. -/
theorem numberReply_lineFeed
    (unseparated : lineFeed ∉ text)
    (started : text ≠ []) :
    numberReply (text ++ [lineFeed]) = numberReply text := by
  obtain ⟨first, rest, rfl⟩ := List.exists_cons_of_ne_nil started
  rw [List.mem_cons, not_or] at unseparated
  obtain ⟨value, accepts⟩ := strtol_stringAt_lineFeed (first :: rest)
  have notEmpty : ¬(first :: rest).head? = some lineFeed :=
    fun same => unseparated.1 (Option.some.inj same).symm
  rw [numberReply, numberReply, value, accepts, if_neg notEmpty,
    if_neg (show ¬(first :: rest ++ [lineFeed]).head? = some lineFeed from
      notEmpty)]

/-- What is wanted of a line that is not too long. -/
theorem wanted_inventoryNumber (fits : text.length ≤ bufRoom) :
    Field.inventoryNumber.wanted text =
      numberReply (text ++ [lineFeed]) := by
  have notLong : ¬nameLen ≤ text.length := by
    unfold bufRoom addrLen at fits
    unfold nameLen
    omega
  rw [Field.wanted, if_neg notLong]
  split
  · rename_i empty
    rw [List.isEmpty_iff.mp empty]
    rfl
  · rfl

/-- What is wanted of a line that is too long. -/
theorem wanted_of_long
    (field : Field)
    (long : bufRoom < text.length) :
    field.wanted text = .rejected field.invalid :=
  if_pos long

/-- A number that fills the buffer is taken from it before its line feed is
read; a longer line is not wanted. -/
theorem ask_long_number_iff
    (unseparated : lineFeed ∉ text)
    (long : bufRoom ≤ text.length)
    (rest : List UInt8)
    (texts : List (List UInt8))
    (line : Nat) :
    ask [.inventoryNumber] line
        (pieces lineFeed bufRoom (text ++ lineFeed :: rest)) =
        wanted [.inventoryNumber] line (text :: texts) ↔
      if (numberReply (text ++ [lineFeed])).asksAgain then
        text.length < bufRoom ∧ NumbersFit texts
      else text.length ≤ bufRoom := by
  have started : text ≠ [] := by
    rintro rfl
    exact absurd long (by decide)
  cases again : (numberReply (text.take bufRoom)).asksAgain with
  | true =>
      have readsOn : (Field.inventoryNumber.reply
          (text.take bufRoom)).asksAgain = true := again
      refine iff_of_false
        (ask_ne_wanted_of_cut unseparated long (.inl readsOn) rest texts) ?_
      split
      · exact fun fit => Nat.not_lt_of_ge long fit.1
      · intro fit
        rename_i notAgain
        rw [List.take_of_length_le fit,
          ← numberReply_lineFeed unseparated started] at again
        exact notAgain again
  | false =>
      have first : ask [.inventoryNumber] line
          (pieces lineFeed bufRoom (text ++ lineFeed :: rest)) =
            [⟨line, .inventoryNumber, numberReply (text.take bufRoom)⟩] := by
        rw [ask_cut unseparated long]
        change _ :: ask (if (numberReply (text.take bufRoom)).asksAgain then
          [.inventoryNumber] else []) _ _ = _
        rw [again, if_neg Bool.false_ne_true, ask_nil]
        rfl
      rw [first, wanted.eq_3]
      by_cases whole : text.length ≤ bufRoom
      · rw [List.take_of_length_le whole,
          ← numberReply_lineFeed unseparated started] at again
        rw [List.take_of_length_le whole, wanted_inventoryNumber whole, again,
          if_neg Bool.false_ne_true, if_neg Bool.false_ne_true, wanted_nil,
          numberReply_lineFeed unseparated started]
        exact iff_of_true rfl whole
      · have longer : bufRoom < text.length := Nat.lt_of_not_le whole
        rw [wanted_of_long _ longer]
        refine iff_of_false ?_ ?_
        · intro same
          have reply := congrArg Entry.reply (List.cons.inj same).1
          change numberReply (text.take bufRoom) = .rejected _ at reply
          rw [reply] at again
          cases again
        · split
          · exact fun fit => Nat.not_lt_of_ge long fit.1
          · exact whole

/-- The last prompt does what the lines want exactly if they fit. -/
theorem ask_numbers_iff
    {texts : List (List UInt8)}
    (unseparated : ∀ text ∈ texts, lineFeed ∉ text)
    (line : Nat) :
    ask [.inventoryNumber] line
        (pieces lineFeed bufRoom (unlines lineFeed texts)) =
        wanted [.inventoryNumber] line texts ↔
      NumbersFit texts := by
  induction texts generalizing line with
  | nil => exact iff_of_true rfl trivial
  | cons text texts inductionHypothesis =>
      rw [List.forall_mem_cons] at unseparated
      rw [unlines_cons, NumbersFit]
      by_cases fits : text.length < bufRoom
      · rw [ask_line unseparated.1 fits, wanted.eq_3,
          wanted_inventoryNumber (Nat.le_of_lt fits)]
        change (_ :: ask (if (numberReply (text ++ [lineFeed])).asksAgain then
          [.inventoryNumber] else []) _ _ = _) ↔ _
        split
        · rw [List.cons.injEq, inductionHypothesis unseparated.2]
          exact ⟨fun same => ⟨fits, same.2⟩, fun fit => ⟨rfl, fit.2⟩⟩
        · refine iff_of_true ?_ (Nat.le_of_lt fits)
          rw [ask_nil, wanted_nil]
          rfl
      · have long : bufRoom ≤ text.length := Nat.le_of_not_lt fits
        exact ask_long_number_iff unseparated.1 long _ texts line

end Numbers

/-! ## The text fields -/

section Texts

variable {text : List UInt8} {field : Field} {line : Nat}

/-- Both text fields are read alike. -/
theorem reply_of_text
    (isText : field ≠ .inventoryNumber)
    (buf : List UInt8) :
    field.reply buf = textReply field nameLen buf := by
  cases field with
  | deviceName => rfl
  | location => rfl
  | inventoryNumber => exact absurd rfl isText

/-- What is wanted of a line for a text field. -/
theorem wanted_of_text
    (isText : field ≠ .inventoryNumber)
    (fits : text.length < bufRoom)
    (started : text ≠ []) :
    field.wanted text = .text text := by
  have notLong : ¬nameLen ≤ text.length := by
    unfold bufRoom addrLen at fits
    unfold nameLen
    omega
  unfold Field.wanted
  rw [if_neg notLong, if_neg (by simpa using started)]
  cases field with
  | deviceName => rfl
  | location => rfl
  | inventoryNumber => exact absurd rfl isText

/-- What becomes of a line that fits. -/
theorem textReply_line
    (unseparated : lineFeed ∉ text)
    (started : text ≠ []) :
    textReply field nameLen (text ++ [lineFeed]) =
      if 0 < (stringAt text).length ∧ (stringAt text).length < nameLen then
        .text (stringAt text)
      else .rejected field.invalid := by
  have notEmpty : ¬(text ++ [lineFeed]).head? = some lineFeed := by
    obtain ⟨first, rest, rfl⟩ := List.exists_cons_of_ne_nil started
    rw [List.mem_cons, not_or] at unseparated
    exact fun same => unseparated.1 (Option.some.inj same).symm
  rw [textReply, if_neg notEmpty, chomp_line unseparated (.inr rfl)]

/-- A line that fits gets the reply it wants, and the next prompt follows. -/
theorem reply_of_textFits
    (isText : field ≠ .inventoryNumber)
    (unseparated : lineFeed ∉ text)
    (fits : TextFits text) :
    field.reply (text ++ [lineFeed]) = field.wanted text ∧
      (field.wanted text).asksAgain = false := by
  rw [reply_of_text isText]
  by_cases started : text = []
  · rw [started]
    exact ⟨rfl, rfl⟩
  · obtain ⟨short, noZero⟩ := fits
    have inside : 0 < text.length ∧ text.length < nameLen := by
      unfold bufRoom addrLen at short
      unfold nameLen
      exact ⟨List.length_pos_of_ne_nil started, by omega⟩
    rw [textReply_line unseparated started, stringAt_of_noZero noZero,
      if_pos inside, wanted_of_text isText short started]
    exact ⟨rfl, rfl⟩

/-- A line with a zero does not become the field. -/
theorem reply_ne_of_zero
    (isText : field ≠ .inventoryNumber)
    (unseparated : lineFeed ∉ text)
    (fits : text.length < bufRoom)
    (zero : (0 : UInt8) ∈ text) :
    field.reply (text ++ [lineFeed]) ≠ field.wanted text := by
  have started : text ≠ [] := List.ne_nil_of_mem zero
  rw [reply_of_text isText, textReply_line unseparated started,
    wanted_of_text isText fits started]
  split
  · intro same
    rw [← Reply.text.inj same] at zero
    exact zero_not_mem_stringAt text zero
  · exact Reply.noConfusion

/-- A text prompt does what its line wants exactly if the line fits. -/
theorem ask_text_iff
    (isText : field ≠ .inventoryNumber)
    (unseparated : lineFeed ∉ text)
    {later : List Field}
    (others : later ≠ [])
    (rest : List UInt8)
    (texts : List (List UInt8)) :
    ask (field :: later) line
        (pieces lineFeed bufRoom (text ++ lineFeed :: rest)) =
        wanted (field :: later) line (text :: texts) ↔
      TextFits text ∧
        ask later (line + 1) (pieces lineFeed bufRoom rest) =
          wanted later (line + 1) texts := by
  by_cases short : text.length < bufRoom
  · by_cases zero : (0 : UInt8) ∈ text
    · refine iff_of_false ?_ fun fit => fit.1.2 zero
      rw [ask_line unseparated short, wanted.eq_3]
      intro same
      exact reply_ne_of_zero isText unseparated short zero
        (congrArg Entry.reply (List.cons.inj same).1)
    · have fits : TextFits text := ⟨short, zero⟩
      obtain ⟨reply, goesOn⟩ := reply_of_textFits isText unseparated fits
      rw [ask_line unseparated short, wanted.eq_3, reply, goesOn,
        if_neg Bool.false_ne_true, List.cons.injEq, and_iff_right rfl,
        and_iff_right fits]
  · exact iff_of_false
      (ask_ne_wanted_of_cut unseparated (Nat.le_of_not_lt short)
        (.inr others) rest texts)
      fun fit => short fit.1.1

end Texts

/-- A line that the user types. -/
abbrev TypedLine := { text : List UInt8 // lineFeed ∉ text }

/-- For every list of lines: every prompt of `do_get` is answered by lines of
its own, as they want it, exactly if the lines fit. -/
theorem replies_eq_wanted_iff (lines : List TypedLine) :
    replies (unlines lineFeed (lines.map Subtype.val)) =
        wanted fields 0 (lines.map Subtype.val) ↔
      LinesFit (lines.map Subtype.val) := by
  have nameIsText : Field.deviceName ≠ .inventoryNumber := by decide
  have locationIsText : Field.location ≠ .inventoryNumber := by decide
  match lines with
  | [] => exact iff_of_true rfl trivial
  | [name] =>
      rw [replies, List.map_singleton, unlines_cons]
      apply (ask_text_iff nameIsText name.property (by decide) _ []).trans
      exact and_iff_left rfl
  | name :: location :: numbers =>
      rw [replies, List.map_cons, List.map_cons, unlines_cons, unlines_cons]
      apply (ask_text_iff nameIsText name.property (by decide) _ _).trans
      apply and_congr_right
      intro _
      apply (ask_text_iff locationIsText location.property (by decide) _
        _).trans
      apply and_congr_right
      intro _
      apply ask_numbers_iff
      intro text member
      obtain ⟨number, _, rfl⟩ := List.mem_map.mp member
      exact number.property

/-- A line of 80 letters fills two fields. -/
theorem replies_long_line :
    replies (unlines lineFeed [List.replicate 80 97, ascii "lamp"]) =
        [⟨0, .deviceName, .text (List.replicate 79 97)⟩,
          ⟨0, .location, .text [97]⟩,
          ⟨1, .inventoryNumber,
            .rejected Field.inventoryNumber.invalid⟩] ∧
      wanted fields 0 [List.replicate 80 97, ascii "lamp"] =
        [⟨0, .deviceName, .rejected Field.deviceName.invalid⟩,
          ⟨1, .deviceName, .text (ascii "lamp")⟩] := by
  decide +kernel

end RecordEditor
end OSaSP
