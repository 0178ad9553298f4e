import OSaSP.Foundations.CString
import OSaSP.Foundations.Machine
import OSaSP.Foundations.Pool
import OSaSP.Foundations.Segment

/-!
# Editors of one data file

Any number of editor processes work on one file of fixed-size records.  `do_get`
fetches a record without a lock and takes the user's answers.  `do_put` locks
the record, reads it again, compares it byte by byte with what was fetched and
writes the edited record if nothing changed in between; after a conflict it
starts over.  Each call of the system in `do_put` is one action of its process
and may fail.

A write lock of another process makes `F_OFD_SETLKW` wait: the action is not
enabled.  Since `do_get` reads while others may write, it may fetch anything.
-/

namespace OSaSP
namespace RecordEditor

open CString Segment

/-- `NAME_LEN`. -/
def nameLen : Nat := 80

/-- `ADDR_LEN`. -/
def addrLen : Nat := 80

/-- `sizeof(record_t)`: the device name, the location and a 32-bit inventory
number, without padding. -/
def recordSize : Nat := nameLen + addrLen + 4

/-- `record_t`, as its bytes. -/
structure RecordT where
  bytes : List UInt8
  length_eq : bytes.length = recordSize
  deriving DecidableEq

namespace RecordT

/-- Put bytes over a part of a record. -/
def patch (record : RecordT) (start : Nat) (field : List UInt8) : RecordT where
  bytes := record.bytes.mapIdx fun index byte =>
    if start ≤ index then field.getD (index - start) byte else byte
  length_eq := by rw [List.length_mapIdx, record.length_eq]

end RecordT

/-- The bytes of an inventory number in memory. -/
def inventoryBytes (number : UInt32) : List UInt8 :=
  [number.toUInt8, (number >>> 8).toUInt8, (number >>> 16).toUInt8,
    (number >>> 24).toUInt8]

/-- What the user answered to the three questions of `do_get`; `none` keeps the
field. -/
structure Answers where
  deviceName : Option (List UInt8)
  location : Option (List UInt8)
  inventoryNumber : Option UInt32

/-- The fetched record with the answers filled in. -/
def Answers.apply (answers : Answers) (record : RecordT) : RecordT :=
  let named := match answers.deviceName with
    | some buf => record.patch 0 (strncpy nameLen buf)
    | none => record
  let located := match answers.location with
    | some buf => named.patch nameLen (strncpy addrLen buf)
    | none => named
  match answers.inventoryNumber with
  | some number => located.patch (nameLen + addrLen) (inventoryBytes number)
  | none => located

/-- `off` of a record. -/
def offset (recNo : Nat) : Nat := recNo * recordSize

/-- The record at `off` in the file. -/
def readRecord (file : Nat → UInt8) (off : Nat) : RecordT where
  bytes := slice file off recordSize
  length_eq := length_slice file off recordSize

/-- The file after the first `count` bytes of a record were written at
`off`. -/
def writeBytes
    (file : Nat → UInt8)
    (off : Nat)
    (record : RecordT)
    (count : Nat) : Nat → UInt8 :=
  overwrite file off (record.bytes.take count)

/-- Two locked ranges have a byte in common. -/
def Overlap (left right : Nat) : Prop :=
  left < right + recordSize ∧ right < left + recordSize

instance (left right : Nat) : Decidable (Overlap left right) :=
  inferInstanceAs (Decidable (_ ∧ _))

/-- The lines that the commands print. -/
inductive Message
  | invalidInput
  | readError
  | noPendingEdits
  | noChanges
  | lockQueryError
  | waiting
  | lockError
  | rereadError
  | conflict
  | writeError
  | updated
  deriving DecidableEq

/-- Places of an editor: at its prompt or in `do_put` of some record. -/
inductive Place
  | prompt
  | query (recNo : Nat)
  | lock (recNo : Nat)
  | reread (recNo : Nat)
  | comparing (recNo : Nat) (current : RecordT)
  | unlockRetry (recNo : Nat)
  | write (recNo : Nat)
  | unlockReturn (recNo : Nat)
  | unlockUpdated (recNo : Nat)
  deriving DecidableEq

/-- The history of a call of `do_put`: `orig_rec` and `work_rec` when it was
called, what each re-read found and what it wrote. -/
structure PutTrace where
  orig : RecordT
  work : RecordT
  seen : List RecordT
  written : Option RecordT

/-- The variables of one editor, the range it has locked, what it printed, and
the history of its last call of `do_put`.  `last_rec_no` is -1 before the first
fetch. -/
structure Editor where
  orig : RecordT
  work : RecordT
  lastRecNo : Option Nat
  hasWork : Bool
  place : Place
  holds : Option Nat
  output : List Message
  trace : PutTrace

namespace Editor

/-- Print a line. -/
def say (editor : Editor) (message : Message) : Editor :=
  { editor with output := editor.output ++ [message] }

/-- Go to another place. -/
def goto (editor : Editor) (place : Place) : Editor :=
  { editor with place }

end Editor

/-- The data file and the editors working on it. -/
structure State where
  file : Nat → UInt8
  recordCount : Nat
  editors : List Editor

/-- Another process has locked part of the record. -/
def State.lockedByOther (state : State) (id recNo : Nat) : Prop :=
  ∃ other ∈ List.range state.editors.length, other ≠ id ∧
    ∃ held ∈ (state.editors[other]?).bind Editor.holds,
      Overlap held (offset recNo)

instance (state : State) (id recNo : Nat) :
    Decidable (state.lockedByOther id recNo) :=
  inferInstanceAs (Decidable (∃ other ∈ List.range state.editors.length, _))

/-- What happens at an editor: the user fetches a record or saves it, or the
next call of the system in `do_put` succeeds or fails.  A failing `write` may
have got through some bytes. -/
inductive Event
  | getInvalid
  | getFailed (torn : RecordT)
  | get (recNo : Nat) (fetched : RecordT) (answers : Answers)
  | put
  | succeed
  | fail (written : Nat)

/-- `do_get`, after the input of the record number. -/
def doGet
    (editor : Editor)
    (recNo : Nat)
    (fetched : RecordT)
    (answers : Answers) : Editor :=
  { editor with
    orig := fetched
    work := answers.apply fetched
    lastRecNo := some recNo
    hasWork := true }

/-- `do_put` up to its loop. -/
def putStart (editor : Editor) : Editor :=
  if editor.hasWork = false then editor.say .noPendingEdits
  else if editor.orig = editor.work then
    { editor.say .noChanges with hasWork := false }
  else
    match editor.lastRecNo with
    | some recNo =>
        { editor with
          place := .query recNo
          trace := ⟨editor.orig, editor.work, [], none⟩ }
    -- A range before the file: the query is refused.
    | none => editor.say .lockQueryError

/-- The comparison of the record read under the lock with `orig_rec`. -/
def compareCurrent
    (editor : Editor)
    (recNo : Nat)
    (current : RecordT) : Editor :=
  if current ≠ editor.orig then
    { editor.say .conflict with
      orig := current
      work := current
      place := .unlockRetry recNo }
  else editor.goto (.write recNo)

/-- One action of the editor `id`: its variables and the file afterwards. -/
def advance
    (state : State)
    (id : Nat)
    (editor : Editor) : Event → Option (Editor × (Nat → UInt8))
  | .getInvalid =>
      if editor.place = .prompt then
        some (editor.say .invalidInput, state.file)
      else none
  | .getFailed torn =>
      if editor.place = .prompt then
        some ({ editor.say .readError with orig := torn }, state.file)
      else none
  | .get recNo fetched answers =>
      if editor.place = .prompt ∧ recNo < state.recordCount then
        some (doGet editor recNo fetched answers, state.file)
      else none
  | .put =>
      if editor.place = .prompt then some (putStart editor, state.file)
      else none
  | .succeed =>
      match editor.place with
      | .prompt => none
      | .query recNo =>
          if state.lockedByOther id recNo then
            some ((editor.say .waiting).goto (.lock recNo), state.file)
          else some (editor.goto (.lock recNo), state.file)
      | .lock recNo =>
          if state.lockedByOther id recNo then none
          else
            some ({ editor with
              holds := some (offset recNo)
              place := .reread recNo }, state.file)
      | .reread recNo =>
          let current := readRecord state.file (offset recNo)
          some ({ editor with
            place := .comparing recNo current
            trace := { editor.trace with
              seen := editor.trace.seen ++ [current] } }, state.file)
      | .comparing recNo current =>
          some (compareCurrent editor recNo current, state.file)
      | .unlockRetry recNo =>
          some ({ editor with holds := none, place := .query recNo },
            state.file)
      | .write recNo =>
          some ({ editor with
            place := .unlockUpdated recNo
            trace := { editor.trace with written := some editor.work } },
            writeBytes state.file (offset recNo) editor.work recordSize)
      | .unlockReturn _ =>
          some ({ editor with holds := none, place := .prompt }, state.file)
      | .unlockUpdated _ =>
          some ({ editor.say .updated with
            holds := none
            hasWork := false
            place := .prompt }, state.file)
  | .fail written =>
      match editor.place with
      | .query _ =>
          some ((editor.say .lockQueryError).goto .prompt, state.file)
      | .lock _ => some ((editor.say .lockError).goto .prompt, state.file)
      | .reread recNo =>
          some ((editor.say .rereadError).goto (.unlockReturn recNo),
            state.file)
      | .write recNo =>
          if written < recordSize then
            some ((editor.say .writeError).goto (.unlockReturn recNo),
              writeBytes state.file (offset recNo) editor.work written)
          else none
      | _ => none

/-- One step of one editor. -/
structure Action where
  id : Nat
  event : Event

/-- One step of the system. -/
def step (state : State) (action : Action) : Option State :=
  (state.editors[action.id]?).bind fun editor =>
    (advance state action.id editor action.event).map fun next =>
      { state with
        file := next.2
        editors := state.editors.set action.id next.1 }

/-- A step is an action of a present editor. -/
theorem step_eq_some
    {state next : State}
    {action : Action}
    (stepped : step state action = some next) :
    ∃ editor after file, state.editors[action.id]? = some editor ∧
      advance state action.id editor action.event = some (after, file) ∧
      next = { state with
        file
        editors := state.editors.set action.id after } := by
  obtain ⟨editor, present, moved⟩ := Option.bind_eq_some_iff.mp stepped
  obtain ⟨⟨after, file⟩, advanced, nextEq⟩ := Option.map_eq_some_iff.mp moved
  exact ⟨editor, after, file, present, advanced, nextEq.symm⟩

/-! ## What an action can do -/

/-- An action of an editor, with its guards, its variables afterwards and the
file afterwards. -/
inductive Moves (state : State) (id : Nat) (editor : Editor) :
    Event → Editor → (Nat → UInt8) → Prop
  | getInvalid (place : editor.place = .prompt) :
      Moves state id editor .getInvalid (editor.say .invalidInput) state.file
  | getFailed (torn : RecordT) (place : editor.place = .prompt) :
      Moves state id editor (.getFailed torn)
        { editor.say .readError with orig := torn } state.file
  | get (recNo : Nat) (fetched : RecordT) (answers : Answers)
      (place : editor.place = .prompt) (inside : recNo < state.recordCount) :
      Moves state id editor (.get recNo fetched answers)
        (doGet editor recNo fetched answers) state.file
  | put (place : editor.place = .prompt) :
      Moves state id editor .put (putStart editor) state.file
  | wait (recNo : Nat) (place : editor.place = .query recNo)
      (taken : state.lockedByOther id recNo) :
      Moves state id editor .succeed
        ((editor.say .waiting).goto (.lock recNo)) state.file
  | query (recNo : Nat) (place : editor.place = .query recNo)
      (free : ¬state.lockedByOther id recNo) :
      Moves state id editor .succeed (editor.goto (.lock recNo)) state.file
  | lock (recNo : Nat) (place : editor.place = .lock recNo)
      (free : ¬state.lockedByOther id recNo) :
      Moves state id editor .succeed
        { editor with holds := some (offset recNo), place := .reread recNo }
        state.file
  | reread (recNo : Nat) (place : editor.place = .reread recNo) :
      Moves state id editor .succeed
        { editor with
          place := .comparing recNo (readRecord state.file (offset recNo))
          trace := { editor.trace with
            seen := editor.trace.seen ++
              [readRecord state.file (offset recNo)] } }
        state.file
  | compare (recNo : Nat) (current : RecordT)
      (place : editor.place = .comparing recNo current) :
      Moves state id editor .succeed (compareCurrent editor recNo current)
        state.file
  | unlockRetry (recNo : Nat) (place : editor.place = .unlockRetry recNo) :
      Moves state id editor .succeed
        { editor with holds := none, place := .query recNo } state.file
  | write (recNo : Nat) (place : editor.place = .write recNo) :
      Moves state id editor .succeed
        { editor with
          place := .unlockUpdated recNo
          trace := { editor.trace with written := some editor.work } }
        (writeBytes state.file (offset recNo) editor.work recordSize)
  | unlockReturn (recNo : Nat) (place : editor.place = .unlockReturn recNo) :
      Moves state id editor .succeed
        { editor with holds := none, place := .prompt } state.file
  | unlockUpdated (recNo : Nat)
      (place : editor.place = .unlockUpdated recNo) :
      Moves state id editor .succeed
        { editor.say .updated with
          holds := none
          hasWork := false
          place := .prompt }
        state.file
  | queryFails (recNo written : Nat) (place : editor.place = .query recNo) :
      Moves state id editor (.fail written)
        ((editor.say .lockQueryError).goto .prompt) state.file
  | lockFails (recNo written : Nat) (place : editor.place = .lock recNo) :
      Moves state id editor (.fail written)
        ((editor.say .lockError).goto .prompt) state.file
  | rereadFails (recNo written : Nat)
      (place : editor.place = .reread recNo) :
      Moves state id editor (.fail written)
        ((editor.say .rereadError).goto (.unlockReturn recNo)) state.file
  | writeFails (recNo written : Nat) (place : editor.place = .write recNo)
      (cut : written < recordSize) :
      Moves state id editor (.fail written)
        ((editor.say .writeError).goto (.unlockReturn recNo))
        (writeBytes state.file (offset recNo) editor.work written)

/-- There are no other actions. -/
theorem moves_of_advance
    {state : State}
    {id : Nat}
    {editor next : Editor}
    {event : Event}
    {file : Nat → UInt8}
    (advanced : advance state id editor event = some (next, file)) :
    Moves state id editor event next file := by
  cases event with
  | getInvalid | getFailed | put =>
      simp only [advance] at advanced
      split at advanced <;> cases advanced
      constructor
      assumption
  | get recNo fetched answers =>
      simp only [advance] at advanced
      split at advanced <;> cases advanced
      rename_i guards
      exact .get recNo fetched answers guards.1 guards.2
  | succeed =>
      unfold advance at advanced
      cases place : editor.place <;> simp only [place] at advanced
      case prompt => cases advanced
      case query recNo =>
          split at advanced <;> cases advanced
          · exact .wait recNo place ‹_›
          · exact .query recNo place ‹_›
      case lock recNo =>
          split at advanced <;> cases advanced
          exact .lock recNo place ‹_›
      case reread recNo =>
          cases advanced
          exact .reread recNo place
      case comparing recNo current =>
          cases advanced
          exact .compare recNo current place
      case unlockRetry recNo =>
          cases advanced
          exact .unlockRetry recNo place
      case write recNo =>
          cases advanced
          exact .write recNo place
      case unlockReturn recNo =>
          cases advanced
          exact .unlockReturn recNo place
      case unlockUpdated recNo =>
          cases advanced
          exact .unlockUpdated recNo place
  | fail written =>
      unfold advance at advanced
      cases place : editor.place <;> simp only [place] at advanced
      case query recNo =>
          cases advanced
          exact .queryFails recNo written place
      case lock recNo =>
          cases advanced
          exact .lockFails recNo written place
      case reread recNo =>
          cases advanced
          exact .rereadFails recNo written place
      case write recNo =>
          split at advanced <;> cases advanced
          exact .writeFails recNo written place ‹_›
      all_goals cases advanced

/-- A record of zeros, as static variables are. -/
def zeroRecord : RecordT where
  bytes := List.replicate recordSize 0
  length_eq := List.length_replicate

/-- An editor that has just been started. -/
def freshEditor : Editor where
  orig := zeroRecord
  work := zeroRecord
  lastRecNo := none
  hasWork := false
  place := .prompt
  holds := none
  output := []
  trace := ⟨zeroRecord, zeroRecord, [], none⟩

/-- So many editors on a file of so many records. -/
def editorsOn
    (count recordCount : Nat)
    (file : Nat → UInt8) : Machine State Action where
  initial state :=
    state = ⟨file, recordCount, List.replicate count freshEditor⟩
  step := step

end RecordEditor
end OSaSP
