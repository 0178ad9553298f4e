import OSaSP.RecordEditor.Editors

/-!
# Writes under the lock

An editor holds a lock exactly between the places where `do_put` takes and
releases it, ranges locked by two editors have no byte in common, and what an
editor has re-read under its lock stays on disk until it writes or unlocks.
Hence every write replaces the record that its editor has just seen.
-/

namespace OSaSP
namespace RecordEditor

open Segment

/-- The record that is locked at a place of `do_put`. -/
def Place.held : Place → Option Nat
  | .prompt | .query _ | .lock _ => none
  | .reread recNo | .comparing recNo _ | .unlockRetry recNo | .write recNo
  | .unlockReturn recNo | .unlockUpdated recNo => some recNo

/-- What an editor has checked about its record is on disk and was seen by its
last re-read. -/
def Editor.Checked (file : Nat → UInt8) (editor : Editor) : Prop :=
  match editor.place with
  | .comparing recNo current =>
      readRecord file (offset recNo) = current ∧
        editor.trace.seen.getLast? = some current
  | .write recNo =>
      readRecord file (offset recNo) = editor.orig ∧
        editor.trace.seen.getLast? = some editor.orig
  | _ => True

/-- Everything the lock discipline has to know about an action of an editor. -/
structure Advanced
    (state : State)
    (id : Nat)
    (editor next : Editor)
    (file : Nat → UInt8) : Prop where
  writes : file = state.file ∨
    ∃ recNo count, editor.place = .write recNo ∧
      file = writeBytes state.file (offset recNo) editor.work count
  held : ∀ recNo, next.place.held = some recNo →
    editor.place.held = some recNo ∨ ¬state.lockedByOther id recNo
  holds : editor.holds = editor.place.held.map offset →
    next.holds = next.place.held.map offset
  checked : editor.Checked state.file → next.Checked file

section Actions

variable {state : State} {id : Nat} {editor next : Editor}
  {file : Nat → UInt8}

/-- An action that ends outside the lock. -/
theorem Advanced.outside
    (same : file = state.file)
    (free : next.place.held = none)
    (holds : next.holds = editor.holds ∧ editor.place.held = none ∨
      next.holds = none) :
    Advanced state id editor next file := by
  refine ⟨.inl same, ?_, ?_, ?_⟩
  · intro recNo held
    rw [free] at held
    cases held
  · intro old
    rw [free]
    rcases holds with ⟨kept, wasFree⟩ | released
    · rw [kept, old, wasFree]
    · exact released
  · intro _
    unfold Editor.Checked
    cases place : next.place <;> rw [place] at free <;> trivial

/-- What the start of `do_put` does. -/
theorem putStart_spec (atPrompt : editor.place = .prompt) :
    Advanced state id editor (putStart editor) state.file := by
  have wasFree : editor.place.held = none := by rw [atPrompt]; rfl
  unfold putStart
  split
  · exact .outside rfl wasFree (.inl ⟨rfl, wasFree⟩)
  split
  · exact .outside rfl wasFree (.inl ⟨rfl, wasFree⟩)
  split
  · exact .outside rfl rfl (.inl ⟨rfl, wasFree⟩)
  · exact .outside rfl wasFree (.inl ⟨rfl, wasFree⟩)

/-- What an action of an editor does. -/
theorem advance_spec
    {event : Event}
    (advanced : advance state id editor event = some (next, file)) :
    Advanced state id editor next file := by
  cases moves_of_advance advanced with
  | getInvalid place | getFailed torn place | get _ _ _ place =>
      have wasFree : editor.place.held = none := by rw [place]; rfl
      exact .outside rfl wasFree (.inl ⟨rfl, wasFree⟩)
  | put place => exact putStart_spec place
  | wait recNo place | query recNo place | queryFails recNo _ place
  | lockFails recNo _ place =>
      exact .outside rfl rfl (.inl ⟨rfl, by rw [place]; rfl⟩)
  | lock recNo place free =>
      constructor <;> simp [Place.held, Editor.Checked, free]
  | reread recNo place =>
      constructor <;> simp [place, Place.held, Editor.Checked]
  | compare recNo current place =>
      unfold compareCurrent
      split
      · constructor <;>
          simp [place, Place.held, Editor.say, Editor.Checked]
      · rename_i same
        rw [not_not] at same
        constructor <;>
          simp [place, Place.held, Editor.goto, Editor.Checked, same]
  | write recNo place =>
      refine ⟨.inr ⟨recNo, recordSize, place, rfl⟩, ?_, ?_, ?_⟩ <;>
        simp [place, Place.held, Editor.Checked]
  | unlockRetry | unlockReturn | unlockUpdated =>
      exact .outside rfl rfl (.inr rfl)
  | rereadFails recNo written place =>
      constructor <;>
        simp [place, Place.held, Editor.say, Editor.goto, Editor.Checked]
  | writeFails recNo written place =>
      refine ⟨.inr ⟨recNo, written, place, rfl⟩, ?_, ?_, ?_⟩ <;>
        simp [place, Place.held, Editor.say, Editor.goto, Editor.Checked]

end Actions

/-! ## The lock discipline -/

/-- Writing at one range leaves a record at a range apart alone. -/
theorem readRecord_writeBytes
    (file : Nat → UInt8)
    {off other : Nat}
    (record : RecordT)
    (count : Nat)
    (apart : ¬Overlap off other) :
    readRecord (writeBytes file off record count) other =
      readRecord file other := by
  have length : (record.bytes.take count).length ≤ recordSize := by
    rw [List.length_take, record.length_eq]
    exact Nat.min_le_right count recordSize
  unfold readRecord writeBytes
  congr 1
  apply slice_overwrite_apart
  unfold Overlap at apart
  omega

/-- Different records have ranges apart. -/
theorem not_overlap_offset
    {left right : Nat}
    (different : left ≠ right) :
    ¬Overlap (offset left) (offset right) := by
  unfold Overlap offset
  rintro ⟨leftBelow, rightBelow⟩
  rw [← Nat.succ_mul] at leftBelow rightBelow
  have := Nat.lt_of_mul_lt_mul_right leftBelow
  have := Nat.lt_of_mul_lt_mul_right rightBelow
  omega

/-- Locks are held just where `do_put` holds them, no two of them overlap, and
what was checked under a lock still stands. -/
structure Locked (state : State) : Prop where
  holds : ∀ editor ∈ state.editors,
    editor.holds = editor.place.held.map offset
  checked : ∀ editor ∈ state.editors, editor.Checked state.file
  apart : ∀ (left right : Nat) (leftEditor rightEditor : Editor)
      (leftRec rightRec : Nat),
    left ≠ right → state.editors[left]? = some leftEditor →
      state.editors[right]? = some rightEditor →
        leftEditor.place.held = some leftRec →
          rightEditor.place.held = some rightRec →
            ¬Overlap (offset leftRec) (offset rightRec)

/-- The test before a lock is granted. -/
theorem Locked.apart_of_free
    {state : State}
    (locked : Locked state)
    {id other recNo otherRec : Nat}
    {otherEditor : Editor}
    (free : ¬state.lockedByOther id recNo)
    (different : other ≠ id)
    (present : state.editors[other]? = some otherEditor)
    (held : otherEditor.place.held = some otherRec) :
    ¬Overlap (offset otherRec) (offset recNo) := by
  intro overlap
  have inside := (List.getElem?_eq_some_iff.mp present).1
  have holds := locked.holds otherEditor (List.mem_of_getElem? present)
  rw [held] at holds
  refine free ⟨other, List.mem_range.mpr inside, different, offset otherRec,
    ?_, overlap⟩
  rw [present, Option.bind_some, holds]
  rfl

theorem overlap_comm {left right : Nat} :
    Overlap left right ↔ Overlap right left := And.comm

/-- A write of one editor changes nothing that another one has checked. -/
theorem Editor.Checked.writeBytes
    {file : Nat → UInt8}
    {editor : Editor}
    {off count : Nat}
    {record : RecordT}
    (checked : editor.Checked file)
    (apart : ∀ recNo, editor.place.held = some recNo →
      ¬Overlap off (offset recNo)) :
    editor.Checked (writeBytes file off record count) := by
  unfold Editor.Checked at checked ⊢
  cases place : editor.place <;> simp only [place] at checked apart ⊢
  case comparing recNo current =>
      rw [readRecord_writeBytes file record count (apart recNo rfl)]
      exact checked
  case write recNo =>
      rw [readRecord_writeBytes file record count (apart recNo rfl)]
      exact checked

/-- A step keeps the lock discipline. -/
theorem Locked.step
    {state next : State}
    {action : Action}
    (locked : Locked state)
    (stepped : step state action = some next) :
    Locked next := by
  obtain ⟨editor, after, file, present, advanced, rfl⟩ :=
    step_eq_some stepped
  have member := List.mem_of_getElem? present
  have spec := advance_spec advanced
  constructor
  · exact Pool.forall_mem_set locked.holds
      (spec.holds (locked.holds editor member))
  · intro other otherMember
    obtain ⟨index, otherPresent⟩ := List.mem_iff_getElem?.mp otherMember
    rcases Pool.getElem?_set_cases otherPresent with
      ⟨rfl, rfl⟩ | ⟨different, wasPresent⟩
    · exact spec.checked (locked.checked editor member)
    · have checked := locked.checked other (List.mem_of_getElem? wasPresent)
      rcases spec.writes with rfl | ⟨recNo, count, writing, rfl⟩
      · exact checked
      · apply checked.writeBytes
        intro otherRec held
        exact locked.apart action.id index editor other recNo otherRec
          (Ne.symm different) present wasPresent (by rw [writing]; rfl) held
  · intro left right leftEditor rightEditor leftRec rightRec different
      leftPresent rightPresent leftHeld rightHeld
    rcases Pool.getElem?_set_cases leftPresent with
      ⟨rfl, rfl⟩ | ⟨leftOther, leftWas⟩
    · rcases Pool.getElem?_set_cases rightPresent with
        ⟨rfl, rfl⟩ | ⟨rightOther, rightWas⟩
      · exact absurd rfl different
      · rcases spec.held leftRec leftHeld with kept | free
        · exact locked.apart _ _ _ _ _ _ different present rightWas kept
            rightHeld
        · exact mt overlap_comm.mp
            (locked.apart_of_free free rightOther rightWas rightHeld)
    · rcases Pool.getElem?_set_cases rightPresent with
        ⟨rfl, rfl⟩ | ⟨rightOther, rightWas⟩
      · rcases spec.held rightRec rightHeld with kept | free
        · exact locked.apart _ _ _ _ _ _ different leftWas present leftHeld
            kept
        · exact locked.apart_of_free free leftOther leftWas leftHeld
      · exact locked.apart _ _ _ _ _ _ different leftWas rightWas leftHeld
          rightHeld

theorem locked_start
    (count recordCount : Nat)
    (file : Nat → UInt8) :
    Locked ⟨file, recordCount, List.replicate count freshEditor⟩ := by
  constructor
  · intro editor member
    rw [List.eq_of_mem_replicate member]
    rfl
  · intro editor member
    rw [List.eq_of_mem_replicate member]
    trivial
  · intro left right leftEditor rightEditor leftRec rightRec _ present _ held
    rw [List.eq_of_mem_replicate (List.mem_of_getElem? present)] at held
    cases held

theorem locked_of_reachable
    {count recordCount : Nat}
    {file : Nat → UInt8}
    {state : State}
    (reachable : (editorsOn count recordCount file).Reachable state) :
    Locked state := by
  apply Machine.ReachableUnder.invariant _ _ reachable
  · rintro state rfl
    exact locked_start count recordCount file
  · intro state action next locked _ stepped
    exact locked.step stepped

/-- A step of the editor `id` at its write, from `state` to `next`, is under
its lock and nobody else's, replaces the fetched record, which is also what the
editor has just re-read, and changes no other record. -/
structure SafeWrite
    (state next : State)
    (id : Nat)
    (editor : Editor)
    (recNo : Nat) : Prop where
  holds : editor.holds = some (offset recNo)
  alone : ∀ (other : Nat) (otherEditor : Editor) (held : Nat),
    other ≠ id → state.editors[other]? = some otherEditor →
      otherEditor.holds = some held → ¬Overlap held (offset recNo)
  replaces : readRecord state.file (offset recNo) = editor.orig
  seen : editor.trace.seen.getLast? = some editor.orig
  others : ∀ other, other ≠ recNo →
    readRecord next.file (offset other) =
      readRecord state.file (offset other)

/-- A step at the write of an editor is safe. -/
theorem Locked.safeWrite
    {state next : State}
    {action : Action}
    {editor : Editor}
    {recNo : Nat}
    (locked : Locked state)
    (stepped : RecordEditor.step state action = some next)
    (present : state.editors[action.id]? = some editor)
    (writing : editor.place = .write recNo) :
    SafeWrite state next action.id editor recNo := by
  have member := List.mem_of_getElem? present
  have held : editor.place.held = some recNo := by rw [writing]; rfl
  have checked := locked.checked editor member
  simp only [Editor.Checked, writing] at checked
  constructor
  · rw [locked.holds editor member, held]
    rfl
  · intro other otherEditor range different otherPresent otherHolds
    have kept := locked.holds otherEditor (List.mem_of_getElem? otherPresent)
    rw [otherHolds] at kept
    obtain ⟨otherRec, otherHeld, rfl⟩ := Option.map_eq_some_iff.mp kept.symm
    exact locked.apart _ _ _ _ _ _ different otherPresent present otherHeld
      held
  · exact checked.1
  · exact checked.2
  · intro other different
    obtain ⟨_, after, file, present', advanced, rfl⟩ := step_eq_some stepped
    obtain rfl := Option.some.inj (present.symm.trans present')
    rcases (advance_spec advanced).writes with rfl | ⟨_, _, writing', rfl⟩
    · rfl
    · obtain rfl := Place.write.inj (writing.symm.trans writing')
      exact readRecord_writeBytes _ _ _
        (not_overlap_offset (Ne.symm different))

/-- Only a step at a write changes the file. -/
theorem file_of_step
    {state next : State}
    {action : Action}
    {editor : Editor}
    (stepped : step state action = some next)
    (present : state.editors[action.id]? = some editor)
    (notWriting : ∀ recNo, editor.place ≠ .write recNo) :
    next.file = state.file := by
  obtain ⟨_, after, file, present', advanced, rfl⟩ := step_eq_some stepped
  obtain rfl := Option.some.inj (present.symm.trans present')
  rcases (advance_spec advanced).writes with same | ⟨recNo, _, writing, _⟩
  · exact same
  · exact absurd writing (notWriting recNo)

/-- For any number of editors and any order of their steps, with any of the
calls failing: an editor outside `do_put` holds no lock, the file changes only
at the writes of `do_put`, and each of these is safe. -/
theorem reachable_put_safe
    (count recordCount : Nat)
    (file : Nat → UInt8)
    (state : State)
    (reachable : (editorsOn count recordCount file).Reachable state) :
    (∀ editor ∈ state.editors, editor.place = .prompt →
      editor.holds = none) ∧
    ∀ (action : Action) (next : State) (editor : Editor),
      step state action = some next →
        state.editors[action.id]? = some editor →
          ((∀ recNo, editor.place ≠ .write recNo) →
            next.file = state.file) ∧
          ∀ recNo, editor.place = .write recNo →
            SafeWrite state next action.id editor recNo := by
  have locked := locked_of_reachable reachable
  constructor
  · intro editor member atPrompt
    rw [locked.holds editor member, atPrompt]
    rfl
  · intro action next editor stepped present
    exact ⟨file_of_step stepped present,
      fun recNo => locked.safeWrite stepped present⟩

/-- Answers that change only the inventory number. -/
def renumber (number : UInt32) : Answers where
  deviceName := none
  location := none
  inventoryNumber := some number

/-- Editor 0 fetches the only record of a file of zeros, gives it number 7 and
goes through `do_put` up to its write. -/
def firstWrite : List Action :=
  [⟨0, .get 0 zeroRecord (renumber 7)⟩, ⟨0, .put⟩, ⟨0, .succeed⟩,
    ⟨0, .succeed⟩, ⟨0, .succeed⟩, ⟨0, .succeed⟩]

set_option maxRecDepth 20000 in
theorem firstWrite_safe :
    ∃ state next editor,
      (editorsOn 2 1 fun _ => 0).run
          ⟨fun _ => 0, 1, List.replicate 2 freshEditor⟩ firstWrite =
        some state ∧
      step state ⟨0, .succeed⟩ = some next ∧
      state.editors[0]? = some editor ∧
      SafeWrite state next 0 editor 0 := by
  have executed : ∃ state next editor,
      (editorsOn 2 1 fun _ => 0).run
          ⟨fun _ => 0, 1, List.replicate 2 freshEditor⟩ firstWrite =
        some state ∧
      step state ⟨0, .succeed⟩ = some next ∧
      state.editors[0]? = some editor ∧ editor.place = .write 0 :=
    ⟨_, _, _, rfl, rfl, rfl, rfl⟩
  obtain ⟨state, next, editor, ran, stepped, present, writing⟩ := executed
  have safe := reachable_put_safe 2 1 (fun _ => 0) state
    (Machine.Reachable.run (.initial rfl) ran)
  exact ⟨state, next, editor, ran, stepped, present,
    (safe.2 ⟨0, .succeed⟩ next editor stepped present).2 0 writing⟩

end RecordEditor
end OSaSP
