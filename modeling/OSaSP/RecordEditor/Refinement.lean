import OSaSP.Foundations.Simulation
import OSaSP.RecordEditor.LockedWrites
import OSaSP.RecordEditor.Table

/-!
# Editors and the table of items

The abstract view of the data file is a table of items.  An editor has at most
one edit pending, and what it does to the table is to apply that edit, once and
in one step, to the item that stands there at that moment, or to give it up.
As long as no write is cut short and no fetch fails while an edit is pending,
this is all that any number of editors do to the file.
-/

namespace OSaSP
namespace RecordEditor

open CString Segment

/-! ## The table -/

/-- An edit that was typed for a record. -/
structure Pending where
  recNo : Nat
  edit : Edit

/-- The items, and the pending edit of every editor. -/
structure TableState where
  items : List Item
  pending : List (Option Pending)

/-- What an editor does to the table. -/
inductive TableAction
  | typed (id recNo : Nat) (edit : Edit)
  | commit (id : Nat)
  | giveUp (id : Nat)

/-- One step of the table. -/
def TableState.step (table : TableState) : TableAction → Option TableState
  | .typed id recNo edit =>
      some { table with
        pending := table.pending.set id (some ⟨recNo, edit⟩) }
  | .commit id =>
      ((table.pending[id]?).bind fun pending => pending).map fun pending =>
        { items := table.items.modify pending.recNo pending.edit.apply
          pending := table.pending.set id none }
  | .giveUp id =>
      some { table with pending := table.pending.set id none }

/-- A table with so many editors. -/
def tableOf (count : Nat) (items : List Item) :
    Machine TableState TableAction where
  initial table := table = ⟨items, List.replicate count none⟩
  step := TableState.step

/-- The edits that users type, as the table shows them. -/
def TableAction.typing : TableAction → List (Nat × Nat × Answers)
  | .typed id recNo edit => [(id, recNo, edit.answers)]
  | .commit _ | .giveUp _ => []

/-- The edits that users type, as the editors show them. -/
def Action.typing (action : Action) : List (Nat × Nat × Answers) :=
  match action.event with
  | .get recNo _ answers => [(action.id, recNo, answers)]
  | _ => []

/-! ## The file -/

/-- The data file of a table. -/
def fileOf (items : List Item) : List UInt8 :=
  items.flatMap fun item => item.record.bytes

/-- The file as the editors see it. -/
def fileAt (content : List UInt8) : Nat → UInt8 :=
  fun index => content.getD index 0

/-- The file holds the items at their places. -/
def Holds (file : Nat → UInt8) (items : List Item) : Prop :=
  ∀ recNo item, items[recNo]? = some item →
    readRecord file (offset recNo) = item.record

theorem length_fileOf (items : List Item) :
    (fileOf items).length = items.length * recordSize := by
  induction items with
  | nil => simp [fileOf]
  | cons item items inductionHypothesis =>
      unfold fileOf at inductionHypothesis ⊢
      rw [List.flatMap_cons, List.length_append, inductionHypothesis,
        item.record.length_eq, List.length_cons, Nat.succ_mul, Nat.add_comm]

/-- A slice of a list in memory. -/
theorem slice_fileAt
    {content : List UInt8}
    {start count : Nat}
    (inside : start + count ≤ content.length) :
    slice (fileAt content) start count = (content.drop start).take count := by
  apply List.ext_getElem
  · simp
    omega
  · intro index before after
    simp only [slice, fileAt, List.getElem_map, List.getElem_range,
      List.getElem_take, List.getElem_drop]
    exact List.getD_eq_getElem _ _ _

/-- The file of a table holds it. -/
theorem holds_fileOf (items : List Item) :
    Holds (fileAt (fileOf items)) items := by
  intro recNo item present
  obtain ⟨inside, same⟩ := List.getElem?_eq_some_iff.mp present
  have split : fileOf items =
      fileOf (items.take recNo) ++
        (item.record.bytes ++ fileOf (items.drop (recNo + 1))) := by
    have parts : items =
        items.take recNo ++ item :: items.drop (recNo + 1) := by
      rw [← same, List.getElem_cons_drop, List.take_append_drop]
    calc fileOf items
        = fileOf (items.take recNo ++ item :: items.drop (recNo + 1)) :=
          congrArg fileOf parts
      _ = _ := by simp [fileOf]
  have front : (fileOf (items.take recNo)).length = offset recNo := by
    rw [length_fileOf, List.length_take, Nat.min_eq_left (Nat.le_of_lt inside),
      offset]
  apply RecordT.ext_bytes
  have whole := congrArg List.length split
  rw [List.length_append, List.length_append, front, item.record.length_eq]
    at whole
  change slice (fileAt (fileOf items)) (offset recNo) recordSize = _
  rw [slice_fileAt (by omega), split, ← front, List.drop_left,
    List.take_left' item.record.length_eq]

/-- Writing an item at its place changes the table there. -/
theorem Holds.write
    {file : Nat → UInt8}
    {items : List Item}
    (holds : Holds file items)
    {recNo : Nat}
    {item : Item}
    (new : Item)
    (present : items[recNo]? = some item) :
    Holds (writeBytes file (offset recNo) new.record recordSize)
      (items.set recNo new) := by
  intro other otherItem found
  rcases Pool.getElem?_set_cases found with ⟨rfl, rfl⟩ | ⟨different, found⟩
  · apply RecordT.ext_bytes
    change slice (overwrite file _ _) _ recordSize = _
    rw [List.take_of_length_le (Nat.le_of_eq otherItem.record.length_eq)]
    exact slice_overwrite_of_length file _ otherItem.record.length_eq
  · rw [readRecord_writeBytes _ _ _ (not_overlap_offset (Ne.symm different))]
    exact holds other otherItem found

/-- A write that got through no byte changes nothing. -/
theorem writeBytes_zero
    (file : Nat → UInt8)
    (off : Nat)
    (record : RecordT) :
    writeBytes file off record 0 = file := by
  funext index
  simp [writeBytes, overwrite]

/-! ## One editor and its pending edit -/

/-- The record that a call of `do_put` is about. -/
def Place.recNo : Place → Option Nat
  | .prompt => none
  | .query recNo | .lock recNo | .reread recNo | .comparing recNo _
  | .unlockRetry recNo | .write recNo | .unlockReturn recNo
  | .unlockUpdated recNo => some recNo

/-- What the edited record of an editor is: the fetched one with the pending
edit, or the fetched one itself. -/
def Editor.Works (editor : Editor) : Option Pending → Prop
  | some pending => editor.lastRecNo = some pending.recNo ∧
      editor.work = pending.edit.answers.apply editor.orig
  | none => editor.work = editor.orig

/-- An editor and its pending edit.  An edit that was written is still marked
as work until the lock is released. -/
structure EditorRelated
    (recordCount : Nat)
    (editor : Editor)
    (pending : Option Pending) : Prop where
  inCall : ∀ recNo, editor.place.recNo = some recNo →
    editor.hasWork = true ∧ editor.lastRecNo = some recNo
  fetched : editor.hasWork = true →
    ∃ recNo, editor.lastRecNo = some recNo ∧ recNo < recordCount
  works : editor.hasWork = true →
    (∀ recNo, editor.place ≠ .unlockUpdated recNo) → editor.Works pending

/-- Users type edits, no fetch fails while an edit is pending, and no write is
cut short. -/
def Undamaged (state : State) (action : Action) : Prop :=
  match action.event with
  | .get _ _ answers => ∃ edit : Edit, answers = edit.answers
  | .getFailed _ => ∀ editor, state.editors[action.id]? = some editor →
      editor.hasWork = false
  | .fail written => ∀ editor recNo,
      state.editors[action.id]? = some editor →
        editor.place = .write recNo → written = 0
  | .getInvalid | .put | .succeed => True

/-- What an action of an editor does to the table. -/
inductive Effect
    (state : State)
    (editor next : Editor)
    (file : Nat → UInt8)
    (pending : Option Pending) :
    List (Nat × Answers) → Prop
  | nothing
      (same : file = state.file)
      (related : EditorRelated state.recordCount next pending) :
      Effect state editor next file pending []
  | typed
      (recNo : Nat)
      (edit : Edit)
      (same : file = state.file)
      (related : EditorRelated state.recordCount next
        (some ⟨recNo, edit⟩)) :
      Effect state editor next file pending [(recNo, edit.answers)]
  | gaveUp
      (same : file = state.file)
      (related : EditorRelated state.recordCount next none) :
      Effect state editor next file pending []
  | wrote
      (recNo : Nat)
      (place : editor.place = .write recNo)
      (works : editor.Works pending)
      (number : editor.lastRecNo = some recNo)
      (inside : recNo < state.recordCount)
      (written : file =
        writeBytes state.file (offset recNo) editor.work recordSize)
      (related : EditorRelated state.recordCount next none) :
      Effect state editor next file pending []

/-- What the action shows of typing. -/
def Event.typing : Event → List (Nat × Answers)
  | .get recNo _ answers => [(recNo, answers)]
  | _ => []

section Editors

variable {state : State} {id : Nat} {editor next : Editor}
variable {file : Nat → UInt8} {pending : Option Pending}

/-- Another place in the same call, with the records as they were. -/
theorem EditorRelated.goto
    (related : EditorRelated state.recordCount editor pending)
    {recNo : Nat}
    (before : editor.place.recNo = some recNo)
    (early : ∀ recNo, editor.place ≠ .unlockUpdated recNo)
    (sameWork : next.work = editor.work)
    (sameOrig : next.orig = editor.orig)
    (sameRec : next.lastRecNo = editor.lastRecNo)
    (sameHas : next.hasWork = editor.hasWork)
    (after : next.place.recNo = some recNo ∨ next.place = .prompt) :
    EditorRelated state.recordCount next pending := by
  obtain ⟨hasWork, number⟩ := related.inCall recNo before
  have works := related.works hasWork early
  constructor
  · intro other place
    rcases after with same | prompt
    · rw [same] at place
      cases place
      exact ⟨sameHas.trans hasWork, sameRec.trans number⟩
    · rw [prompt] at place
      cases place
  · intro _
    rw [sameRec]
    exact related.fetched hasWork
  · intro _ _
    cases pending with
    | none =>
        change next.work = next.orig
        rw [sameWork, sameOrig]
        exact works
    | some pending =>
        refine ⟨sameRec.trans works.1, ?_⟩
        rw [sameWork, sameOrig]
        exact works.2

/-- The start of `do_put`. -/
theorem EditorRelated.putStart
    (related : EditorRelated state.recordCount editor pending)
    (place : editor.place = .prompt) :
    EditorRelated state.recordCount (putStart editor) pending := by
  unfold RecordEditor.putStart
  split
  · exact ⟨related.inCall, related.fetched, related.works⟩
  · rename_i hasWork
    rw [Bool.not_eq_false] at hasWork
    split
    · refine ⟨fun recNo call => ?_, fun impossible => ?_,
        fun impossible => ?_⟩
      · change editor.place.recNo = some recNo at call
        rw [place] at call
        cases call
      · cases impossible
      · cases impossible
    · split
      · rename_i recNo number
        refine ⟨fun other call => ?_, related.fetched, fun has _ =>
          related.works has (by simp [place])⟩
        cases call
        exact ⟨hasWork, number⟩
      · exact ⟨related.inCall, related.fetched, related.works⟩

/-- Every action of an editor has an effect on the table. -/
theorem effect_of_advance
    {event : Event}
    (related : EditorRelated state.recordCount editor pending)
    (present : state.editors[id]? = some editor)
    (undamaged : Undamaged state ⟨id, event⟩)
    (advanced : advance state id editor event = some (next, file)) :
    Effect state editor next file pending event.typing := by
  cases moves_of_advance advanced with
  | getInvalid place =>
      exact .nothing rfl ⟨related.inCall, related.fetched, related.works⟩
  | getFailed torn place =>
      have idle : editor.hasWork = false := undamaged editor present
      refine .nothing rfl ⟨related.inCall, related.fetched, fun has => ?_⟩
      change editor.hasWork = true at has
      rw [idle] at has
      cases has
  | get recNo fetched answers place inside =>
      obtain ⟨edit, rfl⟩ := undamaged
      refine .typed recNo edit rfl ⟨fun other call => ?_, fun _ =>
        ⟨recNo, rfl, inside⟩, fun _ _ => ⟨rfl, rfl⟩⟩
      change editor.place.recNo = some other at call
      rw [place] at call
      cases call
  | put place => exact .nothing rfl (related.putStart place)
  | wait recNo place | query recNo place | lock recNo place
  | reread recNo place =>
      exact .nothing rfl (related.goto (by rw [place]; rfl) (by simp [place])
        rfl rfl rfl rfl (.inl rfl))
  | compare recNo current place =>
      have call : editor.place.recNo = some recNo := by rw [place]; rfl
      unfold compareCurrent
      split
      · obtain ⟨hasWork, number⟩ := related.inCall recNo call
        refine .gaveUp rfl ⟨fun other same => ?_, fun _ =>
          related.fetched hasWork, fun _ _ => rfl⟩
        cases same
        exact ⟨hasWork, number⟩
      · exact .nothing rfl (related.goto call (by simp [place]) rfl rfl rfl
          rfl (.inl rfl))
  | unlockRetry recNo place =>
      exact .nothing rfl (related.goto (by rw [place]; rfl) (by simp [place])
        rfl rfl rfl rfl (.inl rfl))
  | unlockReturn recNo place =>
      exact .nothing rfl (related.goto (by rw [place]; rfl) (by simp [place])
        rfl rfl rfl rfl (.inr rfl))
  | write recNo place =>
      obtain ⟨hasWork, number⟩ :=
        related.inCall recNo (by rw [place]; rfl)
      obtain ⟨other, same, inside⟩ := related.fetched hasWork
      obtain rfl : recNo = other := Option.some.inj (number.symm.trans same)
      refine .wrote recNo place (related.works hasWork (by simp [place]))
        number inside rfl ⟨fun other call => ?_, fun _ =>
          ⟨recNo, number, inside⟩, fun _ late => ?_⟩
      · cases call
        exact ⟨hasWork, number⟩
      · exact absurd rfl (late recNo)
  | unlockUpdated recNo place =>
      refine .nothing rfl ⟨fun other call => ?_, fun has => ?_,
        fun has => ?_⟩
      · cases call
      · cases has
      · cases has
  | queryFails recNo _ place | lockFails recNo _ place =>
      exact .nothing rfl (related.goto (by rw [place]; rfl) (by simp [place])
        rfl rfl rfl rfl (.inr rfl))
  | rereadFails recNo _ place =>
      exact .nothing rfl (related.goto (by rw [place]; rfl) (by simp [place])
        rfl rfl rfl rfl (.inl rfl))
  | writeFails recNo written place cut =>
      obtain rfl := undamaged editor recNo present place
      exact .nothing (writeBytes_zero _ _ _) (related.goto
        (by rw [place]; rfl) (by simp [place]) rfl rfl rfl rfl (.inl rfl))

end Editors

/-! ## All editors and the table -/

/-- The pending edit of one editor. -/
def TableState.pendingOf (table : TableState) (id : Nat) : Option Pending :=
  (table.pending[id]?).bind fun pending => pending

/-- The editors under their locks, the file that holds the items, and every
editor with its pending edit. -/
structure Related (state : State) (table : TableState) : Prop where
  locked : Locked state
  count : state.recordCount = table.items.length
  holds : Holds state.file table.items
  length : table.pending.length = state.editors.length
  editors : ∀ id editor, state.editors[id]? = some editor →
    EditorRelated state.recordCount editor (table.pendingOf id)

theorem related_start (items : List Item) (count : Nat) :
    Related
      ⟨fileAt (fileOf items), items.length, List.replicate count freshEditor⟩
      ⟨items, List.replicate count none⟩ where
  locked := locked_start _ _ _
  count := rfl
  holds := holds_fileOf items
  length := by simp
  editors := by
    intro id editor present
    rw [List.eq_of_mem_replicate (List.mem_of_getElem? present)]
    refine ⟨fun recNo call => ?_, fun has => ?_, fun has => ?_⟩
    · cases call
    · cases has
    · cases has

/-- One editor moves with its pending edit. -/
theorem Related.move
    {state next : State}
    {table : TableState}
    {items : List Item}
    {id : Nat}
    {before after : Editor}
    {pending : Option Pending}
    (related : Related state table)
    (present : state.editors[id]? = some before)
    (editors : next.editors = state.editors.set id after)
    (recordCount : next.recordCount = state.recordCount)
    (locked : Locked next)
    (length : items.length = table.items.length)
    (holds : Holds next.file items)
    (moved : EditorRelated state.recordCount after pending) :
    Related next ⟨items, table.pending.set id pending⟩ where
  locked := locked
  count := by rw [recordCount, related.count, length]
  holds := holds
  length := by
    rw [editors, List.length_set, List.length_set, related.length]
  editors := by
    intro other editor found
    rw [editors] at found
    rw [recordCount]
    rcases Pool.getElem?_set_cases found with ⟨rfl, rfl⟩ | ⟨different, found⟩
    · have inside : other < table.pending.length := by
        rw [related.length]
        exact (List.getElem?_eq_some_iff.mp present).1
      have here : TableState.pendingOf
          ⟨items, table.pending.set other pending⟩ other = pending := by
        rw [TableState.pendingOf, List.getElem?_set_self inside]
        rfl
      rw [here]
      exact moved
    · have there : TableState.pendingOf
          ⟨items, table.pending.set id pending⟩ other =
            table.pendingOf other := by
        rw [TableState.pendingOf, List.getElem?_set_ne (Ne.symm different)]
        rfl
      rw [there]
      exact related.editors other editor found

/-- An edit of the item at its place. -/
theorem set_eq_modify
    {items : List Item}
    {recNo : Nat}
    {item : Item}
    (present : items[recNo]? = some item)
    (edit : Item → Item) :
    items.set recNo (edit item) = items.modify recNo edit := by
  rw [List.modify_eq_set_getElem?, present]
  rfl

/-- A slot of the pending edits that is filled with what it holds. -/
theorem TableState.set_pendingOf
    {table : TableState}
    {id : Nat}
    (inside : id < table.pending.length) :
    table.pending.set id (table.pendingOf id) = table.pending := by
  have here : table.pendingOf id = table.pending[id] := by
    rw [pendingOf, List.getElem?_eq_getElem inside]
    rfl
  rw [here, List.set_getElem_self]

/-- What a pending edit does to the table when it is committed. -/
theorem TableState.step_commit
    {table : TableState}
    {id : Nat}
    {pending : Pending}
    (waits : table.pendingOf id = some pending) :
    table.step (.commit id) =
      some ⟨table.items.modify pending.recNo pending.edit.apply,
        table.pending.set id none⟩ := by
  change Option.map _ (table.pendingOf id) = _
  rw [waits]
  rfl

/-- A write of an editor under its lock commits its pending edit; without one
it writes the item that is there. -/
theorem Related.wrote
    {state : State}
    {table : TableState}
    {editor : Editor}
    {id recNo : Nat}
    (related : Related state table)
    (present : state.editors[id]? = some editor)
    (place : editor.place = .write recNo)
    (inside : recNo < state.recordCount)
    (number : editor.lastRecNo = some recNo)
    (works : editor.Works (table.pendingOf id)) :
    ∃ items action, table.step action =
        some ⟨items, table.pending.set id none⟩ ∧
      items.length = table.items.length ∧
      Holds (writeBytes state.file (offset recNo) editor.work recordSize)
        items ∧
      action.typing = [] := by
  rw [related.count] at inside
  have found := List.getElem?_eq_getElem inside
  have checked :=
    related.locked.checked editor (List.mem_of_getElem? present)
  simp only [Editor.Checked, place] at checked
  have orig : editor.orig = table.items[recNo].record := by
    rw [← checked.1]
    exact related.holds recNo _ found
  cases waits : table.pendingOf id with
  | none =>
      rw [waits] at works
      have work : editor.work = table.items[recNo].record := works.trans orig
      refine ⟨table.items, .giveUp id, rfl, rfl, ?_, rfl⟩
      have written := related.holds.write table.items[recNo] found
      rwa [List.set_getElem_self, ← work] at written
  | some pending =>
      rw [waits] at works
      obtain ⟨same, work⟩ := works
      obtain rfl : recNo = pending.recNo :=
        Option.some.inj (number.symm.trans same)
      rw [orig, Edit.apply_record] at work
      refine ⟨_, .commit id, TableState.step_commit waits,
        List.length_modify .., ?_, rfl⟩
      rw [work, ← set_eq_modify found]
      exact related.holds.write _ found

/-- The editors simulate the table. -/
theorem simulates_table
    (count : Nat)
    (items : List Item) :
    (editorsOn count items.length (fileAt (fileOf items))).Simulates
      (tableOf count items) Undamaged Action.typing TableAction.typing
        Related := by
  intro state action next table related undamaged stepped
  have locked := related.locked.step stepped
  obtain ⟨editor, after, file, present, advanced, rfl⟩ :=
    step_eq_some stepped
  obtain ⟨id, event⟩ := action
  have editorRelated := related.editors id editor present
  have effect := effect_of_advance editorRelated present undamaged advanced
  have shown : Action.typing ⟨id, event⟩ =
      event.typing.map fun typed => (id, typed.1, typed.2) := by
    cases event <;> rfl
  rw [shown]
  generalize event.typing = typed at effect
  cases effect with
  | nothing same moved =>
      have inside : id < table.pending.length := by
        rw [related.length]
        exact (List.getElem?_eq_some_iff.mp present).1
      have kept : Related
          ⟨file, state.recordCount, state.editors.set id after⟩
          ⟨table.items, table.pending.set id (table.pendingOf id)⟩ :=
        related.move present rfl rfl locked rfl (same ▸ related.holds) moved
      rw [TableState.set_pendingOf inside] at kept
      exact ⟨[], table, rfl, kept, rfl⟩
  | typed recNo edit same moved =>
      exact ⟨[.typed id recNo edit], _, rfl,
        related.move present rfl rfl locked rfl (same ▸ related.holds) moved,
        rfl⟩
  | gaveUp same moved =>
      exact ⟨[.giveUp id], _, rfl,
        related.move present rfl rfl locked rfl (same ▸ related.holds) moved,
        rfl⟩
  | wrote recNo place works number inside written moved =>
      subst written
      obtain ⟨items', committed, step, length, holds, silent⟩ :=
        related.wrote present place inside number works
      refine ⟨[committed], _, ?_, related.move present rfl rfl locked length
        holds moved, ?_⟩
      · exact Option.bind_eq_some_iff.mpr ⟨_, step, rfl⟩
      · rw [List.flatMap_singleton, silent]
        rfl

end RecordEditor
end OSaSP
