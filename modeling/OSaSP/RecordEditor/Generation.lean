import OSaSP.RecordEditor.InventoryNumber
import OSaSP.RecordEditor.Refinement

/-!
# From the generated file to the list of records

`generation` writes a file of at least ten records, each of them an item.  The
editor takes the number of records from the size of the file.  Whatever edits
are typed into any number of editors then, the file stays a table of items, and
`do_list` shows it.
-/

namespace OSaSP
namespace RecordEditor

open CString Segment

/-! ## The generator -/

/-- The record that the loop of `generation` writes in round `round`, with the
successive values of `rand()`.  The fields are cleared before `snprintf`. -/
def generatedRecord (rand : Nat → Nat) (round : Nat) : RecordT where
  bytes := strncpy nameLen (snprintf nameLen
      (ascii "Device" ++ decimal 3 (rand (2 * round) % 100))) ++
    (strncpy addrLen (snprintf addrLen
        (ascii "Location" ++ decimal 3 (rand (2 * round + 1) % 999))) ++
      inventoryBytes (UInt32.ofNat (round % 8 + 1)))
  length_eq := by
    rw [List.length_append, List.length_append, length_strncpy,
      length_strncpy]
    rfl

/-- `main` of `generation` on its second argument: the content of the file, or
nothing when the argument is no number from ten on. -/
def generationMain
    (numRecords : List UInt8)
    (rand : Nat → Nat) : Option (List UInt8) :=
  if (strtol numRecords).2 ≠ [] ∨ (strtol numRecords).1 < 10 then none
  else
    some ((List.range (strtol numRecords).1.toNat).flatMap fun round =>
      (generatedRecord rand round).bytes)

/-- `main` of the editor up to its prompt: `record_count`, or nothing when the
size of the file is not that of whole records. -/
def loadDataFile (content : List UInt8) : Option Nat :=
  if content.length % recordSize ≠ 0 then none
  else some (content.length / recordSize)

/-- Numbers below a thousand have three digits and no zero byte. -/
theorem decimal_three :
    ∀ number < 1000, (decimal 3 number).length = 3 ∧
      (0 : UInt8) ∉ decimal 3 number := by
  decide +kernel

/-- A short word with a number below a thousand. -/
def numberedText
    (size : Nat)
    (word : List UInt8)
    (number : Nat)
    (noZero : (0 : UInt8) ∉ word)
    (short : word.length + 3 < size)
    (small : number < 1000) : FieldText size where
  bytes := word ++ decimal 3 number
  nonempty := by
    have digits := (decimal_three number small).1
    apply List.ne_nil_of_length_pos
    rw [List.length_append]
    omega
  short := by
    rw [List.length_append, (decimal_three number small).1]
    exact short
  noZero := by
    rw [List.mem_append, not_or]
    exact ⟨noZero, (decimal_three number small).2⟩

/-- What the generated record stands for. -/
def generatedItem (rand : Nat → Nat) (round : Nat) : Item where
  deviceName := numberedText nameLen (ascii "Device")
    (rand (2 * round) % 100) (by decide) (by decide)
    (Nat.lt_of_lt_of_le (Nat.mod_lt _ (by decide)) (by decide))
  location := numberedText addrLen (ascii "Location")
    (rand (2 * round + 1) % 999) (by decide) (by decide)
    (Nat.lt_of_lt_of_le (Nat.mod_lt _ (by decide)) (by decide))
  inventoryNumber := UInt32.ofNat (round % 8 + 1)

theorem snprintf_fieldText {size : Nat} (text : FieldText size) :
    snprintf size text.bytes = text.bytes :=
  List.take_of_length_le (Nat.le_pred_of_lt text.short)

theorem generatedRecord_eq (rand : Nat → Nat) (round : Nat) :
    generatedRecord rand round = (generatedItem rand round).record := by
  have name : snprintf nameLen
      (ascii "Device" ++ decimal 3 (rand (2 * round) % 100)) =
        (generatedItem rand round).deviceName.bytes :=
    snprintf_fieldText (generatedItem rand round).deviceName
  have location : snprintf addrLen
      (ascii "Location" ++ decimal 3 (rand (2 * round + 1) % 999)) =
        (generatedItem rand round).location.bytes :=
    snprintf_fieldText (generatedItem rand round).location
  apply RecordT.ext_bytes
  simp only [generatedRecord, name, location]
  rfl

/-- The generated file is the file of a table of at least ten items. -/
theorem generationMain_items
    {numRecords content : List UInt8}
    {rand : Nat → Nat}
    (generated : generationMain numRecords rand = some content) :
    ∃ items : List Item, content = fileOf items ∧ 10 ≤ items.length := by
  unfold generationMain at generated
  split at generated
  · cases generated
  · rename_i accepted
    rw [not_or, Int.not_lt] at accepted
    cases generated
    refine ⟨(List.range (strtol numRecords).1.toNat).map
      (generatedItem rand), ?_, ?_⟩
    · rw [fileOf, List.flatMap_map]
      simp only [generatedRecord_eq]
    · rw [List.length_map, List.length_range]
      omega

/-- The editor counts the items of a table. -/
theorem loadDataFile_fileOf (items : List Item) :
    loadDataFile (fileOf items) = some items.length := by
  have positive : 0 < recordSize := by decide
  rw [loadDataFile, length_fileOf, Nat.mul_mod_left, if_neg (by simp),
    Nat.mul_div_cancel _ positive]

/-! ## The list of records -/

/-- A line of `do_list`. -/
structure ListLine where
  number : Nat
  deviceName : List UInt8
  inventoryNumber : Nat
  location : List UInt8
  deriving DecidableEq

/-- `do_list`; the texts are printed with `%-30.30s`. -/
def doList (file : Nat → UInt8) (recordCount : Nat) : List ListLine :=
  (List.range recordCount).map fun number =>
    let record := readRecord file (offset number)
    ⟨number, record.deviceName.take 30, record.inventoryNumber,
      record.location.take 30⟩

/-- The lines for the items of a table. -/
def listed (items : List Item) : List ListLine :=
  items.mapIdx fun number item =>
    ⟨number, item.deviceName.bytes.take 30, item.inventoryNumber.toNat,
      item.location.bytes.take 30⟩

theorem Item.inventoryNumber_record (item : Item) :
    item.record.inventoryNumber = item.inventoryNumber.toNat := by
  have same := item.patch_inventoryNumber item.inventoryNumber
  have number :=
    RecordT.inventoryNumber_patch item.record item.inventoryNumber
  rwa [same] at number

/-- `do_list` on a file that holds a table shows the table. -/
theorem doList_of_holds
    {file : Nat → UInt8}
    {items : List Item}
    (holds : Holds file items) :
    doList file items.length = listed items := by
  apply List.ext_getElem
  · simp [doList, listed]
  · intro number before after
    have inside : number < items.length := by
      simpa [listed] using after
    have record := holds number items[number]
      (List.getElem?_eq_getElem inside)
    simp only [doList, listed, List.getElem_map, List.getElem_range,
      List.getElem_mapIdx, record, Item.deviceName_record,
      Item.location_record, Item.inventoryNumber_record]

/-! ## The life of a data file -/

/-- For every generated file, any number of editors and any run of them in
which no write is cut short and no fetch fails while an edit is pending: the
run does to the file what the users' edits do to the table, each of them
applied at once and at most once, and `do_list` shows the result. -/
theorem generated_file_edited
    (numRecords content : List UInt8)
    (rand : Nat → Nat)
    (generated : generationMain numRecords rand = some content)
    (recordCount count : Nat)
    (loaded : loadDataFile content = some recordCount)
    (actions : List Action)
    (final : State)
    (executed : (editorsOn count recordCount (fileAt content)).run
      ⟨fileAt content, recordCount, List.replicate count freshEditor⟩
      actions = some final)
    (undamaged : (editorsOn count recordCount (fileAt content)).EveryStep
      Undamaged
      ⟨fileAt content, recordCount, List.replicate count freshEditor⟩
      actions) :
    10 ≤ recordCount ∧
      ∃ (items : List Item) (edits : List TableAction) (table : TableState),
        content = fileOf items ∧
        (tableOf count items).run ⟨items, List.replicate count none⟩ edits =
          some table ∧
        edits.flatMap TableAction.typing = actions.flatMap Action.typing ∧
        Holds final.file table.items ∧
        doList final.file final.recordCount = listed table.items := by
  obtain ⟨items, rfl, enough⟩ := generationMain_items generated
  rw [loadDataFile_fileOf, Option.some.injEq] at loaded
  subst loaded
  obtain ⟨edits, table, ran, related, shown⟩ :=
    (simulates_table count items).run (related_start items count) executed
      undamaged
  refine ⟨enough, items, edits, table, rfl, ran, shown, related.holds, ?_⟩
  rw [related.count]
  exact doList_of_holds related.holds

/-- A new number for a device. -/
def renumbered : Edit := ⟨none, none, some 77⟩

/-- Editor 1 fetches record 3 of ten, gives it a new number and saves it. -/
def renumberThird : List Action :=
  [⟨1, .get 3 (generatedRecord (fun _ => 5) 3) renumbered.answers⟩,
    ⟨1, .put⟩] ++ List.replicate 6 ⟨1, .succeed⟩

theorem renumberThird_edited :
    ∃ content final,
      generationMain (ascii "10") (fun _ => 5) = some content ∧
      (editorsOn 2 10 (fileAt content)).run
          ⟨fileAt content, 10, List.replicate 2 freshEditor⟩ renumberThird =
        some final ∧
      ((doList final.file 10)[3]?).map ListLine.inventoryNumber = some 77 ∧
      ∃ (items : List Item) (edits : List TableAction) (table : TableState),
        (tableOf 2 items).run ⟨items, List.replicate 2 none⟩ edits =
          some table ∧
        edits.flatMap TableAction.typing =
          [(1, 3, renumbered.answers)] ∧
        doList final.file final.recordCount = listed table.items := by
  have evaluated :
      ((generationMain (ascii "10") fun _ => 5).bind fun content =>
        (loadDataFile content).bind fun recordCount =>
          ((editorsOn 2 recordCount (fileAt content)).run
            ⟨fileAt content, recordCount, List.replicate 2 freshEditor⟩
            renumberThird).map fun final =>
              (recordCount, ((doList final.file 10)[3]?).map
                ListLine.inventoryNumber)) = some (10, some 77) := by
    decide +kernel
  obtain ⟨content, generated, rest⟩ := Option.bind_eq_some_iff.mp evaluated
  obtain ⟨recordCount, loaded, rest⟩ := Option.bind_eq_some_iff.mp rest
  obtain ⟨final, ran, result⟩ := Option.map_eq_some_iff.mp rest
  obtain ⟨rfl, number⟩ := Prod.mk.inj result
  have undamaged : (editorsOn 2 10 (fileAt content)).EveryStep Undamaged
      ⟨fileAt content, 10, List.replicate 2 freshEditor⟩ renumberThird := by
    have typed : ∀ action ∈ renumberThird, ∀ state,
        Undamaged state action := by
      intro action member state
      simp only [renumberThird, List.mem_append, List.mem_cons,
        List.mem_replicate, List.not_mem_nil, or_false] at member
      rcases member with (rfl | rfl) | ⟨-, rfl⟩
      · exact ⟨renumbered, rfl⟩
      · trivial
      · trivial
    exact .of_invariant (fun _ => True) (fun _ _ _ _ _ _ => trivial)
      (fun state _ _ always => always state) trivial
      (.of_actions typed _)
  obtain ⟨-, items, edits, table, -, abstract, shown, -, list⟩ :=
    generated_file_edited (ascii "10") content (fun _ => 5) generated 10 2
      loaded renumberThird final ran undamaged
  exact ⟨content, final, generated, ran, number, items, edits, table,
    abstract, shown, list⟩

end RecordEditor
end OSaSP
