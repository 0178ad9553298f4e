import OSaSP.RecordEditor.Prompts
import Mathlib.Data.List.GetD

/-!
# The data file as a table

A record is meant to be a device, its place and its number.  In the file the
two texts are zero-terminated and the rest of their fields is zero, so that
`memcmp` compares what is meant.  An item carries the promise that its texts
fit; the questions of `do_get` only accept such texts, so filling in the
answers is an edit of the item.
-/

namespace OSaSP
namespace RecordEditor

open BoundedReader CString LineReader Segment

/-- A text for a field of `size` bytes: not empty, and with room for its
terminator. -/
structure FieldText (size : Nat) where
  bytes : List UInt8
  nonempty : bytes ≠ []
  short : bytes.length < size
  noZero : (0 : UInt8) ∉ bytes
  deriving DecidableEq

/-- What a record stands for. -/
structure Item where
  deviceName : FieldText nameLen
  location : FieldText addrLen
  inventoryNumber : UInt32
  deriving DecidableEq

theorem length_strncpy (size : Nat) (text : List UInt8) :
    (strncpy size text).length = size := by
  rw [strncpy, List.length_take, List.length_append, List.length_replicate]
  omega

/-- An item as the bytes of `record_t`. -/
def Item.record (item : Item) : RecordT where
  bytes := strncpy nameLen item.deviceName.bytes ++
    (strncpy addrLen item.location.bytes ++
      inventoryBytes item.inventoryNumber)
  length_eq := by
    rw [List.length_append, List.length_append, length_strncpy,
      length_strncpy]
    rfl

/-- The string in the first field, which need not end inside it. -/
def RecordT.deviceName (record : RecordT) : List UInt8 :=
  stringAt record.bytes

/-- The string in the second field. -/
def RecordT.location (record : RecordT) : List UInt8 :=
  stringAt (record.bytes.drop nameLen)

/-! ## Reading back -/

/-- A text that fits is copied with a zero behind it. -/
theorem strncpy_text {size : Nat} (text : FieldText size) :
    strncpy size text.bytes =
      text.bytes ++ 0 :: List.replicate (size - text.bytes.length - 1) 0 := by
  obtain ⟨rest, size_eq⟩ : ∃ rest, size = text.bytes.length + (rest + 1) :=
    ⟨size - text.bytes.length - 1, by have := text.short; omega⟩
  have behind : size - text.bytes.length - 1 = rest := by omega
  rw [strncpy, behind, List.take_append, List.take_of_length_le
    (Nat.le_of_lt text.short), List.take_replicate, ← List.replicate_succ]
  congr 2
  omega

theorem stringAt_strncpy
    {size : Nat}
    (text : FieldText size)
    (behind : List UInt8) :
    stringAt (strncpy size text.bytes ++ behind) = text.bytes := by
  rw [strncpy_text, List.append_assoc, List.cons_append]
  exact stringAt_terminated text.noZero _

theorem Item.deviceName_record (item : Item) :
    item.record.deviceName = item.deviceName.bytes :=
  stringAt_strncpy item.deviceName _

theorem Item.location_record (item : Item) :
    item.record.location = item.location.bytes := by
  have fields : item.record.bytes.drop nameLen =
      strncpy addrLen item.location.bytes ++
        inventoryBytes item.inventoryNumber :=
    List.drop_left' (length_strncpy nameLen _)
  rw [RecordT.location, fields]
  exact stringAt_strncpy item.location _

/-- The four bytes of a number tell it from others. -/
theorem inventoryBytes_injective : Function.Injective inventoryBytes := by
  intro left right same
  simp only [inventoryBytes, List.cons.injEq, and_true] at same
  obtain ⟨first, second, third, fourth⟩ := same
  have leftBound := left.toNat_lt
  have rightBound := right.toNat_lt
  apply UInt32.toNat_inj.mp
  have bytes : ∀ shift : UInt32, shift.toNat < 32 →
      (left >>> shift).toUInt8 = (right >>> shift).toUInt8 →
        left.toNat / 2 ^ shift.toNat % 256 =
          right.toNat / 2 ^ shift.toNat % 256 := by
    intro shift small equal
    have values := congrArg UInt8.toNat equal
    simpa [UInt32.toNat_shiftRight, Nat.shiftRight_eq_div_pow,
      Nat.mod_eq_of_lt small] using values
  have byte₀ := congrArg UInt8.toNat first
  have byte₁ := bytes 8 (by decide) second
  have byte₂ := bytes 16 (by decide) third
  have byte₃ := bytes 24 (by decide) fourth
  simp at byte₀ byte₁ byte₂ byte₃
  omega

/-- Equal bytes stand for equal items, so `memcmp` compares what is meant. -/
theorem Item.record_injective : Function.Injective Item.record := by
  intro left right same
  have bytes := congrArg RecordT.bytes same
  obtain ⟨-, rest⟩ := List.append_inj bytes
    (by rw [length_strncpy, length_strncpy])
  obtain ⟨-, numbers⟩ := List.append_inj rest
    (by rw [length_strncpy, length_strncpy])
  have names := congrArg RecordT.deviceName same
  have locations := congrArg RecordT.location same
  rw [Item.deviceName_record, Item.deviceName_record] at names
  rw [Item.location_record, Item.location_record] at locations
  have number := inventoryBytes_injective numbers
  obtain ⟨⟨_, _, _, _⟩, ⟨_, _, _, _⟩, _⟩ := left
  obtain ⟨⟨_, _, _, _⟩, ⟨_, _, _, _⟩, _⟩ := right
  cases names
  cases locations
  cases number
  rfl

theorem RecordT.ext_bytes
    {left right : RecordT}
    (same : left.bytes = right.bytes) :
    left = right := by
  cases left
  cases right
  cases same
  rfl

/-! ## Edits -/

/-- An edit of an item: the fields that the user gave anew. -/
structure Edit where
  deviceName : Option (FieldText nameLen)
  location : Option (FieldText addrLen)
  inventoryNumber : Option UInt32
  deriving DecidableEq

/-- The edited item. -/
def Edit.apply (edit : Edit) (item : Item) : Item where
  deviceName := edit.deviceName.getD item.deviceName
  location := edit.location.getD item.location
  inventoryNumber := edit.inventoryNumber.getD item.inventoryNumber

/-- An edit as the answers of `do_get`. -/
def Edit.answers (edit : Edit) : Answers where
  deviceName := edit.deviceName.map FieldText.bytes
  location := edit.location.map FieldText.bytes
  inventoryNumber := edit.inventoryNumber

/-- Patching replaces a field and leaves the bytes around it. -/
theorem RecordT.bytes_patch
    (record : RecordT)
    {start : Nat}
    {field : List UInt8}
    (inside : start + field.length ≤ recordSize) :
    (record.patch start field).bytes =
      record.bytes.take start ++
        (field ++ record.bytes.drop (start + field.length)) := by
  have length := record.length_eq
  apply List.ext_getElem
  · simp [patch]
    omega
  · intro index before after
    have front : (record.bytes.take start).length = start := by
      rw [List.length_take]
      omega
    simp only [patch, List.getElem_mapIdx, List.getElem_append, front,
      List.getElem_take, List.getElem_drop]
    by_cases early : index < start
    · rw [if_neg (by omega), dif_pos early]
    · rw [if_pos (by omega), dif_neg early]
      by_cases within : index - start < field.length
      · rw [dif_pos within, List.getD_eq_getElem _ _ within]
      · rw [dif_neg within, List.getD_eq_default _ _ (by omega)]
        congr 1
        omega

/-- A new text in the first field. -/
theorem Item.patch_deviceName
    (item : Item)
    (name : FieldText nameLen) :
    item.record.patch 0 (strncpy nameLen name.bytes) =
      { item with deviceName := name : Item }.record := by
  have inside : 0 + (strncpy nameLen name.bytes).length ≤ recordSize := by
    rw [length_strncpy]
    decide
  have rest : item.record.bytes.drop nameLen =
      strncpy addrLen item.location.bytes ++
        inventoryBytes item.inventoryNumber :=
    List.drop_left' (length_strncpy nameLen _)
  apply RecordT.ext_bytes
  rw [RecordT.bytes_patch _ inside, length_strncpy, Nat.zero_add, rest]
  rfl

/-- A new text in the second field. -/
theorem Item.patch_location
    (item : Item)
    (location : FieldText addrLen) :
    item.record.patch nameLen (strncpy addrLen location.bytes) =
      { item with location : Item }.record := by
  have inside : nameLen + (strncpy addrLen location.bytes).length ≤
      recordSize := by
    rw [length_strncpy]
    decide
  have front : item.record.bytes.take nameLen =
      strncpy nameLen item.deviceName.bytes :=
    List.take_left' (length_strncpy nameLen _)
  have rest : item.record.bytes.drop (nameLen + addrLen) =
      inventoryBytes item.inventoryNumber := by
    have fields : item.record.bytes =
        (strncpy nameLen item.deviceName.bytes ++
          strncpy addrLen item.location.bytes) ++
            inventoryBytes item.inventoryNumber :=
      (List.append_assoc ..).symm
    rw [fields]
    exact List.drop_left' (by
      rw [List.length_append, length_strncpy, length_strncpy])
  apply RecordT.ext_bytes
  rw [RecordT.bytes_patch _ inside, length_strncpy, front, rest]
  rfl

/-- A new number. -/
theorem Item.patch_inventoryNumber
    (item : Item)
    (number : UInt32) :
    item.record.patch (nameLen + addrLen) (inventoryBytes number) =
      { item with inventoryNumber := number : Item }.record := by
  have inside : nameLen + addrLen + (inventoryBytes number).length ≤
      recordSize := Nat.le_refl _
  have front : item.record.bytes.take (nameLen + addrLen) =
      strncpy nameLen item.deviceName.bytes ++
        strncpy addrLen item.location.bytes := by
    have fields : item.record.bytes =
        (strncpy nameLen item.deviceName.bytes ++
          strncpy addrLen item.location.bytes) ++
            inventoryBytes item.inventoryNumber :=
      (List.append_assoc ..).symm
    rw [fields]
    exact List.take_left' (by
      rw [List.length_append, length_strncpy, length_strncpy])
  have rest : item.record.bytes.drop
      (nameLen + addrLen + (inventoryBytes number).length) = [] := by
    apply List.drop_eq_nil_of_le
    rw [item.record.length_eq]
    exact Nat.le_refl _
  apply RecordT.ext_bytes
  rw [RecordT.bytes_patch _ inside, front, rest, List.append_nil,
    List.append_assoc]
  rfl

/-- Filling in the answers of an edit is the edit. -/
theorem Edit.apply_record (edit : Edit) (item : Item) :
    edit.answers.apply item.record = (edit.apply item).record := by
  obtain ⟨name, location, number⟩ := edit
  cases name <;> cases location <;> cases number <;>
    simp only [Answers.apply, Edit.answers, Option.map_some, Option.map_none,
      Item.patch_deviceName, Item.patch_location, Item.patch_inventoryNumber,
      Edit.apply, Option.getD_some, Option.getD_none]

/-! ## What the questions accept -/

/-- A text that a prompt accepts fits into its field. -/
theorem fits_of_textReply
    {field : Field}
    {limit : Nat}
    {buf text : List UInt8}
    (accepted : textReply field limit buf = .text text) :
    ∃ fieldText : FieldText limit, text = fieldText.bytes := by
  unfold textReply at accepted
  split at accepted
  · cases accepted
  · split at accepted
    · rename_i fits
      cases accepted
      refine ⟨⟨chomp buf, List.ne_nil_of_length_pos fits.1, fits.2, ?_⟩, rfl⟩
      intro zero
      have passes := List.mem_takeWhile_imp zero
      cases passes
    · cases accepted

/-- Every reply was given to the question it is logged with. -/
theorem reply_of_mem_ask
    {fields : List Field}
    {line : Nat}
    {reads : List (List UInt8)}
    {entry : Entry}
    (member : entry ∈ ask fields line reads) :
    ∃ buf, entry.reply = entry.field.reply buf := by
  induction reads generalizing fields line with
  | nil => simp [ask] at member
  | cons buf reads inductionHypothesis =>
      cases fields with
      | nil => simp [ask] at member
      | cons field fields =>
          rw [ask] at member
          rcases List.mem_cons.mp member with rfl | later
          · exact ⟨buf, rfl⟩
          · exact inductionHypothesis later

/-- The first text found among texts that fit is a text of its field. -/
theorem exists_fieldText
    {size : Nat}
    {log : List Entry}
    {pick : Entry → Option (List UInt8)}
    (fits : ∀ entry ∈ log, ∀ text, pick entry = some text →
      ∃ fieldText : FieldText size, text = fieldText.bytes) :
    ∃ chosen : Option (FieldText size),
      log.findSome? pick = chosen.map FieldText.bytes := by
  cases found : log.findSome? pick with
  | none => exact ⟨none, rfl⟩
  | some text =>
      obtain ⟨entry, member, given⟩ := List.exists_of_findSome?_eq_some found
      obtain ⟨fieldText, rfl⟩ := fits entry member text given
      exact ⟨some fieldText, rfl⟩

/-- Whatever is typed, the answers are an edit. -/
theorem exists_edit (input : List UInt8) :
    ∃ edit : Edit, answers (replies input) = edit.answers := by
  have logged : ∀ entry ∈ replies input,
      ∃ buf, entry.reply = entry.field.reply buf :=
    fun _ member => reply_of_mem_ask member
  have name : ∃ name : Option (FieldText nameLen),
      (answers (replies input)).deviceName = name.map FieldText.bytes := by
    apply exists_fieldText
    intro entry member text given
    obtain ⟨buf, reply⟩ := logged entry member
    split at given
    · rename_i isName isText
      cases given
      rw [isName] at reply
      exact fits_of_textReply (reply.symm.trans isText)
    · cases given
  have place : ∃ place : Option (FieldText addrLen),
      (answers (replies input)).location = place.map FieldText.bytes := by
    apply exists_fieldText
    intro entry member text given
    obtain ⟨buf, reply⟩ := logged entry member
    split at given
    · rename_i isLocation isText
      cases given
      rw [isLocation] at reply
      exact fits_of_textReply (reply.symm.trans isText)
    · cases given
  obtain ⟨name, nameEq⟩ := name
  obtain ⟨place, placeEq⟩ := place
  refine ⟨⟨name, place, (answers (replies input)).inventoryNumber⟩, ?_⟩
  rw [Edit.answers, ← nameEq, ← placeEq]

end RecordEditor
end OSaSP
