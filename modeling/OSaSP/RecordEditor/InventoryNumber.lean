import OSaSP.RecordEditor.Prompts

/-!
# The inventory number that is stored

`strtol` converts to a 64-bit `long`, the test only asks for a positive value,
and the cast keeps the last 32 bits.
-/

namespace OSaSP
namespace RecordEditor

open BoundedReader CString LineReader

/-- The inventory number in a record, as the bytes are read on a little-endian
machine. -/
def RecordT.inventoryNumber (record : RecordT) : Nat :=
  let byte index := (record.bytes.getD (nameLen + addrLen + index) 0).toNat
  byte 0 + 256 * byte 1 + 256 ^ 2 * byte 2 + 256 ^ 3 * byte 3

/-- A byte of a patched record. -/
theorem RecordT.getD_patch
    (record : RecordT)
    (field : List UInt8)
    {start index : Nat}
    (inside : start + index < recordSize)
    (within : index < field.length) :
    (record.patch start field).bytes.getD (start + index) 0 =
      field.getD index 0 := by
  have present : start + index < record.bytes.length := by
    rw [record.length_eq]
    exact inside
  simp [patch, List.getD_eq_getElem?_getD, present,
    List.getElem?_eq_getElem within]

/-- The number that was stored is read back. -/
theorem RecordT.inventoryNumber_patch
    (record : RecordT)
    (number : UInt32) :
    (record.patch (nameLen + addrLen)
        (inventoryBytes number)).inventoryNumber = number.toNat := by
  have stored : ∀ index < 4,
      (record.patch (nameLen + addrLen)
        (inventoryBytes number)).bytes.getD (nameLen + addrLen + index) 0 =
          (inventoryBytes number).getD index 0 := by
    intro index inside
    exact record.getD_patch _ (Nat.add_lt_add_left inside _) inside
  have small := number.toNat_lt
  unfold inventoryNumber
  simp only [stored 0 (by decide), stored 1 (by decide),
    stored 2 (by decide), stored 3 (by decide)]
  simp only [inventoryBytes, List.getD_cons_zero, List.getD_cons_succ]
  simp [UInt32.toNat_shiftRight, Nat.shiftRight_eq_div_pow]
  omega

/-! ## What becomes of a decimal line -/

/-- A decimal line of at most 78 characters. -/
abbrev DecimalLine :=
  { numeral : Numeral // numeral.text.length ≤ 78 }

/-- The answer to the last prompt when the line is entered there. -/
def DecimalLine.reply (line : DecimalLine) (rest : List UInt8) :
    Option Reply :=
  (ask [.inventoryNumber] 0
    (pieces lineFeed bufRoom (line.val.text ++ lineFeed :: rest))).head?.map
      Entry.reply

/-- If the line is accepted, the number typed fits the field and is stored in
`work_rec`, whatever was answered before. -/
def StoresTyped
    (line : DecimalLine)
    (rest : List UInt8)
    (earlier : Answers)
    (fetched : RecordT) : Prop :=
  ∀ number, line.reply rest = some (.number number) →
    0 < line.val.value ∧ line.val.value < 2 ^ 32 ∧
      ((({ earlier with inventoryNumber := some number }.apply
        fetched).inventoryNumber : Nat) : Int) = line.val.value

/-- The line is accepted if its value is positive, with the last 32 bits of
the value cut to a `long`. -/
theorem reply_decimalLine (line : DecimalLine) (rest : List UInt8) :
    line.reply rest =
      if 0 < line.val.value then
        some (.number (UInt32.ofInt (saturate line.val.value)))
      else some (.rejected Field.inventoryNumber.invalid) := by
  obtain ⟨numeral, short⟩ := line
  have unseparated : lineFeed ∉ numeral.text :=
    fun member => (Numeral.plain_of_mem_text member).2 rfl
  have noZero : (0 : UInt8) ∉ numeral.text :=
    fun member => (Numeral.plain_of_mem_text member).1 rfl
  have started := numeral.text_ne_nil
  have fits : numeral.text.length < bufRoom := Nat.lt_succ_of_le short
  have notEmpty : ¬numeral.text.head? = some lineFeed := by
    obtain ⟨first, others, textEq⟩ := List.exists_cons_of_ne_nil started
    rw [textEq, List.mem_cons, not_or] at unseparated
    rw [textEq]
    exact fun same => unseparated.1 (Option.some.inj same).symm
  have positive : 0 < saturate numeral.value ↔ 0 < numeral.value := by
    unfold saturate longMax longMin
    omega
  rw [DecimalLine.reply, ask_line unseparated fits]
  change some (numberReply (numeral.text ++ [lineFeed])) = _
  rw [numberReply_lineFeed unseparated started, numberReply,
    if_neg notEmpty, acceptsNumber, stringAt_of_noZero noZero,
    Numeral.strtol_text]
  simp only [List.head?_nil, List.isEmpty_nil, Bool.or_true, Bool.true_and,
    decide_eq_true_eq, positive]
  split <;> rfl

/-- The cast to `uint32_t` keeps a value that fits. -/
theorem toNat_ofInt
    {value : Int}
    (nonneg : 0 ≤ value)
    (small : value < 2 ^ 32) :
    ((UInt32.ofInt value).toNat : Int) = value := by
  have same : (value % 2 ^ 32).toNat = value.toNat := by omega
  have inside : value.toNat < UInt32.size := by
    change value.toNat < 4294967296
    omega
  rw [UInt32.ofInt, same, UInt32.toNat_ofNat_of_lt' inside,
    Int.toNat_of_nonneg nonneg]

/-- For every decimal line, entered after any answers and for any record: an
accepted number is the number typed exactly if that is below 2^32. -/
theorem storesTyped_iff
    (line : DecimalLine)
    (rest : List UInt8)
    (earlier : Answers)
    (fetched : RecordT) :
    StoresTyped line rest earlier fetched ↔ line.val.value < 2 ^ 32 := by
  unfold StoresTyped
  rw [reply_decimalLine]
  constructor
  · intro stores
    by_cases positive : 0 < line.val.value
    · rw [if_pos positive] at stores
      exact (stores _ rfl).2.1
    · exact Int.lt_of_le_of_lt (Int.not_lt.mp positive) (by decide)
  · intro small number accepted
    split at accepted
    · rename_i positive
      have whole : saturate line.val.value = line.val.value := by
        unfold saturate longMax longMin
        omega
      rw [whole] at accepted
      cases accepted
      refine ⟨positive, small, ?_⟩
      have number := toNat_ofInt (Int.le_of_lt positive) small
      change ((RecordT.inventoryNumber (RecordT.patch _ _
        (inventoryBytes _)) : Nat) : Int) = _
      rw [RecordT.inventoryNumber_patch, number]
    · cases accepted

/-- The line `4294967296`. -/
def twoPow32 : DecimalLine :=
  ⟨⟨.none, [4, 2, 9, 4, 9, 6, 7, 2, 9, 6], by decide⟩, by decide⟩

/-- The number 2^32 is accepted and stored as 0. -/
theorem twoPow32_stored :
    twoPow32.reply [] = some (.number 0) ∧
      ¬StoresTyped twoPow32 [] ⟨none, none, none⟩ zeroRecord := by
  have accepted : twoPow32.reply [] = some (.number 0) := by decide +kernel
  refine ⟨accepted, ?_⟩
  intro stores
  exact absurd (stores 0 accepted).2.1 (by decide)

end RecordEditor
end OSaSP
