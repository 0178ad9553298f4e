import OSaSP.Foundations.Mixing
import OSaSP.SharedQueue.BufferTypes
import Mathlib.Data.List.Induction
import Mathlib.Data.Nat.Digits.Defs

/-!
# What the checksum of the process version covers

`compute_checksum` walks over the bytes of the record and stops after as many
bytes as the type, the length and the payload have together.  The bytes it
skips and the padding count against that bound, so the walk ends three payload
bytes early.  Inside the covered bytes the recurrence modulo `2 ^ 16` loses
nothing.
-/

namespace OSaSP
namespace SharedQueue

/-- `hash_val * 33 + byte` in the 16 bits that the checksum keeps. -/
def mixByte (hashVal : UInt16) (byte : UInt8) : UInt16 :=
  hashVal * 33 + byte.toUInt16

/-- Multiplying by 33 can be undone. -/
theorem mixing_mixByte : Mixing mixByte where
  state byte := by
    intro left right same
    have product : left * 33 = right * 33 := by
      have same : left * 33 + byte.toUInt16 = right * 33 + byte.toUInt16 := same
      grind
    have inverse : (33 : UInt16) * 33761 = 1 := rfl
    calc left = left * 33 * 33761 := by
          rw [UInt16.mul_assoc, inverse, UInt16.mul_one]
      _ = right * 33 * 33761 := by rw [product]
      _ = right := by rw [UInt16.mul_assoc, inverse, UInt16.mul_one]
  element hashVal := by
    intro left right same
    have same : hashVal * 33 + left.toUInt16 = hashVal * 33 + right.toUInt16 :=
      same
    have bytes : left.toUInt16 = right.toUInt16 := by grind
    exact UInt8.toUInt16_inj.mp bytes

/-- The bytes that `compute_checksum` reads, in order: the type, the padding
byte and, when the bound reaches that far, the length and the payload up to its
last three bytes. -/
def MsgPayload.covered (msg : MsgPayload) : List UInt8 :=
  if msg.dataLenBytes.toNat ≤ 2 then [msg.msgType.toUInt8, 0]
  else
    msg.msgType.toUInt8 :: 0 :: msg.dataLenBytes ::
      (List.range (msg.dataLenBytes.toNat - 3)).map fun index =>
        msg.payloadData.getD index 0

/-- The loop of `compute_checksum` keeps 16 bits of `hash_val`. -/
theorem toUInt16_step (hashVal : UInt32) (byte : UInt8) :
    (((hashVal <<< 5) + hashVal) + byte.toUInt32).toUInt16 =
      mixByte hashVal.toUInt16 byte := by
  have shifted : hashVal <<< 5 + hashVal = hashVal * 33 := by
    have left : hashVal <<< 5 = hashVal * 32 := by
      apply UInt32.toNat_inj.mp
      simp [Nat.shiftLeft_eq]
    rw [left]
    grind
  rw [shifted, UInt32.toUInt16_add, UInt32.toUInt16_mul,
    UInt8.toUInt16_toUInt32]
  rfl

/-- Keeping 16 bits after every byte gives what the mask gives at the end. -/
theorem toUInt16_foldl (bytes : List UInt8) (hashVal : UInt32) :
    (bytes.foldl (fun (hashVal : UInt32) byte =>
        ((hashVal <<< 5) + hashVal) + byte.toUInt32) hashVal).toUInt16 =
      bytes.foldl mixByte hashVal.toUInt16 := by
  induction bytes generalizing hashVal with
  | nil => rfl
  | cons byte bytes inductionHypothesis =>
      rw [List.foldl_cons, List.foldl_cons, inductionHypothesis,
        toUInt16_step]

/-- The offsets that the loop does not skip carry the covered bytes. -/
theorem MsgPayload.covered_eq_filter (msg : MsgPayload) :
    msg.covered =
      ((List.range (1 + 1 + msg.dataLenBytes.toNat)).filter fun offset =>
        ¬(hashFieldOffset ≤ offset ∧ offset < hashFieldOffset + 2)).map
          msg.byteAt := by
  unfold covered
  split
  · rename_i short
    have lengths : msg.dataLenBytes.toNat = 0 ∨
        msg.dataLenBytes.toNat = 1 ∨ msg.dataLenBytes.toNat = 2 := by omega
    rcases lengths with length | length | length <;> rw [length] <;> rfl
  · rename_i long
    obtain ⟨payload, length⟩ : ∃ payload,
        msg.dataLenBytes.toNat = 3 + payload :=
      ⟨msg.dataLenBytes.toNat - 3, by omega⟩
    have behind : ∀ index,
        decide (¬(hashFieldOffset ≤ 5 + index ∧
          5 + index < hashFieldOffset + 2)) = true := by
      intro index
      apply decide_eq_true
      unfold hashFieldOffset
      omega
    rw [length, Nat.add_sub_cancel_left,
      show 1 + 1 + (3 + payload) = 5 + payload by omega, List.range_add,
      List.filter_append, List.map_append, List.filter_map]
    have all : (List.range payload).filter
        ((fun offset => decide (¬(hashFieldOffset ≤ offset ∧
          offset < hashFieldOffset + 2))) ∘ (5 + ·)) = List.range payload :=
      List.filter_eq_self.mpr fun index _ => behind index
    rw [all, List.map_map]
    have payloadBytes : (List.range payload).map
        (fun index => msg.payloadData.getD index 0) =
          (List.range payload).map (msg.byteAt ∘ (5 + ·)) := by
      apply List.map_congr_left
      intro index _
      simp [byteAt, show 5 + index ≠ 1 by omega,
        show 5 + index ≠ 2 by omega, show 5 + index ≠ 3 by omega,
        show 5 + index ≠ 4 by omega]
    rw [payloadBytes]
    rfl

/-- `compute_checksum` is the recurrence over the covered bytes. -/
theorem computeChecksum_eq (msg : MsgPayload) :
    computeChecksum msg = msg.covered.foldl mixByte 5381 := by
  have masked : ∀ hashVal : UInt32,
      (hashVal &&& 0xFFFF).toUInt16 = hashVal.toUInt16 := by
    intro hashVal
    apply UInt16.toNat_inj.mp
    have mask := Nat.and_two_pow_sub_one_eq_mod (hashVal.toNat % 2 ^ 16) 16
    simpa using mask
  unfold computeChecksum
  dsimp only
  rw [masked, MsgPayload.covered_eq_filter]
  have start : UInt32.toUInt16 5381 = 5381 := rfl
  rw [← start, ← toUInt16_foldl, List.foldl_map, List.foldl_filter]
  congr 2
  funext hashVal offset
  by_cases skipped : hashFieldOffset ≤ offset ∧ offset < hashFieldOffset + 2
  · simp [skipped]
  · simp [skipped]

/-! ## Changes that are reported -/

/-- `process_and_verify_message` compares the stored hash with the recurrence
over the bytes that the changed record covers. -/
theorem processAndVerifyMessage_eq (msg : MsgPayload) :
    processAndVerifyMessage msg =
      (msg.msgHash == msg.covered.foldl mixByte 5381) := by
  unfold processAndVerifyMessage
  rw [computeChecksum_eq]
  rfl

/-- The stored hash is the recurrence over the covered bytes. -/
def MsgPayload.Honest (msg : MsgPayload) : Prop :=
  msg.msgHash = msg.covered.foldl mixByte 5381

theorem generateAndFillMessage_honest (rand : Nat → Nat) :
    (generateAndFillMessage rand).Honest := by
  change computeChecksum _ = _
  rw [computeChecksum_eq]
  rfl

/-- A change that keeps the hash of an honest message is reported exactly when
it changes the result of the recurrence. -/
theorem MsgPayload.Honest.reported_iff
    {msg : MsgPayload}
    (honest : msg.Honest)
    (changed : MsgPayload)
    (sameHash : changed.msgHash = msg.msgHash) :
    processAndVerifyMessage changed = false ↔
      changed.covered.foldl mixByte 5381 ≠
        msg.covered.foldl mixByte 5381 := by
  rw [processAndVerifyMessage_eq, sameHash, honest, beq_eq_false_iff_ne]
  exact ne_comm

/-- The covered bytes as the digits of a number in base 33, behind the digit
5381. -/
def MsgPayload.weighted (msg : MsgPayload) : Nat :=
  Nat.ofDigits 33 ((msg.covered.map UInt8.toNat).reverse ++ [5381])

/-- The recurrence computes that number modulo `2 ^ 16`. -/
theorem toNat_foldl_mixByte (bytes : List UInt8) (hashVal : UInt16) :
    (bytes.foldl mixByte hashVal).toNat =
      Nat.ofDigits 33 ((bytes.map UInt8.toNat).reverse ++ [hashVal.toNat]) %
        2 ^ 16 := by
  induction bytes using List.reverseRecOn with
  | nil =>
      have bound := hashVal.toNat_lt
      simp only [List.foldl_nil, List.map_nil, List.reverse_nil,
        List.nil_append, Nat.ofDigits_singleton]
      omega
  | append_singleton bytes byte inductionHypothesis =>
      rw [List.foldl_append, List.map_append, List.reverse_append]
      simp only [List.foldl_cons, List.foldl_nil, mixByte, List.map_cons,
        List.map_nil, List.reverse_singleton, List.nil_append,
        List.cons_append, Nat.ofDigits_cons, UInt16.toNat_add,
        UInt16.toNat_mul, UInt8.toNat_toUInt16, inductionHypothesis]
      have thirtyThree : UInt16.toNat 33 = 33 := rfl
      rw [thirtyThree]
      omega

/-- The message differs in one byte of its type, its length or its payload. -/
inductive MsgPayload.OneByteChange (msg : MsgPayload) : MsgPayload → Prop
  | msgType
      (msgType : Int8)
      (changed : msgType ≠ msg.msgType) :
      OneByteChange msg { msg with msgType }
  | dataLenBytes
      (dataLenBytes : UInt8)
      (changed : dataLenBytes ≠ msg.dataLenBytes) :
      OneByteChange msg { msg with dataLenBytes }
  | payloadData
      (index : Fin maxPayloadSize)
      (inside : index.val < msg.dataLenBytes.toNat)
      (byte : UInt8)
      (changed : byte ≠ msg.payloadData[index]) :
      OneByteChange msg
        { msg with payloadData := msg.payloadData.set index byte }

/-- A payload byte that the bound reaches is one of the covered bytes. -/
theorem MsgPayload.covered_setPayload
    (msg : MsgPayload)
    (index : Fin maxPayloadSize)
    (byte : UInt8) :
    { msg with payloadData := msg.payloadData.set index byte }.covered =
      if index.val + 3 < msg.dataLenBytes.toNat then
        msg.covered.set (index.val + 3) byte
      else msg.covered := by
  unfold covered
  dsimp only
  by_cases short : msg.dataLenBytes.toNat ≤ 2
  · rw [if_pos short, if_pos short, if_neg (by omega)]
  rw [if_neg short, if_neg short]
  have setBytes : (List.range (msg.dataLenBytes.toNat - 3)).map
      (fun other => (msg.payloadData.set index byte).getD other 0) =
        ((List.range (msg.dataLenBytes.toNat - 3)).map fun other =>
          msg.payloadData.getD other 0).set index.val byte := by
    apply List.ext_getElem
    · simp
    · intro other inside _
      simp only [List.length_map, List.length_range] at inside
      have bound := msg.dataLenBytes.toNat_lt
      have small : other < maxPayloadSize := by
        have size : maxPayloadSize = 256 := rfl
        omega
      have read : ∀ bytes : Vector UInt8 maxPayloadSize,
          bytes.getD other 0 = bytes[other] := by
        intro bytes
        simp [Vector.getD, small]
      rw [List.getElem_map, List.getElem_range, read, Vector.getElem_set,
        List.getElem_set, List.getElem_map, List.getElem_range, read]
  rw [setBytes]
  split
  · rfl
  · rw [List.set_eq_of_length_le (by simp; omega)]

/-- Where a covered payload byte stands. -/
theorem MsgPayload.getElem_covered
    (msg : MsgPayload)
    (index : Fin maxPayloadSize)
    (inside : index.val + 3 < msg.dataLenBytes.toNat) :
    ∃ bound : index.val + 3 < msg.covered.length,
      msg.covered[index.val + 3] = msg.payloadData[index] := by
  have long : ¬msg.dataLenBytes.toNat ≤ 2 := by omega
  have coveredEq : msg.covered = msg.msgType.toUInt8 :: 0 ::
      msg.dataLenBytes ::
        (List.range (msg.dataLenBytes.toNat - 3)).map fun index =>
          msg.payloadData.getD index 0 := by
    rw [covered, if_neg long]
  refine ⟨by rw [coveredEq]; simp; omega, ?_⟩
  simp only [coveredEq, List.getElem_cons_succ, List.getElem_map,
    List.getElem_range]
  simp [Vector.getD]

namespace MsgPayload.Honest

variable {msg : MsgPayload}

/-- The type is the first covered byte, whatever the length is. -/
theorem reported_of_type
    (honest : msg.Honest)
    {msgType : Int8}
    (changed : msgType ≠ msg.msgType) :
    processAndVerifyMessage { msg with msgType } = false := by
  have first : ∀ type : Int8,
      { msg with msgType := type }.covered =
        type.toUInt8 :: msg.covered.tail := by
    intro type
    unfold covered
    dsimp only
    split <;> rfl
  have own : msg.covered = msg.msgType.toUInt8 :: msg.covered.tail :=
    first msg.msgType
  apply (honest.reported_iff { msg with msgType := msgType } rfl).mpr
  intro same
  rw [first, own] at same
  have types := mixing_mixByte.foldl_middle_inj 5381 [] _ same
  exact changed (congrArg UInt8.toInt8 types)

theorem reported_of_payload
    (honest : msg.Honest)
    {index : Fin maxPayloadSize}
    (inside : index.val + 3 < msg.dataLenBytes.toNat)
    {byte : UInt8}
    (changed : byte ≠ msg.payloadData[index]) :
    processAndVerifyMessage
      { msg with payloadData := msg.payloadData.set index byte } = false := by
  apply (honest.reported_iff
    { msg with payloadData := msg.payloadData.set index byte } rfl).mpr
  rw [covered_setPayload, if_pos inside]
  obtain ⟨bound, stands⟩ := msg.getElem_covered index inside
  apply mixing_mixByte.foldl_set_ne 5381 bound
  rw [stands]
  exact changed

/-- The last three payload bytes may change unnoticed. -/
theorem unreported_of_payload
    (honest : msg.Honest)
    {index : Fin maxPayloadSize}
    (tail : msg.dataLenBytes.toNat ≤ index.val + 3)
    (byte : UInt8) :
    processAndVerifyMessage
      { msg with payloadData := msg.payloadData.set index byte } = true := by
  rw [processAndVerifyMessage_eq, covered_setPayload,
    if_neg (Nat.not_lt.mpr tail), beq_iff_eq]
  exact honest

theorem reported_of_length_iff
    (honest : msg.Honest)
    (dataLenBytes : UInt8) :
    processAndVerifyMessage { msg with dataLenBytes } = false ↔
      { msg with dataLenBytes }.weighted % 2 ^ 16 ≠
        msg.weighted % 2 ^ 16 := by
  rw [honest.reported_iff { msg with dataLenBytes := dataLenBytes } rfl,
    ne_eq, ← UInt16.toNat_inj,
    toNat_foldl_mixByte, toNat_foldl_mixByte]
  rfl

end MsgPayload.Honest

/-- Which changes of one byte are reported: every change of the type and of a
payload byte that the bound reaches, and a change of the length exactly when
the covered bytes of the two lengths are different numbers in base 33, modulo
`2 ^ 16`. -/
structure MsgPayload.ChangesReported (msg : MsgPayload) : Prop where
  msgType : ∀ msgType, msgType ≠ msg.msgType →
    processAndVerifyMessage { msg with msgType } = false
  payloadData : ∀ (index : Fin maxPayloadSize) (byte : UInt8),
    index.val + 3 < msg.dataLenBytes.toNat →
      byte ≠ msg.payloadData[index] →
        processAndVerifyMessage
          { msg with payloadData := msg.payloadData.set index byte } = false
  dataLenBytes : ∀ dataLenBytes, 2 < msg.dataLenBytes.toNat →
    2 < UInt8.toNat dataLenBytes →
      (processAndVerifyMessage { msg with dataLenBytes } = false ↔
        { msg with dataLenBytes }.weighted % 2 ^ 16 ≠ msg.weighted % 2 ^ 16)

/-- What `rand()` returns after `srand(505614)`. -/
def nineBytes : Nat → Nat := fun call =>
  [587135784, 733241394, 4799474, 273667900, 1117090898, 1090494759,
    1473883092, 2001423010, 405498328, 41463800].getD call 0

end SharedQueue
end OSaSP
