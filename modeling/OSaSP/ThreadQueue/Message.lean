import OSaSP.Foundations.Mixing
import Mathlib.Algebra.Order.Group.Nat

/-!
# The messages of the thread version

The hash of a message is the exclusive or of its type, its size and its data,
moved to the upper byte.  One changed byte of the type or the data always
shows.  The size also decides how much data is hashed, so cutting a message
goes unnoticed when the dropped bytes make up for the change of the size.
-/

namespace OSaSP
namespace ThreadQueue

/-- `MAX_DATA_SIZE`. -/
def maxDataSize : Nat := 255

/-- `PADDED_DATA_SIZE`. -/
def paddedDataSize (size : Nat) : Nat := (size + 1 + 3) / 4 * 4

/-- A message with the bytes allocated behind its header. -/
structure Message where
  type : UInt8
  hash : UInt16
  size : UInt8
  data : List UInt8
  deriving DecidableEq

/-- The loop of `calculate_hash` from index `i` on; `none` when it leaves the
padded data. -/
def hashData
    (msg : Message)
    (paddedDataSize : Nat) : Nat → Nat → UInt16 → Option UInt16
  | 0, _, hashVal => some hashVal
  | left + 1, i, hashVal =>
      if i ≥ paddedDataSize then none
      else
        hashData msg paddedDataSize left (i + 1)
          (hashVal ^^^ (msg.data.getD i 0).toUInt16)

/-- `calculate_hash`; `none` is the null pointer. -/
def calculateHash : Option Message → UInt16
  | none => 0
  | some msg =>
      let dataLen := msg.size.toNat + 1
      let hashVal := 0 ^^^ msg.type.toUInt16 ^^^ msg.size.toUInt16
      match hashData msg (paddedDataSize msg.size.toNat) dataLen 0 hashVal with
      | none => 0xFFFF
      | some hashVal => hashVal <<< 8 ||| hashVal >>> 8

/-- The loop of `create_message` from index `i` on, with the successive values
of `rand_r`; `none` when it leaves the padded data. -/
def fillData
    (rand : Nat → Nat)
    (paddedDataSize : Nat) : Nat → Nat → Option (List UInt8)
  | 0, _ => some []
  | left + 1, i =>
      if i ≥ paddedDataSize then none
      else
        (fillData rand paddedDataSize left (i + 1)).map
          (UInt8.ofNat (rand (i + 2) % 256) :: ·)

/-- `create_message`, with the successive values of `rand_r` given by `rand`:
the first decides the size, the second the type, the following ones the
data. -/
def createMessage (rand : Nat → Nat) (allocated : Bool) : Option Message :=
  let dataSizeField := UInt8.ofNat (rand 0 % (maxDataSize + 1))
  let paddedDataSize := paddedDataSize dataSizeField.toNat
  if allocated then
    let actualDataLen := dataSizeField.toNat + 1
    (fillData rand paddedDataSize actualDataLen 0).map fun data =>
      let msg : Message :=
        { type := UInt8.ofNat (rand 1 % 256)
          hash := 0
          size := dataSizeField
          data := data ++ List.replicate (paddedDataSize - actualDataLen) 0 }
      { msg with hash := calculateHash (some msg) }
  else none

/-- Whether the check of a consumer prints `FAIL!`. -/
def Message.checkFails (msg : Message) : Bool :=
  msg.hash != calculateHash (some msg)

/-! ## What is hashed -/

/-- Exclusive or keeps the state and the byte apart. -/
theorem mixing_xor : Mixing fun hashVal byte : UInt8 => hashVal ^^^ byte where
  state byte _ _ same := (UInt8.xor_left_inj byte).mp same
  element hashVal _ _ same := (UInt8.xor_right_inj hashVal).mp same

/-- The exclusive or of some bytes. -/
def xorBytes (bytes : List UInt8) : UInt8 :=
  bytes.foldl (· ^^^ ·) 0

theorem foldl_xor (bytes : List UInt8) (hashVal : UInt8) :
    bytes.foldl (· ^^^ ·) hashVal = hashVal ^^^ xorBytes bytes := by
  induction bytes generalizing hashVal with
  | nil => exact UInt8.xor_zero.symm
  | cons byte bytes inductionHypothesis =>
      rw [xorBytes, List.foldl_cons, List.foldl_cons, inductionHypothesis,
        inductionHypothesis, UInt8.zero_xor, UInt8.xor_assoc]

/-- Moving one part of an exclusive or to the other side. -/
theorem xor_eq_iff (first left shared right last : UInt8) :
    first ^^^ left ^^^ shared = first ^^^ right ^^^ shared ^^^ last ↔
      left ^^^ right = last := by
  have leftEq : first ^^^ left ^^^ shared = first ^^^ shared ^^^ left := by
    rw [UInt8.xor_assoc, UInt8.xor_comm left, ← UInt8.xor_assoc]
  have rightEq : first ^^^ right ^^^ shared ^^^ last =
      first ^^^ shared ^^^ (right ^^^ last) := by
    rw [UInt8.xor_assoc first, UInt8.xor_comm right, ← UInt8.xor_assoc,
      UInt8.xor_assoc]
  have cancel : right ^^^ (right ^^^ last) = last := by
    rw [← UInt8.xor_assoc, UInt8.xor_self, UInt8.zero_xor]
  rw [leftEq, rightEq, UInt8.xor_right_inj, UInt8.xor_comm left,
    ← UInt8.xor_right_inj right, cancel]

theorem xorBytes_append (left right : List UInt8) :
    xorBytes (left ++ right) = xorBytes left ^^^ xorBytes right := by
  rw [xorBytes, List.foldl_append, foldl_xor right]
  rfl

/-- The bytes that `calculate_hash` reads. -/
def Message.hashed (msg : Message) : List UInt8 :=
  msg.type :: msg.size :: msg.data.take (msg.size.toNat + 1)

/-- The padded data has room for all the bytes that the size announces. -/
theorem lt_paddedDataSize (size : Nat) : size < paddedDataSize size := by
  unfold paddedDataSize
  omega

/-- The loop mixes the data from `i` on into the hash. -/
theorem hashData_eq
    {msg : Message}
    {padded left i : Nat}
    (bound : i + left ≤ padded)
    (inside : i + left ≤ msg.data.length)
    (hashVal : UInt8) :
    hashData msg padded left i hashVal.toUInt16 =
      some (((msg.data.drop i).take left).foldl (· ^^^ ·)
        hashVal).toUInt16 := by
  induction left generalizing i hashVal with
  | zero => rw [List.take_zero]; rfl
  | succ left inductionHypothesis =>
      have here : i < msg.data.length := by omega
      have step : hashVal.toUInt16 ^^^ (msg.data.getD i 0).toUInt16 =
          (hashVal ^^^ msg.data[i]).toUInt16 := by
        rw [List.getD_eq_getElem?_getD, List.getElem?_eq_getElem here,
          Option.getD_some, UInt8.toUInt16_xor]
      rw [hashData, if_neg (by omega), step,
        inductionHypothesis (by omega) (by omega),
        List.drop_eq_getElem_cons here, List.take_succ_cons, List.foldl_cons]

/-- The hash is the exclusive or of the hashed bytes in the upper byte. -/
theorem calculateHash_eq
    {msg : Message}
    (inside : msg.size.toNat < msg.data.length) :
    calculateHash (some msg) = (xorBytes msg.hashed).toUInt16 <<< 8 := by
  have start : 0 ^^^ msg.type.toUInt16 ^^^ msg.size.toUInt16 =
      (msg.type ^^^ msg.size).toUInt16 := by
    rw [UInt16.zero_xor, UInt8.toUInt16_xor]
  have bound := lt_paddedDataSize msg.size.toNat
  have upper : ∀ byte : UInt8, byte.toUInt16 >>> 8 = 0 := by
    intro byte
    apply UInt16.toNat_inj.mp
    have small := byte.toNat_lt
    simp [Nat.shiftRight_eq_div_pow]
    omega
  have looped : hashData msg (paddedDataSize msg.size.toNat)
      (msg.size.toNat + 1) 0 (msg.type ^^^ msg.size).toUInt16 =
        some (((msg.data.drop 0).take (msg.size.toNat + 1)).foldl (· ^^^ ·)
          (msg.type ^^^ msg.size)).toUInt16 :=
    hashData_eq (by omega) (by omega) _
  simp only [calculateHash, start, looped]
  rw [upper, UInt16.or_zero, Message.hashed, xorBytes, List.foldl_cons,
    List.foldl_cons, UInt8.zero_xor]
  rfl

/-- The upper byte determines the exclusive or. -/
theorem upper_byte_inj
    {left right : UInt8}
    (same : left.toUInt16 <<< 8 = right.toUInt16 <<< 8) :
    left = right := by
  have leftSmall := left.toNat_lt
  have rightSmall := right.toNat_lt
  have values := congrArg UInt16.toNat same
  simp [Nat.shiftLeft_eq] at values
  apply UInt8.toNat_inj.mp
  omega

/-! ## Messages of `create_message` -/

/-- The loop of `create_message` stays inside the padded data. -/
theorem fillData_eq_some
    (rand : Nat → Nat)
    {padded : Nat}
    (left i : Nat)
    (bound : i + left ≤ padded) :
    ∃ data, fillData rand padded left i = some data ∧ data.length = left := by
  induction left generalizing i with
  | zero => exact ⟨[], rfl, rfl⟩
  | succ left inductionHypothesis =>
      obtain ⟨data, filled, length⟩ := inductionHypothesis (i + 1) (by omega)
      refine ⟨UInt8.ofNat (rand (i + 2) % 256) :: data, ?_, ?_⟩
      · rw [fillData, if_neg (by omega), filled, Option.map_some]
      · rw [List.length_cons, length]

/-- The data has all the bytes that the size announces, and the stored hash is
that of the message. -/
structure Message.Honest (msg : Message) : Prop where
  inside : msg.size.toNat < msg.data.length
  hash : msg.hash = (xorBytes msg.hashed).toUInt16 <<< 8

/-- With memory `create_message` returns a message, whatever `rand_r` says. -/
theorem createMessage_honest (rand : Nat → Nat) :
    ∃ msg, createMessage rand true = some msg ∧ msg.Honest := by
  let size := UInt8.ofNat (rand 0 % (maxDataSize + 1))
  have bound := lt_paddedDataSize size.toNat
  obtain ⟨data, filled, length⟩ := fillData_eq_some rand (size.toNat + 1) 0
    (by omega : 0 + (size.toNat + 1) ≤ paddedDataSize size.toNat)
  let blank : Message :=
    { type := UInt8.ofNat (rand 1 % 256)
      hash := 0
      size
      data := data ++
        List.replicate (paddedDataSize size.toNat - (size.toNat + 1)) 0 }
  have inside : blank.size.toNat < blank.data.length := by
    change size.toNat < (data ++ _).length
    rw [List.length_append, length]
    omega
  refine ⟨{ blank with hash := calculateHash (some blank) }, ?_, inside, ?_⟩
  · change (fillData rand (paddedDataSize size.toNat) (size.toNat + 1) 0).map
      _ = _
    rw [filled]
    rfl
  · exact calculateHash_eq inside

theorem Message.honest_of_createMessage
    {rand : Nat → Nat}
    {allocated : Bool}
    {msg : Message}
    (created : createMessage rand allocated = some msg) :
    msg.Honest := by
  cases allocated with
  | false => cases created
  | true =>
      obtain ⟨other, same, honest⟩ := createMessage_honest rand
      rw [created, Option.some.injEq] at same
      exact same ▸ honest

/-! ## Changes that are noticed -/

/-- The message differs in one byte of its type, its size or its data; a
changed size is a smaller one. -/
inductive Message.OneByteChange (msg : Message) : Message → Prop
  | type (type : UInt8) (changed : type ≠ msg.type) :
      OneByteChange msg { msg with type }
  | size (size : UInt8) (smaller : size < msg.size) :
      OneByteChange msg { msg with size }
  | data
      (index : Nat)
      (inside : index ≤ msg.size.toNat)
      (byte : UInt8)
      (changed : byte ≠ msg.data.getD index 0) :
      OneByteChange msg { msg with data := msg.data.set index byte }

namespace Message.Honest

variable {msg : Message}

/-- A change that keeps the stored hash is noticed exactly when it changes the
exclusive or. -/
theorem checkFails_iff
    (honest : msg.Honest)
    (changed : Message)
    (sameHash : changed.hash = msg.hash)
    (inside : changed.size.toNat < changed.data.length) :
    changed.checkFails = true ↔
      xorBytes changed.hashed ≠ xorBytes msg.hashed := by
  rw [checkFails, sameHash, honest.hash, calculateHash_eq inside, bne_iff_ne]
  constructor
  · intro different same
    exact different (by rw [same])
  · intro different same
    exact different (upper_byte_inj same.symm)

theorem checkFails_of_type
    (honest : msg.Honest)
    {type : UInt8}
    (changed : type ≠ msg.type) :
    { msg with type }.checkFails = true := by
  apply (honest.checkFails_iff { msg with type := type } rfl
    honest.inside).mpr
  intro same
  exact changed (mixing_xor.foldl_middle_inj 0 [] _ same)

theorem checkFails_of_data
    (honest : msg.Honest)
    {index : Nat}
    (inside : index ≤ msg.size.toNat)
    {byte : UInt8}
    (changed : byte ≠ msg.data.getD index 0) :
    { msg with data := msg.data.set index byte }.checkFails = true := by
  have size := honest.inside
  apply (honest.checkFails_iff { msg with data := msg.data.set index byte }
    rfl (by rw [List.length_set]; exact size)).mpr
  have hashed : { msg with data := msg.data.set index byte }.hashed =
      msg.hashed.set (index + 2) byte := by
    simp only [hashed, List.set_cons_succ, List.take_set]
  have bound : index + 2 < msg.hashed.length := by
    simp only [Message.hashed, List.length_cons, List.length_take]
    omega
  rw [hashed]
  apply mixing_xor.foldl_set_ne 0 bound
  have here : index < msg.data.length := by omega
  rw [List.getD_eq_getElem?_getD, List.getElem?_eq_getElem here,
    Option.getD_some] at changed
  simpa [Message.hashed] using changed

/-- Cutting a message is noticed unless the dropped bytes make up for the
change of the size. -/
theorem checkFails_of_size_iff
    (honest : msg.Honest)
    {size : UInt8}
    (smaller : size < msg.size) :
    { msg with size }.checkFails = true ↔
      size ^^^ msg.size ≠
        xorBytes ((msg.data.take (msg.size.toNat + 1)).drop
          (size.toNat + 1)) := by
  have less := UInt8.lt_iff_toNat_lt.mp smaller
  have inside := honest.inside
  rw [honest.checkFails_iff { msg with size := size } rfl
    (Nat.lt_trans less inside)]
  have split : msg.data.take (msg.size.toNat + 1) =
      msg.data.take (size.toNat + 1) ++
        (msg.data.take (msg.size.toNat + 1)).drop (size.toNat + 1) := by
    have kept := List.take_append_drop (size.toNat + 1)
      (msg.data.take (msg.size.toNat + 1))
    rw [List.take_take, Nat.min_eq_left (by omega)] at kept
    exact kept.symm
  have own : xorBytes msg.hashed = msg.type ^^^ msg.size ^^^
      xorBytes (msg.data.take (size.toNat + 1)) ^^^
        xorBytes ((msg.data.take (msg.size.toNat + 1)).drop
          (size.toNat + 1)) := by
    rw [Message.hashed, split, xorBytes, List.foldl_cons, List.foldl_cons,
      foldl_xor, xorBytes_append, UInt8.zero_xor, ← UInt8.xor_assoc, ← split]
  have cut : xorBytes { msg with size }.hashed = msg.type ^^^ size ^^^
      xorBytes (msg.data.take (size.toNat + 1)) := by
    rw [Message.hashed, xorBytes, List.foldl_cons, List.foldl_cons, foldl_xor,
      UInt8.zero_xor]
  rw [own, cut, not_iff_not]
  exact xor_eq_iff _ _ _ _ _

end Message.Honest

/-- A changed type and a changed data byte of a created message are noticed; a
smaller size is noticed exactly when the exclusive or of the dropped bytes is
not that of the two sizes. -/
theorem created_change_noticed
    (rand : Nat → Nat)
    (allocated : Bool)
    (msg : Message)
    (created : createMessage rand allocated = some msg) :
    (∀ type, type ≠ msg.type → { msg with type }.checkFails = true) ∧
    (∀ index byte, index ≤ msg.size.toNat →
      byte ≠ msg.data.getD index 0 →
        { msg with data := msg.data.set index byte }.checkFails = true) ∧
    (∀ size, size < msg.size →
      ({ msg with size }.checkFails = true ↔
        size ^^^ msg.size ≠
          xorBytes ((msg.data.take (msg.size.toNat + 1)).drop
            (size.toNat + 1)))) := by
  have honest := Message.honest_of_createMessage created
  exact ⟨fun _ changed => honest.checkFails_of_type changed,
    fun _ _ inside changed => honest.checkFails_of_data inside changed,
    fun _ smaller => honest.checkFails_of_size_iff smaller⟩

/-- What `rand_r` returns for a seed of 1472. -/
def twoBytes : Nat → Nat := fun call =>
  [1144737281, 1005856024, 346259761, 1067936769].getD call 0

/-- The message of that seed: the bytes 49 and 1. -/
def twoByteMessage : Message where
  type := 24
  hash := 10496
  size := 1
  data := [49, 1, 0, 0]

/-- Dropping the second byte of this message is not noticed. -/
theorem not_every_change_noticed :
    ¬∀ (rand : Nat → Nat) (allocated : Bool) (msg changed : Message),
      createMessage rand allocated = some msg →
        msg.OneByteChange changed → changed.checkFails = true := by
  intro every
  have noticed := every twoBytes true twoByteMessage _ (by decide)
    (.size 0 (by decide))
  exact absurd noticed (by decide)

/-- Changing it is. -/
theorem twoByteMessage_change_noticed :
    createMessage twoBytes true = some twoByteMessage ∧
      { twoByteMessage with
        data := twoByteMessage.data.set 1 0 }.checkFails = true := by
  have created : createMessage twoBytes true = some twoByteMessage := by
    decide
  exact ⟨created, (created_change_noticed twoBytes true twoByteMessage
    created).2.1 1 0 (by decide) (by decide)⟩

end ThreadQueue
end OSaSP
