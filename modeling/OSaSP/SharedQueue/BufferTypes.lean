import OSaSP.Foundations.RingWindow

/-!
# The shared queue of the process version

The queue lives in a System V shared memory segment and is only touched under
`QUEUE_MUTEX`.  Its two indices wrap lazily: an index may rest at
`BUFFER_CAPACITY` and is set back to zero by the next operation that uses it.
`add_message_to_queue` and `get_message_from_queue` are written as a sequence
of statements, because a child can be killed between any two of them.

`total_added_count` and `total_extracted_count` are 64-bit counters that run
for the whole life of the segment, so they wrap; the other three fields never
leave `0 … BUFFER_CAPACITY`.
-/

namespace OSaSP
namespace SharedQueue

/-- `MAX_PAYLOAD_SIZE`. -/
def maxPayloadSize : Nat := (256 + 3) / 4 * 4

/-- `MAX_CHILD_PROCESSES`. -/
def maxChildProcesses : Nat := 1024

/-- `BUFFER_CAPACITY`. -/
def bufferCapacity : Nat := 4096

/-- The message record placed in the queue. -/
structure MsgPayload where
  msgType : Int8
  msgHash : UInt16
  dataLenBytes : UInt8
  payloadData : Vector UInt8 maxPayloadSize
  deriving DecidableEq

/-- A message record after `memset` to zero. -/
def MsgPayload.zero : MsgPayload where
  msgType := 0
  msgHash := 0
  dataLenBytes := 0
  payloadData := Vector.replicate maxPayloadSize 0

/-- Byte `offset` of the record in memory: the type, one byte of padding, the
two bytes of the hash, the length, then the payload. -/
def MsgPayload.byteAt (msg : MsgPayload) (offset : Nat) : UInt8 :=
  if offset = 0 then msg.msgType.toUInt8
  else if offset = 1 then 0
  else if offset = 2 then (msg.msgHash &&& 0xFF).toUInt8
  else if offset = 3 then (msg.msgHash >>> 8).toUInt8
  else if offset = 4 then msg.dataLenBytes
  else msg.payloadData.getD (offset - 5) 0

/-- `offsetof(MsgPayload, msg_hash)`. -/
def hashFieldOffset : Nat := 2

/-- `compute_checksum`: the bytes below the computed size, less the two bytes
of the hash field, folded into `hash * 33 + byte` and cut to 16 bits. -/
def computeChecksum (msg : MsgPayload) : UInt16 :=
  let dataToHashSize := 1 + 1 + msg.dataLenBytes.toNat
  let hashVal := (List.range dataToHashSize).foldl
    (fun (hashVal : UInt32) offset =>
      if hashFieldOffset ≤ offset ∧ offset < hashFieldOffset + 2 then hashVal
      else ((hashVal <<< 5) + hashVal) + (msg.byteAt offset).toUInt32)
    5381
  (hashVal &&& 0xFFFF).toUInt16

/-- `generate_and_fill_message` on a zeroed record, with the successive values
of `rand()` given by `rand`: the first decides the size, the following ones
the payload. -/
def generateAndFillMessage (rand : Nat → Nat) : MsgPayload :=
  let randomValueForSize := rand 0 % 257
  let dataLenBytes : UInt8 :=
    if randomValueForSize = 256 then 0 else UInt8.ofNat randomValueForSize
  let msg : MsgPayload :=
    { msgType := if randomValueForSize = 256 then -1 else 0
      msgHash := 0
      dataLenBytes
      payloadData := Vector.ofFn fun index =>
        if index.val < dataLenBytes.toNat then
          UInt8.ofNat (rand (index.val + 1) % 256)
        else 0 }
  { msg with msgHash := computeChecksum msg }

/-- `process_and_verify_message`: whether the stored hash is the checksum of
the record with its hash field cleared. -/
def processAndVerifyMessage (msg : MsgPayload) : Bool :=
  msg.msgHash == computeChecksum { msg with msgHash := 0 }

/-- The record in shared memory.  The slot array is a memory indexed by slot
number; which slots are touched is recorded by the processes that touch
them. -/
structure QueueBuffer where
  totalAddedCount : UInt64
  totalExtractedCount : UInt64
  currentMsgCount : Nat
  bufferHeadIdx : Nat
  bufferTailIdx : Nat
  messageBuffer : Nat → MsgPayload

/-- `initialize_queue`. -/
def initializeQueue : QueueBuffer where
  totalAddedCount := 0
  totalExtractedCount := 0
  currentMsgCount := 0
  bufferHeadIdx := 0
  bufferTailIdx := 0
  messageBuffer := fun _ => .zero

namespace QueueBuffer

/-- The full test of `add_message_to_queue`. -/
def isFull (queue : QueueBuffer) : Bool :=
  queue.currentMsgCount == bufferCapacity - 1

/-- The empty test of `get_message_from_queue`. -/
def isEmpty (queue : QueueBuffer) : Bool :=
  queue.currentMsgCount == 0

/-- An index resting at the capacity is set back to zero before its use. -/
def wrapIndex (index : Nat) : Nat :=
  if index = bufferCapacity then 0 else index

end QueueBuffer

/-! ## The statements of `add_message_to_queue` -/

/-- Places inside `add_message_to_queue`, each named after the statement that
comes next. -/
inductive AddPoint
  | checkFull
  | wrapHead
  | storeMessage
  | advanceHead
  | countMessage
  | countAdded
  deriving DecidableEq

/-- What remains of an addition after one of its statements. -/
inductive Progress (Point : Type)
  | next (point : Point)
  | returned
  | exited

/-- Execute the statement at one place of `add_message_to_queue`. -/
def AddPoint.execute
    (queue : QueueBuffer)
    (msg : MsgPayload) : AddPoint → QueueBuffer × Progress AddPoint
  | .checkFull =>
      if queue.isFull then (queue, .exited) else (queue, .next .wrapHead)
  | .wrapHead =>
      ({ queue with
          bufferHeadIdx := QueueBuffer.wrapIndex queue.bufferHeadIdx },
        .next .storeMessage)
  | .storeMessage =>
      ({ queue with
          messageBuffer :=
            Function.update queue.messageBuffer queue.bufferHeadIdx msg },
        .next .advanceHead)
  | .advanceHead =>
      ({ queue with bufferHeadIdx := queue.bufferHeadIdx + 1 },
        .next .countMessage)
  | .countMessage =>
      ({ queue with currentMsgCount := queue.currentMsgCount + 1 },
        .next .countAdded)
  | .countAdded =>
      ({ queue with totalAddedCount := queue.totalAddedCount + 1 },
        .returned)

/-- `add_message_to_queue` as a whole: the new queue and the returned count,
or nothing when the full test makes the process exit. -/
def addMessageToQueue
    (queue : QueueBuffer)
    (msg : MsgPayload) : Option (QueueBuffer × UInt64) :=
  if queue.isFull then none
  else
    let slot := QueueBuffer.wrapIndex queue.bufferHeadIdx
    let added : QueueBuffer :=
      { queue with
        bufferHeadIdx := slot + 1
        messageBuffer := Function.update queue.messageBuffer slot msg
        currentMsgCount := queue.currentMsgCount + 1
        totalAddedCount := queue.totalAddedCount + 1 }
    some (added, added.totalAddedCount)

/-- The queue an addition to `queue` has left behind at one of its places. -/
def AddPoint.reached
    (queue : QueueBuffer)
    (msg : MsgPayload) : AddPoint → QueueBuffer
  | .checkFull | .wrapHead => queue
  | .storeMessage =>
      { queue with
        bufferHeadIdx := QueueBuffer.wrapIndex queue.bufferHeadIdx }
  | .advanceHead =>
      let slot := QueueBuffer.wrapIndex queue.bufferHeadIdx
      { queue with
        bufferHeadIdx := slot
        messageBuffer := Function.update queue.messageBuffer slot msg }
  | .countMessage =>
      let slot := QueueBuffer.wrapIndex queue.bufferHeadIdx
      { queue with
        bufferHeadIdx := slot + 1
        messageBuffer := Function.update queue.messageBuffer slot msg }
  | .countAdded =>
      let slot := QueueBuffer.wrapIndex queue.bufferHeadIdx
      { queue with
        bufferHeadIdx := slot + 1
        messageBuffer := Function.update queue.messageBuffer slot msg
        currentMsgCount := queue.currentMsgCount + 1 }

/-- One statement takes an addition from one place to the next. -/
theorem AddPoint.execute_reached
    (queue : QueueBuffer)
    (msg : MsgPayload)
    {point next : AddPoint}
    {after : QueueBuffer}
    (executed : point.execute (point.reached queue msg) msg =
      (after, .next next)) :
    after = next.reached queue msg := by
  cases point with
  | checkFull =>
      cases full : queue.isFull <;>
        simp only [AddPoint.execute, AddPoint.reached, full] at executed <;>
        cases executed
      rfl
  | wrapHead => cases executed; rfl
  | storeMessage => cases executed; rfl
  | advanceHead => cases executed; rfl
  | countMessage => cases executed; rfl
  | countAdded => cases executed

/-- An addition only gets past its full test when the queue is not full. -/
theorem AddPoint.notFull_of_execute
    {queue after : QueueBuffer}
    {msg : MsgPayload}
    {next : AddPoint}
    (executed : AddPoint.checkFull.execute queue msg =
      (after, .next next)) :
    queue.isFull = false := by
  cases full : queue.isFull with
  | false => rfl
  | true => simp [AddPoint.execute, full] at executed

/-- Only the last statement returns. -/
theorem AddPoint.eq_countAdded_of_execute
    {queue after : QueueBuffer}
    {msg : MsgPayload}
    {point : AddPoint}
    (executed : point.execute queue msg = (after, .returned)) :
    point = .countAdded := by
  cases point with
  | checkFull =>
      cases full : queue.isFull <;>
        simp [AddPoint.execute, full] at executed
  | countAdded => rfl
  | wrapHead | storeMessage | advanceHead | countMessage => cases executed

/-- Only the full test exits, and it leaves the queue as it found it. -/
theorem AddPoint.eq_checkFull_of_execute
    {queue after : QueueBuffer}
    {msg : MsgPayload}
    {point : AddPoint}
    (executed : point.execute queue msg = (after, .exited)) :
    point = .checkFull ∧ after = queue ∧ queue.isFull = true := by
  cases point with
  | checkFull =>
      cases full : queue.isFull <;>
        simp [AddPoint.execute, full] at executed
      exact ⟨rfl, executed.symm, rfl⟩
  | wrapHead | storeMessage | advanceHead | countMessage | countAdded =>
      cases executed

/-- The last statement completes `add_message_to_queue`. -/
theorem AddPoint.execute_countAdded_reached
    (queue : QueueBuffer)
    (msg : MsgPayload)
    (notFull : queue.isFull = false) :
    addMessageToQueue queue msg =
      some ((AddPoint.countAdded.execute
          (AddPoint.countAdded.reached queue msg) msg).1,
        queue.totalAddedCount + 1) := by
  simp [addMessageToQueue, notFull, AddPoint.execute, AddPoint.reached]

/-! ## The statements of `get_message_from_queue` -/

/-- Places inside `get_message_from_queue`, each named after the statement
that comes next. -/
inductive GetPoint
  | checkEmpty
  | wrapTail
  | loadMessage
  | advanceTail
  | countMessage
  | countExtracted
  deriving DecidableEq

/-- Execute the statement at one place of `get_message_from_queue`; `msg` is
the caller's record that the load overwrites. -/
def GetPoint.execute
    (queue : QueueBuffer)
    (msg : MsgPayload) :
    GetPoint → QueueBuffer × MsgPayload × Progress GetPoint
  | .checkEmpty =>
      if queue.isEmpty then (queue, msg, .exited)
      else (queue, msg, .next .wrapTail)
  | .wrapTail =>
      ({ queue with
          bufferTailIdx := QueueBuffer.wrapIndex queue.bufferTailIdx },
        msg, .next .loadMessage)
  | .loadMessage =>
      (queue, queue.messageBuffer queue.bufferTailIdx, .next .advanceTail)
  | .advanceTail =>
      ({ queue with bufferTailIdx := queue.bufferTailIdx + 1 },
        msg, .next .countMessage)
  | .countMessage =>
      ({ queue with currentMsgCount := queue.currentMsgCount - 1 },
        msg, .next .countExtracted)
  | .countExtracted =>
      ({ queue with totalExtractedCount := queue.totalExtractedCount + 1 },
        msg, .returned)

/-- `get_message_from_queue` as a whole: the new queue, the extracted message
and the returned count, or nothing when the empty test makes the process
exit. -/
def getMessageFromQueue
    (queue : QueueBuffer) : Option (QueueBuffer × MsgPayload × UInt64) :=
  if queue.isEmpty then none
  else
    let slot := QueueBuffer.wrapIndex queue.bufferTailIdx
    let extracted : QueueBuffer :=
      { queue with
        bufferTailIdx := slot + 1
        currentMsgCount := queue.currentMsgCount - 1
        totalExtractedCount := queue.totalExtractedCount + 1 }
    some (extracted, queue.messageBuffer slot, extracted.totalExtractedCount)

/-- The queue an extraction from `queue` has left behind at one of its
places. -/
def GetPoint.reached (queue : QueueBuffer) : GetPoint → QueueBuffer
  | .checkEmpty | .wrapTail => queue
  | .loadMessage | .advanceTail =>
      { queue with
        bufferTailIdx := QueueBuffer.wrapIndex queue.bufferTailIdx }
  | .countMessage =>
      { queue with
        bufferTailIdx := QueueBuffer.wrapIndex queue.bufferTailIdx + 1 }
  | .countExtracted =>
      { queue with
        bufferTailIdx := QueueBuffer.wrapIndex queue.bufferTailIdx + 1
        currentMsgCount := queue.currentMsgCount - 1 }

/-- Whether the caller's record has been loaded at a place. -/
def GetPoint.loaded : GetPoint → Bool
  | .checkEmpty | .wrapTail | .loadMessage => false
  | .advanceTail | .countMessage | .countExtracted => true

/-- One statement takes an extraction from one place to the next. -/
theorem GetPoint.execute_reached
    (queue : QueueBuffer)
    (msg : MsgPayload)
    {point next : GetPoint}
    {after : QueueBuffer}
    {msg' : MsgPayload}
    (executed : point.execute (point.reached queue) msg =
      (after, msg', .next next)) :
    after = next.reached queue := by
  cases point with
  | checkEmpty =>
      cases empty : queue.isEmpty <;>
        simp only [GetPoint.execute, GetPoint.reached, empty] at executed <;>
        cases executed
      rfl
  | wrapTail => cases executed; rfl
  | loadMessage => cases executed; rfl
  | advanceTail => cases executed; rfl
  | countMessage => cases executed; rfl
  | countExtracted => cases executed

/-- A place that follows the load holds the message of the slot at the
tail. -/
theorem GetPoint.execute_loaded
    (queue : QueueBuffer)
    (msg : MsgPayload)
    {point next : GetPoint}
    {after : QueueBuffer}
    {msg' : MsgPayload}
    (before : point.loaded = true →
      msg = queue.messageBuffer (QueueBuffer.wrapIndex queue.bufferTailIdx))
    (executed : point.execute (point.reached queue) msg =
      (after, msg', .next next))
    (loaded : next.loaded = true) :
    msg' =
      queue.messageBuffer (QueueBuffer.wrapIndex queue.bufferTailIdx) := by
  cases point with
  | checkEmpty =>
      cases empty : queue.isEmpty <;>
        simp only [GetPoint.execute, GetPoint.reached, empty] at executed <;>
        cases executed
      cases loaded
  | wrapTail => cases executed; cases loaded
  | loadMessage => cases executed; rfl
  | advanceTail => cases executed; exact before rfl
  | countMessage => cases executed; exact before rfl
  | countExtracted => cases executed

/-- An extraction only gets past its empty test when the queue is not
empty. -/
theorem GetPoint.notEmpty_of_execute
    {queue after : QueueBuffer}
    {msg msg' : MsgPayload}
    {next : GetPoint}
    (executed : GetPoint.checkEmpty.execute queue msg =
      (after, msg', .next next)) :
    queue.isEmpty = false := by
  cases empty : queue.isEmpty with
  | false => rfl
  | true => simp [GetPoint.execute, empty] at executed

/-- Only the last statement returns, and it returns the loaded record. -/
theorem GetPoint.eq_countExtracted_of_execute
    {queue after : QueueBuffer}
    {msg msg' : MsgPayload}
    {point : GetPoint}
    (executed : point.execute queue msg = (after, msg', .returned)) :
    point = .countExtracted ∧ msg' = msg := by
  cases point with
  | checkEmpty =>
      cases empty : queue.isEmpty <;>
        simp [GetPoint.execute, empty] at executed
  | countExtracted => cases executed; exact ⟨rfl, rfl⟩
  | wrapTail | loadMessage | advanceTail | countMessage => cases executed

/-- Only the empty test exits, and it leaves the queue and the record as it
found them. -/
theorem GetPoint.eq_checkEmpty_of_execute
    {queue after : QueueBuffer}
    {msg msg' : MsgPayload}
    {point : GetPoint}
    (executed : point.execute queue msg = (after, msg', .exited)) :
    point = .checkEmpty ∧ after = queue ∧ msg' = msg := by
  cases point with
  | checkEmpty =>
      cases empty : queue.isEmpty <;>
        simp [GetPoint.execute, empty] at executed
      exact ⟨rfl, executed.1.symm, executed.2.symm⟩
  | wrapTail | loadMessage | advanceTail | countMessage | countExtracted =>
      cases executed

/-- The last statement completes `get_message_from_queue`. -/
theorem GetPoint.execute_countExtracted_reached
    (queue : QueueBuffer)
    (notEmpty : queue.isEmpty = false) :
    getMessageFromQueue queue =
      some ((GetPoint.countExtracted.execute
          (GetPoint.countExtracted.reached queue) .zero).1,
        queue.messageBuffer (QueueBuffer.wrapIndex queue.bufferTailIdx),
        queue.totalExtractedCount + 1) := by
  simp [getMessageFromQueue, notEmpty, GetPoint.execute, GetPoint.reached]

/-! ## What one whole operation does to the contents -/

/-- The `current_msg_count` slots from `buffer_tail_idx` on. -/
def QueueBuffer.contents (queue : QueueBuffer) : List MsgPayload :=
  Ring.window queue.messageBuffer bufferCapacity queue.bufferTailIdx
    queue.currentMsgCount

/-- A queue whose two indices and count describe a ring with room to spare,
and whose two counters differ by the count. -/
structure QueueBuffer.WellFormed (queue : QueueBuffer) : Prop where
  headBound : queue.bufferHeadIdx ≤ bufferCapacity
  tailBound : queue.bufferTailIdx ≤ bufferCapacity
  countBound : queue.currentMsgCount ≤ bufferCapacity - 1
  headBehind : queue.bufferHeadIdx % bufferCapacity =
    (queue.bufferTailIdx + queue.currentMsgCount) % bufferCapacity
  counters : queue.totalAddedCount - queue.totalExtractedCount =
    UInt64.ofNat queue.currentMsgCount

theorem QueueBuffer.wrapIndex_eq_mod
    {index : Nat}
    (bound : index ≤ bufferCapacity) :
    QueueBuffer.wrapIndex index = index % bufferCapacity := by
  unfold QueueBuffer.wrapIndex
  split
  · rename_i resting
    rw [resting, Nat.mod_self]
  · rw [Nat.mod_eq_of_lt (by omega)]

theorem QueueBuffer.wrapIndex_lt
    {index : Nat}
    (bound : index ≤ bufferCapacity) :
    QueueBuffer.wrapIndex index < bufferCapacity := by
  rw [wrapIndex_eq_mod bound]
  exact Nat.mod_lt _ (by decide)

theorem initializeQueue_wellFormed : initializeQueue.WellFormed where
  headBound := by decide
  tailBound := by decide
  countBound := by decide
  headBehind := rfl
  counters := rfl

/-- A completed addition keeps the queue well formed and appends its message
to the contents. -/
theorem addMessageToQueue_spec
    {queue after : QueueBuffer}
    {msg : MsgPayload}
    {count : UInt64}
    (wellFormed : queue.WellFormed)
    (added : addMessageToQueue queue msg = some (after, count)) :
    after.WellFormed ∧ after.contents = queue.contents ++ [msg] := by
  unfold addMessageToQueue at added
  split at added
  · cases added
  · rename_i notFull
    simp only [Option.some.injEq, Prod.mk.injEq] at added
    obtain ⟨rfl, -⟩ := added
    have room : queue.currentMsgCount < bufferCapacity - 1 := by
      have notLast : queue.currentMsgCount ≠ bufferCapacity - 1 := by
        simpa [QueueBuffer.isFull] using notFull
      have := wellFormed.countBound
      omega
    have slotEq : QueueBuffer.wrapIndex queue.bufferHeadIdx =
        (queue.bufferTailIdx + queue.currentMsgCount) % bufferCapacity := by
      rw [QueueBuffer.wrapIndex_eq_mod wellFormed.headBound,
        wellFormed.headBehind]
    have slotBound := QueueBuffer.wrapIndex_lt wellFormed.headBound
    refine ⟨?_, ?_⟩
    · constructor
      · exact slotBound
      · exact wellFormed.tailBound
      · change queue.currentMsgCount + 1 ≤ bufferCapacity - 1
        omega
      · change (QueueBuffer.wrapIndex queue.bufferHeadIdx + 1) %
            bufferCapacity =
          (queue.bufferTailIdx + (queue.currentMsgCount + 1)) % bufferCapacity
        rw [slotEq, Nat.mod_add_mod, Nat.add_assoc]
      · change queue.totalAddedCount + 1 - queue.totalExtractedCount =
          UInt64.ofNat (queue.currentMsgCount + 1)
        rw [UInt64.ofNat_add, ← wellFormed.counters]
        grind
    · change Ring.window (Function.update queue.messageBuffer
          (QueueBuffer.wrapIndex queue.bufferHeadIdx) msg) bufferCapacity
          queue.bufferTailIdx (queue.currentMsgCount + 1) = _
      rw [slotEq, Ring.window_enqueue _ (by omega)]
      rfl

/-- A completed extraction keeps the queue well formed and takes the first
message of the contents. -/
theorem getMessageFromQueue_spec
    {queue after : QueueBuffer}
    {msg : MsgPayload}
    {count : UInt64}
    (wellFormed : queue.WellFormed)
    (extracted : getMessageFromQueue queue = some (after, msg, count)) :
    after.WellFormed ∧ queue.contents = msg :: after.contents := by
  unfold getMessageFromQueue at extracted
  split at extracted
  · cases extracted
  · rename_i notEmpty
    simp only [Option.some.injEq, Prod.mk.injEq] at extracted
    obtain ⟨rfl, rfl, -⟩ := extracted
    obtain ⟨count, countEq⟩ : ∃ count, queue.currentMsgCount = count + 1 :=
      Nat.exists_eq_succ_of_ne_zero
        (by simpa [QueueBuffer.isEmpty] using notEmpty)
    have slotEq := QueueBuffer.wrapIndex_eq_mod wellFormed.tailBound
    have slotBound := QueueBuffer.wrapIndex_lt wellFormed.tailBound
    have countBound := wellFormed.countBound
    refine ⟨?_, ?_⟩
    · constructor
      · exact wellFormed.headBound
      · exact slotBound
      · change queue.currentMsgCount - 1 ≤ bufferCapacity - 1
        omega
      · change queue.bufferHeadIdx % bufferCapacity =
          (QueueBuffer.wrapIndex queue.bufferTailIdx + 1 +
            (queue.currentMsgCount - 1)) % bufferCapacity
        rw [wellFormed.headBehind, slotEq, countEq, Nat.add_sub_cancel,
          Nat.add_assoc, Nat.mod_add_mod, Nat.add_comm 1]
      · change queue.totalAddedCount - (queue.totalExtractedCount + 1) =
          UInt64.ofNat (queue.currentMsgCount - 1)
        have counters := wellFormed.counters
        rw [countEq, UInt64.ofNat_add] at counters
        rw [countEq, Nat.add_sub_cancel]
        grind
    · change Ring.window queue.messageBuffer bufferCapacity
          queue.bufferTailIdx queue.currentMsgCount =
        queue.messageBuffer (QueueBuffer.wrapIndex queue.bufferTailIdx) ::
          Ring.window queue.messageBuffer bufferCapacity
            (QueueBuffer.wrapIndex queue.bufferTailIdx + 1)
            (queue.currentMsgCount - 1)
      rw [countEq, Ring.window_succ_eq_cons, slotEq, Nat.add_sub_cancel]
      congr 1
      apply Ring.window_congr_start
      rw [Nat.mod_add_mod]

end SharedQueue
end OSaSP
