import OSaSP.Foundations.RingWindow

/-!
# The circular queues of the thread version

Both queues keep their messages in a ring `buffer` of `capacity` slots with a
`head`, a `tail` and a `count`, all touched under the queue's mutex only.
Messages are pointers to allocated records; the ring moves the pointers.
A resize copies the messages to the front of a new buffer and sets `tail` to
`count`.  When the new capacity is exactly `count`, the tail rests one slot
behind the buffer, and the next insertion writes there.

The C counters are `int` and `long`; they are natural numbers here.
-/

namespace OSaSP
namespace ThreadQueue

/-- A `Message *`: the number of the allocation it came from. -/
abbrev MessagePtr := Nat

/-- The values 0, 1 and -1 of `resize_request`. -/
inductive ResizeRequest
  | none
  | increase
  | decrease
  deriving DecidableEq

/-- The fields that `CircularQueue_Sem` and `CircularQueue_Cond` share. -/
structure CircularQueue where
  buffer : Nat → MessagePtr
  capacity : Nat
  head : Nat
  tail : Nat
  count : Nat
  totalAdded : Nat
  totalExtracted : Nat
  resizeRequest : ResizeRequest
  newCapacityRequest : Int

/-- An access to slot `index` of a buffer of `capacity` slots. -/
structure Access where
  index : Nat
  capacity : Nat
  deriving DecidableEq

/-- What happened to a queue: a message inserted, a message extracted, or a
resize to a capacity at a count. -/
inductive QueueEvent
  | inserted (msg : MessagePtr)
  | extracted (msg : MessagePtr)
  | resized (capacity count : Nat)
  deriving DecidableEq

/-- The events of a queue in order and the slots touched by them. -/
structure History where
  events : List QueueEvent
  accesses : List Access

/-- The history of a queue just initialized. -/
def History.empty : History where
  events := []
  accesses := []

/-- Record one event with the slots it touched. -/
def History.record
    (history : History)
    (event : QueueEvent)
    (accesses : List Access) : History where
  events := history.events ++ [event]
  accesses := history.accesses ++ accesses

/-- The messages inserted so far. -/
def History.added (history : History) : List MessagePtr :=
  history.events.filterMap fun
    | .inserted msg => some msg
    | _ => none

/-- The messages extracted so far. -/
def History.extracted (history : History) : List MessagePtr :=
  history.events.filterMap fun
    | .extracted msg => some msg
    | _ => none

/-- Whether a resize landed exactly on the count and no message was inserted
and no other resize made since. -/
def History.landedExactly (history : History) : Bool :=
  history.events.foldl
    (fun landed event =>
      match event with
      | .inserted _ => false
      | .extracted _ => landed
      | .resized capacity count => capacity == count)
    false

namespace CircularQueue

/-- The common part of `init_queue_sem` and `init_queue_cond`, on the block
that `malloc` returned. -/
def init (size : Nat) (block : Nat → MessagePtr) : CircularQueue where
  buffer := block
  capacity := size
  head := 0
  tail := 0
  count := 0
  totalAdded := 0
  totalExtracted := 0
  resizeRequest := .none
  newCapacityRequest := 0

/-- The insertion of a producer. -/
def insert (queue : CircularQueue) (msg : MessagePtr) : CircularQueue :=
  { queue with
    buffer := Function.update queue.buffer queue.tail msg
    tail := (queue.tail + 1) % queue.capacity
    count := queue.count + 1
    totalAdded := queue.totalAdded + 1 }

/-- The message a consumer extracts. -/
def front (queue : CircularQueue) : MessagePtr :=
  queue.buffer queue.head

/-- The extraction of a consumer. -/
def extract (queue : CircularQueue) : CircularQueue :=
  { queue with
    head := (queue.head + 1) % queue.capacity
    count := queue.count - 1
    totalExtracted := queue.totalExtracted + 1 }

/-- State of the copy loop of a resize. -/
structure Copying where
  newBuffer : Nat → MessagePtr
  currentIndex : Nat
  accesses : List Access

/-- One round of the copy loop. -/
def copyRound
    (queue : CircularQueue)
    (newCapacity : Nat)
    (copying : Copying)
    (i : Nat) : Copying where
  newBuffer :=
    Function.update copying.newBuffer i (queue.buffer copying.currentIndex)
  currentIndex := (copying.currentIndex + 1) % queue.capacity
  accesses := copying.accesses ++
    [⟨copying.currentIndex, queue.capacity⟩, ⟨i, newCapacity⟩]

/-- The copy loop after `rounds` rounds. -/
def copyLoop
    (queue : CircularQueue)
    (newCapacity : Nat)
    (block : Nat → MessagePtr)
    (rounds : Nat) : Copying :=
  (List.range rounds).foldl (queue.copyRound newCapacity)
    ⟨block, queue.head, []⟩

/-- The tests that refuse a resize before anything is allocated. -/
def refuses (queue : CircularQueue) (newCapacity : Int) : Bool :=
  newCapacity ≤ 0 || newCapacity < queue.count

/-- The ring after its messages were copied into a new block. -/
def moveTo
    (queue : CircularQueue)
    (newCapacity : Nat)
    (block : Nat → MessagePtr) : CircularQueue :=
  { queue with
    buffer := (queue.copyLoop newCapacity block queue.count).newBuffer
    head := 0
    tail := queue.count
    capacity := newCapacity }

/-- The slots the copy touches. -/
def moveAccesses
    (queue : CircularQueue)
    (newCapacity : Nat)
    (block : Nat → MessagePtr) : List Access :=
  (queue.copyLoop newCapacity block queue.count).accesses

/-- The `count` slots read from `head` on, wrapping at the capacity. -/
def contents (queue : CircularQueue) : List MessagePtr :=
  Ring.window queue.buffer queue.capacity queue.head queue.count

end CircularQueue

/-! ## The history -/

namespace History

variable (history : History) (accesses : List Access)

@[simp] theorem record_accesses (event : QueueEvent) :
    (history.record event accesses).accesses =
      history.accesses ++ accesses := rfl

@[simp] theorem added_inserted (msg : MessagePtr) :
    (history.record (.inserted msg) accesses).added =
      history.added ++ [msg] := by
  simp [record, added]

@[simp] theorem added_extracted (msg : MessagePtr) :
    (history.record (.extracted msg) accesses).added = history.added := by
  simp [record, added]

@[simp] theorem added_resized (capacity count : Nat) :
    (history.record (.resized capacity count) accesses).added =
      history.added := by
  simp [record, added]

@[simp] theorem extracted_inserted (msg : MessagePtr) :
    (history.record (.inserted msg) accesses).extracted =
      history.extracted := by
  simp [record, extracted]

@[simp] theorem extracted_extracted (msg : MessagePtr) :
    (history.record (.extracted msg) accesses).extracted =
      history.extracted ++ [msg] := by
  simp [record, extracted]

@[simp] theorem extracted_resized (capacity count : Nat) :
    (history.record (.resized capacity count) accesses).extracted =
      history.extracted := by
  simp [record, extracted]

@[simp] theorem landedExactly_inserted (msg : MessagePtr) :
    (history.record (.inserted msg) accesses).landedExactly = false := by
  simp [record, landedExactly]

@[simp] theorem landedExactly_extracted (msg : MessagePtr) :
    (history.record (.extracted msg) accesses).landedExactly =
      history.landedExactly := by
  simp [record, landedExactly]

@[simp] theorem landedExactly_resized (capacity count : Nat) :
    (history.record (.resized capacity count) accesses).landedExactly =
      (capacity == count) := by
  simp [record, landedExactly]

end History

/-! ## The copy loop -/

namespace CircularQueue

theorem copyLoop_succ
    (queue : CircularQueue)
    (newCapacity : Nat)
    (block : Nat → MessagePtr)
    (rounds : Nat) :
    queue.copyLoop newCapacity block (rounds + 1) =
      queue.copyRound newCapacity (queue.copyLoop newCapacity block rounds)
        rounds := by
  simp [copyLoop, List.range_succ]

/-- The index of the loop runs once around the old ring. -/
theorem copyLoop_currentIndex
    (queue : CircularQueue)
    (headBound : queue.head < queue.capacity)
    (newCapacity : Nat)
    (block : Nat → MessagePtr)
    (rounds : Nat) :
    (queue.copyLoop newCapacity block rounds).currentIndex =
      (queue.head + rounds) % queue.capacity := by
  induction rounds with
  | zero => exact (Nat.mod_eq_of_lt headBound).symm
  | succ rounds inductionHypothesis =>
      rw [copyLoop_succ]
      change ((queue.copyLoop newCapacity block rounds).currentIndex + 1) %
        queue.capacity = _
      rw [inductionHypothesis, Nat.mod_add_mod, Nat.add_assoc]

/-- After some rounds the new block starts with the messages from the head
on. -/
theorem copyLoop_newBuffer
    (queue : CircularQueue)
    (headBound : queue.head < queue.capacity)
    (newCapacity : Nat)
    (block : Nat → MessagePtr)
    (rounds : Nat) :
    ∀ offset < rounds,
      (queue.copyLoop newCapacity block rounds).newBuffer offset =
        queue.buffer ((queue.head + offset) % queue.capacity) := by
  induction rounds with
  | zero => simp
  | succ rounds inductionHypothesis =>
      intro offset inside
      rw [copyLoop_succ]
      change Function.update
        (queue.copyLoop newCapacity block rounds).newBuffer rounds
        (queue.buffer
          (queue.copyLoop newCapacity block rounds).currentIndex) offset = _
      by_cases last : offset = rounds
      · subst last
        rw [Function.update_self, copyLoop_currentIndex queue headBound]
      · rw [Function.update_of_ne last]
        exact inductionHypothesis offset (by omega)

/-- The loop reads inside the old buffer and writes inside the new one. -/
theorem copyLoop_accesses
    (queue : CircularQueue)
    (headBound : queue.head < queue.capacity)
    {newCapacity : Nat}
    (block : Nat → MessagePtr)
    {rounds : Nat}
    (fits : rounds ≤ newCapacity) :
    ∀ access ∈ (queue.copyLoop newCapacity block rounds).accesses,
      access.index < access.capacity := by
  induction rounds with
  | zero => simp [copyLoop]
  | succ rounds inductionHypothesis =>
      rw [copyLoop_succ]
      intro access member
      rcases List.mem_append.mp member with old | new
      · exact inductionHypothesis (by omega) access old
      · simp only [List.mem_cons, List.not_mem_nil, or_false] at new
        rcases new with rfl | rfl
        · rw [copyLoop_currentIndex queue headBound]
          exact Nat.mod_lt _ (by omega)
        · exact fits

/-- A resize keeps the contents. -/
theorem moveTo_contents
    (queue : CircularQueue)
    (headBound : queue.head < queue.capacity)
    {newCapacity : Nat}
    (fits : queue.count ≤ newCapacity)
    (block : Nat → MessagePtr) :
    (queue.moveTo newCapacity block).contents = queue.contents :=
  Ring.window_straighten fits
    (queue.copyLoop_newBuffer headBound newCapacity block queue.count)

theorem refuses_eq_false_iff
    (queue : CircularQueue)
    (newCapacity : Int) :
    queue.refuses newCapacity = false ↔
      0 < newCapacity ∧ (queue.count : Int) ≤ newCapacity := by
  simp [refuses]

end CircularQueue

/-! ## What the mutex protects -/

/-- The extracted messages followed by the stored ones are the inserted ones
in order, and every slot touched lay inside its buffer. -/
structure RingSafe (queue : CircularQueue) (history : History) : Prop where
  fifo : history.extracted ++ queue.contents = history.added
  accesses : ∀ access ∈ history.accesses, access.index < access.capacity

/-- The ring invariant.  The tail may rest at the capacity, but only after a
resize that landed exactly on the count. -/
structure RingInvariant
    (queue : CircularQueue)
    (history : History) : Prop where
  headBound : queue.head < queue.capacity
  countBound : queue.count ≤ queue.capacity
  tailBound : queue.tail ≤ queue.capacity
  tailBehind : queue.tail % queue.capacity =
    (queue.head + queue.count) % queue.capacity
  landed : queue.tail = queue.capacity ↔ history.landedExactly = true
  totals : queue.totalAdded = queue.totalExtracted + queue.count
  safe : RingSafe queue history

theorem RingInvariant.init
    {size : Nat}
    (positive : 0 < size)
    (block : Nat → MessagePtr) :
    RingInvariant (CircularQueue.init size block) .empty where
  headBound := positive
  countBound := Nat.zero_le _
  tailBound := Nat.zero_le _
  tailBehind := rfl
  landed := by simp [CircularQueue.init, History.empty,
    History.landedExactly, Nat.ne_of_lt positive]
  totals := rfl
  safe := ⟨rfl, by simp [History.empty]⟩

/-- The pending request does not matter. -/
theorem RingInvariant.withRequest
    {queue : CircularQueue}
    {history : History}
    (invariant : RingInvariant queue history)
    (request : ResizeRequest)
    (target : Int) :
    RingInvariant
      { queue with resizeRequest := request, newCapacityRequest := target }
      history where
  headBound := invariant.headBound
  countBound := invariant.countBound
  tailBound := invariant.tailBound
  tailBehind := invariant.tailBehind
  landed := invariant.landed
  totals := invariant.totals
  safe := ⟨invariant.safe.fifo, invariant.safe.accesses⟩

/-- An insertion keeps the invariant when the tail does not rest at the
capacity. -/
theorem RingInvariant.insert
    {queue : CircularQueue}
    {history : History}
    (invariant : RingInvariant queue history)
    (room : queue.count < queue.capacity)
    (notLanded : history.landedExactly = false)
    (msg : MessagePtr) :
    RingInvariant (queue.insert msg)
      (history.record (.inserted msg) [⟨queue.tail, queue.capacity⟩]) := by
  have tailInside : queue.tail < queue.capacity := by
    have resting : queue.tail ≠ queue.capacity := by
      rw [ne_eq, invariant.landed, notLanded]
      simp
    have bound := invariant.tailBound
    omega
  have slot : queue.tail =
      (queue.head + queue.count) % queue.capacity := by
    rw [← invariant.tailBehind, Nat.mod_eq_of_lt tailInside]
  have nextInside : (queue.tail + 1) % queue.capacity < queue.capacity :=
    Nat.mod_lt _ (by omega)
  constructor
  · exact invariant.headBound
  · change queue.count + 1 ≤ queue.capacity
    omega
  · exact Nat.le_of_lt nextInside
  · change (queue.tail + 1) % queue.capacity % queue.capacity =
      (queue.head + (queue.count + 1)) % queue.capacity
    rw [Nat.mod_mod, slot, Nat.mod_add_mod, Nat.add_assoc]
  · rw [History.landedExactly_inserted]
    exact iff_of_false (Nat.ne_of_lt nextInside) (by simp)
  · change queue.totalAdded + 1 = queue.totalExtracted + (queue.count + 1)
    have totals := invariant.totals
    omega
  · constructor
    · rw [History.added_inserted, History.extracted_inserted,
        ← invariant.safe.fifo, List.append_assoc]
      congr 1
      change Ring.window (Function.update queue.buffer queue.tail msg)
        queue.capacity queue.head (queue.count + 1) = _
      rw [slot]
      exact Ring.window_enqueue queue.buffer room msg
    · rw [History.record_accesses]
      intro access member
      rcases List.mem_append.mp member with old | new
      · exact invariant.safe.accesses access old
      · rw [List.mem_singleton.mp new]
        exact tailInside

/-- An insertion with the tail at rest writes one slot behind the buffer. -/
theorem RingInvariant.not_safe_insert
    {queue : CircularQueue}
    {history : History}
    (invariant : RingInvariant queue history)
    (landed : history.landedExactly = true)
    (msg : MessagePtr) :
    ¬RingSafe (queue.insert msg)
      (history.record (.inserted msg) [⟨queue.tail, queue.capacity⟩]) := by
  intro safe
  have resting := invariant.landed.mpr landed
  have inside := safe.accesses ⟨queue.tail, queue.capacity⟩ (by simp)
  change queue.tail < queue.capacity at inside
  omega

/-- An extraction keeps the invariant. -/
theorem RingInvariant.extract
    {queue : CircularQueue}
    {history : History}
    (invariant : RingInvariant queue history)
    (stored : queue.count ≠ 0) :
    RingInvariant queue.extract
      (history.record (.extracted queue.front)
        [⟨queue.head, queue.capacity⟩]) := by
  obtain ⟨count, countEq⟩ := Nat.exists_eq_succ_of_ne_zero stored
  have headBound := invariant.headBound
  have countBound := invariant.countBound
  constructor
  · exact Nat.mod_lt _ (by omega)
  · change queue.count - 1 ≤ queue.capacity
    omega
  · exact invariant.tailBound
  · change queue.tail % queue.capacity =
      ((queue.head + 1) % queue.capacity + (queue.count - 1)) %
        queue.capacity
    rw [invariant.tailBehind, countEq, Nat.mod_add_mod, Nat.succ_sub_one,
      Nat.add_assoc, Nat.add_comm 1]
  · rw [History.landedExactly_extracted]
    exact invariant.landed
  · change queue.totalAdded = queue.totalExtracted + 1 + (queue.count - 1)
    have totals := invariant.totals
    omega
  · constructor
    · rw [History.added_extracted, History.extracted_extracted,
        ← invariant.safe.fifo, List.append_assoc]
      congr 1
      change queue.front :: Ring.window queue.buffer queue.capacity
          ((queue.head + 1) % queue.capacity) (queue.count - 1) =
        Ring.window queue.buffer queue.capacity queue.head queue.count
      rw [countEq, Ring.window_succ_eq_cons, Nat.mod_eq_of_lt headBound,
        Nat.succ_sub_one]
      congr 1
      exact Ring.window_congr_start _ _ (Nat.mod_mod _ _)
    · rw [History.record_accesses]
      intro access member
      rcases List.mem_append.mp member with old | new
      · exact invariant.safe.accesses access old
      · rw [List.mem_singleton.mp new]
        exact headBound

/-- A resize keeps the invariant, whatever the fill level and the wrap. -/
theorem RingInvariant.moveTo
    {queue : CircularQueue}
    {history : History}
    (invariant : RingInvariant queue history)
    {newCapacity : Nat}
    (positive : 0 < newCapacity)
    (fits : queue.count ≤ newCapacity)
    (block : Nat → MessagePtr) :
    RingInvariant (queue.moveTo newCapacity block)
      (history.record (.resized newCapacity queue.count)
        (queue.moveAccesses newCapacity block)) := by
  constructor
  · exact positive
  · exact fits
  · exact fits
  · change queue.count % newCapacity = (0 + queue.count) % newCapacity
    rw [Nat.zero_add]
  · rw [History.landedExactly_resized, beq_iff_eq]
    exact eq_comm
  · exact invariant.totals
  · constructor
    · rw [History.added_resized, History.extracted_resized,
        queue.moveTo_contents invariant.headBound fits]
      exact invariant.safe.fifo
    · rw [History.record_accesses]
      intro access member
      rcases List.mem_append.mp member with old | new
      · exact invariant.safe.accesses access old
      · exact queue.copyLoop_accesses invariant.headBound block fits
          access new

end ThreadQueue
end OSaSP
