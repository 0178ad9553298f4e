import OSaSP.ThreadQueue.CondThreads
import OSaSP.ThreadQueue.SemThreads

/-!
# A single call of the two resize functions

A call either moves the stored messages into the new buffer, in their order,
or refuses and changes nothing at all.  Which of the two happens depends on the
requested capacity, the count and the allocation only, for both queues alike.
-/

namespace OSaSP
namespace ThreadQueue

/-- The condition for a resize: a positive capacity with room for the stored
messages, and memory for the new buffer. -/
def CircularQueue.Resizable
    (queue : CircularQueue)
    (newCapacity : Int)
    (allocation : Option (Nat → MessagePtr)) : Prop :=
  0 < newCapacity ∧ (queue.count : Int) ≤ newCapacity ∧
    allocation.isSome = true

/-- What a resize returns and leaves behind; `ring` selects the fields that
both queues share. -/
structure ResizesOrKeeps
    {Queue : Type}
    (ring : Queue → CircularQueue)
    (queue : Queue)
    (newCapacity : Int)
    (allocation : Option (Nat → MessagePtr))
    (result : ResizeResult Queue) : Prop where
  succeeds : result.succeeded = true ↔
    (ring queue).Resizable newCapacity allocation
  contents : result.succeeded = true →
    (ring result.queue).contents = (ring queue).contents
  count : result.succeeded = true →
    (ring result.queue).count = (ring queue).count
  capacity : result.succeeded = true →
    ((ring result.queue).capacity : Int) = newCapacity
  keeps : result.succeeded = false → result.queue = queue
  accesses : ∀ access ∈ result.accesses, access.index < access.capacity

section

variable {Queue : Type}
  {ring : Queue → CircularQueue}
  {queue after : Queue}
  {newCapacity : Int}

/-- A call that returns -1 without touching the queue. -/
theorem ResizesOrKeeps.refused
    {allocation : Option (Nat → MessagePtr)}
    (notResizable : ¬(ring queue).Resizable newCapacity allocation) :
    ResizesOrKeeps ring queue newCapacity allocation
      ⟨false, queue, []⟩ where
  succeeds := iff_of_false Bool.false_ne_true notResizable
  contents succeeded := absurd succeeded Bool.false_ne_true
  count succeeded := absurd succeeded Bool.false_ne_true
  capacity succeeded := absurd succeeded Bool.false_ne_true
  keeps _ := rfl
  accesses _ member := absurd member List.not_mem_nil

/-- A call that returns 0 after the ring was copied. -/
theorem ResizesOrKeeps.moved
    {block : Nat → MessagePtr}
    (headBound : (ring queue).head < (ring queue).capacity)
    (accepted : (ring queue).refuses newCapacity = false)
    (ringMoved : ring after = (ring queue).moveTo newCapacity.toNat block) :
    ResizesOrKeeps ring queue newCapacity (some block)
      ⟨true, after, (ring queue).moveAccesses newCapacity.toNat block⟩ := by
  obtain ⟨positive, fits⟩ :=
    ((ring queue).refuses_eq_false_iff newCapacity).mp accepted
  have room : (ring queue).count ≤ newCapacity.toNat := by omega
  constructor
  · exact iff_of_true rfl ⟨positive, fits, rfl⟩
  · intro _
    rw [ringMoved]
    exact (ring queue).moveTo_contents headBound room block
  · intro _
    rw [ringMoved]
    rfl
  · intro _
    rw [ringMoved]
    exact Int.toNat_of_nonneg (Int.le_of_lt positive)
  · intro failed
    exact absurd failed.symm Bool.false_ne_true
  · exact (ring queue).copyLoop_accesses headBound block room

end

theorem CircularQueue.not_resizable_of_refuses
    {queue : CircularQueue}
    {newCapacity : Int}
    (refuses : queue.refuses newCapacity = true)
    (allocation : Option (Nat → MessagePtr)) :
    ¬queue.Resizable newCapacity allocation := by
  rintro ⟨positive, fits, _⟩
  have accepted := (queue.refuses_eq_false_iff newCapacity).mpr
    ⟨positive, fits⟩
  rw [refuses] at accepted
  exact absurd accepted.symm Bool.false_ne_true

theorem CircularQueue.not_resizable_none
    (queue : CircularQueue)
    (newCapacity : Int) :
    ¬queue.Resizable newCapacity none := by
  rintro ⟨_, _, allocated⟩
  exact absurd allocated Bool.false_ne_true

theorem resizeQueueInternalSem_resizesOrKeeps
    (queue : CircularQueueSem)
    (headBound : queue.head < queue.capacity)
    (newCapacity : Int)
    (allocation : Option (Nat → MessagePtr)) :
    ResizesOrKeeps CircularQueueSem.toCircularQueue queue newCapacity
      allocation (resizeQueueInternalSem queue newCapacity allocation) := by
  unfold resizeQueueInternalSem
  cases refuses : queue.refuses newCapacity with
  | true =>
      rw [if_pos rfl]
      apply ResizesOrKeeps.refused
      exact queue.not_resizable_of_refuses refuses allocation
  | false =>
      rw [if_neg Bool.false_ne_true]
      cases allocation with
      | none =>
          apply ResizesOrKeeps.refused
          exact queue.not_resizable_none newCapacity
      | some block => exact ResizesOrKeeps.moved headBound refuses rfl

/-- The second function raises `resize_in_progress` before it allocates, and
both of its exits lower it again. -/
theorem resizeQueueInternalCond_resizesOrKeeps
    (queue : CircularQueueCond)
    (headBound : queue.head < queue.capacity)
    (idle : queue.resizeInProgress = false)
    (newCapacity : Int)
    (allocation : Option (Nat → MessagePtr)) :
    ResizesOrKeeps CircularQueueCond.toCircularQueue queue newCapacity
      allocation (resizeQueueInternalCond queue newCapacity allocation) := by
  unfold resizeQueueInternalCond
  cases refuses : queue.refuses newCapacity with
  | true =>
      rw [if_pos rfl]
      apply ResizesOrKeeps.refused
      exact queue.not_resizable_of_refuses refuses allocation
  | false =>
      rw [if_neg Bool.false_ne_true]
      cases allocation with
      | none =>
          have lowered : { queue with resizeInProgress := false } = queue := by
            rw [← idle]
          simp only [lowered]
          apply ResizesOrKeeps.refused
          exact queue.not_resizable_none newCapacity
      | some block => exact ResizesOrKeeps.moved headBound refuses rfl

/-- Both functions resize exactly when they can and keep the queue otherwise,
from every state of a ring, wrapped or not. -/
theorem resizes_or_keeps
    (semQueue : CircularQueueSem)
    (condQueue : CircularQueueCond)
    (semHead : semQueue.head < semQueue.capacity)
    (condHead : condQueue.head < condQueue.capacity)
    (idle : condQueue.resizeInProgress = false)
    (newCapacity : Int)
    (allocation : Option (Nat → MessagePtr)) :
    ResizesOrKeeps CircularQueueSem.toCircularQueue semQueue newCapacity
        allocation
        (resizeQueueInternalSem semQueue newCapacity allocation) ∧
      ResizesOrKeeps CircularQueueCond.toCircularQueue condQueue newCapacity
        allocation
        (resizeQueueInternalCond condQueue newCapacity allocation) :=
  ⟨resizeQueueInternalSem_resizesOrKeeps semQueue semHead newCapacity
      allocation,
    resizeQueueInternalCond_resizesOrKeeps condQueue condHead idle
      newCapacity allocation⟩

/-- A ring of four slots whose three messages wrap around its end. -/
def wrappedRing : CircularQueue where
  buffer slot := 10 + slot
  capacity := 4
  head := 3
  tail := 2
  count := 3
  totalAdded := 5
  totalExtracted := 2
  resizeRequest := .increase
  newCapacityRequest := 9

/-- A wrapped ring is shrunk to its three messages, or kept when there is no
memory. -/
theorem wrappedRing_resizes_or_keeps :
    (ResizesOrKeeps CircularQueueSem.toCircularQueue ⟨wrappedRing, 1, 3⟩ 3
        (some id)
        (resizeQueueInternalSem ⟨wrappedRing, 1, 3⟩ 3 (some id)) ∧
      ResizesOrKeeps CircularQueueCond.toCircularQueue ⟨wrappedRing, false⟩ 3
        (some id)
        (resizeQueueInternalCond ⟨wrappedRing, false⟩ 3 (some id))) ∧
    wrappedRing.contents = [13, 10, 11] :=
  ⟨resizes_or_keeps ⟨wrappedRing, 1, 3⟩ ⟨wrappedRing, false⟩ (by decide)
    (by decide) rfl 3 (some id), by decide⟩

end ThreadQueue
end OSaSP
