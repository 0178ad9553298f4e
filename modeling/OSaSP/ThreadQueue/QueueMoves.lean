import OSaSP.ThreadQueue.LabControl

/-!
# What one action does to a queue

Whatever thread acts in whichever lab, the common part of its queue is kept,
gets a request, gets or loses one message, or has its pending request served.
Every law of the queues is derived from this list.
-/

namespace OSaSP
namespace ThreadQueue

/-- What the acting thread allows: that it inserts, that it serves a request
on a given queue, and that `malloc` gives it a block. -/
structure Occasion where
  inserts : Prop
  serves : CircularQueue → Prop
  allocates : Prop

/-- A pending request can be served at the present fill level. -/
def CircularQueue.Servable (queue : CircularQueue) : Prop :=
  queue.resizeRequest = .decrease →
    (queue.count : Int) ≤ queue.newCapacityRequest

/-- A request changes nothing but the request. -/
theorem CircularQueue.request_eq (queue : CircularQueue) (op : ResizeOp) :
    ∃ request target,
      queue.request op =
        { queue with
          resizeRequest := request
          newCapacityRequest := target } := by
  unfold CircularQueue.request
  cases op <;> dsimp only <;> split <;> exact ⟨_, _, rfl⟩

/-- A pending request is served: the resize declines, or it moves the ring;
either way the request is cleared. -/
inductive ServeMove
    (allocates : Prop)
    (queue : CircularQueue)
    (history : History) : CircularQueue → History → Prop
  | declined :
      (queue.refuses queue.newCapacityRequest = true ∨ ¬allocates) →
      ServeMove allocates queue history
        { queue with resizeRequest := .none } history
  | resized (block : Nat → MessagePtr) :
      queue.refuses queue.newCapacityRequest = false →
      ServeMove allocates queue history
        { queue.moveTo queue.newCapacityRequest.toNat block with
          resizeRequest := .none }
        (history.record
          (.resized queue.newCapacityRequest.toNat queue.count)
          (queue.moveAccesses queue.newCapacityRequest.toNat block))

/-- One action, seen from the queue. -/
inductive QueueMove
    (occasion : Occasion)
    (queue : CircularQueue)
    (history : History) : CircularQueue → History → Prop
  | kept : QueueMove occasion queue history queue history
  | requested (op : ResizeOp) :
      queue.resizeRequest = .none →
      QueueMove occasion queue history (queue.request op) history
  | inserted (msg : MessagePtr) :
      occasion.inserts →
      queue.resizeRequest = .none →
      queue.count ≠ queue.capacity →
      QueueMove occasion queue history (queue.insert msg)
        (history.record (.inserted msg) [⟨queue.tail, queue.capacity⟩])
  | extracted :
      queue.count ≠ 0 →
      QueueMove occasion queue history queue.extract
        (history.record (.extracted queue.front)
          [⟨queue.head, queue.capacity⟩])
  | served {next : CircularQueue} {record : History} :
      queue.resizeRequest ≠ .none →
      occasion.serves queue →
      ServeMove occasion.allocates queue history next record →
      QueueMove occasion queue history next record
  | extractedServed {next : CircularQueue} {record : History} :
      queue.count ≠ 0 →
      queue.resizeRequest = .decrease →
      occasion.serves queue.extract →
      ServeMove occasion.allocates queue.extract
        (history.record (.extracted queue.front)
          [⟨queue.head, queue.capacity⟩]) next record →
      QueueMove occasion queue history next record

end ThreadQueue
end OSaSP
