import OSaSP.Foundations.Machine
import OSaSP.ThreadQueue.LabControl

/-!
# The semaphore queue and its threads

Every action is one access to shared state: a flag test, a semaphore
operation, one whole critical section under the queue's mutex, or one use of a
message.  A wait may return because it acquired the semaphore, because its
second is over, or with another error.  `sem_post` is taken to succeed.
-/

namespace OSaSP
namespace ThreadQueue

/-- `CircularQueue_Sem`. -/
structure CircularQueueSem extends CircularQueue where
  emptySlots : Nat
  filledSlots : Nat

/-- `init_queue_sem` on the block that `malloc` returned. -/
def initQueueSem
    (size : Nat)
    (block : Nat → MessagePtr) : CircularQueueSem where
  toCircularQueue := .init size block
  emptySlots := size
  filledSlots := 0

/-- The posts or attempted waits on `empty_slots` that follow a resize, all at
once.  The caller holds the mutex, so no other thread is in a section of its own
meanwhile, and their posts and waits on the semaphore have the outcomes that
they have around a resize at a single moment.  The states inside a resize are
not modelled. -/
def adjustEmptySlots (emptySlots oldCapacity newCapacity : Nat) : Nat :=
  if oldCapacity < newCapacity then emptySlots + (newCapacity - oldCapacity)
  else emptySlots - (oldCapacity - newCapacity)

/-- `resize_queue_internal_sem`; `allocation` is what `malloc` returns. -/
def resizeQueueInternalSem
    (queue : CircularQueueSem)
    (newCapacity : Int)
    (allocation : Option (Nat → MessagePtr)) :
    ResizeResult CircularQueueSem :=
  if queue.refuses newCapacity then ⟨false, queue, []⟩
  else
    match allocation with
    | none => ⟨false, queue, []⟩
    | some block =>
        ⟨true,
          { queue with
            toCircularQueue :=
              queue.moveTo newCapacity.toNat block
            emptySlots := adjustEmptySlots queue.emptySlots queue.capacity
              newCapacity.toNat },
          queue.moveAccesses newCapacity.toNat block⟩

/-- `request_resize_sem`. -/
def requestResizeSem
    (op : ResizeOp)
    (queue : CircularQueueSem) : CircularQueueSem :=
  if queue.resizeRequest = .none then
    { queue with toCircularQueue := queue.request op }
  else queue

/-- Places of `producer_thread_sem`. -/
inductive ProducerSemPc
  | loopTest
  | resizeTest
  | waitEmpty
  | timedOut
  | recheck
  | giveBackStopped
  | create
  | giveBackFailed
  | insert (msg : MessagePtr)
  | giveBackFull (msg : MessagePtr)
  | discard (msg : MessagePtr)
  | postFilled (msg : MessagePtr)
  | report (msg : MessagePtr)
  | leaving
  | finished
  deriving DecidableEq

/-- Places of `consumer_thread_sem`. -/
inductive ConsumerSemPc
  | loopTest
  | resize
  | waitFilled
  | timedOut
  | recheck
  | giveBackStopped
  | extract
  | giveBack
  | postEmpty (msg : MessagePtr)
  | report (msg : MessagePtr)
  | discard (msg : MessagePtr)
  | leaving
  | finished
  deriving DecidableEq

/-- How a timed wait returns. -/
inductive WaitOutcome
  | acquired
  | timedOut
  | failed
  deriving DecidableEq

/-- The lab with the semaphore queue. -/
abbrev SemState := LabState CircularQueueSem ProducerSemPc ConsumerSemPc

/-- `run_lab_logic` with the arguments for the semaphore queue. -/
def semLab : Lab CircularQueueSem ProducerSemPc ConsumerSemPc where
  producerStart := .loopTest
  consumerStart := .loopTest
  requestResize := requestResizeSem
  signals queue control :=
    (queue.capacity + control.producerCount + control.consumerCount + 5).toNat
  postEmpty queue := { queue with emptySlots := queue.emptySlots + 1 }
  postFilled queue := { queue with filledSlots := queue.filledSlots + 1 }

namespace SemState

/-- `sem_post(&queue.empty_slots)`. -/
def postEmpty (state : SemState) : SemState :=
  { state with queue := semLab.postEmpty state.queue }

/-- `sem_post(&queue.filled_slots)`. -/
def postFilled (state : SemState) : SemState :=
  { state with queue := semLab.postFilled state.queue }

/-- A consumer serves the pending request; whether the resize succeeds or
fails, the request is cleared. -/
def serveRequest
    (state : SemState)
    (allocation : Option (Nat → MessagePtr)) : SemState :=
  let result := resizeQueueInternalSem state.queue
    state.queue.newCapacityRequest allocation
  { state with
    queue := { result.queue with resizeRequest := .none }
    history :=
      if result.succeeded then
        state.history.record
          (.resized state.queue.newCapacityRequest.toNat state.queue.count)
          result.accesses
      else state.history }

/-- The message of a producer enters the ring. -/
def insert (state : SemState) (msg : MessagePtr) : SemState :=
  { state with
    queue := { state.queue with
      toCircularQueue := state.queue.insert msg }
    history := state.history.record (.inserted msg)
      [⟨state.queue.tail, state.queue.capacity⟩] }

/-- A message leaves the ring. -/
def extract (state : SemState) : SemState :=
  { state with
    queue := { state.queue with toCircularQueue := state.queue.extract }
    history := state.history.record (.extracted state.queue.front)
      [⟨state.queue.head, state.queue.capacity⟩] }

end SemState

/-- The test under the mutex that makes a producer give its token back. -/
def CircularQueueSem.refusesMessage (queue : CircularQueueSem) : Bool :=
  decide (queue.count ≥ queue.capacity) ||
    decide (queue.resizeRequest ≠ .none)

/-- The loop body of `producer_thread_sem`, one action at a time. -/
def advanceProducerSem
    (thread : Thread ProducerSemPc)
    (index : Nat)
    (wait : WaitOutcome)
    (created : Bool)
    (state : SemState) : Option SemState :=
  let runs := state.control.producerRuns thread.id
  let goto (state : SemState) pc := state.setProducer index thread.id pc
  match thread.pc with
  | .loopTest => some (goto state (if runs then .resizeTest else .leaving))
  | .resizeTest =>
      some (goto state
        (if state.queue.resizeRequest = .none then .waitEmpty else .loopTest))
  | .waitEmpty =>
      match wait with
      | .acquired =>
          if state.queue.emptySlots = 0 then none
          else
            some (goto { state with queue := { state.queue with
              emptySlots := state.queue.emptySlots - 1 } } .recheck)
      | .timedOut => some (goto state .timedOut)
      | .failed =>
          some (goto { state with
            control := state.control.stopProducer thread.id } .leaving)
  | .timedOut => some (goto state (if runs then .loopTest else .leaving))
  | .recheck =>
      some (goto state (if runs then .create else .giveBackStopped))
  | .giveBackStopped => some (goto state.postEmpty .leaving)
  | .create =>
      if created then
        some (goto { state with heap := state.heap.createMessage }
          (.insert state.heap.allocated))
      else some (goto state .giveBackFailed)
  | .giveBackFailed => some (goto state.postEmpty .loopTest)
  | .insert msg =>
      if state.queue.refusesMessage then
        some (goto state (.giveBackFull msg))
      else some (goto (state.insert msg) (.postFilled msg))
  | .giveBackFull msg => some (goto state.postEmpty (.discard msg))
  | .discard msg =>
      some (goto { state with heap := state.heap.destroyMessage msg }
        .loopTest)
  | .postFilled msg => some (goto state.postFilled (.report msg))
  | .report msg =>
      some (goto { state with heap := state.heap.readMessage msg } .loopTest)
  | .leaving =>
      some (goto { state with
        control := state.control.stopProducer thread.id } .finished)
  | .finished => none

/-- Whether a consumer with a filled token serves a request first. -/
def CircularQueueSem.servesFirst (queue : CircularQueueSem) : Bool :=
  match queue.resizeRequest with
  | .decrease => decide ((queue.count : Int) ≤ queue.newCapacityRequest)
  | .increase => true
  | .none => false

/-- The loop body of `consumer_thread_sem`, one action at a time. -/
def advanceConsumerSem
    (thread : Thread ConsumerSemPc)
    (index : Nat)
    (wait : WaitOutcome)
    (allocation : Option (Nat → MessagePtr))
    (state : SemState) : Option SemState :=
  let runs := state.control.consumerRuns thread.id
  let goto (state : SemState) pc := state.setConsumer index thread.id pc
  match thread.pc with
  | .loopTest => some (goto state (if runs then .resize else .leaving))
  | .resize =>
      if state.queue.resizeRequest = .none then some (goto state .waitFilled)
      else some (goto (state.serveRequest allocation) .loopTest)
  | .waitFilled =>
      match wait with
      | .acquired =>
          if state.queue.filledSlots = 0 then none
          else
            some (goto { state with queue := { state.queue with
              filledSlots := state.queue.filledSlots - 1 } } .recheck)
      | .timedOut => some (goto state .timedOut)
      | .failed =>
          some (goto { state with
            control := state.control.stopConsumer thread.id } .leaving)
  | .timedOut => some (goto state (if runs then .loopTest else .leaving))
  | .recheck =>
      some (goto state (if runs then .extract else .giveBackStopped))
  | .giveBackStopped => some (goto state.postFilled .leaving)
  | .extract =>
      if state.queue.servesFirst then
        some (goto (state.serveRequest allocation) .giveBack)
      else if state.queue.count = 0 then some (goto state .giveBack)
      else some (goto state.extract (.postEmpty state.queue.front))
  | .giveBack => some (goto state.postFilled .loopTest)
  | .postEmpty msg => some (goto state.postEmpty (.report msg))
  | .report msg =>
      some (goto { state with heap := state.heap.readMessage msg }
        (.discard msg))
  | .discard msg =>
      some (goto { state with heap := state.heap.destroyMessage msg }
        .loopTest)
  | .leaving =>
      some (goto { state with
        control := state.control.stopConsumer thread.id } .finished)
  | .finished => none

/-- What can happen next in the lab. -/
inductive SemAction
  | main (command : Command)
  | producer (index : Nat) (wait : WaitOutcome) (created : Bool)
  | consumer
      (index : Nat)
      (wait : WaitOutcome)
      (allocation : Option (Nat → MessagePtr))

/-- One step of the lab. -/
def semStep (state : SemState) : SemAction → Option SemState
  | .main command => semLab.mainStep command state
  | .producer index wait created =>
      (state.producers[index]?).bind fun thread =>
        advanceProducerSem thread index wait created state
  | .consumer index wait allocation =>
      (state.consumers[index]?).bind fun thread =>
        advanceConsumerSem thread index wait allocation state

/-- The lab right after `init_queue_sem`. -/
def semStart (size : Nat) (block : Nat → MessagePtr) : SemState where
  queue := initQueueSem size block
  history := .empty
  control := .start
  producers := []
  consumers := []
  heap := .empty

/-- The lab with a semaphore queue of some initial size. -/
def semMachine (size : Nat) : Machine SemState SemAction where
  initial state := ∃ block, state = semStart size block
  step := semStep

end ThreadQueue
end OSaSP
