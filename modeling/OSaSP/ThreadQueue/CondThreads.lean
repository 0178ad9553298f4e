import OSaSP.Foundations.Machine
import OSaSP.ThreadQueue.LabControl

/-!
# The condition-variable queue and its threads

A critical section runs in one action from the lock, or from the end of a wait
on a condition variable, up to the unlock or the next wait.  A wait may end at
any moment, because a signal, a broadcast or a spurious wakeup ends it, because
its second is over, or with another error; the signals themselves therefore
have no effect of their own.
-/

namespace OSaSP
namespace ThreadQueue

/-- `CircularQueue_Cond`. -/
structure CircularQueueCond extends CircularQueue where
  resizeInProgress : Bool

/-- `init_queue_cond` on the block that `malloc` returned. -/
def initQueueCond
    (size : Nat)
    (block : Nat → MessagePtr) : CircularQueueCond where
  toCircularQueue := .init size block
  resizeInProgress := false

/-- `resize_queue_internal_cond`; `allocation` is what `malloc` returns. -/
def resizeQueueInternalCond
    (queue : CircularQueueCond)
    (newCapacity : Int)
    (allocation : Option (Nat → MessagePtr)) :
    ResizeResult CircularQueueCond :=
  if queue.refuses newCapacity then ⟨false, queue, []⟩
  else
    let queue := { queue with resizeInProgress := true }
    match allocation with
    | none => ⟨false, { queue with resizeInProgress := false }, []⟩
    | some block =>
        ⟨true,
          { queue with
            toCircularQueue := queue.moveTo newCapacity.toNat block
            resizeInProgress := false },
          queue.moveAccesses newCapacity.toNat block⟩

/-- `request_resize_cond`. -/
def requestResizeCond
    (op : ResizeOp)
    (queue : CircularQueueCond) : CircularQueueCond :=
  if queue.resizeRequest = .none ∧ queue.resizeInProgress = false then
    { queue with toCircularQueue := queue.request op }
  else queue

/-- Places of `producer_thread_cond`. -/
inductive ProducerCondPc
  | loopTest
  | enter
  | waiting
  | report (msg : MessagePtr)
  | leaving
  | finished
  deriving DecidableEq

/-- Places of `consumer_thread_cond`. -/
inductive ConsumerCondPc
  | loopTest
  | enter
  | waiting
  | report (msg : MessagePtr)
  | discard (msg : MessagePtr)
  | leaving
  | finished
  deriving DecidableEq

/-- How a wait on a condition variable returns. -/
inductive WakeOutcome
  | woken
  | timedOut
  | failed
  deriving DecidableEq

/-- The lab with the condition-variable queue. -/
abbrev CondState := LabState CircularQueueCond ProducerCondPc ConsumerCondPc

/-- `run_lab_logic` with the arguments for the condition-variable queue; the
broadcasts of `signal_cleanup_cond` post nothing. -/
def condLab : Lab CircularQueueCond ProducerCondPc ConsumerCondPc where
  producerStart := .loopTest
  consumerStart := .loopTest
  requestResize := requestResizeCond
  signals _ _ := 0
  postEmpty queue := queue
  postFilled queue := queue

namespace CondState

/-- A consumer serves the pending request; whether the resize succeeds or
fails, the request is cleared. -/
def serveRequest
    (state : CondState)
    (allocation : Option (Nat → MessagePtr)) : CondState :=
  let result := resizeQueueInternalCond state.queue
    state.queue.newCapacityRequest allocation
  { state with
    queue := { result.queue with resizeRequest := .none }
    history :=
      if result.succeeded then
        state.history.record
          (.resized state.queue.newCapacityRequest.toNat state.queue.count)
          result.accesses
      else state.history }

/-- The message of a producer enters the ring. -/
def insert (state : CondState) (msg : MessagePtr) : CondState :=
  { state with
    queue := { state.queue with
      toCircularQueue := state.queue.insert msg }
    history := state.history.record (.inserted msg)
      [⟨state.queue.tail, state.queue.capacity⟩] }

/-- A message leaves the ring. -/
def extract (state : CondState) : CondState :=
  { state with
    queue := { state.queue with toCircularQueue := state.queue.extract }
    history := state.history.record (.extracted state.queue.front)
      [⟨state.queue.head, state.queue.capacity⟩] }

/-- A wait that fails stops the whole lab. -/
def failProducer (state : CondState) (id : Nat) : CondState :=
  { state with control := { state.control.stopProducer id with
    keepRunning := false } }

/-- A wait that fails stops the whole lab. -/
def failConsumer (state : CondState) (id : Nat) : CondState :=
  { state with control := { state.control.stopConsumer id with
    keepRunning := false } }

end CondState

/-- The condition under which a producer waits. -/
def CircularQueueCond.refusesMessage (queue : CircularQueueCond) : Bool :=
  decide (queue.count = queue.capacity) ||
    decide (queue.resizeRequest ≠ .none) || queue.resizeInProgress

/-- What a producer does with the mutex held once it stops waiting. -/
def produceCond
    (thread : Thread ProducerCondPc)
    (index : Nat)
    (created : Bool)
    (state : CondState) : CondState :=
  if state.control.producerRuns thread.id = false then
    state.setProducer index thread.id .leaving
  else if state.queue.refusesMessage then
    state.setProducer index thread.id .loopTest
  else if created then
    let msg := state.heap.allocated
    (CondState.insert { state with heap := state.heap.createMessage }
      msg).setProducer index thread.id (.report msg)
  else state.setProducer index thread.id .loopTest

/-- The test of the waiting loop of a producer. -/
def producerWaitTest
    (thread : Thread ProducerCondPc)
    (index : Nat)
    (created : Bool)
    (state : CondState) : CondState :=
  if state.queue.refusesMessage && state.control.producerRuns thread.id then
    state.setProducer index thread.id .waiting
  else produceCond thread index created state

/-- The loop body of `producer_thread_cond`, one action at a time. -/
def advanceProducerCond
    (thread : Thread ProducerCondPc)
    (index : Nat)
    (wake : WakeOutcome)
    (created : Bool)
    (state : CondState) : Option CondState :=
  match thread.pc with
  | .loopTest =>
      some (state.setProducer index thread.id
        (if state.control.producerRuns thread.id then .enter else .leaving))
  | .enter => some (producerWaitTest thread index created state)
  | .waiting =>
      match wake with
      | .woken => some (producerWaitTest thread index created state)
      | .timedOut => some (produceCond thread index created state)
      | .failed =>
          some (produceCond thread index created
            (state.failProducer thread.id))
  | .report msg =>
      some ({ state with heap := state.heap.readMessage msg }.setProducer
        index thread.id .loopTest)
  | .leaving =>
      some ({ state with
        control := state.control.stopProducer thread.id }.setProducer
        index thread.id .finished)
  | .finished => none

/-- Whether a consumer serves the pending request before it consumes. -/
def CircularQueueCond.servesFirst (queue : CircularQueueCond) : Bool :=
  match queue.resizeRequest with
  | .none => false
  | .increase => !queue.resizeInProgress
  | .decrease =>
      !queue.resizeInProgress &&
        decide ((queue.count : Int) ≤ queue.newCapacityRequest)

/-- Whether a consumer serves a pending decrease after it consumed. -/
def CircularQueueCond.servesAfter (queue : CircularQueueCond) : Bool :=
  decide (queue.resizeRequest = .decrease) && !queue.resizeInProgress &&
    decide ((queue.count : Int) ≤ queue.newCapacityRequest)

/-- What a consumer does with the mutex held once it stops waiting. -/
def consumeCond
    (thread : Thread ConsumerCondPc)
    (index : Nat)
    (allocation : Option (Nat → MessagePtr))
    (state : CondState) : CondState :=
  if state.control.consumerRuns thread.id = false then
    state.setConsumer index thread.id .leaving
  else if state.queue.count = 0 then
    state.setConsumer index thread.id .loopTest
  else
    let msg := state.queue.front
    let extracted := state.extract
    (if extracted.queue.servesAfter then
      CondState.serveRequest extracted allocation
    else extracted).setConsumer index thread.id (.report msg)

/-- The test of the waiting loop of a consumer. -/
def consumerWaitTest
    (thread : Thread ConsumerCondPc)
    (index : Nat)
    (allocation : Option (Nat → MessagePtr))
    (state : CondState) : CondState :=
  if state.queue.count = 0 ∧ state.control.consumerRuns thread.id = true then
    state.setConsumer index thread.id .waiting
  else consumeCond thread index allocation state

/-- The loop body of `consumer_thread_cond`, one action at a time. -/
def advanceConsumerCond
    (thread : Thread ConsumerCondPc)
    (index : Nat)
    (wake : WakeOutcome)
    (allocation : Option (Nat → MessagePtr))
    (state : CondState) : Option CondState :=
  match thread.pc with
  | .loopTest =>
      some (state.setConsumer index thread.id
        (if state.control.consumerRuns thread.id then .enter else .leaving))
  | .enter =>
      if state.queue.servesFirst then
        some ((state.serveRequest allocation).setConsumer index thread.id
          .loopTest)
      else some (consumerWaitTest thread index allocation state)
  | .waiting =>
      match wake with
      | .woken => some (consumerWaitTest thread index allocation state)
      | .timedOut => some (consumeCond thread index allocation state)
      | .failed =>
          some (consumeCond thread index allocation
            (state.failConsumer thread.id))
  | .report msg =>
      some ({ state with heap := state.heap.readMessage msg }.setConsumer
        index thread.id (.discard msg))
  | .discard msg =>
      some ({ state with heap := state.heap.destroyMessage msg }.setConsumer
        index thread.id .loopTest)
  | .leaving =>
      some ({ state with
        control := state.control.stopConsumer thread.id }.setConsumer
        index thread.id .finished)
  | .finished => none

/-- What can happen next in the lab. -/
inductive CondAction
  | main (command : Command)
  | producer (index : Nat) (wake : WakeOutcome) (created : Bool)
  | consumer
      (index : Nat)
      (wake : WakeOutcome)
      (allocation : Option (Nat → MessagePtr))

/-- One step of the lab. -/
def condStep (state : CondState) : CondAction → Option CondState
  | .main command => condLab.mainStep command state
  | .producer index wake created =>
      (state.producers[index]?).bind fun thread =>
        advanceProducerCond thread index wake created state
  | .consumer index wake allocation =>
      (state.consumers[index]?).bind fun thread =>
        advanceConsumerCond thread index wake allocation state

/-- The lab right after `init_queue_cond`. -/
def condStart (size : Nat) (block : Nat → MessagePtr) : CondState where
  queue := initQueueCond size block
  history := .empty
  control := .start
  producers := []
  consumers := []
  heap := .empty

/-- The lab with a condition-variable queue of some initial size. -/
def condMachine (size : Nat) : Machine CondState CondAction where
  initial state := ∃ block, state = condStart size block
  step := condStep

end ThreadQueue
end OSaSP
