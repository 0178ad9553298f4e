import OSaSP.Foundations.Machine
import OSaSP.SharedQueue.BufferTypes

/-!
# Producer, consumer and parent processes

One state of the system holds the shared queue, the three semaphores, every
child ever forked and the parent.  A child executes its loop one statement at
a time; a child that was killed or has exited keeps the place where it
stopped.  The semaphore operations carry no `SEM_UNDO` flag, so nothing is
given back when a child stops.

`semop` on a live semaphore set only fails for a process that handles signals,
which no child does, so the exits after a failed `semop` are not represented.
The parent's commands are those of the loop in `main`, up to `system_cleanup`.

The last four fields of a state are a history: the messages added and
extracted so far in order, the number of tokens producers have taken from
`EMPTY_SLOTS_SEM`, and the slots of the message buffer touched so far.
-/

namespace OSaSP
namespace SharedQueue

/-- Places in the loop of `spawn_producer_process`. -/
inductive ProducerPc
  | generate
  | waitEmptySlots
  | waitMutex
  | adding (point : AddPoint)
  | signalMutex
  | signalFilledSlots
  | report
  deriving DecidableEq

/-- Places in the loop of `spawn_consumer_process`. -/
inductive ConsumerPc
  | clear
  | waitFilledSlots
  | waitMutex
  | getting (point : GetPoint)
  | signalMutex
  | signalEmptySlots
  | verify
  deriving DecidableEq

/-- What the parent is doing: waiting for a command, or showing the status
under the mutex. -/
inductive ParentPc
  | command
  | statusWait
  | statusShow
  | exited
  deriving DecidableEq

/-- A producer child with its local variables. -/
structure Producer where
  pc : ProducerPc
  alive : Bool
  currentMessagePayload : MsgPayload
  messagesAddedLocalCount : UInt64

/-- A consumer child with its local variables. -/
structure Consumer where
  pc : ConsumerPc
  alive : Bool
  retrievedMessagePayload : MsgPayload
  messagesExtractedLocalCount : UInt64

/-- Global state of the process version. -/
structure State where
  queue : QueueBuffer
  queueMutex : Nat
  emptySlots : Nat
  filledSlots : Nat
  producers : List Producer
  consumers : List Consumer
  /-- `producer_pids` below `active_producers_count`, the last one first. -/
  producerPids : List Nat
  /-- `consumer_pids` below `active_consumers_count`, the last one first. -/
  consumerPids : List Nat
  parent : ParentPc
  added : List MsgPayload
  extracted : List MsgPayload
  admitted : Nat
  slots : List Nat

/-- The state that `system_init` leaves behind. -/
def systemInit : State where
  queue := initializeQueue
  queueMutex := 1
  emptySlots := bufferCapacity
  filledSlots := 0
  producers := []
  consumers := []
  producerPids := []
  consumerPids := []
  parent := .command
  added := []
  extracted := []
  admitted := 0
  slots := []

namespace State

/-- Replace one producer. -/
def setProducer (state : State) (index : Nat) (producer : Producer) : State :=
  { state with producers := state.producers.set index producer }

/-- Replace one consumer. -/
def setConsumer (state : State) (index : Nat) (consumer : Consumer) : State :=
  { state with consumers := state.consumers.set index consumer }

end State

/-- The loop body of a producer child, one statement at a time.  A wait on a
semaphore that is zero is not enabled. -/
def Producer.advance
    (producer : Producer)
    (index : Nat)
    (rand : Nat → Nat)
    (state : State) : Option State :=
  match producer.pc with
  | .generate =>
      some (state.setProducer index
        { producer with
          currentMessagePayload := generateAndFillMessage rand
          pc := .waitEmptySlots })
  | .waitEmptySlots =>
      if state.emptySlots = 0 then none
      else
        some ({ state with
            emptySlots := state.emptySlots - 1
            admitted := state.admitted + 1 }.setProducer index
          { producer with pc := .waitMutex })
  | .waitMutex =>
      if state.queueMutex = 0 then none
      else
        some ({ state with
            queueMutex := state.queueMutex - 1 }.setProducer index
          { producer with pc := .adding .checkFull })
  | .adding point =>
      let executed := point.execute state.queue producer.currentMessagePayload
      let touched := if point = .storeMessage then
        [state.queue.bufferHeadIdx] else []
      let state := { state with
        queue := executed.1
        slots := state.slots ++ touched }
      match executed.2 with
      | .next point =>
          some (state.setProducer index { producer with pc := .adding point })
      | .returned =>
          some ({ state with
              added := state.added ++ [producer.currentMessagePayload]
              }.setProducer index
            { producer with
              messagesAddedLocalCount := executed.1.totalAddedCount
              pc := .signalMutex })
      | .exited =>
          some (state.setProducer index { producer with alive := false })
  | .signalMutex =>
      some ({ state with
          queueMutex := state.queueMutex + 1 }.setProducer index
        { producer with pc := .signalFilledSlots })
  | .signalFilledSlots =>
      some ({ state with
          filledSlots := state.filledSlots + 1 }.setProducer index
        { producer with pc := .report })
  | .report =>
      some (state.setProducer index { producer with pc := .generate })

/-- The loop body of a consumer child, one statement at a time. -/
def Consumer.advance
    (consumer : Consumer)
    (index : Nat)
    (state : State) : Option State :=
  match consumer.pc with
  | .clear =>
      some (state.setConsumer index
        { consumer with
          retrievedMessagePayload := .zero
          pc := .waitFilledSlots })
  | .waitFilledSlots =>
      if state.filledSlots = 0 then none
      else
        some ({ state with
            filledSlots := state.filledSlots - 1 }.setConsumer index
          { consumer with pc := .waitMutex })
  | .waitMutex =>
      if state.queueMutex = 0 then none
      else
        some ({ state with
            queueMutex := state.queueMutex - 1 }.setConsumer index
          { consumer with pc := .getting .checkEmpty })
  | .getting point =>
      let executed :=
        point.execute state.queue consumer.retrievedMessagePayload
      let touched := if point = .loadMessage then
        [state.queue.bufferTailIdx] else []
      let state := { state with
        queue := executed.1
        slots := state.slots ++ touched }
      let consumer := { consumer with
        retrievedMessagePayload := executed.2.1 }
      match executed.2.2 with
      | .next point =>
          some (state.setConsumer index { consumer with pc := .getting point })
      | .returned =>
          some ({ state with
              extracted := state.extracted ++
                [consumer.retrievedMessagePayload] }.setConsumer index
            { consumer with
              messagesExtractedLocalCount := executed.1.totalExtractedCount
              pc := .signalMutex })
      | .exited =>
          some (state.setConsumer index { consumer with alive := false })
  | .signalMutex =>
      some ({ state with
          queueMutex := state.queueMutex + 1 }.setConsumer index
        { consumer with pc := .signalEmptySlots })
  | .signalEmptySlots =>
      some ({ state with
          emptySlots := state.emptySlots + 1 }.setConsumer index
        { consumer with pc := .verify })
  | .verify =>
      some (state.setConsumer index { consumer with pc := .clear })

/-- A producer just forked. -/
def Producer.spawned : Producer where
  pc := .generate
  alive := true
  currentMessagePayload := .zero
  messagesAddedLocalCount := 0

/-- A consumer just forked. -/
def Consumer.spawned : Consumer where
  pc := .clear
  alive := true
  retrievedMessagePayload := .zero
  messagesExtractedLocalCount := 0

/-- `SIGKILL` to a producer; a child that has stopped already stays as it
is. -/
def killProducer (index : Nat) (state : State) : State :=
  match state.producers[index]? with
  | none => state
  | some producer => state.setProducer index { producer with alive := false }

/-- `SIGKILL` to a consumer. -/
def killConsumer (index : Nat) (state : State) : State :=
  match state.consumers[index]? with
  | none => state
  | some consumer => state.setConsumer index { consumer with alive := false }

/-- `spawn_producer_process` in the parent; a failed `fork` ends it. -/
def spawnProducerProcess (forked : Bool) (state : State) : State :=
  if state.producerPids.length ≥ maxChildProcesses - 1 then state
  else if forked then
    { state with
      producers := state.producers ++ [.spawned]
      producerPids := state.producers.length :: state.producerPids }
  else { state with parent := .exited }

/-- `spawn_consumer_process` in the parent; a failed `fork` ends it. -/
def spawnConsumerProcess (forked : Bool) (state : State) : State :=
  if state.consumerPids.length ≥ maxChildProcesses - 1 then state
  else if forked then
    { state with
      consumers := state.consumers ++ [.spawned]
      consumerPids := state.consumers.length :: state.consumerPids }
  else { state with parent := .exited }

/-- `terminate_last_producer`. -/
def terminateLastProducer (state : State) : State :=
  match state.producerPids with
  | [] => state
  | last :: others => killProducer last { state with producerPids := others }

/-- `terminate_last_consumer`. -/
def terminateLastConsumer (state : State) : State :=
  match state.consumerPids with
  | [] => state
  | last :: others => killConsumer last { state with consumerPids := others }

/-- What can happen next: a command of the parent, a step of
`display_current_status`, a statement of a child, or a `SIGKILL` to a child
from elsewhere. -/
inductive Action
  | spawnProducer (forked : Bool)
  | spawnConsumer (forked : Bool)
  | terminateLastProducer
  | terminateLastConsumer
  | displayCurrentStatus
  | status
  | producer (index : Nat) (rand : Nat → Nat)
  | consumer (index : Nat)
  | killProducer (index : Nat)
  | killConsumer (index : Nat)

/-- Commands run only while the parent reads input. -/
def atCommand (state : State) (next : State) : Option State :=
  if state.parent = .command then some next else none

/-- `display_current_status` in two steps, the wait and the signal. -/
def statusStep (state : State) : Option State :=
  match state.parent with
  | .command | .exited => none
  | .statusWait =>
      if state.queueMutex = 0 then none
      else
        some { state with
          queueMutex := state.queueMutex - 1
          parent := .statusShow }
  | .statusShow =>
      some { state with
        queueMutex := state.queueMutex + 1
        parent := .command }

/-- A statement of one producer, if that child is alive. -/
def producerStep
    (index : Nat)
    (rand : Nat → Nat)
    (state : State) : Option State :=
  match state.producers[index]? with
  | none => none
  | some producer =>
      if producer.alive then producer.advance index rand state else none

/-- A statement of one consumer, if that child is alive. -/
def consumerStep (index : Nat) (state : State) : Option State :=
  match state.consumers[index]? with
  | none => none
  | some consumer =>
      if consumer.alive then consumer.advance index state else none

/-- One step of the whole system. -/
def step (state : State) : Action → Option State
  | .spawnProducer forked =>
      atCommand state (spawnProducerProcess forked state)
  | .spawnConsumer forked =>
      atCommand state (spawnConsumerProcess forked state)
  | .terminateLastProducer => atCommand state (terminateLastProducer state)
  | .terminateLastConsumer => atCommand state (terminateLastConsumer state)
  | .displayCurrentStatus =>
      atCommand state { state with parent := .statusWait }
  | .status => statusStep state
  | .producer index rand => producerStep index rand state
  | .consumer index => consumerStep index state
  | .killProducer index => some (killProducer index state)
  | .killConsumer index => some (killConsumer index state)

/-- The system from `system_init` on. -/
def system : Machine State Action where
  initial state := state = systemInit
  step := step

/-- Whether an action kills a child. -/
def Action.kills : Action → Bool
  | .terminateLastProducer | .terminateLastConsumer
  | .killProducer _ | .killConsumer _ => true
  | _ => false

/-- The system in which no child is killed. -/
def unkilledSystem : Machine State Action where
  initial state := state = systemInit
  step state action := if action.kills then none else step state action

/-! ## What the steps can do -/

theorem atCommand_eq_some
    {state next final : State}
    (stepped : atCommand state next = some final) :
    state.parent = .command ∧ next = final := by
  unfold atCommand at stepped
  split at stepped
  · rename_i ready
    exact ⟨ready, Option.some.inj stepped⟩
  · cases stepped

/-- The status report leaves the children and the queue alone. -/
theorem statusStep_eq_some
    {state next : State}
    (stepped : statusStep state = some next) :
    next.producers = state.producers ∧ next.consumers = state.consumers ∧
      next.queue = state.queue := by
  unfold statusStep at stepped
  split at stepped
  · cases stepped
  · cases stepped
  · split at stepped
    · cases stepped
    · cases stepped
      exact ⟨rfl, rfl, rfl⟩
  · cases stepped
    exact ⟨rfl, rfl, rfl⟩

/-- A producer's step belongs to a live producer at its index. -/
theorem producerStep_eq_some
    {index : Nat}
    {rand : Nat → Nat}
    {state next : State}
    (stepped : producerStep index rand state = some next) :
    ∃ producer, state.producers[index]? = some producer ∧
      producer.alive = true ∧
        producer.advance index rand state = some next := by
  unfold producerStep at stepped
  split at stepped
  · cases stepped
  · rename_i producer present
    split at stepped
    · rename_i alive
      exact ⟨producer, present, alive, stepped⟩
    · cases stepped

/-- A consumer's step belongs to a live consumer at its index. -/
theorem consumerStep_eq_some
    {index : Nat}
    {state next : State}
    (stepped : consumerStep index state = some next) :
    ∃ consumer, state.consumers[index]? = some consumer ∧
      consumer.alive = true ∧ consumer.advance index state = some next := by
  unfold consumerStep at stepped
  split at stepped
  · cases stepped
  · rename_i consumer present
    split at stepped
    · rename_i alive
      exact ⟨consumer, present, alive, stepped⟩
    · cases stepped

/-- What one statement of a live producer does besides moving semaphores: it
changes that producer only, it touches the queue only from inside the
addition, and it stops the process only when the full test fails it. -/
structure Producer.Moved
    (state next : State)
    (index : Nat)
    (producer new : Producer) : Prop where
  producers : next.producers = state.producers.set index new
  consumers : next.consumers = state.consumers
  parent : next.parent = state.parent
  alive : new.alive = true ∨
    producer.pc = .adding .checkFull ∧ state.queue.isFull = true ∧
      new.alive = false ∧ new.pc = producer.pc
  queue : (∀ point, producer.pc ≠ .adding point) → next.queue = state.queue
  entered : new.pc = .adding .checkFull → new.alive = true →
    producer.pc = .waitMutex

theorem Producer.advance_moved
    {producer : Producer}
    {index : Nat}
    {rand : Nat → Nat}
    {state next : State}
    (alive : producer.alive = true)
    (advanced : producer.advance index rand state = some next) :
    ∃ new, Producer.Moved state next index producer new := by
  cases place : producer.pc with
  | generate | signalMutex | signalFilledSlots | report =>
      simp only [Producer.advance, place, Option.some.injEq] at advanced
      subst advanced
      exact ⟨_, rfl, rfl, rfl, .inl alive, fun _ => rfl, by simp⟩
  | waitEmptySlots =>
      simp only [Producer.advance, place] at advanced
      split at advanced
      · cases advanced
      · rw [Option.some.injEq] at advanced
        subst advanced
        exact ⟨_, rfl, rfl, rfl, .inl alive, fun _ => rfl, by simp⟩
  | waitMutex =>
      simp only [Producer.advance, place] at advanced
      split at advanced
      · cases advanced
      · rw [Option.some.injEq] at advanced
        subst advanced
        exact ⟨_, rfl, rfl, rfl, .inl alive, fun _ => rfl, fun _ _ => place⟩
  | adding point =>
      simp only [Producer.advance, place] at advanced
      rcases executed : point.execute state.queue
        producer.currentMessagePayload with ⟨after, progress⟩
      rw [executed] at advanced
      cases progress with
      | next point' =>
          simp only [Option.some.injEq] at advanced
          subst advanced
          refine ⟨_, rfl, rfl, rfl, .inl alive,
            fun outside => absurd place (outside point), fun reached _ => ?_⟩
          exfalso
          have back : point' = .checkFull := by simpa using reached
          subst back
          cases point with
          | checkFull =>
              cases full : state.queue.isFull <;>
                simp [AddPoint.execute, full] at executed
          | wrapHead | storeMessage | advanceHead | countMessage
          | countAdded => simp [AddPoint.execute] at executed
      | returned =>
          simp only [Option.some.injEq] at advanced
          subst advanced
          exact ⟨_, rfl, rfl, rfl, .inl alive,
            fun outside => absurd place (outside point), by simp⟩
      | exited =>
          simp only [Option.some.injEq] at advanced
          subst advanced
          obtain ⟨rfl, -, full⟩ := AddPoint.eq_checkFull_of_execute executed
          exact ⟨_, rfl, rfl, rfl, .inr ⟨place, full, rfl, place.symm⟩,
            fun outside => absurd place (outside .checkFull), by simp⟩

/-- What one statement of a live consumer does besides moving semaphores. -/
structure Consumer.Moved
    (state next : State)
    (index : Nat)
    (consumer new : Consumer) : Prop where
  consumers : next.consumers = state.consumers.set index new
  producers : next.producers = state.producers
  parent : next.parent = state.parent
  alive : new.alive = true ∨
    consumer.pc = .getting .checkEmpty ∧ state.queue.isEmpty = true
  queue : (∀ point, consumer.pc ≠ .getting point) → next.queue = state.queue

theorem Consumer.advance_moved
    {consumer : Consumer}
    {index : Nat}
    {state next : State}
    (alive : consumer.alive = true)
    (advanced : consumer.advance index state = some next) :
    ∃ new, Consumer.Moved state next index consumer new := by
  cases place : consumer.pc with
  | clear | signalMutex | signalEmptySlots | verify =>
      simp only [Consumer.advance, place, Option.some.injEq] at advanced
      subst advanced
      exact ⟨_, rfl, rfl, rfl, .inl alive, fun _ => rfl⟩
  | waitFilledSlots | waitMutex =>
      simp only [Consumer.advance, place] at advanced
      split at advanced
      · cases advanced
      · rw [Option.some.injEq] at advanced
        subst advanced
        exact ⟨_, rfl, rfl, rfl, .inl alive, fun _ => rfl⟩
  | getting point =>
      simp only [Consumer.advance, place] at advanced
      rcases executed : point.execute state.queue
        consumer.retrievedMessagePayload with ⟨after, msg, progress⟩
      rw [executed] at advanced
      cases progress with
      | next point' =>
          simp only [Option.some.injEq] at advanced
          subst advanced
          exact ⟨_, rfl, rfl, rfl, .inl alive,
            fun outside => absurd place (outside point)⟩
      | returned =>
          simp only [Option.some.injEq] at advanced
          subst advanced
          exact ⟨_, rfl, rfl, rfl, .inl alive,
            fun outside => absurd place (outside point)⟩
      | exited =>
          simp only [Option.some.injEq] at advanced
          subst advanced
          obtain ⟨rfl, -, -⟩ := GetPoint.eq_checkEmpty_of_execute executed
          refine ⟨_, rfl, rfl, rfl, .inr ⟨place, ?_⟩,
            fun outside => absurd place (outside .checkEmpty)⟩
          cases empty : state.queue.isEmpty with
          | true => rfl
          | false => simp [GetPoint.execute, empty] at executed

end SharedQueue
end OSaSP
