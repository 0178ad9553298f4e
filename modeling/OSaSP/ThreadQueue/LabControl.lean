import OSaSP.ThreadQueue.CircularQueue

/-!
# The operator loop of the thread version

`run_lab_logic` drives both queues: it creates and stops threads, requests
resizes and shuts the lab down.  The parts that differ between the two labs
are the fields of `Lab`, as they are the function arguments of
`run_lab_logic`.  The state covers one lab from `init_queue_*` up to the joins
that precede `destroy_queue_*`.

A thread is stopped by its entry of `producer_active` or `consumer_active`
or by `keep_running`.  The arrays are functions here, so an index beyond
`MAX_THREADS` is visible as such.  What the program does once it has used one is
undefined: a run says something about it only as long as no more than
`MAX_THREADS` threads of a kind have been created in the lab.
-/

namespace OSaSP
namespace ThreadQueue

/-- `MAX_THREADS`. -/
def maxThreads : Nat := 100

/-- `INITIAL_QUEUE_SIZE`. -/
def initialQueueSize : Nat := 10

/-! ## Messages in memory -/

/-- A read of a message's fields, and whether the message was destroyed
already. -/
structure MessageRead where
  msg : MessagePtr
  destroyed : Bool

/-- The message records allocated, destroyed and read so far. -/
structure Heap where
  allocated : Nat
  destroyed : List MessagePtr
  reads : List MessageRead

namespace Heap

/-- No message yet. -/
def empty : Heap where
  allocated := 0
  destroyed := []
  reads := []

/-- A successful `create_message` returns the next allocation. -/
def createMessage (heap : Heap) : Heap :=
  { heap with allocated := heap.allocated + 1 }

/-- `destroy_message`. -/
def destroyMessage (heap : Heap) (msg : MessagePtr) : Heap :=
  { heap with destroyed := heap.destroyed ++ [msg] }

/-- Fields of a message are read. -/
def readMessage (heap : Heap) (msg : MessagePtr) : Heap :=
  { heap with
    reads := heap.reads ++ [⟨msg, heap.destroyed.contains msg⟩] }

end Heap

/-! ## Threads and the main thread -/

/-- A worker with the id it was given and its place. -/
structure Thread (Pc : Type) where
  id : Nat
  pc : Pc

/-- Where the main thread goes on after `signal_cleanup_func`. -/
inductive AfterCleanup
  | loopTest
  | secondCleanup
  | joining
  deriving DecidableEq

/-- Places of `run_lab_logic`. -/
inductive MainPc
  | loopTest
  | command
  | deactivate
  | cleanup (after : AfterCleanup)
  | postEmpty (left : Nat) (after : AfterCleanup)
  | postFilled (left : Nat) (after : AfterCleanup)
  | joining
  deriving DecidableEq

/-- The globals of `utils.c` with the place of the main thread. -/
structure LabControl where
  keepRunning : Bool
  producerActive : Nat → Bool
  consumerActive : Nat → Bool
  producerCount : Int
  consumerCount : Int
  nextProducerId : Nat
  nextConsumerId : Nat
  pc : MainPc

/-- The globals as `run_lab_logic` sets them up. -/
def LabControl.start : LabControl where
  keepRunning := true
  producerActive := fun _ => false
  consumerActive := fun _ => false
  producerCount := 0
  consumerCount := 0
  nextProducerId := 0
  nextConsumerId := 0
  pc := .loopTest

/-- The loop condition of a producer. -/
def LabControl.producerRuns (control : LabControl) (id : Nat) : Bool :=
  control.keepRunning && control.producerActive id

/-- The loop condition of a consumer. -/
def LabControl.consumerRuns (control : LabControl) (id : Nat) : Bool :=
  control.keepRunning && control.consumerActive id

/-- `producer_active[id] = 0`. -/
def LabControl.stopProducer (control : LabControl) (id : Nat) : LabControl :=
  { control with
    producerActive := Function.update control.producerActive id false }

/-- `consumer_active[id] = 0`. -/
def LabControl.stopConsumer (control : LabControl) (id : Nat) : LabControl :=
  { control with
    consumerActive := Function.update control.consumerActive id false }

/-- A lab between `init_queue_*` and `destroy_queue_*`. -/
structure LabState (Queue ProducerPc ConsumerPc : Type) where
  queue : Queue
  history : History
  control : LabControl
  producers : List (Thread ProducerPc)
  consumers : List (Thread ConsumerPc)
  heap : Heap

/-- The two keys that request a resize. -/
inductive ResizeOp
  | plus
  | minus
  deriving DecidableEq

/-- The arguments of `run_lab_logic`.  `signals` is the number of rounds of
the posting loop of `signal_cleanup_func`, which only one lab has. -/
structure Lab (Queue ProducerPc ConsumerPc : Type) where
  producerStart : ProducerPc
  consumerStart : ConsumerPc
  requestResize : ResizeOp → Queue → Queue
  signals : Queue → LabControl → Nat
  postEmpty : Queue → Queue
  postFilled : Queue → Queue

/-- How the creation of a thread goes. -/
inductive CreateOutcome
  | noMemory
  | notCreated
  | created
  deriving DecidableEq

/-- The keys of the operator; status reports and unknown keys are `idle`. -/
inductive Command
  | idle
  | addProducer (outcome : CreateOutcome)
  | addConsumer (outcome : CreateOutcome)
  | removeProducer
  | removeConsumer
  | requestResize (op : ResizeOp)
  | quit

/-- The search for the last set flag below `next`. -/
def lastActive (active : Nat → Bool) : Nat → Option Nat
  | 0 => none
  | next + 1 => if active next then some next else lastActive active next

/-- The result of a resize: whether it returned zero, the queue afterwards
and the slots touched. -/
structure ResizeResult (Queue : Type) where
  succeeded : Bool
  queue : Queue
  accesses : List Access

/-- The core of `request_resize_sem` and `request_resize_cond` when no request
is pending. -/
def CircularQueue.request
    (queue : CircularQueue)
    (op : ResizeOp) : CircularQueue :=
  let targetSize : Int :=
    match op with
    | .plus => queue.capacity + 5
    | .minus => queue.capacity - 5
  if targetSize ≤ 0 ∧ op = .minus then queue
  else
    { queue with
      newCapacityRequest := targetSize
      resizeRequest :=
        match op with
        | .plus => .increase
        | .minus => .decrease }

namespace LabState

variable {Queue ProducerPc ConsumerPc : Type}

/-- A producer moves to another place. -/
def setProducer
    (state : LabState Queue ProducerPc ConsumerPc)
    (index id : Nat)
    (pc : ProducerPc) : LabState Queue ProducerPc ConsumerPc :=
  { state with producers := state.producers.set index ⟨id, pc⟩ }

/-- A consumer moves to another place. -/
def setConsumer
    (state : LabState Queue ProducerPc ConsumerPc)
    (index id : Nat)
    (pc : ConsumerPc) : LabState Queue ProducerPc ConsumerPc :=
  { state with consumers := state.consumers.set index ⟨id, pc⟩ }

/-- The key `p`. -/
def addProducer
    (start : ProducerPc)
    (outcome : CreateOutcome)
    (state : LabState Queue ProducerPc ConsumerPc) :
    LabState Queue ProducerPc ConsumerPc :=
  let control := state.control
  let currentId := control.nextProducerId
  if control.producerCount < maxThreads then
    match outcome with
    | .noMemory =>
        { state with control := { control with
          producerActive :=
            Function.update control.producerActive currentId true } }
    | .notCreated =>
        { state with control := { control with
          producerActive :=
            Function.update control.producerActive currentId false } }
    | .created =>
        { state with
          producers := state.producers ++ [⟨currentId, start⟩]
          control := { control with
            producerActive :=
              Function.update control.producerActive currentId true
            nextProducerId := currentId + 1
            producerCount := control.producerCount + 1 } }
  else state

/-- The key `c`. -/
def addConsumer
    (start : ConsumerPc)
    (outcome : CreateOutcome)
    (state : LabState Queue ProducerPc ConsumerPc) :
    LabState Queue ProducerPc ConsumerPc :=
  let control := state.control
  let currentId := control.nextConsumerId
  if control.consumerCount < maxThreads then
    match outcome with
    | .noMemory =>
        { state with control := { control with
          consumerActive :=
            Function.update control.consumerActive currentId true } }
    | .notCreated =>
        { state with control := { control with
          consumerActive :=
            Function.update control.consumerActive currentId false } }
    | .created =>
        { state with
          consumers := state.consumers ++ [⟨currentId, start⟩]
          control := { control with
            consumerActive :=
              Function.update control.consumerActive currentId true
            nextConsumerId := currentId + 1
            consumerCount := control.consumerCount + 1 } }
  else state

/-- The main thread goes to another place. -/
def goto
    (pc : MainPc)
    (state : LabState Queue ProducerPc ConsumerPc) :
    LabState Queue ProducerPc ConsumerPc :=
  { state with control := { state.control with pc } }

/-- The key `P`. -/
def removeProducer
    (state : LabState Queue ProducerPc ConsumerPc) :
    LabState Queue ProducerPc ConsumerPc :=
  let control := state.control
  match lastActive control.producerActive control.nextProducerId with
  | none => state.goto .loopTest
  | some targetId =>
      { state with control := { control.stopProducer targetId with
        producerCount := control.producerCount - 1
        pc := .cleanup .loopTest } }

/-- The key `C`. -/
def removeConsumer
    (state : LabState Queue ProducerPc ConsumerPc) :
    LabState Queue ProducerPc ConsumerPc :=
  let control := state.control
  match lastActive control.consumerActive control.nextConsumerId with
  | none => state.goto .loopTest
  | some targetId =>
      { state with control := { control.stopConsumer targetId with
        consumerCount := control.consumerCount - 1
        pc := .cleanup .loopTest } }

end LabState

namespace Lab

variable {Queue ProducerPc ConsumerPc : Type}

/-- One command of the operator. -/
def execute
    (lab : Lab Queue ProducerPc ConsumerPc)
    (state : LabState Queue ProducerPc ConsumerPc) :
    Command → LabState Queue ProducerPc ConsumerPc
  | .idle => state.goto .loopTest
  | .addProducer outcome =>
      (state.addProducer lab.producerStart outcome).goto .loopTest
  | .addConsumer outcome =>
      (state.addConsumer lab.consumerStart outcome).goto .loopTest
  | .removeProducer => state.removeProducer
  | .removeConsumer => state.removeConsumer
  | .requestResize op =>
      { state with queue := lab.requestResize op state.queue }.goto .loopTest
  | .quit =>
      { state with control := { state.control with
        keepRunning := false
        pc := .cleanup .loopTest } }

/-- Where the main thread is after `signal_cleanup_func`. -/
def resume : AfterCleanup → MainPc
  | .loopTest => .loopTest
  | .secondCleanup => .cleanup .joining
  | .joining => .joining

/-- One step of the main thread: `command` is the key it reads when it is
about to. -/
def mainStep
    (lab : Lab Queue ProducerPc ConsumerPc)
    (command : Command)
    (state : LabState Queue ProducerPc ConsumerPc) :
    Option (LabState Queue ProducerPc ConsumerPc) :=
  let control := state.control
  match control.pc with
  | .loopTest =>
      some (state.goto (if control.keepRunning then .command else .deactivate))
  | .command => some (lab.execute state command)
  | .deactivate =>
      some { state with control := { control with
        producerActive := fun id =>
          if id < control.nextProducerId then false
          else control.producerActive id
        consumerActive := fun id =>
          if id < control.nextConsumerId then false
          else control.consumerActive id
        pc := .cleanup .secondCleanup } }
  | .cleanup after =>
      some (state.goto (.postEmpty (lab.signals state.queue control) after))
  | .postEmpty 0 after => some (state.goto (resume after))
  | .postEmpty (left + 1) after =>
      some ({ state with queue := lab.postEmpty state.queue }.goto
        (.postFilled left after))
  | .postFilled left after =>
      some ({ state with queue := lab.postFilled state.queue }.goto
        (.postEmpty left after))
  | .joining => none

/-! ## What the main thread can do -/

/-- A step of the main thread creates at most one thread, requests at most one
resize, and posts while it is in `signal_cleanup_func`. -/
structure MainMove
    (lab : Lab Queue ProducerPc ConsumerPc)
    (state next : LabState Queue ProducerPc ConsumerPc) : Prop where
  history : next.history = state.history
  producers : next.producers = state.producers ∨
    ∃ id, next.producers = state.producers ++ [⟨id, lab.producerStart⟩]
  consumers : next.consumers = state.consumers ∨
    ∃ id, next.consumers = state.consumers ++ [⟨id, lab.consumerStart⟩]
  queue :
    match state.control.pc with
    | .postEmpty (_ + 1) _ => next.queue = lab.postEmpty state.queue
    | .postFilled _ _ => next.queue = lab.postFilled state.queue
    | _ => next.queue = state.queue ∨
        ∃ op, next.queue = lab.requestResize op state.queue

variable {lab : Lab Queue ProducerPc ConsumerPc}
  {state next : LabState Queue ProducerPc ConsumerPc} {command : Command}

/-- A command leaves the queue alone or requests a resize. -/
theorem MainMove.of_command
    (atCommand : state.control.pc = .command)
    (history : next.history = state.history)
    (producers : next.producers = state.producers ∨
      ∃ id, next.producers = state.producers ++ [⟨id, lab.producerStart⟩])
    (consumers : next.consumers = state.consumers ∨
      ∃ id, next.consumers = state.consumers ++ [⟨id, lab.consumerStart⟩])
    (queue : next.queue = state.queue ∨
      ∃ op, next.queue = lab.requestResize op state.queue) :
    lab.MainMove state next where
  history := history
  producers := producers
  consumers := consumers
  queue := by
    rw [atCommand]
    exact queue

/-- Everything else a command does concerns the threads. -/
theorem execute_move (atCommand : state.control.pc = .command) :
    lab.MainMove state (lab.execute state command) := by
  cases command with
  | idle | quit =>
      exact .of_command atCommand rfl (.inl rfl) (.inl rfl) (.inl rfl)
  | addProducer outcome =>
      unfold execute LabState.addProducer
      dsimp only
      split
      · cases outcome with
        | noMemory | notCreated =>
            exact .of_command atCommand rfl (.inl rfl) (.inl rfl) (.inl rfl)
        | created =>
            exact .of_command atCommand rfl (.inr ⟨_, rfl⟩) (.inl rfl)
              (.inl rfl)
      · exact .of_command atCommand rfl (.inl rfl) (.inl rfl) (.inl rfl)
  | addConsumer outcome =>
      unfold execute LabState.addConsumer
      dsimp only
      split
      · cases outcome with
        | noMemory | notCreated =>
            exact .of_command atCommand rfl (.inl rfl) (.inl rfl) (.inl rfl)
        | created =>
            exact .of_command atCommand rfl (.inl rfl) (.inr ⟨_, rfl⟩)
              (.inl rfl)
      · exact .of_command atCommand rfl (.inl rfl) (.inl rfl) (.inl rfl)
  | removeProducer =>
      unfold execute LabState.removeProducer
      dsimp only
      split
      · exact .of_command atCommand rfl (.inl rfl) (.inl rfl) (.inl rfl)
      · exact .of_command atCommand rfl (.inl rfl) (.inl rfl) (.inl rfl)
  | removeConsumer =>
      unfold execute LabState.removeConsumer
      dsimp only
      split
      · exact .of_command atCommand rfl (.inl rfl) (.inl rfl) (.inl rfl)
      · exact .of_command atCommand rfl (.inl rfl) (.inl rfl) (.inl rfl)
  | requestResize op =>
      exact .of_command atCommand rfl (.inl rfl) (.inl rfl) (.inr ⟨op, rfl⟩)

theorem mainStep_move (stepped : lab.mainStep command state = some next) :
    lab.MainMove state next := by
  unfold mainStep at stepped
  cases place : state.control.pc with
  | command =>
      simp only [place, Option.some.injEq] at stepped
      subst stepped
      exact execute_move place
  | loopTest | deactivate | cleanup after =>
      simp only [place, Option.some.injEq] at stepped
      subst stepped
      exact ⟨rfl, .inl rfl, .inl rfl, by rw [place]; exact .inl rfl⟩
  | postEmpty left after =>
      cases left with
      | zero =>
          simp only [place, Option.some.injEq] at stepped
          subst stepped
          exact ⟨rfl, .inl rfl, .inl rfl, by rw [place]; exact .inl rfl⟩
      | succ left =>
          simp only [place, Option.some.injEq] at stepped
          subst stepped
          exact ⟨rfl, .inl rfl, .inl rfl, by rw [place]; rfl⟩
  | postFilled left after =>
      simp only [place, Option.some.injEq] at stepped
      subst stepped
      exact ⟨rfl, .inl rfl, .inl rfl, by rw [place]; rfl⟩
  | joining => simp [place] at stepped

end Lab

end ThreadQueue
end OSaSP
