import OSaSP.Foundations.Pool
import OSaSP.SharedQueue.Processes

/-!
# Conservation of the mutex and of the slot tokens

Every place of a child's loop holds or owes a fixed number of semaphore
tokens.  Counting them over all children, alive or stopped, gives four laws
that every step preserves: the mutex is free or held at exactly one place,
every slot is free, taken or in transit, every message added is either
extracted, announced or about to be announced, and every token a producer ever
took became a message or is still held.  A child that was killed keeps
its share forever, which is what the later results about killing measure.
-/

namespace OSaSP
namespace SharedQueue

/-! ## What each place holds and owes -/

/-- Places between the wait on `QUEUE_MUTEX` and its signal. -/
def ProducerPc.inCritical : ProducerPc → Nat
  | .adding _ | .signalMutex => 1
  | _ => 0

/-- Places that hold an `EMPTY_SLOTS_SEM` token not yet turned into a
message. -/
def ProducerPc.holdsEmpty : ProducerPc → Nat
  | .waitMutex | .adding _ => 1
  | _ => 0

/-- Places that owe a `FILLED_SLOTS_SEM` token for a message just added. -/
def ProducerPc.owesFilled : ProducerPc → Nat
  | .signalMutex | .signalFilledSlots => 1
  | _ => 0

/-- Places between the wait on `QUEUE_MUTEX` and its signal. -/
def ConsumerPc.inCritical : ConsumerPc → Nat
  | .getting _ | .signalMutex => 1
  | _ => 0

/-- Places that hold a `FILLED_SLOTS_SEM` token not yet turned into an
extraction. -/
def ConsumerPc.holdsFilled : ConsumerPc → Nat
  | .waitMutex | .getting _ => 1
  | _ => 0

/-- Places that owe an `EMPTY_SLOTS_SEM` token for a slot just freed. -/
def ConsumerPc.owesEmpty : ConsumerPc → Nat
  | .signalMutex | .signalEmptySlots => 1
  | _ => 0

/-- Whether the parent is inside the critical section of
`display_current_status`. -/
def ParentPc.inCritical : ParentPc → Nat
  | .statusShow => 1
  | _ => 0

/-! ## The four laws -/

/-- Mutual exclusion, the two token balances and the balance of admitted
messages, over all children ever forked. -/
structure Conserved (state : State) : Prop where
  mutex : state.queueMutex +
      Pool.total (fun producer => producer.pc.inCritical) state.producers +
      Pool.total (fun consumer => consumer.pc.inCritical) state.consumers +
      state.parent.inCritical = 1
  empty : state.emptySlots +
      Pool.total (fun producer => producer.pc.holdsEmpty) state.producers +
      Pool.total (fun consumer => consumer.pc.owesEmpty) state.consumers +
      state.added.length = bufferCapacity + state.extracted.length
  filled : state.filledSlots +
      Pool.total (fun consumer => consumer.pc.holdsFilled) state.consumers +
      Pool.total (fun producer => producer.pc.owesFilled) state.producers +
      state.extracted.length = state.added.length
  admitted : state.admitted = state.added.length +
      Pool.total (fun producer => producer.pc.holdsEmpty) state.producers

theorem conserved_systemInit : Conserved systemInit where
  mutex := rfl
  empty := rfl
  filled := rfl
  admitted := rfl

/-- A producer's move keeps the laws when its change of place pays for the
change of the semaphores and of the history. -/
theorem Conserved.moveProducer
    {state next : State}
    {index : Nat}
    {old new : Producer}
    (conserved : Conserved state)
    (present : state.producers[index]? = some old)
    (producers : next.producers = state.producers.set index new)
    (consumers : next.consumers = state.consumers)
    (parent : next.parent = state.parent)
    (extracted : next.extracted = state.extracted)
    (mutex : next.queueMutex + new.pc.inCritical =
      state.queueMutex + old.pc.inCritical)
    (empty : next.emptySlots + new.pc.holdsEmpty + next.added.length =
      state.emptySlots + old.pc.holdsEmpty + state.added.length)
    (filled : next.filledSlots + new.pc.owesFilled + state.added.length =
      state.filledSlots + old.pc.owesFilled + next.added.length)
    (admitted : next.admitted + old.pc.holdsEmpty + state.added.length =
      state.admitted + new.pc.holdsEmpty + next.added.length) :
    Conserved next := by
  have critical := Pool.total_set
    (fun producer => producer.pc.inCritical) present new
  have holds := Pool.total_set
    (fun producer => producer.pc.holdsEmpty) present new
  have owes := Pool.total_set
    (fun producer => producer.pc.owesFilled) present new
  obtain ⟨mutexLaw, emptyLaw, filledLaw, admittedLaw⟩ := conserved
  constructor
  · rw [producers, consumers, parent]
    omega
  · rw [producers, consumers, extracted]
    omega
  · rw [producers, consumers, extracted]
    omega
  · rw [producers]
    omega

/-- A consumer's move keeps the laws when its change of place pays for the
change of the semaphores and of the history. -/
theorem Conserved.moveConsumer
    {state next : State}
    {index : Nat}
    {old new : Consumer}
    (conserved : Conserved state)
    (present : state.consumers[index]? = some old)
    (consumers : next.consumers = state.consumers.set index new)
    (producers : next.producers = state.producers)
    (parent : next.parent = state.parent)
    (added : next.added = state.added)
    (admitted : next.admitted = state.admitted)
    (mutex : next.queueMutex + new.pc.inCritical =
      state.queueMutex + old.pc.inCritical)
    (empty : next.emptySlots + new.pc.owesEmpty + state.extracted.length =
      state.emptySlots + old.pc.owesEmpty + next.extracted.length)
    (filled : next.filledSlots + new.pc.holdsFilled + next.extracted.length =
      state.filledSlots + old.pc.holdsFilled + state.extracted.length) :
    Conserved next := by
  have critical := Pool.total_set
    (fun consumer => consumer.pc.inCritical) present new
  have holds := Pool.total_set
    (fun consumer => consumer.pc.holdsFilled) present new
  have owes := Pool.total_set
    (fun consumer => consumer.pc.owesEmpty) present new
  obtain ⟨mutexLaw, emptyLaw, filledLaw, admittedLaw⟩ := conserved
  constructor
  · rw [producers, consumers, parent]
    omega
  · rw [producers, consumers, added]
    omega
  · rw [producers, consumers, added]
    omega
  · rw [producers, added, admitted]
    exact admittedLaw

/-- Every statement of a producer keeps the laws. -/
theorem Conserved.advanceProducer
    {state next : State}
    {index : Nat}
    {producer : Producer}
    {rand : Nat → Nat}
    (conserved : Conserved state)
    (present : state.producers[index]? = some producer)
    (advanced : producer.advance index rand state = some next) :
    Conserved next := by
  cases place : producer.pc with
  | generate | signalMutex | signalFilledSlots | report =>
      simp only [Producer.advance, place, Option.some.injEq] at advanced
      subst advanced
      refine conserved.moveProducer present rfl rfl rfl rfl ?_ ?_ ?_ ?_ <;>
        simp only [State.setProducer, place, ProducerPc.inCritical,
          ProducerPc.holdsEmpty, ProducerPc.owesFilled]
  | waitEmptySlots | waitMutex =>
      simp only [Producer.advance, place] at advanced
      split at advanced
      · cases advanced
      · rw [Option.some.injEq] at advanced
        subst advanced
        refine conserved.moveProducer present rfl rfl rfl rfl ?_ ?_ ?_ ?_ <;>
          simp only [State.setProducer, place, ProducerPc.inCritical,
            ProducerPc.holdsEmpty, ProducerPc.owesFilled]
        omega
  | adding point =>
      simp only [Producer.advance, place] at advanced
      split at advanced <;> rw [Option.some.injEq] at advanced <;>
        subst advanced <;>
        refine conserved.moveProducer present rfl rfl rfl rfl ?_ ?_ ?_ ?_ <;>
          simp only [State.setProducer, place, ProducerPc.inCritical,
            ProducerPc.holdsEmpty, ProducerPc.owesFilled,
            List.length_append, List.length_singleton] <;> omega

/-- Every statement of a consumer keeps the laws. -/
theorem Conserved.advanceConsumer
    {state next : State}
    {index : Nat}
    {consumer : Consumer}
    (conserved : Conserved state)
    (present : state.consumers[index]? = some consumer)
    (advanced : consumer.advance index state = some next) :
    Conserved next := by
  cases place : consumer.pc with
  | clear | signalMutex | signalEmptySlots | verify =>
      simp only [Consumer.advance, place, Option.some.injEq] at advanced
      subst advanced
      refine conserved.moveConsumer present rfl rfl rfl rfl rfl ?_ ?_ ?_ <;>
        simp only [State.setConsumer, place, ConsumerPc.inCritical,
          ConsumerPc.holdsFilled, ConsumerPc.owesEmpty]
  | waitFilledSlots | waitMutex =>
      simp only [Consumer.advance, place] at advanced
      split at advanced
      · cases advanced
      · rw [Option.some.injEq] at advanced
        subst advanced
        refine conserved.moveConsumer present rfl rfl rfl rfl rfl ?_ ?_ ?_ <;>
          simp only [State.setConsumer, place, ConsumerPc.inCritical,
            ConsumerPc.holdsFilled, ConsumerPc.owesEmpty]
        omega
  | getting point =>
      simp only [Consumer.advance, place] at advanced
      split at advanced <;> rw [Option.some.injEq] at advanced <;>
        subst advanced <;>
        refine conserved.moveConsumer present rfl rfl rfl rfl rfl ?_ ?_ ?_ <;>
          simp only [State.setConsumer, place, ConsumerPc.inCritical,
            ConsumerPc.holdsFilled, ConsumerPc.owesEmpty,
            List.length_append, List.length_singleton] <;> omega

/-- Killing a producer leaves its place, and so its share, as it was. -/
theorem Conserved.killProducer
    {state : State}
    (conserved : Conserved state)
    (index : Nat) :
    Conserved (killProducer index state) := by
  unfold SharedQueue.killProducer
  split
  · exact conserved
  · rename_i producer present
    exact conserved.moveProducer present rfl rfl rfl rfl rfl rfl rfl rfl

/-- Killing a consumer leaves its place, and so its share, as it was. -/
theorem Conserved.killConsumer
    {state : State}
    (conserved : Conserved state)
    (index : Nat) :
    Conserved (killConsumer index state) := by
  unfold SharedQueue.killConsumer
  split
  · exact conserved
  · rename_i consumer present
    exact conserved.moveConsumer present rfl rfl rfl rfl rfl rfl rfl rfl

/-- The two lists of process ids and the counters of the parent do not matter
for the laws. -/
theorem Conserved.of_eq
    {state next : State}
    (conserved : Conserved state)
    (producers : next.producers = state.producers)
    (consumers : next.consumers = state.consumers)
    (mutex : next.queueMutex + next.parent.inCritical =
      state.queueMutex + state.parent.inCritical)
    (empty : next.emptySlots = state.emptySlots)
    (filled : next.filledSlots = state.filledSlots)
    (added : next.added = state.added)
    (extracted : next.extracted = state.extracted)
    (admitted : next.admitted = state.admitted) :
    Conserved next := by
  obtain ⟨mutexLaw, emptyLaw, filledLaw, admittedLaw⟩ := conserved
  constructor
  · rw [producers, consumers]
    omega
  · rw [producers, consumers, empty, added, extracted]
    exact emptyLaw
  · rw [producers, consumers, filled, added, extracted]
    exact filledLaw
  · rw [producers, added, admitted]
    exact admittedLaw

/-- A new child holds nothing. -/
theorem Conserved.spawnProducerProcess
    {state : State}
    (conserved : Conserved state)
    (ready : state.parent = .command)
    (forked : Bool) :
    Conserved (spawnProducerProcess forked state) := by
  unfold SharedQueue.spawnProducerProcess
  split
  · exact conserved
  · split
    · obtain ⟨mutexLaw, emptyLaw, filledLaw, admittedLaw⟩ := conserved
      constructor <;>
        simp only [Pool.total_append, Pool.total_cons, Pool.total_nil,
          Producer.spawned, ProducerPc.inCritical, ProducerPc.holdsEmpty,
          ProducerPc.owesFilled, Nat.add_zero] <;>
        assumption
    · exact conserved.of_eq rfl rfl (by simp [ready, ParentPc.inCritical])
        rfl rfl rfl rfl rfl

/-- A new child holds nothing. -/
theorem Conserved.spawnConsumerProcess
    {state : State}
    (conserved : Conserved state)
    (ready : state.parent = .command)
    (forked : Bool) :
    Conserved (spawnConsumerProcess forked state) := by
  unfold SharedQueue.spawnConsumerProcess
  split
  · exact conserved
  · split
    · obtain ⟨mutexLaw, emptyLaw, filledLaw, admittedLaw⟩ := conserved
      constructor <;>
        simp only [Pool.total_append, Pool.total_cons, Pool.total_nil,
          Consumer.spawned, ConsumerPc.inCritical, ConsumerPc.holdsFilled,
          ConsumerPc.owesEmpty, Nat.add_zero] <;>
        assumption
    · exact conserved.of_eq rfl rfl (by simp [ready, ParentPc.inCritical])
        rfl rfl rfl rfl rfl

/-- The parent's status report takes and returns the mutex. -/
theorem Conserved.statusStep
    {state next : State}
    (conserved : Conserved state)
    (stepped : statusStep state = some next) :
    Conserved next := by
  cases place : state.parent with
  | command | exited =>
      simp [SharedQueue.statusStep, place] at stepped
  | statusWait =>
      simp only [SharedQueue.statusStep, place] at stepped
      split at stepped
      · cases stepped
      · cases stepped
        refine conserved.of_eq rfl rfl ?_ rfl rfl rfl rfl rfl
        simp only [place, ParentPc.inCritical]
        omega
  | statusShow =>
      simp only [SharedQueue.statusStep, place] at stepped
      cases stepped
      refine conserved.of_eq rfl rfl ?_ rfl rfl rfl rfl rfl
      simp only [place, ParentPc.inCritical]

/-- Every step of the system keeps the laws. -/
theorem Conserved.step
    {state next : State}
    {action : Action}
    (conserved : Conserved state)
    (stepped : SharedQueue.step state action = some next) :
    Conserved next := by
  cases action with
  | spawnProducer forked =>
      obtain ⟨ready, rfl⟩ := atCommand_eq_some stepped
      exact conserved.spawnProducerProcess ready forked
  | spawnConsumer forked =>
      obtain ⟨ready, rfl⟩ := atCommand_eq_some stepped
      exact conserved.spawnConsumerProcess ready forked
  | terminateLastProducer =>
      obtain ⟨-, rfl⟩ := atCommand_eq_some stepped
      unfold SharedQueue.terminateLastProducer
      split
      · exact conserved
      · apply Conserved.killProducer
        exact conserved.of_eq rfl rfl rfl rfl rfl rfl rfl rfl
  | terminateLastConsumer =>
      obtain ⟨-, rfl⟩ := atCommand_eq_some stepped
      unfold SharedQueue.terminateLastConsumer
      split
      · exact conserved
      · apply Conserved.killConsumer
        exact conserved.of_eq rfl rfl rfl rfl rfl rfl rfl rfl
  | displayCurrentStatus =>
      obtain ⟨ready, rfl⟩ := atCommand_eq_some stepped
      exact conserved.of_eq rfl rfl (by simp [ready, ParentPc.inCritical])
        rfl rfl rfl rfl rfl
  | status => exact conserved.statusStep stepped
  | producer index rand =>
      obtain ⟨producer, present, -, advanced⟩ :=
        producerStep_eq_some stepped
      exact conserved.advanceProducer present advanced
  | consumer index =>
      obtain ⟨consumer, present, -, advanced⟩ := consumerStep_eq_some stepped
      exact conserved.advanceConsumer present advanced
  | killProducer index =>
      cases stepped
      exact conserved.killProducer index
  | killConsumer index =>
      cases stepped
      exact conserved.killConsumer index

/-- The laws hold in every reachable state, whatever children were killed. -/
theorem conserved_of_reachable
    {state : State}
    (reachable : system.Reachable state) :
    Conserved state := by
  apply reachable.invariant
  · rintro _ rfl
    exact conserved_systemInit
  · intro before action after conserved _ stepped
    exact conserved.step stepped

end SharedQueue
end OSaSP
