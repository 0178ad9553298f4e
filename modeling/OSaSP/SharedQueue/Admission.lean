import OSaSP.SharedQueue.Fifo

/-!
# What the slot semaphore admits and what the ring accepts

`EMPTY_SLOTS_SEM` starts at `BUFFER_CAPACITY`, while the full test of
`add_message_to_queue` refuses one message less.  A producer that enters the
critical section while `BUFFER_CAPACITY - 1` messages are stored exits there
and keeps the mutex.  Without kills this is the only way the two disagree: a
run is sound in all of its states exactly when no producer of the run enters
on a full ring.
-/

namespace OSaSP
namespace SharedQueue

/-- Weight of a live producer under a weight of its place. -/
def Producer.live (weight : ProducerPc → Nat) (producer : Producer) : Nat :=
  if producer.alive then weight producer.pc else 0

/-- Weight of a live consumer under a weight of its place. -/
def Consumer.live (weight : ConsumerPc → Nat) (consumer : Consumer) : Nat :=
  if consumer.alive then weight consumer.pc else 0

theorem Producer.live_of_alive
    {producer : Producer}
    (alive : producer.alive = true)
    (weight : ProducerPc → Nat) :
    producer.live weight = weight producer.pc := by
  rw [Producer.live, if_pos alive]

/-- The semaphore and the ring agree: no live producer is about to take the
exit of the full test, no process stopped inside the critical section, and
every message admitted was added or is carried by a live producer. -/
structure AdmissionSound (state : State) : Prop where
  noFullExit : ∀ producer ∈ state.producers,
    producer.alive = true → producer.pc = .adding .checkFull →
      state.queue.isFull = false
  producersLeave : ∀ producer ∈ state.producers,
    producer.alive = false → producer.pc.inCritical = 0
  consumersLeave : ∀ consumer ∈ state.consumers,
    consumer.alive = false → consumer.pc.inCritical = 0
  parentLeaves : state.parent = .exited → state.parent.inCritical = 0
  admitted : state.admitted = state.added.length +
    Pool.total (Producer.live ProducerPc.holdsEmpty) state.producers

/-- A producer that is about to take the mutex finds room in the ring. -/
def EntersWithRoom (state : State) : Action → Prop
  | .producer index _ =>
      ∀ producer, state.producers[index]? = some producer →
        producer.alive = true → producer.pc = .waitMutex →
          state.queue.isFull = false
  | _ => True

/-- The invariant of the runs in which every producer enters with room. -/
structure AdmissionInvariant (state : State) : Prop where
  invariant : Invariant state
  producersAlive : ∀ producer ∈ state.producers, producer.alive = true
  consumersAlive : ∀ consumer ∈ state.consumers, consumer.alive = true
  room : ∀ producer ∈ state.producers,
    producer.pc = .adding .checkFull → state.queue.isFull = false

theorem admissionInvariant_systemInit : AdmissionInvariant systemInit where
  invariant := invariant_systemInit
  producersAlive := by simp [systemInit]
  consumersAlive := by simp [systemInit]
  room := by simp [systemInit]

theorem AdmissionInvariant.sound
    {state : State}
    (admission : AdmissionInvariant state) :
    AdmissionSound state where
  noFullExit producer member _ place := admission.room producer member place
  producersLeave producer member stopped := by
    rw [admission.producersAlive producer member] at stopped
    cases stopped
  consumersLeave consumer member stopped := by
    rw [admission.consumersAlive consumer member] at stopped
    cases stopped
  parentLeaves exited := by rw [exited]; rfl
  admitted := by
    rw [admission.invariant.1.admitted]
    congr 1
    apply Pool.total_congr
    intro producer member
    exact (Producer.live_of_alive
      (admission.producersAlive producer member) _).symm

/-! ## Steps that keep the invariant -/

theorem AdmissionInvariant.producerStep
    {state next : State}
    {index : Nat}
    {rand : Nat → Nat}
    (admission : AdmissionInvariant state)
    (meets : EntersWithRoom state (.producer index rand))
    (stepped : SharedQueue.producerStep index rand state = some next) :
    AdmissionInvariant next := by
  have invariant' : Invariant next :=
    admission.invariant.step
      (show SharedQueue.step state (.producer index rand) = some next
        from stepped)
  obtain ⟨producer, present, alive, advanced⟩ := producerStep_eq_some stepped
  obtain ⟨new, moved⟩ := Producer.advance_moved alive advanced
  have member := List.mem_of_getElem? present
  have newAlive : new.alive = true := by
    rcases moved.alive with stays | ⟨place, full, -, -⟩
    · exact stays
    · rw [admission.room producer member place] at full
      cases full
  refine ⟨invariant', ?_, ?_, ?_⟩
  · rw [moved.producers]
    exact Pool.forall_mem_set admission.producersAlive newAlive
  · rw [moved.consumers]
    exact admission.consumersAlive
  · rw [moved.producers]
    intro other otherMember otherPlace
    obtain ⟨position, found⟩ := List.getElem?_of_mem otherMember
    rcases Pool.getElem?_set_cases found with ⟨-, rfl⟩ | ⟨different, found⟩
    · have place := moved.entered otherPlace newAlive
      rw [moved.queue (by simp [place])]
      exact meets producer present alive place
    · -- The other producer holds the mutex, so this one is outside.
      have inside : other.pc.inCritical = 1 := by rw [otherPlace]; rfl
      have outside := (admission.invariant.1.sole_producer found inside).1
        index producer present (Ne.symm different)
      rw [moved.queue (ProducerPc.not_adding_of_inCritical outside)]
      exact admission.room other (List.mem_of_getElem? found) otherPlace

theorem AdmissionInvariant.consumerStep
    {state next : State}
    {index : Nat}
    (admission : AdmissionInvariant state)
    (stepped : SharedQueue.consumerStep index state = some next) :
    AdmissionInvariant next := by
  have invariant' : Invariant next :=
    admission.invariant.step
      (show SharedQueue.step state (.consumer index) = some next from stepped)
  obtain ⟨consumer, present, alive, advanced⟩ := consumerStep_eq_some stepped
  obtain ⟨new, moved⟩ := Consumer.advance_moved alive advanced
  have newAlive : new.alive = true := by
    rcases moved.alive with stays | ⟨place, empty⟩
    · exact stays
    · have stored :=
        admission.invariant.notEmpty_at_checkEmpty present place
      exact absurd (by simpa [QueueBuffer.isEmpty] using empty) stored
  refine ⟨invariant', ?_, ?_, ?_⟩
  · rw [moved.producers]
    exact admission.producersAlive
  · rw [moved.consumers]
    exact Pool.forall_mem_set admission.consumersAlive newAlive
  · rw [moved.producers]
    intro other member place
    obtain ⟨position, found⟩ := List.getElem?_of_mem member
    have inside : other.pc.inCritical = 1 := by rw [place]; rfl
    have outside := (admission.invariant.1.sole_producer found inside).2
      consumer (List.mem_of_getElem? present)
    rw [moved.queue (ConsumerPc.not_getting_of_inCritical outside)]
    exact admission.room other member place

/-- Steps that leave the children and the queue alone keep the invariant. -/
theorem AdmissionInvariant.of_eq
    {state next : State}
    (admission : AdmissionInvariant state)
    (invariant : Invariant next)
    (producers : next.producers = state.producers)
    (consumers : next.consumers = state.consumers)
    (queue : next.queue = state.queue) :
    AdmissionInvariant next := by
  refine ⟨invariant, ?_, ?_, ?_⟩
  · rw [producers]
    exact admission.producersAlive
  · rw [consumers]
    exact admission.consumersAlive
  · rw [producers, queue]
    exact admission.room

/-- Every step without a kill in which a producer only enters with room keeps
the invariant. -/
theorem AdmissionInvariant.step
    {state next : State}
    {action : Action}
    (admission : AdmissionInvariant state)
    (meets : EntersWithRoom state action)
    (stepped : unkilledSystem.step state action = some next) :
    AdmissionInvariant next := by
  simp only [unkilledSystem] at stepped
  split at stepped
  · cases stepped
  rename_i unkilled
  have invariant' := admission.invariant.step stepped
  cases action with
  | spawnProducer forked =>
      obtain ⟨-, rfl⟩ := atCommand_eq_some stepped
      unfold spawnProducerProcess at invariant' ⊢
      split
      · exact admission
      · rename_i below
        rw [if_neg below] at invariant'
        split
        · rename_i isForked
          rw [if_pos isForked] at invariant'
          refine ⟨invariant', ?_, admission.consumersAlive, ?_⟩
          · simpa [or_imp, forall_and, Producer.spawned]
              using admission.producersAlive
          · simpa [or_imp, forall_and, Producer.spawned] using admission.room
        · rename_i notForked
          rw [if_neg notForked] at invariant'
          exact admission.of_eq invariant' rfl rfl rfl
  | spawnConsumer forked =>
      obtain ⟨-, rfl⟩ := atCommand_eq_some stepped
      unfold spawnConsumerProcess at invariant' ⊢
      split
      · exact admission
      · rename_i below
        rw [if_neg below] at invariant'
        split
        · rename_i isForked
          rw [if_pos isForked] at invariant'
          refine ⟨invariant', admission.producersAlive, ?_, admission.room⟩
          simpa [or_imp, forall_and, Consumer.spawned]
            using admission.consumersAlive
        · rename_i notForked
          rw [if_neg notForked] at invariant'
          exact admission.of_eq invariant' rfl rfl rfl
  | terminateLastProducer | terminateLastConsumer
  | killProducer index | killConsumer index => exact absurd rfl unkilled
  | displayCurrentStatus =>
      obtain ⟨-, rfl⟩ := atCommand_eq_some stepped
      exact admission.of_eq invariant' rfl rfl rfl
  | status =>
      obtain ⟨producers, consumers, queue⟩ := statusStep_eq_some stepped
      exact admission.of_eq invariant' producers consumers queue
  | producer index rand => exact admission.producerStep meets stepped
  | consumer index => exact admission.consumerStep stepped

/-! ## Steps that break it -/

/-- A producer that takes the mutex on a full ring is about to exit inside
the critical section. -/
theorem AdmissionInvariant.not_sound_of_enters_full
    {state next : State}
    {action : Action}
    (misses : ¬EntersWithRoom state action)
    (stepped : unkilledSystem.step state action = some next) :
    ¬AdmissionSound next := by
  cases action with
  | producer index rand =>
      simp only [EntersWithRoom, Classical.not_forall] at misses
      obtain ⟨producer, present, alive, place, full⟩ := misses
      simp only [unkilledSystem, Action.kills, SharedQueue.step,
        SharedQueue.producerStep, present, alive, Producer.advance, place,
        Bool.false_eq_true, if_false, if_true] at stepped
      split at stepped
      · cases stepped
      · rw [Option.some.injEq] at stepped
        subst stepped
        intro sound
        exact full (sound.noFullExit _
          (List.mem_of_getElem? (Pool.getElem?_set_present present _))
          rfl rfl)
  | spawnProducer | spawnConsumer | terminateLastProducer
  | terminateLastConsumer | displayCurrentStatus | status | consumer
  | killProducer | killConsumer => exact absurd trivial misses

/-- A run without kills is sound in every state exactly when no producer of
the run takes the mutex while `BUFFER_CAPACITY - 1` messages are stored. -/
theorem everyState_admissionSound_iff
    (actions : List Action)
    (final : State)
    (executed : unkilledSystem.run systemInit actions = some final) :
    unkilledSystem.EveryState AdmissionSound systemInit actions ↔
      unkilledSystem.EveryStep EntersWithRoom systemInit actions :=
  Machine.everyState_iff_everyStep
    (fun _ admission => AdmissionInvariant.sound admission)
    (fun _ _ _ admission meets stepped => admission.step meets stepped)
    (fun _ _ _ _ misses stepped =>
      AdmissionInvariant.not_sound_of_enters_full misses stepped)
    admissionInvariant_systemInit executed

/-! ## A run that overruns the ring -/

/-- The only producer is at a place of its loop, `count` messages are stored
and `admitted` tokens were taken. -/
structure Alone
    (place : ProducerPc)
    (mutex count admitted : Nat)
    (state : State) : Prop where
  producer : ∃ producer, state.producers = [producer] ∧
    producer.alive = true ∧ producer.pc = place
  mutexValue : state.queueMutex = mutex
  empty : state.emptySlots + admitted = bufferCapacity
  stored : state.queue.currentMsgCount = count
  admittedCount : state.admitted = admitted
  addedLength : state.added.length = count

/-- A statement of the only producer. -/
def onlyProducer : Action := .producer 0 fun _ => 0

/-- With a slot token left the producer gets to the full test. -/
theorem Alone.reaches_checkFull
    {count : Nat}
    {state : State}
    (alone : Alone .generate 1 count count state)
    (room : count < bufferCapacity) :
    ∃ next,
      unkilledSystem.run state (List.replicate 3 onlyProducer) = some next ∧
        Alone (.adding .checkFull) 0 count (count + 1) next := by
  obtain ⟨⟨producer, only, alive, place⟩, mutex, empty, stored, admitted,
    added⟩ := alone
  have token : state.emptySlots ≠ 0 := by omega
  apply Exists.intro
  constructor
  · simp only [List.replicate, Machine.run, unkilledSystem, onlyProducer,
      Action.kills, SharedQueue.step, producerStep, Producer.advance,
      State.setProducer, only, alive, place, mutex, token,
      List.getElem?_cons_zero, List.set_cons_zero, Option.bind_some,
      Bool.false_eq_true, if_true, if_false, Nat.one_ne_zero]
    rfl
  · refine ⟨⟨_, rfl, rfl, rfl⟩, ?_, ?_, stored, ?_, added⟩
    · rfl
    · change state.emptySlots - 1 + (count + 1) = bufferCapacity
      omega
    · simp only [admitted]

/-- Past the full test the producer stores its message and starts again. -/
theorem Alone.completes
    {count admitted : Nat}
    {state : State}
    (alone : Alone (.adding .checkFull) 0 count admitted state)
    (notLast : count ≠ bufferCapacity - 1) :
    ∃ next,
      unkilledSystem.run state (List.replicate 9 onlyProducer) = some next ∧
        Alone .generate 1 (count + 1) admitted next := by
  obtain ⟨⟨producer, only, alive, place⟩, mutex, empty, stored, admitted,
    added⟩ := alone
  have notFull : state.queue.isFull = false := by
    simp [QueueBuffer.isFull, stored, notLast]
  apply Exists.intro
  constructor
  · simp only [List.replicate, Machine.run, unkilledSystem, onlyProducer,
      Action.kills, SharedQueue.step, producerStep, Producer.advance,
      State.setProducer, AddPoint.execute, only, alive, place, notFull,
      List.getElem?_cons_zero, List.set_cons_zero, Option.bind_some,
      Bool.false_eq_true, if_true, if_false]
    rfl
  · refine ⟨⟨_, rfl, rfl, rfl⟩, ?_, empty, ?_, admitted, ?_⟩
    · change state.queueMutex + 1 = 1
      rw [mutex]
    · change state.queue.currentMsgCount + 1 = count + 1
      rw [stored]
    · simp only [List.length_append, List.length_singleton, added]

/-- On a full ring the producer exits inside the critical section. -/
theorem Alone.exits
    {admitted : Nat}
    {state : State}
    (alone : Alone (.adding .checkFull) 0 (bufferCapacity - 1) admitted state) :
    ∃ next, unkilledSystem.step state onlyProducer = some next ∧
      ¬AdmissionSound next := by
  obtain ⟨⟨producer, only, alive, place⟩, mutex, empty, stored, admitted,
    added⟩ := alone
  have full : state.queue.isFull = true := by
    simp [QueueBuffer.isFull, stored]
  apply Exists.intro
  constructor
  · simp only [unkilledSystem, onlyProducer, Action.kills, SharedQueue.step,
      producerStep, Producer.advance, State.setProducer, AddPoint.execute,
      only, alive, place, full, List.getElem?_cons_zero, List.set_cons_zero,
      Bool.false_eq_true, if_true, if_false]
    rfl
  · intro sound
    exact absurd (sound.producersLeave _ (List.mem_singleton_self _) rfl)
      Nat.one_ne_zero

/-- The producer alone fills the ring up to the full test's bound. -/
theorem alone_after
    (count : Nat)
    (bound : count ≤ bufferCapacity - 1) :
    ∃ next,
      unkilledSystem.run systemInit
          (.spawnProducer true :: List.replicate (12 * count) onlyProducer) =
        some next ∧
      Alone .generate 1 count count next := by
  induction count with
  | zero =>
      refine ⟨_, rfl, ⟨_, rfl, rfl, rfl⟩, rfl, rfl, rfl, rfl, rfl⟩
  | succ count inductionHypothesis =>
      obtain ⟨before, ran, alone⟩ := inductionHypothesis (by omega)
      obtain ⟨entered, enters, alone⟩ :=
        alone.reaches_checkFull (by omega)
      obtain ⟨after, completes, alone⟩ := alone.completes (by omega)
      refine ⟨after, ?_, alone⟩
      have split : List.replicate (12 * (count + 1)) onlyProducer =
          List.replicate (12 * count) onlyProducer ++
            (List.replicate 3 onlyProducer ++
              List.replicate 9 onlyProducer) := by
        rw [List.replicate_append_replicate, List.replicate_append_replicate]
        rfl
      rw [split, ← List.cons_append, Machine.run_append, ran,
        Option.bind_some, Machine.run_append, enters, Option.bind_some,
        completes]

/-- One producer and no consumer: `BUFFER_CAPACITY - 1` additions, then the
fourth statement of the next round. -/
def overrunSchedule : List Action :=
  .spawnProducer true ::
    List.replicate (12 * (bufferCapacity - 1) + 4) onlyProducer

/-- The run ends with a producer stopped inside the critical section. -/
theorem overrunSchedule_stops_producer :
    ∃ final, unkilledSystem.run systemInit overrunSchedule = some final ∧
      ¬AdmissionSound final := by
  obtain ⟨filled, ran, alone⟩ := alone_after (bufferCapacity - 1) (by omega)
  obtain ⟨entered, enters, alone⟩ := alone.reaches_checkFull (by decide)
  obtain ⟨final, exits, unsound⟩ := alone.exits
  refine ⟨final, ?_, unsound⟩
  have split : overrunSchedule =
      (.spawnProducer true ::
          List.replicate (12 * (bufferCapacity - 1)) onlyProducer) ++
        (List.replicate 3 onlyProducer ++ [onlyProducer]) := by
    rw [overrunSchedule, List.cons_append, ← List.replicate_succ',
      List.replicate_append_replicate]
  rw [split, Machine.run_append, ran, Option.bind_some, Machine.run_append,
    enters, Option.bind_some, Machine.run_cons, exits]
  rfl

/-- Not every run without kills is sound. -/
theorem not_every_run_admissionSound :
    ¬∀ actions final,
      unkilledSystem.run systemInit actions = some final →
        unkilledSystem.EveryState AdmissionSound systemInit actions := by
  intro every
  obtain ⟨final, ran, unsound⟩ := overrunSchedule_stops_producer
  exact unsound ((every overrunSchedule final ran).last ran)

/-- In the run that overruns the ring a producer enters without room. -/
theorem overrunSchedule_enters_without_room :
    ¬unkilledSystem.EveryStep EntersWithRoom systemInit overrunSchedule := by
  obtain ⟨final, ran, unsound⟩ := overrunSchedule_stops_producer
  intro meets
  have sound := (everyState_admissionSound_iff overrunSchedule final ran).mpr
    meets
  exact unsound (sound.last ran)

end SharedQueue
end OSaSP
