import OSaSP.SharedQueue.Admission

/-!
# What is lost when a child is stopped

The semaphores are used without `SEM_UNDO`, so a child that `SIGKILL` stops
keeps the mutex it holds and the slot token it carries.  The accounts of the
live processes alone balance exactly as long as every child was stopped where
it carries no token: before its wait on the first slot semaphore or after its
signal on the second.
-/

namespace OSaSP
namespace SharedQueue

/-- Slot tokens held or owed at a place. -/
def ProducerPc.tokens (pc : ProducerPc) : Nat :=
  pc.holdsEmpty + pc.owesFilled

/-- Slot tokens held or owed at a place. -/
def ConsumerPc.tokens (pc : ConsumerPc) : Nat :=
  pc.holdsFilled + pc.owesEmpty

/-- The accounts of the live processes balance. -/
structure LiveBalance (state : State) : Prop where
  mutex : state.queueMutex +
      Pool.total (Producer.live ProducerPc.inCritical) state.producers +
      Pool.total (Consumer.live ConsumerPc.inCritical) state.consumers +
      state.parent.inCritical = 1
  slots : state.emptySlots + state.filledSlots +
      Pool.total (Producer.live ProducerPc.tokens) state.producers +
      Pool.total (Consumer.live ConsumerPc.tokens) state.consumers =
    bufferCapacity

/-- A producer, if it is live, carries no token. -/
def ProducerCarriesNothing (state : State) (index : Nat) : Prop :=
  ∀ producer, state.producers[index]? = some producer →
    producer.alive = true → producer.pc.tokens = 0

/-- A consumer, if it is live, carries no token. -/
def ConsumerCarriesNothing (state : State) (index : Nat) : Prop :=
  ∀ consumer, state.consumers[index]? = some consumer →
    consumer.alive = true → consumer.pc.tokens = 0

/-- A step stops no child that carries a token: neither by a signal nor by the
exit of the full test. -/
def StopsNoCarrier (state : State) : Action → Prop
  | .terminateLastProducer =>
      ∀ last ∈ state.producerPids.head?, ProducerCarriesNothing state last
  | .terminateLastConsumer =>
      ∀ last ∈ state.consumerPids.head?, ConsumerCarriesNothing state last
  | .killProducer index => ProducerCarriesNothing state index
  | .killConsumer index => ConsumerCarriesNothing state index
  | .producer index _ =>
      ∀ producer, state.producers[index]? = some producer →
        producer.alive = true → producer.pc = .adding .checkFull →
          state.queue.isFull = false
  | _ => True

/-- Every stopped child carries nothing. -/
structure StoppedCarryNothing (state : State) : Prop where
  producers : ∀ producer ∈ state.producers,
    producer.alive = false → producer.pc.tokens = 0
  consumers : ∀ consumer ∈ state.consumers,
    consumer.alive = false → consumer.pc.tokens = 0

/-! ## The balance says that the stopped children carry nothing -/

/-- The mutex is only held by a child that carries a token. -/
theorem ProducerPc.inCritical_le_tokens (pc : ProducerPc) :
    pc.inCritical ≤ pc.tokens := by
  cases pc <;>
    simp [ProducerPc.inCritical, ProducerPc.tokens, ProducerPc.holdsEmpty,
      ProducerPc.owesFilled]

theorem ConsumerPc.inCritical_le_tokens (pc : ConsumerPc) :
    pc.inCritical ≤ pc.tokens := by
  cases pc <;>
    simp [ConsumerPc.inCritical, ConsumerPc.tokens, ConsumerPc.holdsFilled,
      ConsumerPc.owesEmpty]

theorem Producer.live_le
    (weight : ProducerPc → Nat)
    (producer : Producer) :
    producer.live weight ≤ weight producer.pc := by
  unfold Producer.live
  split <;> omega

theorem Consumer.live_le
    (weight : ConsumerPc → Nat)
    (consumer : Consumer) :
    consumer.live weight ≤ weight consumer.pc := by
  unfold Consumer.live
  split <;> omega

/-- A live weight is the whole weight of the places when the stopped producers
weigh nothing. -/
theorem Producer.total_live
    {weight : ProducerPc → Nat}
    {producers : List Producer}
    (stopped : ∀ producer ∈ producers,
      producer.alive = false → weight producer.pc = 0) :
    Pool.total (Producer.live weight) producers =
      Pool.total (fun producer => weight producer.pc) producers := by
  apply Pool.total_congr
  intro producer member
  cases alive : producer.alive with
  | true => rw [Producer.live, if_pos alive]
  | false => rw [Producer.live, alive, stopped producer member alive]; rfl

theorem Consumer.total_live
    {weight : ConsumerPc → Nat}
    {consumers : List Consumer}
    (stopped : ∀ consumer ∈ consumers,
      consumer.alive = false → weight consumer.pc = 0) :
    Pool.total (Consumer.live weight) consumers =
      Pool.total (fun consumer => weight consumer.pc) consumers := by
  apply Pool.total_congr
  intro consumer member
  cases alive : consumer.alive with
  | true => rw [Consumer.live, if_pos alive]
  | false => rw [Consumer.live, alive, stopped consumer member alive]; rfl

/-- All children together, alive or stopped, account for every slot. -/
theorem Conserved.tokens
    {state : State}
    (conserved : Conserved state) :
    state.emptySlots + state.filledSlots +
        Pool.total (fun producer => producer.pc.tokens) state.producers +
        Pool.total (fun consumer => consumer.pc.tokens) state.consumers =
      bufferCapacity := by
  have producers : Pool.total (fun producer => producer.pc.tokens)
        state.producers =
      Pool.total (fun producer => producer.pc.holdsEmpty) state.producers +
        Pool.total (fun producer => producer.pc.owesFilled)
          state.producers := Pool.total_add _ _ _
  have consumers : Pool.total (fun consumer => consumer.pc.tokens)
        state.consumers =
      Pool.total (fun consumer => consumer.pc.holdsFilled) state.consumers +
        Pool.total (fun consumer => consumer.pc.owesEmpty)
          state.consumers := Pool.total_add _ _ _
  have emptyLaw := conserved.empty
  have filledLaw := conserved.filled
  omega

/-- The accounts of the live processes balance exactly when the stopped ones
carry nothing. -/
theorem Conserved.liveBalance_iff
    {state : State}
    (conserved : Conserved state) :
    LiveBalance state ↔ StoppedCarryNothing state := by
  have tokensLaw := conserved.tokens
  constructor
  · intro balance
    have slots := balance.slots
    have producers : Pool.total (Producer.live ProducerPc.tokens)
          state.producers ≤
        Pool.total (fun producer => producer.pc.tokens) state.producers :=
      Pool.total_le_total fun producer _ => producer.live_le _
    have consumers : Pool.total (Consumer.live ConsumerPc.tokens)
          state.consumers ≤
        Pool.total (fun consumer => consumer.pc.tokens) state.consumers :=
      Pool.total_le_total fun consumer _ => consumer.live_le _
    constructor
    · intro producer member stopped
      have same := Pool.eq_of_total_eq
        (fun producer _ => producer.live_le ProducerPc.tokens)
        (by omega) producer member
      rw [← same, Producer.live, stopped]
      rfl
    · intro consumer member stopped
      have same := Pool.eq_of_total_eq
        (fun consumer _ => consumer.live_le ConsumerPc.tokens)
        (by omega) consumer member
      rw [← same, Consumer.live, stopped]
      rfl
  · intro nothing
    constructor
    · have mutexLaw := conserved.mutex
      rw [Producer.total_live, Consumer.total_live]
      · exact mutexLaw
      · intro consumer member stopped
        have bound := consumer.pc.inCritical_le_tokens
        have carried := nothing.consumers consumer member stopped
        omega
      · intro producer member stopped
        have bound := producer.pc.inCritical_le_tokens
        have carried := nothing.producers producer member stopped
        omega
    · rw [Producer.total_live nothing.producers,
        Consumer.total_live nothing.consumers]
      exact tokensLaw

/-! ## Steps that keep the balance -/

theorem StoppedCarryNothing.killProducer
    {state : State}
    {index : Nat}
    (nothing : StoppedCarryNothing state)
    (meets : ProducerCarriesNothing state index) :
    StoppedCarryNothing (killProducer index state) := by
  unfold SharedQueue.killProducer
  split
  · exact nothing
  · rename_i producer present
    refine ⟨Pool.forall_mem_set nothing.producers fun _ => ?_,
      nothing.consumers⟩
    cases alive : producer.alive with
    | true => exact meets producer present alive
    | false =>
        exact nothing.producers producer (List.mem_of_getElem? present) alive

theorem StoppedCarryNothing.killConsumer
    {state : State}
    {index : Nat}
    (nothing : StoppedCarryNothing state)
    (meets : ConsumerCarriesNothing state index) :
    StoppedCarryNothing (killConsumer index state) := by
  unfold SharedQueue.killConsumer
  split
  · exact nothing
  · rename_i consumer present
    refine ⟨nothing.producers,
      Pool.forall_mem_set nothing.consumers fun _ => ?_⟩
    cases alive : consumer.alive with
    | true => exact meets consumer present alive
    | false =>
        exact nothing.consumers consumer (List.mem_of_getElem? present) alive

/-- A statement of a producer that does not meet a full ring stops nobody. -/
theorem StoppedCarryNothing.producerStep
    {state next : State}
    {index : Nat}
    {rand : Nat → Nat}
    (nothing : StoppedCarryNothing state)
    (meets : StopsNoCarrier state (.producer index rand))
    (stepped : SharedQueue.producerStep index rand state = some next) :
    StoppedCarryNothing next := by
  obtain ⟨producer, present, alive, advanced⟩ := producerStep_eq_some stepped
  obtain ⟨new, moved⟩ := Producer.advance_moved alive advanced
  constructor
  · rw [moved.producers]
    refine Pool.forall_mem_set nothing.producers fun stopped => ?_
    rcases moved.alive with stays | ⟨place, full, -, -⟩
    · rw [stays] at stopped
      cases stopped
    · rw [meets producer present alive place] at full
      cases full
  · rw [moved.consumers]
    exact nothing.consumers

/-- A statement of a consumer stops nobody. -/
theorem StoppedCarryNothing.consumerStep
    {state next : State}
    {index : Nat}
    (nothing : StoppedCarryNothing state)
    (invariant : Invariant state)
    (stepped : SharedQueue.consumerStep index state = some next) :
    StoppedCarryNothing next := by
  obtain ⟨consumer, present, alive, advanced⟩ := consumerStep_eq_some stepped
  obtain ⟨new, moved⟩ := Consumer.advance_moved alive advanced
  constructor
  · rw [moved.producers]
    exact nothing.producers
  · rw [moved.consumers]
    refine Pool.forall_mem_set nothing.consumers fun stopped => ?_
    rcases moved.alive with stays | ⟨place, empty⟩
    · rw [stays] at stopped
      cases stopped
    · have stored := invariant.notEmpty_at_checkEmpty present place
      exact absurd (by simpa [QueueBuffer.isEmpty] using empty) stored

/-- A new child is alive. -/
theorem StoppedCarryNothing.spawnProducerProcess
    {state : State}
    (nothing : StoppedCarryNothing state)
    (forked : Bool) :
    StoppedCarryNothing (spawnProducerProcess forked state) := by
  unfold SharedQueue.spawnProducerProcess
  split
  · exact nothing
  · split
    · refine ⟨?_, nothing.consumers⟩
      simpa [or_imp, forall_and, Producer.spawned] using nothing.producers
    · exact ⟨nothing.producers, nothing.consumers⟩

theorem StoppedCarryNothing.spawnConsumerProcess
    {state : State}
    (nothing : StoppedCarryNothing state)
    (forked : Bool) :
    StoppedCarryNothing (spawnConsumerProcess forked state) := by
  unfold SharedQueue.spawnConsumerProcess
  split
  · exact nothing
  · split
    · refine ⟨nothing.producers, ?_⟩
      simpa [or_imp, forall_and, Consumer.spawned] using nothing.consumers
    · exact ⟨nothing.producers, nothing.consumers⟩

/-- A step that stops no carrier leaves only stopped children that carry
nothing. -/
theorem StoppedCarryNothing.step
    {state next : State}
    {action : Action}
    (nothing : StoppedCarryNothing state)
    (invariant : Invariant state)
    (meets : StopsNoCarrier state action)
    (stepped : SharedQueue.step state action = some next) :
    StoppedCarryNothing next := by
  cases action with
  | spawnProducer forked =>
      obtain ⟨-, rfl⟩ := atCommand_eq_some stepped
      exact nothing.spawnProducerProcess forked
  | spawnConsumer forked =>
      obtain ⟨-, rfl⟩ := atCommand_eq_some stepped
      exact nothing.spawnConsumerProcess forked
  | terminateLastProducer =>
      obtain ⟨-, rfl⟩ := atCommand_eq_some stepped
      unfold SharedQueue.terminateLastProducer
      split
      · exact nothing
      · rename_i last others pids
        exact StoppedCarryNothing.killProducer
          ⟨nothing.producers, nothing.consumers⟩
          (meets last (by rw [pids]; rfl))
  | terminateLastConsumer =>
      obtain ⟨-, rfl⟩ := atCommand_eq_some stepped
      unfold SharedQueue.terminateLastConsumer
      split
      · exact nothing
      · rename_i last others pids
        exact StoppedCarryNothing.killConsumer
          ⟨nothing.producers, nothing.consumers⟩
          (meets last (by rw [pids]; rfl))
  | displayCurrentStatus =>
      obtain ⟨-, rfl⟩ := atCommand_eq_some stepped
      exact ⟨nothing.producers, nothing.consumers⟩
  | status =>
      obtain ⟨producers, consumers, -⟩ := statusStep_eq_some stepped
      exact ⟨producers ▸ nothing.producers, consumers ▸ nothing.consumers⟩
  | producer index rand => exact nothing.producerStep meets stepped
  | consumer index => exact nothing.consumerStep invariant stepped
  | killProducer index =>
      cases stepped
      exact nothing.killProducer meets
  | killConsumer index =>
      cases stepped
      exact nothing.killConsumer meets

/-! ## Steps that break it -/

/-- Stopping a live producer that carries a token leaves a stopped carrier. -/
theorem not_stoppedCarryNothing_of_killProducer
    {state : State}
    {index : Nat}
    (misses : ¬ProducerCarriesNothing state index) :
    ¬StoppedCarryNothing (killProducer index state) := by
  simp only [ProducerCarriesNothing, Classical.not_forall] at misses
  obtain ⟨producer, present, alive, carries⟩ := misses
  intro nothing
  rw [killProducer, present] at nothing
  exact carries (nothing.producers { producer with alive := false }
    (List.mem_of_getElem? (Pool.getElem?_set_present present _)) rfl)

theorem not_stoppedCarryNothing_of_killConsumer
    {state : State}
    {index : Nat}
    (misses : ¬ConsumerCarriesNothing state index) :
    ¬StoppedCarryNothing (killConsumer index state) := by
  simp only [ConsumerCarriesNothing, Classical.not_forall] at misses
  obtain ⟨consumer, present, alive, carries⟩ := misses
  intro nothing
  rw [killConsumer, present] at nothing
  exact carries (nothing.consumers { consumer with alive := false }
    (List.mem_of_getElem? (Pool.getElem?_set_present present _)) rfl)

/-- The exit of the full test leaves a stopped carrier. -/
theorem not_stoppedCarryNothing_of_exit
    {state next : State}
    {index : Nat}
    {rand : Nat → Nat}
    (misses : ¬StopsNoCarrier state (.producer index rand))
    (stepped : SharedQueue.producerStep index rand state = some next) :
    ¬StoppedCarryNothing next := by
  simp only [StopsNoCarrier, Classical.not_forall, Bool.not_eq_false]
    at misses
  obtain ⟨producer, present, alive, place, full⟩ := misses
  simp only [SharedQueue.producerStep, present, alive, if_true,
    Producer.advance, place, AddPoint.execute, full, Option.some.injEq]
    at stepped
  subst stepped
  intro nothing
  have carried := nothing.producers _
    (List.mem_of_getElem? (Pool.getElem?_set_present present _)) rfl
  simp [ProducerPc.tokens, ProducerPc.holdsEmpty] at carried

/-- A step that stops a carrier leaves a stopped carrier. -/
theorem not_stoppedCarryNothing_of_step
    {state next : State}
    {action : Action}
    (misses : ¬StopsNoCarrier state action)
    (stepped : SharedQueue.step state action = some next) :
    ¬StoppedCarryNothing next := by
  cases action with
  | terminateLastProducer =>
      obtain ⟨-, rfl⟩ := atCommand_eq_some stepped
      unfold terminateLastProducer
      split
      · rename_i none
        simp [StopsNoCarrier, none] at misses
      · rename_i last others pids
        have carries : ¬ProducerCarriesNothing state last := by
          simpa [StopsNoCarrier, pids] using misses
        exact not_stoppedCarryNothing_of_killProducer carries
  | terminateLastConsumer =>
      obtain ⟨-, rfl⟩ := atCommand_eq_some stepped
      unfold terminateLastConsumer
      split
      · rename_i none
        simp [StopsNoCarrier, none] at misses
      · rename_i last others pids
        have carries : ¬ConsumerCarriesNothing state last := by
          simpa [StopsNoCarrier, pids] using misses
        exact not_stoppedCarryNothing_of_killConsumer carries
  | killProducer index =>
      cases stepped
      exact not_stoppedCarryNothing_of_killProducer misses
  | killConsumer index =>
      cases stepped
      exact not_stoppedCarryNothing_of_killConsumer misses
  | producer index rand => exact not_stoppedCarryNothing_of_exit misses stepped
  | spawnProducer | spawnConsumer | displayCurrentStatus | status
  | consumer => exact absurd trivial misses

/-- The invariant of the runs that stop no carrier. -/
def LiveInvariant (state : State) : Prop :=
  Invariant state ∧ StoppedCarryNothing state

theorem liveInvariant_systemInit : LiveInvariant systemInit :=
  ⟨invariant_systemInit, by simp [systemInit], by simp [systemInit]⟩

/-- The accounts of the live processes balance in every state of a run exactly
when no step of the run stops a child that carries a slot token. -/
theorem everyState_liveBalance_iff
    (actions : List Action)
    (final : State)
    (executed : system.run systemInit actions = some final) :
    system.EveryState LiveBalance systemInit actions ↔
      system.EveryStep StopsNoCarrier systemInit actions := by
  refine Machine.everyState_iff_everyStep ?_ ?_ ?_
    liveInvariant_systemInit executed
  · rintro state ⟨invariant, nothing⟩
    exact invariant.1.liveBalance_iff.mpr nothing
  · rintro state action next ⟨invariant, nothing⟩ meets stepped
    exact ⟨invariant.step stepped, nothing.step invariant meets stepped⟩
  · rintro state action next ⟨invariant, -⟩ misses stepped balance
    exact not_stoppedCarryNothing_of_step misses stepped
      ((invariant.step stepped).1.liveBalance_iff.mp balance)

/-- A producer is stopped by the parent right after it took the mutex. -/
def stoppedHolderSchedule : List Action :=
  .spawnProducer true :: List.replicate 3 onlyProducer ++
    [.terminateLastProducer]

/-- The mutex is then gone: nobody alive holds it and its value is zero. -/
theorem stoppedHolderSchedule_not_liveBalance :
    ∃ final, system.run systemInit stoppedHolderSchedule = some final ∧
      ¬LiveBalance final := by
  have ran : ∃ final,
      system.run systemInit stoppedHolderSchedule = some final ∧
        final.queueMutex +
          Pool.total (Producer.live ProducerPc.inCritical) final.producers +
          Pool.total (Consumer.live ConsumerPc.inCritical) final.consumers +
          final.parent.inCritical = 0 :=
    ⟨_, rfl, rfl⟩
  obtain ⟨final, ran, gone⟩ := ran
  refine ⟨final, ran, fun balance => ?_⟩
  have mutexLaw := balance.mutex
  omega

/-- A producer that is stopped before it takes a token costs nothing. -/
theorem everyState_liveBalance_of_early_stop :
    system.EveryState LiveBalance systemInit
      [.spawnProducer true, onlyProducer, .terminateLastProducer] := by
  refine (everyState_liveBalance_iff _ _ rfl).mpr ?_
  refine ⟨trivial, fun spawned forks => ?_⟩
  cases forks
  refine ⟨fun producer present _ place => ?_, fun generated fills => ?_⟩
  · cases present
    cases place
  cases fills
  refine ⟨fun last member producer present _ => ?_, fun _ _ => trivial⟩
  cases member
  cases present
  rfl

end SharedQueue
end OSaSP
