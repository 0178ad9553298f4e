import OSaSP.SharedQueue.Throughput

/-!
# When the children come to a halt

A child stopped between its wait on `QUEUE_MUTEX` and its signal ends all
rounds: the queue stays as it is, and no other child gets further than its own
wait for the mutex.  Where nobody has stopped with the mutex, children on both
sides wait for each other only when stopped ones have taken all slots with
them; without kills only consumers that never had a producer wait forever.
-/

namespace OSaSP
namespace SharedQueue

/-! ## A stopped child that holds the mutex -/

/-- A child that stopped between its wait on `QUEUE_MUTEX` and its signal. -/
def HolderStopped (state : State) : Prop :=
  (∃ producer ∈ state.producers,
    producer.alive = false ∧ producer.pc.inCritical = 1) ∨
  ∃ consumer ∈ state.consumers,
    consumer.alive = false ∧ consumer.pc.inCritical = 1

/-- The mutex is taken and nobody who could signal it is inside. -/
structure Frozen (state : State) : Prop where
  mutex : state.queueMutex = 0
  producers : ∀ producer ∈ state.producers,
    producer.alive = true → producer.pc.inCritical = 0
  consumers : ∀ consumer ∈ state.consumers,
    consumer.alive = true → consumer.pc.inCritical = 0
  parent : state.parent.inCritical = 0

theorem HolderStopped.frozen
    {state : State}
    (stopped : HolderStopped state)
    (conserved : Conserved state) :
    Frozen state := by
  have mutexLaw := conserved.mutex
  rcases stopped with ⟨holder, member, dead, inside⟩ |
    ⟨holder, member, dead, inside⟩
  · obtain ⟨index, present⟩ := List.getElem?_of_mem member
    have held := Pool.weight_le_total
      (fun producer : Producer => producer.pc.inCritical) present
    obtain ⟨others, consumers⟩ := conserved.sole_producer present inside
    refine ⟨by omega, ?_, fun consumer member _ => consumers consumer member,
      by omega⟩
    refine Pool.forall_mem_of_others present ?_ ?_
    · exact fun other producer found different _ =>
        others other producer found different
    · intro alive
      rw [dead] at alive
      cases alive
  · obtain ⟨index, present⟩ := List.getElem?_of_mem member
    have held := Pool.weight_le_total
      (fun consumer : Consumer => consumer.pc.inCritical) present
    obtain ⟨others, producers⟩ := conserved.sole_consumer present inside
    refine ⟨by omega, fun producer member _ => producers producer member, ?_,
      by omega⟩
    refine Pool.forall_mem_of_others present ?_ ?_
    · exact fun other consumer found different _ =>
        others other consumer found different
    · intro alive
      rw [dead] at alive
      cases alive

/-- Statements from a place of a producer outside the critical section to its
wait on `QUEUE_MUTEX`. -/
def ProducerPc.toMutex : ProducerPc → Nat
  | .signalFilledSlots => 4
  | .report => 3
  | .generate => 2
  | .waitEmptySlots => 1
  | .waitMutex | .adding _ | .signalMutex => 0

/-- Statements from a place of a consumer outside the critical section to its
wait on `QUEUE_MUTEX`. -/
def ConsumerPc.toMutex : ConsumerPc → Nat
  | .signalEmptySlots => 4
  | .verify => 3
  | .clear => 2
  | .waitFilledSlots => 1
  | .waitMutex | .getting _ | .signalMutex => 0

/-- With the mutex taken, a producer outside gets one statement closer to its
wait for it. -/
theorem Producer.advance_outside
    {producer : Producer}
    {index : Nat}
    {rand : Nat → Nat}
    {state next : State}
    (taken : state.queueMutex = 0)
    (outside : producer.pc.inCritical = 0)
    (advanced : producer.advance index rand state = some next) :
    SameQueue state next ∧ next.queueMutex = 0 ∧
      ∃ new, next.producers = state.producers.set index new ∧
        next.consumers = state.consumers ∧ next.parent = state.parent ∧
        new.alive = producer.alive ∧ new.pc.inCritical = 0 ∧
        new.pc.toMutex + 1 = producer.pc.toMutex := by
  cases place : producer.pc with
  | generate | signalFilledSlots | report =>
      simp only [Producer.advance, place, Option.some.injEq] at advanced
      subst advanced
      exact ⟨⟨rfl, rfl, rfl⟩, taken, _, rfl, rfl, rfl, rfl, rfl, rfl⟩
  | waitEmptySlots =>
      simp only [Producer.advance, place] at advanced
      split at advanced
      · cases advanced
      · rw [Option.some.injEq] at advanced
        subst advanced
        exact ⟨⟨rfl, rfl, rfl⟩, taken, _, rfl, rfl, rfl, rfl, rfl, rfl⟩
  | waitMutex =>
      simp only [Producer.advance, place, if_pos taken] at advanced
      cases advanced
  | adding point | signalMutex =>
      rw [place] at outside
      cases outside

/-- With the mutex taken, a consumer outside gets one statement closer to its
wait for it. -/
theorem Consumer.advance_outside
    {consumer : Consumer}
    {index : Nat}
    {state next : State}
    (taken : state.queueMutex = 0)
    (outside : consumer.pc.inCritical = 0)
    (advanced : consumer.advance index state = some next) :
    SameQueue state next ∧ next.queueMutex = 0 ∧
      ∃ new, next.consumers = state.consumers.set index new ∧
        next.producers = state.producers ∧ next.parent = state.parent ∧
        new.alive = consumer.alive ∧ new.pc.inCritical = 0 ∧
        new.pc.toMutex + 1 = consumer.pc.toMutex := by
  cases place : consumer.pc with
  | clear | signalEmptySlots | verify =>
      simp only [Consumer.advance, place, Option.some.injEq] at advanced
      subst advanced
      exact ⟨⟨rfl, rfl, rfl⟩, taken, _, rfl, rfl, rfl, rfl, rfl, rfl⟩
  | waitFilledSlots =>
      simp only [Consumer.advance, place] at advanced
      split at advanced
      · cases advanced
      · rw [Option.some.injEq] at advanced
        subst advanced
        exact ⟨⟨rfl, rfl, rfl⟩, taken, _, rfl, rfl, rfl, rfl, rfl, rfl⟩
  | waitMutex =>
      simp only [Consumer.advance, place, if_pos taken] at advanced
      cases advanced
  | getting point | signalMutex =>
      rw [place] at outside
      cases outside

/-- Statements that the live children outside have left. -/
def State.toMutex (state : State) : Nat :=
  state.work ProducerPc.toMutex ConsumerPc.toMutex

/-- No step thaws the system, touches the queue or lets a waiting parent
through, and every statement of a child is one less. -/
theorem Frozen.step
    {state next : State}
    {action : Action}
    (frozen : Frozen state)
    (stepped : SharedQueue.step state action = some next) :
    Frozen next ∧ SameQueue state next ∧
      (state.parent = .statusWait → next.parent = .statusWait) ∧
      next.toMutex + 2 * state.children +
          (if action.isStatement then 1 else 0) ≤
        state.toMutex + 2 * next.children := by
  rcases step_cases stepped with
    ⟨index, rand, producer, rfl, present, alive, advanced⟩ |
    ⟨index, consumer, rfl, present, alive, advanced⟩ | ⟨none, besides⟩
  · have outside :=
      frozen.producers producer (List.mem_of_getElem? present) alive
    obtain ⟨same, taken, new, producers, consumers, parent, newAlive,
      newOutside, closer⟩ :=
        Producer.advance_outside frozen.mutex outside advanced
    obtain ⟨work, -⟩ := State.moveProducer_work ProducerPc.toMutex
      ConsumerPc.toMutex present producers consumers
    refine ⟨⟨taken, ?_, ?_, ?_⟩, same, parent.trans, ?_⟩
    · rw [producers]
      exact Pool.forall_mem_set frozen.producers fun _ => newOutside
    · rw [consumers]
      exact frozen.consumers
    · rw [parent]
      exact frozen.parent
    · rw [Producer.live_of_alive alive,
        Producer.live_of_alive (newAlive.trans alive)] at work
      simp only [State.toMutex, State.children, producers, consumers,
        List.length_set, Action.isStatement, if_true]
      omega
  · have outside :=
      frozen.consumers consumer (List.mem_of_getElem? present) alive
    obtain ⟨same, taken, new, consumers, producers, parent, newAlive,
      newOutside, closer⟩ :=
        Consumer.advance_outside frozen.mutex outside advanced
    obtain ⟨work, -⟩ := State.moveConsumer_work ProducerPc.toMutex
      ConsumerPc.toMutex present consumers producers
    refine ⟨⟨taken, ?_, ?_, ?_⟩, same, parent.trans, ?_⟩
    · rw [producers]
      exact frozen.producers
    · rw [consumers]
      exact Pool.forall_mem_set frozen.consumers fun _ => newOutside
    · rw [parent]
      exact frozen.parent
    · rw [Consumer.live_of_alive alive,
        Consumer.live_of_alive (newAlive.trans alive)] at work
      simp only [State.toMutex, State.children, producers, consumers,
        List.length_set, Action.isStatement, if_true]
      omega
  · have mutexes := besides.mutex
    rw [frozen.mutex, frozen.parent] at mutexes
    refine ⟨⟨by omega, ?_, ?_, by omega⟩, besides.queue,
      besides.parent frozen.mutex, ?_⟩
    · intro producer member alive
      rcases besides.producers producer member alive with old | rfl
      · exact frozen.producers producer old alive
      · rfl
    · intro consumer member alive
      rcases besides.consumers consumer member alive with old | rfl
      · exact frozen.consumers consumer old alive
      · rfl
    · have work := besides.work ProducerPc.toMutex ConsumerPc.toMutex
      simp only [State.forked, ProducerPc.toMutex, ConsumerPc.toMutex] at work
      simp only [none, State.toMutex, State.children, Bool.false_eq_true,
        if_false]
      omega

theorem State.toMutex_le (state : State) :
    state.toMutex ≤ 4 * state.children := by
  have producers := Pool.total_le_mul_length
    (Producer.live ProducerPc.toMutex) 4
    (fun producer => Nat.le_trans (producer.live_le _) (by
      cases producer.pc <;> simp [ProducerPc.toMutex]))
    state.producers
  have consumers := Pool.total_le_mul_length
    (Consumer.live ConsumerPc.toMutex) 4
    (fun consumer => Nat.le_trans (consumer.live_le _) (by
      cases consumer.pc <;> simp [ConsumerPc.toMutex]))
    state.consumers
  unfold State.toMutex State.work State.children
  omega

/-- Once a child has stopped with the mutex, the queue never changes again, and
a parent that is to show the status waits for ever.  All children together
execute at most four more statements for each that was there and two for each
forked later. -/
theorem queue_frozen_of_holderStopped
    {state later : State}
    {actions : List Action}
    (reachable : system.Reachable state)
    (stopped : HolderStopped state)
    (executed : system.run state actions = some later) :
    SameQueue state later ∧ later.queueMutex = 0 ∧
      later.parent ≠ .statusShow ∧
      (state.parent = .statusWait → later.parent = .statusWait) ∧
      actions.countP Action.isStatement ≤
        2 * (state.children + later.children) := by
  have frozen := stopped.frozen (conserved_of_reachable reachable)
  have kept := Machine.run_preserves
    (fun reached => Frozen reached ∧ SameQueue state reached ∧
      (state.parent = .statusWait → reached.parent = .statusWait))
    (fun _ _ _ holds stepped =>
      have moved := holds.1.step stepped
      ⟨moved.1, holds.2.1.trans moved.2.1, fun waits =>
        moved.2.2.1 (holds.2.2 waits)⟩)
    ⟨frozen, ⟨rfl, rfl, rfl⟩, id⟩ executed
  have bounded := Machine.countP_add_rank_le
    Action.isStatement State.toMutex (fun reached => 2 * reached.children)
    (fun _ _ _ holds stepped => (Frozen.step holds stepped).1)
    (fun _ _ _ holds stepped => (Frozen.step holds stepped).2.2.2)
    frozen executed
  have left := state.toMutex_le
  refine ⟨kept.2.1, kept.1.mutex, ?_, kept.2.2, by omega⟩
  intro shows
  have outside := kept.1.parent
  rw [shows] at outside
  cases outside

/-- A producer is killed with the mutex while another one is on its way and
the status has been asked for. -/
def killedHolder : List Action :=
  [.spawnProducer true, .spawnProducer true] ++
    List.replicate 3 onlyProducer ++ [.displayCurrentStatus, .killProducer 0]

/-- The other producer takes its token and waits, too. -/
def secondProducerGoesOn : List Action :=
  List.replicate 2 (.producer 1 fun _ => 0)

theorem killedHolder_queue_frozen :
    ∃ state later, system.run systemInit killedHolder = some state ∧
      system.run state secondProducerGoesOn = some later ∧
      SameQueue state later ∧ later.parent = .statusWait ∧
      secondProducerGoesOn.countP Action.isStatement ≤
        2 * (state.children + later.children) := by
  have ran : ∃ state later, system.run systemInit killedHolder = some state ∧
      system.run state secondProducerGoesOn = some later ∧
      state.parent = .statusWait ∧
      ∃ holder others, state.producers = holder :: others ∧
        holder.alive = false ∧ holder.pc.inCritical = 1 :=
    ⟨_, _, rfl, rfl, rfl, _, _, rfl, rfl, rfl⟩
  obtain ⟨state, later, ran, goesOn, waits, holder, others, producers, dead,
    inside⟩ := ran
  have stopped : HolderStopped state := by
    refine .inl ⟨holder, ?_, dead, inside⟩
    rw [producers]
    exact List.mem_cons_self
  obtain ⟨same, -, -, kept, bounded⟩ := queue_frozen_of_holderStopped
    (Machine.Reachable.run (.initial rfl) ran) stopped goesOn
  exact ⟨state, later, ran, goesOn, same, kept waits, bounded⟩

/-! ## Children that wait for each other -/

/-- No child can execute a statement. -/
def ChildrenBlocked (state : State) : Prop :=
  ∀ action, action.isStatement = true → step state action = none

/-- A producer only ever waits for a slot or for the mutex. -/
theorem Producer.waits_of_advance
    {producer : Producer}
    {index : Nat}
    {rand : Nat → Nat}
    {state : State}
    (waits : producer.advance index rand state = none) :
    producer.pc = .waitEmptySlots ∧ state.emptySlots = 0 ∨
      producer.pc = .waitMutex ∧ state.queueMutex = 0 := by
  cases place : producer.pc with
  | generate | signalMutex | signalFilledSlots | report =>
      simp [Producer.advance, place] at waits
  | waitEmptySlots =>
      simp only [Producer.advance, place] at waits
      split at waits
      · rename_i none
        exact .inl ⟨rfl, none⟩
      · cases waits
  | waitMutex =>
      simp only [Producer.advance, place] at waits
      split at waits
      · rename_i taken
        exact .inr ⟨rfl, taken⟩
      · cases waits
  | adding point =>
      simp only [Producer.advance, place] at waits
      split at waits <;> cases waits

/-- A consumer only ever waits for a message or for the mutex. -/
theorem Consumer.waits_of_advance
    {consumer : Consumer}
    {index : Nat}
    {state : State}
    (waits : consumer.advance index state = none) :
    consumer.pc = .waitFilledSlots ∧ state.filledSlots = 0 ∨
      consumer.pc = .waitMutex ∧ state.queueMutex = 0 := by
  cases place : consumer.pc with
  | clear | signalMutex | signalEmptySlots | verify =>
      simp [Consumer.advance, place] at waits
  | waitFilledSlots =>
      simp only [Consumer.advance, place] at waits
      split at waits
      · rename_i none
        exact .inl ⟨rfl, none⟩
      · cases waits
  | waitMutex =>
      simp only [Consumer.advance, place] at waits
      split at waits
      · rename_i taken
        exact .inr ⟨rfl, taken⟩
      · cases waits
  | getting point =>
      simp only [Consumer.advance, place] at waits
      split at waits <;> cases waits

theorem ChildrenBlocked.producer_waits
    {state : State}
    (blocked : ChildrenBlocked state)
    {producer : Producer}
    (member : producer ∈ state.producers)
    (alive : producer.alive = true) :
    producer.pc = .waitEmptySlots ∧ state.emptySlots = 0 ∨
      producer.pc = .waitMutex ∧ state.queueMutex = 0 := by
  obtain ⟨index, present⟩ := List.getElem?_of_mem member
  have waits := blocked (.producer index fun _ => 0) rfl
  simp only [step, producerStep, present, alive, if_true] at waits
  exact Producer.waits_of_advance waits

theorem ChildrenBlocked.consumer_waits
    {state : State}
    (blocked : ChildrenBlocked state)
    {consumer : Consumer}
    (member : consumer ∈ state.consumers)
    (alive : consumer.alive = true) :
    consumer.pc = .waitFilledSlots ∧ state.filledSlots = 0 ∨
      consumer.pc = .waitMutex ∧ state.queueMutex = 0 := by
  obtain ⟨index, present⟩ := List.getElem?_of_mem member
  have waits := blocked (.consumer index) rfl
  simp only [step, consumerStep, present, alive, if_true] at waits
  exact Consumer.waits_of_advance waits

/-- When the children are blocked although nobody stopped with the mutex, the
mutex is free. -/
theorem ChildrenBlocked.mutex_free
    {state : State}
    (blocked : ChildrenBlocked state)
    (conserved : Conserved state)
    (idle : state.parent ≠ .statusShow)
    (noHolder : ¬HolderStopped state) :
    state.queueMutex = 1 := by
  have mutexLaw := conserved.mutex
  have outside : state.parent.inCritical = 0 := by
    cases place : state.parent with
    | statusShow => exact absurd place idle
    | command | statusWait | exited => rfl
  have producers : Pool.total
      (fun producer : Producer => producer.pc.inCritical)
      state.producers = 0 := by
    rw [Pool.total_eq_zero_iff]
    intro producer member
    cases alive : producer.alive with
    | true =>
        rcases blocked.producer_waits member alive with ⟨place, -⟩ | ⟨place, -⟩
          <;> rw [place] <;> rfl
    | false =>
        obtain ⟨index, present⟩ := List.getElem?_of_mem member
        have bound := Pool.weight_le_total
          (fun producer : Producer => producer.pc.inCritical) present
        by_contra inside
        exact noHolder (.inl ⟨producer, member, alive, by omega⟩)
  have consumers : Pool.total
      (fun consumer : Consumer => consumer.pc.inCritical)
      state.consumers = 0 := by
    rw [Pool.total_eq_zero_iff]
    intro consumer member
    cases alive : consumer.alive with
    | true =>
        rcases blocked.consumer_waits member alive with ⟨place, -⟩ | ⟨place, -⟩
          <;> rw [place] <;> rfl
    | false =>
        obtain ⟨index, present⟩ := List.getElem?_of_mem member
        have bound := Pool.weight_le_total
          (fun consumer : Consumer => consumer.pc.inCritical) present
        by_contra inside
        exact noHolder (.inr ⟨consumer, member, alive, by omega⟩)
  omega

/-- With the mutex free, every live child that is blocked waits at its first
semaphore. -/
theorem ChildrenBlocked.at_slots
    {state : State}
    (blocked : ChildrenBlocked state)
    (free : state.queueMutex = 1) :
    (∀ producer ∈ state.producers, producer.alive = true →
      producer.pc = .waitEmptySlots ∧ state.emptySlots = 0) ∧
    ∀ consumer ∈ state.consumers, consumer.alive = true →
      consumer.pc = .waitFilledSlots ∧ state.filledSlots = 0 := by
  constructor
  · intro producer member alive
    rcases blocked.producer_waits member alive with waits | ⟨-, taken⟩
    · exact waits
    · omega
  · intro consumer member alive
    rcases blocked.consumer_waits member alive with waits | ⟨-, taken⟩
    · exact waits
    · omega

theorem ProducerPc.tokens_le_one (pc : ProducerPc) :
    pc.tokens ≤ 1 := by
  cases pc <;>
    simp [ProducerPc.tokens, ProducerPc.holdsEmpty, ProducerPc.owesFilled]

theorem ConsumerPc.tokens_le_one (pc : ConsumerPc) :
    pc.tokens ≤ 1 := by
  cases pc <;>
    simp [ConsumerPc.tokens, ConsumerPc.holdsFilled, ConsumerPc.owesEmpty]

/-- The number of children that were killed or have exited. -/
def State.stopped (state : State) : Nat :=
  state.producers.countP (fun producer => !producer.alive) +
    state.consumers.countP (fun consumer => !consumer.alive)

/-- Blocked children on both sides have lost every slot to stopped ones. -/
theorem ChildrenBlocked.capacity_le_stopped
    {state : State}
    (blocked : ChildrenBlocked state)
    (conserved : Conserved state)
    (idle : state.parent ≠ .statusShow)
    (noHolder : ¬HolderStopped state)
    (producing : ∃ producer ∈ state.producers, producer.alive = true)
    (consuming : ∃ consumer ∈ state.consumers, consumer.alive = true) :
    bufferCapacity ≤ state.stopped := by
  have free := blocked.mutex_free conserved idle noHolder
  obtain ⟨producersWait, consumersWait⟩ := blocked.at_slots free
  obtain ⟨producer, member, alive⟩ := producing
  have noSlot := (producersWait producer member alive).2
  obtain ⟨consumer, member, alive⟩ := consuming
  have noMessage := (consumersWait consumer member alive).2
  have tokensLaw := conserved.tokens
  have producers : Pool.total (fun producer => producer.pc.tokens)
        state.producers ≤
      state.producers.countP (fun producer => !producer.alive) := by
    rw [← Pool.total_eq_countP]
    apply Pool.total_le_total
    intro producer member
    cases alive : producer.alive with
    | true =>
        rw [(producersWait producer member alive).1]
        exact Nat.zero_le _
    | false => exact producer.pc.tokens_le_one
  have consumers : Pool.total (fun consumer => consumer.pc.tokens)
        state.consumers ≤
      state.consumers.countP (fun consumer => !consumer.alive) := by
    rw [← Pool.total_eq_countP]
    apply Pool.total_le_total
    intro consumer member
    cases alive : consumer.alive with
    | true =>
        rw [(consumersWait consumer member alive).1]
        exact Nat.zero_le _
    | false => exact consumer.pc.tokens_le_one
  unfold State.stopped
  omega

/-- As long as fewer children have stopped than the buffer has slots and none
of them with the mutex, a live producer and a live consumer never wait for
each other: some child can go on. -/
theorem exists_statement_of_stopped_lt
    {state : State}
    (reachable : system.Reachable state)
    (idle : state.parent ≠ .statusShow)
    (noHolder : ¬HolderStopped state)
    (producing : ∃ producer ∈ state.producers, producer.alive = true)
    (consuming : ∃ consumer ∈ state.consumers, consumer.alive = true)
    (few : state.stopped < bufferCapacity) :
    ∃ action next, action.isStatement = true ∧
      system.step state action = some next := by
  by_contra none
  have blocked : ChildrenBlocked state := by
    intro action statement
    cases stepped : step state action with
    | none => rfl
    | some next => exact absurd ⟨action, next, statement, stepped⟩ none
  have all := blocked.capacity_le_stopped (conserved_of_reachable reachable)
    idle noHolder producing consuming
  omega

/-- A child of each kind, just forked. -/
theorem forkedPair_exists_statement :
    ∃ state, system.run systemInit [.spawnProducer true, .spawnConsumer true] =
      some state ∧ ∃ action next, action.isStatement = true ∧
        system.step state action = some next := by
  have ran : ∃ state, system.run systemInit
      [.spawnProducer true, .spawnConsumer true] = some state ∧
        state.producers = [.spawned] ∧ state.consumers = [.spawned] ∧
        state.parent = .command :=
    ⟨_, rfl, rfl, rfl, rfl⟩
  obtain ⟨state, ran, producers, consumers, parent⟩ := ran
  refine ⟨state, ran, exists_statement_of_stopped_lt
    (Machine.Reachable.run (.initial rfl) ran) ?_ ?_ ?_ ?_ ?_⟩
  · rw [parent]
    decide
  · rintro (⟨producer, member, dead, -⟩ | ⟨consumer, member, dead, -⟩)
    · rw [producers, List.mem_singleton] at member
      rw [member] at dead
      cases dead
    · rw [consumers, List.mem_singleton] at member
      rw [member] at dead
      cases dead
  · rw [producers]
    exact ⟨_, List.mem_singleton_self _, rfl⟩
  · rw [consumers]
    exact ⟨_, List.mem_singleton_self _, rfl⟩
  · unfold State.stopped
    rw [producers, consumers]
    decide

/-- Without kills, and when every producer enters with room, the children are
blocked only while there is no producer: all consumers wait for a message. -/
theorem childrenBlocked_iff
    {state : State}
    (reachable : unkilledSystem.ReachableUnder EntersWithRoom state)
    (idle : state.parent ≠ .statusShow) :
    ChildrenBlocked state ↔ state.producers = [] ∧
      ∀ consumer ∈ state.consumers,
        consumer.pc = .waitFilledSlots ∧ state.filledSlots = 0 := by
  have admission : AdmissionInvariant state := by
    apply reachable.invariant
    · rintro _ rfl
      exact admissionInvariant_systemInit
    · intro before action after admission meets stepped
      exact admission.step meets stepped
  obtain ⟨conserved, base, shape⟩ := admission.invariant
  have noHolder : ¬HolderStopped state := by
    rintro (⟨producer, member, dead, -⟩ | ⟨consumer, member, dead, -⟩)
    · rw [admission.producersAlive producer member] at dead
      cases dead
    · rw [admission.consumersAlive consumer member] at dead
      cases dead
  constructor
  · intro blocked
    obtain ⟨producersWait, consumersWait⟩ :=
      blocked.at_slots (blocked.mutex_free conserved idle noHolder)
    have producersAt := fun producer member =>
      producersWait producer member (admission.producersAlive producer member)
    have consumersAt := fun consumer member =>
      consumersWait consumer member (admission.consumersAlive consumer member)
    refine ⟨?_, consumersAt⟩
    by_contra some
    obtain ⟨producer, member⟩ := List.exists_mem_of_ne_nil _ some
    have noSlot := (producersAt producer member).2
    have holds : Pool.total (fun producer => producer.pc.holdsEmpty)
        state.producers = 0 := by
      rw [Pool.total_eq_zero_iff]
      intro producer member
      rw [(producersAt producer member).1]
      rfl
    have owes : Pool.total (fun consumer => consumer.pc.owesEmpty)
        state.consumers = 0 := by
      rw [Pool.total_eq_zero_iff]
      intro consumer member
      rw [(consumersAt consumer member).1]
      rfl
    -- All slots would be stored messages, one more than the ring takes.
    have emptyLaw := conserved.empty
    have stored := shape.added_length
    have bound := shape.wellFormed.countBound
    have positive : 0 < bufferCapacity := by decide
    omega
  · rintro ⟨empty, waits⟩ action statement
    cases action with
    | producer index rand => simp [step, producerStep, empty]
    | consumer index =>
        cases present : state.consumers[index]? with
        | none => simp [step, consumerStep, present]
        | some consumer =>
            obtain ⟨place, noMessage⟩ :=
              waits consumer (List.mem_of_getElem? present)
            simp [step, consumerStep, present, Consumer.advance, place,
              noMessage]
    | spawnProducer | spawnConsumer | terminateLastProducer
    | terminateLastConsumer | displayCurrentStatus | status | killProducer
    | killConsumer => cases statement

/-- A consumer forked before any producer. -/
theorem loneConsumer_childrenBlocked :
    ∃ state, unkilledSystem.run systemInit
      [.spawnConsumer true, .consumer 0] = some state ∧
        ChildrenBlocked state := by
  have ran : ∃ state consumer, unkilledSystem.run systemInit
      [.spawnConsumer true, .consumer 0] = some state ∧
        state.parent = .command ∧ state.producers = [] ∧
        state.consumers = [consumer] ∧ consumer.pc = .waitFilledSlots ∧
        state.filledSlots = 0 :=
    ⟨_, _, rfl, rfl, rfl, rfl, rfl, rfl⟩
  obtain ⟨state, consumer, ran, parent, producers, only, place, empty⟩ := ran
  have reachable : unkilledSystem.ReachableUnder EntersWithRoom state :=
    Machine.ReachableUnder.run (.initial rfl)
      (by simp [EntersWithRoom]) ran
  refine ⟨state, ran, (childrenBlocked_iff reachable ?_).mpr
    ⟨producers, ?_⟩⟩
  · rw [parent]
    decide
  · rw [only]
    simp [place, empty]

end SharedQueue
end OSaSP
