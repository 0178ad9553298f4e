import OSaSP.SharedQueue.Conservation

/-!
# First in, first out under arbitrary kills

Only the child that holds `QUEUE_MUTEX` has a partly executed queue operation
behind it.  The invariant names the queue from before that operation: it is
well formed, it holds exactly the messages added and not yet extracted, and
the queue in shared memory is what the operation's statements so far have made
of it.  A child killed in the middle keeps the mutex, so its half-executed
operation is never seen by anyone else.
-/

namespace OSaSP
namespace SharedQueue

/-! ## The queue behind the operation in progress -/

/-- The shared queue is `base` with the statements executed so far by the
process inside a queue operation. -/
structure Shape (state : State) (base : QueueBuffer) : Prop where
  wellFormed : base.WellFormed
  history : state.added = state.extracted ++ base.contents
  adding : ∀ (index : Nat) (producer : Producer) (point : AddPoint),
    state.producers[index]? = some producer →
    producer.pc = .adding point →
      state.queue = point.reached base producer.currentMessagePayload ∧
        (point ≠ .checkFull → base.isFull = false)
  getting : ∀ (index : Nat) (consumer : Consumer) (point : GetPoint),
    state.consumers[index]? = some consumer →
    consumer.pc = .getting point →
      state.queue = point.reached base ∧
        (point ≠ .checkEmpty → base.isEmpty = false) ∧
        (point.loaded = true → consumer.retrievedMessagePayload =
          base.messageBuffer (QueueBuffer.wrapIndex base.bufferTailIdx))
  idle :
    (∀ producer ∈ state.producers, ∀ point, producer.pc ≠ .adding point) →
    (∀ consumer ∈ state.consumers, ∀ point, consumer.pc ≠ .getting point) →
      state.queue = base
  slotsBound : ∀ slot ∈ state.slots, slot < bufferCapacity

theorem shape_systemInit : Shape systemInit initializeQueue where
  wellFormed := initializeQueue_wellFormed
  history := rfl
  adding := by simp [systemInit]
  getting := by simp [systemInit]
  idle := fun _ _ => rfl
  slotsBound := by simp [systemInit]

/-- A producer that stays at its place inside or outside an addition leaves
the shape alone. -/
theorem Shape.moveProducer
    {state next : State}
    {base : QueueBuffer}
    {index : Nat}
    {old new : Producer}
    (shape : Shape state base)
    (present : state.producers[index]? = some old)
    (producers : next.producers = state.producers.set index new)
    (consumers : next.consumers = state.consumers)
    (queue : next.queue = state.queue)
    (added : next.added = state.added)
    (extracted : next.extracted = state.extracted)
    (slots : next.slots = state.slots)
    (samePlace : ∀ point, new.pc = .adding point ↔ old.pc = .adding point)
    (sameMessage : ∀ point, new.pc = .adding point →
      new.currentMessagePayload = old.currentMessagePayload) :
    Shape next base where
  wellFormed := shape.wellFormed
  history := by rw [added, extracted, shape.history]
  adding := by
    intro other producer point found place
    rw [producers] at found
    rw [queue]
    rcases Pool.getElem?_set_cases found with ⟨rfl, rfl⟩ | ⟨-, found⟩
    · rw [sameMessage point place]
      exact shape.adding other old point present
        ((samePlace point).mp place)
    · exact shape.adding other producer point found place
  getting := by
    rw [consumers, queue]
    exact shape.getting
  idle := by
    intro noneAdding noneGetting
    rw [queue]
    rw [consumers] at noneGetting
    refine shape.idle ?_ noneGetting
    intro producer member point place
    obtain ⟨other, found⟩ := List.getElem?_of_mem member
    rw [producers] at noneAdding
    by_cases same : other = index
    · subst same
      rw [present, Option.some.injEq] at found
      subst found
      exact noneAdding new
        (List.mem_of_getElem? (Pool.getElem?_set_present present new))
        point ((samePlace point).mpr place)
    · refine noneAdding producer ?_ point place
      apply List.mem_of_getElem? (i := other)
      rw [List.getElem?_set_ne (Ne.symm same)]
      exact found
  slotsBound := by
    rw [slots]
    exact shape.slotsBound

/-- A consumer that stays at its place inside or outside an extraction leaves
the shape alone. -/
theorem Shape.moveConsumer
    {state next : State}
    {base : QueueBuffer}
    {index : Nat}
    {old new : Consumer}
    (shape : Shape state base)
    (present : state.consumers[index]? = some old)
    (consumers : next.consumers = state.consumers.set index new)
    (producers : next.producers = state.producers)
    (queue : next.queue = state.queue)
    (added : next.added = state.added)
    (extracted : next.extracted = state.extracted)
    (slots : next.slots = state.slots)
    (samePlace : ∀ point, new.pc = .getting point ↔ old.pc = .getting point)
    (sameMessage : ∀ point, new.pc = .getting point →
      new.retrievedMessagePayload = old.retrievedMessagePayload) :
    Shape next base where
  wellFormed := shape.wellFormed
  history := by rw [added, extracted, shape.history]
  adding := by
    rw [producers, queue]
    exact shape.adding
  getting := by
    intro other consumer point found place
    rw [consumers] at found
    rw [queue]
    rcases Pool.getElem?_set_cases found with ⟨rfl, rfl⟩ | ⟨-, found⟩
    · rw [sameMessage point place]
      exact shape.getting other old point present
        ((samePlace point).mp place)
    · exact shape.getting other consumer point found place
  idle := by
    intro noneAdding noneGetting
    rw [queue]
    rw [producers] at noneAdding
    refine shape.idle noneAdding ?_
    intro consumer member point place
    obtain ⟨other, found⟩ := List.getElem?_of_mem member
    rw [consumers] at noneGetting
    by_cases same : other = index
    · subst same
      rw [present, Option.some.injEq] at found
      subst found
      exact noneGetting new
        (List.mem_of_getElem? (Pool.getElem?_set_present present new))
        point ((samePlace point).mpr place)
    · refine noneGetting consumer ?_ point place
      apply List.mem_of_getElem? (i := other)
      rw [List.getElem?_set_ne (Ne.symm same)]
      exact found
  slotsBound := by
    rw [slots]
    exact shape.slotsBound

/-! ## Mutual exclusion -/

/-- With the mutex free nobody is inside the critical section. -/
theorem Conserved.nobody_of_mutex_pos
    {state : State}
    (conserved : Conserved state)
    (free : 0 < state.queueMutex) :
    (∀ producer ∈ state.producers, producer.pc.inCritical = 0) ∧
      ∀ consumer ∈ state.consumers, consumer.pc.inCritical = 0 := by
  have mutexLaw := conserved.mutex
  exact ⟨(Pool.total_eq_zero_iff _ _).mp (by omega),
    (Pool.total_eq_zero_iff _ _).mp (by omega)⟩

/-- A producer inside the critical section is there alone. -/
theorem Conserved.sole_producer
    {state : State}
    (conserved : Conserved state)
    {index : Nat}
    {producer : Producer}
    (present : state.producers[index]? = some producer)
    (inside : producer.pc.inCritical = 1) :
    (∀ other producer', state.producers[other]? = some producer' →
      other ≠ index → producer'.pc.inCritical = 0) ∧
      ∀ consumer ∈ state.consumers, consumer.pc.inCritical = 0 := by
  have mutexLaw := conserved.mutex
  constructor
  · intro other producer' found different
    have bound := Pool.weight_add_weight_le_total
      (fun producer => producer.pc.inCritical) found present different
    omega
  · have bound := Pool.weight_le_total
      (fun producer => producer.pc.inCritical) present
    exact (Pool.total_eq_zero_iff _ _).mp (by omega)

/-- A consumer inside the critical section is there alone. -/
theorem Conserved.sole_consumer
    {state : State}
    (conserved : Conserved state)
    {index : Nat}
    {consumer : Consumer}
    (present : state.consumers[index]? = some consumer)
    (inside : consumer.pc.inCritical = 1) :
    (∀ other consumer', state.consumers[other]? = some consumer' →
      other ≠ index → consumer'.pc.inCritical = 0) ∧
      ∀ producer ∈ state.producers, producer.pc.inCritical = 0 := by
  have mutexLaw := conserved.mutex
  constructor
  · intro other consumer' found different
    have bound := Pool.weight_add_weight_le_total
      (fun consumer => consumer.pc.inCritical) found present different
    omega
  · have bound := Pool.weight_le_total
      (fun consumer => consumer.pc.inCritical) present
    exact (Pool.total_eq_zero_iff _ _).mp (by omega)

theorem ProducerPc.not_adding_of_inCritical
    {pc : ProducerPc}
    (outside : pc.inCritical = 0)
    (point : AddPoint) :
    pc ≠ .adding point := by
  rintro rfl
  cases outside

theorem ConsumerPc.not_getting_of_inCritical
    {pc : ConsumerPc}
    (outside : pc.inCritical = 0)
    (point : GetPoint) :
    pc ≠ .getting point := by
  rintro rfl
  cases outside

/-- With the mutex free the shared queue is the queue between two whole
operations. -/
theorem Shape.queue_eq_of_mutex_pos
    {state : State}
    {base : QueueBuffer}
    (shape : Shape state base)
    (conserved : Conserved state)
    (free : 0 < state.queueMutex) :
    state.queue = base := by
  obtain ⟨producers, consumers⟩ := conserved.nobody_of_mutex_pos free
  refine shape.idle ?_ ?_
  · intro producer member
    exact ProducerPc.not_adding_of_inCritical (producers producer member)
  · intro consumer member
    exact ConsumerPc.not_getting_of_inCritical (consumers consumer member)

/-! ## The steps of a producer -/

/-- After a statement of an addition the producer is the only one inside, so a
shape for its new place is a shape of the new state. -/
theorem Shape.soleAdding
    {state next : State}
    {base : QueueBuffer}
    {index : Nat}
    {old new : Producer}
    {point : AddPoint}
    (present : state.producers[index]? = some old)
    (othersOutside : ∀ other producer',
      state.producers[other]? = some producer' →
        other ≠ index → producer'.pc.inCritical = 0)
    (consumersOutside : ∀ consumer ∈ state.consumers,
      consumer.pc.inCritical = 0)
    (producers : next.producers = state.producers.set index new)
    (consumers : next.consumers = state.consumers)
    (wellFormed : base.WellFormed)
    (history : next.added = next.extracted ++ base.contents)
    (place : new.pc = .adding point)
    (queue : next.queue = point.reached base new.currentMessagePayload)
    (notFull : point ≠ .checkFull → base.isFull = false)
    (slotsBound : ∀ slot ∈ next.slots, slot < bufferCapacity) :
    Shape next base where
  wellFormed := wellFormed
  history := history
  adding := by
    intro other producer point' found place'
    rw [producers] at found
    rcases Pool.getElem?_set_cases found with ⟨rfl, rfl⟩ | ⟨different, found⟩
    · rw [place, ProducerPc.adding.injEq] at place'
      subst place'
      exact ⟨queue, notFull⟩
    · exact absurd place' (ProducerPc.not_adding_of_inCritical
        (othersOutside other producer found different) point')
  getting := by
    intro other consumer point' found place'
    rw [consumers] at found
    exact absurd place' (ConsumerPc.not_getting_of_inCritical
      (consumersOutside consumer (List.mem_of_getElem? found)) point')
  idle := by
    intro noneAdding _
    rw [producers] at noneAdding
    exact absurd place (noneAdding new
      (List.mem_of_getElem? (Pool.getElem?_set_present present new)) point)
  slotsBound := slotsBound

/-- After an operation has returned nobody is inside one, so the new queue is
the base of the new state. -/
theorem Shape.noneInside
    {next : State}
    (producersOutside : ∀ producer ∈ next.producers, ∀ point,
      producer.pc ≠ .adding point)
    (consumersOutside : ∀ consumer ∈ next.consumers, ∀ point,
      consumer.pc ≠ .getting point)
    (wellFormed : next.queue.WellFormed)
    (history : next.added = next.extracted ++ next.queue.contents)
    (slotsBound : ∀ slot ∈ next.slots, slot < bufferCapacity) :
    Shape next next.queue where
  wellFormed := wellFormed
  history := history
  adding := by
    intro other producer point found place
    exact absurd place
      (producersOutside producer (List.mem_of_getElem? found) point)
  getting := by
    intro other consumer point found place
    exact absurd place
      (consumersOutside consumer (List.mem_of_getElem? found) point)
  idle := fun _ _ => rfl
  slotsBound := slotsBound

/-- A statement inside `add_message_to_queue` keeps a shape. -/
theorem Shape.advanceAdding
    {state next : State}
    {base : QueueBuffer}
    {index : Nat}
    {producer : Producer}
    {rand : Nat → Nat}
    {point : AddPoint}
    (shape : Shape state base)
    (conserved : Conserved state)
    (present : state.producers[index]? = some producer)
    (place : producer.pc = .adding point)
    (advanced : producer.advance index rand state = some next) :
    ∃ base', Shape next base' := by
  obtain ⟨queueEq, notFull⟩ := shape.adding index producer point present place
  obtain ⟨others, consumers⟩ := conserved.sole_producer present (by
    rw [place]
    rfl)
  have touchedBound : ∀ slot ∈ state.slots ++ (if point = .storeMessage then
      [state.queue.bufferHeadIdx] else []), slot < bufferCapacity := by
    intro slot member
    rcases List.mem_append.mp member with old | new
    · exact shape.slotsBound slot old
    · split at new
      · rename_i storing
        rw [List.mem_singleton] at new
        rw [new, queueEq, storing]
        exact QueueBuffer.wrapIndex_lt shape.wellFormed.headBound
      · simp at new
  simp only [Producer.advance, place] at advanced
  rcases executed : point.execute state.queue
    producer.currentMessagePayload with ⟨after, progress⟩
  rw [executed] at advanced
  cases progress with
  | next point' =>
      simp only [Option.some.injEq] at advanced
      subst advanced
      rw [queueEq] at executed
      refine ⟨base, Shape.soleAdding present others consumers rfl rfl
        shape.wellFormed shape.history rfl
        (AddPoint.execute_reached base _ executed) ?_ touchedBound⟩
      intro _
      by_cases testing : point = .checkFull
      · subst testing
        exact AddPoint.notFull_of_execute executed
      · exact notFull testing
  | returned =>
      simp only [Option.some.injEq] at advanced
      subst advanced
      have last := AddPoint.eq_countAdded_of_execute executed
      subst last
      have added := AddPoint.execute_countAdded_reached base
        producer.currentMessagePayload (notFull (by decide))
      rw [← queueEq, executed] at added
      obtain ⟨wellFormed, contents⟩ :=
        addMessageToQueue_spec shape.wellFormed added
      refine ⟨after, Shape.noneInside ?_ ?_ wellFormed ?_ touchedBound⟩
      · intro other member point'
        obtain ⟨position, found⟩ := List.getElem?_of_mem member
        rcases Pool.getElem?_set_cases found with
          ⟨-, rfl⟩ | ⟨different, found⟩
        · simp
        · exact ProducerPc.not_adding_of_inCritical
            (others position other found different) point'
      · intro consumer member
        exact ConsumerPc.not_getting_of_inCritical
          (consumers consumer member)
      · change state.added ++ [producer.currentMessagePayload] =
          state.extracted ++ after.contents
        rw [contents, shape.history, List.append_assoc]
  | exited =>
      simp only [Option.some.injEq] at advanced
      subst advanced
      obtain ⟨rfl, rfl, -⟩ := AddPoint.eq_checkFull_of_execute executed
      refine ⟨base, shape.moveProducer present rfl rfl rfl rfl rfl
        (List.append_nil _) ?_ (fun _ _ => rfl)⟩
      simp [place]

/-- Every statement of a producer keeps a shape. -/
theorem Shape.advanceProducer
    {state next : State}
    {base : QueueBuffer}
    {index : Nat}
    {producer : Producer}
    {rand : Nat → Nat}
    (shape : Shape state base)
    (conserved : Conserved state)
    (present : state.producers[index]? = some producer)
    (advanced : producer.advance index rand state = some next) :
    ∃ base', Shape next base' := by
  cases place : producer.pc with
  | generate | signalMutex | signalFilledSlots | report =>
      simp only [Producer.advance, place, Option.some.injEq] at advanced
      subst advanced
      refine ⟨base, shape.moveProducer present rfl rfl rfl rfl rfl rfl
        ?_ ?_⟩ <;> simp [place]
  | waitEmptySlots =>
      simp only [Producer.advance, place] at advanced
      split at advanced
      · cases advanced
      · rw [Option.some.injEq] at advanced
        subst advanced
        refine ⟨base, shape.moveProducer present rfl rfl rfl rfl rfl rfl
          ?_ ?_⟩ <;> simp [place]
  | waitMutex =>
      simp only [Producer.advance, place] at advanced
      split at advanced
      · cases advanced
      · rename_i taken
        rw [Option.some.injEq] at advanced
        subst advanced
        have free : 0 < state.queueMutex := Nat.pos_of_ne_zero taken
        obtain ⟨producers, consumers⟩ := conserved.nobody_of_mutex_pos free
        refine ⟨base, Shape.soleAdding present ?_ consumers rfl rfl
          shape.wellFormed shape.history rfl
          (shape.queue_eq_of_mutex_pos conserved free)
          (fun moved => absurd rfl moved) shape.slotsBound⟩
        intro other producer' found _
        exact producers producer' (List.mem_of_getElem? found)
  | adding point =>
      exact shape.advanceAdding conserved present place advanced

/-! ## The steps of a consumer -/

/-- After a statement of an extraction the consumer is the only one inside, so
a shape for its new place is a shape of the new state. -/
theorem Shape.soleGetting
    {state next : State}
    {base : QueueBuffer}
    {index : Nat}
    {old new : Consumer}
    {point : GetPoint}
    (present : state.consumers[index]? = some old)
    (othersOutside : ∀ other consumer',
      state.consumers[other]? = some consumer' →
        other ≠ index → consumer'.pc.inCritical = 0)
    (producersOutside : ∀ producer ∈ state.producers,
      producer.pc.inCritical = 0)
    (consumers : next.consumers = state.consumers.set index new)
    (producers : next.producers = state.producers)
    (wellFormed : base.WellFormed)
    (history : next.added = next.extracted ++ base.contents)
    (place : new.pc = .getting point)
    (queue : next.queue = point.reached base)
    (notEmpty : point ≠ .checkEmpty → base.isEmpty = false)
    (loaded : point.loaded = true → new.retrievedMessagePayload =
      base.messageBuffer (QueueBuffer.wrapIndex base.bufferTailIdx))
    (slotsBound : ∀ slot ∈ next.slots, slot < bufferCapacity) :
    Shape next base where
  wellFormed := wellFormed
  history := history
  adding := by
    intro other producer point' found place'
    rw [producers] at found
    exact absurd place' (ProducerPc.not_adding_of_inCritical
      (producersOutside producer (List.mem_of_getElem? found)) point')
  getting := by
    intro other consumer point' found place'
    rw [consumers] at found
    rcases Pool.getElem?_set_cases found with ⟨rfl, rfl⟩ | ⟨different, found⟩
    · rw [place, ConsumerPc.getting.injEq] at place'
      subst place'
      exact ⟨queue, notEmpty, loaded⟩
    · exact absurd place' (ConsumerPc.not_getting_of_inCritical
        (othersOutside other consumer found different) point')
  idle := by
    intro _ noneGetting
    rw [consumers] at noneGetting
    exact absurd place (noneGetting new
      (List.mem_of_getElem? (Pool.getElem?_set_present present new)) point)
  slotsBound := slotsBound

/-- A statement inside `get_message_from_queue` keeps a shape. -/
theorem Shape.advanceGetting
    {state next : State}
    {base : QueueBuffer}
    {index : Nat}
    {consumer : Consumer}
    {point : GetPoint}
    (shape : Shape state base)
    (conserved : Conserved state)
    (present : state.consumers[index]? = some consumer)
    (place : consumer.pc = .getting point)
    (advanced : consumer.advance index state = some next) :
    ∃ base', Shape next base' := by
  obtain ⟨queueEq, notEmpty, loaded⟩ :=
    shape.getting index consumer point present place
  obtain ⟨others, producers⟩ := conserved.sole_consumer present (by
    rw [place]
    rfl)
  have touchedBound : ∀ slot ∈ state.slots ++ (if point = .loadMessage then
      [state.queue.bufferTailIdx] else []), slot < bufferCapacity := by
    intro slot member
    rcases List.mem_append.mp member with old | new
    · exact shape.slotsBound slot old
    · split at new
      · rename_i loading
        rw [List.mem_singleton] at new
        rw [new, queueEq, loading]
        exact QueueBuffer.wrapIndex_lt shape.wellFormed.tailBound
      · simp at new
  simp only [Consumer.advance, place] at advanced
  rcases executed : point.execute state.queue
    consumer.retrievedMessagePayload with ⟨after, msg, progress⟩
  rw [executed] at advanced
  cases progress with
  | next point' =>
      simp only [Option.some.injEq] at advanced
      subst advanced
      rw [queueEq] at executed
      refine ⟨base, Shape.soleGetting present others producers rfl rfl
        shape.wellFormed shape.history rfl
        (GetPoint.execute_reached base _ executed) ?_
        (GetPoint.execute_loaded base _ loaded executed) touchedBound⟩
      intro _
      by_cases testing : point = .checkEmpty
      · subst testing
        exact GetPoint.notEmpty_of_execute executed
      · exact notEmpty testing
  | returned =>
      simp only [Option.some.injEq] at advanced
      subst advanced
      obtain ⟨rfl, rfl⟩ := GetPoint.eq_countExtracted_of_execute executed
      have extracted := GetPoint.execute_countExtracted_reached base
        (notEmpty (by decide))
      rw [← loaded rfl] at extracted
      have afterEq : after = (GetPoint.countExtracted.execute
          (GetPoint.countExtracted.reached base) .zero).1 := by
        rw [queueEq] at executed
        cases executed
        rfl
      rw [← afterEq] at extracted
      obtain ⟨wellFormed, contents⟩ :=
        getMessageFromQueue_spec shape.wellFormed extracted
      refine ⟨after, Shape.noneInside ?_ ?_ wellFormed ?_ touchedBound⟩
      · intro producer member
        exact ProducerPc.not_adding_of_inCritical
          (producers producer member)
      · intro other member point'
        obtain ⟨position, found⟩ := List.getElem?_of_mem member
        rcases Pool.getElem?_set_cases found with
          ⟨-, rfl⟩ | ⟨different, found⟩
        · simp
        · exact ConsumerPc.not_getting_of_inCritical
            (others position other found different) point'
      · change state.added = state.extracted ++
          [consumer.retrievedMessagePayload] ++ after.contents
        rw [shape.history, contents, List.append_assoc]
        rfl
  | exited =>
      simp only [Option.some.injEq] at advanced
      subst advanced
      obtain ⟨rfl, rfl, rfl⟩ := GetPoint.eq_checkEmpty_of_execute executed
      refine ⟨base, shape.moveConsumer present rfl rfl rfl rfl rfl
        (List.append_nil _) ?_ (fun _ _ => rfl)⟩
      simp [place]

/-- Every statement of a consumer keeps a shape. -/
theorem Shape.advanceConsumer
    {state next : State}
    {base : QueueBuffer}
    {index : Nat}
    {consumer : Consumer}
    (shape : Shape state base)
    (conserved : Conserved state)
    (present : state.consumers[index]? = some consumer)
    (advanced : consumer.advance index state = some next) :
    ∃ base', Shape next base' := by
  cases place : consumer.pc with
  | clear | signalMutex | signalEmptySlots | verify =>
      simp only [Consumer.advance, place, Option.some.injEq] at advanced
      subst advanced
      refine ⟨base, shape.moveConsumer present rfl rfl rfl rfl rfl rfl
        ?_ ?_⟩ <;> simp [place]
  | waitFilledSlots =>
      simp only [Consumer.advance, place] at advanced
      split at advanced
      · cases advanced
      · rw [Option.some.injEq] at advanced
        subst advanced
        refine ⟨base, shape.moveConsumer present rfl rfl rfl rfl rfl rfl
          ?_ ?_⟩ <;> simp [place]
  | waitMutex =>
      simp only [Consumer.advance, place] at advanced
      split at advanced
      · cases advanced
      · rename_i taken
        rw [Option.some.injEq] at advanced
        subst advanced
        have free : 0 < state.queueMutex := Nat.pos_of_ne_zero taken
        obtain ⟨producers, consumers⟩ := conserved.nobody_of_mutex_pos free
        refine ⟨base, Shape.soleGetting present ?_ producers rfl rfl
          shape.wellFormed shape.history rfl
          (shape.queue_eq_of_mutex_pos conserved free)
          (fun moved => absurd rfl moved) (fun early => by cases early)
          shape.slotsBound⟩
        intro other consumer' found _
        exact consumers consumer' (List.mem_of_getElem? found)
  | getting point =>
      exact shape.advanceGetting conserved present place advanced

/-! ## The other steps -/

/-- A step that touches neither the queue nor a child's place. -/
theorem Shape.of_eq
    {state next : State}
    {base : QueueBuffer}
    (shape : Shape state base)
    (producers : next.producers = state.producers)
    (consumers : next.consumers = state.consumers)
    (queue : next.queue = state.queue)
    (added : next.added = state.added)
    (extracted : next.extracted = state.extracted)
    (slots : next.slots = state.slots) :
    Shape next base where
  wellFormed := shape.wellFormed
  history := by rw [added, extracted, shape.history]
  adding := by rw [producers, queue]; exact shape.adding
  getting := by rw [consumers, queue]; exact shape.getting
  idle := by rw [producers, consumers, queue]; exact shape.idle
  slotsBound := by rw [slots]; exact shape.slotsBound

theorem Shape.killProducer
    {state : State}
    {base : QueueBuffer}
    (shape : Shape state base)
    (index : Nat) :
    Shape (killProducer index state) base := by
  unfold SharedQueue.killProducer
  split
  · exact shape
  · rename_i producer present
    exact shape.moveProducer present rfl rfl rfl rfl rfl rfl
      (fun _ => Iff.rfl) (fun _ _ => rfl)

theorem Shape.killConsumer
    {state : State}
    {base : QueueBuffer}
    (shape : Shape state base)
    (index : Nat) :
    Shape (killConsumer index state) base := by
  unfold SharedQueue.killConsumer
  split
  · exact shape
  · rename_i consumer present
    exact shape.moveConsumer present rfl rfl rfl rfl rfl rfl
      (fun _ => Iff.rfl) (fun _ _ => rfl)

theorem Shape.spawnProducerProcess
    {state : State}
    {base : QueueBuffer}
    (shape : Shape state base)
    (forked : Bool) :
    Shape (spawnProducerProcess forked state) base := by
  unfold SharedQueue.spawnProducerProcess
  split
  · exact shape
  · split
    · obtain ⟨wellFormed, history, adding, getting, idle, slotsBound⟩ := shape
      refine ⟨wellFormed, history, ?_, getting, ?_, slotsBound⟩
      · intro other producer point found place
        rcases List.mem_append.mp (List.mem_of_getElem? found) with old | new
        · obtain ⟨position, found⟩ := List.getElem?_of_mem old
          exact adding position producer point found place
        · rw [List.mem_singleton] at new
          subst new
          cases place
      · intro noneAdding noneGetting
        refine idle ?_ noneGetting
        intro producer member
        exact noneAdding producer (List.mem_append_left _ member)
    · exact shape.of_eq rfl rfl rfl rfl rfl rfl

theorem Shape.spawnConsumerProcess
    {state : State}
    {base : QueueBuffer}
    (shape : Shape state base)
    (forked : Bool) :
    Shape (spawnConsumerProcess forked state) base := by
  unfold SharedQueue.spawnConsumerProcess
  split
  · exact shape
  · split
    · obtain ⟨wellFormed, history, adding, getting, idle, slotsBound⟩ := shape
      refine ⟨wellFormed, history, adding, ?_, ?_, slotsBound⟩
      · intro other consumer point found place
        rcases List.mem_append.mp (List.mem_of_getElem? found) with old | new
        · obtain ⟨position, found⟩ := List.getElem?_of_mem old
          exact getting position consumer point found place
        · rw [List.mem_singleton] at new
          subst new
          cases place
      · intro noneAdding noneGetting
        refine idle noneAdding ?_
        intro consumer member
        exact noneGetting consumer (List.mem_append_left _ member)
    · exact shape.of_eq rfl rfl rfl rfl rfl rfl

theorem Shape.statusStep
    {state next : State}
    {base : QueueBuffer}
    (shape : Shape state base)
    (stepped : statusStep state = some next) :
    Shape next base := by
  cases place : state.parent with
  | command | exited =>
      simp [SharedQueue.statusStep, place] at stepped
  | statusWait =>
      simp only [SharedQueue.statusStep, place] at stepped
      split at stepped
      · cases stepped
      · cases stepped
        exact shape.of_eq rfl rfl rfl rfl rfl rfl
  | statusShow =>
      simp only [SharedQueue.statusStep, place] at stepped
      cases stepped
      exact shape.of_eq rfl rfl rfl rfl rfl rfl

/-- Every step of the system keeps a shape. -/
theorem Shape.step
    {state next : State}
    {base : QueueBuffer}
    {action : Action}
    (shape : Shape state base)
    (conserved : Conserved state)
    (stepped : SharedQueue.step state action = some next) :
    ∃ base', Shape next base' := by
  cases action with
  | spawnProducer forked =>
      obtain ⟨-, rfl⟩ := atCommand_eq_some stepped
      exact ⟨base, shape.spawnProducerProcess forked⟩
  | spawnConsumer forked =>
      obtain ⟨-, rfl⟩ := atCommand_eq_some stepped
      exact ⟨base, shape.spawnConsumerProcess forked⟩
  | terminateLastProducer =>
      obtain ⟨-, rfl⟩ := atCommand_eq_some stepped
      refine ⟨base, ?_⟩
      unfold SharedQueue.terminateLastProducer
      split
      · exact shape
      · apply Shape.killProducer
        exact shape.of_eq rfl rfl rfl rfl rfl rfl
  | terminateLastConsumer =>
      obtain ⟨-, rfl⟩ := atCommand_eq_some stepped
      refine ⟨base, ?_⟩
      unfold SharedQueue.terminateLastConsumer
      split
      · exact shape
      · apply Shape.killConsumer
        exact shape.of_eq rfl rfl rfl rfl rfl rfl
  | displayCurrentStatus =>
      obtain ⟨-, rfl⟩ := atCommand_eq_some stepped
      exact ⟨base, shape.of_eq rfl rfl rfl rfl rfl rfl⟩
  | status => exact ⟨base, shape.statusStep stepped⟩
  | producer index rand =>
      obtain ⟨producer, present, -, advanced⟩ :=
        producerStep_eq_some stepped
      exact shape.advanceProducer conserved present advanced
  | consumer index =>
      obtain ⟨consumer, present, -, advanced⟩ := consumerStep_eq_some stepped
      exact shape.advanceConsumer conserved present advanced
  | killProducer index =>
      cases stepped
      exact ⟨base, shape.killProducer index⟩
  | killConsumer index =>
      cases stepped
      exact ⟨base, shape.killConsumer index⟩

/-! ## The queue in every reachable state -/

/-- The inductive invariant of the process version. -/
def Invariant (state : State) : Prop :=
  Conserved state ∧ ∃ base, Shape state base

theorem invariant_systemInit : Invariant systemInit :=
  ⟨conserved_systemInit, initializeQueue, shape_systemInit⟩

theorem Invariant.step
    {state next : State}
    {action : Action}
    (invariant : Invariant state)
    (stepped : SharedQueue.step state action = some next) :
    Invariant next := by
  obtain ⟨conserved, base, shape⟩ := invariant
  exact ⟨conserved.step stepped, shape.step conserved stepped⟩

theorem invariant_of_reachable
    {state : State}
    (reachable : system.Reachable state) :
    Invariant state := by
  apply reachable.invariant
  · rintro _ rfl
    exact invariant_systemInit
  · intro before action after invariant _ stepped
    exact invariant.step stepped

/-- The number of stored messages is the length of the contents. -/
theorem Shape.added_length
    {state : State}
    {base : QueueBuffer}
    (shape : Shape state base) :
    state.added.length = state.extracted.length + base.currentMsgCount := by
  rw [shape.history, List.length_append, QueueBuffer.contents,
    Ring.length_window]

/-- A consumer about to test for emptiness always finds a message. -/
theorem Invariant.notEmpty_at_checkEmpty
    {state : State}
    (invariant : Invariant state)
    {index : Nat}
    {consumer : Consumer}
    (present : state.consumers[index]? = some consumer)
    (place : consumer.pc = .getting .checkEmpty) :
    state.queue.currentMsgCount ≠ 0 := by
  obtain ⟨conserved, base, shape⟩ := invariant
  obtain ⟨queueEq, -, -⟩ :=
    shape.getting index consumer .checkEmpty present place
  have holds := Pool.weight_le_total
    (fun consumer => consumer.pc.holdsFilled) present
  have filledLaw := conserved.filled
  have stored := shape.added_length
  have held : consumer.pc.holdsFilled = 1 := by
    rw [place]
    rfl
  rw [queueEq]
  change base.currentMsgCount ≠ 0
  omega

/-- What the queue guarantees in one state: with the mutex free the extracted
messages followed by the stored ones are the added ones in order and the two
counters differ by the number stored; no slot outside the buffer was ever
touched; and no consumer enters `get_message_from_queue` on an empty queue. -/
structure FifoSafe (state : State) : Prop where
  fifo : 0 < state.queueMutex →
    state.extracted ++ state.queue.contents = state.added
  counters : 0 < state.queueMutex →
    state.queue.totalAddedCount - state.queue.totalExtractedCount =
      UInt64.ofNat state.queue.currentMsgCount
  slotsBound : ∀ slot ∈ state.slots, slot < bufferCapacity
  notEmpty : ∀ consumer ∈ state.consumers,
    consumer.pc = .getting .checkEmpty → state.queue.currentMsgCount ≠ 0

/-- The queue is first in, first out in every reachable state, whichever
children were killed and wherever. -/
theorem reachable_fifoSafe
    (state : State)
    (reachable : system.Reachable state) :
    FifoSafe state := by
  have invariant := invariant_of_reachable reachable
  obtain ⟨conserved, base, shape⟩ := invariant
  constructor
  · intro free
    rw [shape.queue_eq_of_mutex_pos conserved free, shape.history]
  · intro free
    rw [shape.queue_eq_of_mutex_pos conserved free]
    exact shape.wellFormed.counters
  · exact shape.slotsBound
  · intro consumer member place
    obtain ⟨index, present⟩ := List.getElem?_of_mem member
    exact (invariant_of_reachable reachable).notEmpty_at_checkEmpty
      present place

/-- One message is added, a consumer takes its token and is killed before it
reaches the queue. -/
def killedConsumerSchedule : List Action :=
  [.spawnProducer true, .spawnConsumer true] ++
    List.replicate 11 (.producer 0 fun _ => 0) ++
    List.replicate 2 (.consumer 0) ++ [.terminateLastConsumer]

theorem killedConsumerSchedule_fifoSafe :
    ∃ state, system.run systemInit killedConsumerSchedule = some state ∧
      state.queueMutex = 1 ∧ state.added.length = 1 ∧ FifoSafe state := by
  have executed : ∃ state,
      system.run systemInit killedConsumerSchedule = some state ∧
        state.queueMutex = 1 ∧ state.added.length = 1 :=
    ⟨_, rfl, rfl, rfl⟩
  obtain ⟨state, ran, free, one⟩ := executed
  exact ⟨state, ran, free, one,
    reachable_fifoSafe state (Machine.Reachable.run (.initial rfl) ran)⟩

end SharedQueue
end OSaSP
