import OSaSP.Foundations.Numbering
import OSaSP.SharedQueue.Checksum
import OSaSP.SharedQueue.Fifo

/-!
# The numbers that the children report

A producer prints its message with the count that `add_message_to_queue`
returned, a consumer the message it got with the count that
`get_message_from_queue` returned, after it has checked the message.  The
counts are places in one common order of all messages, no two children print
the same one, and no checksum is ever wrong, whichever children were killed and
wherever.
-/

namespace OSaSP
namespace SharedQueue

/-- `add_message_to_queue` has returned in this round. -/
def ProducerPc.returned : ProducerPc → Bool
  | .signalMutex | .signalFilledSlots | .report => true
  | _ => false

/-- `get_message_from_queue` has returned in this round. -/
def ConsumerPc.returned : ConsumerPc → Bool
  | .signalMutex | .signalEmptySlots | .verify => true
  | _ => false

/-- The message and the count that the producer prints in this round. -/
def Producer.reports (producer : Producer) : Option (MsgPayload × UInt64) :=
  if producer.pc.returned then
    some (producer.currentMessagePayload, producer.messagesAddedLocalCount)
  else none

/-- The message and the count that the consumer prints in this round. -/
def Consumer.reports (consumer : Consumer) : Option (MsgPayload × UInt64) :=
  if consumer.pc.returned then
    some (consumer.retrievedMessagePayload,
      consumer.messagesExtractedLocalCount)
  else none

/-! ## What the statements do to the reports -/

/-- Only the last statement of an addition moves a counter. -/
theorem AddPoint.execute_counters
    {queue after : QueueBuffer}
    {msg : MsgPayload}
    {point : AddPoint}
    {progress : Progress AddPoint}
    (executed : point.execute queue msg = (after, progress)) :
    after.totalExtractedCount = queue.totalExtractedCount ∧
      (progress = .returned ∧
          after.totalAddedCount = queue.totalAddedCount + 1 ∨
        progress ≠ .returned ∧
          after.totalAddedCount = queue.totalAddedCount) := by
  cases point with
  | checkFull =>
      cases full : queue.isFull <;>
        simp only [AddPoint.execute, full] at executed <;>
        cases executed <;> exact ⟨rfl, .inr ⟨by simp, rfl⟩⟩
  | countAdded =>
      cases executed
      exact ⟨rfl, .inl ⟨rfl, rfl⟩⟩
  | wrapHead | storeMessage | advanceHead | countMessage =>
      cases executed
      exact ⟨rfl, .inr ⟨by simp, rfl⟩⟩

/-- Only the last statement of an extraction moves a counter. -/
theorem GetPoint.execute_counters
    {queue after : QueueBuffer}
    {msg got : MsgPayload}
    {point : GetPoint}
    {progress : Progress GetPoint}
    (executed : point.execute queue msg = (after, got, progress)) :
    after.totalAddedCount = queue.totalAddedCount ∧
      (progress = .returned ∧
          after.totalExtractedCount = queue.totalExtractedCount + 1 ∨
        progress ≠ .returned ∧
          after.totalExtractedCount = queue.totalExtractedCount) := by
  cases point with
  | checkEmpty =>
      cases empty : queue.isEmpty <;>
        simp only [GetPoint.execute, empty] at executed <;>
        cases executed <;> exact ⟨rfl, .inr ⟨by simp, rfl⟩⟩
  | countExtracted =>
      cases executed
      exact ⟨rfl, .inl ⟨rfl, rfl⟩⟩
  | wrapTail | loadMessage | advanceTail | countMessage =>
      cases executed
      exact ⟨rfl, .inr ⟨by simp, rfl⟩⟩

/-- The message of a producer that has generated one is honest. -/
def Producer.Honest (producer : Producer) : Prop :=
  producer.pc ≠ .generate → producer.currentMessagePayload.Honest

/-- What one statement of a producer does to the history and to what the
producer prints. -/
inductive Producer.Reported
    (state next : State)
    (producer new : Producer) : Prop
  /-- The return of `add_message_to_queue`. -/
  | counted
      (added : next.added = state.added ++ [producer.currentMessagePayload])
      (total : next.queue.totalAddedCount = state.queue.totalAddedCount + 1)
      (honest : producer.Honest → producer.currentMessagePayload.Honest)
      (reports : new.reports = some
        (producer.currentMessagePayload, state.queue.totalAddedCount + 1))
  /-- Any other statement. -/
  | silent
      (added : next.added = state.added)
      (total : next.queue.totalAddedCount = state.queue.totalAddedCount)
      (reports : new.reports = producer.reports ∨ new.reports = none)

/-- One statement of a producer leaves the consumers and what they count
alone. -/
structure Producer.ReportStep
    (state next : State)
    (index : Nat)
    (producer new : Producer) : Prop where
  producers : next.producers = state.producers.set index new
  consumers : next.consumers = state.consumers
  extracted : next.extracted = state.extracted
  totalExtracted : next.queue.totalExtractedCount =
    state.queue.totalExtractedCount
  honest : producer.Honest → new.Honest
  reported : Producer.Reported state next producer new

theorem Producer.advance_reported
    {producer : Producer}
    {index : Nat}
    {rand : Nat → Nat}
    {state next : State}
    (advanced : producer.advance index rand state = some next) :
    ∃ new, Producer.ReportStep state next index producer new := by
  cases place : producer.pc with
  | generate =>
      simp only [Producer.advance, place, Option.some.injEq] at advanced
      subst advanced
      exact ⟨_, rfl, rfl, rfl, rfl,
        fun _ _ => generateAndFillMessage_honest rand,
        .silent rfl rfl (.inr rfl)⟩
  | waitEmptySlots | waitMutex =>
      simp only [Producer.advance, place] at advanced
      split at advanced
      · cases advanced
      · rw [Option.some.injEq] at advanced
        subst advanced
        exact ⟨_, rfl, rfl, rfl, rfl, fun honest _ => honest (by simp [place]),
          .silent rfl rfl (.inr rfl)⟩
  | signalMutex | signalFilledSlots =>
      simp only [Producer.advance, place, Option.some.injEq] at advanced
      subst advanced
      exact ⟨_, rfl, rfl, rfl, rfl, fun honest _ => honest (by simp [place]),
        .silent rfl rfl (.inl (by simp [reports, place, ProducerPc.returned]))⟩
  | report =>
      simp only [Producer.advance, place, Option.some.injEq] at advanced
      subst advanced
      exact ⟨_, rfl, rfl, rfl, rfl, fun _ generated => absurd rfl generated,
        .silent rfl rfl (.inr rfl)⟩
  | adding point =>
      have filled : producer.pc ≠ .generate := by simp [place]
      simp only [Producer.advance, place] at advanced
      rcases executed : point.execute state.queue
        producer.currentMessagePayload with ⟨after, progress⟩
      rw [executed] at advanced
      obtain ⟨extracted, total⟩ := AddPoint.execute_counters executed
      cases progress with
      | next point' =>
          simp only [Option.some.injEq] at advanced
          subst advanced
          obtain ⟨impossible, -⟩ | ⟨-, total⟩ := total
          · cases impossible
          · exact ⟨_, rfl, rfl, rfl, extracted, fun honest _ => honest filled,
              .silent rfl total (.inr rfl)⟩
      | returned =>
          simp only [Option.some.injEq] at advanced
          subst advanced
          obtain ⟨-, total⟩ | ⟨impossible, -⟩ := total
          · exact ⟨_, rfl, rfl, rfl, extracted, fun honest _ => honest filled,
              .counted rfl total (fun honest => honest filled)
                (by simp [reports, ProducerPc.returned, total])⟩
          · exact absurd rfl impossible
      | exited =>
          simp only [Option.some.injEq] at advanced
          subst advanced
          obtain ⟨impossible, -⟩ | ⟨-, total⟩ := total
          · cases impossible
          · exact ⟨_, rfl, rfl, rfl, extracted, fun honest _ => honest filled,
              .silent rfl total
                (.inr (by simp [reports, ProducerPc.returned]))⟩

/-- What one statement of a consumer does to the history and to what the
consumer prints. -/
inductive Consumer.Reported
    (state next : State)
    (consumer new : Consumer) : Prop
  /-- The return of `get_message_from_queue`. -/
  | counted
      (msg : MsgPayload)
      (extracted : next.extracted = state.extracted ++ [msg])
      (total : next.queue.totalExtractedCount =
        state.queue.totalExtractedCount + 1)
      (reports : new.reports =
        some (msg, state.queue.totalExtractedCount + 1))
  /-- Any other statement. -/
  | silent
      (extracted : next.extracted = state.extracted)
      (total : next.queue.totalExtractedCount =
        state.queue.totalExtractedCount)
      (reports : new.reports = consumer.reports ∨ new.reports = none)

/-- One statement of a consumer leaves the producers and what they count
alone. -/
structure Consumer.ReportStep
    (state next : State)
    (index : Nat)
    (consumer new : Consumer) : Prop where
  consumers : next.consumers = state.consumers.set index new
  producers : next.producers = state.producers
  added : next.added = state.added
  totalAdded : next.queue.totalAddedCount = state.queue.totalAddedCount
  reported : Consumer.Reported state next consumer new

theorem Consumer.advance_reported
    {consumer : Consumer}
    {index : Nat}
    {state next : State}
    (advanced : consumer.advance index state = some next) :
    ∃ new, Consumer.ReportStep state next index consumer new := by
  cases place : consumer.pc with
  | clear | verify =>
      simp only [Consumer.advance, place, Option.some.injEq] at advanced
      subst advanced
      exact ⟨_, rfl, rfl, rfl, rfl, .silent rfl rfl (.inr rfl)⟩
  | waitFilledSlots | waitMutex =>
      simp only [Consumer.advance, place] at advanced
      split at advanced
      · cases advanced
      · rw [Option.some.injEq] at advanced
        subst advanced
        exact ⟨_, rfl, rfl, rfl, rfl, .silent rfl rfl (.inr rfl)⟩
  | signalMutex | signalEmptySlots =>
      simp only [Consumer.advance, place, Option.some.injEq] at advanced
      subst advanced
      exact ⟨_, rfl, rfl, rfl, rfl, .silent rfl rfl
        (.inl (by simp [reports, place, ConsumerPc.returned]))⟩
  | getting point =>
      simp only [Consumer.advance, place] at advanced
      rcases executed : point.execute state.queue
        consumer.retrievedMessagePayload with ⟨after, msg, progress⟩
      rw [executed] at advanced
      obtain ⟨added, total⟩ := GetPoint.execute_counters executed
      cases progress with
      | next point' =>
          simp only [Option.some.injEq] at advanced
          subst advanced
          obtain ⟨impossible, -⟩ | ⟨-, total⟩ := total
          · cases impossible
          · exact ⟨_, rfl, rfl, rfl, added, .silent rfl total (.inr rfl)⟩
      | returned =>
          simp only [Option.some.injEq] at advanced
          subst advanced
          obtain ⟨-, total⟩ | ⟨impossible, -⟩ := total
          · exact ⟨_, rfl, rfl, rfl, added, .counted msg rfl total
              (by simp [reports, ConsumerPc.returned, total])⟩
          · exact absurd rfl impossible
      | exited =>
          simp only [Option.some.injEq] at advanced
          subst advanced
          obtain ⟨impossible, -⟩ | ⟨-, total⟩ := total
          · cases impossible
          · exact ⟨_, rfl, rfl, rfl, added, .silent rfl total
              (.inr (by simp [reports, ConsumerPc.returned]))⟩

/-! ## The invariant -/

/-- The 64-bit counters tell fewer than `2 ^ 64` messages apart. -/
theorem injOn_ofNat :
    Set.InjOn UInt64.ofNat {length | length < 2 ^ 64} := by
  intro first firstBound second secondBound same
  have values := congrArg UInt64.toNat same
  have firstBound : first < UInt64.size := firstBound
  have secondBound : second < UInt64.size := secondBound
  rwa [UInt64.toNat_ofNat_of_lt' firstBound,
    UInt64.toNat_ofNat_of_lt' secondBound] at values

/-- The counters show how many messages were added and extracted, what the
children print are the places of their messages, and every message is
honest. -/
structure Reporting (state : State) : Prop where
  totalAdded : state.queue.totalAddedCount =
    UInt64.ofNat state.added.length
  totalExtracted : state.queue.totalExtractedCount =
    UInt64.ofNat state.extracted.length
  addedHonest : ∀ msg ∈ state.added, msg.Honest
  producersHonest : ∀ producer ∈ state.producers, producer.Honest
  producers : Numbered UInt64.ofNat (2 ^ 64) Producer.reports state.added
    state.producers
  consumers : Numbered UInt64.ofNat (2 ^ 64) Consumer.reports state.extracted
    state.consumers

namespace Reporting

theorem systemInit : Reporting systemInit where
  totalAdded := rfl
  totalExtracted := rfl
  addedHonest := by simp [SharedQueue.systemInit]
  producersHonest := by simp [SharedQueue.systemInit]
  producers := .nil
  consumers := .nil

/-- A counter that shows a length shows the next one when it moves. -/
theorem count_succ
    {history : List MsgPayload}
    {total : UInt64}
    (counted : total = UInt64.ofNat history.length) :
    total + 1 = UInt64.ofNat (history.length + 1) := by
  rw [counted, UInt64.ofNat_add]
  rfl

theorem producerStep
    {state next : State}
    {index : Nat}
    {producer new : Producer}
    (reporting : Reporting state)
    (present : state.producers[index]? = some producer)
    (stepped : Producer.ReportStep state next index producer new) :
    Reporting next := by
  have honest := reporting.producersHonest producer
    (List.mem_of_getElem? present)
  have everyHonest : ∀ producer ∈ next.producers, producer.Honest := by
    rw [stepped.producers]
    exact Pool.forall_mem_set reporting.producersHonest
      (stepped.honest honest)
  have extracted : next.queue.totalExtractedCount =
      UInt64.ofNat next.extracted.length := by
    rw [stepped.totalExtracted, stepped.extracted, reporting.totalExtracted]
  have consumers : Numbered UInt64.ofNat (2 ^ 64) Consumer.reports
      next.extracted next.consumers := by
    rw [stepped.extracted, stepped.consumers]
    exact reporting.consumers
  cases stepped.reported with
  | counted added total message reports =>
      have counter := count_succ reporting.totalAdded
      refine ⟨?_, extracted, ?_, everyHonest, ?_, consumers⟩
      · rw [total, added, counter, List.length_append, List.length_singleton]
      · rw [added]
        intro msg member
        rcases List.mem_append.mp member with old | last
        · exact reporting.addedHonest msg old
        · rw [List.mem_singleton.mp last]
          exact message honest
      · rw [added, stepped.producers]
        exact reporting.producers.take injOn_ofNat (counter ▸ reports)
  | silent added total reports =>
      refine ⟨?_, extracted, ?_, everyHonest, ?_, consumers⟩
      · rw [total, added, reporting.totalAdded]
      · rw [added]
        exact reporting.addedHonest
      · rw [added, stepped.producers]
        exact reporting.producers.replace present reports

theorem consumerStep
    {state next : State}
    {index : Nat}
    {consumer new : Consumer}
    (reporting : Reporting state)
    (present : state.consumers[index]? = some consumer)
    (stepped : Consumer.ReportStep state next index consumer new) :
    Reporting next := by
  have added : next.queue.totalAddedCount =
      UInt64.ofNat next.added.length := by
    rw [stepped.totalAdded, stepped.added, reporting.totalAdded]
  have addedHonest : ∀ msg ∈ next.added, msg.Honest := by
    rw [stepped.added]
    exact reporting.addedHonest
  have producersHonest : ∀ producer ∈ next.producers, producer.Honest := by
    rw [stepped.producers]
    exact reporting.producersHonest
  have producers : Numbered UInt64.ofNat (2 ^ 64) Producer.reports next.added
      next.producers := by
    rw [stepped.added, stepped.producers]
    exact reporting.producers
  cases stepped.reported with
  | counted msg extracted total reports =>
      have counter := count_succ reporting.totalExtracted
      refine ⟨added, ?_, addedHonest, producersHonest, producers, ?_⟩
      · rw [total, extracted, counter, List.length_append,
          List.length_singleton]
      · rw [extracted, stepped.consumers]
        exact reporting.consumers.take injOn_ofNat (counter ▸ reports)
  | silent extracted total reports =>
      refine ⟨added, ?_, addedHonest, producersHonest, producers, ?_⟩
      · rw [total, extracted, reporting.totalExtracted]
      · rw [extracted, stepped.consumers]
        exact reporting.consumers.replace present reports

/-- A step that touches no child and no counter. -/
theorem of_eq
    {state next : State}
    (reporting : Reporting state)
    (queue : next.queue = state.queue)
    (added : next.added = state.added)
    (extracted : next.extracted = state.extracted)
    (producers : next.producers = state.producers)
    (consumers : next.consumers = state.consumers) :
    Reporting next where
  totalAdded := by rw [queue, added, reporting.totalAdded]
  totalExtracted := by rw [queue, extracted, reporting.totalExtracted]
  addedHonest := by rw [added]; exact reporting.addedHonest
  producersHonest := by rw [producers]; exact reporting.producersHonest
  producers := by rw [added, producers]; exact reporting.producers
  consumers := by rw [extracted, consumers]; exact reporting.consumers

/-- A child that is killed keeps what it was about to print. -/
theorem killProducer
    {state : State}
    (reporting : Reporting state)
    (index : Nat) :
    Reporting (killProducer index state) := by
  unfold SharedQueue.killProducer
  split
  · exact reporting
  · rename_i producer present
    exact reporting.producerStep present
      ⟨rfl, rfl, rfl, rfl, fun honest => honest, .silent rfl rfl (.inl rfl)⟩

theorem killConsumer
    {state : State}
    (reporting : Reporting state)
    (index : Nat) :
    Reporting (killConsumer index state) := by
  unfold SharedQueue.killConsumer
  split
  · exact reporting
  · rename_i consumer present
    exact reporting.consumerStep present
      ⟨rfl, rfl, rfl, rfl, .silent rfl rfl (.inl rfl)⟩

theorem spawnProducerProcess
    {state : State}
    (reporting : Reporting state)
    (forked : Bool) :
    Reporting (spawnProducerProcess forked state) := by
  unfold SharedQueue.spawnProducerProcess
  split
  · exact reporting
  · split
    · refine ⟨reporting.totalAdded, reporting.totalExtracted,
        reporting.addedHonest, ?_, reporting.producers.join rfl,
        reporting.consumers⟩
      intro producer member
      rcases List.mem_append.mp member with old | new
      · exact reporting.producersHonest producer old
      · rw [List.mem_singleton.mp new]
        exact fun filled => absurd rfl filled
    · exact reporting.of_eq rfl rfl rfl rfl rfl

theorem spawnConsumerProcess
    {state : State}
    (reporting : Reporting state)
    (forked : Bool) :
    Reporting (spawnConsumerProcess forked state) := by
  unfold SharedQueue.spawnConsumerProcess
  split
  · exact reporting
  · split
    · exact ⟨reporting.totalAdded, reporting.totalExtracted,
        reporting.addedHonest, reporting.producersHonest, reporting.producers,
        reporting.consumers.join rfl⟩
    · exact reporting.of_eq rfl rfl rfl rfl rfl

theorem statusStep
    {state next : State}
    (reporting : Reporting state)
    (stepped : SharedQueue.statusStep state = some next) :
    Reporting next := by
  cases place : state.parent with
  | command | exited => simp [SharedQueue.statusStep, place] at stepped
  | statusWait =>
      simp only [SharedQueue.statusStep, place] at stepped
      split at stepped
      · cases stepped
      · cases stepped
        exact reporting.of_eq rfl rfl rfl rfl rfl
  | statusShow =>
      simp only [SharedQueue.statusStep, place] at stepped
      cases stepped
      exact reporting.of_eq rfl rfl rfl rfl rfl

theorem step
    {state next : State}
    {action : Action}
    (reporting : Reporting state)
    (stepped : SharedQueue.step state action = some next) :
    Reporting next := by
  cases action with
  | spawnProducer forked =>
      obtain ⟨-, rfl⟩ := atCommand_eq_some stepped
      exact reporting.spawnProducerProcess forked
  | spawnConsumer forked =>
      obtain ⟨-, rfl⟩ := atCommand_eq_some stepped
      exact reporting.spawnConsumerProcess forked
  | terminateLastProducer =>
      obtain ⟨-, rfl⟩ := atCommand_eq_some stepped
      unfold SharedQueue.terminateLastProducer
      split
      · exact reporting
      · apply Reporting.killProducer
        exact reporting.of_eq rfl rfl rfl rfl rfl
  | terminateLastConsumer =>
      obtain ⟨-, rfl⟩ := atCommand_eq_some stepped
      unfold SharedQueue.terminateLastConsumer
      split
      · exact reporting
      · apply Reporting.killConsumer
        exact reporting.of_eq rfl rfl rfl rfl rfl
  | displayCurrentStatus =>
      obtain ⟨-, rfl⟩ := atCommand_eq_some stepped
      exact reporting.of_eq rfl rfl rfl rfl rfl
  | status => exact reporting.statusStep stepped
  | producer index rand =>
      obtain ⟨producer, present, -, advanced⟩ := producerStep_eq_some stepped
      obtain ⟨new, reported⟩ := Producer.advance_reported advanced
      exact reporting.producerStep present reported
  | consumer index =>
      obtain ⟨consumer, present, -, advanced⟩ := consumerStep_eq_some stepped
      obtain ⟨new, reported⟩ := Consumer.advance_reported advanced
      exact reporting.consumerStep present reported
  | killProducer index =>
      cases stepped
      exact reporting.killProducer index
  | killConsumer index =>
      cases stepped
      exact reporting.killConsumer index

theorem of_reachable
    {state : State}
    (reachable : system.Reachable state) :
    Reporting state := by
  apply reachable.invariant
  · rintro _ rfl
    exact systemInit
  · intro _ _ _ reporting _ stepped
    exact reporting.step stepped

end Reporting

/-! ## What is printed -/

theorem Producer.reports_of_returned
    {producer : Producer}
    (returned : producer.pc.returned = true) :
    producer.reports = some
      (producer.currentMessagePayload, producer.messagesAddedLocalCount) :=
  if_pos returned

theorem Consumer.reports_of_returned
    {consumer : Consumer}
    (returned : consumer.pc.returned = true) :
    consumer.reports = some (consumer.retrievedMessagePayload,
      consumer.messagesExtractedLocalCount) :=
  if_pos returned

/-- The lines of the children are true: a printed count is the place of the
printed message among all messages added, no checksum mismatch is ever
reported, and while fewer than `2 ^ 64` messages were added no two children of
one kind print the same count. -/
structure PrintsPlaces (state : State) : Prop where
  producers : ∀ producer ∈ state.producers, producer.pc.returned = true →
    HasNumber UInt64.ofNat state.added producer.currentMessagePayload
      producer.messagesAddedLocalCount
  consumers : ∀ consumer ∈ state.consumers, consumer.pc.returned = true →
    HasNumber UInt64.ofNat state.added consumer.retrievedMessagePayload
      consumer.messagesExtractedLocalCount
  verified : ∀ consumer ∈ state.consumers, consumer.pc.returned = true →
    processAndVerifyMessage consumer.retrievedMessagePayload = true
  producersDiffer : state.added.length < 2 ^ 64 →
    ∀ (first second : Nat) (producer producer' : Producer),
      state.producers[first]? = some producer →
      state.producers[second]? = some producer' → first ≠ second →
      producer.pc.returned = true → producer'.pc.returned = true →
        producer.messagesAddedLocalCount ≠ producer'.messagesAddedLocalCount
  consumersDiffer : state.added.length < 2 ^ 64 →
    ∀ (first second : Nat) (consumer consumer' : Consumer),
      state.consumers[first]? = some consumer →
      state.consumers[second]? = some consumer' → first ≠ second →
      consumer.pc.returned = true → consumer'.pc.returned = true →
        consumer.messagesExtractedLocalCount ≠
          consumer'.messagesExtractedLocalCount

/-- In every reachable state the children that are about to print have the
true place of a message with the right checksum. -/
theorem reachable_printsPlaces
    (state : State)
    (reachable : system.Reachable state) :
    PrintsPlaces state := by
  have reporting := Reporting.of_reachable reachable
  obtain ⟨-, base, shape⟩ := invariant_of_reachable reachable
  -- What was extracted is what was added first.
  have history := shape.history
  have consumers : ∀ consumer ∈ state.consumers,
      consumer.pc.returned = true →
        HasNumber UInt64.ofNat state.added consumer.retrievedMessagePayload
          consumer.messagesExtractedLocalCount := by
    intro consumer member returned
    rw [history]
    exact (reporting.consumers.number consumer member _ _
      (Consumer.reports_of_returned returned)).append _
  refine ⟨?_, consumers, ?_, ?_, ?_⟩
  · intro producer member returned
    exact reporting.producers.number producer member _ _
      (Producer.reports_of_returned returned)
  · intro consumer member returned
    obtain ⟨place, found, -⟩ := consumers consumer member returned
    rw [processAndVerifyMessage_eq]
    exact beq_iff_eq.mpr
      (reporting.addedHonest _ (List.mem_of_getElem? found))
  · intro room first second producer producer' found found' different
      returned returned'
    exact reporting.producers.different room first second producer producer'
      _ _ _ _ found found' different
      (Producer.reports_of_returned returned)
      (Producer.reports_of_returned returned')
  · intro room first second consumer consumer' found found' different
      returned returned'
    have room : state.extracted.length < 2 ^ 64 := by
      have lengths := shape.added_length
      omega
    exact reporting.consumers.different room first second consumer consumer'
      _ _ _ _ found found' different
      (Consumer.reports_of_returned returned)
      (Consumer.reports_of_returned returned')

/-- A message of 65 bytes on its way through a producer and a consumer; the
producer is killed behind its addition. -/
def reportedSchedule : List Action :=
  [.spawnProducer true, .spawnConsumer true] ++
    List.replicate 11 (.producer 0 fun _ => 65) ++ [.killProducer 0] ++
    List.replicate 11 (.consumer 0)

theorem reportedSchedule_printsPlaces :
    ∃ state, system.run systemInit reportedSchedule = some state ∧
      (state.producers.map (·.pc.returned) = [true] ∧
        state.consumers.map (·.pc.returned) = [true]) ∧
      PrintsPlaces state := by
  have executed : ∃ state,
      system.run systemInit reportedSchedule = some state ∧
        state.producers.map (·.pc.returned) = [true] ∧
          state.consumers.map (·.pc.returned) = [true] :=
    ⟨_, rfl, rfl, rfl⟩
  obtain ⟨state, ran, places⟩ := executed
  exact ⟨state, ran, places,
    reachable_printsPlaces state (Machine.Reachable.run (.initial rfl) ran)⟩

end SharedQueue
end OSaSP
