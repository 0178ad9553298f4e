import OSaSP.Foundations.Progress
import OSaSP.SharedQueue.Termination

/-!
# What the statements of the children are paid with

A round of a producer costs a token of `EMPTY_SLOTS_SEM`, and only a round of
a consumer gives one back.  So the slots, the messages extracted and the
children forked bound the statements that the children execute in a run,
whatever the parent spawns, stops and shows in between.
-/

namespace OSaSP
namespace SharedQueue

/-- Whether an action is a statement of a child. -/
def Action.isStatement : Action → Bool
  | .producer .. | .consumer _ => true
  | _ => false

/-- The number of children ever forked. -/
def State.children (state : State) : Nat :=
  state.producers.length + state.consumers.length

/-! ## Work that live children have before them -/

theorem Consumer.live_of_alive
    {consumer : Consumer}
    (alive : consumer.alive = true)
    (weight : ConsumerPc → Nat) :
    consumer.live weight = weight consumer.pc := by
  rw [Consumer.live, if_pos alive]

section Work

variable (producing : ProducerPc → Nat) (consuming : ConsumerPc → Nat)

/-- A weight of the places, added up over the live children. -/
def State.work (state : State) : Nat :=
  Pool.total (Producer.live producing) state.producers +
    Pool.total (Consumer.live consuming) state.consumers

/-- The weight with which children start, added up over all ever forked. -/
def State.forked (state : State) : Nat :=
  producing .generate * state.producers.length +
    consuming .clear * state.consumers.length

theorem State.moveProducer_work
    {state next : State}
    {index : Nat}
    {old new : Producer}
    (present : state.producers[index]? = some old)
    (producers : next.producers = state.producers.set index new)
    (consumers : next.consumers = state.consumers) :
    next.work producing consuming + old.live producing =
        state.work producing consuming + new.live producing ∧
      next.forked producing consuming = state.forked producing consuming := by
  have moved := Pool.total_set (Producer.live producing) present new
  unfold State.work State.forked
  rw [producers, consumers, List.length_set]
  exact ⟨by omega, rfl⟩

theorem State.moveConsumer_work
    {state next : State}
    {index : Nat}
    {old new : Consumer}
    (present : state.consumers[index]? = some old)
    (consumers : next.consumers = state.consumers.set index new)
    (producers : next.producers = state.producers) :
    next.work producing consuming + old.live consuming =
        state.work producing consuming + new.live consuming ∧
      next.forked producing consuming = state.forked producing consuming := by
  have moved := Pool.total_set (Consumer.live consuming) present new
  unfold State.work State.forked
  rw [producers, consumers, List.length_set]
  exact ⟨by omega, rfl⟩

theorem State.setProducer_work
    {state : State}
    {index : Nat}
    {old : Producer}
    (present : state.producers[index]? = some old)
    (new : Producer) :
    (state.setProducer index new).work producing consuming +
        old.live producing =
      state.work producing consuming + new.live producing ∧
      (state.setProducer index new).forked producing consuming =
        state.forked producing consuming :=
  State.moveProducer_work producing consuming present rfl rfl

theorem State.setConsumer_work
    {state : State}
    {index : Nat}
    {old : Consumer}
    (present : state.consumers[index]? = some old)
    (new : Consumer) :
    (state.setConsumer index new).work producing consuming +
        old.live consuming =
      state.work producing consuming + new.live consuming ∧
      (state.setConsumer index new).forked producing consuming =
        state.forked producing consuming :=
  State.moveConsumer_work producing consuming present rfl rfl

end Work

/-! ## Steps that are no statements -/

/-- The queue and what went through it are the same. -/
structure SameQueue (state next : State) : Prop where
  queue : next.queue = state.queue
  added : next.added = state.added
  extracted : next.extracted = state.extracted

theorem SameQueue.trans
    {first second third : State}
    (before : SameQueue first second)
    (after : SameQueue second third) :
    SameQueue first third where
  queue := after.queue.trans before.queue
  added := after.added.trans before.added
  extracted := after.extracted.trans before.extracted

/-- What a step does that is no statement of a child: it leaves the queue and
the slots alone, the mutex only changes hands with the parent, which waits for
it before it shows the status, and a live child afterwards was there before or
has just been forked. -/
structure Besides (state next : State) : Prop where
  queue : SameQueue state next
  emptySlots : next.emptySlots = state.emptySlots
  mutex : next.queueMutex + next.parent.inCritical =
    state.queueMutex + state.parent.inCritical
  parent : state.queueMutex = 0 → state.parent = .statusWait →
    next.parent = .statusWait
  producers : ∀ producer ∈ next.producers, producer.alive = true →
    producer ∈ state.producers ∨ producer = .spawned
  consumers : ∀ consumer ∈ next.consumers, consumer.alive = true →
    consumer ∈ state.consumers ∨ consumer = .spawned
  work : ∀ (producing : ProducerPc → Nat) (consuming : ConsumerPc → Nat),
    next.work producing consuming + state.forked producing consuming ≤
      state.work producing consuming + next.forked producing consuming

theorem Besides.of_eq
    {state next : State}
    (queue : SameQueue state next)
    (emptySlots : next.emptySlots = state.emptySlots)
    (mutex : next.queueMutex + next.parent.inCritical =
      state.queueMutex + state.parent.inCritical)
    (parent : state.queueMutex = 0 → state.parent = .statusWait →
      next.parent = .statusWait)
    (producers : next.producers = state.producers)
    (consumers : next.consumers = state.consumers) :
    Besides state next where
  queue := queue
  emptySlots := emptySlots
  mutex := mutex
  parent := parent
  producers producer member _ := by
    rw [producers] at member
    exact .inl member
  consumers consumer member _ := by
    rw [consumers] at member
    exact .inl member
  work producing consuming := by
    unfold State.work State.forked
    rw [producers, consumers]

theorem Besides.killProducer
    {state next : State}
    (besides : Besides state next)
    (index : Nat) :
    Besides state (killProducer index next) := by
  unfold SharedQueue.killProducer
  split
  · exact besides
  · rename_i killed present
    refine ⟨⟨besides.queue.queue, besides.queue.added,
      besides.queue.extracted⟩, besides.emptySlots, besides.mutex,
      besides.parent, ?_, besides.consumers, ?_⟩
    · intro producer member alive
      rcases List.mem_or_eq_of_mem_set member with old | rfl
      · exact besides.producers producer old alive
      · cases alive
    · intro producing consuming
      obtain ⟨work, forked⟩ := State.setProducer_work producing consuming
        present { killed with alive := false }
      have stopped : Producer.live producing
          { killed with alive := false } = 0 := rfl
      have before := besides.work producing consuming
      omega

theorem Besides.killConsumer
    {state next : State}
    (besides : Besides state next)
    (index : Nat) :
    Besides state (killConsumer index next) := by
  unfold SharedQueue.killConsumer
  split
  · exact besides
  · rename_i killed present
    refine ⟨⟨besides.queue.queue, besides.queue.added,
      besides.queue.extracted⟩, besides.emptySlots, besides.mutex,
      besides.parent, besides.producers, ?_, ?_⟩
    · intro consumer member alive
      rcases List.mem_or_eq_of_mem_set member with old | rfl
      · exact besides.consumers consumer old alive
      · cases alive
    · intro producing consuming
      obtain ⟨work, forked⟩ := State.setConsumer_work producing consuming
        present { killed with alive := false }
      have stopped : Consumer.live consuming
          { killed with alive := false } = 0 := rfl
      have before := besides.work producing consuming
      omega

theorem Besides.spawnProducerProcess
    {state : State}
    (ready : state.parent = .command)
    (forked : Bool) :
    Besides state (spawnProducerProcess forked state) := by
  unfold SharedQueue.spawnProducerProcess
  split
  · exact .of_eq ⟨rfl, rfl, rfl⟩ rfl rfl (fun _ => id) rfl rfl
  · split
    · refine ⟨⟨rfl, rfl, rfl⟩, rfl, rfl, fun _ => id, ?_,
        fun consumer member _ => .inl member, fun producing consuming => ?_⟩
      · intro producer member _
        rcases List.mem_append.mp member with old | new
        · exact .inl old
        · exact .inr (List.mem_singleton.mp new)
      · simp only [State.work, State.forked, Pool.total_append,
          Pool.total_cons, Pool.total_nil, List.length_append,
          List.length_singleton, Producer.spawned, Producer.live, if_true,
          Nat.mul_add]
        omega
    · exact .of_eq ⟨rfl, rfl, rfl⟩ rfl
        (by simp [ready, ParentPc.inCritical]) (by simp [ready]) rfl rfl

theorem Besides.spawnConsumerProcess
    {state : State}
    (ready : state.parent = .command)
    (forked : Bool) :
    Besides state (spawnConsumerProcess forked state) := by
  unfold SharedQueue.spawnConsumerProcess
  split
  · exact .of_eq ⟨rfl, rfl, rfl⟩ rfl rfl (fun _ => id) rfl rfl
  · split
    · refine ⟨⟨rfl, rfl, rfl⟩, rfl, rfl, fun _ => id,
        fun producer member _ => .inl member, ?_,
        fun producing consuming => ?_⟩
      · intro consumer member _
        rcases List.mem_append.mp member with old | new
        · exact .inl old
        · exact .inr (List.mem_singleton.mp new)
      · simp only [State.work, State.forked, Pool.total_append,
          Pool.total_cons, Pool.total_nil, List.length_append,
          List.length_singleton, Consumer.spawned, Consumer.live, if_true,
          Nat.mul_add]
        omega
    · exact .of_eq ⟨rfl, rfl, rfl⟩ rfl
        (by simp [ready, ParentPc.inCritical]) (by simp [ready]) rfl rfl

theorem Besides.statusStep
    {state next : State}
    (stepped : statusStep state = some next) :
    Besides state next := by
  cases place : state.parent with
  | command | exited =>
      simp [SharedQueue.statusStep, place] at stepped
  | statusWait =>
      simp only [SharedQueue.statusStep, place] at stepped
      split at stepped
      · cases stepped
      · rename_i free
        cases stepped
        refine .of_eq ⟨rfl, rfl, rfl⟩ rfl ?_
          (fun taken => absurd taken free) rfl rfl
        simp only [place, ParentPc.inCritical]
        omega
  | statusShow =>
      simp only [SharedQueue.statusStep, place] at stepped
      cases stepped
      refine .of_eq ⟨rfl, rfl, rfl⟩ rfl ?_ (by simp [place]) rfl rfl
      simp only [place, ParentPc.inCritical]

/-- Every step is a statement of a live child or none at all. -/
theorem step_cases
    {state next : State}
    {action : Action}
    (stepped : step state action = some next) :
    (∃ index rand producer, action = .producer index rand ∧
      state.producers[index]? = some producer ∧ producer.alive = true ∧
        producer.advance index rand state = some next) ∨
    (∃ index consumer, action = .consumer index ∧
      state.consumers[index]? = some consumer ∧ consumer.alive = true ∧
        consumer.advance index state = some next) ∨
    action.isStatement = false ∧ Besides state next := by
  cases action with
  | producer index rand =>
      obtain ⟨producer, present, alive, advanced⟩ :=
        producerStep_eq_some stepped
      exact .inl ⟨index, rand, producer, rfl, present, alive, advanced⟩
  | consumer index =>
      obtain ⟨consumer, present, alive, advanced⟩ :=
        consumerStep_eq_some stepped
      exact .inr (.inl ⟨index, consumer, rfl, present, alive, advanced⟩)
  | spawnProducer forked =>
      obtain ⟨ready, rfl⟩ := atCommand_eq_some stepped
      exact .inr (.inr ⟨rfl, .spawnProducerProcess ready forked⟩)
  | spawnConsumer forked =>
      obtain ⟨ready, rfl⟩ := atCommand_eq_some stepped
      exact .inr (.inr ⟨rfl, .spawnConsumerProcess ready forked⟩)
  | terminateLastProducer =>
      obtain ⟨-, rfl⟩ := atCommand_eq_some stepped
      refine .inr (.inr ⟨rfl, ?_⟩)
      unfold terminateLastProducer
      split
      · exact .of_eq ⟨rfl, rfl, rfl⟩ rfl rfl (fun _ => id) rfl rfl
      · apply Besides.killProducer
        exact .of_eq ⟨rfl, rfl, rfl⟩ rfl rfl (fun _ => id) rfl rfl
  | terminateLastConsumer =>
      obtain ⟨-, rfl⟩ := atCommand_eq_some stepped
      refine .inr (.inr ⟨rfl, ?_⟩)
      unfold terminateLastConsumer
      split
      · exact .of_eq ⟨rfl, rfl, rfl⟩ rfl rfl (fun _ => id) rfl rfl
      · apply Besides.killConsumer
        exact .of_eq ⟨rfl, rfl, rfl⟩ rfl rfl (fun _ => id) rfl rfl
  | displayCurrentStatus =>
      obtain ⟨ready, rfl⟩ := atCommand_eq_some stepped
      refine .inr (.inr ⟨rfl, .of_eq ⟨rfl, rfl, rfl⟩ rfl ?_ (by simp)
        rfl rfl⟩)
      simp only [ready, ParentPc.inCritical]
  | status => exact .inr (.inr ⟨rfl, .statusStep stepped⟩)
  | killProducer index =>
      cases stepped
      refine .inr (.inr ⟨rfl, Besides.killProducer ?_ index⟩)
      exact .of_eq ⟨rfl, rfl, rfl⟩ rfl rfl (fun _ => id) rfl rfl
  | killConsumer index =>
      cases stepped
      refine .inr (.inr ⟨rfl, Besides.killConsumer ?_ index⟩)
      exact .of_eq ⟨rfl, rfl, rfl⟩ rfl rfl (fun _ => id) rfl rfl

/-! ## What a statement costs -/

/-- Statements from a place of an addition to its return. -/
def AddPoint.left : AddPoint → Nat
  | .checkFull => 6
  | .wrapHead => 5
  | .storeMessage => 4
  | .advanceHead => 3
  | .countMessage => 2
  | .countAdded => 1

/-- Statements from a place of an extraction to its return. -/
def GetPoint.left : GetPoint → Nat
  | .checkEmpty => 6
  | .wrapTail => 5
  | .loadMessage => 4
  | .advanceTail => 3
  | .countMessage => 2
  | .countExtracted => 1

theorem AddPoint.left_of_execute
    {queue after : QueueBuffer}
    {msg : MsgPayload}
    {point next : AddPoint}
    (executed : point.execute queue msg = (after, .next next)) :
    next.left + 1 = point.left := by
  cases point with
  | checkFull =>
      cases full : queue.isFull <;>
        simp only [AddPoint.execute, full] at executed <;> cases executed
      rfl
  | wrapHead | storeMessage | advanceHead | countMessage =>
      cases executed
      rfl
  | countAdded => cases executed

theorem GetPoint.left_of_execute
    {queue after : QueueBuffer}
    {msg loaded : MsgPayload}
    {point next : GetPoint}
    (executed : point.execute queue msg = (after, loaded, .next next)) :
    next.left + 1 = point.left := by
  cases point with
  | checkEmpty =>
      cases empty : queue.isEmpty <;>
        simp only [GetPoint.execute, empty] at executed <;> cases executed
      rfl
  | wrapTail | loadMessage | advanceTail | countMessage =>
      cases executed
      rfl
  | countExtracted => cases executed

/-- Statements from a place of a producer to its next wait on
`EMPTY_SLOTS_SEM`. -/
def ProducerPc.toEmptySlots : ProducerPc → Nat
  | .waitMutex => 11
  | .adding point => point.left + 4
  | .signalMutex => 4
  | .signalFilledSlots => 3
  | .report => 2
  | .generate => 1
  | .waitEmptySlots => 0

/-- Statements from a place of a consumer to its next extraction, together
with the round of a producer that the token it owes pays for. -/
def ConsumerPc.toExtraction : ConsumerPc → Nat
  | .signalMutex => 24
  | .signalEmptySlots => 23
  | .verify => 10
  | .clear => 9
  | .waitFilledSlots => 8
  | .waitMutex => 7
  | .getting point => point.left

/-- Statements that the live children and the free slots pay for. -/
def State.paidFor (state : State) : Nat :=
  12 * state.emptySlots +
    state.work ProducerPc.toEmptySlots ConsumerPc.toExtraction

/-- What the messages extracted and the children forked have paid for. -/
def State.credit (state : State) : Nat :=
  24 * state.extracted.length +
    state.forked ProducerPc.toEmptySlots ConsumerPc.toExtraction

/-- A producer's move is paid for when its change of place is. -/
theorem State.moveProducer_paid
    {state next : State}
    {index : Nat}
    {old new : Producer}
    (present : state.producers[index]? = some old)
    (producers : next.producers = state.producers.set index new)
    (consumers : next.consumers = state.consumers)
    (extracted : next.extracted = state.extracted)
    (pays : 12 * next.emptySlots + new.live ProducerPc.toEmptySlots + 1 ≤
      12 * state.emptySlots + old.live ProducerPc.toEmptySlots) :
    next.paidFor + state.credit + 1 ≤ state.paidFor + next.credit := by
  obtain ⟨work, forked⟩ := State.moveProducer_work ProducerPc.toEmptySlots
    ConsumerPc.toExtraction present producers consumers
  unfold State.paidFor State.credit
  rw [extracted]
  omega

/-- A consumer's move is paid for when its change of place is, or when the
message it extracted pays. -/
theorem State.moveConsumer_paid
    {state next : State}
    {index : Nat}
    {old new : Consumer}
    (present : state.consumers[index]? = some old)
    (consumers : next.consumers = state.consumers.set index new)
    (producers : next.producers = state.producers)
    (pays : 12 * next.emptySlots + new.live ConsumerPc.toExtraction +
        24 * state.extracted.length + 1 ≤
      12 * state.emptySlots + old.live ConsumerPc.toExtraction +
        24 * next.extracted.length) :
    next.paidFor + state.credit + 1 ≤ state.paidFor + next.credit := by
  obtain ⟨work, forked⟩ := State.moveConsumer_work ProducerPc.toEmptySlots
    ConsumerPc.toExtraction present consumers producers
  unfold State.paidFor State.credit
  omega

/-- Every statement of a producer is paid for. -/
theorem Producer.advance_paid
    {producer : Producer}
    {index : Nat}
    {rand : Nat → Nat}
    {state next : State}
    (alive : producer.alive = true)
    (present : state.producers[index]? = some producer)
    (advanced : producer.advance index rand state = some next) :
    next.paidFor + state.credit + 1 ≤ state.paidFor + next.credit := by
  cases place : producer.pc with
  | generate | signalMutex | signalFilledSlots | report =>
      simp only [Producer.advance, place, Option.some.injEq] at advanced
      subst advanced
      refine State.moveProducer_paid present rfl rfl rfl ?_
      simp only [State.setProducer, Producer.live, alive, place, if_true,
        ProducerPc.toEmptySlots, Nat.le_refl]
  | waitEmptySlots | waitMutex =>
      simp only [Producer.advance, place] at advanced
      split at advanced
      · cases advanced
      · rw [Option.some.injEq] at advanced
        subst advanced
        refine State.moveProducer_paid present rfl rfl rfl ?_
        simp only [State.setProducer, Producer.live, alive, place, if_true,
          ProducerPc.toEmptySlots, AddPoint.left]
        omega
  | adding point =>
      simp only [Producer.advance, place] at advanced
      rcases executed : point.execute state.queue
        producer.currentMessagePayload with ⟨after, progress⟩
      rw [executed] at advanced
      cases progress with
      | next point' =>
          simp only [Option.some.injEq] at advanced
          subst advanced
          have left := AddPoint.left_of_execute executed
          refine State.moveProducer_paid present rfl rfl rfl ?_
          simp only [State.setProducer, Producer.live, alive, place, if_true,
            ProducerPc.toEmptySlots]
          omega
      | returned =>
          simp only [Option.some.injEq] at advanced
          subst advanced
          obtain rfl := AddPoint.eq_countAdded_of_execute executed
          refine State.moveProducer_paid present rfl rfl rfl ?_
          simp only [State.setProducer, Producer.live, alive, place, if_true,
            ProducerPc.toEmptySlots, AddPoint.left, Nat.le_refl]
      | exited =>
          simp only [Option.some.injEq] at advanced
          subst advanced
          refine State.moveProducer_paid present rfl rfl rfl ?_
          simp only [State.setProducer, Producer.live, alive, place, if_true,
            Bool.false_eq_true, if_false, ProducerPc.toEmptySlots]
          omega

/-- Every statement of a consumer is paid for. -/
theorem Consumer.advance_paid
    {consumer : Consumer}
    {index : Nat}
    {state next : State}
    (alive : consumer.alive = true)
    (present : state.consumers[index]? = some consumer)
    (advanced : consumer.advance index state = some next) :
    next.paidFor + state.credit + 1 ≤ state.paidFor + next.credit := by
  cases place : consumer.pc with
  | clear | signalMutex | signalEmptySlots | verify =>
      simp only [Consumer.advance, place, Option.some.injEq] at advanced
      subst advanced
      refine State.moveConsumer_paid present rfl rfl ?_
      simp only [State.setConsumer, Consumer.live, alive, place, if_true,
        ConsumerPc.toExtraction]
      omega
  | waitFilledSlots | waitMutex =>
      simp only [Consumer.advance, place] at advanced
      split at advanced
      · cases advanced
      · rw [Option.some.injEq] at advanced
        subst advanced
        refine State.moveConsumer_paid present rfl rfl ?_
        simp only [State.setConsumer, Consumer.live, alive, place, if_true,
          ConsumerPc.toExtraction, GetPoint.left]
        omega
  | getting point =>
      simp only [Consumer.advance, place] at advanced
      rcases executed : point.execute state.queue
        consumer.retrievedMessagePayload with ⟨after, msg, progress⟩
      rw [executed] at advanced
      cases progress with
      | next point' =>
          simp only [Option.some.injEq] at advanced
          subst advanced
          have left := GetPoint.left_of_execute executed
          refine State.moveConsumer_paid present rfl rfl ?_
          simp only [State.setConsumer, Consumer.live, alive, place, if_true,
            ConsumerPc.toExtraction]
          omega
      | returned =>
          simp only [Option.some.injEq] at advanced
          subst advanced
          obtain ⟨rfl, -⟩ := GetPoint.eq_countExtracted_of_execute executed
          refine State.moveConsumer_paid present rfl rfl ?_
          simp only [State.setConsumer, Consumer.live, alive, place, if_true,
            ConsumerPc.toExtraction, GetPoint.left, List.length_append,
            List.length_singleton]
          omega
      | exited =>
          simp only [Option.some.injEq] at advanced
          subst advanced
          obtain ⟨rfl, -, -⟩ := GetPoint.eq_checkEmpty_of_execute executed
          refine State.moveConsumer_paid present rfl rfl ?_
          simp only [State.setConsumer, Consumer.live, alive, place, if_true,
            Bool.false_eq_true, if_false, ConsumerPc.toExtraction,
            GetPoint.left]
          omega

/-- Statements are paid for, and no other step costs anything. -/
theorem step_paid
    {state next : State}
    {action : Action}
    (stepped : step state action = some next) :
    next.paidFor + state.credit + (if action.isStatement then 1 else 0) ≤
      state.paidFor + next.credit := by
  rcases step_cases stepped with
    ⟨index, rand, producer, rfl, present, alive, advanced⟩ |
    ⟨index, consumer, rfl, present, alive, advanced⟩ | ⟨none, besides⟩
  · exact Producer.advance_paid alive present advanced
  · exact Consumer.advance_paid alive present advanced
  · have work := besides.work ProducerPc.toEmptySlots ConsumerPc.toExtraction
    unfold State.paidFor State.credit
    rw [none, besides.emptySlots, besides.queue.extracted]
    simp only [Bool.false_eq_true, if_false]
    omega

/-- The statements that the children execute in a run, whatever the parent
spawns, stops and shows in between, are bounded by the slots, the messages
extracted and the children forked. -/
theorem statements_le
    {actions : List Action}
    {final : State}
    (executed : system.run systemInit actions = some final) :
    actions.countP Action.isStatement ≤
      12 * bufferCapacity + 24 * final.extracted.length +
        final.producers.length + 9 * final.consumers.length := by
  have paid := Machine.countP_add_rank_le
    Action.isStatement State.paidFor State.credit
    (fun _ _ _ (_ : True) _ => trivial)
    (fun _ _ _ _ stepped => step_paid stepped) trivial executed
  have atFirst : systemInit.paidFor = 12 * bufferCapacity := rfl
  have lent : final.credit = 24 * final.extracted.length +
      (1 * final.producers.length + 9 * final.consumers.length) := rfl
  omega

/-- One round of a producer and one of a consumer, and a child stopped. -/
def oneRoundEach : List Action :=
  [.spawnProducer true, .spawnConsumer true] ++
    List.replicate 12 onlyProducer ++ List.replicate 12 (.consumer 0) ++
    [.terminateLastProducer]

theorem oneRoundEach_statements_le :
    ∃ final, system.run systemInit oneRoundEach = some final ∧
      final.extracted.length = 1 ∧
      oneRoundEach.countP Action.isStatement ≤ 12 * bufferCapacity + 34 := by
  have ran : ∃ final, system.run systemInit oneRoundEach = some final ∧
      final.extracted.length = 1 ∧ final.producers.length = 1 ∧
        final.consumers.length = 1 :=
    ⟨_, rfl, rfl, rfl, rfl⟩
  obtain ⟨final, ran, extracted, producers, consumers⟩ := ran
  have bounded := statements_le ran
  rw [extracted, producers, consumers] at bounded
  exact ⟨final, ran, extracted, bounded⟩

end SharedQueue
end OSaSP
