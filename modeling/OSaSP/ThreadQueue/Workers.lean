import OSaSP.ThreadQueue.Crew
import OSaSP.ThreadQueue.SemMoves
import OSaSP.ThreadQueue.CondMoves

/-!
# What a worker does to the threads and the globals

Whatever a worker of either lab does to the queue, it changes no place but its
own and no flag but its own, and leaves the counts and the next ids alone.  A
law about these is proved here for both labs at once.
-/

namespace OSaSP
namespace ThreadQueue

/-- Whose turn it is. -/
inductive Turn
  | main (command : Command)
  | producer (index : Nat)
  | consumer (index : Nat)

/-- The turn an action of the semaphore lab takes. -/
def SemAction.turn : SemAction → Turn
  | .main command => .main command
  | .producer index _ _ => .producer index
  | .consumer index _ _ => .consumer index

/-- The turn an action of the condition-variable lab takes. -/
def CondAction.turn : CondAction → Turn
  | .main command => .main command
  | .producer index _ _ => .producer index
  | .consumer index _ _ => .consumer index

section Steps

variable {Queue ProducerPc ConsumerPc : Type}

/-- A step of a producer clears at most its own flag and may stop the lab. -/
structure ProducerStep
    (thread : Thread ProducerPc)
    (index : Nat)
    (state next : LabState Queue ProducerPc ConsumerPc) : Prop where
  producers : ∃ new, next.producers = state.producers.set index ⟨thread.id, new⟩
  consumers : next.consumers = state.consumers
  control : ∃ keepRunning,
    next.control = { state.control with keepRunning } ∨
      next.control = { state.control.stopProducer thread.id with keepRunning }

/-- A step of a consumer does the same on its side. -/
structure ConsumerStep
    (thread : Thread ConsumerPc)
    (index : Nat)
    (state next : LabState Queue ProducerPc ConsumerPc) : Prop where
  producers : next.producers = state.producers
  consumers : ∃ new, next.consumers = state.consumers.set index ⟨thread.id, new⟩
  control : ∃ keepRunning,
    next.control = { state.control with keepRunning } ∨
      next.control = { state.control.stopConsumer thread.id with keepRunning }

/-- A step of a lab, seen from its threads and globals. -/
inductive LabStep
    (lab : Lab Queue ProducerPc ConsumerPc)
    (state next : LabState Queue ProducerPc ConsumerPc) : Turn → Prop
  | main {command : Command} :
      lab.mainStep command state = some next →
      LabStep lab state next (.main command)
  | producer {index : Nat} {thread : Thread ProducerPc} :
      state.producers[index]? = some thread →
      ProducerStep thread index state next →
      LabStep lab state next (.producer index)
  | consumer {index : Nat} {thread : Thread ConsumerPc} :
      state.consumers[index]? = some thread →
      ConsumerStep thread index state next →
      LabStep lab state next (.consumer index)

variable {lab : Lab Queue ProducerPc ConsumerPc}
  {state next : LabState Queue ProducerPc ConsumerPc}

/-- A producer that goes to another place and does nothing to the globals. -/
theorem ProducerStep.goto
    {thread : Thread ProducerPc}
    {index : Nat}
    (new : ProducerPc)
    (producers : next.producers = state.producers.set index ⟨thread.id, new⟩)
    (consumers : next.consumers = state.consumers)
    (control : next.control = state.control) :
    ProducerStep thread index state next :=
  ⟨⟨new, producers⟩, consumers, state.control.keepRunning, .inl control⟩

/-- A consumer that goes to another place and does nothing to the globals. -/
theorem ConsumerStep.goto
    {thread : Thread ConsumerPc}
    {index : Nat}
    (new : ConsumerPc)
    (producers : next.producers = state.producers)
    (consumers : next.consumers = state.consumers.set index ⟨thread.id, new⟩)
    (control : next.control = state.control) :
    ConsumerStep thread index state next :=
  ⟨producers, ⟨new, consumers⟩, state.control.keepRunning, .inl control⟩

/-- Workers give no ids. -/
theorem ProducerStep.nextIds
    {thread : Thread ProducerPc}
    {index : Nat}
    (moved : ProducerStep thread index state next) :
    next.control.nextProducerId = state.control.nextProducerId ∧
      next.control.nextConsumerId = state.control.nextConsumerId := by
  obtain ⟨keepRunning, same | stopped⟩ := moved.control
  · rw [same]
    exact ⟨rfl, rfl⟩
  · rw [stopped]
    exact ⟨rfl, rfl⟩

theorem ConsumerStep.nextIds
    {thread : Thread ConsumerPc}
    {index : Nat}
    (moved : ConsumerStep thread index state next) :
    next.control.nextProducerId = state.control.nextProducerId ∧
      next.control.nextConsumerId = state.control.nextConsumerId := by
  obtain ⟨keepRunning, same | stopped⟩ := moved.control
  · rw [same]
    exact ⟨rfl, rfl⟩
  · rw [stopped]
    exact ⟨rfl, rfl⟩

theorem LabState.Crewed.producerStep
    {thread : Thread ProducerPc}
    {index : Nat}
    (crewed : state.Crewed)
    (present : state.producers[index]? = some thread)
    (moved : ProducerStep thread index state next) :
    next.Crewed := by
  obtain ⟨producerCrew, consumerCrew⟩ := crewed
  obtain ⟨⟨new, producers⟩, consumers, keepRunning, same | stopped⟩ := moved
  · constructor
    · rw [producers, same]
      exact producerCrew.move present new
    · rw [consumers, same]
      exact consumerCrew
  · constructor
    · rw [producers, stopped]
      exact (producerCrew.move present new).stop thread.id
    · rw [consumers, stopped]
      exact consumerCrew

theorem LabState.Crewed.consumerStep
    {thread : Thread ConsumerPc}
    {index : Nat}
    (crewed : state.Crewed)
    (present : state.consumers[index]? = some thread)
    (moved : ConsumerStep thread index state next) :
    next.Crewed := by
  obtain ⟨producerCrew, consumerCrew⟩ := crewed
  obtain ⟨producers, ⟨new, consumers⟩, keepRunning, same | stopped⟩ := moved
  · constructor
    · rw [producers, same]
      exact producerCrew
    · rw [consumers, same]
      exact consumerCrew.move present new
  · constructor
    · rw [producers, stopped]
      exact producerCrew
    · rw [consumers, stopped]
      exact (consumerCrew.move present new).stop thread.id

/-- Ids, flags and counts fit together after every step. -/
theorem LabState.Crewed.labStep
    {turn : Turn}
    (crewed : state.Crewed)
    (stepped : LabStep lab state next turn) :
    next.Crewed := by
  cases stepped with
  | main stepped => exact crewed.mainStep stepped
  | producer present moved => exact crewed.producerStep present moved
  | consumer present moved => exact crewed.consumerStep present moved

end Steps

/-! ## The semaphore lab -/

theorem semStep_labStep
    {state next : SemState}
    {action : SemAction}
    (stepped : semStep state action = some next) :
    LabStep semLab state next action.turn := by
  cases action with
  | main command => exact .main stepped
  | producer index wait created =>
      simp only [semStep, Option.bind_eq_some_iff] at stepped
      obtain ⟨thread, present, advanced⟩ := stepped
      obtain ⟨new, producers, consumers, control, -⟩ :=
        advanceProducerSem_move advanced
      refine .producer present ⟨⟨new, producers⟩, consumers, ?_⟩
      exact ⟨state.control.keepRunning, control⟩
  | consumer index wait allocation =>
      simp only [semStep, Option.bind_eq_some_iff] at stepped
      obtain ⟨thread, present, advanced⟩ := stepped
      obtain ⟨new, consumers, producers, control, -⟩ :=
        advanceConsumerSem_move advanced
      refine .consumer present ⟨producers, ⟨new, consumers⟩, ?_⟩
      exact ⟨state.control.keepRunning, control⟩

/-! ## The condition-variable lab -/

section CondWorkers

variable {state next : CondState} {index : Nat} {created : Bool}
  {wake : WakeOutcome} {allocation : Option (Nat → MessagePtr)}

theorem produceCond_step (thread : Thread ProducerCondPc) :
    ProducerStep thread index state
      (produceCond thread index created state) := by
  unfold produceCond
  split
  · exact .goto .leaving rfl rfl rfl
  · split
    · exact .goto .loopTest rfl rfl rfl
    · split
      · exact .goto (.report _) rfl rfl rfl
      · exact .goto .loopTest rfl rfl rfl

theorem producerWaitTest_step (thread : Thread ProducerCondPc) :
    ProducerStep thread index state
      (producerWaitTest thread index created state) := by
  unfold producerWaitTest
  split
  · exact .goto .waiting rfl rfl rfl
  · exact produceCond_step thread

theorem advanceProducerCond_step
    {thread : Thread ProducerCondPc}
    (advanced : advanceProducerCond thread index wake created state =
      some next) :
    ProducerStep thread index state next := by
  cases place : thread.pc with
  | loopTest | report =>
      simp only [advanceProducerCond, place, Option.some.injEq] at advanced
      subst advanced
      exact .goto _ rfl rfl rfl
  | enter =>
      simp only [advanceProducerCond, place, Option.some.injEq] at advanced
      subst advanced
      exact producerWaitTest_step thread
  | waiting =>
      simp only [advanceProducerCond, place] at advanced
      cases wake with
      | woken =>
          cases advanced
          exact producerWaitTest_step thread
      | timedOut =>
          cases advanced
          exact produceCond_step thread
      | failed =>
          cases advanced
          rw [produceCond_failProducer]
          exact ⟨⟨.leaving, rfl⟩, rfl, false, .inr rfl⟩
  | leaving =>
      simp only [advanceProducerCond, place, Option.some.injEq] at advanced
      subst advanced
      exact ⟨⟨.finished, rfl⟩, rfl, state.control.keepRunning, .inr rfl⟩
  | finished => simp [advanceProducerCond, place] at advanced

theorem consumeCond_step (thread : Thread ConsumerCondPc) :
    ConsumerStep thread index state
      (consumeCond thread index allocation state) := by
  unfold consumeCond
  split
  · exact .goto .leaving rfl rfl rfl
  · split
    · exact .goto .loopTest rfl rfl rfl
    · dsimp only
      split
      · exact .goto (.report _) rfl rfl rfl
      · exact .goto (.report _) rfl rfl rfl

theorem consumerWaitTest_step (thread : Thread ConsumerCondPc) :
    ConsumerStep thread index state
      (consumerWaitTest thread index allocation state) := by
  unfold consumerWaitTest
  split
  · exact .goto .waiting rfl rfl rfl
  · exact consumeCond_step thread

theorem advanceConsumerCond_step
    {thread : Thread ConsumerCondPc}
    (advanced : advanceConsumerCond thread index wake allocation state =
      some next) :
    ConsumerStep thread index state next := by
  cases place : thread.pc with
  | loopTest | report | discard =>
      simp only [advanceConsumerCond, place, Option.some.injEq] at advanced
      subst advanced
      exact .goto _ rfl rfl rfl
  | enter =>
      simp only [advanceConsumerCond, place] at advanced
      split at advanced
      · cases advanced
        exact .goto .loopTest rfl rfl rfl
      · cases advanced
        exact consumerWaitTest_step thread
  | waiting =>
      simp only [advanceConsumerCond, place] at advanced
      cases wake with
      | woken =>
          cases advanced
          exact consumerWaitTest_step thread
      | timedOut =>
          cases advanced
          exact consumeCond_step thread
      | failed =>
          cases advanced
          rw [consumeCond_failConsumer]
          exact ⟨rfl, ⟨.leaving, rfl⟩, false, .inr rfl⟩
  | leaving =>
      simp only [advanceConsumerCond, place, Option.some.injEq] at advanced
      subst advanced
      exact ⟨rfl, ⟨.finished, rfl⟩, state.control.keepRunning, .inr rfl⟩
  | finished => simp [advanceConsumerCond, place] at advanced

end CondWorkers

theorem condStep_labStep
    {state next : CondState}
    {action : CondAction}
    (stepped : condStep state action = some next) :
    LabStep condLab state next action.turn := by
  cases action with
  | main command => exact .main stepped
  | producer index wake created =>
      simp only [condStep, Option.bind_eq_some_iff] at stepped
      obtain ⟨thread, present, advanced⟩ := stepped
      exact .producer present (advanceProducerCond_step advanced)
  | consumer index wake allocation =>
      simp only [condStep, Option.bind_eq_some_iff] at stepped
      obtain ⟨thread, present, advanced⟩ := stepped
      exact .consumer present (advanceConsumerCond_step advanced)

end ThreadQueue
end OSaSP
