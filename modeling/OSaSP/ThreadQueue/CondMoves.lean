import OSaSP.ThreadQueue.QueueMoves
import OSaSP.ThreadQueue.CondThreads

/-!
# What one step of the condition-variable lab can do

Every critical section of the lab is a move of its queue and leaves
`resize_in_progress` unset.
-/

namespace OSaSP
namespace ThreadQueue

/-- A producer holds the mutex and does not wait on its condition variable
again. -/
def ProducerCondPc.proceeds (pc : ProducerCondPc) (wake : WakeOutcome) : Bool :=
  match pc with
  | .enter => true
  | .waiting => decide (wake ≠ .failed)
  | _ => false

/-- What an action of the lab allows. -/
def CondState.occasion (state : CondState) : CondAction → Occasion
  | .main _ => ⟨False, fun _ => False, False⟩
  | .producer index wake created =>
      ⟨∃ thread, state.producers[index]? = some thread ∧
        thread.pc.proceeds wake = true ∧
          state.control.producerRuns thread.id = true ∧
            state.queue.refusesMessage = false ∧ created = true,
        fun _ => False, False⟩
  | .consumer _ _ allocation =>
      ⟨False, CircularQueue.Servable, allocation ≠ none⟩

/-- A move of the queue that leaves no resize in progress. -/
structure CondMove
    (occasion : Occasion)
    (state next : CondState) : Prop where
  queue : QueueMove occasion state.queue.toCircularQueue state.history
    next.queue.toCircularQueue next.history
  settled : state.queue.resizeInProgress = false →
    next.queue.resizeInProgress = false

/-- A step that does not touch the queue. -/
theorem CondMove.kept
    {occasion : Occasion}
    {state next : CondState}
    (queue : next.queue = state.queue)
    (history : next.history = state.history) :
    CondMove occasion state next := by
  constructor
  · rw [queue, history]
    exact .kept
  · rw [queue]
    exact id

theorem CondState.serveRequest_move
    (state : CondState)
    (allocation : Option (Nat → MessagePtr)) :
    ServeMove (allocation ≠ none) state.queue.toCircularQueue state.history
      (state.serveRequest allocation).queue.toCircularQueue
      (state.serveRequest allocation).history := by
  unfold CondState.serveRequest resizeQueueInternalCond
  cases refused : state.queue.refuses state.queue.newCapacityRequest with
  | true => exact .declined (.inl refused)
  | false =>
      cases allocation with
      | none => exact .declined (.inr (by simp))
      | some block => exact .resized block refused

theorem CondState.serveRequest_settled
    {state : CondState}
    (settled : state.queue.resizeInProgress = false)
    (allocation : Option (Nat → MessagePtr)) :
    (state.serveRequest allocation).queue.resizeInProgress = false := by
  unfold CondState.serveRequest resizeQueueInternalCond
  cases state.queue.refuses state.queue.newCapacityRequest with
  | true => exact settled
  | false => cases allocation <;> rfl

theorem requestResizeCond_move
    (occasion : Occasion)
    (op : ResizeOp)
    (queue : CircularQueueCond)
    (history : History) :
    QueueMove occasion queue.toCircularQueue history
      (requestResizeCond op queue).toCircularQueue history := by
  unfold requestResizeCond
  split
  · rename_i free
    exact .requested op free.1
  · exact .kept

theorem requestResizeCond_resizeInProgress
    (op : ResizeOp)
    (queue : CircularQueueCond) :
    (requestResizeCond op queue).resizeInProgress =
      queue.resizeInProgress := by
  unfold requestResizeCond
  split <;> rfl

/-! ## Producers -/

theorem CircularQueueCond.accepts_of_refusesMessage
    {queue : CircularQueueCond}
    (accepts : queue.refusesMessage = false) :
    queue.count ≠ queue.capacity ∧ queue.resizeRequest = .none := by
  simp only [refusesMessage, Bool.or_eq_false_iff, decide_eq_false_iff_not,
    not_not] at accepts
  exact accepts.1

theorem produceCond_move
    {occasion : Occasion}
    {state : CondState}
    {thread : Thread ProducerCondPc}
    {index : Nat}
    {created : Bool}
    (inserts : state.control.producerRuns thread.id = true →
      state.queue.refusesMessage = false → created = true →
        occasion.inserts) :
    CondMove occasion state (produceCond thread index created state) := by
  unfold produceCond
  split
  · exact .kept rfl rfl
  · rename_i runs
    rw [Bool.not_eq_false] at runs
    split
    · exact .kept rfl rfl
    · rename_i accepts
      rw [Bool.not_eq_true] at accepts
      obtain ⟨notFull, noRequest⟩ :=
        CircularQueueCond.accepts_of_refusesMessage accepts
      split
      · rename_i isCreated
        exact ⟨.inserted _ (inserts runs accepts isCreated) noRequest notFull,
          id⟩
      · exact .kept rfl rfl

theorem producerWaitTest_move
    {occasion : Occasion}
    {state : CondState}
    {thread : Thread ProducerCondPc}
    {index : Nat}
    {created : Bool}
    (inserts : state.control.producerRuns thread.id = true →
      state.queue.refusesMessage = false → created = true →
        occasion.inserts) :
    CondMove occasion state (producerWaitTest thread index created state) := by
  unfold producerWaitTest
  split
  · exact .kept rfl rfl
  · exact produceCond_move inserts

/-- A producer whose wait failed stopped the lab itself and leaves. -/
theorem produceCond_failProducer
    (state : CondState)
    (thread : Thread ProducerCondPc)
    (index : Nat)
    (created : Bool) :
    produceCond thread index created (state.failProducer thread.id) =
      (state.failProducer thread.id).setProducer index thread.id
        .leaving := by
  simp [produceCond, CondState.failProducer, LabControl.producerRuns]

theorem advanceProducerCond_move
    {occasion : Occasion}
    {state next : CondState}
    {thread : Thread ProducerCondPc}
    {index : Nat}
    {wake : WakeOutcome}
    {created : Bool}
    (inserts : thread.pc.proceeds wake = true →
      state.control.producerRuns thread.id = true →
        state.queue.refusesMessage = false → created = true →
          occasion.inserts)
    (advanced : advanceProducerCond thread index wake created state =
      some next) :
    CondMove occasion state next := by
  cases place : thread.pc with
  | enter =>
      simp only [advanceProducerCond, place, Option.some.injEq] at advanced
      subst advanced
      exact producerWaitTest_move (inserts (by rw [place]; rfl))
  | waiting =>
      simp only [advanceProducerCond, place] at advanced
      cases wake with
      | woken =>
          cases advanced
          exact producerWaitTest_move (inserts (by rw [place]; rfl))
      | timedOut =>
          cases advanced
          exact produceCond_move (inserts (by rw [place]; rfl))
      | failed =>
          cases advanced
          rw [produceCond_failProducer]
          exact .kept rfl rfl
  | loopTest | report | leaving =>
      simp only [advanceProducerCond, place, Option.some.injEq] at advanced
      subst advanced
      exact .kept rfl rfl
  | finished => simp [advanceProducerCond, place] at advanced

/-! ## Consumers -/

theorem CircularQueueCond.servable_of_servesFirst
    {queue : CircularQueueCond}
    (serves : queue.servesFirst = true) :
    queue.resizeRequest ≠ .none ∧ queue.toCircularQueue.Servable := by
  cases request : queue.resizeRequest with
  | none => simp [servesFirst, request] at serves
  | increase =>
      refine ⟨by simp, fun decreases => ?_⟩
      simp [request] at decreases
  | decrease =>
      refine ⟨by simp, fun _ => ?_⟩
      simp only [servesFirst, request, Bool.and_eq_true, decide_eq_true_eq]
        at serves
      exact serves.2

theorem CircularQueueCond.servable_of_servesAfter
    {queue : CircularQueueCond}
    (serves : queue.servesAfter = true) :
    queue.resizeRequest = .decrease ∧ queue.toCircularQueue.Servable := by
  simp only [servesAfter, Bool.and_eq_true, decide_eq_true_eq] at serves
  exact ⟨serves.1.1, fun _ => serves.2⟩

section Consumers

variable {state next : CondState} {thread : Thread ConsumerCondPc}
  {index : Nat} {wake : WakeOutcome}
  {allocation : Option (Nat → MessagePtr)}

theorem consumeCond_move :
    CondMove (state.occasion (.consumer index wake allocation)) state
      (consumeCond thread index allocation state) := by
  unfold consumeCond
  split
  · exact .kept rfl rfl
  · split
    · exact .kept rfl rfl
    · rename_i stored
      dsimp only
      split
      · rename_i serves
        obtain ⟨decreases, servable⟩ :=
          CircularQueueCond.servable_of_servesAfter serves
        exact ⟨.extractedServed stored decreases servable
            (CondState.serveRequest_move state.extract allocation),
          fun settled => CondState.serveRequest_settled
            (show state.extract.queue.resizeInProgress = false from settled)
            allocation⟩
      · exact ⟨.extracted stored, id⟩

theorem consumerWaitTest_move :
    CondMove (state.occasion (.consumer index wake allocation)) state
      (consumerWaitTest thread index allocation state) := by
  unfold consumerWaitTest
  split
  · exact .kept rfl rfl
  · exact consumeCond_move

/-- A consumer whose wait failed stopped the lab itself and leaves. -/
theorem consumeCond_failConsumer :
    consumeCond thread index allocation (state.failConsumer thread.id) =
      (state.failConsumer thread.id).setConsumer index thread.id
        .leaving := by
  simp [consumeCond, CondState.failConsumer, LabControl.consumerRuns]

theorem advanceConsumerCond_move
    (advanced : advanceConsumerCond thread index wake allocation state =
      some next) :
    CondMove (state.occasion (.consumer index wake allocation)) state
      next := by
  cases place : thread.pc with
  | enter =>
      simp only [advanceConsumerCond, place] at advanced
      split at advanced
      · rename_i serves
        obtain ⟨pending, servable⟩ :=
          CircularQueueCond.servable_of_servesFirst serves
        cases advanced
        exact ⟨.served pending servable (state.serveRequest_move allocation),
          fun settled => CondState.serveRequest_settled settled allocation⟩
      · cases advanced
        exact consumerWaitTest_move
  | waiting =>
      simp only [advanceConsumerCond, place] at advanced
      cases wake with
      | woken =>
          cases advanced
          exact consumerWaitTest_move
      | timedOut =>
          cases advanced
          exact consumeCond_move
      | failed =>
          cases advanced
          rw [consumeCond_failConsumer]
          exact .kept rfl rfl
  | loopTest | report | discard | leaving =>
      simp only [advanceConsumerCond, place, Option.some.injEq] at advanced
      subst advanced
      exact .kept rfl rfl
  | finished => simp [advanceConsumerCond, place] at advanced

end Consumers

/-- Every action of the lab is a move of its queue. -/
theorem condStep_move
    {state next : CondState}
    {action : CondAction}
    (stepped : condStep state action = some next) :
    CondMove (state.occasion action) state next := by
  cases action with
  | main command =>
      have moved := Lab.mainStep_move stepped
      have queue := moved.queue
      split at queue
      · exact .kept queue moved.history
      · exact .kept queue moved.history
      · rcases queue with same | ⟨op, requested⟩
        · exact .kept same moved.history
        · constructor
          · rw [moved.history, requested]
            exact requestResizeCond_move _ op _ _
          · rw [requested]
            exact (requestResizeCond_resizeInProgress op state.queue).trans
  | producer index wake created =>
      simp only [condStep, Option.bind_eq_some_iff] at stepped
      obtain ⟨thread, present, advanced⟩ := stepped
      refine advanceProducerCond_move ?_ advanced
      exact fun proceeds runs accepts isCreated =>
        ⟨thread, present, proceeds, runs, accepts, isCreated⟩
  | consumer index wake allocation =>
      simp only [condStep, Option.bind_eq_some_iff] at stepped
      obtain ⟨thread, -, advanced⟩ := stepped
      exact advanceConsumerCond_move advanced

end ThreadQueue
end OSaSP
