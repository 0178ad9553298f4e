import OSaSP.ThreadQueue.QueueMoves
import OSaSP.ThreadQueue.SemThreads

/-!
# What one step of the semaphore lab can do

A thread of the semaphore lab carries tokens between its operations: a producer
holds a token of `empty_slots` from its wait to its insertion and owes one of
`filled_slots` from there to its post, and a consumer does the same the other
way round.  A step of a thread moves at most one token, inserts or extracts one
message, or serves a resize request.
-/

namespace OSaSP
namespace ThreadQueue

/-! ## Tokens in flight -/

/-- The tokens of `empty_slots` that a producer took and neither used nor gave
back. -/
def ProducerSemPc.heldEmpty : ProducerSemPc → Nat
  | .recheck | .giveBackStopped | .create | .giveBackFailed | .insert _
  | .giveBackFull _ => 1
  | _ => 0

/-- The tokens of `filled_slots` that a producer inserted for and did not post
yet. -/
def ProducerSemPc.owedFilled : ProducerSemPc → Nat
  | .postFilled _ => 1
  | _ => 0

/-- The tokens of `filled_slots` that a consumer took and neither used nor gave
back. -/
def ConsumerSemPc.heldFilled : ConsumerSemPc → Nat
  | .recheck | .giveBackStopped | .extract | .giveBack => 1
  | _ => 0

/-- The tokens of `empty_slots` that a consumer extracted for and did not post
yet. -/
def ConsumerSemPc.owedEmpty : ConsumerSemPc → Nat
  | .postEmpty _ => 1
  | _ => 0

/-! ## Producers -/

/-- A step of a producer from one place to another, with the queue and the
history it leaves behind. -/
inductive ProducerSemMove
    (state : SemState)
    (old new : ProducerSemPc) : CircularQueueSem → History → Prop
  | quiet :
      new.heldEmpty = old.heldEmpty →
      new.owedFilled = old.owedFilled →
      ProducerSemMove state old new state.queue state.history
  | takeEmpty :
      state.queue.emptySlots ≠ 0 →
      new.heldEmpty = old.heldEmpty + 1 →
      new.owedFilled = old.owedFilled →
      ProducerSemMove state old new
        { state.queue with emptySlots := state.queue.emptySlots - 1 }
        state.history
  | giveBackEmpty :
      old.heldEmpty = new.heldEmpty + 1 →
      new.owedFilled = old.owedFilled →
      ProducerSemMove state old new
        { state.queue with emptySlots := state.queue.emptySlots + 1 }
        state.history
  | insert (msg : MessagePtr) :
      old = .insert msg →
      state.queue.refusesMessage = false →
      old.heldEmpty = new.heldEmpty + 1 →
      new.owedFilled = old.owedFilled + 1 →
      ProducerSemMove state old new
        { state.queue with toCircularQueue := state.queue.insert msg }
        (state.history.record (.inserted msg)
          [⟨state.queue.tail, state.queue.capacity⟩])
  | postFilled :
      new.heldEmpty = old.heldEmpty →
      old.owedFilled = new.owedFilled + 1 →
      ProducerSemMove state old new
        { state.queue with filledSlots := state.queue.filledSlots + 1 }
        state.history

/-- Apart from its own place, a thread only ever changes the queue, the heap
and, when it stops, its own flag. -/
theorem advanceProducerSem_move
    {thread : Thread ProducerSemPc}
    {index : Nat}
    {wait : WaitOutcome}
    {created : Bool}
    {state next : SemState}
    (advanced : advanceProducerSem thread index wait created state =
      some next) :
    ∃ new,
      next.producers = state.producers.set index ⟨thread.id, new⟩ ∧
        next.consumers = state.consumers ∧
        (next.control = state.control ∨
          next.control = state.control.stopProducer thread.id) ∧
        ProducerSemMove state thread.pc new next.queue next.history := by
  cases place : thread.pc with
  | waitEmpty =>
      simp only [advanceProducerSem, place] at advanced
      cases wait with
      | acquired =>
          simp only at advanced
          split at advanced <;> cases advanced
          rename_i available
          exact ⟨.recheck, rfl, rfl, .inl rfl, .takeEmpty available rfl rfl⟩
      | timedOut =>
          cases advanced
          exact ⟨.timedOut, rfl, rfl, .inl rfl, .quiet rfl rfl⟩
      | failed =>
          cases advanced
          exact ⟨.leaving, rfl, rfl, .inr rfl, .quiet rfl rfl⟩
  | create =>
      simp only [advanceProducerSem, place] at advanced
      split at advanced <;> cases advanced
      · exact ⟨.insert _, rfl, rfl, .inl rfl, .quiet rfl rfl⟩
      · exact ⟨.giveBackFailed, rfl, rfl, .inl rfl, .quiet rfl rfl⟩
  | insert msg =>
      simp only [advanceProducerSem, place] at advanced
      split at advanced <;> cases advanced
      · exact ⟨.giveBackFull msg, rfl, rfl, .inl rfl, .quiet rfl rfl⟩
      · rename_i accepts
        rw [Bool.not_eq_true] at accepts
        exact ⟨.postFilled msg, rfl, rfl, .inl rfl,
          .insert msg rfl accepts rfl rfl⟩
  | loopTest | resizeTest | timedOut | recheck =>
      simp only [advanceProducerSem, place, Option.some.injEq] at advanced
      subst advanced
      refine ⟨_, rfl, rfl, .inl rfl, .quiet ?_ ?_⟩ <;> split <;> rfl
  | giveBackStopped | giveBackFailed | giveBackFull =>
      simp only [advanceProducerSem, place, Option.some.injEq] at advanced
      subst advanced
      exact ⟨_, rfl, rfl, .inl rfl, .giveBackEmpty rfl rfl⟩
  | postFilled msg =>
      simp only [advanceProducerSem, place, Option.some.injEq] at advanced
      subst advanced
      exact ⟨_, rfl, rfl, .inl rfl, .postFilled rfl rfl⟩
  | discard | report =>
      simp only [advanceProducerSem, place, Option.some.injEq] at advanced
      subst advanced
      exact ⟨_, rfl, rfl, .inl rfl, .quiet rfl rfl⟩
  | leaving =>
      simp only [advanceProducerSem, place, Option.some.injEq] at advanced
      subst advanced
      exact ⟨_, rfl, rfl, .inr rfl, .quiet rfl rfl⟩
  | finished => simp [advanceProducerSem, place] at advanced

/-! ## Consumers -/

/-- Whether a consumer serves a request at its place. -/
def CircularQueueSem.servesAt (queue : CircularQueueSem) : ConsumerSemPc → Bool
  | .resize => decide (queue.resizeRequest ≠ .none)
  | .extract => queue.servesFirst
  | _ => false

/-- A step of a consumer from one place to another, with the queue and the
history it leaves behind. -/
inductive ConsumerSemMove
    (state : SemState)
    (allocation : Option (Nat → MessagePtr))
    (old new : ConsumerSemPc) : CircularQueueSem → History → Prop
  | quiet :
      state.queue.servesAt old = false →
      new.heldFilled = old.heldFilled →
      new.owedEmpty = old.owedEmpty →
      ConsumerSemMove state allocation old new state.queue state.history
  | takeFilled :
      state.queue.servesAt old = false →
      state.queue.filledSlots ≠ 0 →
      new.heldFilled = old.heldFilled + 1 →
      new.owedEmpty = old.owedEmpty →
      ConsumerSemMove state allocation old new
        { state.queue with filledSlots := state.queue.filledSlots - 1 }
        state.history
  | giveBackFilled :
      state.queue.servesAt old = false →
      old.heldFilled = new.heldFilled + 1 →
      new.owedEmpty = old.owedEmpty →
      ConsumerSemMove state allocation old new
        { state.queue with filledSlots := state.queue.filledSlots + 1 }
        state.history
  | serve :
      state.queue.servesAt old = true →
      new.heldFilled = old.heldFilled →
      new.owedEmpty = old.owedEmpty →
      ConsumerSemMove state allocation old new
        (state.serveRequest allocation).queue
        (state.serveRequest allocation).history
  | extract :
      state.queue.servesAt old = false →
      state.queue.count ≠ 0 →
      old.heldFilled = new.heldFilled + 1 →
      new.owedEmpty = old.owedEmpty + 1 →
      ConsumerSemMove state allocation old new
        state.extract.queue state.extract.history
  | postEmpty :
      state.queue.servesAt old = false →
      new.heldFilled = old.heldFilled →
      old.owedEmpty = new.owedEmpty + 1 →
      ConsumerSemMove state allocation old new
        { state.queue with emptySlots := state.queue.emptySlots + 1 }
        state.history

theorem CircularQueueSem.servable_of_servesFirst
    {queue : CircularQueueSem}
    (serves : queue.servesFirst = true) :
    queue.resizeRequest ≠ .none ∧ queue.toCircularQueue.Servable := by
  constructor
  · intro noRequest
    simp [servesFirst, noRequest] at serves
  · intro decreases
    simpa [servesFirst, decreases] using serves

/-- Where a request is served it is pending, and it fits the fill level except
at the top of the loop. -/
theorem CircularQueueSem.pending_of_servesAt
    {queue : CircularQueueSem}
    {pc : ConsumerSemPc}
    (serves : queue.servesAt pc = true) :
    queue.resizeRequest ≠ .none ∧
      (pc = .resize ∨ queue.toCircularQueue.Servable) := by
  cases pc with
  | resize => exact ⟨of_decide_eq_true serves, .inl rfl⟩
  | extract =>
      obtain ⟨pending, servable⟩ := servable_of_servesFirst serves
      exact ⟨pending, .inr servable⟩
  | _ => cases serves

theorem advanceConsumerSem_move
    {thread : Thread ConsumerSemPc}
    {index : Nat}
    {wait : WaitOutcome}
    {allocation : Option (Nat → MessagePtr)}
    {state next : SemState}
    (advanced : advanceConsumerSem thread index wait allocation state =
      some next) :
    ∃ new,
      next.consumers = state.consumers.set index ⟨thread.id, new⟩ ∧
        next.producers = state.producers ∧
        (next.control = state.control ∨
          next.control = state.control.stopConsumer thread.id) ∧
        ConsumerSemMove state allocation thread.pc new next.queue
          next.history := by
  cases place : thread.pc with
  | resize =>
      simp only [advanceConsumerSem, place] at advanced
      split at advanced <;> cases advanced
      · rename_i noRequest
        exact ⟨.waitFilled, rfl, rfl, .inl rfl,
          .quiet (by simp [CircularQueueSem.servesAt, noRequest]) rfl rfl⟩
      · rename_i pending
        exact ⟨.loopTest, rfl, rfl, .inl rfl,
          .serve (decide_eq_true pending) rfl rfl⟩
  | waitFilled =>
      simp only [advanceConsumerSem, place] at advanced
      cases wait with
      | acquired =>
          simp only at advanced
          split at advanced <;> cases advanced
          rename_i available
          exact ⟨.recheck, rfl, rfl, .inl rfl,
            .takeFilled rfl available rfl rfl⟩
      | timedOut =>
          cases advanced
          exact ⟨.timedOut, rfl, rfl, .inl rfl, .quiet rfl rfl rfl⟩
      | failed =>
          cases advanced
          exact ⟨.leaving, rfl, rfl, .inr rfl, .quiet rfl rfl rfl⟩
  | extract =>
      simp only [advanceConsumerSem, place] at advanced
      split at advanced
      · rename_i serves
        cases advanced
        exact ⟨.giveBack, rfl, rfl, .inl rfl,
          .serve serves rfl rfl⟩
      · rename_i declines
        rw [Bool.not_eq_true] at declines
        split at advanced <;> cases advanced
        · exact ⟨.giveBack, rfl, rfl, .inl rfl, .quiet declines rfl rfl⟩
        · rename_i stored
          exact ⟨.postEmpty _, rfl, rfl, .inl rfl,
            .extract declines stored rfl rfl⟩
  | loopTest | timedOut | recheck =>
      simp only [advanceConsumerSem, place, Option.some.injEq] at advanced
      subst advanced
      refine ⟨_, rfl, rfl, .inl rfl, .quiet rfl ?_ ?_⟩ <;> split <;> rfl
  | giveBackStopped | giveBack =>
      simp only [advanceConsumerSem, place, Option.some.injEq] at advanced
      subst advanced
      exact ⟨_, rfl, rfl, .inl rfl, .giveBackFilled rfl rfl rfl⟩
  | postEmpty msg =>
      simp only [advanceConsumerSem, place, Option.some.injEq] at advanced
      subst advanced
      exact ⟨_, rfl, rfl, .inl rfl, .postEmpty rfl rfl rfl⟩
  | report | discard =>
      simp only [advanceConsumerSem, place, Option.some.injEq] at advanced
      subst advanced
      exact ⟨_, rfl, rfl, .inl rfl, .quiet rfl rfl rfl⟩
  | leaving =>
      simp only [advanceConsumerSem, place, Option.some.injEq] at advanced
      subst advanced
      exact ⟨_, rfl, rfl, .inr rfl, .quiet rfl rfl rfl⟩
  | finished => simp [advanceConsumerSem, place] at advanced

/-! ## The queue -/

/-- What an action of the lab allows.  A consumer serves a request at the top
of its loop whatever the fill level. -/
def SemState.occasion (state : SemState) : SemAction → Occasion
  | .main _ => ⟨False, fun _ => False, False⟩
  | .producer index _ _ =>
      ⟨∃ thread msg, state.producers[index]? = some thread ∧
        thread.pc = .insert msg, fun _ => False, False⟩
  | .consumer index _ allocation =>
      ⟨False,
        fun queue =>
          (∃ thread, state.consumers[index]? = some thread ∧
            thread.pc = .resize) ∨ queue.Servable,
        allocation ≠ none⟩

theorem CircularQueueSem.accepts_of_refusesMessage
    {queue : CircularQueueSem}
    (accepts : queue.refusesMessage = false) :
    queue.count < queue.capacity ∧ queue.resizeRequest = .none := by
  simpa [refusesMessage] using accepts

theorem SemState.serveRequest_move
    (state : SemState)
    (allocation : Option (Nat → MessagePtr)) :
    ServeMove (allocation ≠ none) state.queue.toCircularQueue state.history
      (state.serveRequest allocation).queue.toCircularQueue
      (state.serveRequest allocation).history := by
  unfold SemState.serveRequest resizeQueueInternalSem
  cases refused : state.queue.refuses state.queue.newCapacityRequest with
  | true => exact .declined (.inl refused)
  | false =>
      cases allocation with
      | none => exact .declined (.inr (by simp))
      | some block => exact .resized block refused

theorem requestResizeSem_move
    (occasion : Occasion)
    (op : ResizeOp)
    (queue : CircularQueueSem)
    (history : History) :
    QueueMove occasion queue.toCircularQueue history
      (requestResizeSem op queue).toCircularQueue history := by
  unfold requestResizeSem
  split
  · rename_i noRequest
    exact .requested op noRequest
  · exact .kept

/-- Every action of the lab is a move of its queue. -/
theorem semStep_queueMove
    {state next : SemState}
    {action : SemAction}
    (stepped : semStep state action = some next) :
    QueueMove (state.occasion action) state.queue.toCircularQueue
      state.history next.queue.toCircularQueue next.history := by
  cases action with
  | main command =>
      have moved := Lab.mainStep_move stepped
      rw [moved.history]
      have queue := moved.queue
      split at queue
      · rw [queue]
        exact .kept
      · rw [queue]
        exact .kept
      · rcases queue with same | ⟨op, requested⟩
        · rw [same]
          exact .kept
        · rw [requested]
          exact requestResizeSem_move _ op _ _
  | producer index wait created =>
      simp only [semStep, Option.bind_eq_some_iff] at stepped
      obtain ⟨thread, present, advanced⟩ := stepped
      obtain ⟨_, -, -, -, moved⟩ := advanceProducerSem_move advanced
      generalize next.queue = queue at moved ⊢
      generalize next.history = history at moved ⊢
      cases moved with
      | quiet | takeEmpty | giveBackEmpty | postFilled => exact .kept
      | insert msg place accepts =>
          obtain ⟨room, noRequest⟩ :=
            CircularQueueSem.accepts_of_refusesMessage accepts
          exact .inserted msg ⟨thread, msg, present, place⟩ noRequest
            (Nat.ne_of_lt room)
  | consumer index wait allocation =>
      simp only [semStep, Option.bind_eq_some_iff] at stepped
      obtain ⟨thread, present, advanced⟩ := stepped
      obtain ⟨_, -, -, -, moved⟩ := advanceConsumerSem_move advanced
      generalize next.queue = queue at moved ⊢
      generalize next.history = history at moved ⊢
      cases moved with
      | quiet | takeFilled | giveBackFilled | postEmpty => exact .kept
      | serve serves =>
          obtain ⟨pending, place⟩ :=
            CircularQueueSem.pending_of_servesAt serves
          refine .served pending ?_ (state.serveRequest_move allocation)
          exact place.imp_left fun top => ⟨thread, present, top⟩
      | extract _ stored => exact .extracted stored

end ThreadQueue
end OSaSP
