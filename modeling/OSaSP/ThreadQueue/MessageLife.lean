import OSaSP.ThreadQueue.Hands

/-!
# The life of a message

A message is created by a producer, stored in the ring, extracted by a consumer
and destroyed by it.  The producer prints the size of its message after it
released the mutex, when the message may already be destroyed.  A consumer that
destroys a message only after its producer printed it makes this safe, as long
as the ring itself is first in, first out.
-/

namespace OSaSP
namespace ThreadQueue

open Lifetime

/-! ## The semaphore lab -/

theorem advanceProducerSem_hands
    {thread : Thread ProducerSemPc}
    {index : Nat}
    {wait : WaitOutcome}
    {created : Bool}
    {state next : SemState}
    (advanced : advanceProducerSem thread index wait created state =
      some next) :
    ∃ new,
      next.producers = state.producers.set index ⟨thread.id, new⟩ ∧
        next.consumers = state.consumers ∧
        ProducerHands semCarriers state.heap state.history thread.pc new
          next.heap next.history := by
  cases place : thread.pc with
  | waitEmpty =>
      simp only [advanceProducerSem, place] at advanced
      cases wait with
      | acquired =>
          simp only at advanced
          split at advanced <;> cases advanced
          exact ⟨.recheck, rfl, rfl, .quiet rfl rfl⟩
      | timedOut =>
          cases advanced
          exact ⟨.timedOut, rfl, rfl, .quiet rfl rfl⟩
      | failed =>
          cases advanced
          exact ⟨.leaving, rfl, rfl, .quiet rfl rfl⟩
  | create =>
      simp only [advanceProducerSem, place] at advanced
      split at advanced <;> cases advanced
      · exact ⟨.insert _, rfl, rfl, .create rfl rfl rfl rfl⟩
      · exact ⟨.giveBackFailed, rfl, rfl, .quiet rfl rfl⟩
  | insert msg =>
      simp only [advanceProducerSem, place] at advanced
      split at advanced <;> cases advanced
      · exact ⟨.giveBackFull msg, rfl, rfl, .quiet rfl rfl⟩
      · exact ⟨.postFilled msg, rfl, rfl, .insert msg _ rfl rfl rfl rfl⟩
  | discard msg =>
      simp only [advanceProducerSem, place, Option.some.injEq] at advanced
      subst advanced
      exact ⟨.loopTest, rfl, rfl, .discard msg rfl rfl rfl rfl⟩
  | report msg =>
      simp only [advanceProducerSem, place, Option.some.injEq] at advanced
      subst advanced
      exact ⟨.loopTest, rfl, rfl, .report msg rfl rfl rfl rfl⟩
  | loopTest | resizeTest | timedOut | recheck =>
      simp only [advanceProducerSem, place, Option.some.injEq] at advanced
      subst advanced
      refine ⟨_, rfl, rfl, .quiet ?_ ?_⟩ <;> split <;> rfl
  | giveBackStopped | giveBackFailed | giveBackFull | postFilled | leaving =>
      simp only [advanceProducerSem, place, Option.some.injEq] at advanced
      subst advanced
      exact ⟨_, rfl, rfl, .quiet rfl rfl⟩
  | finished => simp [advanceProducerSem, place] at advanced

theorem SemState.serveRequest_kept
    (state : SemState)
    (allocation : Option (Nat → MessagePtr)) :
    (state.serveRequest allocation).history.added = state.history.added ∧
      (state.serveRequest allocation).history.extracted =
        state.history.extracted :=
  (state.serveRequest_move allocation).kept

theorem advanceConsumerSem_hands
    {thread : Thread ConsumerSemPc}
    {index : Nat}
    {wait : WaitOutcome}
    {allocation : Option (Nat → MessagePtr)}
    {state next : SemState}
    (advanced : advanceConsumerSem thread index wait allocation state =
      some next) :
    ∃ new,
      next.consumers = state.consumers.set index ⟨thread.id, new⟩ ∧
        next.producers = state.producers ∧
        ConsumerHands semCarriers state.heap state.history thread.pc new
          next.heap next.history := by
  have served := SemState.serveRequest_kept state allocation
  cases place : thread.pc with
  | resize =>
      simp only [advanceConsumerSem, place] at advanced
      split at advanced <;> cases advanced
      · exact ⟨.waitFilled, rfl, rfl, .quiet rfl rfl rfl⟩
      · exact ⟨.loopTest, rfl, rfl, .quiet rfl served.1 served.2⟩
  | waitFilled =>
      simp only [advanceConsumerSem, place] at advanced
      cases wait with
      | acquired =>
          simp only at advanced
          split at advanced <;> cases advanced
          exact ⟨.recheck, rfl, rfl, .quiet rfl rfl rfl⟩
      | timedOut =>
          cases advanced
          exact ⟨.timedOut, rfl, rfl, .quiet rfl rfl rfl⟩
      | failed =>
          cases advanced
          exact ⟨.leaving, rfl, rfl, .quiet rfl rfl rfl⟩
  | extract =>
      simp only [advanceConsumerSem, place] at advanced
      split at advanced
      · cases advanced
        exact ⟨.giveBack, rfl, rfl, .quiet rfl served.1 served.2⟩
      · split at advanced <;> cases advanced
        · exact ⟨.giveBack, rfl, rfl, .quiet rfl rfl rfl⟩
        · exact ⟨.postEmpty _, rfl, rfl, .extract state.queue.front rfl rfl
            (History.added_extracted _ _ _)
            (History.extracted_extracted _ _ _)⟩
  | report msg =>
      simp only [advanceConsumerSem, place, Option.some.injEq] at advanced
      subst advanced
      exact ⟨.discard msg, rfl, rfl, .report msg rfl rfl⟩
  | discard msg =>
      simp only [advanceConsumerSem, place, Option.some.injEq] at advanced
      subst advanced
      exact ⟨.loopTest, rfl, rfl, .destroy msg rfl rfl rfl⟩
  | loopTest | timedOut | recheck =>
      simp only [advanceConsumerSem, place, Option.some.injEq] at advanced
      subst advanced
      refine ⟨_, rfl, rfl, .quiet ?_ rfl rfl⟩
      split <;> rfl
  | giveBackStopped | giveBack | postEmpty | leaving =>
      simp only [advanceConsumerSem, place, Option.some.injEq] at advanced
      subst advanced
      exact ⟨_, rfl, rfl, .quiet rfl rfl rfl⟩
  | finished => simp [advanceConsumerSem, place] at advanced

theorem semStep_handsStep
    {state next : SemState}
    {action : SemAction}
    (stepped : semStep state action = some next) :
    HandsStep semCarriers state next action.turn := by
  cases action with
  | main command =>
      exact .ofMain rfl rfl rfl (mainStep_heap stepped)
        (Lab.mainStep_move stepped)
  | producer index wait created =>
      simp only [semStep, Option.bind_eq_some_iff] at stepped
      obtain ⟨thread, present, advanced⟩ := stepped
      obtain ⟨new, producers, consumers, hands⟩ :=
        advanceProducerSem_hands advanced
      exact .producer present producers consumers hands
  | consumer index wait allocation =>
      simp only [semStep, Option.bind_eq_some_iff] at stepped
      obtain ⟨thread, present, advanced⟩ := stepped
      obtain ⟨new, consumers, producers, hands⟩ :=
        advanceConsumerSem_hands advanced
      exact .consumer present consumers producers hands

/-! ## The condition-variable lab -/

theorem CondState.serveRequest_kept
    (state : CondState)
    (allocation : Option (Nat → MessagePtr)) :
    (state.serveRequest allocation).history.added = state.history.added ∧
      (state.serveRequest allocation).history.extracted =
        state.history.extracted :=
  (state.serveRequest_move allocation).kept

section CondWorkers

variable {state next : CondState} {index : Nat} {created : Bool}
  {wake : WakeOutcome} {allocation : Option (Nat → MessagePtr)}

/-- A step of a producer from a place where it has no message in hand. -/
def CondState.ProducerHandsFrom
    (state next : CondState)
    (thread : Thread ProducerCondPc)
    (index : Nat) : Prop :=
  ∃ new,
    next.producers = state.producers.set index ⟨thread.id, new⟩ ∧
      next.consumers = state.consumers ∧
      ProducerHands condCarriers state.heap state.history thread.pc new
        next.heap next.history

theorem produceCond_hands
    {thread : Thread ProducerCondPc}
    (emptyHanded : condCarriers.noted thread.pc = none) :
    state.ProducerHandsFrom (produceCond thread index created state) thread
      index := by
  unfold produceCond
  split
  · exact ⟨.leaving, rfl, rfl, .quiet rfl emptyHanded.symm⟩
  · split
    · exact ⟨.loopTest, rfl, rfl, .quiet rfl emptyHanded.symm⟩
    · split
      · exact ⟨.report _, rfl, rfl, .createInsert _ rfl emptyHanded rfl rfl⟩
      · exact ⟨.loopTest, rfl, rfl, .quiet rfl emptyHanded.symm⟩

theorem producerWaitTest_hands
    {thread : Thread ProducerCondPc}
    (emptyHanded : condCarriers.noted thread.pc = none) :
    state.ProducerHandsFrom (producerWaitTest thread index created state)
      thread index := by
  unfold producerWaitTest
  split
  · exact ⟨.waiting, rfl, rfl, .quiet rfl emptyHanded.symm⟩
  · exact produceCond_hands emptyHanded

theorem advanceProducerCond_hands
    {thread : Thread ProducerCondPc}
    (advanced : advanceProducerCond thread index wake created state =
      some next) :
    state.ProducerHandsFrom next thread index := by
  cases place : thread.pc with
  | loopTest =>
      simp only [advanceProducerCond, place, Option.some.injEq] at advanced
      subst advanced
      refine ⟨_, rfl, rfl, .quiet rfl ?_⟩
      rw [place]
      split <;> rfl
  | enter =>
      simp only [advanceProducerCond, place, Option.some.injEq] at advanced
      subst advanced
      exact producerWaitTest_hands (by rw [place]; rfl)
  | waiting =>
      have emptyHanded : condCarriers.noted thread.pc = none := by
        rw [place]
        rfl
      simp only [advanceProducerCond, place] at advanced
      cases wake with
      | woken =>
          cases advanced
          exact producerWaitTest_hands emptyHanded
      | timedOut =>
          cases advanced
          exact produceCond_hands emptyHanded
      | failed =>
          cases advanced
          rw [produceCond_failProducer]
          exact ⟨.leaving, rfl, rfl, .quiet rfl emptyHanded.symm⟩
  | report msg =>
      simp only [advanceProducerCond, place, Option.some.injEq] at advanced
      subst advanced
      refine ⟨.loopTest, rfl, rfl, ?_⟩
      rw [place]
      exact .report msg rfl rfl rfl rfl
  | leaving =>
      simp only [advanceProducerCond, place, Option.some.injEq] at advanced
      subst advanced
      refine ⟨.finished, rfl, rfl, ?_⟩
      rw [place]
      exact .quiet rfl rfl
  | finished => simp [advanceProducerCond, place] at advanced

/-- A step of a consumer. -/
def CondState.ConsumerHandsFrom
    (state next : CondState)
    (thread : Thread ConsumerCondPc)
    (index : Nat) : Prop :=
  ∃ new,
    next.consumers = state.consumers.set index ⟨thread.id, new⟩ ∧
      next.producers = state.producers ∧
      ConsumerHands condCarriers state.heap state.history thread.pc new
        next.heap next.history

theorem consumeCond_hands
    {thread : Thread ConsumerCondPc}
    (emptyHanded : condCarriers.taken thread.pc = none) :
    state.ConsumerHandsFrom (consumeCond thread index allocation state)
      thread index := by
  unfold consumeCond
  split
  · exact ⟨.leaving, rfl, rfl, .quiet emptyHanded.symm rfl rfl⟩
  · split
    · exact ⟨.loopTest, rfl, rfl, .quiet emptyHanded.symm rfl rfl⟩
    · have served := CondState.serveRequest_kept state.extract allocation
      have added : state.extract.history.added = state.history.added :=
        History.added_extracted _ _ _
      have extracted : state.extract.history.extracted =
          state.history.extracted ++ [state.queue.front] :=
        History.extracted_extracted _ _ _
      dsimp only
      split
      · exact ⟨.report _, rfl, rfl, .extract state.queue.front emptyHanded rfl
          (served.1.trans added) (served.2.trans extracted)⟩
      · exact ⟨.report _, rfl, rfl, .extract state.queue.front emptyHanded rfl
          added extracted⟩

theorem consumerWaitTest_hands
    {thread : Thread ConsumerCondPc}
    (emptyHanded : condCarriers.taken thread.pc = none) :
    state.ConsumerHandsFrom (consumerWaitTest thread index allocation state)
      thread index := by
  unfold consumerWaitTest
  split
  · exact ⟨.waiting, rfl, rfl, .quiet emptyHanded.symm rfl rfl⟩
  · exact consumeCond_hands emptyHanded

theorem advanceConsumerCond_hands
    {thread : Thread ConsumerCondPc}
    (advanced : advanceConsumerCond thread index wake allocation state =
      some next) :
    state.ConsumerHandsFrom next thread index := by
  cases place : thread.pc with
  | loopTest =>
      simp only [advanceConsumerCond, place, Option.some.injEq] at advanced
      subst advanced
      refine ⟨_, rfl, rfl, .quiet ?_ rfl rfl⟩
      rw [place]
      split <;> rfl
  | enter =>
      have emptyHanded : condCarriers.taken thread.pc = none := by
        rw [place]
        rfl
      simp only [advanceConsumerCond, place] at advanced
      split at advanced
      · cases advanced
        have served := CondState.serveRequest_kept state allocation
        exact ⟨.loopTest, rfl, rfl,
          .quiet emptyHanded.symm served.1 served.2⟩
      · cases advanced
        exact consumerWaitTest_hands emptyHanded
  | waiting =>
      have emptyHanded : condCarriers.taken thread.pc = none := by
        rw [place]
        rfl
      simp only [advanceConsumerCond, place] at advanced
      cases wake with
      | woken =>
          cases advanced
          exact consumerWaitTest_hands emptyHanded
      | timedOut =>
          cases advanced
          exact consumeCond_hands emptyHanded
      | failed =>
          cases advanced
          rw [consumeCond_failConsumer]
          exact ⟨.leaving, rfl, rfl, .quiet emptyHanded.symm rfl rfl⟩
  | report msg =>
      simp only [advanceConsumerCond, place, Option.some.injEq] at advanced
      subst advanced
      refine ⟨.discard msg, rfl, rfl, ?_⟩
      rw [place]
      exact .report msg rfl rfl
  | discard msg =>
      simp only [advanceConsumerCond, place, Option.some.injEq] at advanced
      subst advanced
      refine ⟨.loopTest, rfl, rfl, ?_⟩
      rw [place]
      exact .destroy msg rfl rfl rfl
  | leaving =>
      simp only [advanceConsumerCond, place, Option.some.injEq] at advanced
      subst advanced
      refine ⟨.finished, rfl, rfl, ?_⟩
      rw [place]
      exact .quiet rfl rfl rfl
  | finished => simp [advanceConsumerCond, place] at advanced

end CondWorkers

theorem condStep_handsStep
    {state next : CondState}
    {action : CondAction}
    (stepped : condStep state action = some next) :
    HandsStep condCarriers state next action.turn := by
  cases action with
  | main command =>
      exact .ofMain rfl rfl rfl (mainStep_heap stepped)
        (Lab.mainStep_move stepped)
  | producer index wake created =>
      simp only [condStep, Option.bind_eq_some_iff] at stepped
      obtain ⟨thread, present, advanced⟩ := stepped
      obtain ⟨new, producers, consumers, hands⟩ :=
        advanceProducerCond_hands advanced
      exact .producer present producers consumers hands
  | consumer index wake allocation =>
      simp only [condStep, Option.bind_eq_some_iff] at stepped
      obtain ⟨thread, present, advanced⟩ := stepped
      obtain ⟨new, consumers, producers, hands⟩ :=
        advanceConsumerCond_hands advanced
      exact .consumer present consumers producers hands

/-- The producer is at its insertion. -/
def ProducerSemPc.inserts : ProducerSemPc → Bool
  | .insert _ => true
  | _ => false

theorem ProducerSemPc.inserts_iff {pc : ProducerSemPc} :
    pc.inserts = true ↔ ∃ msg, pc = .insert msg := by
  cases pc <;> simp [inserts]

instance (state : SemState) :
    ∀ action, Decidable (SemInsertsSafely state action)
  | .main _ | .consumer _ _ _ => isTrue trivial
  | .producer index _ _ =>
      have := Machine.decidableAfter (state.producers[index]?) fun thread =>
        thread.pc.inserts = true → state.queue.refusesMessage = false →
          state.history.landedExactly = false
      decidable_of_iff (∀ thread, state.producers[index]? = some thread →
          thread.pc.inserts = true → state.queue.refusesMessage = false →
            state.history.landedExactly = false)
        ⟨fun safely thread msg present place =>
            safely thread present (ProducerSemPc.inserts_iff.mpr ⟨msg, place⟩),
          fun safely thread present inserting =>
            have ⟨msg, place⟩ := ProducerSemPc.inserts_iff.mp inserting
            safely thread msg present place⟩

instance (state : CondState) :
    ∀ action, Decidable (CondInsertsSafely state action)
  | .main _ | .consumer _ _ _ => isTrue trivial
  | .producer index wake created =>
      Machine.decidableAfter (state.producers[index]?) fun thread =>
        thread.pc.proceeds wake = true →
          state.control.producerRuns thread.id = true →
            state.queue.refusesMessage = false → created = true →
              state.history.landedExactly = false

/-! ## Both labs -/

/-- Nothing is in hand before the first thread is created. -/
theorem start_alive
    {Queue ProducerPc ConsumerPc : Type}
    {carriers : Carriers ProducerPc ConsumerPc}
    {state : LabState Queue ProducerPc ConsumerPc}
    (size : Nat)
    (block : Nat → MessagePtr)
    (producers : state.producers = [])
    (consumers : state.consumers = [])
    (heap : state.heap = .empty) :
    state.Alive carriers (.init size block) := by
  constructor
  · unfold LabState.ledger
    rw [producers, consumers, heap]
    exact Ledger.empty_sound
  · intro read member
    rw [heap] at member
    cases member

/-- The ring and the messages of the semaphore lab. -/
structure SemAlive (state : SemState) : Prop where
  ring : SemInvariant state
  alive : state.Alive semCarriers state.queue.toCircularQueue

/-- The ring and the messages of the condition-variable lab. -/
structure CondAlive (state : CondState) : Prop where
  ring : CondInvariant state
  alive : state.Alive condCarriers state.queue.toCircularQueue

theorem SemAlive.step
    {state next : SemState}
    {action : SemAction}
    (living : SemAlive state)
    (inserts : SemInsertsSafely state action)
    (reports : state.ReportsFirst semCarriers action.turn)
    (stepped : semStep state action = some next) :
    SemAlive next := by
  have ring := living.ring.step inserts stepped
  refine ⟨ring, ?_⟩
  exact living.alive.step (RingInvariant.safe living.ring)
    (RingInvariant.safe ring) reports (semStep_handsStep stepped)

theorem CondAlive.step
    {state next : CondState}
    {action : CondAction}
    (living : CondAlive state)
    (inserts : CondInsertsSafely state action)
    (reports : state.ReportsFirst condCarriers action.turn)
    (stepped : condStep state action = some next) :
    CondAlive next := by
  have ring := living.ring.step inserts stepped
  refine ⟨ring, ?_⟩
  exact living.alive.step (RingInvariant.safe living.ring)
    (RingInvariant.safe ring) reports (condStep_handsStep stepped)

/-- In a run of either lab no thread reads a field of a destroyed message, if
every consumer destroys its message only after the producer reported it, and no
message is inserted after a resize that landed exactly on the count without
another resize in between. -/
theorem reads_alive
    (size : Nat)
    (positive : 0 < size)
    (block : Nat → MessagePtr) :
    (∀ actions,
      (semMachine size).EveryStep
          (fun state action => SemInsertsSafely state action ∧
            state.ReportsFirst semCarriers action.turn)
          (semStart size block) actions →
        (semMachine size).EveryState (fun state => state.heap.ReadsAlive)
          (semStart size block) actions) ∧
    (∀ actions,
      (condMachine size).EveryStep
          (fun state action => CondInsertsSafely state action ∧
            state.ReportsFirst condCarriers action.turn)
          (condStart size block) actions →
        (condMachine size).EveryState (fun state => state.heap.ReadsAlive)
          (condStart size block) actions) := by
  constructor
  · intro actions meets
    have starts : SemAlive (semStart size block) :=
      ⟨semInvariant_start positive block, start_alive size block rfl rfl rfl⟩
    have living : (semMachine size).EveryState SemAlive (semStart size block)
        actions :=
      Machine.everyState_of_everyStep
        (fun _ _ _ living both stepped => living.step both.1 both.2 stepped)
        starts meets
    exact living.imp fun _ living => living.alive.reads
  · intro actions meets
    have starts : CondAlive (condStart size block) :=
      ⟨condInvariant_start positive block, start_alive size block rfl rfl rfl⟩
    have living : (condMachine size).EveryState CondAlive
        (condStart size block) actions :=
      Machine.everyState_of_everyStep
        (fun _ _ _ living both stepped => living.step both.1 both.2 stepped)
        starts meets
    exact living.imp fun _ living => living.alive.reads

/-! ## A report that comes too late -/

/-- A producer inserts and posts a message, a consumer prints and destroys it,
and then the producer prints it. -/
def semLateReport : List SemAction :=
  let producer := SemAction.producer 0 .acquired true
  let consumer := SemAction.consumer 0 .acquired none
  [.main .idle, .main (.addProducer .created),
    .main .idle, .main (.addConsumer .created)] ++
  List.replicate 7 producer ++ List.replicate 8 consumer ++ [producer]

/-- The same on the condition-variable queue. -/
def condLateReport : List CondAction :=
  let producer := CondAction.producer 0 .woken true
  let consumer := CondAction.consumer 0 .woken none
  [.main .idle, .main (.addProducer .created),
    .main .idle, .main (.addConsumer .created)] ++
  List.replicate 2 producer ++ List.replicate 4 consumer ++ [producer]

/-- Neither lab reads living messages only in every run. -/
theorem not_every_read_alive :
    (¬∀ actions final,
      (semMachine initialQueueSize).run
          (semStart initialQueueSize fun _ => 0) actions = some final →
        final.heap.ReadsAlive) ∧
    (¬∀ actions final,
      (condMachine initialQueueSize).run
          (condStart initialQueueSize fun _ => 0) actions = some final →
        final.heap.ReadsAlive) := by
  constructor
  · intro every
    have alive := every semLateReport _ rfl ⟨0, true⟩ (.tail _ (.head _))
    cases alive
  · intro every
    have alive := every condLateReport _ rfl ⟨0, true⟩ (.tail _ (.head _))
    cases alive

/-- A producer inserts, posts and prints a message before a consumer takes,
prints and destroys it. -/
def semReportsFirst : List SemAction :=
  let producer := SemAction.producer 0 .acquired true
  let consumer := SemAction.consumer 0 .acquired none
  [.main .idle, .main (.addProducer .created),
    .main .idle, .main (.addConsumer .created)] ++
  List.replicate 8 producer ++ List.replicate 8 consumer

/-- The same on the condition-variable queue. -/
def condReportsFirst : List CondAction :=
  [.main .idle, .main (.addProducer .created),
    .main .idle, .main (.addConsumer .created)] ++
  List.replicate 3 (.producer 0 .woken true) ++
  List.replicate 4 (.consumer 0 .woken none)

/-- In these runs the message is read by both, and destroyed, and never read
when it is. -/
theorem reportsFirst_reads_alive :
    (semMachine initialQueueSize).EveryState
        (fun state => state.heap.ReadsAlive)
        (semStart initialQueueSize fun _ => 0) semReportsFirst ∧
      (condMachine initialQueueSize).EveryState
        (fun state => state.heap.ReadsAlive)
        (condStart initialQueueSize fun _ => 0) condReportsFirst := by
  have alive := reads_alive initialQueueSize (by decide) fun _ => 0
  exact ⟨alive.1 semReportsFirst (by decide +kernel),
    alive.2 condReportsFirst (by decide +kernel)⟩

end ThreadQueue
end OSaSP
