import OSaSP.ThreadQueue.Tokens
import OSaSP.ThreadQueue.Workers

/-!
# What stopping a thread costs the semaphore queue

`signal_cleanup_sem` posts to both semaphores more often than there are
threads to wake, and nothing takes the posts back.  Once the main thread is
through with them, both balances are off for good, whether the stopped thread
has left its loop or not.
-/

namespace OSaSP
namespace ThreadQueue

/-- The tokens match the free slots and the stored messages. -/
structure Balanced (state : SemState) : Prop where
  empty : (state.emptyTokens : Int) =
    state.queue.capacity - state.queue.count
  filled : state.filledTokens = state.queue.count

/-- More tokens than free slots and more than stored messages. -/
structure Flooded (state : SemState) : Prop where
  empty : state.queue.capacity < state.emptyTokens + state.queue.count
  filled : state.queue.count < state.filledTokens

/-- The main thread is in `signal_cleanup_sem`. -/
def MainPc.signalling : MainPc → Bool
  | .cleanup _ | .postEmpty _ _ | .postFilled _ _ => true
  | _ => false

/-- What holds in `signal_cleanup_sem` and after it. -/
def Flooding (state : SemState) : Prop :=
  match state.control.pc with
  | .cleanup _ | .postEmpty (_ + 1) _ => True
  | .postFilled _ _ =>
      state.queue.capacity < state.emptyTokens + state.queue.count
  | _ => Flooded state

theorem Flooded.flooding
    {state : SemState}
    (flooded : Flooded state) :
    Flooding state := by
  unfold Flooding
  split
  · trivial
  · trivial
  · exact flooded.empty
  · exact flooded

theorem Flooding.flooded
    {state : SemState}
    (flooding : Flooding state)
    (done : state.control.pc.signalling = false) :
    Flooded state := by
  unfold Flooding at flooding
  cases place : state.control.pc with
  | cleanup | postEmpty | postFilled =>
      rw [place] at done
      cases done
  | loopTest | command | deactivate | joining =>
      rw [place] at flooding
      exact flooding

/-- A surplus never shrinks. -/
theorem Flooded.step
    {state next : SemState}
    {action : SemAction}
    (flooded : Flooded state)
    (stepped : semStep state action = some next) :
    Flooded next := by
  have law := semStep_tokens stepped
  have empty := law.empty
  have filled := law.filled
  have emptyBefore := flooded.empty
  have filledBefore := flooded.filled
  exact ⟨by omega, by omega⟩

/-- `signal_cleanup_sem` posts at least five times. -/
theorem signals_pos
    {state : SemState}
    (crewed : state.Crewed) :
    0 < semLab.signals state.queue state.control := by
  have producers := crewed.producers.count_nonneg
  have consumers := crewed.consumers.count_nonneg
  change 0 < (state.queue.capacity + state.control.producerCount +
    state.control.consumerCount + 5 : Int).toNat
  omega

/-- A step of a thread leaves the main thread where it is. -/
theorem threadStep_pc
    {state next : SemState}
    {action : SemAction}
    (thread : ∀ command, action ≠ .main command)
    (stepped : semStep state action = some next) :
    next.control.pc = state.control.pc := by
  cases action with
  | main command => exact absurd rfl (thread command)
  | producer index wait created =>
      simp only [semStep, Option.bind_eq_some_iff] at stepped
      obtain ⟨_, -, advanced⟩ := stepped
      obtain ⟨_, -, -, control, -⟩ := advanceProducerSem_move advanced
      rcases control with same | stopped
      · rw [same]
      · rw [stopped]
        rfl
  | consumer index wait allocation =>
      simp only [semStep, Option.bind_eq_some_iff] at stepped
      obtain ⟨_, -, advanced⟩ := stepped
      obtain ⟨_, -, -, control, -⟩ := advanceConsumerSem_move advanced
      rcases control with same | stopped
      · rw [same]
      · rw [stopped]
        rfl

/-- Every round of posts leaves both surpluses behind. -/
theorem Flooding.mainStep
    {state next : SemState}
    {command : Command}
    (flooding : Flooding state)
    (covered : Covered state)
    (crewed : state.Crewed)
    (stepped : semStep state (.main command) = some next) :
    Flooding next := by
  have law := semStep_tokens stepped
  have empty := law.empty
  have filled := law.filled
  have free := covered.free
  have stored := covered.stored
  have kept : Flooded state → Flooding next :=
    fun flooded => (flooded.step stepped).flooding
  unfold Flooding at flooding
  simp only [semStep, Lab.mainStep] at stepped
  cases place : state.control.pc with
  | loopTest | command | deactivate =>
      rw [place] at flooding
      exact kept flooding
  | joining => simp [place] at stepped
  | cleanup after =>
      simp only [place, Option.some.injEq] at stepped
      subst stepped
      obtain ⟨left, posts⟩ :=
        Nat.exists_eq_succ_of_ne_zero (signals_pos crewed).ne'
      rw [posts]
      trivial
  | postEmpty left after =>
      cases left with
      | zero =>
          rw [place] at flooding
          exact kept flooding
      | succ left =>
          simp only [SemState.signalledEmpty, place] at empty
          simp only [place, Option.some.injEq] at stepped
          subst stepped
          change _ < _
          omega
  | postFilled left after =>
      rw [place] at flooding
      simp only [SemState.signalledFilled, SemState.signalledEmpty, place]
        at empty filled
      exact Flooded.flooding ⟨by omega, by omega⟩

theorem Flooding.step
    {state next : SemState}
    {action : SemAction}
    (flooding : Flooding state)
    (covered : Covered state)
    (crewed : state.Crewed)
    (stepped : semStep state action = some next) :
    Flooding next := by
  cases action with
  | main command => exact flooding.mainStep covered crewed stepped
  | producer | consumer =>
      have pc := threadStep_pc (by simp) stepped
      have empty := (semStep_tokens stepped).empty
      unfold Flooding at flooding ⊢
      rw [pc]
      cases place : state.control.pc with
      | cleanup => trivial
      | postFilled left after =>
          rw [place] at flooding
          change _ < _ at flooding
          change _ < _
          omega
      | postEmpty left after =>
          cases left with
          | zero =>
              rw [place] at flooding
              exact Flooded.step flooding stepped
          | succ left => trivial
      | loopTest | command | deactivate | joining =>
          rw [place] at flooding
          exact Flooded.step flooding stepped

/-! ## The stopped thread can leave -/

/-- A producer is out of its loop. -/
def ProducerSemPc.hasLeft : ProducerSemPc → Bool
  | .leaving | .finished => true
  | _ => false

/-- A consumer is out of its loop. -/
def ConsumerSemPc.hasLeft : ConsumerSemPc → Bool
  | .leaving | .finished => true
  | _ => false

/-- Steps a stopped producer takes at most until it is out of its loop. -/
def ProducerSemPc.stepsToLeave : ProducerSemPc → Nat
  | .leaving | .finished => 0
  | .loopTest | .timedOut | .giveBackStopped => 1
  | .waitEmpty | .recheck | .giveBackFailed | .discard _ | .report _ => 2
  | .resizeTest | .create | .giveBackFull _ | .postFilled _ => 3
  | .insert _ => 4

/-- Steps a stopped consumer takes at most until it is out of its loop. -/
def ConsumerSemPc.stepsToLeave : ConsumerSemPc → Nat
  | .leaving | .finished => 0
  | .loopTest | .timedOut | .giveBackStopped => 1
  | .waitFilled | .recheck | .giveBack | .discard _ => 2
  | .resize | .report _ => 3
  | .postEmpty _ => 4
  | .extract => 5

/-- A stopped producer whose wait times out comes closer to its exit. -/
theorem advanceProducerSem_comes_closer
    {state : SemState}
    (thread : Thread ProducerSemPc)
    (index : Nat)
    (stopped : state.control.producerRuns thread.id = false)
    (inside : thread.pc.hasLeft = false) :
    ∃ pc next,
      advanceProducerSem thread index .timedOut false state = some next ∧
        next.control = state.control ∧
        next.producers = state.producers.set index ⟨thread.id, pc⟩ ∧
        pc.stepsToLeave < thread.pc.stepsToLeave := by
  cases place : thread.pc with
  | leaving | finished => simp [ProducerSemPc.hasLeft, place] at inside
  | resizeTest =>
      simp only [advanceProducerSem, place]
      split <;> exact ⟨_, _, rfl, rfl, rfl, by decide⟩
  | insert msg =>
      simp only [advanceProducerSem, place]
      split
      · exact ⟨.giveBackFull msg, _, rfl, rfl, rfl, Nat.lt_succ_self 3⟩
      · exact ⟨.postFilled msg, _, rfl, rfl, rfl, Nat.lt_succ_self 3⟩
  | giveBackFull msg =>
      simp only [advanceProducerSem, place]
      exact ⟨.discard msg, _, rfl, rfl, rfl, Nat.lt_succ_self 2⟩
  | postFilled msg =>
      simp only [advanceProducerSem, place]
      exact ⟨.report msg, _, rfl, rfl, rfl, Nat.lt_succ_self 2⟩
  | discard | report =>
      simp only [advanceProducerSem, place]
      exact ⟨.loopTest, _, rfl, rfl, rfl, Nat.lt_succ_self 1⟩
  | loopTest | waitEmpty | timedOut | recheck | giveBackStopped | create
  | giveBackFailed =>
      simp only [advanceProducerSem, place, stopped, Bool.false_eq_true,
        if_false]
      exact ⟨_, _, rfl, rfl, rfl, by decide⟩

/-- A stopped consumer whose wait times out comes closer to its exit. -/
theorem advanceConsumerSem_comes_closer
    {state : SemState}
    (thread : Thread ConsumerSemPc)
    (index : Nat)
    (stopped : state.control.consumerRuns thread.id = false)
    (inside : thread.pc.hasLeft = false) :
    ∃ pc next,
      advanceConsumerSem thread index .timedOut none state = some next ∧
        next.control = state.control ∧
        next.consumers = state.consumers.set index ⟨thread.id, pc⟩ ∧
        pc.stepsToLeave < thread.pc.stepsToLeave := by
  cases place : thread.pc with
  | leaving | finished => simp [ConsumerSemPc.hasLeft, place] at inside
  | resize =>
      simp only [advanceConsumerSem, place]
      split <;> exact ⟨_, _, rfl, rfl, rfl, by decide⟩
  | extract =>
      simp only [advanceConsumerSem, place]
      split
      · exact ⟨.giveBack, _, rfl, rfl, rfl, by decide⟩
      · split
        · exact ⟨.giveBack, _, rfl, rfl, rfl, by decide⟩
        · exact ⟨.postEmpty _, _, rfl, rfl, rfl, Nat.lt_succ_self 4⟩
  | postEmpty msg =>
      simp only [advanceConsumerSem, place]
      exact ⟨.report msg, _, rfl, rfl, rfl, Nat.lt_succ_self 3⟩
  | report msg =>
      simp only [advanceConsumerSem, place]
      exact ⟨.discard msg, _, rfl, rfl, rfl, Nat.lt_succ_self 2⟩
  | discard msg =>
      simp only [advanceConsumerSem, place]
      exact ⟨.loopTest, _, rfl, rfl, rfl, Nat.lt_succ_self 1⟩
  | loopTest | waitFilled | timedOut | recheck | giveBackStopped
  | giveBack =>
      simp only [advanceConsumerSem, place, stopped, Bool.false_eq_true,
        if_false]
      exact ⟨_, _, rfl, rfl, rfl, by decide⟩

section Runs

variable (size : Nat) {state : SemState}

theorem producer_can_leave
    {index : Nat}
    {thread : Thread ProducerSemPc}
    (present : state.producers[index]? = some thread)
    (stopped : state.control.producerRuns thread.id = false) :
    ∃ actions final,
      (semMachine size).run state actions = some final ∧
        final.control = state.control ∧
        ∃ pc, final.producers[index]? = some ⟨thread.id, pc⟩ ∧
          pc.hasLeft = true := by
  have reached := (semMachine size).exists_run_of_rank
    (fun later => ∃ pc, later.producers[index]? = some ⟨thread.id, pc⟩ ∧
      pc.hasLeft = true)
    (fun later : SemState => later.control = state.control ∧
      ∃ pc, later.producers[index]? = some ⟨thread.id, pc⟩)
    (fun later => (later.producers[index]?).elim 0
      fun thread => thread.pc.stepsToLeave)
    ?lowers ⟨rfl, thread.pc, present⟩
  case lowers =>
    rintro later ⟨control, pc, found⟩ inside
    have within : pc.hasLeft = false := by
      cases left : pc.hasLeft with
      | false => rfl
      | true => exact absurd ⟨pc, found, left⟩ inside
    obtain ⟨new, next, advanced, kept, moved, closer⟩ :=
      advanceProducerSem_comes_closer ⟨thread.id, pc⟩ index
        (control ▸ stopped) within
    have foundNext : next.producers[index]? = some ⟨thread.id, new⟩ := by
      rw [moved]
      exact Pool.getElem?_set_present found _
    refine ⟨.producer index .timedOut false, next, ?_,
      ⟨kept.trans control, new, foundNext⟩, ?_⟩
    · change (later.producers[index]?).bind _ = _
      rw [found]
      exact advanced
    · rw [found, foundNext]
      exact closer
  obtain ⟨actions, final, ran, ⟨control, -⟩, left⟩ := reached
  exact ⟨actions, final, ran, control, left⟩

theorem consumer_can_leave
    {index : Nat}
    {thread : Thread ConsumerSemPc}
    (present : state.consumers[index]? = some thread)
    (stopped : state.control.consumerRuns thread.id = false) :
    ∃ actions final,
      (semMachine size).run state actions = some final ∧
        final.control = state.control ∧
        ∃ pc, final.consumers[index]? = some ⟨thread.id, pc⟩ ∧
          pc.hasLeft = true := by
  have reached := (semMachine size).exists_run_of_rank
    (fun later => ∃ pc, later.consumers[index]? = some ⟨thread.id, pc⟩ ∧
      pc.hasLeft = true)
    (fun later : SemState => later.control = state.control ∧
      ∃ pc, later.consumers[index]? = some ⟨thread.id, pc⟩)
    (fun later => (later.consumers[index]?).elim 0
      fun thread => thread.pc.stepsToLeave)
    ?lowers ⟨rfl, thread.pc, present⟩
  case lowers =>
    rintro later ⟨control, pc, found⟩ inside
    have within : pc.hasLeft = false := by
      cases left : pc.hasLeft with
      | false => rfl
      | true => exact absurd ⟨pc, found, left⟩ inside
    obtain ⟨new, next, advanced, kept, moved, closer⟩ :=
      advanceConsumerSem_comes_closer ⟨thread.id, pc⟩ index
        (control ▸ stopped) within
    have foundNext : next.consumers[index]? = some ⟨thread.id, new⟩ := by
      rw [moved]
      exact Pool.getElem?_set_present found _
    refine ⟨.consumer index .timedOut none, next, ?_,
      ⟨kept.trans control, new, foundNext⟩, ?_⟩
    · change (later.consumers[index]?).bind _ = _
      rw [found]
      exact advanced
    · rw [found, foundNext]
      exact closer
  obtain ⟨actions, final, ran, ⟨control, -⟩, left⟩ := reached
  exact ⟨actions, final, ran, control, left⟩

/-- The main thread can finish its posts with no other thread moving. -/
theorem posts_can_finish
    (left : Nat)
    (place : state.control.pc = .postEmpty left .loopTest) :
    ∃ actions final,
      (semMachine size).run state actions = some final ∧
        final.control = { state.control with pc := .loopTest } ∧
        final.producers = state.producers ∧
        final.consumers = state.consumers := by
  induction left generalizing state with
  | zero =>
      refine ⟨[.main .idle], state.goto .loopTest, ?_, rfl, rfl, rfl⟩
      simp [Machine.run, semMachine, semStep, Lab.mainStep, place,
        Lab.resume]
  | succ left inductionHypothesis =>
      let posted : SemState :=
        { state.postEmpty with
          queue := semLab.postFilled state.postEmpty.queue }
      obtain ⟨actions, final, ran, control, producers, consumers⟩ :=
        inductionHypothesis
          (show (posted.goto (.postEmpty left .loopTest)).control.pc = _
            from rfl)
      refine ⟨.main .idle :: .main .idle :: actions, final, ?_, control,
        producers, consumers⟩
      rw [← ran]
      simp only [Machine.run, semMachine, semStep, Lab.mainStep, place,
        Option.bind_some]
      rfl

/-- The main thread can finish `signal_cleanup_sem`. -/
theorem cleanup_can_finish
    (place : state.control.pc = .cleanup .loopTest) :
    ∃ actions final,
      (semMachine size).run state actions = some final ∧
        final.control = { state.control with pc := .loopTest } ∧
        final.producers = state.producers ∧
        final.consumers = state.consumers := by
  obtain ⟨actions, final, ran, finish⟩ := posts_can_finish size _
    (show (state.goto (.postEmpty
      (semLab.signals state.queue state.control) .loopTest)).control.pc = _
      from rfl)
  refine ⟨.main .idle :: actions, final, ?_, finish⟩
  rw [← ran]
  simp only [Machine.run, semMachine, semStep, Lab.mainStep, place,
    Option.bind_some]

end Runs

/-! ## Stopping upsets the balance -/

/-- A command stops one thread; `left` says that the thread is out of its
loop. -/
inductive Stops (state : SemState) : Command → (SemState → Prop) → Prop
  | producer {id : Nat} :
      lastActive state.control.producerActive
        state.control.nextProducerId = some id →
      Stops state .removeProducer fun later =>
        ∃ pc, later.producers[id]? = some ⟨id, pc⟩ ∧ pc.hasLeft = true
  | consumer {id : Nat} :
      lastActive state.control.consumerActive
        state.control.nextConsumerId = some id →
      Stops state .removeConsumer fun later =>
        ∃ pc, later.consumers[id]? = some ⟨id, pc⟩ ∧ pc.hasLeft = true

/-- The command sends the main thread to `signal_cleanup_sem`. -/
theorem Stops.cleanup
    {state : SemState}
    {command : Command}
    {left : SemState → Prop}
    (stops : Stops state command left) :
    (semLab.execute state command).control.pc = .cleanup .loopTest := by
  cases stops with
  | producer found =>
      simp [Lab.execute, LabState.removeProducer, found]
  | consumer found =>
      simp [Lab.execute, LabState.removeConsumer, found]

/-- The stopped thread can leave its loop and the main thread come back to its
own. -/
theorem Stops.can_leave
    (size : Nat)
    {state : SemState}
    {command : Command}
    {left : SemState → Prop}
    (crewed : state.Crewed)
    (stops : Stops state command left) :
    ∃ actions final,
      (semMachine size).run (semLab.execute state command) actions =
        some final ∧
      final.control.pc = .loopTest ∧ left final := by
  obtain ⟨posts, posted, ranPosts, control, producers, consumers⟩ :=
    cleanup_can_finish size stops.cleanup
  cases stops with
  | @producer id found =>
      obtain ⟨below, -⟩ := lastActive_eq_some found
      obtain ⟨pc, present⟩ := crewed.producers.present below
      have presentPosted : posted.producers[id]? = some ⟨id, pc⟩ := by
        rw [producers]
        simpa [Lab.execute, LabState.removeProducer, found] using present
      have stopped : posted.control.producerRuns id = false := by
        rw [control]
        simp [Lab.execute, LabState.removeProducer, found,
          LabControl.stopProducer, LabControl.producerRuns]
      obtain ⟨exits, final, ranExits, kept, left⟩ :=
        producer_can_leave size presentPosted stopped
      refine ⟨posts ++ exits, final, ?_, ?_, left⟩
      · rw [Machine.run_append, ranPosts, Option.bind_some, ranExits]
      · rw [kept, control]
  | @consumer id found =>
      obtain ⟨below, -⟩ := lastActive_eq_some found
      obtain ⟨pc, present⟩ := crewed.consumers.present below
      have presentPosted : posted.consumers[id]? = some ⟨id, pc⟩ := by
        rw [consumers]
        simpa [Lab.execute, LabState.removeConsumer, found] using present
      have stopped : posted.control.consumerRuns id = false := by
        rw [control]
        simp [Lab.execute, LabState.removeConsumer, found,
          LabControl.stopConsumer, LabControl.consumerRuns]
      obtain ⟨exits, final, ranExits, kept, left⟩ :=
        consumer_can_leave size presentPosted stopped
      refine ⟨posts ++ exits, final, ?_, ?_, left⟩
      · rw [Machine.run_append, ranPosts, Option.bind_some, ranExits]
      · rw [kept, control]

/-- Both laws of the tokens and the crew hold in every reachable state. -/
theorem reachable_covered_crewed
    {size : Nat}
    {state : SemState}
    (reachable : (semMachine size).Reachable state) :
    Covered state ∧ state.Crewed := by
  apply reachable.invariant
  · rintro _ ⟨block, rfl⟩
    exact ⟨⟨Nat.le_refl _, Nat.le_refl _⟩, ⟨.empty _, .empty _⟩⟩
  · rintro state action next ⟨covered, crewed⟩ _ stepped
    exact ⟨covered.step stepped, crewed.labStep (semStep_labStep stepped)⟩

/-- From the command on, once the main thread is out of `signal_cleanup_sem`,
there are too many tokens of either kind. -/
theorem flooded_after_stop
    {size : Nat}
    {state final : SemState}
    {command : Command}
    {left : SemState → Prop}
    {actions : List SemAction}
    (reachable : (semMachine size).Reachable state)
    (atCommand : state.control.pc = .command)
    (stops : Stops state command left)
    (executed : (semMachine size).run (semLab.execute state command)
      actions = some final)
    (done : final.control.pc.signalling = false) :
    Flooded final := by
  have stepped : (semMachine size).step state (.main command) =
      some (semLab.execute state command) := by
    simp [semMachine, semStep, Lab.mainStep, atCommand]
  have laws := reachable_covered_crewed
    (.step reachable trivial stepped)
  have starts : Flooding (semLab.execute state command) := by
    unfold Flooding
    rw [stops.cleanup]
    trivial
  have ends := Machine.run_preserves
    (fun state : SemState => Flooding state ∧ Covered state ∧ state.Crewed)
    ?preserved ⟨starts, laws⟩ executed
  case preserved =>
    rintro state action next ⟨flooding, covered, crewed⟩ stepped
    exact ⟨flooding.step covered crewed stepped, covered.step stepped,
      crewed.labStep (semStep_labStep stepped)⟩
  exact ends.1.flooded done

/-- Whenever the operator stops a thread of the semaphore lab, balanced or
not, both balances are off in every later state in which the main thread is
not posting, and there is such a state in which the stopped thread has left
its loop. -/
theorem stop_upsets_balance
    {state : SemState}
    (reachable : (semMachine initialQueueSize).Reachable state)
    (atCommand : state.control.pc = .command)
    {command : Command}
    {left : SemState → Prop}
    (stops : Stops state command left) :
    (∀ actions final,
      (semMachine initialQueueSize).run (semLab.execute state command)
          actions = some final →
        final.control.pc.signalling = false →
          (final.emptyTokens : Int) ≠
              final.queue.capacity - final.queue.count ∧
            final.filledTokens ≠ final.queue.count) ∧
    ∃ actions final,
      (semMachine initialQueueSize).run (semLab.execute state command)
          actions = some final ∧
        final.control.pc.signalling = false ∧ left final := by
  constructor
  · intro actions final executed done
    have flooded :=
      flooded_after_stop reachable atCommand stops executed done
    have empty := flooded.empty
    have filled := flooded.filled
    exact ⟨by omega, by omega⟩
  · obtain ⟨actions, final, ran, place, gone⟩ := stops.can_leave
      initialQueueSize (reachable_covered_crewed reachable).2
    exact ⟨actions, final, ran, by rw [place]; rfl, gone⟩

/-- The operator creates one consumer and is about to give the next
command. -/
def semStopSchedule : List SemAction :=
  [.main .idle, .main (.addConsumer .created), .main .idle]

/-- The posts of `signal_cleanup_sem`, after which the stopped consumer leaves
its loop. -/
def semLeaveSchedule : List SemAction :=
  List.replicate 32 (.main .idle) ++ [.consumer 0 .timedOut none]

theorem semStopSchedule_balanced :
    ∃ state,
      (semMachine initialQueueSize).run
          (semStart initialQueueSize fun _ => 0) semStopSchedule =
        some state ∧
      state.control.pc = .command ∧ state.control.keepRunning = true ∧
      Balanced state ∧
      lastActive state.control.consumerActive
        state.control.nextConsumerId = some 0 := by
  have facts :
      ((semMachine initialQueueSize).run
          (semStart initialQueueSize fun _ => 0) semStopSchedule).map
        (fun state => (state.control.pc, state.control.keepRunning,
          (state.emptyTokens, state.filledTokens, state.queue.capacity,
            state.queue.count),
          lastActive state.control.consumerActive
            state.control.nextConsumerId)) =
      some (.command, true, (10, 0, 10, 0), some 0) := rfl
  obtain ⟨state, ran, facts⟩ := Option.map_eq_some_iff.mp facts
  simp only [Prod.mk.injEq] at facts
  obtain ⟨place, running, ⟨empty, filled, capacity, count⟩, found⟩ := facts
  refine ⟨state, ran, place, running, ⟨?_, ?_⟩, found⟩
  · rw [empty, capacity, count]
    rfl
  · rw [filled, count]

/-- Fifteen tokens too many are left when the consumer is gone. -/
theorem semLeaveSchedule_flooded :
    (((semMachine initialQueueSize).run
        (semStart initialQueueSize fun _ => 0) semStopSchedule).bind
      fun state => (semMachine initialQueueSize).run
        (semLab.execute state .removeConsumer) semLeaveSchedule).map
      (fun final => (final.control.pc.signalling,
        final.consumers.map fun thread => (thread.id, thread.pc),
        final.emptyTokens, final.filledTokens, final.queue.capacity,
        final.queue.count)) =
    some (false, [(0, .leaving)], 25, 15, 10, 0) := rfl

/-- Stopping the consumer does not bring the balances back. -/
theorem not_every_stop_rebalances :
    ¬∀ state,
      (semMachine initialQueueSize).Reachable state →
      state.control.keepRunning = true → state.control.pc = .command →
      Balanced state →
      ∀ command left, Stops state command left →
        ∀ actions final,
          (semMachine initialQueueSize).run (semLab.execute state command)
              actions = some final →
          final.control.pc.signalling = false → left final →
            Balanced final := by
  intro every
  obtain ⟨state, ran, place, running, balanced, found⟩ :=
    semStopSchedule_balanced
  have facts := semLeaveSchedule_flooded
  rw [ran, Option.bind_some] at facts
  obtain ⟨final, ranFinal, facts⟩ := Option.map_eq_some_iff.mp facts
  simp only [Prod.mk.injEq] at facts
  obtain ⟨done, consumers, empty, filled, capacity, count⟩ := facts
  have gone : ∃ pc, final.consumers[0]? = some ⟨0, pc⟩ ∧
      pc.hasLeft = true := by
    obtain ⟨thread, rest, list, first, -⟩ := List.map_eq_cons_iff.mp consumers
    obtain ⟨id, place⟩ := Prod.mk.inj first
    cases thread with
    | mk number pc =>
        dsimp only at id place
        subst id place
        exact ⟨.leaving, by rw [list]; rfl, rfl⟩
  have rebalanced := every state
    (Machine.Reachable.run (.initial ⟨_, rfl⟩) ran) running place balanced
    .removeConsumer _ (.consumer found) _ final ranFinal done gone
  have same := rebalanced.filled
  rw [filled, count] at same
  cases same

/-- What the law says of the consumer that the operator stops. -/
theorem semStopSchedule_upsets_balance :
    ∃ state,
      (semMachine initialQueueSize).run
          (semStart initialQueueSize fun _ => 0) semStopSchedule =
        some state ∧
      Balanced state ∧
      (∀ actions final,
        (semMachine initialQueueSize).run
            (semLab.execute state .removeConsumer) actions = some final →
          final.control.pc.signalling = false →
            (final.emptyTokens : Int) ≠
                final.queue.capacity - final.queue.count ∧
              final.filledTokens ≠ final.queue.count) := by
  obtain ⟨state, ran, place, -, balanced, found⟩ := semStopSchedule_balanced
  exact ⟨state, ran, balanced,
    (stop_upsets_balance (Machine.Reachable.run (.initial ⟨_, rfl⟩) ran) place
      (.consumer found)).1⟩

end ThreadQueue
end OSaSP
