import OSaSP.Foundations.Pool
import OSaSP.Foundations.Progress
import OSaSP.ThreadQueue.Workers
import Mathlib.Data.Prod.Lex

/-!
# The end of a lab

Once `keep_running` is cleared, by the operator or by a failed wait, every
thread only has the rest of its loop body before it and the main thread the
rest of `run_lab_logic`.  No thread can be kept from it: the waits are timed,
and what the main thread posts is bounded by the capacity it reads.  A lab is
over when the main thread joins and every worker has finished.
-/

namespace OSaSP
namespace ThreadQueue

/-! ## What is left of `run_lab_logic` -/

/-- The part of `run_lab_logic` the main thread is in, counted from its end. -/
def MainPc.stage : MainPc → Nat
  | .command => 9
  | .cleanup .loopTest => 8
  | .postEmpty _ .loopTest | .postFilled _ .loopTest => 7
  | .loopTest => 6
  | .deactivate => 5
  | .cleanup .secondCleanup => 4
  | .postEmpty _ .secondCleanup | .postFilled _ .secondCleanup => 3
  | .cleanup .joining => 2
  | .postEmpty _ .joining | .postFilled _ .joining => 1
  | .joining => 0

/-- The posts left in the posting loop. -/
def MainPc.posts : MainPc → Nat
  | .postEmpty left _ => 2 * left
  | .postFilled left _ => 2 * left + 1
  | _ => 0

/-- How many steps a worker at a place takes at most until it has finished,
once the lab is stopped. -/
structure StepsToFinish (ProducerPc ConsumerPc : Type) where
  producer : ProducerPc → Nat
  consumer : ConsumerPc → Nat

section Ending

variable {Queue ProducerPc ConsumerPc : Type}

/-- The steps all workers have left. -/
def LabState.stepsLeft
    (steps : StepsToFinish ProducerPc ConsumerPc)
    (state : LabState Queue ProducerPc ConsumerPc) : Nat :=
  Pool.total (fun thread => steps.producer thread.pc) state.producers +
    Pool.total (fun thread => steps.consumer thread.pc) state.consumers

/-- What is left of a stopped lab: the part of `run_lab_logic`, and within it
the posts and the steps of the workers. -/
def LabState.rank
    (steps : StepsToFinish ProducerPc ConsumerPc)
    (state : LabState Queue ProducerPc ConsumerPc) : Nat ×ₗ Nat :=
  toLex (state.control.pc.stage,
    state.control.pc.posts + state.stepsLeft steps)

/-- A step of a lab in which every worker that moves comes closer to its end,
and the lab stays stopped. -/
inductive ClosingStep
    (steps : StepsToFinish ProducerPc ConsumerPc)
    (lab : Lab Queue ProducerPc ConsumerPc)
    (state next : LabState Queue ProducerPc ConsumerPc) : Prop
  | main {command : Command} (stepped : lab.mainStep command state = some next)
  | producer {index : Nat} {thread new : Thread ProducerPc}
      (present : state.producers[index]? = some thread)
      (producers : next.producers = state.producers.set index new)
      (consumers : next.consumers = state.consumers)
      (pc : next.control.pc = state.control.pc)
      (stopped : next.control.keepRunning = false)
      (closer : steps.producer new.pc < steps.producer thread.pc)
  | consumer {index : Nat} {thread new : Thread ConsumerPc}
      (present : state.consumers[index]? = some thread)
      (producers : next.producers = state.producers)
      (consumers : next.consumers = state.consumers.set index new)
      (pc : next.control.pc = state.control.pc)
      (stopped : next.control.keepRunning = false)
      (closer : steps.consumer new.pc < steps.consumer thread.pc)

variable {steps : StepsToFinish ProducerPc ConsumerPc}
  {lab : Lab Queue ProducerPc ConsumerPc}
  {state next : LabState Queue ProducerPc ConsumerPc}

/-- A step into a lower part of `run_lab_logic`. -/
theorem rank_lt_of_stage
    (lower : next.control.pc.stage < state.control.pc.stage) :
    next.rank steps < state.rank steps :=
  Prod.Lex.toLex_lt_toLex.mpr (.inl lower)

/-- A step inside a part. -/
theorem rank_lt_of_work
    (same : next.control.pc.stage = state.control.pc.stage)
    (fewer : next.control.pc.posts + next.stepsLeft steps <
      state.control.pc.posts + state.stepsLeft steps) :
    next.rank steps < state.rank steps :=
  Prod.Lex.toLex_lt_toLex.mpr (.inr ⟨same, fewer⟩)

/-- A command leads to the loop test or to the signals that follow a stop. -/
theorem execute_place (command : Command) :
    (lab.execute state command).control.pc = .loopTest ∨
      (lab.execute state command).control.pc = .cleanup .loopTest := by
  cases command with
  | idle | addProducer | addConsumer | requestResize => exact .inl rfl
  | quit => exact .inr rfl
  | removeProducer =>
      unfold Lab.execute LabState.removeProducer
      dsimp only
      split
      · exact .inl rfl
      · exact .inr rfl
  | removeConsumer =>
      unfold Lab.execute LabState.removeConsumer
      dsimp only
      split
      · exact .inl rfl
      · exact .inr rfl

/-- No command starts a stopped lab again. -/
theorem execute_keepRunning
    (stopped : state.control.keepRunning = false)
    (command : Command) :
    (lab.execute state command).control.keepRunning = false := by
  cases command with
  | idle | requestResize => exact stopped
  | quit => rfl
  | addProducer outcome =>
      unfold Lab.execute LabState.addProducer
      dsimp only
      split
      · cases outcome <;> exact stopped
      · exact stopped
  | addConsumer outcome =>
      unfold Lab.execute LabState.addConsumer
      dsimp only
      split
      · cases outcome <;> exact stopped
      · exact stopped
  | removeProducer =>
      unfold Lab.execute LabState.removeProducer
      dsimp only
      split <;> exact stopped
  | removeConsumer =>
      unfold Lab.execute LabState.removeConsumer
      dsimp only
      split <;> exact stopped

/-- The signals come before what follows them. -/
theorem stage_resume (after : AfterCleanup) :
    (Lab.resume after).stage < (MainPc.cleanup after).stage - 1 := by
  cases after <;> decide

/-- The posting loop is one part. -/
theorem stage_postEmpty (left : Nat) (after : AfterCleanup) :
    (MainPc.postEmpty left after).stage = (MainPc.cleanup after).stage - 1 := by
  cases after <;> rfl

theorem stage_postFilled (left : Nat) (after : AfterCleanup) :
    (MainPc.postFilled left after).stage =
      (MainPc.cleanup after).stage - 1 := by
  cases after <;> rfl

/-- The main thread of a stopped lab comes closer to the joins. -/
theorem mainStep_closes
    {command : Command}
    (stopped : state.control.keepRunning = false)
    (stepped : lab.mainStep command state = some next) :
    next.control.keepRunning = false ∧
      next.rank steps < state.rank steps := by
  unfold Lab.mainStep at stepped
  cases place : state.control.pc with
  | loopTest =>
      simp only [place, stopped, Bool.false_eq_true, if_false,
        Option.some.injEq] at stepped
      subst stepped
      refine ⟨stopped, rank_lt_of_stage ?_⟩
      rw [place]
      exact Nat.lt_succ_self 5
  | command =>
      simp only [place, Option.some.injEq] at stepped
      subst stepped
      refine ⟨execute_keepRunning stopped command, rank_lt_of_stage ?_⟩
      have places : (lab.execute state command).control.pc = .loopTest ∨
          (lab.execute state command).control.pc = .cleanup .loopTest :=
        execute_place command
      rcases places with atTest | signalling
      · rw [place, atTest]
        decide
      · rw [place, signalling]
        decide
  | deactivate =>
      simp only [place, Option.some.injEq] at stepped
      subst stepped
      refine ⟨stopped, rank_lt_of_stage ?_⟩
      rw [place]
      exact Nat.lt_succ_self 4
  | cleanup after =>
      simp only [place, Option.some.injEq] at stepped
      subst stepped
      refine ⟨stopped, rank_lt_of_stage ?_⟩
      rw [place]
      have part := stage_postEmpty (lab.signals state.queue state.control)
        after
      have follows := stage_resume after
      change (MainPc.postEmpty _ after).stage < _
      omega
  | postEmpty left after =>
      have part := stage_postEmpty left after
      cases left with
      | zero =>
          simp only [place, Option.some.injEq] at stepped
          subst stepped
          refine ⟨stopped, rank_lt_of_stage ?_⟩
          rw [place, part]
          exact stage_resume after
      | succ left =>
          simp only [place, Option.some.injEq] at stepped
          subst stepped
          refine ⟨stopped, rank_lt_of_work ?_ ?_⟩
          · rw [place, part]
            exact stage_postFilled left after
          · rw [place]
            simp only [LabState.goto, MainPc.posts, LabState.stepsLeft]
            omega
  | postFilled left after =>
      simp only [place, Option.some.injEq] at stepped
      subst stepped
      refine ⟨stopped, rank_lt_of_work ?_ ?_⟩
      · rw [place, stage_postFilled]
        exact stage_postEmpty left after
      · rw [place]
        simp only [LabState.goto, MainPc.posts, LabState.stepsLeft]
        omega
  | joining => simp [place] at stepped

/-- So does everybody. -/
theorem ClosingStep.closes
    (stopped : state.control.keepRunning = false)
    (step : ClosingStep steps lab state next) :
    next.control.keepRunning = false ∧
      next.rank steps < state.rank steps := by
  cases step with
  | main stepped => exact mainStep_closes stopped stepped
  | producer present producers consumers pc stays closer =>
      refine ⟨stays, rank_lt_of_work (congrArg MainPc.stage pc) ?_⟩
      have counted := Pool.total_set
        (fun thread : Thread ProducerPc => steps.producer thread.pc) present
      rw [pc, LabState.stepsLeft, LabState.stepsLeft, producers, consumers]
      have moved := counted ‹_›
      omega
  | consumer present producers consumers pc stays closer =>
      refine ⟨stays, rank_lt_of_work (congrArg MainPc.stage pc) ?_⟩
      have counted := Pool.total_set
        (fun thread : Thread ConsumerPc => steps.consumer thread.pc) present
      rw [pc, LabState.stepsLeft, LabState.stepsLeft, producers, consumers]
      have moved := counted ‹_›
      omega

end Ending

/-! ## The semaphore lab -/

/-- The rest of a stopped thread's way through its loop body. -/
def semSteps : StepsToFinish ProducerSemPc ConsumerSemPc where
  producer
    | .finished => 0
    | .leaving => 1
    | .loopTest | .timedOut | .giveBackStopped => 2
    | .recheck | .giveBackFailed | .discard _ | .report _ => 3
    | .waitEmpty | .giveBackFull _ | .postFilled _ => 4
    | .resizeTest | .insert _ => 5
    | .create => 6
  consumer
    | .finished => 0
    | .leaving => 1
    | .loopTest | .timedOut | .giveBackStopped => 2
    | .recheck | .giveBack | .discard _ => 3
    | .waitFilled | .report _ => 4
    | .resize | .postEmpty _ => 5
    | .extract => 6

/-- A producer of a stopped semaphore lab comes closer to its end. -/
theorem advanceProducerSem_closes
    {thread : Thread ProducerSemPc}
    {index : Nat}
    {wait : WaitOutcome}
    {created : Bool}
    {state next : SemState}
    (stopped : state.control.keepRunning = false)
    (present : state.producers[index]? = some thread)
    (advanced : advanceProducerSem thread index wait created state =
      some next) :
    ClosingStep semSteps semLab state next := by
  have leaves : state.control.producerRuns thread.id = false := by
    rw [LabControl.producerRuns, stopped]
    rfl
  have closing : ∀ {pc : ProducerSemPc},
      next.producers = state.producers.set index ⟨thread.id, pc⟩ →
        next.consumers = state.consumers →
          next.control.pc = state.control.pc →
            next.control.keepRunning = false →
              semSteps.producer pc < semSteps.producer thread.pc →
                ClosingStep semSteps semLab state next :=
    fun producers consumers pc stays closer =>
      .producer present producers consumers pc stays closer
  cases place : thread.pc with
  | loopTest | timedOut | recheck =>
      simp only [advanceProducerSem, place, leaves, Bool.false_eq_true,
        if_false, Option.some.injEq] at advanced
      subst advanced
      exact closing rfl rfl rfl stopped (by rw [place]; decide)
  | resizeTest =>
      simp only [advanceProducerSem, place, Option.some.injEq] at advanced
      subst advanced
      refine closing rfl rfl rfl stopped ?_
      rw [place]
      split <;> decide
  | waitEmpty =>
      simp only [advanceProducerSem, place] at advanced
      cases wait with
      | acquired =>
          simp only at advanced
          split at advanced <;> cases advanced
          exact closing rfl rfl rfl stopped (by rw [place]; decide)
      | timedOut | failed =>
          cases advanced
          exact closing rfl rfl rfl stopped (by rw [place]; decide)
  | create =>
      simp only [advanceProducerSem, place] at advanced
      split at advanced <;> cases advanced
      · exact closing rfl rfl rfl stopped
          (by rw [place]; exact Nat.lt_succ_self 5)
      · exact closing rfl rfl rfl stopped (by rw [place]; decide)
  | insert msg =>
      simp only [advanceProducerSem, place] at advanced
      split at advanced <;> cases advanced <;>
        exact closing rfl rfl rfl stopped
          (by rw [place]; exact Nat.lt_succ_self 4)
  | giveBackFull msg | postFilled msg =>
      simp only [advanceProducerSem, place, Option.some.injEq] at advanced
      subst advanced
      exact closing rfl rfl rfl stopped
        (by rw [place]; exact Nat.lt_succ_self 3)
  | discard msg | report msg =>
      simp only [advanceProducerSem, place, Option.some.injEq] at advanced
      subst advanced
      exact closing rfl rfl rfl stopped
        (by rw [place]; exact Nat.lt_succ_self 2)
  | giveBackStopped | giveBackFailed | leaving =>
      simp only [advanceProducerSem, place, Option.some.injEq] at advanced
      subst advanced
      exact closing rfl rfl rfl stopped (by rw [place]; decide)
  | finished => simp [advanceProducerSem, place] at advanced

/-- So does a consumer. -/
theorem advanceConsumerSem_closes
    {thread : Thread ConsumerSemPc}
    {index : Nat}
    {wait : WaitOutcome}
    {allocation : Option (Nat → MessagePtr)}
    {state next : SemState}
    (stopped : state.control.keepRunning = false)
    (present : state.consumers[index]? = some thread)
    (advanced : advanceConsumerSem thread index wait allocation state =
      some next) :
    ClosingStep semSteps semLab state next := by
  have leaves : state.control.consumerRuns thread.id = false := by
    rw [LabControl.consumerRuns, stopped]
    rfl
  have closing : ∀ {pc : ConsumerSemPc},
      next.producers = state.producers →
        next.consumers = state.consumers.set index ⟨thread.id, pc⟩ →
          next.control.pc = state.control.pc →
            next.control.keepRunning = false →
              semSteps.consumer pc < semSteps.consumer thread.pc →
                ClosingStep semSteps semLab state next :=
    fun producers consumers pc stays closer =>
      .consumer present producers consumers pc stays closer
  cases place : thread.pc with
  | loopTest | timedOut | recheck =>
      simp only [advanceConsumerSem, place, leaves, Bool.false_eq_true,
        if_false, Option.some.injEq] at advanced
      subst advanced
      exact closing rfl rfl rfl stopped (by rw [place]; decide)
  | resize =>
      simp only [advanceConsumerSem, place] at advanced
      split at advanced <;> cases advanced <;>
        exact closing rfl rfl rfl stopped (by rw [place]; decide)
  | waitFilled =>
      simp only [advanceConsumerSem, place] at advanced
      cases wait with
      | acquired =>
          simp only at advanced
          split at advanced <;> cases advanced
          exact closing rfl rfl rfl stopped (by rw [place]; decide)
      | timedOut | failed =>
          cases advanced
          exact closing rfl rfl rfl stopped (by rw [place]; decide)
  | extract =>
      simp only [advanceConsumerSem, place] at advanced
      split at advanced
      · cases advanced
        exact closing rfl rfl rfl stopped (by rw [place]; decide)
      · split at advanced <;> cases advanced
        · exact closing rfl rfl rfl stopped (by rw [place]; decide)
        · exact closing rfl rfl rfl stopped
            (by rw [place]; exact Nat.lt_succ_self 5)
  | postEmpty msg =>
      simp only [advanceConsumerSem, place, Option.some.injEq] at advanced
      subst advanced
      exact closing rfl rfl rfl stopped
        (by rw [place]; exact Nat.lt_succ_self 4)
  | report msg =>
      simp only [advanceConsumerSem, place, Option.some.injEq] at advanced
      subst advanced
      exact closing rfl rfl rfl stopped
        (by rw [place]; exact Nat.lt_succ_self 3)
  | discard msg =>
      simp only [advanceConsumerSem, place, Option.some.injEq] at advanced
      subst advanced
      exact closing rfl rfl rfl stopped
        (by rw [place]; exact Nat.lt_succ_self 2)
  | giveBackStopped | giveBack | leaving =>
      simp only [advanceConsumerSem, place, Option.some.injEq] at advanced
      subst advanced
      exact closing rfl rfl rfl stopped (by rw [place]; decide)
  | finished => simp [advanceConsumerSem, place] at advanced

/-- Every step of a stopped semaphore lab brings its end closer. -/
theorem semStep_closes
    {state next : SemState}
    {action : SemAction}
    (stopped : state.control.keepRunning = false)
    (stepped : semStep state action = some next) :
    ClosingStep semSteps semLab state next := by
  cases action with
  | main command => exact .main stepped
  | producer index wait created =>
      simp only [semStep, Option.bind_eq_some_iff] at stepped
      obtain ⟨thread, present, advanced⟩ := stepped
      exact advanceProducerSem_closes stopped present advanced
  | consumer index wait allocation =>
      simp only [semStep, Option.bind_eq_some_iff] at stepped
      obtain ⟨thread, present, advanced⟩ := stepped
      exact advanceConsumerSem_closes stopped present advanced

/-! ## The condition-variable lab -/

/-- The rest of a stopped thread's way through its loop body. -/
def condSteps : StepsToFinish ProducerCondPc ConsumerCondPc where
  producer
    | .finished => 0
    | .leaving => 1
    | .loopTest | .enter | .waiting => 2
    | .report _ => 3
  consumer
    | .finished => 0
    | .leaving => 1
    | .loopTest | .waiting => 2
    | .enter | .discard _ => 3
    | .report _ => 4

/-- With the lab stopped, a producer that holds the mutex leaves its loop. -/
theorem produceCond_of_stopped
    {thread : Thread ProducerCondPc}
    {state : CondState}
    (leaves : state.control.producerRuns thread.id = false)
    (index : Nat)
    (created : Bool) :
    produceCond thread index created state =
      state.setProducer index thread.id .leaving := by
  rw [produceCond, if_pos leaves]

/-- A producer of a stopped condition-variable lab comes closer to its end. -/
theorem advanceProducerCond_closes
    {thread : Thread ProducerCondPc}
    {index : Nat}
    {wake : WakeOutcome}
    {created : Bool}
    {state next : CondState}
    (stopped : state.control.keepRunning = false)
    (present : state.producers[index]? = some thread)
    (advanced : advanceProducerCond thread index wake created state =
      some next) :
    ClosingStep condSteps condLab state next := by
  have leaves : state.control.producerRuns thread.id = false := by
    rw [LabControl.producerRuns, stopped]
    rfl
  have failed : (state.failProducer thread.id).control.producerRuns
      thread.id = false := rfl
  have closing : ∀ {pc : ProducerCondPc},
      next.producers = state.producers.set index ⟨thread.id, pc⟩ →
        next.consumers = state.consumers →
          next.control.pc = state.control.pc →
            next.control.keepRunning = false →
              condSteps.producer pc < condSteps.producer thread.pc →
                ClosingStep condSteps condLab state next :=
    fun producers consumers pc stays closer =>
      .producer present producers consumers pc stays closer
  cases place : thread.pc with
  | loopTest =>
      simp only [advanceProducerCond, place, leaves, Bool.false_eq_true,
        if_false, Option.some.injEq] at advanced
      subst advanced
      exact closing rfl rfl rfl stopped (by rw [place]; decide)
  | enter =>
      simp only [advanceProducerCond, place, producerWaitTest, leaves,
        Bool.and_false, Bool.false_eq_true, if_false,
        produceCond_of_stopped leaves, Option.some.injEq] at advanced
      subst advanced
      exact closing rfl rfl rfl stopped (by rw [place]; decide)
  | waiting =>
      simp only [advanceProducerCond, place] at advanced
      cases wake with
      | woken =>
          simp only [producerWaitTest, leaves, Bool.and_false,
            Bool.false_eq_true, if_false, produceCond_of_stopped leaves,
            Option.some.injEq] at advanced
          subst advanced
          exact closing rfl rfl rfl stopped (by rw [place]; decide)
      | timedOut =>
          simp only [produceCond_of_stopped leaves, Option.some.injEq]
            at advanced
          subst advanced
          exact closing rfl rfl rfl stopped (by rw [place]; decide)
      | failed =>
          simp only [produceCond_of_stopped failed, Option.some.injEq]
            at advanced
          subst advanced
          exact closing rfl rfl rfl rfl (by rw [place]; decide)
  | report msg =>
      simp only [advanceProducerCond, place, Option.some.injEq] at advanced
      subst advanced
      exact closing rfl rfl rfl stopped
        (by rw [place]; exact Nat.lt_succ_self 2)
  | leaving =>
      simp only [advanceProducerCond, place, Option.some.injEq] at advanced
      subst advanced
      exact closing rfl rfl rfl stopped (by rw [place]; decide)
  | finished => simp [advanceProducerCond, place] at advanced

/-- With the lab stopped, a consumer that holds the mutex leaves its loop. -/
theorem consumeCond_of_stopped
    {thread : Thread ConsumerCondPc}
    {state : CondState}
    (leaves : state.control.consumerRuns thread.id = false)
    (index : Nat)
    (allocation : Option (Nat → MessagePtr)) :
    consumeCond thread index allocation state =
      state.setConsumer index thread.id .leaving := by
  rw [consumeCond, if_pos leaves]

/-- So does a consumer. -/
theorem advanceConsumerCond_closes
    {thread : Thread ConsumerCondPc}
    {index : Nat}
    {wake : WakeOutcome}
    {allocation : Option (Nat → MessagePtr)}
    {state next : CondState}
    (stopped : state.control.keepRunning = false)
    (present : state.consumers[index]? = some thread)
    (advanced : advanceConsumerCond thread index wake allocation state =
      some next) :
    ClosingStep condSteps condLab state next := by
  have leaves : state.control.consumerRuns thread.id = false := by
    rw [LabControl.consumerRuns, stopped]
    rfl
  have failed : (state.failConsumer thread.id).control.consumerRuns
      thread.id = false := rfl
  have tested : ∀ allocation, consumerWaitTest thread index allocation state =
      state.setConsumer index thread.id .leaving := by
    intro allocation
    rw [consumerWaitTest, leaves, if_neg (by simp),
      consumeCond_of_stopped leaves]
  have closing : ∀ {pc : ConsumerCondPc},
      next.producers = state.producers →
        next.consumers = state.consumers.set index ⟨thread.id, pc⟩ →
          next.control.pc = state.control.pc →
            next.control.keepRunning = false →
              condSteps.consumer pc < condSteps.consumer thread.pc →
                ClosingStep condSteps condLab state next :=
    fun producers consumers pc stays closer =>
      .consumer present producers consumers pc stays closer
  cases place : thread.pc with
  | loopTest =>
      simp only [advanceConsumerCond, place, leaves, Bool.false_eq_true,
        if_false, Option.some.injEq] at advanced
      subst advanced
      exact closing rfl rfl rfl stopped (by rw [place]; decide)
  | enter =>
      simp only [advanceConsumerCond, place, tested] at advanced
      split at advanced <;> cases advanced <;>
        exact closing rfl rfl rfl stopped (by rw [place]; decide)
  | waiting =>
      simp only [advanceConsumerCond, place] at advanced
      cases wake with
      | woken =>
          simp only [tested, Option.some.injEq] at advanced
          subst advanced
          exact closing rfl rfl rfl stopped (by rw [place]; decide)
      | timedOut =>
          simp only [consumeCond_of_stopped leaves, Option.some.injEq]
            at advanced
          subst advanced
          exact closing rfl rfl rfl stopped (by rw [place]; decide)
      | failed =>
          simp only [consumeCond_of_stopped failed, Option.some.injEq]
            at advanced
          subst advanced
          exact closing rfl rfl rfl rfl (by rw [place]; decide)
  | report msg =>
      simp only [advanceConsumerCond, place, Option.some.injEq] at advanced
      subst advanced
      exact closing rfl rfl rfl stopped
        (by rw [place]; exact Nat.lt_succ_self 3)
  | discard msg =>
      simp only [advanceConsumerCond, place, Option.some.injEq] at advanced
      subst advanced
      exact closing rfl rfl rfl stopped
        (by rw [place]; exact Nat.lt_succ_self 2)
  | leaving =>
      simp only [advanceConsumerCond, place, Option.some.injEq] at advanced
      subst advanced
      exact closing rfl rfl rfl stopped (by rw [place]; decide)
  | finished => simp [advanceConsumerCond, place] at advanced

/-- Every step of a stopped condition-variable lab brings its end closer. -/
theorem condStep_closes
    {state next : CondState}
    {action : CondAction}
    (stopped : state.control.keepRunning = false)
    (stepped : condStep state action = some next) :
    ClosingStep condSteps condLab state next := by
  cases action with
  | main command => exact .main stepped
  | producer index wake created =>
      simp only [condStep, Option.bind_eq_some_iff] at stepped
      obtain ⟨thread, present, advanced⟩ := stepped
      exact advanceProducerCond_closes stopped present advanced
  | consumer index wake allocation =>
      simp only [condStep, Option.bind_eq_some_iff] at stepped
      obtain ⟨thread, present, advanced⟩ := stepped
      exact advanceConsumerCond_closes stopped present advanced

/-! ## Nobody is kept waiting -/

/-- The main thread is at its joins and every worker has finished. -/
structure LabState.Over
    {Queue ProducerPc ConsumerPc : Type}
    (producerEnd : ProducerPc)
    (consumerEnd : ConsumerPc)
    (state : LabState Queue ProducerPc ConsumerPc) : Prop where
  joining : state.control.pc = .joining
  producers : ∀ thread ∈ state.producers, thread.pc = producerEnd
  consumers : ∀ thread ∈ state.consumers, thread.pc = consumerEnd

/-- The main thread stops at the joins only. -/
theorem mainStep_eq_none_iff
    {Queue ProducerPc ConsumerPc : Type}
    {lab : Lab Queue ProducerPc ConsumerPc}
    {command : Command}
    {state : LabState Queue ProducerPc ConsumerPc} :
    lab.mainStep command state = none ↔ state.control.pc = .joining := by
  cases place : state.control.pc with
  | postEmpty left after => cases left <;> simp [Lab.mainStep, place]
  | loopTest | command | deactivate | cleanup | postFilled | joining =>
      simp [Lab.mainStep, place]

/-- A producer whose wait times out can always go on. -/
theorem advanceProducerSem_eq_none
    {thread : Thread ProducerSemPc}
    {index : Nat}
    {state : SemState}
    (blocked : advanceProducerSem thread index .timedOut false state = none) :
    thread.pc = .finished := by
  cases place : thread.pc with
  | finished => rfl
  | insert msg =>
      simp only [advanceProducerSem, place] at blocked
      split at blocked <;> cases blocked
  | loopTest | resizeTest | waitEmpty | timedOut | recheck | giveBackStopped
  | create | giveBackFailed | giveBackFull | discard | postFilled | report
  | leaving => simp [advanceProducerSem, place] at blocked

theorem advanceConsumerSem_eq_none
    {thread : Thread ConsumerSemPc}
    {index : Nat}
    {state : SemState}
    (blocked : advanceConsumerSem thread index .timedOut none state = none) :
    thread.pc = .finished := by
  cases place : thread.pc with
  | finished => rfl
  | resize =>
      simp only [advanceConsumerSem, place] at blocked
      split at blocked <;> cases blocked
  | extract =>
      simp only [advanceConsumerSem, place] at blocked
      split at blocked
      · cases blocked
      · split at blocked <;> cases blocked
  | loopTest | waitFilled | timedOut | recheck | giveBackStopped | giveBack
  | postEmpty | report | discard | leaving =>
      simp [advanceConsumerSem, place] at blocked

/-- The semaphore lab is stuck exactly when it is over. -/
theorem semMachine_stuck_iff
    (size : Nat)
    {state : SemState} :
    (semMachine size).Stuck state ↔ state.Over .finished .finished := by
  constructor
  · intro stuck
    constructor
    · exact mainStep_eq_none_iff.mp (stuck (.main .idle))
    · intro thread member
      obtain ⟨index, present⟩ := List.getElem?_of_mem member
      have blocked : (state.producers[index]?).bind _ = none :=
        stuck (.producer index .timedOut false)
      rw [present, Option.bind_some] at blocked
      exact advanceProducerSem_eq_none blocked
    · intro thread member
      obtain ⟨index, present⟩ := List.getElem?_of_mem member
      have blocked : (state.consumers[index]?).bind _ = none :=
        stuck (.consumer index .timedOut none)
      rw [present, Option.bind_some] at blocked
      exact advanceConsumerSem_eq_none blocked
  · intro isOver action
    cases action with
    | main command => exact mainStep_eq_none_iff.mpr isOver.joining
    | producer index wait created =>
        change (state.producers[index]?).bind _ = none
        rw [Option.bind_eq_none_iff]
        intro thread present
        simp only [advanceProducerSem,
          isOver.producers thread (List.mem_of_getElem? present)]
    | consumer index wait allocation =>
        change (state.consumers[index]?).bind _ = none
        rw [Option.bind_eq_none_iff]
        intro thread present
        simp only [advanceConsumerSem,
          isOver.consumers thread (List.mem_of_getElem? present)]

/-- The condition-variable lab is stuck exactly when it is over. -/
theorem condMachine_stuck_iff
    (size : Nat)
    {state : CondState} :
    (condMachine size).Stuck state ↔ state.Over .finished .finished := by
  constructor
  · intro stuck
    constructor
    · exact mainStep_eq_none_iff.mp (stuck (.main .idle))
    · intro thread member
      obtain ⟨index, present⟩ := List.getElem?_of_mem member
      have blocked : (state.producers[index]?).bind _ = none :=
        stuck (.producer index .timedOut false)
      rw [present, Option.bind_some] at blocked
      cases place : thread.pc with
      | finished => rfl
      | loopTest | enter | waiting | report | leaving =>
          simp [advanceProducerCond, place] at blocked
    · intro thread member
      obtain ⟨index, present⟩ := List.getElem?_of_mem member
      have blocked : (state.consumers[index]?).bind _ = none :=
        stuck (.consumer index .timedOut none)
      rw [present, Option.bind_some] at blocked
      cases place : thread.pc with
      | finished => rfl
      | enter =>
          simp only [advanceConsumerCond, place] at blocked
          split at blocked <;> cases blocked
      | loopTest | waiting | report | discard | leaving =>
          simp [advanceConsumerCond, place] at blocked
  · intro isOver action
    cases action with
    | main command => exact mainStep_eq_none_iff.mpr isOver.joining
    | producer index wake created =>
        change (state.producers[index]?).bind _ = none
        rw [Option.bind_eq_none_iff]
        intro thread present
        simp only [advanceProducerCond,
          isOver.producers thread (List.mem_of_getElem? present)]
    | consumer index wake allocation =>
        change (state.consumers[index]?).bind _ = none
        rw [Option.bind_eq_none_iff]
        intro thread present
        simp only [advanceConsumerCond,
          isOver.consumers thread (List.mem_of_getElem? present)]

end ThreadQueue
end OSaSP
