import OSaSP.ThreadQueue.Workers

/-!
# Counts and flags of the semaphore lab

While the operator loop runs, each count is the number of set flags, all of
them below the next id, as long as neither of two things happens: `malloc`
fails for the argument of an admitted thread, which leaves its flag set, or a
thread whose flag is set gives up because its wait fails, which leaves its
count as it was.
-/

namespace OSaSP
namespace ThreadQueue

/-! ## What is to hold -/

/-- The count of one kind of threads is the number of set flags. -/
structure FlagsCounted
    (active : Nat → Bool)
    (next : Nat)
    (count : Int) : Prop where
  counted : count = activeBelow active next
  bounded : ∀ id, active id = true → id < next

/-- Both counts are. -/
structure SemState.Consistent (state : SemState) : Prop where
  producers : FlagsCounted state.control.producerActive
    state.control.nextProducerId state.control.producerCount
  consumers : FlagsCounted state.control.consumerActive
    state.control.nextConsumerId state.control.consumerCount

/-- The creation of a thread that a command asks for fails. -/
def Command.fails : Command → Bool
  | .addProducer .noMemory | .addProducer .notCreated => true
  | .addConsumer .noMemory | .addConsumer .notCreated => true
  | _ => false

/-- A failed creation leaves flags, counts and ids as they were. -/
def SemState.FailureKeeps (state : SemState) : SemAction → Prop
  | .main command =>
      state.control.pc = .command → command.fails = true →
        (semLab.execute state command).control =
          { state.control with pc := .loopTest }
  | _ => True

/-- The operator does not quit. -/
def SemAction.goesOn : SemAction → Bool
  | .main .quit => false
  | _ => true

/-- No admitted thread misses the memory for its argument, and a thread whose
wait fails was told to stop before. -/
def SemState.StopsCounted (state : SemState) : SemAction → Prop
  | .main (.addProducer .noMemory) =>
      state.control.pc = .command →
        (maxThreads : Int) ≤ state.control.producerCount
  | .main (.addConsumer .noMemory) =>
      state.control.pc = .command →
        (maxThreads : Int) ≤ state.control.consumerCount
  | .producer index wait _ =>
      ∀ thread, state.producers[index]? = some thread →
        thread.pc = .waitEmpty → wait = .failed →
          state.control.producerActive thread.id = false
  | .consumer index wait _ =>
      ∀ thread, state.consumers[index]? = some thread →
        thread.pc = .waitFilled → wait = .failed →
          state.control.consumerActive thread.id = false
  | _ => True

/-! ## One kind of threads -/

namespace FlagsCounted

variable {active : Nat → Bool} {next : Nat} {count : Int}

theorem next_unset (flags : FlagsCounted active next count) :
    active next = false := by
  rw [← Bool.not_eq_true]
  intro set
  exact Nat.lt_irrefl next (flags.bounded next set)

/-- A thread that was not created leaves no trace. -/
theorem clear_next (flags : FlagsCounted active next count) :
    Function.update active next false = active := by
  rw [← flags.next_unset]
  exact Function.update_eq_self next active

/-- A thread is created with its flag set. -/
theorem join (flags : FlagsCounted active next count) :
    FlagsCounted (Function.update active next true) (next + 1)
      (count + 1) where
  counted := by
    have counted := flags.counted
    simp only [activeBelow, activeBelow_update active (Nat.le_refl next),
      Function.update_self, if_true]
    omega
  bounded id set := by
    by_cases new : id = next
    · omega
    · rw [Function.update_of_ne new] at set
      exact Nat.lt_succ_of_lt (flags.bounded id set)

/-- The main thread clears a flag and counts one thread less. -/
theorem remove
    (flags : FlagsCounted active next count)
    {id : Nat}
    (found : lastActive active next = some id) :
    FlagsCounted (Function.update active id false) next (count - 1) where
  counted := by
    have counted := flags.counted
    obtain ⟨below, set⟩ := lastActive_eq_some found
    have fewer := activeBelow_clear below set
    omega
  bounded other set := by
    by_cases same : other = id
    · rw [same, Function.update_self] at set
      cases set
    · rw [Function.update_of_ne same] at set
      exact flags.bounded other set

/-- Clearing a set flag without counting breaks the balance. -/
theorem not_clear
    (flags : FlagsCounted active next count)
    {id : Nat}
    (set : active id = true) :
    ¬FlagsCounted (Function.update active id false) next count := by
  intro cleared
  have fewer := activeBelow_clear (flags.bounded id set) set
  have before := flags.counted
  have after := cleared.counted
  omega

/-- So does a set flag without a thread. -/
theorem not_set (active : Nat → Bool) (next : Nat) (count : Int) :
    ¬FlagsCounted (Function.update active next true) next count := by
  intro flags
  exact Nat.lt_irrefl next
    (flags.bounded next (Function.update_self next true active))

end FlagsCounted

/-- One kind of threads with its flags and counters.  A thread whose flag is
no longer set leaves its loop; the places past that point are the ones that
`quits` tells. -/
structure Counted
    {Pc : Type}
    (quits : Pc → Bool)
    (pool : List (Thread Pc))
    (active : Nat → Bool)
    (next : Nat)
    (count : Int) : Prop where
  crew : Crew pool active next count
  flags : FlagsCounted active next count
  quit : ∀ thread ∈ pool, quits thread.pc = true → active thread.id = false

namespace Counted

variable {Pc : Type} {quits : Pc → Bool} {pool : List (Thread Pc)}
  {active : Nat → Bool} {next : Nat} {count : Int}

theorem empty : Counted quits [] (fun _ => false) 0 0 where
  crew := .empty _
  flags := ⟨rfl, fun _ set => by cases set⟩
  quit _ member := by cases member

theorem join
    (side : Counted quits pool active next count)
    {start : Pc}
    (begins : quits start = false) :
    Counted quits (pool ++ [⟨next, start⟩])
      (Function.update active next true) (next + 1) (count + 1) where
  crew := side.crew.join start
  flags := side.flags.join
  quit thread member stopped := by
    rcases List.mem_append.mp member with earlier | new
    · have unset := side.quit thread earlier stopped
      have old : thread.id ≠ next := Nat.ne_of_lt (side.crew.id_lt earlier)
      rw [Function.update_of_ne old]
      exact unset
    · rw [List.mem_singleton.mp new, begins] at stopped
      cases stopped

theorem remove
    (side : Counted quits pool active next count)
    {id : Nat}
    (found : lastActive active next = some id) :
    Counted quits pool (Function.update active id false) next
      (count - 1) where
  crew := side.crew.remove found
  flags := side.flags.remove found
  quit thread member stopped := by
    by_cases same : thread.id = id
    · rw [same, Function.update_self]
    · rw [Function.update_of_ne same]
      exact side.quit thread member stopped

/-- A thread moves, past the end of its loop only when its flag is not set. -/
theorem move
    (side : Counted quits pool active next count)
    {index : Nat}
    {thread : Thread Pc}
    (present : pool[index]? = some thread)
    {new : Pc}
    (leaves : quits new = true → active thread.id = false) :
    Counted quits (pool.set index ⟨thread.id, new⟩) active next count where
  crew := side.crew.move present new
  flags := side.flags
  quit moved member stopped := by
    rcases List.mem_or_eq_of_mem_set member with old | rfl
    · exact side.quit moved old stopped
    · exact leaves stopped

end Counted

/-! ## Steps of the workers -/

/-- The places of a producer past its loop. -/
def ProducerSemPc.quits : ProducerSemPc → Bool
  | .giveBackStopped | .leaving | .finished => true
  | _ => false

/-- The places of a consumer past its loop. -/
def ConsumerSemPc.quits : ConsumerSemPc → Bool
  | .giveBackStopped | .leaving | .finished => true
  | _ => false

/-- A step of a producer stays in the loop, quits after it saw that it should,
or clears its flag: at the end, or because its wait failed. -/
inductive ProducerQuits
    (state : SemState)
    (thread : Thread ProducerSemPc)
    (wait : WaitOutcome)
    (new : ProducerSemPc) : LabControl → Prop
  | stays :
      new.quits = false →
      ProducerQuits state thread wait new state.control
  | leaves :
      thread.pc.quits = true ∨
        state.control.producerRuns thread.id = false →
      ProducerQuits state thread wait new state.control
  | clears :
      thread.pc.quits = true ∨ thread.pc = .waitEmpty ∧ wait = .failed →
      ProducerQuits state thread wait new
        (state.control.stopProducer thread.id)

/-- The same for a consumer. -/
inductive ConsumerQuits
    (state : SemState)
    (thread : Thread ConsumerSemPc)
    (wait : WaitOutcome)
    (new : ConsumerSemPc) : LabControl → Prop
  | stays :
      new.quits = false →
      ConsumerQuits state thread wait new state.control
  | leaves :
      thread.pc.quits = true ∨
        state.control.consumerRuns thread.id = false →
      ConsumerQuits state thread wait new state.control
  | clears :
      thread.pc.quits = true ∨ thread.pc = .waitFilled ∧ wait = .failed →
      ConsumerQuits state thread wait new
        (state.control.stopConsumer thread.id)

theorem advanceProducerSem_quits
    {thread : Thread ProducerSemPc}
    {index : Nat}
    {wait : WaitOutcome}
    {created : Bool}
    {state next : SemState}
    (advanced : advanceProducerSem thread index wait created state =
      some next) :
    ∃ new,
      next.producers = state.producers.set index ⟨thread.id, new⟩ ∧
        next.consumers = state.consumers ∧
        ProducerQuits state thread wait new next.control := by
  cases place : thread.pc with
  | waitEmpty =>
      simp only [advanceProducerSem, place] at advanced
      cases wait with
      | acquired =>
          simp only at advanced
          split at advanced <;> cases advanced
          exact ⟨.recheck, rfl, rfl, .stays rfl⟩
      | timedOut =>
          cases advanced
          exact ⟨.timedOut, rfl, rfl, .stays rfl⟩
      | failed =>
          cases advanced
          exact ⟨.leaving, rfl, rfl, .clears (.inr ⟨place, rfl⟩)⟩
  | create =>
      simp only [advanceProducerSem, place] at advanced
      split at advanced <;> cases advanced
      · exact ⟨.insert _, rfl, rfl, .stays rfl⟩
      · exact ⟨.giveBackFailed, rfl, rfl, .stays rfl⟩
  | insert msg =>
      simp only [advanceProducerSem, place] at advanced
      split at advanced <;> cases advanced
      · exact ⟨.giveBackFull msg, rfl, rfl, .stays rfl⟩
      · exact ⟨.postFilled msg, rfl, rfl, .stays rfl⟩
  | loopTest | timedOut | recheck =>
      simp only [advanceProducerSem, place, Option.some.injEq] at advanced
      subst advanced
      refine ⟨_, rfl, rfl, ?_⟩
      cases runs : state.control.producerRuns thread.id with
      | true => exact .stays rfl
      | false => exact .leaves (.inr runs)
  | resizeTest =>
      simp only [advanceProducerSem, place, Option.some.injEq] at advanced
      subst advanced
      refine ⟨_, rfl, rfl, .stays ?_⟩
      split <;> rfl
  | giveBackFailed | giveBackFull | discard | postFilled | report =>
      simp only [advanceProducerSem, place, Option.some.injEq] at advanced
      subst advanced
      exact ⟨_, rfl, rfl, .stays rfl⟩
  | giveBackStopped =>
      simp only [advanceProducerSem, place, Option.some.injEq] at advanced
      subst advanced
      exact ⟨_, rfl, rfl, .leaves (.inl (by rw [place]; rfl))⟩
  | leaving =>
      simp only [advanceProducerSem, place, Option.some.injEq] at advanced
      subst advanced
      exact ⟨_, rfl, rfl, .clears (.inl (by rw [place]; rfl))⟩
  | finished => simp [advanceProducerSem, place] at advanced

theorem advanceConsumerSem_quits
    {thread : Thread ConsumerSemPc}
    {index : Nat}
    {wait : WaitOutcome}
    {allocation : Option (Nat → MessagePtr)}
    {state next : SemState}
    (advanced : advanceConsumerSem thread index wait allocation state =
      some next) :
    ∃ new,
      next.consumers = state.consumers.set index ⟨thread.id, new⟩ ∧
        next.producers = state.producers ∧
        ConsumerQuits state thread wait new next.control := by
  cases place : thread.pc with
  | resize =>
      simp only [advanceConsumerSem, place] at advanced
      split at advanced <;> cases advanced
      · exact ⟨.waitFilled, rfl, rfl, .stays rfl⟩
      · exact ⟨.loopTest, rfl, rfl, .stays rfl⟩
  | waitFilled =>
      simp only [advanceConsumerSem, place] at advanced
      cases wait with
      | acquired =>
          simp only at advanced
          split at advanced <;> cases advanced
          exact ⟨.recheck, rfl, rfl, .stays rfl⟩
      | timedOut =>
          cases advanced
          exact ⟨.timedOut, rfl, rfl, .stays rfl⟩
      | failed =>
          cases advanced
          exact ⟨.leaving, rfl, rfl, .clears (.inr ⟨place, rfl⟩)⟩
  | extract =>
      simp only [advanceConsumerSem, place] at advanced
      split at advanced
      · cases advanced
        exact ⟨.giveBack, rfl, rfl, .stays rfl⟩
      · split at advanced <;> cases advanced
        · exact ⟨.giveBack, rfl, rfl, .stays rfl⟩
        · exact ⟨.postEmpty _, rfl, rfl, .stays rfl⟩
  | loopTest | timedOut | recheck =>
      simp only [advanceConsumerSem, place, Option.some.injEq] at advanced
      subst advanced
      refine ⟨_, rfl, rfl, ?_⟩
      cases runs : state.control.consumerRuns thread.id with
      | true => exact .stays rfl
      | false => exact .leaves (.inr runs)
  | giveBack | postEmpty | report | discard =>
      simp only [advanceConsumerSem, place, Option.some.injEq] at advanced
      subst advanced
      exact ⟨_, rfl, rfl, .stays rfl⟩
  | giveBackStopped =>
      simp only [advanceConsumerSem, place, Option.some.injEq] at advanced
      subst advanced
      exact ⟨_, rfl, rfl, .leaves (.inl (by rw [place]; rfl))⟩
  | leaving =>
      simp only [advanceConsumerSem, place, Option.some.injEq] at advanced
      subst advanced
      exact ⟨_, rfl, rfl, .clears (.inl (by rw [place]; rfl))⟩
  | finished => simp [advanceConsumerSem, place] at advanced

/-! ## The operator loop -/

/-- The main thread is in its loop, or on the way back to it. -/
def MainPc.loops : MainPc → Bool
  | .loopTest | .command | .cleanup .loopTest | .postEmpty _ .loopTest
  | .postFilled _ .loopTest => true
  | _ => false

/-- The counts while the lab is running. -/
structure FlagsKept (state : SemState) : Prop where
  running : state.control.keepRunning = true
  looping : state.control.pc.loops = true
  producers : Counted ProducerSemPc.quits state.producers
    state.control.producerActive state.control.nextProducerId
    state.control.producerCount
  consumers : Counted ConsumerSemPc.quits state.consumers
    state.control.consumerActive state.control.nextConsumerId
    state.control.consumerCount

theorem FlagsKept.consistent
    {state : SemState}
    (kept : FlagsKept state) :
    state.Consistent :=
  ⟨kept.producers.flags, kept.consumers.flags⟩

theorem semStart_flagsKept (size : Nat) (block : Nat → MessagePtr) :
    FlagsKept (semStart size block) :=
  ⟨rfl, rfl, .empty, .empty⟩

section Steps

variable {state next : SemState}

theorem FlagsKept.execute
    (kept : FlagsKept state)
    (atCommand : state.control.pc = .command)
    {command : Command}
    (stays : (SemAction.main command).goesOn = true)
    (meets : state.StopsCounted (.main command)) :
    FlagsKept (semLab.execute state command) := by
  obtain ⟨running, looping, producers, consumers⟩ := kept
  cases command with
  | idle | requestResize op => exact ⟨running, rfl, producers, consumers⟩
  | quit => cases stays
  | addProducer outcome =>
      unfold Lab.execute LabState.addProducer
      dsimp only
      split
      · rename_i admitted
        cases outcome with
        | noMemory => exact absurd (meets atCommand) (by omega)
        | notCreated =>
            refine ⟨running, rfl, ?_, consumers⟩
            change Counted _ _ (Function.update _ _ _) _ _
            rw [producers.flags.clear_next]
            exact producers
        | created => exact ⟨running, rfl, producers.join rfl, consumers⟩
      · exact ⟨running, rfl, producers, consumers⟩
  | addConsumer outcome =>
      unfold Lab.execute LabState.addConsumer
      dsimp only
      split
      · rename_i admitted
        cases outcome with
        | noMemory => exact absurd (meets atCommand) (by omega)
        | notCreated =>
            refine ⟨running, rfl, producers, ?_⟩
            change Counted _ _ (Function.update _ _ _) _ _
            rw [consumers.flags.clear_next]
            exact consumers
        | created => exact ⟨running, rfl, producers, consumers.join rfl⟩
      · exact ⟨running, rfl, producers, consumers⟩
  | removeProducer =>
      unfold Lab.execute LabState.removeProducer
      dsimp only
      split
      · exact ⟨running, rfl, producers, consumers⟩
      · rename_i found
        exact ⟨running, rfl, producers.remove found, consumers⟩
  | removeConsumer =>
      unfold Lab.execute LabState.removeConsumer
      dsimp only
      split
      · exact ⟨running, rfl, producers, consumers⟩
      · rename_i found
        exact ⟨running, rfl, producers, consumers.remove found⟩

theorem FlagsKept.mainStep
    (kept : FlagsKept state)
    {command : Command}
    (stays : (SemAction.main command).goesOn = true)
    (meets : state.StopsCounted (.main command))
    (stepped : semLab.mainStep command state = some next) :
    FlagsKept next := by
  have looping := kept.looping
  cases place : state.control.pc with
  | command =>
      simp only [Lab.mainStep, place, Option.some.injEq] at stepped
      subst stepped
      exact kept.execute place stays meets
  | loopTest =>
      simp only [Lab.mainStep, place, kept.running, if_true,
        Option.some.injEq] at stepped
      subst stepped
      exact ⟨kept.running, rfl, kept.producers, kept.consumers⟩
  | deactivate | joining =>
      rw [place] at looping
      cases looping
  | cleanup after | postFilled left after =>
      simp only [Lab.mainStep, place, Option.some.injEq] at stepped
      subst stepped
      rw [place] at looping
      cases after with
      | loopTest => exact ⟨kept.running, rfl, kept.producers, kept.consumers⟩
      | secondCleanup | joining => cases looping
  | postEmpty left after =>
      rw [place] at looping
      cases after with
      | loopTest =>
          cases left with
          | zero | succ left =>
              simp only [Lab.mainStep, place, Option.some.injEq] at stepped
              subst stepped
              exact ⟨kept.running, rfl, kept.producers, kept.consumers⟩
      | secondCleanup | joining => cases looping

/-- A flag that is not set is not cleared. -/
theorem LabControl.stopProducer_of_unset
    {control : LabControl}
    {id : Nat}
    (unset : control.producerActive id = false) :
    control.stopProducer id = control := by
  unfold LabControl.stopProducer
  rw [← unset, Function.update_eq_self]

theorem LabControl.stopConsumer_of_unset
    {control : LabControl}
    {id : Nat}
    (unset : control.consumerActive id = false) :
    control.stopConsumer id = control := by
  unfold LabControl.stopConsumer
  rw [← unset, Function.update_eq_self]

/-- While the lab runs, a producer that should not go on has its flag
unset. -/
theorem FlagsKept.producer_unset
    (kept : FlagsKept state)
    {id : Nat}
    (stops : state.control.producerRuns id = false) :
    state.control.producerActive id = false := by
  rw [LabControl.producerRuns, kept.running, Bool.true_and] at stops
  exact stops

theorem FlagsKept.consumer_unset
    (kept : FlagsKept state)
    {id : Nat}
    (stops : state.control.consumerRuns id = false) :
    state.control.consumerActive id = false := by
  rw [LabControl.consumerRuns, kept.running, Bool.true_and] at stops
  exact stops

/-- A producer whose flag is unset by the time it quits changes no flag. -/
theorem FlagsKept.producerQuits
    (kept : FlagsKept state)
    {thread : Thread ProducerSemPc}
    {index : Nat}
    {wait : WaitOutcome}
    {new : ProducerSemPc}
    (present : state.producers[index]? = some thread)
    (told : thread.pc = .waitEmpty → wait = .failed →
      state.control.producerActive thread.id = false)
    (quits : ProducerQuits state thread wait new next.control) :
    next.control = state.control ∧
      (new.quits = true → state.control.producerActive thread.id = false) := by
  have member := List.mem_of_getElem? present
  generalize next.control = control at quits
  cases quits with
  | stays inside =>
      refine ⟨rfl, fun outside => ?_⟩
      rw [inside] at outside
      cases outside
  | leaves reason =>
      refine ⟨rfl, fun _ => ?_⟩
      rcases reason with before | stops
      · exact kept.producers.quit thread member before
      · exact kept.producer_unset stops
  | clears reason =>
      have unset : state.control.producerActive thread.id = false := by
        rcases reason with before | ⟨place, failed⟩
        · exact kept.producers.quit thread member before
        · exact told place failed
      exact ⟨LabControl.stopProducer_of_unset unset, fun _ => unset⟩

theorem FlagsKept.consumerQuits
    (kept : FlagsKept state)
    {thread : Thread ConsumerSemPc}
    {index : Nat}
    {wait : WaitOutcome}
    {new : ConsumerSemPc}
    (present : state.consumers[index]? = some thread)
    (told : thread.pc = .waitFilled → wait = .failed →
      state.control.consumerActive thread.id = false)
    (quits : ConsumerQuits state thread wait new next.control) :
    next.control = state.control ∧
      (new.quits = true → state.control.consumerActive thread.id = false) := by
  have member := List.mem_of_getElem? present
  generalize next.control = control at quits
  cases quits with
  | stays inside =>
      refine ⟨rfl, fun outside => ?_⟩
      rw [inside] at outside
      cases outside
  | leaves reason =>
      refine ⟨rfl, fun _ => ?_⟩
      rcases reason with before | stops
      · exact kept.consumers.quit thread member before
      · exact kept.consumer_unset stops
  | clears reason =>
      have unset : state.control.consumerActive thread.id = false := by
        rcases reason with before | ⟨place, failed⟩
        · exact kept.consumers.quit thread member before
        · exact told place failed
      exact ⟨LabControl.stopConsumer_of_unset unset, fun _ => unset⟩

/-- Steps that meet the condition keep counts and flags together. -/
theorem FlagsKept.step
    {action : SemAction}
    (kept : FlagsKept state)
    (stays : action.goesOn = true)
    (meets : state.StopsCounted action)
    (stepped : semStep state action = some next) :
    FlagsKept next := by
  cases action with
  | main command => exact kept.mainStep stays meets stepped
  | producer index wait created =>
      simp only [semStep, Option.bind_eq_some_iff] at stepped
      obtain ⟨thread, present, advanced⟩ := stepped
      obtain ⟨new, producers, consumers, quits⟩ :=
        advanceProducerSem_quits advanced
      obtain ⟨control, unset⟩ :=
        kept.producerQuits present (meets thread present) quits
      have moved := kept.producers.move present unset
      rw [← producers, ← control] at moved
      refine ⟨control ▸ kept.running, control ▸ kept.looping, moved, ?_⟩
      rw [consumers, control]
      exact kept.consumers
  | consumer index wait allocation =>
      simp only [semStep, Option.bind_eq_some_iff] at stepped
      obtain ⟨thread, present, advanced⟩ := stepped
      obtain ⟨new, consumers, producers, quits⟩ :=
        advanceConsumerSem_quits advanced
      obtain ⟨control, unset⟩ :=
        kept.consumerQuits present (meets thread present) quits
      have moved := kept.consumers.move present unset
      rw [← consumers, ← control] at moved
      refine ⟨control ▸ kept.running, control ▸ kept.looping, ?_, moved⟩
      rw [producers, control]
      exact kept.producers

/-- A thread without its memory leaves a flag set, a thread that gives up
leaves a count. -/
theorem FlagsKept.not_consistent_of_misses
    {action : SemAction}
    (kept : FlagsKept state)
    (misses : ¬state.StopsCounted action)
    (stepped : semStep state action = some next) :
    ¬next.Consistent := by
  cases action with
  | producer index wait created =>
      simp only [SemState.StopsCounted, Classical.not_forall,
        Bool.not_eq_false] at misses
      obtain ⟨thread, present, place, rfl, set⟩ := misses
      simp only [semStep, present, Option.bind_some, advanceProducerSem,
        place, Option.some.injEq] at stepped
      subst stepped
      intro consistent
      exact kept.producers.flags.not_clear set consistent.producers
  | consumer index wait allocation =>
      simp only [SemState.StopsCounted, Classical.not_forall,
        Bool.not_eq_false] at misses
      obtain ⟨thread, present, place, rfl, set⟩ := misses
      simp only [semStep, present, Option.bind_some, advanceConsumerSem,
        place, Option.some.injEq] at stepped
      subst stepped
      intro consistent
      exact kept.consumers.flags.not_clear set consistent.consumers
  | main command =>
      unfold SemState.StopsCounted at misses
      split at misses
      · rename_i same
        cases same
        simp only [Classical.not_imp, Int.not_le] at misses
        obtain ⟨place, admitted⟩ := misses
        simp only [semStep, Lab.mainStep, place, Lab.execute,
          LabState.addProducer, if_pos admitted, Option.some.injEq] at stepped
        subst stepped
        intro consistent
        exact FlagsCounted.not_set _ _ _ consistent.producers
      · rename_i same
        cases same
        simp only [Classical.not_imp, Int.not_le] at misses
        obtain ⟨place, admitted⟩ := misses
        simp only [semStep, Lab.mainStep, place, Lab.execute,
          LabState.addConsumer, if_pos admitted, Option.some.injEq] at stepped
        subst stepped
        intro consistent
        exact FlagsCounted.not_set _ _ _ consistent.consumers
      · rename_i same
        cases same
      · rename_i same
        cases same
      · exact absurd trivial misses

/-- A creation that fails in `pthread_create` changes nothing. -/
theorem FlagsKept.failureKeeps
    {action : SemAction}
    (kept : FlagsKept state)
    (meets : state.StopsCounted action) :
    state.FailureKeeps action := by
  cases action with
  | producer | consumer => trivial
  | main command =>
      intro atCommand fails
      cases command with
      | addProducer outcome =>
          unfold Lab.execute LabState.addProducer
          dsimp only
          split
          · rename_i admitted
            cases outcome with
            | noMemory => exact absurd (meets atCommand) (by omega)
            | notCreated =>
                dsimp only [LabState.goto]
                rw [kept.producers.flags.clear_next]
            | created => cases fails
          · rfl
      | addConsumer outcome =>
          unfold Lab.execute LabState.addConsumer
          dsimp only
          split
          · rename_i admitted
            cases outcome with
            | noMemory => exact absurd (meets atCommand) (by omega)
            | notCreated =>
                dsimp only [LabState.goto]
                rw [kept.consumers.flags.clear_next]
            | created => cases fails
          · rfl
      | idle | removeProducer | removeConsumer | requestResize | quit =>
          cases fails

end Steps

/-! ## Every run -/

/-- In a run of the semaphore lab in which the operator does not quit, the
counts are the numbers of set flags in every state, and no failed creation
changes them, exactly when `malloc` gives every admitted thread its argument
and no thread whose flag is set gives up waiting. -/
theorem flags_counted_iff
    (size : Nat)
    (block : Nat → MessagePtr)
    (actions : List SemAction)
    (final : SemState)
    (goesOn : ∀ action ∈ actions, action.goesOn = true)
    (executed :
      (semMachine size).run (semStart size block) actions = some final) :
    ((semMachine size).EveryState SemState.Consistent (semStart size block)
        actions ∧
      (semMachine size).EveryStep SemState.FailureKeeps (semStart size block)
        actions) ↔
      (semMachine size).EveryStep SemState.StopsCounted (semStart size block)
        actions := by
  have permitted : (semMachine size).EveryStep
      (fun _ action => action.goesOn = true) (semStart size block) actions :=
    .of_actions goesOn _
  have starts := semStart_flagsKept size block
  have preserved : ∀ state action next,
      FlagsKept state → action.goesOn = true → state.StopsCounted action →
        (semMachine size).step state action = some next → FlagsKept next :=
    fun _ _ _ kept stays meets stepped => kept.step stays meets stepped
  have exactly := Machine.everyState_iff_everyStep_within
    (fun _ kept => FlagsKept.consistent kept) preserved
    (fun _ _ _ kept _ misses stepped =>
      FlagsKept.not_consistent_of_misses kept misses stepped)
    starts permitted executed
  rw [exactly]
  refine and_iff_left_of_imp fun meets => ?_
  exact Machine.EveryStep.of_invariant FlagsKept
    (fun state action next kept both =>
      preserved state action next kept both.1 both.2)
    (fun _ _ kept both => FlagsKept.failureKeeps kept both.2)
    starts (permitted.and meets)

/-! ## The two ways to lose count -/

/-- `malloc` fails for the argument of the first producer. -/
def noMemorySchedule : List SemAction :=
  [.main .idle, .main (.addProducer .noMemory)]

/-- The first producer gives up when it waits for a free slot. -/
def givesUpSchedule : List SemAction :=
  [.main .idle, .main (.addProducer .created)] ++
    List.replicate 3 (.producer 0 .failed true)

/-- Not every run of the lab keeps counts and flags together: the flag of the
first schedule stays set for no thread, and the count of the second one stays
at one without a set flag. -/
theorem not_every_run_consistent :
    ¬∀ actions final,
      (∀ action ∈ actions, SemAction.goesOn action = true) →
        (semMachine initialQueueSize).run
            (semStart initialQueueSize fun _ => 0) actions = some final →
          (semMachine initialQueueSize).EveryState SemState.Consistent
            (semStart initialQueueSize fun _ => 0) actions := by
  intro every
  have consistent := (every noMemorySchedule _ (by decide) rfl).last rfl
  exact absurd (consistent.producers.bounded 0 rfl) (Nat.lt_irrefl 0)

theorem givesUpSchedule_not_consistent :
    ∃ final,
      (semMachine initialQueueSize).run
          (semStart initialQueueSize fun _ => 0) givesUpSchedule =
        some final ∧
      ¬final.Consistent := by
  refine ⟨_, rfl, fun consistent => ?_⟩
  exact absurd consistent.producers.counted (by decide)

/-- In a run where `pthread_create` fails and a producer is removed they are
together. -/
theorem notCreated_consistent :
    (semMachine initialQueueSize).EveryState SemState.Consistent
        (semStart initialQueueSize fun _ => 0)
        [.main .idle, .main (.addProducer .created), .main .idle,
          .main (.addProducer .notCreated), .main .idle,
          .main .removeProducer] ∧
      (semMachine initialQueueSize).EveryStep SemState.FailureKeeps
        (semStart initialQueueSize fun _ => 0)
        [.main .idle, .main (.addProducer .created), .main .idle,
          .main (.addProducer .notCreated), .main .idle,
          .main .removeProducer] := by
  refine (flags_counted_iff initialQueueSize (fun _ => 0) _ _ (by decide)
    rfl).mpr ?_
  refine ⟨trivial, fun _ _ => ⟨trivial, fun _ _ => ⟨trivial, fun _ _ => ?_⟩⟩⟩
  exact ⟨trivial, fun _ _ => ⟨trivial, fun _ _ => ⟨trivial, fun _ _ =>
    trivial⟩⟩⟩

end ThreadQueue
end OSaSP
