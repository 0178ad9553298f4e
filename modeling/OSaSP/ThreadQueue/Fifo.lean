import OSaSP.ThreadQueue.SemMoves
import OSaSP.ThreadQueue.CondMoves

/-!
# Order of the messages in the thread version

Both queues are first in, first out, and stay inside their buffers, as long as
no producer inserts right after a resize that landed exactly on the count.
Such an insertion writes one slot behind the buffer.  The condition on the
runs is exact for either queue, for every number of threads, every command of
the operator, every outcome of an allocation and every interleaving.
-/

namespace OSaSP
namespace ThreadQueue

/-! ## Moves of a queue -/

/-- A resize request only changes the request. -/
theorem RingInvariant.request
    {queue : CircularQueue}
    {history : History}
    (invariant : RingInvariant queue history)
    (op : ResizeOp) :
    RingInvariant (queue.request op) history := by
  obtain ⟨request, target, requested⟩ := queue.request_eq op
  rw [requested]
  exact invariant.withRequest request target

/-- A served request moves the ring or leaves it alone. -/
theorem RingInvariant.serve
    {allocates : Prop}
    {queue next : CircularQueue}
    {history record : History}
    (invariant : RingInvariant queue history)
    (served : ServeMove allocates queue history next record) :
    RingInvariant next record := by
  cases served with
  | declined _ => exact invariant.withRequest _ _
  | resized block accepted =>
      obtain ⟨positive, fits⟩ :=
        (CircularQueue.refuses_eq_false_iff _ _).mp accepted
      exact (invariant.moveTo (by omega) (by omega) block).withRequest _ _

/-- Every move keeps the ring invariant, an insertion as long as no resize
landed exactly on the count just before. -/
theorem RingInvariant.move
    {occasion : Occasion}
    {queue next : CircularQueue}
    {history record : History}
    (invariant : RingInvariant queue history)
    (notLanded : occasion.inserts → queue.resizeRequest = .none →
      queue.count < queue.capacity → history.landedExactly = false)
    (moved : QueueMove occasion queue history next record) :
    RingInvariant next record := by
  cases moved with
  | kept => exact invariant
  | requested op _ => exact invariant.request op
  | inserted msg inserts noRequest notFull =>
      have room := Nat.lt_of_le_of_ne invariant.countBound notFull
      exact invariant.insert room (notLanded inserts noRequest room) msg
  | extracted stored => exact invariant.extract stored
  | served _ _ served => exact invariant.serve served
  | extractedServed stored _ _ served =>
      exact (invariant.extract stored).serve served

/-! ## The semaphore queue -/

/-- The ring invariant of the semaphore queue. -/
def SemInvariant (state : SemState) : Prop :=
  RingInvariant state.queue.toCircularQueue state.history

/-- First in, first out and inside the buffer. -/
def SemSafe (state : SemState) : Prop :=
  RingSafe state.queue.toCircularQueue state.history

/-- A producer that is about to insert does not follow a resize that landed
exactly on the count. -/
def SemInsertsSafely (state : SemState) : SemAction → Prop
  | .producer index _ _ =>
      ∀ thread msg, state.producers[index]? = some thread →
        thread.pc = .insert msg → state.queue.refusesMessage = false →
          state.history.landedExactly = false
  | _ => True

/-- Every step that inserts safely keeps the ring invariant. -/
theorem SemInvariant.step
    {state next : SemState}
    {action : SemAction}
    (invariant : SemInvariant state)
    (meets : SemInsertsSafely state action)
    (stepped : semStep state action = some next) :
    SemInvariant next := by
  refine RingInvariant.move invariant ?_ (semStep_queueMove stepped)
  intro inserts noRequest room
  cases action with
  | main | consumer => exact inserts.elim
  | producer index wait created =>
      obtain ⟨thread, msg, present, place⟩ := inserts
      apply meets thread msg present place
      simp [CircularQueueSem.refusesMessage, noRequest, room]

/-- An insertion right after a resize that landed exactly on the count leaves
the buffer. -/
theorem SemInvariant.not_safe_of_misses
    {state next : SemState}
    {action : SemAction}
    (invariant : SemInvariant state)
    (misses : ¬SemInsertsSafely state action)
    (stepped : semStep state action = some next) :
    ¬SemSafe next := by
  cases action with
  | producer index wait created =>
      simp only [SemInsertsSafely, Classical.not_forall, Bool.not_eq_false]
        at misses
      obtain ⟨thread, msg, present, place, accepts, landed⟩ := misses
      simp only [semStep, present, Option.bind_some, advanceProducerSem,
        place, accepts, Bool.false_eq_true, if_false, Option.some.injEq]
        at stepped
      subst stepped
      exact RingInvariant.not_safe_insert invariant landed msg
  | main | consumer => exact absurd trivial misses

theorem semInvariant_start
    {size : Nat}
    (positive : 0 < size)
    (block : Nat → MessagePtr) :
    SemInvariant (semStart size block) :=
  RingInvariant.init positive block

/-! ## The condition-variable queue -/

/-- The ring invariant of the condition-variable queue. -/
def CondInvariant (state : CondState) : Prop :=
  RingInvariant state.queue.toCircularQueue state.history

/-- First in, first out and inside the buffer. -/
def CondSafe (state : CondState) : Prop :=
  RingSafe state.queue.toCircularQueue state.history

/-- A producer that is about to insert does not follow a resize that landed
exactly on the count. -/
def CondInsertsSafely (state : CondState) : CondAction → Prop
  | .producer index wake created =>
      ∀ thread, state.producers[index]? = some thread →
        thread.pc.proceeds wake = true →
          state.control.producerRuns thread.id = true →
            state.queue.refusesMessage = false → created = true →
              state.history.landedExactly = false
  | _ => True

/-- Every step that inserts safely keeps the ring invariant. -/
theorem CondInvariant.step
    {state next : CondState}
    {action : CondAction}
    (invariant : CondInvariant state)
    (meets : CondInsertsSafely state action)
    (stepped : condStep state action = some next) :
    CondInvariant next := by
  refine RingInvariant.move invariant ?_ (condStep_move stepped).queue
  intro inserts _ _
  cases action with
  | main | consumer => exact inserts.elim
  | producer index wake created =>
      obtain ⟨thread, present, proceeds, runs, accepts, created⟩ := inserts
      exact meets thread present proceeds runs accepts created

/-- A producer that runs and is accepted inserts. -/
theorem produceCond_of_accepts
    {state : CondState}
    {thread : Thread ProducerCondPc}
    (runs : state.control.producerRuns thread.id = true)
    (accepts : state.queue.refusesMessage = false)
    (index : Nat) :
    produceCond thread index true state =
      (CondState.insert { state with heap := state.heap.createMessage }
        state.heap.allocated).setProducer index thread.id
          (.report state.heap.allocated) := by
  simp [produceCond, runs, accepts]

/-- An insertion right after a resize that landed exactly on the count leaves
the buffer. -/
theorem CondInvariant.not_safe_of_misses
    {state next : CondState}
    {action : CondAction}
    (invariant : CondInvariant state)
    (misses : ¬CondInsertsSafely state action)
    (stepped : condStep state action = some next) :
    ¬CondSafe next := by
  cases action with
  | producer index wake created =>
      simp only [CondInsertsSafely, Classical.not_forall, Bool.not_eq_false]
        at misses
      obtain ⟨thread, present, proceeds, runs, accepts, rfl, landed⟩ := misses
      have notSafe := RingInvariant.not_safe_insert invariant landed
        state.heap.allocated
      have inserts := produceCond_of_accepts runs accepts index
      have waits : ThreadQueue.producerWaitTest thread index true state =
          produceCond thread index true state := by
        simp [ThreadQueue.producerWaitTest, accepts]
      simp only [condStep, present, Option.bind_some, advanceProducerCond]
        at stepped
      cases place : thread.pc with
      | enter =>
          rw [place] at stepped
          rw [waits, inserts, Option.some.injEq] at stepped
          subst stepped
          exact notSafe
      | waiting =>
          rw [place] at stepped
          cases wake with
          | woken =>
              rw [waits, inserts, Option.some.injEq] at stepped
              subst stepped
              exact notSafe
          | timedOut =>
              rw [inserts, Option.some.injEq] at stepped
              subst stepped
              exact notSafe
          | failed =>
              rw [place] at proceeds
              cases proceeds
      | loopTest | report | leaving | finished =>
          rw [place] at proceeds
          cases proceeds
  | main | consumer => exact absurd trivial misses

theorem condInvariant_start
    {size : Nat}
    (positive : 0 < size)
    (block : Nat → MessagePtr) :
    CondInvariant (condStart size block) :=
  RingInvariant.init positive block

/-! ## Both queues -/

/-- In a run of either lab the extracted messages followed by the stored ones
are always the inserted ones in order, and no slot outside a buffer is ever
touched, exactly when no message of the run is inserted after a resize that
landed exactly on the count without another resize in between. -/
theorem everyState_ringSafe_iff
    (size : Nat)
    (positive : 0 < size)
    (block : Nat → MessagePtr) :
    (∀ actions final,
      (semMachine size).run (semStart size block) actions = some final →
        ((semMachine size).EveryState SemSafe (semStart size block) actions ↔
          (semMachine size).EveryStep SemInsertsSafely (semStart size block)
            actions)) ∧
    (∀ actions final,
      (condMachine size).run (condStart size block) actions = some final →
        ((condMachine size).EveryState CondSafe (condStart size block)
            actions ↔
          (condMachine size).EveryStep CondInsertsSafely
            (condStart size block) actions)) := by
  constructor
  · intro actions final executed
    refine Machine.everyState_iff_everyStep ?_ ?_ ?_
      (semInvariant_start positive block) executed
    · exact fun _ invariant => RingInvariant.safe invariant
    · exact fun _ _ _ invariant meets stepped => invariant.step meets stepped
    · exact fun _ _ _ invariant misses stepped =>
        invariant.not_safe_of_misses misses stepped
  · intro actions final executed
    refine Machine.everyState_iff_everyStep ?_ ?_ ?_
      (condInvariant_start positive block) executed
    · exact fun _ invariant => RingInvariant.safe invariant
    · exact fun _ _ _ invariant meets stepped => invariant.step meets stepped
    · exact fun _ _ _ invariant misses stepped =>
        invariant.not_safe_of_misses misses stepped

/-! ## A shrink that lands on the count -/

/-- One producer fills half of a queue of ten, a consumer shrinks the queue to
five and takes one message, and the producer inserts another one. -/
def semShrinkSchedule : List SemAction :=
  let producer := SemAction.producer 0 .acquired true
  let consumer := SemAction.consumer 0 .acquired (some fun _ => 0)
  [.main .idle, .main (.addProducer .created),
    .main .idle, .main (.addConsumer .created)] ++
  List.replicate 40 producer ++
  [.main .idle, .main (.requestResize .minus)] ++
  List.replicate 8 consumer ++ List.replicate 6 producer

/-- The same on the condition-variable queue. -/
def condShrinkSchedule : List CondAction :=
  let producer := CondAction.producer 0 .woken true
  let consumer := CondAction.consumer 0 .woken (some fun _ => 0)
  [.main .idle, .main (.addProducer .created),
    .main .idle, .main (.addConsumer .created)] ++
  List.replicate 15 producer ++
  [.main .idle, .main (.requestResize .minus)] ++
  List.replicate 4 consumer ++ List.replicate 2 producer

theorem semShrinkSchedule_writes_behind :
    ∃ final,
      (semMachine initialQueueSize).run
          (semStart initialQueueSize fun _ => 0) semShrinkSchedule =
        some final ∧
      final.history.accesses.getLast? = some ⟨5, 5⟩ :=
  ⟨_, rfl, rfl⟩

theorem condShrinkSchedule_writes_behind :
    ∃ final,
      (condMachine initialQueueSize).run
          (condStart initialQueueSize fun _ => 0) condShrinkSchedule =
        some final ∧
      final.history.accesses.getLast? = some ⟨5, 5⟩ :=
  ⟨_, rfl, rfl⟩

/-- A last access one slot behind its buffer is not safe. -/
theorem not_ringSafe_of_getLast?
    {queue : CircularQueue}
    {history : History}
    {capacity : Nat}
    (last : history.accesses.getLast? = some ⟨capacity, capacity⟩) :
    ¬RingSafe queue history := by
  intro safe
  have inside := safe.accesses _ (List.mem_of_getLast? last)
  exact Nat.lt_irrefl capacity inside

/-- Neither queue is safe in every run. -/
theorem not_every_run_ringSafe :
    (¬∀ actions final,
      (semMachine initialQueueSize).run
          (semStart initialQueueSize fun _ => 0) actions = some final →
        SemSafe final) ∧
    (¬∀ actions final,
      (condMachine initialQueueSize).run
          (condStart initialQueueSize fun _ => 0) actions = some final →
        CondSafe final) := by
  constructor
  · intro every
    obtain ⟨final, ran, behind⟩ := semShrinkSchedule_writes_behind
    exact not_ringSafe_of_getLast? behind (every _ final ran)
  · intro every
    obtain ⟨final, ran, behind⟩ := condShrinkSchedule_writes_behind
    exact not_ringSafe_of_getLast? behind (every _ final ran)

/-- In both schedules a message is inserted after an exact shrink. -/
theorem shrinkSchedules_insert_after_exact_shrink :
    (¬(semMachine initialQueueSize).EveryStep SemInsertsSafely
      (semStart initialQueueSize fun _ => 0) semShrinkSchedule) ∧
    (¬(condMachine initialQueueSize).EveryStep CondInsertsSafely
      (condStart initialQueueSize fun _ => 0) condShrinkSchedule) := by
  have bothQueues := everyState_ringSafe_iff initialQueueSize (by decide)
    fun _ => 0
  constructor
  · intro meets
    obtain ⟨final, ran, behind⟩ := semShrinkSchedule_writes_behind
    have safe := (bothQueues.1 semShrinkSchedule final ran).mpr meets
    exact not_ringSafe_of_getLast? behind (safe.last ran)
  · intro meets
    obtain ⟨final, ran, behind⟩ := condShrinkSchedule_writes_behind
    have safe := (bothQueues.2 condShrinkSchedule final ran).mpr meets
    exact not_ringSafe_of_getLast? behind (safe.last ran)

end ThreadQueue
end OSaSP
