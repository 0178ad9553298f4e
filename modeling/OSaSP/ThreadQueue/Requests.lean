import OSaSP.ThreadQueue.Bounds

/-!
# From a resize request to its completion

A request is raised by the operator and served by a consumer later.  On the
condition-variable queue it stays pending, with nothing added, until the
critical section that applies it.  A consumer of the semaphore queue serves a
request at the top of its loop without looking at the fill level, so a
decrease may be dropped there.
-/

namespace OSaSP
namespace ThreadQueue

/-- The request asked for is still pending and nothing was added since. -/
structure RequestPending
    (asked : CircularQueue)
    (asking : History)
    (queue : CircularQueue)
    (history : History) : Prop where
  pending : asked.resizeRequest ≠ .none
  request : queue.resizeRequest = asked.resizeRequest
  target : queue.newCapacityRequest = asked.newCapacityRequest
  capacity : queue.capacity = asked.capacity
  added : history.added = asking.added

/-- The request asked for was applied, a decrease at a count that fits. -/
structure RequestCompleted
    (asked : CircularQueue)
    (asking : History)
    (queue : CircularQueue)
    (history : History) : Prop where
  cleared : queue.resizeRequest = .none
  capacity : (queue.capacity : Int) = asked.newCapacityRequest
  fits : asked.resizeRequest = .decrease →
    (queue.count : Int) ≤ asked.newCapacityRequest
  added : history.added = asking.added

section Moves

variable {asked queue next : CircularQueue} {asking history record : History}
  {occasion : Occasion} {allocates : Prop}

/-- A request that fits the fill level passes the tests of the resize. -/
theorem CircularQueue.Servable.accepts
    (servable : queue.Servable)
    (bounded : queue.Bounded)
    (aimed : queue.Aimed)
    (pending : queue.resizeRequest ≠ .none) :
    queue.refuses queue.newCapacityRequest = false := by
  rw [CircularQueue.refuses_eq_false_iff]
  cases request : queue.resizeRequest with
  | none => exact absurd request pending
  | increase =>
      have target := aimed.increase request
      have bound := bounded.countBound
      omega
  | decrease => exact ⟨(aimed.decrease request).2, servable request⟩

/-- Serving a request that fits applies it. -/
theorem RequestCompleted.of_serve
    (asks : RequestPending asked asking queue history)
    (bounded : queue.Bounded)
    (aimed : queue.Aimed)
    (servable : queue.Servable)
    (allocated : allocates)
    (served : ServeMove allocates queue history next record) :
    RequestCompleted asked asking next record := by
  have accepts := servable.accepts bounded aimed
    (asks.request.symm ▸ asks.pending)
  cases served with
  | declined cause =>
      rcases cause with refused | noBlock
      · rw [accepts] at refused
        cases refused
      · exact absurd allocated noBlock
  | resized block =>
      have target := asks.target
      obtain ⟨positive, fits⟩ :=
        (CircularQueue.refuses_eq_false_iff _ _).mp accepts
      constructor
      · rfl
      · change (queue.newCapacityRequest.toNat : Int) = _
        omega
      · intro _
        change (queue.count : Int) ≤ _
        omega
      · exact (History.added_resized _ _ _ _).trans asks.added

/-- A request goes on pending until it is applied. -/
theorem RequestPending.move
    (asks : RequestPending asked asking queue history)
    (bounded : queue.Bounded)
    (aimed : queue.Aimed)
    (serves : occasion.serves queue →
      queue.Servable ∧ occasion.allocates)
    (servesAfter : occasion.serves queue.extract →
      queue.extract.Servable ∧ occasion.allocates)
    (moved : QueueMove occasion queue history next record) :
    RequestCompleted asked asking next record ∨
      RequestPending asked asking next record := by
  have pending : queue.resizeRequest ≠ .none :=
    asks.request.symm ▸ asks.pending
  cases moved with
  | kept => exact .inr asks
  | requested _ free => exact absurd free pending
  | inserted _ _ free => exact absurd free pending
  | extracted =>
      exact .inr ⟨asks.pending, asks.request, asks.target, asks.capacity,
        (History.added_extracted _ _ _).trans asks.added⟩
  | served _ allowed served =>
      obtain ⟨servable, allocated⟩ := serves allowed
      exact .inl (.of_serve asks bounded aimed servable allocated served)
  | extractedServed stored _ allowed served =>
      obtain ⟨servable, allocated⟩ := servesAfter allowed
      have asksAfter : RequestPending asked asking queue.extract
          (history.record (.extracted queue.front)
            [⟨queue.head, queue.capacity⟩]) :=
        ⟨asks.pending, asks.request, asks.target, asks.capacity,
          (History.added_extracted _ _ _).trans asks.added⟩
      exact .inl (.of_serve asksAfter (bounded.extract stored)
        ⟨aimed.increase, aimed.decrease⟩ servable allocated served)

end Moves

/-! ## The condition-variable queue -/

/-- Every allocation of a new buffer succeeds. -/
def CondAction.Allocates : CondAction → Prop
  | .consumer _ _ allocation => allocation ≠ none
  | _ => True

/-- The step law of the condition-variable queue. -/
theorem RequestPending.condStep
    {asked : CircularQueue}
    {asking : History}
    {state next : CondState}
    {action : CondAction}
    (asks : RequestPending asked asking state.queue.toCircularQueue
      state.history)
    (bounded : state.queue.Bounded)
    (aimed : state.queue.Aimed)
    (allocates : action.Allocates)
    (stepped : condStep state action = some next) :
    RequestCompleted asked asking next.queue.toCircularQueue next.history ∨
      RequestPending asked asking next.queue.toCircularQueue
        next.history := by
  refine asks.move bounded aimed ?_ ?_ (condStep_move stepped).queue
  all_goals
    cases action with
    | main | producer => exact fun serves => serves.elim
    | consumer => exact fun serves => ⟨serves, allocates⟩

/-- With allocations that succeed no resize is in progress while the mutex is
free, and a pending request stays as it is, with no message added, up to the
critical section that sets the capacity to its target. -/
theorem cond_request_pending_until_completed
    {state : CondState}
    (reachable : (condMachine initialQueueSize).ReachableUnder
      (fun _ action => action.Allocates) state) :
    state.queue.resizeInProgress = false ∧
      ∀ actions : List CondAction,
        (∀ action ∈ actions, action.Allocates) →
        state.queue.resizeRequest ≠ .none →
        (condMachine initialQueueSize).Until
          (fun later => RequestPending state.queue.toCircularQueue
            state.history later.queue.toCircularQueue later.history)
          (fun later => RequestCompleted state.queue.toCircularQueue
            state.history later.queue.toCircularQueue later.history)
          state actions := by
  have sound : state.queue.resizeInProgress = false ∧
      state.queue.Bounded ∧ state.queue.Aimed := by
    apply reachable.invariant
    · rintro _ ⟨block, rfl⟩
      exact ⟨rfl, .init (by decide) (by decide) block, .init _ block⟩
    · rintro state action next ⟨settled, bounded, aimed⟩ _ stepped
      have moved := condStep_move stepped
      exact ⟨moved.settled settled, bounded.move aimed moved.queue,
        aimed.move moved.queue⟩
  refine ⟨sound.1, fun actions always pending => ?_⟩
  refine Machine.until_of_everyStep
    (fun state : CondState => state.queue.Bounded ∧ state.queue.Aimed)
    ?_ ?_ sound.2 ⟨pending, rfl, rfl, rfl, rfl⟩
    (Machine.EveryStep.of_actions always state)
  · intro state action next ⟨bounded, aimed⟩ _ stepped
    have moved := (condStep_move stepped).queue
    exact ⟨bounded.move aimed moved, aimed.move moved⟩
  · intro state action next ⟨bounded, aimed⟩ asks allocates stepped
    exact asks.condStep bounded aimed allocates stepped

/-- A producer stores six messages, the operator asks for five slots, and a
consumer comes to the queue. -/
def condDrainSchedule : List CondAction :=
  [.main .idle, .main (.addProducer .created),
    .main .idle, .main (.addConsumer .created)] ++
  List.replicate 18 (.producer 0 .woken true) ++
  [.main .idle, .main (.requestResize .minus),
    .consumer 0 .woken (some fun _ => 0)]

/-- The consumer takes the message too many and shrinks the queue in the same
critical section. -/
theorem condDrainSchedule_completes :
    ∃ state,
      (condMachine initialQueueSize).run
          (condStart initialQueueSize fun _ => 0) condDrainSchedule =
        some state ∧
      state.queue.resizeRequest = .decrease ∧ state.queue.count = 6 ∧
      state.queue.resizeInProgress = false ∧
      (condMachine initialQueueSize).Until
        (fun later => RequestPending state.queue.toCircularQueue
          state.history later.queue.toCircularQueue later.history)
        (fun later => RequestCompleted state.queue.toCircularQueue
          state.history later.queue.toCircularQueue later.history)
        state [.consumer 0 .woken (some fun _ => 0)] := by
  have pending :
      ((condMachine initialQueueSize).run
          (condStart initialQueueSize fun _ => 0) condDrainSchedule).map
        (fun state => (state.queue.resizeRequest, state.queue.count)) =
      some (.decrease, 6) := rfl
  obtain ⟨state, ran, facts⟩ := Option.map_eq_some_iff.mp pending
  obtain ⟨decreases, count⟩ := Prod.mk.inj facts
  have allocates : ∀ action ∈ condDrainSchedule, action.Allocates := by
    simp [condDrainSchedule, CondAction.Allocates]
  obtain ⟨settled, completes⟩ := cond_request_pending_until_completed
    (Machine.ReachableUnder.run (.initial ⟨fun _ => 0, rfl⟩)
      (fun action member _ => allocates action member) ran)
  refine ⟨state, ran, decreases, count, settled, completes _ ?_ ?_⟩
  · simp [CondAction.Allocates]
  · simp [decreases]

/-! ## The semaphore queue -/

/-- Every allocation of a new buffer succeeds. -/
def SemAction.Allocates : SemAction → Prop
  | .consumer _ _ allocation => allocation ≠ none
  | _ => True

/-- A step that clears a pending request sets the capacity to its target. -/
def ClearsByResizing (state : SemState) (action : SemAction) : Prop :=
  ∀ next, semStep state action = some next →
    state.queue.resizeRequest ≠ .none → next.queue.resizeRequest = .none →
      (next.queue.capacity : Int) = state.queue.newCapacityRequest

/-- A consumer that is about to serve a request at the top of its loop finds
the fill level low enough. -/
def ServesDrained (state : SemState) : SemAction → Prop
  | .consumer index _ _ =>
      ∀ thread, state.consumers[index]? = some thread →
        thread.pc = .resize → state.queue.Servable
  | _ => True

theorem clearsByResizing_of_servesDrained
    {state next : SemState}
    {action : SemAction}
    (bounded : state.queue.Bounded)
    (aimed : state.queue.Aimed)
    (allocates : action.Allocates)
    (drained : ServesDrained state action)
    (stepped : semStep state action = some next) :
    ClearsByResizing state action := by
  intro next' stepped' pending cleared
  rw [stepped, Option.some.injEq] at stepped'
  subst stepped'
  have asks : RequestPending state.queue.toCircularQueue state.history
      state.queue.toCircularQueue state.history :=
    ⟨pending, rfl, rfl, rfl, rfl⟩
  have drainedAfter : state.queue.Servable →
      state.queue.extract.Servable := by
    intro servable decreases
    have fits := servable decreases
    change ((state.queue.count - 1 : Nat) : Int) ≤
      state.queue.newCapacityRequest
    omega
  have advanced := asks.move bounded aimed ?serves ?servesAfter
    (semStep_queueMove stepped)
  case serves =>
    cases action with
    | main | producer => exact fun serves => serves.elim
    | consumer =>
        rintro (⟨thread, present, place⟩ | servable)
        · exact ⟨drained thread present place, allocates⟩
        · exact ⟨servable, allocates⟩
  case servesAfter =>
    cases action with
    | main | producer => exact fun serves => serves.elim
    | consumer =>
        rintro (⟨thread, present, place⟩ | servable)
        · exact ⟨drainedAfter (drained thread present place), allocates⟩
        · exact ⟨servable, allocates⟩
  rcases advanced with completed | stillPending
  · exact completed.capacity
  · exact absurd (stillPending.request.symm.trans cleared) pending

/-- A request served at the top of the loop while the count is above its
target is dropped. -/
theorem not_clearsByResizing_of_not_servesDrained
    {state next : SemState}
    {action : SemAction}
    (aimed : state.queue.Aimed)
    (misses : ¬ServesDrained state action)
    (stepped : semStep state action = some next) :
    ¬ClearsByResizing state action := by
  cases action with
  | main | producer => exact absurd trivial misses
  | consumer index wait allocation =>
      simp only [ServesDrained, CircularQueue.Servable, Classical.not_forall,
        not_le] at misses
      obtain ⟨thread, present, place, decreases, above⟩ := misses
      have refused :
          state.queue.refuses state.queue.newCapacityRequest = true := by
        simp [CircularQueue.refuses, above]
      have dropped : next.queue.capacity = state.queue.capacity ∧
          next.queue.resizeRequest = .none := by
        simp only [semStep, present, Option.bind_some, advanceConsumerSem,
          place, decreases, reduceCtorEq, if_false, Option.some.injEq]
          at stepped
        subst stepped
        simp [LabState.setConsumer, SemState.serveRequest,
          resizeQueueInternalSem, refused]
      intro clears
      have capacity := clears next stepped (by simp [decreases]) dropped.2
      have target := (aimed.decrease decreases).1
      rw [dropped.1] at capacity
      omega

/-- With allocations that succeed, a run of the semaphore lab clears its
requests by resizing only, exactly when no consumer meets, at the top of its
loop, a decrease whose target the count has not reached. -/
theorem everyStep_clearsByResizing_iff
    (block : Nat → MessagePtr)
    (actions : List SemAction)
    (final : SemState)
    (allocate : ∀ action ∈ actions, action.Allocates)
    (executed : (semMachine initialQueueSize).run
      (semStart initialQueueSize block) actions = some final) :
    (semMachine initialQueueSize).EveryStep ClearsByResizing
        (semStart initialQueueSize block) actions ↔
      (semMachine initialQueueSize).EveryStep ServesDrained
        (semStart initialQueueSize block) actions := by
  refine Machine.everyStep_congr
    (fun state : SemState => state.queue.Bounded ∧ state.queue.Aimed) ?_ ?_
    ⟨.init (by decide) (by decide) block, .init _ block⟩
    (Machine.EveryStep.of_actions allocate _) executed
  · intro state action next ⟨bounded, aimed⟩ _ stepped
    have moved := semStep_queueMove stepped
    exact ⟨bounded.move aimed moved, aimed.move moved⟩
  · intro state action next ⟨bounded, aimed⟩ allocates stepped
    constructor
    · intro clears
      by_contra misses
      exact not_clearsByResizing_of_not_servesDrained aimed misses stepped
        clears
    · intro drained
      exact clearsByResizing_of_servesDrained bounded aimed allocates drained
        stepped

/-- A producer stores six messages, the operator asks for five slots, and a
consumer comes to the top of its loop. -/
def semDropSchedule : List SemAction :=
  [.main .idle, .main (.addProducer .created),
    .main .idle, .main (.addConsumer .created)] ++
  List.replicate 48 (.producer 0 .acquired true) ++
  [.main .idle, .main (.requestResize .minus),
    .consumer 0 .acquired (some fun _ => 0)]

/-- The step of the consumer that serves the request. -/
def semDropAction : SemAction :=
  .consumer 0 .acquired (some fun _ => 0)

theorem semDropSchedule_allocates :
    ∀ action ∈ semDropSchedule ++ [semDropAction], action.Allocates := by
  simp [semDropSchedule, semDropAction, SemAction.Allocates]

/-- The request for five slots is dropped and the capacity stays ten. -/
theorem semDropSchedule_drops :
    ∃ final,
      (semMachine initialQueueSize).run
          (semStart initialQueueSize fun _ => 0)
          (semDropSchedule ++ [semDropAction]) = some final ∧
      ¬(semMachine initialQueueSize).EveryStep ClearsByResizing
        (semStart initialQueueSize fun _ => 0)
        (semDropSchedule ++ [semDropAction]) := by
  have pending :
      ((semMachine initialQueueSize).run
          (semStart initialQueueSize fun _ => 0) semDropSchedule).map
        (fun state => (state.queue.resizeRequest,
          state.queue.newCapacityRequest)) =
      some (.decrease, 5) := rfl
  have dropped :
      ((semMachine initialQueueSize).run
          (semStart initialQueueSize fun _ => 0)
          (semDropSchedule ++ [semDropAction])).map
        (fun state => (state.queue.resizeRequest, state.queue.capacity)) =
      some (.none, 10) := rfl
  obtain ⟨state, ran, facts⟩ := Option.map_eq_some_iff.mp pending
  obtain ⟨decreases, target⟩ := Prod.mk.inj facts
  obtain ⟨final, ranFinal, factsFinal⟩ := Option.map_eq_some_iff.mp dropped
  obtain ⟨cleared, capacity⟩ := Prod.mk.inj factsFinal
  refine ⟨final, ranFinal, fun everyStep => ?_⟩
  have stepped : semStep state semDropAction = some final := by
    rw [Machine.run_append, ran, Option.bind_some, Machine.run_cons,
      Option.bind_eq_some_iff] at ranFinal
    obtain ⟨next, stepped, last⟩ := ranFinal
    rw [Machine.run_nil, Option.some.injEq] at last
    exact last ▸ stepped
  have clears := (everyStep.of_append ran).1 final stepped
    (by simp [decreases]) cleared
  rw [capacity, target] at clears
  cases clears

/-- A request of the semaphore lab may be dropped without a resize. -/
theorem not_every_run_clearsByResizing :
    ¬∀ actions final,
      (∀ action ∈ actions, action.Allocates) →
      (semMachine initialQueueSize).run
          (semStart initialQueueSize fun _ => 0) actions = some final →
        (semMachine initialQueueSize).EveryStep ClearsByResizing
          (semStart initialQueueSize fun _ => 0) actions := by
  intro every
  obtain ⟨final, ran, drops⟩ := semDropSchedule_drops
  exact drops (every _ final semDropSchedule_allocates ran)

/-- In the schedule a consumer serves a decrease that the count has not
reached. -/
theorem semDropSchedule_not_servesDrained :
    ¬(semMachine initialQueueSize).EveryStep ServesDrained
      (semStart initialQueueSize fun _ => 0)
      (semDropSchedule ++ [semDropAction]) := by
  obtain ⟨final, ran, drops⟩ := semDropSchedule_drops
  intro drained
  exact drops ((everyStep_clearsByResizing_iff _ _ final
    semDropSchedule_allocates ran).mpr drained)

end ThreadQueue
end OSaSP
