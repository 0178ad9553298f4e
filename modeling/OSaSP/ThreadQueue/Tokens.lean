import OSaSP.Foundations.Pool
import OSaSP.ThreadQueue.Bounds

/-!
# The tokens of the semaphore queue

A token of `empty_slots` is available, held by a producer on its way to an
insertion, or owed by a consumer after an extraction; a token of
`filled_slots` the other way round.  Only a failed `sem_trywait` of a shrink
and a post of `signal_cleanup_sem` ever disturb the balance between the tokens
and the fill level, and both leave more tokens, never fewer.
-/

namespace OSaSP
namespace ThreadQueue

/-- The `sem_trywait` calls that fail in a resize. -/
def CircularQueueSem.failedTrywaits
    (queue : CircularQueueSem)
    (newCapacity : Int)
    (allocation : Option (Nat → MessagePtr)) : Nat :=
  if queue.refuses newCapacity then 0
  else
    match allocation with
    | none => 0
    | some _ => queue.capacity - newCapacity.toNat - queue.emptySlots

namespace SemState

/-- The tokens of `empty_slots`: available, held by producers and owed by
consumers. -/
def emptyTokens (state : SemState) : Nat :=
  state.queue.emptySlots +
    Pool.total (fun thread => thread.pc.heldEmpty) state.producers +
    Pool.total (fun thread => thread.pc.owedEmpty) state.consumers

/-- The tokens of `filled_slots`: available, held by consumers and owed by
producers. -/
def filledTokens (state : SemState) : Nat :=
  state.queue.filledSlots +
    Pool.total (fun thread => thread.pc.heldFilled) state.consumers +
    Pool.total (fun thread => thread.pc.owedFilled) state.producers

/-- The `sem_trywait` calls that fail in an action. -/
def failedTrywaits (state : SemState) : SemAction → Nat
  | .consumer index _ allocation =>
      match state.consumers[index]? with
      | some thread =>
          if state.queue.servesAt thread.pc then
            state.queue.failedTrywaits state.queue.newCapacityRequest
              allocation
          else 0
      | none => 0
  | _ => 0

/-- The posts to `empty_slots` that `signal_cleanup_sem` makes in an action. -/
def signalledEmpty (state : SemState) : SemAction → Nat
  | .main _ =>
      match state.control.pc with
      | .postEmpty (_ + 1) _ => 1
      | _ => 0
  | _ => 0

/-- The posts to `filled_slots` that `signal_cleanup_sem` makes in an
action. -/
def signalledFilled (state : SemState) : SemAction → Nat
  | .main _ =>
      match state.control.pc with
      | .postFilled _ _ => 1
      | _ => 0
  | _ => 0

end SemState

/-- The balance of the tokens from one state to the next. -/
structure TokenLaw
    (state next : SemState)
    (failed signalledEmpty signalledFilled : Nat) : Prop where
  empty :
    next.emptyTokens + next.queue.count + state.queue.capacity =
      state.emptyTokens + state.queue.count + next.queue.capacity +
        (failed + signalledEmpty)
  filled :
    next.filledTokens + state.queue.count =
      state.filledTokens + next.queue.count + signalledFilled

theorem requestResizeSem_tokens
    (op : ResizeOp)
    (queue : CircularQueueSem) :
    (requestResizeSem op queue).emptySlots = queue.emptySlots ∧
      (requestResizeSem op queue).filledSlots = queue.filledSlots ∧
      (requestResizeSem op queue).count = queue.count ∧
      (requestResizeSem op queue).capacity = queue.capacity := by
  obtain ⟨_, _, requested⟩ := queue.request_eq op
  unfold requestResizeSem
  split
  · rw [requested]
    exact ⟨rfl, rfl, rfl, rfl⟩
  · exact ⟨rfl, rfl, rfl, rfl⟩

/-- What the main thread does to the queue. -/
theorem mainStep_slots
    {state next : SemState}
    {command : Command}
    (stepped : semLab.mainStep command state = some next) :
    next.queue.emptySlots =
        state.queue.emptySlots + state.signalledEmpty (.main command) ∧
      next.queue.filledSlots =
        state.queue.filledSlots + state.signalledFilled (.main command) ∧
      next.queue.count = state.queue.count ∧
      next.queue.capacity = state.queue.capacity := by
  have queue := (Lab.mainStep_move stepped).queue
  unfold SemState.signalledEmpty SemState.signalledFilled
  cases place : state.control.pc with
  | postEmpty left after =>
      rw [place] at queue
      cases left with
      | zero =>
          rcases queue with same | ⟨op, requested⟩
          · rw [same]
            exact ⟨rfl, rfl, rfl, rfl⟩
          · rw [requested]
            exact requestResizeSem_tokens op state.queue
      | succ left =>
          rw [show next.queue = semLab.postEmpty state.queue from queue]
          exact ⟨rfl, rfl, rfl, rfl⟩
  | postFilled left after =>
      rw [place] at queue
      rw [show next.queue = semLab.postFilled state.queue from queue]
      exact ⟨rfl, rfl, rfl, rfl⟩
  | loopTest | command | deactivate | cleanup | joining =>
      rw [place] at queue
      rcases queue with same | ⟨op, requested⟩
      · rw [same]
        exact ⟨rfl, rfl, rfl, rfl⟩
      · rw [requested]
        exact requestResizeSem_tokens op state.queue

/-- A thread that joins without tokens does not change their total. -/
theorem total_of_joins
    {Pc : Type}
    (weight : Thread Pc → Nat)
    {pool joined : List (Thread Pc)}
    {start : Pc}
    (without : ∀ id, weight ⟨id, start⟩ = 0)
    (joins : joined = pool ∨ ∃ id, joined = pool ++ [⟨id, start⟩]) :
    Pool.total weight joined = Pool.total weight pool := by
  rcases joins with rfl | ⟨id, rfl⟩
  · rfl
  · simp [without]

/-- The main thread brings new threads without tokens and posts what it
signals. -/
theorem mainStep_tokens
    {state next : SemState}
    {command : Command}
    (stepped : semLab.mainStep command state = some next) :
    TokenLaw state next 0 (state.signalledEmpty (.main command))
      (state.signalledFilled (.main command)) := by
  obtain ⟨empty, filled, count, capacity⟩ := mainStep_slots stepped
  have moved := Lab.mainStep_move stepped
  have heldEmpty := total_of_joins (fun thread => thread.pc.heldEmpty)
    (fun _ => rfl) moved.producers
  have owedFilled := total_of_joins (fun thread => thread.pc.owedFilled)
    (fun _ => rfl) moved.producers
  have heldFilled := total_of_joins (fun thread => thread.pc.heldFilled)
    (fun _ => rfl) moved.consumers
  have owedEmpty := total_of_joins (fun thread => thread.pc.owedEmpty)
    (fun _ => rfl) moved.consumers
  constructor
  · simp only [SemState.emptyTokens]
    omega
  · simp only [SemState.filledTokens]
    omega

/-- A producer moves its tokens and those of the queue alike. -/
theorem producerStep_tokens
    {state next : SemState}
    {index : Nat}
    {wait : WaitOutcome}
    {created : Bool}
    (stepped : semStep state (.producer index wait created) = some next) :
    TokenLaw state next 0 0 0 := by
  simp only [semStep, Option.bind_eq_some_iff] at stepped
  obtain ⟨thread, present, advanced⟩ := stepped
  obtain ⟨new, producers, consumers, -, moved⟩ :=
    advanceProducerSem_move advanced
  have heldEmpty := Pool.total_set (fun thread => thread.pc.heldEmpty)
    present ⟨thread.id, new⟩
  have owedFilled := Pool.total_set (fun thread => thread.pc.owedFilled)
    present ⟨thread.id, new⟩
  have queue : next.queue.emptySlots + new.heldEmpty + next.queue.count +
        state.queue.capacity =
      state.queue.emptySlots + thread.pc.heldEmpty + state.queue.count +
        next.queue.capacity ∧
      next.queue.filledSlots + new.owedFilled + state.queue.count =
        state.queue.filledSlots + thread.pc.owedFilled +
          next.queue.count := by
    generalize next.queue = queue at moved ⊢
    generalize next.history = history at moved
    cases moved with
    | quiet => omega
    | takeEmpty => dsimp only; omega
    | giveBackEmpty => dsimp only; omega
    | insert => simp only [CircularQueue.insert]; omega
    | postFilled => dsimp only; omega
  dsimp only at heldEmpty owedFilled
  constructor
  · simp only [SemState.emptyTokens, producers, consumers]
    omega
  · simp only [SemState.filledTokens, producers, consumers]
    omega

/-- A resize posts or takes the difference of the capacities, except for the
`sem_trywait` calls that fail. -/
theorem SemState.serveRequest_slots
    (state : SemState)
    (allocation : Option (Nat → MessagePtr)) :
    (state.serveRequest allocation).queue.emptySlots +
        state.queue.capacity =
      state.queue.emptySlots +
        (state.serveRequest allocation).queue.capacity +
        state.queue.failedTrywaits state.queue.newCapacityRequest
          allocation ∧
    (state.serveRequest allocation).queue.filledSlots =
      state.queue.filledSlots ∧
    (state.serveRequest allocation).queue.count = state.queue.count := by
  unfold SemState.serveRequest resizeQueueInternalSem
    CircularQueueSem.failedTrywaits
  dsimp only
  split
  · exact ⟨rfl, rfl, rfl⟩
  · cases allocation with
    | none => exact ⟨rfl, rfl, rfl⟩
    | some block =>
        refine ⟨?_, rfl, rfl⟩
        simp only [CircularQueue.moveTo, adjustEmptySlots]
        split <;> omega

/-- A consumer moves its tokens and those of the queue alike. -/
theorem consumerStep_tokens
    {state next : SemState}
    {index : Nat}
    {wait : WaitOutcome}
    {allocation : Option (Nat → MessagePtr)}
    (stepped : semStep state (.consumer index wait allocation) =
      some next) :
    TokenLaw state next
      (state.failedTrywaits (.consumer index wait allocation)) 0 0 := by
  simp only [semStep, Option.bind_eq_some_iff] at stepped
  obtain ⟨thread, present, advanced⟩ := stepped
  obtain ⟨new, consumers, producers, -, moved⟩ :=
    advanceConsumerSem_move advanced
  have heldFilled := Pool.total_set (fun thread => thread.pc.heldFilled)
    present ⟨thread.id, new⟩
  have owedEmpty := Pool.total_set (fun thread => thread.pc.owedEmpty)
    present ⟨thread.id, new⟩
  have queue : next.queue.emptySlots + new.owedEmpty + next.queue.count +
        state.queue.capacity =
      state.queue.emptySlots + thread.pc.owedEmpty + state.queue.count +
        next.queue.capacity +
        state.failedTrywaits (.consumer index wait allocation) ∧
      next.queue.filledSlots + new.heldFilled + state.queue.count =
        state.queue.filledSlots + thread.pc.heldFilled +
          next.queue.count := by
    have whileIdle : state.queue.servesAt thread.pc = false →
        state.failedTrywaits (.consumer index wait allocation) = 0 := by
      intro idle
      simp [SemState.failedTrywaits, present, idle]
    generalize next.queue = queue at moved ⊢
    generalize next.history = history at moved
    cases moved with
    | quiet idle =>
        have none := whileIdle idle
        omega
    | takeFilled idle | giveBackFilled idle | postEmpty idle =>
        have none := whileIdle idle
        dsimp only
        omega
    | extract idle =>
        have none := whileIdle idle
        simp only [SemState.extract, CircularQueue.extract]
        omega
    | serve serves =>
        have slots := state.serveRequest_slots allocation
        simp only [SemState.failedTrywaits, present, serves, if_true]
        omega
  dsimp only at heldFilled owedEmpty
  constructor
  · simp only [SemState.emptyTokens, producers, consumers]
    omega
  · simp only [SemState.filledTokens, producers, consumers]
    omega

/-- The token law of the lab. -/
theorem semStep_tokens
    {state next : SemState}
    {action : SemAction}
    (stepped : semStep state action = some next) :
    TokenLaw state next (state.failedTrywaits action)
      (state.signalledEmpty action) (state.signalledFilled action) := by
  cases action with
  | main command => exact mainStep_tokens stepped
  | producer index wait created => exact producerStep_tokens stepped
  | consumer index wait allocation => exact consumerStep_tokens stepped

/-! ## No token is lost -/

/-- Every free slot and every stored message has a token. -/
structure Covered (state : SemState) : Prop where
  free : state.queue.capacity ≤ state.emptyTokens + state.queue.count
  stored : state.queue.count ≤ state.filledTokens

theorem Covered.step
    {state next : SemState}
    {action : SemAction}
    (covered : Covered state)
    (stepped : semStep state action = some next) :
    Covered next := by
  have law := semStep_tokens stepped
  have free := covered.free
  have stored := covered.stored
  have empty := law.empty
  have filled := law.filled
  exact ⟨by omega, by omega⟩

/-- A producer stores five messages and takes a sixth token, the operator asks
for five slots, and a consumer shrinks the queue. -/
def semSurplusSchedule : List SemAction :=
  [.main .idle, .main (.addProducer .created),
    .main .idle, .main (.addConsumer .created)] ++
  List.replicate 43 (.producer 0 .acquired true) ++
  [.main .idle, .main (.requestResize .minus)] ++
  List.replicate 2 (.consumer 0 .acquired (some fun _ => 0))

/-- The token of the producer is one too many for the shrunk queue. -/
theorem semSurplusSchedule_final :
    ∃ final,
      (semMachine initialQueueSize).run
          (semStart initialQueueSize fun _ => 0) semSurplusSchedule =
        some final ∧
      final.queue.capacity = 5 ∧ final.queue.count = 5 ∧
      final.emptyTokens = 1 ∧ final.filledTokens = 5 := by
  have facts :
      ((semMachine initialQueueSize).run
          (semStart initialQueueSize fun _ => 0) semSurplusSchedule).map
        (fun state => (state.queue.capacity, state.queue.count,
          state.emptyTokens, state.filledTokens)) =
      some (5, 5, 1, 5) := rfl
  obtain ⟨final, ran, facts⟩ := Option.map_eq_some_iff.mp facts
  simp only [Prod.mk.injEq] at facts
  exact ⟨final, ran, facts⟩

/-- No token is lost, whatever the operator does. -/
theorem reachable_covered
    {size : Nat}
    {state : SemState}
    (reachable : (semMachine size).Reachable state) :
    (state.queue.capacity : Int) - state.queue.count ≤ state.emptyTokens ∧
      state.queue.count ≤ state.filledTokens := by
  have covered : Covered state := by
    apply reachable.invariant
    · rintro _ ⟨block, rfl⟩
      exact ⟨Nat.le_refl _, Nat.le_refl _⟩
    · intro state action next covered _ stepped
      exact covered.step stepped
  have free := covered.free
  exact ⟨by omega, covered.stored⟩

/-- The laws at the end of the schedule. -/
theorem semSurplusSchedule_covered :
    ∃ final,
      (semMachine initialQueueSize).run
          (semStart initialQueueSize fun _ => 0) semSurplusSchedule =
        some final ∧
      final.emptyTokens = 1 ∧
      (final.queue.capacity : Int) - final.queue.count ≤ final.emptyTokens ∧
      final.queue.count ≤ final.filledTokens := by
  obtain ⟨final, ran, -, -, empty, -⟩ := semSurplusSchedule_final
  exact ⟨final, ran, empty,
    reachable_covered (Machine.Reachable.run (.initial ⟨_, rfl⟩) ran)⟩

/-! ## The surplus of a shrink -/

/-- The operator neither stops a thread nor quits. -/
def SemAction.NeverStops : SemAction → Prop
  | .main .removeProducer | .main .removeConsumer | .main .quit => False
  | _ => True

/-- The operator loop goes on and nothing is being signalled. -/
structure Undisturbed (state : SemState) : Prop where
  running : state.control.keepRunning = true
  place : state.control.pc = .loopTest ∨ state.control.pc = .command

theorem Undisturbed.mainStep
    {state next : SemState}
    {command : Command}
    (undisturbed : Undisturbed state)
    (never : (SemAction.main command).NeverStops)
    (stepped : semLab.mainStep command state = some next) :
    Undisturbed next := by
  have running := undisturbed.running
  rcases undisturbed.place with place | place
  · simp only [Lab.mainStep, place, running, if_true, Option.some.injEq]
      at stepped
    subst stepped
    exact ⟨running, .inr rfl⟩
  · simp only [Lab.mainStep, place, Option.some.injEq] at stepped
    subst stepped
    cases command with
    | idle | requestResize => exact ⟨running, .inl rfl⟩
    | addProducer outcome =>
        refine ⟨?_, .inl rfl⟩
        simp only [Lab.execute, LabState.goto, LabState.addProducer]
        split
        · cases outcome <;> exact running
        · exact running
    | addConsumer outcome =>
        refine ⟨?_, .inl rfl⟩
        simp only [Lab.execute, LabState.goto, LabState.addConsumer]
        split
        · cases outcome <;> exact running
        · exact running
    | removeProducer | removeConsumer | quit => exact never.elim

theorem Undisturbed.step
    {state next : SemState}
    {action : SemAction}
    (undisturbed : Undisturbed state)
    (never : action.NeverStops)
    (stepped : semStep state action = some next) :
    Undisturbed next := by
  cases action with
  | main command => exact undisturbed.mainStep never stepped
  | producer index wait created =>
      simp only [semStep, Option.bind_eq_some_iff] at stepped
      obtain ⟨thread, -, advanced⟩ := stepped
      obtain ⟨_, -, -, control, -⟩ := advanceProducerSem_move advanced
      rcases control with same | stopped
      · exact ⟨same ▸ undisturbed.running, same ▸ undisturbed.place⟩
      · exact ⟨stopped ▸ undisturbed.running, stopped ▸ undisturbed.place⟩
  | consumer index wait allocation =>
      simp only [semStep, Option.bind_eq_some_iff] at stepped
      obtain ⟨thread, -, advanced⟩ := stepped
      obtain ⟨_, -, -, control, -⟩ := advanceConsumerSem_move advanced
      rcases control with same | stopped
      · exact ⟨same ▸ undisturbed.running, same ▸ undisturbed.place⟩
      · exact ⟨stopped ▸ undisturbed.running, stopped ▸ undisturbed.place⟩

theorem Undisturbed.signalledEmpty
    {state : SemState}
    (undisturbed : Undisturbed state)
    (action : SemAction) :
    state.signalledEmpty action = 0 := by
  cases action with
  | main command =>
      rcases undisturbed.place with place | place <;>
        simp [SemState.signalledEmpty, place]
  | producer | consumer => rfl

/-- A message is inserted only while the count is below the capacity. -/
theorem room_of_added
    {state next : SemState}
    {action : SemAction}
    (bounded : state.queue.Bounded)
    (stepped : semStep state action = some next)
    (adds : next.queue.totalAdded ≠ state.queue.totalAdded) :
    state.queue.count < state.queue.capacity := by
  have moved := semStep_queueMove stepped
  generalize next.queue.toCircularQueue = queue at moved adds
  generalize next.history = history at moved
  have bound := bounded.countBound
  cases moved with
  | inserted _ _ _ notFull => omega
  | kept | extracted => exact absurd rfl adds
  | requested op =>
      obtain ⟨_, _, requested⟩ := CircularQueue.request_eq _ op
      rw [requested] at adds
      exact absurd rfl adds
  | served _ _ served => cases served <;> exact absurd rfl adds
  | extractedServed _ _ _ served => cases served <;> exact absurd rfl adds

/-- As long as no thread is stopped, the tokens of `empty_slots` exceed the
free slots by exactly the `sem_trywait` calls that failed in the shrinks so
far, and a producer that a token too many let in does not insert into a full
queue. -/
theorem surplus_eq_failedTrywaits
    (block : Nat → MessagePtr)
    (actions : List SemAction)
    (final : SemState)
    (never : ∀ action ∈ actions, action.NeverStops)
    (executed : (semMachine initialQueueSize).run
      (semStart initialQueueSize block) actions = some final) :
    final.emptyTokens + final.queue.count =
        final.queue.capacity +
          (semMachine initialQueueSize).accumulated SemState.failedTrywaits
            (semStart initialQueueSize block) actions ∧
      ∀ action next, semStep final action = some next →
        next.queue.totalAdded ≠ final.queue.totalAdded →
          final.queue.count < final.queue.capacity := by
  constructor
  · have balance := Machine.accumulated_eq SemState.failedTrywaits
      (fun state : SemState => state.emptyTokens + state.queue.count)
      (fun state => state.queue.capacity) Undisturbed
      (fun _ _ _ undisturbed never stepped =>
        undisturbed.step never stepped)
      ?_ ⟨rfl, .inl rfl⟩ (Machine.EveryStep.of_actions never _) executed
    · change _ + initialQueueSize = initialQueueSize + _ + _ at balance
      omega
    · intro state action next undisturbed _ stepped
      have law := (semStep_tokens stepped).empty
      rw [undisturbed.signalledEmpty action] at law
      omega
  · intro action next stepped adds
    have reachable : (semMachine initialQueueSize).Reachable final :=
      Machine.Reachable.run (.initial ⟨block, rfl⟩) executed
    exact room_of_added
      (sem_bounded_aimed (by decide) (by decide) reachable).1 stepped adds

theorem semSurplusSchedule_neverStops :
    ∀ action ∈ semSurplusSchedule, action.NeverStops := by
  simp [semSurplusSchedule, SemAction.NeverStops]

/-- A shrink may leave a token too many. -/
theorem not_every_run_without_surplus :
    ¬∀ actions final,
      (∀ action ∈ actions, action.NeverStops) →
      (semMachine initialQueueSize).run
          (semStart initialQueueSize fun _ => 0) actions = some final →
        (final.emptyTokens : Int) ≤
          final.queue.capacity - final.queue.count := by
  intro every
  obtain ⟨final, ran, capacity, count, empty, -⟩ := semSurplusSchedule_final
  have bound := every _ final semSurplusSchedule_neverStops ran
  rw [capacity, count, empty] at bound
  exact absurd bound (by decide)

/-- In the schedule one `sem_trywait` fails. -/
theorem semSurplusSchedule_failedTrywaits :
    (semMachine initialQueueSize).accumulated SemState.failedTrywaits
      (semStart initialQueueSize fun _ => 0) semSurplusSchedule = 1 := by
  obtain ⟨final, ran, capacity, count, empty, -⟩ := semSurplusSchedule_final
  obtain ⟨balance, -⟩ := surplus_eq_failedTrywaits _ _ final
    semSurplusSchedule_neverStops ran
  rw [capacity, count, empty] at balance
  omega

end ThreadQueue
end OSaSP
