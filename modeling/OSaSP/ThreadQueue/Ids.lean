import OSaSP.ThreadQueue.Workers

/-!
# The indices of the thread arrays

The operator loop admits a thread while fewer than `MAX_THREADS` of its kind
are running, but numbers it by `next_producer_id` or `next_consumer_id`, which
a removal does not lower.  After enough removals an admitted thread gets an id
behind the arrays.
-/

namespace OSaSP
namespace ThreadQueue

/-! ## Indices in use -/

/-- The ids a search for the last set flag looks at. -/
def searched (active : Nat → Bool) : Nat → List Nat
  | 0 => []
  | next + 1 => next :: if active next then [] else searched active next

theorem lt_of_mem_searched
    {active : Nat → Bool}
    {next id : Nat}
    (looked : id ∈ searched active next) :
    id < next := by
  induction next with
  | zero => cases looked
  | succ next inductionHypothesis =>
      simp only [searched, List.mem_cons] at looked
      rcases looked with rfl | earlier
      · exact Nat.lt_succ_self id
      · split at earlier
        · cases earlier
        · exact Nat.lt_succ_of_lt (inductionHypothesis earlier)

/-- Indices into `producer_active` and `producer_threads`, and into
`consumer_active` and `consumer_threads`. -/
structure IndexUse where
  producer : List Nat
  consumer : List Nat

/-- No index of a thread array. -/
def IndexUse.nothing : IndexUse where
  producer := []
  consumer := []

/-- The indices a command uses; a thread to be added uses the id it is
given. -/
def LabControl.indicesOfCommand (control : LabControl) : Command → IndexUse
  | .addProducer _ =>
      if control.producerCount < maxThreads then
        ⟨[control.nextProducerId], []⟩
      else .nothing
  | .addConsumer _ =>
      if control.consumerCount < maxThreads then
        ⟨[], [control.nextConsumerId]⟩
      else .nothing
  | .removeProducer =>
      ⟨searched control.producerActive control.nextProducerId, []⟩
  | .removeConsumer =>
      ⟨[], searched control.consumerActive control.nextConsumerId⟩
  | .idle | .requestResize _ | .quit => .nothing

/-- The indices a step of the main thread uses.  The joins go through the same
indices as the loops that clear the flags. -/
def LabControl.indicesUsed
    (control : LabControl)
    (command : Command) : IndexUse :=
  match control.pc with
  | .command => control.indicesOfCommand command
  | .deactivate =>
      ⟨List.range control.nextProducerId, List.range control.nextConsumerId⟩
  | _ => .nothing

section Labs

variable {Queue ProducerPc ConsumerPc : Type}

/-- The indices a step uses: a worker looks at and clears no flag but its
own. -/
def LabState.indicesUsed
    (state : LabState Queue ProducerPc ConsumerPc) : Turn → IndexUse
  | .main command => state.control.indicesUsed command
  | .producer index => ⟨(state.producers[index]?).toList.map Thread.id, []⟩
  | .consumer index => ⟨[], (state.consumers[index]?).toList.map Thread.id⟩

/-- Every index a step uses is inside its arrays. -/
def LabState.UsesWithin
    (state : LabState Queue ProducerPc ConsumerPc)
    (turn : Turn) : Prop :=
  (∀ id ∈ (state.indicesUsed turn).producer, id < maxThreads) ∧
    ∀ id ∈ (state.indicesUsed turn).consumer, id < maxThreads

instance
    (state : LabState Queue ProducerPc ConsumerPc)
    (turn : Turn) :
    Decidable (state.UsesWithin turn) :=
  inferInstanceAs (Decidable (_ ∧ _))

/-- When a thread is admitted, fewer than `MAX_THREADS` threads of its kind
were created before it, those already removed among them. -/
def LabState.AddsInRoom
    (state : LabState Queue ProducerPc ConsumerPc) : Turn → Prop
  | .main (.addProducer _) =>
      state.control.pc = .command →
        state.control.producerCount < maxThreads →
          state.producers.length < maxThreads
  | .main (.addConsumer _) =>
      state.control.pc = .command →
        state.control.consumerCount < maxThreads →
          state.consumers.length < maxThreads
  | _ => True

instance
    (state : LabState Queue ProducerPc ConsumerPc) :
    ∀ turn, Decidable (state.AddsInRoom turn)
  | .main (.addProducer _) =>
      inferInstanceAs (Decidable (_ = _ → _ < _ → _ < _))
  | .main (.addConsumer _) =>
      inferInstanceAs (Decidable (_ = _ → _ < _ → _ < _))
  | .main .idle | .main .removeProducer | .main .removeConsumer
  | .main (.requestResize _) | .main .quit | .producer _ | .consumer _ =>
      isTrue trivial

/-! ## The ids given so far -/

/-- The ids given so far are inside the arrays. -/
structure LabState.Numbered
    (state : LabState Queue ProducerPc ConsumerPc) : Prop where
  crewed : state.Crewed
  producers : state.control.nextProducerId ≤ maxThreads
  consumers : state.control.nextConsumerId ≤ maxThreads

variable {lab : Lab Queue ProducerPc ConsumerPc}
  {state next : LabState Queue ProducerPc ConsumerPc}

/-- A step of the main thread gives at most one id, to a thread it admits. -/
structure IdsMove
    (state next : LabState Queue ProducerPc ConsumerPc)
    (turn : Turn) : Prop where
  producers : next.control.nextProducerId = state.control.nextProducerId ∨
    next.control.nextProducerId = state.control.nextProducerId + 1 ∧
      state.control.pc = .command ∧
        state.control.producerCount < maxThreads ∧
          ∃ outcome, turn = .main (.addProducer outcome)
  consumers : next.control.nextConsumerId = state.control.nextConsumerId ∨
    next.control.nextConsumerId = state.control.nextConsumerId + 1 ∧
      state.control.pc = .command ∧
        state.control.consumerCount < maxThreads ∧
          ∃ outcome, turn = .main (.addConsumer outcome)

theorem execute_idsMove
    (atCommand : state.control.pc = .command)
    (command : Command) :
    IdsMove state (lab.execute state command) (.main command) := by
  cases command with
  | idle | requestResize | quit => exact ⟨.inl rfl, .inl rfl⟩
  | addProducer outcome =>
      unfold Lab.execute LabState.addProducer
      dsimp only
      split
      · rename_i admitted
        cases outcome with
        | noMemory | notCreated => exact ⟨.inl rfl, .inl rfl⟩
        | created =>
            exact ⟨.inr ⟨rfl, atCommand, admitted, _, rfl⟩, .inl rfl⟩
      · exact ⟨.inl rfl, .inl rfl⟩
  | addConsumer outcome =>
      unfold Lab.execute LabState.addConsumer
      dsimp only
      split
      · rename_i admitted
        cases outcome with
        | noMemory | notCreated => exact ⟨.inl rfl, .inl rfl⟩
        | created =>
            exact ⟨.inl rfl, .inr ⟨rfl, atCommand, admitted, _, rfl⟩⟩
      · exact ⟨.inl rfl, .inl rfl⟩
  | removeProducer =>
      unfold Lab.execute LabState.removeProducer
      dsimp only
      split
      · exact ⟨.inl rfl, .inl rfl⟩
      · exact ⟨.inl rfl, .inl rfl⟩
  | removeConsumer =>
      unfold Lab.execute LabState.removeConsumer
      dsimp only
      split
      · exact ⟨.inl rfl, .inl rfl⟩
      · exact ⟨.inl rfl, .inl rfl⟩

theorem mainStep_idsMove
    {command : Command}
    (stepped : lab.mainStep command state = some next) :
    IdsMove state next (.main command) := by
  cases place : state.control.pc with
  | command =>
      simp only [Lab.mainStep, place, Option.some.injEq] at stepped
      subst stepped
      exact execute_idsMove place command
  | loopTest | deactivate | cleanup after | postFilled left after =>
      simp only [Lab.mainStep, place, Option.some.injEq] at stepped
      subst stepped
      exact ⟨.inl rfl, .inl rfl⟩
  | postEmpty left after =>
      cases left with
      | zero | succ left =>
          simp only [Lab.mainStep, place, Option.some.injEq] at stepped
          subst stepped
          exact ⟨.inl rfl, .inl rfl⟩
  | joining => simp [Lab.mainStep, place] at stepped

theorem LabStep.idsMove
    {turn : Turn}
    (stepped : LabStep lab state next turn) :
    IdsMove state next turn := by
  cases stepped with
  | main stepped => exact mainStep_idsMove stepped
  | producer _ moved => exact ⟨.inl moved.nextIds.1, .inl moved.nextIds.2⟩
  | consumer _ moved => exact ⟨.inl moved.nextIds.1, .inl moved.nextIds.2⟩

/-- Threads added in room get ids inside the arrays. -/
theorem LabState.Numbered.step
    {turn : Turn}
    (numbered : state.Numbered)
    (inRoom : state.AddsInRoom turn)
    (stepped : LabStep lab state next turn) :
    next.Numbered := by
  obtain ⟨producers, consumers⟩ := stepped.idsMove
  refine ⟨numbered.crewed.labStep stepped, ?_, ?_⟩
  · rcases producers with same | ⟨given, atCommand, admitted, outcome, rfl⟩
    · exact same ▸ numbered.producers
    · have room := inRoom atCommand admitted
      rw [numbered.crewed.producers.size] at room
      exact given ▸ room
  · rcases consumers with same | ⟨given, atCommand, admitted, outcome, rfl⟩
    · exact same ▸ numbered.consumers
    · have room := inRoom atCommand admitted
      rw [numbered.crewed.consumers.size] at room
      exact given ▸ room

/-- Only the admission of a thread may leave the arrays, and it does when there
is no room. -/
theorem LabState.Numbered.usesWithin_iff
    {turn : Turn}
    (numbered : state.Numbered) :
    state.UsesWithin turn ↔ state.AddsInRoom turn := by
  obtain ⟨⟨producerCrew, consumerCrew⟩, producers, consumers⟩ := numbered
  cases turn with
  | producer index =>
      refine iff_of_true ⟨fun id used => ?_, by simp [indicesUsed]⟩ trivial
      simp only [indicesUsed, List.mem_map, Option.mem_toList] at used
      obtain ⟨thread, found, rfl⟩ := used
      have given := producerCrew.id_lt (List.mem_of_getElem? found)
      exact Nat.lt_of_lt_of_le given producers
  | consumer index =>
      refine iff_of_true ⟨by simp [indicesUsed], fun id used => ?_⟩ trivial
      simp only [indicesUsed, List.mem_map, Option.mem_toList] at used
      obtain ⟨thread, found, rfl⟩ := used
      have given := consumerCrew.id_lt (List.mem_of_getElem? found)
      exact Nat.lt_of_lt_of_le given consumers
  | main command =>
      cases place : state.control.pc with
      | loopTest | cleanup | postEmpty | postFilled | joining =>
          apply iff_of_true
          · simp [UsesWithin, indicesUsed, LabControl.indicesUsed, place,
              IndexUse.nothing]
          · cases command <;> simp [AddsInRoom, place]
      | deactivate =>
          apply iff_of_true
          · simp only [UsesWithin, indicesUsed, LabControl.indicesUsed, place,
              List.mem_range]
            exact ⟨fun id below => by omega, fun id below => by omega⟩
          · cases command <;> simp [AddsInRoom, place]
      | command =>
          simp only [UsesWithin, indicesUsed, LabControl.indicesUsed, place]
          cases command with
          | idle | requestResize | quit =>
              simp [AddsInRoom, LabControl.indicesOfCommand, IndexUse.nothing]
          | addProducer outcome =>
              simp only [AddsInRoom, LabControl.indicesOfCommand, place,
                producerCrew.size]
              split <;> simp [IndexUse.nothing, *]
          | addConsumer outcome =>
              simp only [AddsInRoom, LabControl.indicesOfCommand, place,
                consumerCrew.size]
              split <;> simp [IndexUse.nothing, *]
          | removeProducer =>
              refine iff_of_true ⟨fun id looked => ?_, ?_⟩ trivial
              · exact Nat.lt_of_lt_of_le (lt_of_mem_searched looked) producers
              · simp [LabControl.indicesOfCommand]
          | removeConsumer =>
              refine iff_of_true ⟨?_, fun id looked => ?_⟩ trivial
              · simp [LabControl.indicesOfCommand]
              · exact Nat.lt_of_lt_of_le (lt_of_mem_searched looked) consumers

/-- For any machine whose steps are steps of a lab. -/
theorem everyStep_usesWithin_iff
    {Action : Type}
    {machine : Machine (LabState Queue ProducerPc ConsumerPc) Action}
    {turn : Action → Turn}
    (steps : ∀ state action next,
      machine.step state action = some next →
        LabStep lab state next (turn action))
    {final : LabState Queue ProducerPc ConsumerPc}
    (starts : state.Numbered)
    {actions : List Action}
    (executed : machine.run state actions = some final) :
    machine.EveryStep (fun state action => state.UsesWithin (turn action))
        state actions ↔
      machine.EveryStep (fun state action => state.AddsInRoom (turn action))
        state actions := by
  refine Machine.everyStep_congr LabState.Numbered ?_ ?_ starts
    (machine.everyStep_true state actions) executed
  · intro state action next numbered inRoom stepped
    exact numbered.step inRoom (steps state action next stepped)
  · intro state action next numbered _ _
    exact numbered.usesWithin_iff

end Labs

/-! ## Both labs -/

theorem semStart_numbered (size : Nat) (block : Nat → MessagePtr) :
    (semStart size block).Numbered :=
  ⟨⟨.empty _, .empty _⟩, Nat.zero_le _, Nat.zero_le _⟩

theorem condStart_numbered (size : Nat) (block : Nat → MessagePtr) :
    (condStart size block).Numbered :=
  ⟨⟨.empty _, .empty _⟩, Nat.zero_le _, Nat.zero_le _⟩

/-- In a run of either lab every index used into the arrays of the threads is
below `MAX_THREADS` exactly when no thread is admitted once `MAX_THREADS`
threads of its kind were created. -/
theorem indices_within_iff
    (size : Nat)
    (block : Nat → MessagePtr) :
    (∀ actions final,
      (semMachine size).run (semStart size block) actions = some final →
        ((semMachine size).EveryStep
            (fun state action => state.UsesWithin action.turn)
            (semStart size block) actions ↔
          (semMachine size).EveryStep
            (fun state action => state.AddsInRoom action.turn)
            (semStart size block) actions)) ∧
    (∀ actions final,
      (condMachine size).run (condStart size block) actions = some final →
        ((condMachine size).EveryStep
            (fun state action => state.UsesWithin action.turn)
            (condStart size block) actions ↔
          (condMachine size).EveryStep
            (fun state action => state.AddsInRoom action.turn)
            (condStart size block) actions)) := by
  constructor
  · intro actions final executed
    exact everyStep_usesWithin_iff
      (fun _ _ _ stepped => semStep_labStep stepped)
      (semStart_numbered size block) executed
  · intro actions final executed
    exact everyStep_usesWithin_iff
      (fun _ _ _ stepped => condStep_labStep stepped)
      (condStart_numbered size block) executed

/-! ## One producer too many -/

/-- A hundred producers are created, one is removed and one more created. -/
def hundredAndOneSchedule : List CondAction :=
  let add := [CondAction.main .idle, .main (.addProducer .created)]
  (List.replicate 100 add).flatten ++
    [.main .idle, .main .removeProducer, .main .idle, .main .idle] ++ add

theorem hundredAndOneSchedule_runs :
    ((condMachine initialQueueSize).run
      (condStart initialQueueSize fun _ => 0) hundredAndOneSchedule).isSome =
        true := by
  decide +kernel

theorem hundredAndOneSchedule_leaves :
    ¬(condMachine initialQueueSize).EveryStep
      (fun state action => state.UsesWithin action.turn)
      (condStart initialQueueSize fun _ => 0) hundredAndOneSchedule := by
  decide +kernel

/-- Not every run stays inside the arrays. -/
theorem not_every_index_within :
    ¬∀ actions final,
      (condMachine initialQueueSize).run
          (condStart initialQueueSize fun _ => 0) actions = some final →
        (condMachine initialQueueSize).EveryStep
          (fun state action => state.UsesWithin action.turn)
          (condStart initialQueueSize fun _ => 0) actions := by
  intro every
  obtain ⟨final, ran⟩ :=
    Option.isSome_iff_exists.mp hundredAndOneSchedule_runs
  exact hundredAndOneSchedule_leaves (every _ final ran)

/-- The last producer is admitted after a hundred others were created. -/
theorem hundredAndOneSchedule_exceeds_room :
    ¬(condMachine initialQueueSize).EveryStep
      (fun state action => state.AddsInRoom action.turn)
      (condStart initialQueueSize fun _ => 0) hundredAndOneSchedule := by
  intro inRoom
  obtain ⟨final, ran⟩ :=
    Option.isSome_iff_exists.mp hundredAndOneSchedule_runs
  have within := (indices_within_iff initialQueueSize fun _ => 0).2
    hundredAndOneSchedule final ran
  exact hundredAndOneSchedule_leaves (within.mpr inRoom)

end ThreadQueue
end OSaSP
