import Mathlib.Init

/-!
# Machines with partial actions

A machine is a set of initial states and a step function that is undefined when
an action is not enabled.  Schedules are lists of actions, so a property of
every schedule is a property of every interleaving of the parties whose steps
the actions are.

Four rules carry the later developments.  `ReachableUnder.invariant` turns a
step lemma into a fact about every reachable state.
`everyState_iff_everyStep_within` characterizes, for one whole run, when a
property holds in all of its states by a condition on the steps the run takes;
`everyStep_congr` does the same for a property of the steps.
`until_of_everyStep` follows a run from one event to the next.
-/

namespace OSaSP

/-- Initial states together with a partial step function. -/
structure Machine (State : Type u) (Action : Type v) where
  initial : State → Prop
  step : State → Action → Option State

namespace Machine

variable {State : Type u} {Action : Type v}

/-- Execute a schedule, stopping at the first action that is not enabled. -/
def run (machine : Machine State Action) : State → List Action → Option State
  | state, [] => some state
  | state, action :: actions =>
      (machine.step state action).bind fun next => machine.run next actions

@[simp] theorem run_nil
    (machine : Machine State Action)
    (state : State) :
    machine.run state [] = some state := rfl

theorem run_cons
    (machine : Machine State Action)
    (state : State)
    (action : Action)
    (actions : List Action) :
    machine.run state (action :: actions) =
      (machine.step state action).bind fun next =>
        machine.run next actions := rfl

/-- Running a concatenated schedule runs its two parts in order. -/
theorem run_append
    (machine : Machine State Action)
    (state : State)
    (first second : List Action) :
    machine.run state (first ++ second) =
      (machine.run state first).bind fun middle =>
        machine.run middle second := by
  induction first generalizing state with
  | nil => rfl
  | cons action actions inductionHypothesis =>
      rw [List.cons_append, run_cons, run_cons]
      cases machine.step state action with
      | none => rfl
      | some next => exact inductionHypothesis next

/-- States reached by steps that all satisfy a condition. -/
inductive ReachableUnder
    (machine : Machine State Action)
    (condition : State → Action → Prop) : State → Prop
  | initial {state : State} :
      machine.initial state → ReachableUnder machine condition state
  | step {state next : State} {action : Action} :
      ReachableUnder machine condition state →
      condition state action →
      machine.step state action = some next →
      ReachableUnder machine condition next

/-- States reached by arbitrary steps. -/
abbrev Reachable (machine : Machine State Action) : State → Prop :=
  machine.ReachableUnder fun _ _ => True

/-- An initially true property that the conditioned steps preserve holds in
every state they reach. -/
theorem ReachableUnder.invariant
    {machine : Machine State Action}
    {condition : State → Action → Prop}
    {property : State → Prop}
    (initially : ∀ state, machine.initial state → property state)
    (preserved : ∀ state action next,
      property state → condition state action →
        machine.step state action = some next → property next)
    {state : State}
    (reachable : machine.ReachableUnder condition state) :
    property state := by
  induction reachable with
  | initial start => exact initially _ start
  | step _ meets stepped inductionHypothesis =>
      exact preserved _ _ _ inductionHypothesis meets stepped

/-- A schedule of actions that meet the condition in any state stays among the
states reachable under it. -/
theorem ReachableUnder.run
    {machine : Machine State Action}
    {condition : State → Action → Prop}
    {state final : State}
    (reachable : machine.ReachableUnder condition state)
    {actions : List Action}
    (always : ∀ action ∈ actions, ∀ state, condition state action)
    (executed : machine.run state actions = some final) :
    machine.ReachableUnder condition final := by
  induction actions generalizing state with
  | nil =>
      rw [run_nil, Option.some.injEq] at executed
      exact executed ▸ reachable
  | cons action actions inductionHypothesis =>
      rw [run_cons, Option.bind_eq_some_iff] at executed
      obtain ⟨next, stepped, rest⟩ := executed
      rw [List.forall_mem_cons] at always
      exact inductionHypothesis (.step reachable (always.1 state) stepped)
        always.2 rest

/-- A state computed by a schedule from a reachable state is reachable. -/
theorem Reachable.run
    {machine : Machine State Action}
    {state final : State}
    (reachable : machine.Reachable state)
    {actions : List Action}
    (executed : machine.run state actions = some final) :
    machine.Reachable final :=
  ReachableUnder.run reachable (fun _ _ _ => trivial) executed

/-- A property holds in the first state of a run and after each of its
steps. -/
def EveryState
    (machine : Machine State Action)
    (property : State → Prop) : State → List Action → Prop
  | state, [] => property state
  | state, action :: actions =>
      property state ∧ ∀ next, machine.step state action = some next →
        machine.EveryState property next actions

/-- Every step of a run meets a condition on the state before it. -/
def EveryStep
    (machine : Machine State Action)
    (condition : State → Action → Prop) : State → List Action → Prop
  | _, [] => True
  | state, action :: actions =>
      condition state action ∧
        ∀ next, machine.step state action = some next →
          machine.EveryStep condition next actions

/-- A condition on the state after a partial step can be checked. -/
def decidableAfter
    (stepped : Option State)
    (property : State → Prop)
    [∀ state, Decidable (property state)] :
    Decidable (∀ next, stepped = some next → property next) :=
  match stepped with
  | none => isTrue fun _ impossible => nomatch impossible
  | some next =>
      decidable_of_iff (property next)
        ⟨fun holds _ same => Option.some.inj same ▸ holds,
          fun holds => holds next rfl⟩

instance decidableEveryStep
    (machine : Machine State Action)
    (condition : State → Action → Prop)
    [∀ state action, Decidable (condition state action)] :
    ∀ state actions, Decidable (machine.EveryStep condition state actions)
  | _, [] => isTrue trivial
  | state, action :: actions =>
      have : ∀ next, Decidable (machine.EveryStep condition next actions) :=
        fun next => decidableEveryStep machine condition next actions
      have := decidableAfter (machine.step state action) fun next =>
        machine.EveryStep condition next actions
      inferInstanceAs (Decidable (_ ∧ _))

/-- A run whose steps all meet the condition stays among the states reachable
under it. -/
theorem ReachableUnder.of_everyStep
    {machine : Machine State Action}
    {condition : State → Action → Prop}
    {state final : State}
    (reachable : machine.ReachableUnder condition state)
    {actions : List Action}
    (meets : machine.EveryStep condition state actions)
    (executed : machine.run state actions = some final) :
    machine.ReachableUnder condition final := by
  induction actions generalizing state with
  | nil =>
      rw [run_nil, Option.some.injEq] at executed
      exact executed ▸ reachable
  | cons action actions inductionHypothesis =>
      rw [run_cons, Option.bind_eq_some_iff] at executed
      obtain ⟨next, stepped, rest⟩ := executed
      exact inductionHypothesis (.step reachable meets.1 stepped)
        (meets.2 next stepped) rest

theorem EveryState.head
    {machine : Machine State Action}
    {property : State → Prop}
    {state : State}
    {actions : List Action}
    (holds : machine.EveryState property state actions) :
    property state := by
  cases actions with
  | nil => exact holds
  | cons action actions => exact holds.1

/-- The last state of a run has the property that all its states have. -/
theorem EveryState.last
    {machine : Machine State Action}
    {property : State → Prop}
    {state final : State}
    {actions : List Action}
    (holds : machine.EveryState property state actions)
    (executed : machine.run state actions = some final) :
    property final := by
  induction actions generalizing state with
  | nil =>
      rw [run_nil, Option.some.injEq] at executed
      exact executed ▸ holds
  | cons action actions inductionHypothesis =>
      rw [run_cons, Option.bind_eq_some_iff] at executed
      obtain ⟨next, stepped, rest⟩ := executed
      exact inductionHypothesis (holds.2 next stepped) rest

/-- Steps that meet the condition preserve the invariant, so the invariant
holds along a run of such steps. -/
theorem everyState_of_everyStep
    {machine : Machine State Action}
    {condition : State → Action → Prop}
    {invariant : State → Prop}
    (preserved : ∀ state action next,
      invariant state → condition state action →
        machine.step state action = some next → invariant next)
    {state : State}
    (starts : invariant state)
    {actions : List Action}
    (meets : machine.EveryStep condition state actions) :
    machine.EveryState invariant state actions := by
  induction actions generalizing state with
  | nil => exact starts
  | cons action actions inductionHypothesis =>
      refine ⟨starts, fun next stepped => ?_⟩
      exact inductionHypothesis
        (preserved state action next starts meets.1 stepped)
        (meets.2 next stepped)

/-- What every step preserves holds at the end of a run. -/
theorem run_preserves
    {machine : Machine State Action}
    (invariant : State → Prop)
    (preserved : ∀ state action next,
      invariant state → machine.step state action = some next →
        invariant next)
    {state final : State}
    (starts : invariant state)
    {actions : List Action}
    (executed : machine.run state actions = some final) :
    invariant final := by
  induction actions generalizing state with
  | nil =>
      rw [run_nil, Option.some.injEq] at executed
      exact executed ▸ starts
  | cons action actions inductionHypothesis =>
      rw [run_cons, Option.bind_eq_some_iff] at executed
      obtain ⟨next, stepped, rest⟩ := executed
      exact inductionHypothesis (preserved state action next starts stepped)
        rest

/-- A weaker property holds wherever a stronger one does. -/
theorem EveryState.imp
    {machine : Machine State Action}
    {strong weak : State → Prop}
    (weaker : ∀ state, strong state → weak state)
    {state : State}
    {actions : List Action}
    (holds : machine.EveryState strong state actions) :
    machine.EveryState weak state actions := by
  induction actions generalizing state with
  | nil => exact weaker state holds
  | cons action actions inductionHypothesis =>
      refine ⟨weaker state holds.1, fun next stepped => ?_⟩
      exact inductionHypothesis (holds.2 next stepped)

/-- Conditions met by every step are met together. -/
theorem EveryStep.and
    {machine : Machine State Action}
    {first second : State → Action → Prop}
    {state : State}
    {actions : List Action}
    (meetsFirst : machine.EveryStep first state actions)
    (meetsSecond : machine.EveryStep second state actions) :
    machine.EveryStep (fun state action =>
      first state action ∧ second state action) state actions := by
  induction actions generalizing state with
  | nil => trivial
  | cons action actions inductionHypothesis =>
      refine ⟨⟨meetsFirst.1, meetsSecond.1⟩, fun next stepped => ?_⟩
      exact inductionHypothesis (meetsFirst.2 next stepped)
        (meetsSecond.2 next stepped)

/-- Exact characterization of the runs of allowed steps along which a property
holds.  The invariant implies the property and survives the steps that meet the
condition; an enabled step that misses the condition refutes the property right
after it.  Steps of the run are enabled because the run executes. -/
theorem everyState_iff_everyStep_within
    {machine : Machine State Action}
    {allowed condition : State → Action → Prop}
    {invariant property : State → Prop}
    (implies : ∀ state, invariant state → property state)
    (preserved : ∀ state action next,
      invariant state → allowed state action → condition state action →
        machine.step state action = some next → invariant next)
    (refuted : ∀ state action next,
      invariant state → allowed state action → ¬condition state action →
        machine.step state action = some next → ¬property next)
    {state final : State}
    (starts : invariant state)
    {actions : List Action}
    (permitted : machine.EveryStep allowed state actions)
    (executed : machine.run state actions = some final) :
    machine.EveryState property state actions ↔
      machine.EveryStep condition state actions := by
  constructor
  · intro holds
    induction actions generalizing state with
    | nil => trivial
    | cons action actions inductionHypothesis =>
        rw [run_cons, Option.bind_eq_some_iff] at executed
        obtain ⟨next, stepped, rest⟩ := executed
        have later := holds.2 next stepped
        have meets : condition state action :=
          Classical.byContradiction fun misses =>
            refuted state action next starts permitted.1 misses stepped
              later.head
        refine ⟨meets, fun next' stepped' => ?_⟩
        rw [stepped, Option.some.injEq] at stepped'
        subst stepped'
        exact inductionHypothesis
          (preserved state action next starts permitted.1 meets stepped)
          (permitted.2 next stepped) rest later
  · intro meets
    have kept : ∀ state action next,
        invariant state → (allowed state action ∧ condition state action) →
          machine.step state action = some next → invariant next :=
      fun state action next holds both =>
        preserved state action next holds both.1 both.2
    exact (everyState_of_everyStep kept starts
      (permitted.and meets)).imp implies

/-- When all steps are allowed, every run is a run of allowed steps. -/
theorem everyStep_true
    (machine : Machine State Action)
    (state : State)
    (actions : List Action) :
    machine.EveryStep (fun _ _ => True) state actions := by
  induction actions generalizing state with
  | nil => exact True.intro
  | cons action actions inductionHypothesis =>
      exact ⟨True.intro, fun next _ => inductionHypothesis next⟩

/-- The same for runs of any steps. -/
theorem everyState_iff_everyStep
    {machine : Machine State Action}
    {condition : State → Action → Prop}
    {invariant property : State → Prop}
    (implies : ∀ state, invariant state → property state)
    (preserved : ∀ state action next,
      invariant state → condition state action →
        machine.step state action = some next → invariant next)
    (refuted : ∀ state action next,
      invariant state → ¬condition state action →
        machine.step state action = some next → ¬property next)
    {state final : State}
    (starts : invariant state)
    {actions : List Action}
    (executed : machine.run state actions = some final) :
    machine.EveryState property state actions ↔
      machine.EveryStep condition state actions :=
  everyState_iff_everyStep_within implies
    (fun state action next holds _ => preserved state action next holds)
    (fun state action next holds _ => refuted state action next holds)
    starts (everyStep_true machine state actions) executed

/-- The steps of the second part of a run meet the condition, too. -/
theorem EveryStep.of_append
    {machine : Machine State Action}
    {condition : State → Action → Prop}
    {state middle : State}
    {first second : List Action}
    (meets : machine.EveryStep condition state (first ++ second))
    (executed : machine.run state first = some middle) :
    machine.EveryStep condition middle second := by
  induction first generalizing state with
  | nil =>
      rw [run_nil, Option.some.injEq] at executed
      exact executed ▸ meets
  | cons action actions inductionHypothesis =>
      rw [run_cons, Option.bind_eq_some_iff] at executed
      obtain ⟨next, stepped, rest⟩ := executed
      exact inductionHypothesis (meets.2 next stepped) rest

/-- A condition on the actions alone, met by every action of a schedule. -/
theorem EveryStep.of_actions
    {machine : Machine State Action}
    {condition : Action → Prop}
    {actions : List Action}
    (always : ∀ action ∈ actions, condition action)
    (state : State) :
    machine.EveryStep (fun _ action => condition action) state actions := by
  induction actions generalizing state with
  | nil => trivial
  | cons action actions inductionHypothesis =>
      rw [List.forall_mem_cons] at always
      exact ⟨always.1, fun next _ => inductionHypothesis always.2 next⟩

/-- What the condition implies in states with the invariant, every step of a
run meets, when the steps that meet the condition preserve the invariant. -/
theorem EveryStep.of_invariant
    {machine : Machine State Action}
    {condition implied : State → Action → Prop}
    (invariant : State → Prop)
    (preserved : ∀ state action next,
      invariant state → condition state action →
        machine.step state action = some next → invariant next)
    (implies : ∀ state action,
      invariant state → condition state action → implied state action)
    {state : State}
    (starts : invariant state)
    {actions : List Action}
    (meets : machine.EveryStep condition state actions) :
    machine.EveryStep implied state actions := by
  induction actions generalizing state with
  | nil => trivial
  | cons action actions inductionHypothesis =>
      refine ⟨implies state action starts meets.1, fun next stepped => ?_⟩
      exact inductionHypothesis
        (preserved state action next starts meets.1 stepped)
        (meets.2 next stepped)

/-- Two conditions that agree on every enabled step from a state with the
invariant agree along whole runs, when the steps that meet them preserve the
invariant. -/
theorem everyStep_congr
    {machine : Machine State Action}
    {allowed first second : State → Action → Prop}
    (invariant : State → Prop)
    (preserved : ∀ state action next,
      invariant state → second state action →
        machine.step state action = some next → invariant next)
    (agree : ∀ state action next,
      invariant state → allowed state action →
        machine.step state action = some next →
          (first state action ↔ second state action))
    {state final : State}
    (starts : invariant state)
    {actions : List Action}
    (permitted : machine.EveryStep allowed state actions)
    (executed : machine.run state actions = some final) :
    machine.EveryStep first state actions ↔
      machine.EveryStep second state actions := by
  induction actions generalizing state with
  | nil => exact Iff.rfl
  | cons action actions inductionHypothesis =>
      rw [run_cons, Option.bind_eq_some_iff] at executed
      obtain ⟨next, stepped, rest⟩ := executed
      have same := agree state action next starts permitted.1 stepped
      have later : second state action →
          (machine.EveryStep first next actions ↔
            machine.EveryStep second next actions) := fun meets =>
        inductionHypothesis (preserved state action next starts meets stepped)
          (permitted.2 next stepped) rest
      simp only [EveryStep, same, stepped, Option.some.injEq, forall_eq']
      exact and_congr_right later

/-- Along a run a property holds up to the first state that is complete, if
there is one. -/
def Until
    (machine : Machine State Action)
    (holds complete : State → Prop) : State → List Action → Prop
  | state, [] => holds state
  | state, action :: actions =>
      holds state ∧ ∀ next, machine.step state action = some next →
        complete next ∨ machine.Until holds complete next actions

/-- Steps that keep the property or complete it. -/
theorem until_of_everyStep
    {machine : Machine State Action}
    {condition : State → Action → Prop}
    {holds complete : State → Prop}
    (invariant : State → Prop)
    (preserved : ∀ state action next,
      invariant state → condition state action →
        machine.step state action = some next → invariant next)
    (advances : ∀ state action next,
      invariant state → holds state → condition state action →
        machine.step state action = some next → complete next ∨ holds next)
    {state : State}
    (starts : invariant state)
    (begins : holds state)
    {actions : List Action}
    (meets : machine.EveryStep condition state actions) :
    machine.Until holds complete state actions := by
  induction actions generalizing state with
  | nil => exact begins
  | cons action actions inductionHypothesis =>
      refine ⟨begins, fun next stepped => ?_⟩
      rcases advances state action next starts begins meets.1 stepped
        with completes | goesOn
      · exact .inl completes
      · exact .inr (inductionHypothesis
          (preserved state action next starts meets.1 stepped) goesOn
          (meets.2 next stepped))

/-- The cost of the steps of a run, summed up. -/
def accumulated
    (machine : Machine State Action)
    (cost : State → Action → Nat) : State → List Action → Nat
  | _, [] => 0
  | state, action :: actions =>
      cost state action +
        match machine.step state action with
        | some next => machine.accumulated cost next actions
        | none => 0

/-- An account whose two sides drift apart by the cost of each step drifts
apart by the accumulated cost over a run. -/
theorem accumulated_eq
    {machine : Machine State Action}
    {condition : State → Action → Prop}
    (cost : State → Action → Nat)
    (credit debit : State → Nat)
    (invariant : State → Prop)
    (preserved : ∀ state action next,
      invariant state → condition state action →
        machine.step state action = some next → invariant next)
    (balances : ∀ state action next,
      invariant state → condition state action →
        machine.step state action = some next →
          credit next + debit state =
            credit state + debit next + cost state action)
    {state final : State}
    (starts : invariant state)
    {actions : List Action}
    (meets : machine.EveryStep condition state actions)
    (executed : machine.run state actions = some final) :
    credit final + debit state =
      credit state + debit final +
        machine.accumulated cost state actions := by
  induction actions generalizing state with
  | nil =>
      rw [run_nil, Option.some.injEq] at executed
      subst executed
      rfl
  | cons action actions inductionHypothesis =>
      rw [run_cons, Option.bind_eq_some_iff] at executed
      obtain ⟨next, stepped, rest⟩ := executed
      have first := balances state action next starts meets.1 stepped
      have later := inductionHypothesis
        (preserved state action next starts meets.1 stepped)
        (meets.2 next stepped) rest
      simp only [accumulated, stepped]
      omega

/-- A goal is reached by some run when a step towards it lowers a rank in
every state that has the invariant and misses the goal. -/
theorem exists_run_of_rank
    (machine : Machine State Action)
    (goal invariant : State → Prop)
    (rank : State → Nat)
    (lowers : ∀ state, invariant state → ¬goal state →
      ∃ action next, machine.step state action = some next ∧
        invariant next ∧ rank next < rank state)
    {state : State}
    (starts : invariant state) :
    ∃ actions final, machine.run state actions = some final ∧
      invariant final ∧ goal final := by
  by_cases reached : goal state
  · exact ⟨[], state, rfl, starts, reached⟩
  · obtain ⟨action, next, stepped, holds, lower⟩ :=
      lowers state starts reached
    obtain ⟨actions, final, ran, finish⟩ :=
      exists_run_of_rank machine goal invariant rank lowers holds
    refine ⟨action :: actions, final, ?_, finish⟩
    rw [run_cons, stepped, Option.bind_some, ran]
termination_by rank state

end Machine
end OSaSP
