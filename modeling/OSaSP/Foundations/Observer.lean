import OSaSP.Foundations.Machine
import Mathlib.Order.Monotone.Basic

/-!
# Observers of a machine

An observer sees every step of a run and keeps notes about it, such as how
often something happened.  The notes belong to the run and not to the states,
so properties of a run's history are invariants of the state together with the
notes.  Runs without an end are observed time by time.
-/

namespace OSaSP
namespace Machine

universe u v w

variable {State : Type u} {Action : Type v} {Notes : Type w}

/-- What an observer that sees every step has noted at the end of a run. -/
def observed
    (machine : Machine State Action)
    (observe : State → Action → Notes → Notes) :
    Notes → State → List Action → Notes
  | notes, _, [] => notes
  | notes, state, action :: actions =>
      match machine.step state action with
      | some next =>
          machine.observed observe (observe state action notes) next actions
      | none => notes

/-- What every step keeps true of the state and the notes holds at the end of a
run. -/
theorem observed_invariant
    {machine : Machine State Action}
    {condition : State → Action → Prop}
    {observe : State → Action → Notes → Notes}
    (invariant : State → Notes → Prop)
    (preserved : ∀ state action next notes,
      invariant state notes → condition state action →
        machine.step state action = some next →
          invariant next (observe state action notes))
    {state final : State}
    {notes : Notes}
    (starts : invariant state notes)
    {actions : List Action}
    (meets : machine.EveryStep condition state actions)
    (executed : machine.run state actions = some final) :
    invariant final (machine.observed observe notes state actions) := by
  induction actions generalizing state notes with
  | nil =>
      rw [run_nil, Option.some.injEq] at executed
      exact executed ▸ starts
  | cons action actions inductionHypothesis =>
      rw [run_cons, Option.bind_eq_some_iff] at executed
      obtain ⟨next, stepped, rest⟩ := executed
      simp only [observed, stepped]
      exact inductionHypothesis
        (preserved state action next notes starts meets.1 stepped)
        (meets.2 next stepped) rest

/-- A run without an end. -/
structure InfiniteRun (machine : Machine State Action) where
  states : Nat → State
  schedule : Nat → Action
  steps : ∀ time, machine.step (states time) (schedule time) =
    some (states (time + 1))

namespace InfiniteRun

/-- A run that ends where it can idle, idling from then on. -/
def idling
    (machine : Machine State Action)
    (state final : State)
    (actions : List Action)
    (idle : Action)
    (executed : machine.run state actions = some final)
    (stays : machine.step final idle = some final) :
    InfiniteRun machine where
  states time := (machine.run state (actions.take time)).getD final
  schedule time := actions[time]?.getD idle
  steps time := by
    rcases Nat.lt_or_ge time actions.length with inside | after
    · have cut := List.take_append_drop (time + 1) actions
      have longer := List.take_succ_eq_append_getElem inside
      rw [← cut, run_append, Option.bind_eq_some_iff] at executed
      obtain ⟨next, reached, -⟩ := executed
      have passed := reached
      rw [longer, run_append, Option.bind_eq_some_iff] at passed
      obtain ⟨middle, before, last⟩ := passed
      rw [run_cons, Option.bind_eq_some_iff] at last
      obtain ⟨_, stepped, same⟩ := last
      cases same
      rw [before, reached, List.getElem?_eq_getElem inside]
      exact stepped
    · rw [List.take_of_length_le after,
        List.take_of_length_le (Nat.le_succ_of_le after), executed,
        List.getElem?_eq_none after]
      exact stays

/-- What the run and its idling meet is met always. -/
theorem idling_meets
    {machine : Machine State Action}
    {condition : State → Action → Prop}
    {state final : State}
    {actions : List Action}
    {idle : Action}
    (executed : machine.run state actions = some final)
    (stays : machine.step final idle = some final)
    (meets : machine.EveryStep condition state actions)
    (idles : condition final idle)
    (time : Nat) :
    condition
      ((idling machine state final actions idle executed stays).states time)
      ((idling machine state final actions idle executed stays).schedule
        time) := by
  rcases Nat.lt_or_ge time actions.length with inside | after
  · have cut := List.take_append_drop time actions
    have whole := executed
    rw [← cut, run_append, Option.bind_eq_some_iff] at whole
    obtain ⟨middle, reached, -⟩ := whole
    rw [← cut] at meets
    have later := meets.of_append reached
    rw [List.drop_eq_getElem_cons inside] at later
    simp only [idling, reached, Option.getD_some,
      List.getElem?_eq_getElem inside]
    exact later.1
  · simp only [idling, List.take_of_length_le after, executed,
      Option.getD_some, List.getElem?_eq_none after, Option.getD_none]
    exact idles

variable {machine : Machine State Action} (infinite : InfiniteRun machine)
  (observe : State → Action → Notes → Notes) (start : Notes)

/-- What an observer has noted at a time. -/
def notes : Nat → Notes
  | 0 => start
  | time + 1 =>
      observe (infinite.states time) (infinite.schedule time) (notes time)

/-- What every step keeps true of the state and the notes holds always. -/
theorem invariant
    {condition : State → Action → Prop}
    {observe : State → Action → Notes → Notes}
    {start : Notes}
    (property : State → Notes → Prop)
    (preserved : ∀ state action next notes,
      property state notes → condition state action →
        machine.step state action = some next →
          property next (observe state action notes))
    (starts : property (infinite.states 0) start)
    (meets : ∀ time, condition (infinite.states time)
      (infinite.schedule time))
    (time : Nat) :
    property (infinite.states time) (infinite.notes observe start time) := by
  induction time with
  | zero => exact starts
  | succ time inductionHypothesis =>
      exact preserved _ _ _ _ inductionHypothesis (meets time)
        (infinite.steps time)

end InfiniteRun

/-- A count that never falls and rises again and again passes every bound. -/
theorem exists_le_of_rises
    {count : Nat → Nat}
    (never : ∀ time, count time ≤ count (time + 1))
    (again : ∀ time, ∃ later ≥ time, count later < count (later + 1))
    (bound : Nat) :
    ∃ time, bound ≤ count time := by
  induction bound with
  | zero => exact ⟨0, Nat.zero_le _⟩
  | succ bound inductionHypothesis =>
      obtain ⟨time, reached⟩ := inductionHypothesis
      obtain ⟨later, after, rises⟩ := again time
      have grown : count time ≤ count later :=
        monotone_nat_of_le_succ never after
      exact ⟨later + 1, Nat.lt_of_le_of_lt (Nat.le_trans reached grown) rises⟩

end Machine
end OSaSP
