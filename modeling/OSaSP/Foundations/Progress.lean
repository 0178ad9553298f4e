import OSaSP.Foundations.Observer
import Mathlib.Order.WellFounded

/-!
# Runs that end

A machine makes progress when every step lowers a rank.  If the rank is a
number, it bounds the length of every schedule, and where some steps raise it
against a credit, the credit bounds how many steps a run takes; in any
well-founded order, a run that never ends comes to a goal, when only the goal
stops the rank from falling.  A machine whose schedules are bounded comes to a
state in which it is stuck, so these states are what its runs end in.
-/

namespace OSaSP
namespace Machine

variable {State : Type u} {Action : Type v}

/-- No step is possible. -/
def Stuck (machine : Machine State Action) (state : State) : Prop :=
  ∀ action, machine.step state action = none

/-- When each counted step is paid for by a rank that falls or by a credit that
grows, the credit gained over a run bounds the steps counted. -/
theorem countP_add_rank_le
    {machine : Machine State Action}
    {invariant : State → Prop}
    (counts : Action → Bool)
    (rank credit : State → Nat)
    (preserved : ∀ state action next,
      invariant state → machine.step state action = some next →
        invariant next)
    (pays : ∀ state action next,
      invariant state → machine.step state action = some next →
        rank next + credit state + (if counts action then 1 else 0) ≤
          rank state + credit next)
    {state final : State}
    (starts : invariant state)
    {actions : List Action}
    (executed : machine.run state actions = some final) :
    actions.countP counts + rank final + credit state ≤
      rank state + credit final := by
  induction actions generalizing state with
  | nil =>
      rw [run_nil, Option.some.injEq] at executed
      rw [executed, List.countP_nil, Nat.zero_add]
  | cons action actions inductionHypothesis =>
      rw [run_cons, Option.bind_eq_some_iff] at executed
      obtain ⟨next, stepped, rest⟩ := executed
      have paid := pays state action next starts stepped
      have bounded := inductionHypothesis
        (preserved state action next starts stepped) rest
      rw [List.countP_cons]
      omega

/-- A number that every step lowers bounds the length of a schedule. -/
theorem length_add_rank_le
    {machine : Machine State Action}
    {invariant : State → Prop}
    (rank : State → Nat)
    (preserved : ∀ state action next,
      invariant state → machine.step state action = some next →
        invariant next)
    (lowers : ∀ state action next,
      invariant state → machine.step state action = some next →
        rank next < rank state)
    {state final : State}
    (starts : invariant state)
    {actions : List Action}
    (executed : machine.run state actions = some final) :
    actions.length + rank final ≤ rank state := by
  have counted := countP_add_rank_le (fun _ => true) rank (fun _ => 0)
    preserved
    (fun state action next holds stepped => by
      have lower := lowers state action next holds stepped
      simp only [if_true]
      omega)
    starts executed
  rw [List.countP_true] at counted
  exact counted

/-- When every step from a state with the invariant reaches a goal or goes down
in a well-founded order, a run that never ends reaches the goal, by a step from
a state that still has the invariant. -/
theorem InfiniteRun.exists_goal
    {machine : Machine State Action}
    {Rank : Type w}
    {below : Rank → Rank → Prop}
    {goal invariant : State → Prop}
    (wellFounded : WellFounded below)
    (rank : State → Rank)
    (lowers : ∀ state action next,
      invariant state → machine.step state action = some next →
        goal next ∨ invariant next ∧ below (rank next) (rank state))
    (infinite : InfiniteRun machine)
    (time : Nat)
    (starts : invariant (infinite.states time)) :
    ∃ later, time ≤ later ∧ invariant (infinite.states later) ∧
      goal (infinite.states (later + 1)) := by
  induction same : rank (infinite.states time)
    using wellFounded.induction generalizing time with
  | _ low inductionHypothesis =>
      rcases lowers _ _ _ starts (infinite.steps time)
        with reached | ⟨holds, lower⟩
      · exact ⟨time, Nat.le_refl time, starts, reached⟩
      · rw [same] at lower
        obtain ⟨later, after, reached⟩ :=
          inductionHypothesis _ lower (time + 1) holds rfl
        exact ⟨later, Nat.le_of_succ_le after, reached⟩

end Machine
end OSaSP
