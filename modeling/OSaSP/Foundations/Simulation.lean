import OSaSP.Foundations.Machine

/-!
# Machines that simulate each other

Every step of a concrete machine is matched by some steps of an abstract one,
perhaps none, that show the same labels.  Then every run is matched by a run
that shows the same labels in the same order.
-/

namespace OSaSP
namespace Machine

variable {State : Type u} {Action : Type v}
variable {Abstract : Type w} {AbstractAction : Type x} {Label : Type y}

/-- The relation survives every step that meets the condition, when the
abstract machine takes matching steps. -/
def Simulates
    (concrete : Machine State Action)
    (abstract : Machine Abstract AbstractAction)
    (condition : State → Action → Prop)
    (shows : Action → List Label)
    (abstractShows : AbstractAction → List Label)
    (related : State → Abstract → Prop) : Prop :=
  ∀ state action next above,
    related state above → condition state action →
      concrete.step state action = some next →
        ∃ matching nextAbove, abstract.run above matching = some nextAbove ∧
          related next nextAbove ∧
            matching.flatMap abstractShows = shows action

/-- Whole runs are matched. -/
theorem Simulates.run
    {concrete : Machine State Action}
    {abstract : Machine Abstract AbstractAction}
    {condition : State → Action → Prop}
    {shows : Action → List Label}
    {abstractShows : AbstractAction → List Label}
    {related : State → Abstract → Prop}
    (simulates : concrete.Simulates abstract condition shows abstractShows
      related)
    {state final : State}
    {above : Abstract}
    (starts : related state above)
    {actions : List Action}
    (executed : concrete.run state actions = some final)
    (meets : concrete.EveryStep condition state actions) :
    ∃ matching finalAbove, abstract.run above matching = some finalAbove ∧
      related final finalAbove ∧
        matching.flatMap abstractShows = actions.flatMap shows := by
  induction actions generalizing state above with
  | nil =>
      rw [run_nil, Option.some.injEq] at executed
      exact ⟨[], above, rfl, executed ▸ starts, rfl⟩
  | cons action actions inductionHypothesis =>
      rw [run_cons, Option.bind_eq_some_iff] at executed
      obtain ⟨next, stepped, rest⟩ := executed
      obtain ⟨first, nextAbove, firstRan, nextRelated, firstShown⟩ :=
        simulates state action next above starts meets.1 stepped
      obtain ⟨later, finalAbove, laterRan, finalRelated, laterShown⟩ :=
        inductionHypothesis nextRelated rest (meets.2 next stepped)
      refine ⟨first ++ later, finalAbove, ?_, finalRelated, ?_⟩
      · rw [run_append, firstRan]
        exact laterRan
      · rw [List.flatMap_append, firstShown, laterShown, List.flatMap_cons]

end Machine
end OSaSP
