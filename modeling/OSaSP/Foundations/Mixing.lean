import Mathlib.Data.List.Basic

/-!
# Folds that notice a change

A checksum folds a step over its input.  When the step loses nothing of the
state and nothing of the element it mixes in, the fold tells apart any two
inputs that differ in one place, however many elements follow.
-/

namespace OSaSP

variable {State Element : Type}

/-- A step that is injective in the state and in the element. -/
structure Mixing (mix : State → Element → State) : Prop where
  state : ∀ element, Function.Injective fun state => mix state element
  element : ∀ state, Function.Injective (mix state)

namespace Mixing

variable {mix : State → Element → State}

/-- Elements that follow never make two states equal again. -/
theorem foldl_injective
    (mixing : Mixing mix)
    (elements : List Element) :
    Function.Injective fun state => elements.foldl mix state := by
  induction elements with
  | nil => exact Function.injective_id
  | cons element elements inductionHypothesis =>
      exact inductionHypothesis.comp (mixing.state element)

/-- Two inputs that differ in one element have different results. -/
theorem foldl_middle_inj
    (mixing : Mixing mix)
    (state : State)
    (before after : List Element)
    {left right : Element}
    (same : (before ++ left :: after).foldl mix state =
      (before ++ right :: after).foldl mix state) :
    left = right := by
  rw [List.foldl_append, List.foldl_append, List.foldl_cons, List.foldl_cons]
    at same
  exact mixing.element _ (mixing.foldl_injective after same)

/-- Replacing an element by a different one changes the result. -/
theorem foldl_set_ne
    (mixing : Mixing mix)
    (state : State)
    {elements : List Element}
    {index : Nat}
    (inside : index < elements.length)
    {element : Element}
    (changed : element ≠ elements[index]) :
    (elements.set index element).foldl mix state ≠
      elements.foldl mix state := by
  intro same
  rw [List.set_eq_take_append_cons_drop, if_pos inside] at same
  have split : elements.take index ++
      elements[index] :: elements.drop (index + 1) = elements := by
    rw [List.getElem_cons_drop, List.take_append_drop]
  rw [← congrArg (List.foldl mix state) split] at same
  exact changed (mixing.foldl_middle_inj state _ _ same)

end Mixing

end OSaSP
