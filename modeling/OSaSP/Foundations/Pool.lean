import Mathlib.Algebra.BigOperators.Group.List.Basic
import Mathlib.Algebra.Order.Ring.Nat

/-!
# Pools of parties and the weights they carry

A pool is a list of parties, indexed by the order of their creation.  A weight
says how many tokens, locks or slots one party accounts for; conservation laws
speak of the total weight of the pool.  Every lemma here describes how the
total moves when one party changes or a new one joins, so that a law over the
whole pool is checked by arithmetic on the one party that moved.
-/

namespace OSaSP
namespace Pool

variable {Party : Type u}

/-- Total weight of a pool. -/
def total (weight : Party → Nat) (pool : List Party) : Nat :=
  (pool.map weight).sum

@[simp] theorem total_nil (weight : Party → Nat) :
    total weight [] = 0 := rfl

@[simp] theorem total_cons
    (weight : Party → Nat)
    (party : Party)
    (pool : List Party) :
    total weight (party :: pool) = weight party + total weight pool := by
  simp [total]

/-- A party that joins adds its own weight. -/
@[simp] theorem total_append
    (weight : Party → Nat)
    (first second : List Party) :
    total weight (first ++ second) =
      total weight first + total weight second := by
  simp [total]

/-- The total of a sum of weights is the sum of the totals. -/
theorem total_add
    (left right : Party → Nat)
    (pool : List Party) :
    total (fun party => left party + right party) pool =
      total left pool + total right pool := by
  induction pool with
  | nil => rfl
  | cons party pool inductionHypothesis =>
      simp only [total_cons, inductionHypothesis]
      omega

/-- Every member of a pool with one party replaced has a property that the old
members and the new party have. -/
theorem forall_mem_set
    {property : Party → Prop}
    {pool : List Party}
    {index : Nat}
    {new : Party}
    (old : ∀ party ∈ pool, property party)
    (holds : property new) :
    ∀ party ∈ pool.set index new, property party := by
  intro party member
  rcases List.mem_or_eq_of_mem_set member with present | rfl
  · exact old party present
  · exact holds

/-- Replacing one party moves the total by the difference of the two
weights. -/
theorem total_set
    (weight : Party → Nat)
    {pool : List Party}
    {index : Nat}
    {old : Party}
    (present : pool[index]? = some old)
    (new : Party) :
    total weight (pool.set index new) + weight old =
      total weight pool + weight new := by
  induction pool generalizing index with
  | nil => simp at present
  | cons party pool inductionHypothesis =>
      cases index with
      | zero =>
          simp only [List.getElem?_cons_zero, Option.some.injEq] at present
          subst present
          simp only [List.set_cons_zero, total_cons]
          omega
      | succ index =>
          rw [List.getElem?_cons_succ] at present
          have moved := inductionHypothesis present
          simp only [List.set_cons_succ, total_cons]
          omega

/-- A party weighs at most as much as its pool. -/
theorem weight_le_total
    (weight : Party → Nat)
    {pool : List Party}
    {index : Nat}
    {party : Party}
    (present : pool[index]? = some party) :
    weight party ≤ total weight pool := by
  induction pool generalizing index with
  | nil => simp at present
  | cons first pool inductionHypothesis =>
      cases index with
      | zero =>
          simp only [List.getElem?_cons_zero, Option.some.injEq] at present
          subst present
          simp
      | succ index =>
          rw [List.getElem?_cons_succ] at present
          have bound := inductionHypothesis present
          simp only [total_cons]
          omega

/-- Two different places of a pool weigh together at most as much as the
pool. -/
theorem weight_add_weight_le_total
    (weight : Party → Nat)
    {pool : List Party}
    {left right : Nat}
    {leftParty rightParty : Party}
    (leftPresent : pool[left]? = some leftParty)
    (rightPresent : pool[right]? = some rightParty)
    (different : left ≠ right) :
    weight leftParty + weight rightParty ≤ total weight pool := by
  induction pool generalizing left right with
  | nil => simp at leftPresent
  | cons first pool inductionHypothesis =>
      cases left with
      | zero =>
          cases right with
          | zero => exact absurd rfl different
          | succ right =>
              simp only [List.getElem?_cons_zero, Option.some.injEq]
                at leftPresent
              rw [List.getElem?_cons_succ] at rightPresent
              have bound := weight_le_total weight rightPresent
              subst leftPresent
              simp only [total_cons]
              omega
      | succ left =>
          cases right with
          | zero =>
              simp only [List.getElem?_cons_zero, Option.some.injEq]
                at rightPresent
              rw [List.getElem?_cons_succ] at leftPresent
              have bound := weight_le_total weight leftPresent
              subst rightPresent
              simp only [total_cons]
              omega
          | succ right =>
              rw [List.getElem?_cons_succ] at leftPresent rightPresent
              have bound := inductionHypothesis leftPresent rightPresent
                (by omega)
              simp only [total_cons]
              omega

/-- A member of a pool with one party replaced is the new party or an old one
at another place. -/
theorem getElem?_set_cases
    {pool : List Party}
    {index other : Nat}
    {new party : Party}
    (present : (pool.set index new)[other]? = some party) :
    other = index ∧ party = new ∨
      other ≠ index ∧ pool[other]? = some party := by
  by_cases same : index = other
  · subst same
    rw [List.getElem?_set_self'] at present
    left
    refine ⟨rfl, ?_⟩
    cases old : pool[index]? with
    | none => simp [old] at present
    | some _ => simpa [old] using present.symm
  · rw [List.getElem?_set_ne same] at present
    exact .inr ⟨Ne.symm same, present⟩

/-- The replaced party is found at its place. -/
theorem getElem?_set_present
    {pool : List Party}
    {index : Nat}
    {old : Party}
    (present : pool[index]? = some old)
    (new : Party) :
    (pool.set index new)[index]? = some new := by
  rw [List.getElem?_set_self', present]
  rfl

/-- A pool weighs nothing exactly when none of its parties does. -/
theorem total_eq_zero_iff
    (weight : Party → Nat)
    (pool : List Party) :
    total weight pool = 0 ↔ ∀ party ∈ pool, weight party = 0 := by
  induction pool with
  | nil => simp
  | cons party pool inductionHypothesis =>
      simp only [total_cons, Nat.add_eq_zero_iff, inductionHypothesis,
        List.forall_mem_cons]

/-- A weight is bounded by another one when it is party by party. -/
theorem total_le_total
    {light heavy : Party → Nat}
    {pool : List Party}
    (lighter : ∀ party ∈ pool, light party ≤ heavy party) :
    total light pool ≤ total heavy pool := by
  induction pool with
  | nil => simp
  | cons party pool inductionHypothesis =>
      rw [List.forall_mem_cons] at lighter
      have bound := inductionHypothesis lighter.2
      have head := lighter.1
      simp only [total_cons]
      omega

/-- Weights that agree on every party of the pool have the same total. -/
theorem total_congr
    {left right : Party → Nat}
    {pool : List Party}
    (equal : ∀ party ∈ pool, left party = right party) :
    total left pool = total right pool :=
  Nat.le_antisymm
    (total_le_total fun party member => Nat.le_of_eq (equal party member))
    (total_le_total fun party member =>
      Nat.le_of_eq (equal party member).symm)

/-- Equal totals of a light and a heavy weight leave no party with a
difference. -/
theorem eq_of_total_eq
    {light heavy : Party → Nat}
    {pool : List Party}
    (lighter : ∀ party ∈ pool, light party ≤ heavy party)
    (same : total light pool = total heavy pool) :
    ∀ party ∈ pool, light party = heavy party := by
  induction pool with
  | nil => simp
  | cons party pool inductionHypothesis =>
      rw [List.forall_mem_cons] at lighter
      have bound := total_le_total lighter.2
      have head := lighter.1
      simp only [total_cons] at same
      rw [List.forall_mem_cons]
      exact ⟨by omega, inductionHypothesis lighter.2 (by omega)⟩

/-- A property of one party and of all others is one of the pool. -/
theorem forall_mem_of_others
    {property : Party → Prop}
    {pool : List Party}
    {index : Nat}
    {party : Party}
    (present : pool[index]? = some party)
    (others : ∀ other party', pool[other]? = some party' → other ≠ index →
      property party')
    (own : property party) :
    ∀ party' ∈ pool, property party' := by
  intro party' member
  obtain ⟨other, found⟩ := List.getElem?_of_mem member
  by_cases same : other = index
  · rw [same, present, Option.some.injEq] at found
    exact found ▸ own
  · exact others other party' found same

/-- A pool whose parties weigh at most a bound each. -/
theorem total_le_mul_length
    (weight : Party → Nat)
    (bound : Nat)
    (light : ∀ party, weight party ≤ bound)
    (pool : List Party) :
    total weight pool ≤ bound * pool.length := by
  induction pool with
  | nil => simp
  | cons party pool inductionHypothesis =>
      have head := light party
      rw [total_cons, List.length_cons, Nat.mul_succ]
      omega

/-- A weight of one for the parties with a property counts them. -/
theorem total_eq_countP
    (property : Party → Bool)
    (pool : List Party) :
    total (fun party => if property party then 1 else 0) pool =
      pool.countP property := by
  induction pool with
  | nil => rfl
  | cons party pool inductionHypothesis =>
      rw [total_cons, List.countP_cons, inductionHypothesis, Nat.add_comm]

end Pool
end OSaSP
