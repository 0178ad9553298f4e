import Mathlib.Data.List.Basic

/-!
# Jobs done phase by phase

Jobs act on a state one after the other, in the order of their phases, and jobs
of one phase commute.  Then the result depends on which jobs are done, not on
the order in which the jobs of a phase come.
-/

namespace OSaSP
namespace Phased

variable {State : Type u} {Job : Type v}

/-- It does not matter which of two jobs is done first. -/
def Commute
    (act : State → Job → State)
    (first second : Job) : Prop :=
  ∀ state, act (act state first) second = act (act state second) first

/-- A job that commutes with all jobs before it may as well come first. -/
theorem foldl_pull_front
    {act : State → Job → State}
    {front back : List Job}
    {job : Job}
    (commute : ∀ earlier ∈ front, Commute act earlier job)
    (state : State) :
    (front ++ job :: back).foldl act state =
      (front ++ back).foldl act (act state job) := by
  induction front generalizing state with
  | nil => rfl
  | cons earlier front inductionHypothesis =>
      rw [List.forall_mem_cons] at commute
      rw [List.cons_append, List.foldl_cons, inductionHypothesis commute.2,
        commute.1, List.cons_append, List.foldl_cons]

/-- Two orders of the same jobs, both phase by phase, have the same result. -/
theorem foldl_eq_of_perm
    {act : State → Job → State}
    {phase : Job → Nat}
    {left right : List Job}
    (same : left.Perm right)
    (leftOrdered : left.Pairwise fun earlier later =>
      phase earlier ≤ phase later)
    (rightOrdered : right.Pairwise fun earlier later =>
      phase earlier ≤ phase later)
    (commute : ∀ first ∈ left, ∀ second ∈ left,
      phase first = phase second → Commute act first second)
    (state : State) :
    left.foldl act state = right.foldl act state := by
  induction left generalizing right state with
  | nil => rw [List.nil_perm.mp same]
  | cons job left inductionHypothesis =>
      obtain ⟨front, back, rfl⟩ :=
        List.append_of_mem (same.mem_iff.mp List.mem_cons_self)
      have rest : left.Perm (front ++ back) :=
        List.perm_cons job |>.mp (same.trans List.perm_middle)
      rw [List.pairwise_cons] at leftOrdered
      rw [List.pairwise_append, List.pairwise_cons] at rightOrdered
      obtain ⟨frontOrdered, ⟨-, backOrdered⟩, across⟩ := rightOrdered
      -- What comes before the job in the other order is of the same phase.
      have pulled : ∀ earlier ∈ front, Commute act earlier job := by
        intro earlier inFront
        have member : earlier ∈ left :=
          rest.mem_iff.mpr (List.mem_append_left back inFront)
        apply commute earlier (List.mem_cons_of_mem job member) job
          List.mem_cons_self
        exact Nat.le_antisymm (across earlier inFront job List.mem_cons_self)
          (leftOrdered.1 earlier member)
      rw [foldl_pull_front pulled, List.foldl_cons]
      apply inductionHypothesis rest leftOrdered.2
      · refine List.pairwise_append.mpr ⟨frontOrdered, backOrdered, ?_⟩
        exact fun earlier inFront later inBack =>
          across earlier inFront later (List.mem_cons_of_mem job inBack)
      · exact fun first firstMember second secondMember =>
          commute first (List.mem_cons_of_mem job firstMember) second
            (List.mem_cons_of_mem job secondMember)

end Phased
end OSaSP
