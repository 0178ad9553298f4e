import Mathlib.Data.List.Pairwise
import Mathlib.Logic.Relation

/-!
# Depth-first descents

A descent visits every pending node and, right behind it, everything below it.
Nothing keeps it from visiting a node again or from going on for ever: there is
a finished descent exactly when no chain of children goes on for ever.
-/

namespace OSaSP
namespace Descent

open Relation

universe u

section Definitions

variable {Node : Type u} (children : Node → List Node)

/-- The second node is a child of the first one. -/
def Child (node child : Node) : Prop :=
  child ∈ children node

/-- The second node is the first one or is below it. -/
abbrev Leads : Node → Node → Prop :=
  ReflTransGen (Child children)

/-- No chain of children goes on for ever behind the node. -/
abbrev Ends : Node → Prop :=
  Acc fun child node => Child children node child

/-- The descent from the pending nodes ends and has visited the listed ones, in
this order. -/
inductive Visits : List Node → List Node → Prop
  | nothing : Visits [] []
  | node
      {node : Node}
      {pending below after : List Node}
      (inside : Visits (children node) below)
      (rest : Visits pending after) :
      Visits (node :: pending) (node :: (below ++ after))

end Definitions

section Descents

variable {Node : Type u} {children : Node → List Node} {node other : Node}
  {pending visited : List Node}

/-! ## What is visited -/

/-- A descent visits one list of nodes only. -/
theorem Visits.unique
    {again : List Node}
    (visits : Visits children pending visited)
    (visitsAgain : Visits children pending again) :
    visited = again := by
  induction visits generalizing again with
  | nothing =>
      cases visitsAgain
      rfl
  | node _ _ insideHypothesis restHypothesis =>
      cases visitsAgain with
      | node inside rest =>
          rw [insideHypothesis inside, restHypothesis rest]

/-- A node is visited exactly when a pending one leads to it. -/
theorem Visits.mem_iff
    (visits : Visits children pending visited) :
    node ∈ visited ↔ ∃ start ∈ pending, Leads children start node := by
  induction visits with
  | nothing => simp
  | @node first pending below after _ _ insideHypothesis restHypothesis =>
      rw [List.mem_cons, List.mem_append, insideHypothesis, restHypothesis]
      constructor
      · rintro (rfl | ⟨child, member, leads⟩ | ⟨start, member, leads⟩)
        · exact ⟨node, .head _, .refl⟩
        · exact ⟨first, .head _, .head member leads⟩
        · exact ⟨start, .tail _ member, leads⟩
      · rintro ⟨start, member, leads⟩
        rcases List.mem_cons.mp member with rfl | member
        · rcases leads.cases_head with rfl | ⟨child, isChild, leads⟩
          · exact .inl rfl
          · exact .inr (.inl ⟨child, isChild, leads⟩)
        · exact .inr (.inr ⟨start, member, leads⟩)

/-- The pending nodes are visited in their order. -/
theorem Visits.pending_sublist
    (visits : Visits children pending visited) :
    pending.Sublist visited := by
  induction visits with
  | nothing => exact .slnil
  | node _ _ _ restHypothesis =>
      exact (restHypothesis.trans (List.sublist_append_right _ _)).cons_cons _

/-- The children of a visited node are visited in their order. -/
theorem Visits.children_sublist
    (visits : Visits children pending visited)
    (member : node ∈ visited) :
    (children node).Sublist visited := by
  induction visits with
  | nothing => cases member
  | @node first pending below after inside _ insideHypothesis
      restHypothesis =>
      apply List.Sublist.cons
      rcases List.mem_cons.mp member with rfl | member
      · exact inside.pending_sublist.trans (List.sublist_append_left _ _)
      · rcases List.mem_append.mp member with member | member
        · exact (insideHypothesis member).trans (List.sublist_append_left _ _)
        · exact (restHypothesis member).trans (List.sublist_append_right _ _)

/-! ## When a descent ends -/

/-- No chain of children that begins at a visited node goes on for ever. -/
theorem Visits.ends
    (visits : Visits children pending visited) :
    ∀ node ∈ visited, Ends children node := by
  induction visits with
  | nothing => exact fun _ member => absurd member List.not_mem_nil
  | @node first pending below after inside _ insideHypothesis
      restHypothesis =>
      intro node member
      rcases List.mem_cons.mp member with rfl | member
      · exact .intro _ fun child isChild =>
          insideHypothesis child (inside.pending_sublist.subset isChild)
      · rcases List.mem_append.mp member with member | member
        · exact insideHypothesis node member
        · exact restHypothesis node member

/-- No visited node is its own child. -/
theorem Visits.not_child_self
    (visits : Visits children pending visited)
    (member : node ∈ visited) :
    ¬Child children node node := by
  induction visits.ends node member with
  | intro node _ inductionHypothesis =>
      exact fun own => inductionHypothesis node own member own

/-- Descents from single nodes make one descent. -/
theorem exists_visits_of_each
    (each : ∀ start ∈ pending, ∃ visited,
      Visits children [start] visited) :
    ∃ visited, Visits children pending visited := by
  induction pending with
  | nil => exact ⟨[], .nothing⟩
  | cons start pending inductionHypothesis =>
      obtain ⟨_, first⟩ := each start (.head _)
      obtain ⟨after, rest⟩ := inductionHypothesis
        fun other member => each other (.tail _ member)
      cases first with
      | node inside _ => exact ⟨_, .node inside rest⟩

/-- Where no chain of children goes on for ever, the descent ends. -/
theorem exists_visits
    (ends : Ends children node) :
    ∃ visited, Visits children [node] visited := by
  induction ends with
  | intro node _ inductionHypothesis =>
      obtain ⟨below, inside⟩ := exists_visits_of_each inductionHypothesis
      exact ⟨_, .node inside .nothing⟩

/-! ## The order of the visits -/

/-- All that the first node leads to is related to all that the second one
leads to. -/
def Apart
    (children : Node → List Node)
    (related : Node → Node → Prop)
    (first second : Node) : Prop :=
  ∀ left right, Leads children first left → Leads children second right →
    related left right

/-- Earlier visits are related to later ones when nodes are to what is below
them, and what is below a child to what is below a later one. -/
theorem Visits.pairwise
    {related : Node → Node → Prop}
    (visits : Visits children pending visited)
    (above : ∀ node ∈ visited, ∀ child ∈ children node, ∀ other,
      Leads children child other → related node other)
    (apart : ∀ node ∈ visited,
      (children node).Pairwise (Apart children related))
    (pendingApart : pending.Pairwise (Apart children related)) :
    visited.Pairwise related := by
  induction visits with
  | nothing => exact .nil
  | @node first pending below after inside rest insideHypothesis
      restHypothesis =>
      obtain ⟨firstApart, pendingApart⟩ := List.pairwise_cons.mp pendingApart
      have belowMember : ∀ node ∈ below, node ∈ first :: (below ++ after) :=
        fun _ member => .tail _ (List.mem_append_left _ member)
      have afterMember : ∀ node ∈ after, node ∈ first :: (below ++ after) :=
        fun _ member => .tail _ (List.mem_append_right _ member)
      have fromFirst : ∀ node ∈ below, ∃ child ∈ children first,
          Leads children child node :=
        fun _ member => inside.mem_iff.mp member
      refine List.pairwise_cons.mpr ⟨?_, List.pairwise_append.mpr ⟨?_, ?_, ?_⟩⟩
      · intro other member
        rcases List.mem_append.mp member with member | member
        · obtain ⟨child, isChild, leads⟩ := fromFirst other member
          exact above first (.head _) child isChild other leads
        · obtain ⟨start, isPending, leads⟩ := rest.mem_iff.mp member
          exact firstApart start isPending first other .refl leads
      · exact insideHypothesis
          (fun node member => above node (belowMember node member))
          (fun node member => apart node (belowMember node member))
          (apart first (.head _))
      · exact restHypothesis
          (fun node member => above node (afterMember node member))
          (fun node member => apart node (afterMember node member))
          pendingApart
      · intro left leftMember right rightMember
        obtain ⟨child, isChild, leadsLeft⟩ := fromFirst left leftMember
        obtain ⟨start, isPending, leadsRight⟩ := rest.mem_iff.mp rightMember
        exact firstApart start isPending left right (.head isChild leadsLeft)
          leadsRight

end Descents

end Descent
end OSaSP
