import Mathlib.Data.List.Infix

/-!
# Paths written out with separators

A path is a list of components.  Written out, every component stands behind a
separator that no component contains.  The prefix order on the written forms
is not the prefix order on paths: the last component of the shorter path may be
a proper prefix of its counterpart.  This is the only difference.
-/

namespace OSaSP
namespace RenderedPath

universe u

variable {Symbol : Type u} (separator : Symbol)

/-- A component is not empty and has no separator in it. -/
structure IsComponent (name : List Symbol) : Prop where
  nonempty : name ≠ []
  unseparated : separator ∉ name

instance [DecidableEq Symbol] (name : List Symbol) :
    Decidable (IsComponent separator name) :=
  decidable_of_iff (name ≠ [] ∧ separator ∉ name)
    ⟨fun both => ⟨both.1, both.2⟩, fun is => ⟨is.1, is.2⟩⟩

/-- Every component behind a separator. -/
def render (path : List (List Symbol)) : List Symbol :=
  path.flatMap fun name => separator :: name

@[simp] theorem render_nil : render separator [] = [] := rfl

@[simp] theorem render_cons (name : List Symbol) (path : List (List Symbol)) :
    render separator (name :: path) =
      separator :: (name ++ render separator path) := rfl

theorem render_append (front back : List (List Symbol)) :
    render separator (front ++ back) =
      render separator front ++ render separator back :=
  List.flatMap_append

/-- A path written out without its first separator. -/
def joined (path : List (List Symbol)) : List Symbol :=
  (render separator path).tail

@[simp] theorem joined_nil : joined separator [] = [] := rfl

@[simp] theorem joined_singleton (name : List Symbol) :
    joined separator [name] = name := by
  simp [joined]

theorem render_eq_cons_joined
    {path : List (List Symbol)}
    (nonempty : path ≠ []) :
    render separator path = separator :: joined separator path := by
  obtain ⟨name, rest, rfl⟩ := List.exists_cons_of_ne_nil nonempty
  rfl

/-- A further component stands behind a separator. -/
theorem joined_append_singleton
    {front : List (List Symbol)}
    (nonempty : front ≠ [])
    (name : List Symbol) :
    joined separator (front ++ [name]) =
      joined separator front ++ separator :: name := by
  rw [joined, render_append, render_eq_cons_joined separator nonempty]
  simp

/-- The other path goes through a sibling of the first path's last component
whose name begins with that component and is longer. -/
def PassesLongerSibling (path other : List (List Symbol)) : Prop :=
  ∃ parent name longer below,
    path = parent ++ [name] ∧ other = parent ++ longer :: below ∧
      name <+: longer ∧ name ≠ longer

/-- A longer sibling is met at the first component or below it. -/
theorem passesLongerSibling_cons
    (first second : List Symbol)
    (path other : List (List Symbol)) :
    PassesLongerSibling (first :: path) (second :: other) ↔
      first = second ∧ PassesLongerSibling path other ∨
        path = [] ∧ first <+: second ∧ first ≠ second := by
  constructor
  · rintro ⟨parent, name, longer, below, pathEq, otherEq, before, different⟩
    cases parent with
    | nil =>
        obtain ⟨rfl, rfl⟩ := List.cons.inj pathEq
        obtain ⟨rfl, rfl⟩ := List.cons.inj otherEq
        exact .inr ⟨rfl, before, different⟩
    | cons shared parent =>
        obtain ⟨rfl, rfl⟩ := List.cons.inj pathEq
        obtain ⟨rfl, rfl⟩ := List.cons.inj otherEq
        exact .inl ⟨rfl, parent, name, longer, below, rfl, rfl, before,
          different⟩
  · rintro (⟨rfl, parent, name, longer, below, rfl, rfl, both⟩ |
      ⟨rfl, both⟩)
    · exact ⟨first :: parent, name, longer, below, rfl, rfl, both⟩
    · exact ⟨[], first, second, other, rfl, rfl, both⟩

/-- A path that passes a longer sibling is not below. -/
theorem PassesLongerSibling.not_prefix
    {path other : List (List Symbol)}
    (passes : PassesLongerSibling path other) :
    ¬path <+: other := by
  obtain ⟨parent, name, longer, below, rfl, rfl, -, different⟩ := passes
  rw [List.prefix_append_right_inj, List.cons_prefix_cons]
  exact fun both => different both.1

variable {separator}

theorem joined_eq_nil_iff
    {path : List (List Symbol)}
    (components : ∀ name ∈ path, IsComponent separator name) :
    joined separator path = [] ↔ path = [] := by
  cases path with
  | nil => simp
  | cons name path =>
      have nonempty := (components name (.head _)).nonempty
      simp [joined, nonempty]

/-- Without its first separator a written path begins with a component. -/
theorem head_joined_ne
    {path : List (List Symbol)}
    (components : ∀ name ∈ path, IsComponent separator name) :
    (joined separator path).head? ≠ some separator := by
  cases path with
  | nil => simp
  | cons name path =>
      obtain ⟨nonempty, unseparated⟩ := components name (.head _)
      obtain ⟨first, rest, rfl⟩ := List.exists_cons_of_ne_nil nonempty
      rw [List.mem_cons, not_or] at unseparated
      simpa [joined] using Ne.symm unseparated.1

/-- What follows a component in a written path: nothing, or a separator. -/
theorem head_of_render
    {path : List (List Symbol)}
    {first : Symbol}
    {rest : List Symbol}
    (written : render separator path = first :: rest) :
    first = separator := by
  cases path with
  | nil => cases written
  | cons name path =>
      rw [render_cons] at written
      exact (List.cons.inj written).1.symm

/-- Two components followed by written paths: either they agree, or nothing
follows the first, which is a proper prefix of the second. -/
theorem component_prefix_iff
    {first second : List Symbol}
    (isFirst : IsComponent separator first)
    (isSecond : IsComponent separator second)
    (path other : List (List Symbol)) :
    first ++ render separator path <+: second ++ render separator other ↔
      first = second ∧ render separator path <+: render separator other ∨
        path = [] ∧ first <+: second ∧ first ≠ second := by
  constructor
  · intro before
    have firstBefore := (List.prefix_append first _).trans before
    have secondBefore := List.prefix_append second (render separator other)
    rcases List.prefix_or_prefix_of_prefix firstBefore secondBefore with
      ⟨rest, rfl⟩ | ⟨rest, rfl⟩
    · rw [List.append_assoc, List.prefix_append_right_inj] at before
      cases rest with
      | nil =>
          rw [List.nil_append] at before
          exact .inl ⟨(List.append_nil first).symm, before⟩
      | cons symbol rest =>
          right
          refine ⟨?_, List.prefix_append _ _, by simp⟩
          cases path with
          | nil => rfl
          | cons name path =>
              rw [render_cons, List.cons_append, List.cons_prefix_cons]
                at before
              exact absurd (before.1 ▸ by simp) isSecond.unseparated
    · rw [List.append_assoc, List.prefix_append_right_inj] at before
      cases rest with
      | nil =>
          rw [List.nil_append] at before
          exact .inl ⟨List.append_nil second, before⟩
      | cons symbol rest =>
          obtain ⟨tail, written⟩ := before
          have isSeparator := head_of_render written.symm
          exact absurd (isSeparator ▸ by simp) isFirst.unseparated
  · rintro (⟨rfl, before⟩ | ⟨rfl, before, -⟩)
    · rwa [List.prefix_append_right_inj]
    · rw [render_nil, List.append_nil]
      exact before.trans (List.prefix_append _ _)

/-- The written form of one path begins with that of another exactly when the
path does, or when it passes a longer sibling. -/
theorem render_prefix_iff
    {path other : List (List Symbol)}
    (components : ∀ name ∈ path, IsComponent separator name)
    (otherComponents : ∀ name ∈ other, IsComponent separator name) :
    render separator path <+: render separator other ↔
      path <+: other ∨ PassesLongerSibling path other := by
  induction path generalizing other with
  | nil => simp
  | cons first path inductionHypothesis =>
      cases other with
      | nil => simp [PassesLongerSibling]
      | cons second other =>
          have ofRest := inductionHypothesis
            (fun name member => components name (.tail _ member))
            (fun name member => otherComponents name (.tail _ member))
          rw [render_cons, render_cons, List.cons_prefix_cons,
            component_prefix_iff (components first (.head _))
              (otherComponents second (.head _)), ofRest,
            List.cons_prefix_cons, passesLongerSibling_cons]
          simp only [true_and, and_or_left, or_assoc]

/-- The written form of one path is that of another or goes on behind it with a
separator exactly when the path begins with the other. -/
theorem render_descends_iff
    {path other : List (List Symbol)}
    (components : ∀ name ∈ path, IsComponent separator name)
    (otherComponents : ∀ name ∈ other, IsComponent separator name) :
    render separator other = render separator path ∨
        render separator path ++ [separator] <+: render separator other ↔
      path <+: other := by
  constructor
  · intro descends
    have before : render separator path <+: render separator other := by
      rcases descends with equal | below
      · rw [equal]
      · exact (List.prefix_append _ _).trans below
    rcases (render_prefix_iff components otherComponents).mp before with
      inside | ⟨parent, name, longer, below, rfl, rfl, ⟨rest, rfl⟩, different⟩
    · exact inside
    cases rest with
    | nil => exact absurd (List.append_nil name).symm different
    | cons symbol rest =>
        have isLonger := otherComponents (name ++ symbol :: rest) (by simp)
        simp only [render_append, render_cons, render_nil, List.append_nil,
          List.append_assoc, List.cons_append, List.append_cancel_left_eq,
          List.prefix_append_right_inj, List.cons.injEq, true_and,
          List.cons_prefix_cons, List.nil_prefix, and_true] at descends
        rcases descends with longer | isSeparator
        · exact absurd (congrArg List.length longer) (by simp)
        · exact absurd (isSeparator ▸ by simp) isLonger.unseparated
  · rintro ⟨below, rfl⟩
    rw [render_append]
    cases below with
    | nil => exact .inl (List.append_nil _)
    | cons name below =>
        right
        rw [render_cons, List.prefix_append_right_inj]
        exact List.prefix_append [separator] _

end RenderedPath
end OSaSP
