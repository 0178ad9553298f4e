import OSaSP.Foundations.PosixTree

/-!
# Canonical paths

A location has one path from the top without dots, empty components and links
on the way.  Resolution that follows links ends at a location whose canonical
path leads back to it, and at no link; where it succeeds, so does resolution
that does not follow the last link.
-/

namespace OSaSP
namespace PosixTree

open CString RenderedPath

/-- The canonical path of a location. -/
def pathText (location : Location) : List UInt8 :=
  if location = [] then [slash] else render slash location.reverse

namespace Tree

variable (tree : Tree)

/-- The top is a directory, and from it the location can be reached: every
directory above it can be searched. -/
def Passable : Location → Prop
  | [] => tree.IsDirectory []
  | name :: parent =>
      tree.searchable parent = true ∧ tree.node (name :: parent) ≠ none ∧
        Passable parent

/-- The location is not one of a symbolic link. -/
def NotLink (location : Location) : Prop :=
  ∀ target, tree.node location ≠ some (.link target)

/-- The object that a path names from a directory, however long the path is.  A
link at its end is not followed. -/
def objectFrom
    (here : Location)
    (path : List UInt8) : Option (Location × Node) :=
  if path = [] then none
  else
    (tree.resolveFrom symloopMax false (origin here path)
      (path.splitOn slash)).bind fun location =>
        (tree.node location).map fun node => (location, node)

/-- The object that a path names from the current directory. -/
def object (path : List UInt8) : Option (Location × Node) :=
  tree.objectFrom tree.cwd path

end Tree

section Passable

variable {tree : Tree} {here parent location : Location}
  {name : List UInt8} {components : List (List UInt8)}

/-- What has an entry is a directory. -/
theorem isDirectory_of_child (present : tree.node (name :: parent) ≠ none) :
    ∃ listing, tree.node parent = some (.directory listing) ∧
      name ∈ listing ∧ ¬IsDots name :=
  (tree.child name parent).mp present

theorem notLink_of_isDirectory (isDirectory : tree.IsDirectory location) :
    tree.NotLink location := by
  intro target isLink
  unfold Tree.IsDirectory at isDirectory
  rw [isLink] at isDirectory
  cases isDirectory

theorem Tree.Passable.top (passable : tree.Passable location) :
    tree.Passable [] := by
  induction location with
  | nil => exact passable
  | cons name parent inductionHypothesis =>
      exact inductionHypothesis passable.2.2

theorem Tree.Passable.present (passable : tree.Passable location) :
    tree.node location ≠ none := by
  cases location with
  | nil =>
      intro absent
      change (tree.node []).any Node.isDir = true at passable
      rw [absent] at passable
      cases passable
  | cons name parent => exact passable.2.1

/-- The components of a path lead from one such location to another. -/
theorem Tree.Passable.lookup
    (passable : tree.Passable here)
    (found : tree.lookup here name = some location) :
    tree.Passable location := by
  rcases lookup_cases found with rfl | rfl | ⟨rfl, nonempty, _, present⟩
  · exact passable
  · cases here with
    | nil => exact passable
    | cons last above => exact passable.2.2
  · refine ⟨?_, present, passable⟩
    by_contra unsearchable
    rw [lookup_unsearchable (by simpa using unsearchable) nonempty] at found
    cases found

theorem walk_passable
    {expand : Location → List UInt8 → List (List UInt8) → Option Location}
    {follow : Bool}
    (expands : ∀ here target rest, tree.Passable here →
      expand here target rest = some location → tree.Passable location)
    (passable : tree.Passable here)
    (found : tree.walk expand follow here components = some location) :
    tree.Passable location := by
  induction components generalizing here with
  | nil =>
      cases found
      exact passable
  | cons component rest inductionHypothesis =>
      rw [Tree.walk] at found
      split at found
      · cases found
      · rename_i next looked
        have nextPassable := passable.lookup looked
        split at found
        · split at found
          · cases found
            exact nextPassable
          · exact expands _ _ _ passable found
        · exact inductionHypothesis nextPassable found

theorem resolveFrom_passable
    {links : Nat}
    {follow : Bool}
    (passable : tree.Passable here)
    (found : tree.resolveFrom links follow here components = some location) :
    tree.Passable location := by
  induction links generalizing here components with
  | zero =>
      refine walk_passable ?_ passable found
      intro here target rest _ impossible
      cases impossible
  | succ links inductionHypothesis =>
      refine walk_passable ?_ passable found
      intro here target rest passable found
      split at found
      · cases found
      · refine inductionHypothesis ?_ found
        unfold origin
        split
        · exact passable.top
        · exact passable

end Passable

section Following

variable {tree : Tree} {here location : Location}
  {components : List (List UInt8)}

theorem walk_notLink
    {expand : Location → List UInt8 → List (List UInt8) → Option Location}
    (expands : ∀ here target rest,
      expand here target rest = some location → tree.NotLink location)
    (start : components = [] → tree.NotLink here)
    (found : tree.walk expand true here components = some location) :
    tree.NotLink location := by
  induction components generalizing here with
  | nil =>
      cases found
      exact start rfl
  | cons component rest inductionHypothesis =>
      rw [Tree.walk] at found
      split at found
      · cases found
      · rename_i next _
        split at found
        · rw [if_neg (by simp)] at found
          exact expands _ _ _ found
        · rename_i notLink
          exact inductionHypothesis (fun _ => notLink) found

/-- Resolution that follows links does not end at one. -/
theorem resolveFrom_notLink
    {links : Nat}
    (nonempty : components ≠ [])
    (found : tree.resolveFrom links true here components = some location) :
    tree.NotLink location := by
  induction links generalizing here components with
  | zero =>
      refine walk_notLink ?_ (fun empty => absurd empty nonempty) found
      intro here target rest impossible
      cases impossible
  | succ links inductionHypothesis =>
      refine walk_notLink ?_ (fun empty => absurd empty nonempty) found
      intro here target rest found
      split at found
      · cases found
      · refine inductionHypothesis ?_ found
        intro empty
        exact List.splitOn_ne_nil slash target
          (List.append_eq_nil_iff.mp empty).1

theorem walk_isSome
    {expandLast expand :
      Location → List UInt8 → List (List UInt8) → Option Location}
    (expands : ∀ here target rest,
      (expand here target rest).isSome → (expandLast here target rest).isSome)
    (found : (tree.walk expand true here components).isSome) :
    (tree.walk expandLast false here components).isSome := by
  induction components generalizing here with
  | nil => rfl
  | cons component rest inductionHypothesis =>
      rw [Tree.walk] at found ⊢
      split at found
      · cases found
      · rename_i next looked
        split at found
        · rw [if_neg (by simp)] at found
          split
          · rfl
          · exact expands _ _ _ found
        · exact inductionHypothesis found

/-- A path that leads somewhere names something. -/
theorem resolveFrom_isSome
    {links : Nat}
    (found : (tree.resolveFrom links true here components).isSome) :
    (tree.resolveFrom links false here components).isSome := by
  induction links generalizing here components with
  | zero => exact walk_isSome (fun _ _ _ => id) found
  | succ links inductionHypothesis =>
      refine walk_isSome ?_ found
      intro here target rest found
      split at found
      · cases found
      · rename_i nonempty
        rw [if_neg nonempty]
        exact inductionHypothesis found

theorem walk_mono
    {expand wider : Location → List UInt8 → List (List UInt8) →
      Option Location}
    {follow : Bool}
    (expands : ∀ here target rest,
      expand here target rest = some location →
        wider here target rest = some location)
    (found : tree.walk expand follow here components = some location) :
    tree.walk wider follow here components = some location := by
  induction components generalizing here with
  | nil => exact found
  | cons component rest inductionHypothesis =>
      rw [Tree.walk] at found ⊢
      split at found
      · cases found
      · split at found
        · split at found
          · rename_i last
            rw [if_pos last]
            exact found
          · rename_i notLast
            rw [if_neg notLast]
            exact expands _ _ _ found
        · exact inductionHypothesis found

/-- More links may be followed. -/
theorem resolveFrom_succ
    {links : Nat}
    {follow : Bool}
    (found : tree.resolveFrom links follow here components = some location) :
    tree.resolveFrom (links + 1) follow here components = some location := by
  induction links generalizing here components with
  | zero =>
      refine walk_mono ?_ found
      intro here target rest impossible
      cases impossible
  | succ links inductionHypothesis =>
      refine walk_mono ?_ found
      intro here target rest found
      split at found
      · cases found
      · rename_i nonempty
        rw [if_neg nonempty]
        exact inductionHypothesis found

/-- A walk through two parts goes on from where the first one leads, unless both
come to the same link before. -/
theorem walk_append
    {expandFirst expand : Location → List UInt8 → List (List UInt8) →
      Option Location}
    {follow : Bool}
    {middle : Location}
    {rest : List (List UInt8)}
    (nonempty : rest ≠ [])
    (first : tree.walk expandFirst true here components = some middle)
    (whole : tree.walk expand follow here (components ++ rest) =
      some location) :
    tree.walk expand follow middle rest = some location ∨
      ∃ parent target between,
        expandFirst parent target between = some middle ∧
          expand parent target (between ++ rest) = some location := by
  induction components generalizing here with
  | nil =>
      cases first
      exact .inl whole
  | cons component between inductionHypothesis =>
      rw [List.cons_append, Tree.walk] at whole
      rw [Tree.walk] at first
      split at first
      · cases first
      · rename_i next looked
        rw [looked] at whole
        dsimp only at whole
        split at first
        · rename_i target isLink
          rw [isLink] at whole
          dsimp only at whole
          rw [if_neg (by simp)] at first
          rw [if_neg (by simp [nonempty])] at whole
          exact .inr ⟨_, _, _, first, whole⟩
        · rename_i notLink
          have goesOn : tree.walk expand follow next (between ++ rest) =
              some location := by
            split at whole
            · exact absurd ‹_› (notLink _)
            · exact whole
          exact inductionHypothesis first goesOn

/-- The rest of a path leads on from where its beginning leads. -/
theorem resolveFrom_append
    {links : Nat}
    {follow : Bool}
    {middle : Location}
    {rest : List (List UInt8)}
    (nonempty : rest ≠ [])
    (first : tree.resolveFrom links true here components = some middle)
    (whole : tree.resolveFrom links follow here (components ++ rest) =
      some location) :
    tree.resolveFrom links follow middle rest = some location := by
  induction links generalizing here components with
  | zero =>
      rcases walk_append nonempty first whole with
        goesOn | ⟨_, _, _, impossible, -⟩
      · exact goesOn
      · cases impossible
  | succ links inductionHypothesis =>
      rcases walk_append nonempty first whole with
        goesOn | ⟨parent, target, between, firstLink, wholeLink⟩
      · exact goesOn
      · split at firstLink
        · cases firstLink
        · rename_i named
          rw [if_neg named, ← List.append_assoc] at wholeLink
          exact resolveFrom_succ (inductionHypothesis firstLink wholeLink)

end Following

/-! ## Canonical paths lead back -/

section Canonical

variable {tree : Tree} {location : Location}

/-- Empty components stay in a directory. -/
theorem resolveFrom_empty
    (isDirectory : tree.IsDirectory location)
    (links : Nat)
    (follow : Bool)
    (count : Nat) :
    tree.resolveFrom links follow location (List.replicate count []) =
      some location := by
  have stays : tree.lookup location [] = some location := by
    rw [Tree.lookup, if_neg (not_not.mpr isDirectory), if_pos rfl]
  have walks : ∀ expand,
      tree.walk expand follow location (List.replicate count []) =
        some location := by
    intro expand
    induction count with
    | zero => rfl
    | succ count inductionHypothesis =>
        rw [List.replicate_succ, Tree.walk, stays]
        dsimp only
        split
        · exact absurd ‹_› (notLink_of_isDirectory isDirectory _)
        · exact inductionHypothesis
  cases links <;> exact walks _

/-- The names on the way to a location lead to it. -/
theorem resolveFrom_canonical
    (passable : tree.Passable location)
    (notLink : tree.NotLink location)
    (links : Nat)
    (follow : Bool) :
    tree.resolveFrom links follow [] ([] :: location.reverse) =
      some location := by
  have unfollowed : tree.resolveFrom links false []
      ([] :: location.reverse) = some location := by
    induction location with
    | nil => exact resolveFrom_empty passable links false 1
    | cons name parent inductionHypothesis =>
        obtain ⟨searchable, present, above⟩ := passable
        obtain ⟨listing, isDirectory, member, noDots⟩ :=
          isDirectory_of_child present
        have parentNotLink :=
          notLink_of_isDirectory (isDirectory_of_node isDirectory)
        have reached := resolveFrom_follow parentNotLink
          (inductionHypothesis above parentNotLink)
        rw [List.reverse_cons, ← List.cons_append, resolveFrom_snoc, reached]
        exact lookup_entry isDirectory searchable member noDots
  cases follow with
  | false => exact unfollowed
  | true => exact resolveFrom_follow notLink unfollowed

/-- The components of a path are the names in it. -/
theorem splitOn_render
    {name : List UInt8}
    {names : List (List UInt8)}
    (first : slash ∉ name)
    (unseparated : ∀ name ∈ names, slash ∉ name) :
    (name ++ render slash names).splitOn slash = name :: names := by
  induction names generalizing name with
  | nil => rw [render_nil, List.append_nil, List.splitOn_eq_singleton first]
  | cons next names inductionHypothesis =>
      rw [List.forall_mem_cons] at unseparated
      rw [render_cons, List.splitOn_append_cons_self_of_not_mem first,
        inductionHypothesis unseparated.1 unseparated.2]

theorem head_pathText : (pathText location).head? = some slash := by
  unfold pathText
  split
  · rfl
  · rename_i below
    obtain ⟨first, rest, cut⟩ :=
      List.exists_cons_of_ne_nil (mt List.reverse_eq_nil_iff.mp below)
    rw [cut]
    rfl

theorem isName_of_passable (passable : tree.Passable location) :
    ∀ name ∈ location, IsName name := by
  have present : tree.node (location ++ []) ≠ none := by
    rw [List.append_nil]
    exact passable.present
  exact isName_of_node present

/-- A canonical path leads to its location. -/
theorem resolve_pathText
    (passable : tree.Passable location)
    (notLink : tree.NotLink location)
    (short : (pathText location).length < pathMax)
    (follow : Bool) :
    tree.resolve follow (pathText location) = some location := by
  have nonempty : pathText location ≠ [] := by
    intro empty
    have head : (pathText location).head? = some slash := head_pathText
    rw [empty] at head
    cases head
  refine resolve_eq_some_iff.mpr ⟨nonempty, short, ?_⟩
  rw [origin, if_pos head_pathText]
  by_cases top : location = []
  · subst top
    exact resolveFrom_empty passable symloopMax follow 2
  · have unseparated : ∀ name ∈ location.reverse, slash ∉ name := by
      intro name member
      have isName := isName_of_passable passable name
        (List.mem_reverse.mp member)
      exact isName.component.unseparated
    have components : (pathText location).splitOn slash =
        [] :: location.reverse := by
      rw [pathText, if_neg top]
      exact splitOn_render List.not_mem_nil unseparated
    rw [components]
    exact resolveFrom_canonical passable notLink symloopMax follow

end Canonical

/-! ## Absolute paths -/

section Absolute

variable {tree : Tree} {location final : Location} {path : List UInt8}
  {node : Node} {follow : Bool}

/-- Resolution from the top begins in a directory. -/
theorem passable_of_resolveFrom
    {links : Nat}
    {components : List (List UInt8)}
    (nonempty : components ≠ [])
    (found : tree.resolveFrom links follow [] components = some location) :
    tree.Passable location := by
  refine resolveFrom_passable ?_ found
  obtain ⟨first, rest, rfl⟩ := List.exists_cons_of_ne_nil nonempty
  change tree.IsDirectory []
  by_contra notDirectory
  have stuck : tree.lookup [] first = none := by
    rw [Tree.lookup, if_pos notDirectory]
  cases links <;> rw [Tree.resolveFrom, Tree.walk, stuck] at found <;>
    cases found

/-- A dot stays. -/
theorem lookup_dot
    {here : Location}
    (found : tree.lookup here (ascii ".") = some location) :
    here = location := by
  unfold Tree.lookup at found
  split at found
  · cases found
  rw [if_neg (by decide : ¬ascii "." = [])] at found
  split at found
  · cases found
  rw [if_pos rfl] at found
  exact Option.some.inj found

theorem passable_of_resolve
    (absolute : path.head? = some slash)
    (found : tree.resolve follow path = some location) :
    tree.Passable location := by
  obtain ⟨-, -, resolved⟩ := resolve_eq_some_iff.mp found
  rw [origin, if_pos absolute] at resolved
  exact passable_of_resolveFrom (List.splitOn_ne_nil slash path) resolved

/-- A path that is followed to its end does not lead to a link. -/
theorem notLink_of_resolve (found : tree.resolve true path = some location) :
    tree.NotLink location := by
  obtain ⟨-, -, resolved⟩ := resolve_eq_some_iff.mp found
  exact resolveFrom_notLink (List.splitOn_ne_nil slash path) resolved

/-- What names nothing leads nowhere. -/
theorem resolve_of_no_object
    (absolute : path.head? = some slash)
    (nothing : tree.object path = none) :
    tree.resolve true path = none := by
  by_contra somewhere
  obtain ⟨final, found⟩ := Option.ne_none_iff_exists'.mp somewhere
  obtain ⟨-, -, resolved⟩ := resolve_eq_some_iff.mp found
  have named := resolveFrom_isSome (Option.isSome_of_eq_some resolved)
  obtain ⟨location, unfollowed⟩ := Option.isSome_iff_exists.mp named
  have nonempty : path ≠ [] := by
    rintro rfl
    cases absolute
  rw [Tree.object, Tree.objectFrom, if_neg nonempty, unfollowed,
    Option.bind_some, Option.map_eq_none_iff] at nothing
  rw [origin, if_pos absolute] at unfollowed
  have passable :=
    passable_of_resolveFrom (List.splitOn_ne_nil slash path) unfollowed
  exact passable.present nothing

/-- What names anything but a link leads to it, if it is not too long. -/
theorem resolve_of_object
    (absolute : path.head? = some slash)
    (named : tree.object path = some (location, node))
    (notLink : node.isLnk = false) :
    tree.resolve true path = some final ↔
      path.length < pathMax ∧ final = location := by
  have nonempty : path ≠ [] := by
    rintro rfl
    cases absolute
  rw [Tree.object, Tree.objectFrom, if_neg nonempty] at named
  obtain ⟨_, unfollowed, isNode⟩ := Option.bind_eq_some_iff.mp named
  obtain ⟨_, present, same⟩ := Option.map_eq_some_iff.mp isNode
  cases same
  have followed := resolveFrom_follow (by
    intro target isLink
    rw [present] at isLink
    cases isLink
    cases notLink) unfollowed
  rw [resolve_eq_some_iff, followed, Option.some.injEq, eq_comm (a := final)]
  simp only [ne_eq, nonempty, not_false_eq_true, true_and]

/-- A path that goes on behind a directory names what the rest of it names
there. -/
theorem objectFrom_of_object
    {front rest : List UInt8}
    {here : Location}
    {found : Location × Node}
    (absolute : front.head? = some slash)
    (relative : rest ≠ [] ∧ rest.head? ≠ some slash)
    (leads : tree.resolve true (front ++ slash :: ascii ".") = some here)
    (named : tree.object (front ++ slash :: rest) = some found) :
    tree.objectFrom here rest = some found := by
  have behind : ∀ rest : List UInt8,
      origin tree.cwd (front ++ slash :: rest) = [] := by
    intro rest
    obtain ⟨inner, rfl⟩ := List.head?_eq_some_iff.mp absolute
    rfl
  have nonempty : front ++ slash :: rest ≠ [] := by simp
  rw [Tree.object, Tree.objectFrom, if_neg nonempty, behind,
    List.splitOn_append_cons_self] at named
  obtain ⟨location, unfollowed, isNode⟩ := Option.bind_eq_some_iff.mp named
  have first : tree.resolveFrom symloopMax true [] (front.splitOn slash) =
      some here := by
    obtain ⟨-, -, followed⟩ := resolve_eq_some_iff.mp leads
    have dot : (ascii ".").splitOn slash = [ascii "."] := by decide
    rw [behind, List.splitOn_append_cons_self, dot] at followed
    obtain ⟨last, reached⟩ := Option.isSome_iff_exists.mp
      (resolveFrom_isSome (Option.isSome_of_eq_some followed))
    have parted := reached
    rw [resolveFrom_snoc] at parted
    obtain ⟨parent, above, stays⟩ := Option.bind_eq_some_iff.mp parted
    obtain rfl : parent = last := lookup_dot stays
    have notLink := resolveFrom_notLink (List.splitOn_ne_nil slash front) above
    rw [resolveFrom_follow notLink reached] at followed
    rw [above, followed]
  have from' : origin here rest = here := if_neg relative.2
  rw [Tree.objectFrom, if_neg relative.1, from',
    resolveFrom_append (List.splitOn_ne_nil slash rest) first unfollowed]
  exact isNode

theorem lstat_pathText
    (passable : tree.Passable location)
    (present : tree.node location = some node)
    (notLink : node.isLnk = false)
    (short : (pathText location).length < pathMax) :
    tree.lstat (pathText location) = some (location, node) := by
  apply lstat_eq_some_iff.mpr
  refine ⟨resolve_pathText passable ?_ short false, present⟩
  intro target isLink
  rw [present] at isLink
  cases isLink
  cases notLink

end Absolute

end PosixTree
end OSaSP
