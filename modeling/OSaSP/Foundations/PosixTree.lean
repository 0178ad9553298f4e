import OSaSP.Foundations.CString
import OSaSP.Foundations.RenderedPath

/-!
# Directory trees and path resolution

A tree that does not change, and what path strings lead to in it.  A path is
resolved component by component: an empty component and `.` stay, `..` goes up,
a symbolic link is replaced by its target unless it is the last component and
links are not followed there.  The point of the module is what a longer path
leads to: a path, a slash and a name lead to what the name stands for in the
directory that the path leads to.
-/

namespace OSaSP
namespace PosixTree

open CString RenderedPath

/-- The byte `'/'`. -/
def slash : UInt8 := 47

/-- `PATH_MAX`: a path string with its terminator has at most so many bytes. -/
def pathMax : Nat := 4096

/-- `NAME_MAX`. -/
def nameMax : Nat := 255

/-- So many symbolic links are followed on the way. -/
def symloopMax : Nat := 40

/-- `.` or `..`. -/
def IsDots (name : List UInt8) : Prop :=
  name = ascii "." ∨ name = ascii ".."

instance (name : List UInt8) : Decidable (IsDots name) :=
  inferInstanceAs (Decidable (_ ∨ _))

/-- What a directory entry can be called. -/
structure IsName (name : List UInt8) : Prop where
  component : IsComponent slash name
  unterminated : 0 ∉ name
  short : name.length ≤ nameMax
  noDots : ¬IsDots name

instance (name : List UInt8) : Decidable (IsName name) :=
  decidable_of_iff
    (IsComponent slash name ∧ 0 ∉ name ∧ name.length ≤ nameMax ∧
      ¬IsDots name)
    ⟨fun is => ⟨is.1, is.2.1, is.2.2.1, is.2.2.2⟩,
      fun is => ⟨is.1, is.2, is.3, is.4⟩⟩

/-- A place in the tree: the names on the way up to the root. -/
abbrev Location := List (List UInt8)

/-- An object, with its type for `lstat`.  A directory has the entries that
`readdir` returns, in this order. -/
inductive Node
  | directory (listing : List (List UInt8))
  | link (target : List UInt8)
  | regular
  | other
  deriving DecidableEq, Repr

namespace Node

/-- `S_ISDIR`. -/
def isDir : Node → Bool
  | .directory _ => true
  | _ => false

/-- `S_ISLNK`. -/
def isLnk : Node → Bool
  | .link _ => true
  | _ => false

/-- `S_ISREG`. -/
def isReg : Node → Bool
  | .regular => true
  | _ => false

end Node

/-- A finite tree.  A directory can be readable for `opendir`, and searchable
on the way to what is in it. -/
structure Tree where
  node : Location → Option Node
  readable : Location → Bool
  searchable : Location → Bool
  cwd : Location
  depth : Nat
  bounded : ∀ location, node location ≠ none → location.length ≤ depth
  child : ∀ name parent,
    node (name :: parent) ≠ none ↔
      ∃ listing, node parent = some (.directory listing) ∧
        name ∈ listing ∧ ¬IsDots name
  names : ∀ location listing, node location = some (.directory listing) →
    ∀ name ∈ listing, IsDots name ∨ IsName name
  once : ∀ location listing, node location = some (.directory listing) →
    (listing.filter fun name => ¬IsDots name).Nodup

/-- Where the resolution of a path string begins. -/
def origin (here : Location) (path : List UInt8) : Location :=
  if path.head? = some slash then [] else here

namespace Tree

variable (tree : Tree)

/-- The location is one of a directory. -/
def IsDirectory (location : Location) : Prop :=
  (tree.node location).any Node.isDir

instance (location : Location) : Decidable (tree.IsDirectory location) :=
  inferInstanceAs (Decidable (_ = true))

/-- One component of a path, without following a link. -/
def lookup (here : Location) (component : List UInt8) : Option Location :=
  if ¬tree.IsDirectory here then none
  else if component = [] then some here
  else if tree.searchable here = false then none
  else if component = ascii "." then some here
  else if component = ascii ".." then some here.tail
  else if tree.node (component :: here) = none then none
  else some (component :: here)

/-- The components of a path one after the other; `expand` goes on behind a
link. -/
def walk
    (expand : Location → List UInt8 → List (List UInt8) → Option Location)
    (follow : Bool) :
    Location → List (List UInt8) → Option Location
  | here, [] => some here
  | here, component :: rest =>
      match tree.lookup here component with
      | none => none
      | some next =>
          match tree.node next with
          | some (.link target) =>
              if rest = [] ∧ follow = false then some next
              else expand here target rest
          | _ => walk expand follow next rest

/-- A path when at most so many links may be followed. -/
def resolveFrom :
    Nat → Bool → Location → List (List UInt8) → Option Location
  | 0, follow => tree.walk (fun _ _ _ => none) follow
  | links + 1, follow =>
      tree.walk
        (fun here target rest =>
          if target = [] then none
          else
            resolveFrom links follow (origin here target)
              (target.splitOn slash ++ rest))
        follow

/-- The location that a path string leads to. -/
def resolve (follow : Bool) (path : List UInt8) : Option Location :=
  if path = [] ∨ pathMax ≤ path.length then none
  else
    tree.resolveFrom symloopMax follow (origin tree.cwd path)
      (path.splitOn slash)

/-- `lstat`: a link is not followed. -/
def lstat (path : List UInt8) : Option (Location × Node) :=
  (tree.resolve false path).bind fun location =>
    (tree.node location).map fun node => (location, node)

/-- `opendir` and all that `readdir` returns afterwards. -/
def opendir (path : List UInt8) : Option (Location × List (List UInt8)) :=
  (tree.resolve true path).bind fun location =>
    match tree.node location with
    | some (.directory listing) =>
        if tree.readable location then some (location, listing) else none
    | _ => none

end Tree

/-! ## Longer paths -/

section Longer

variable {tree : Tree} {here location : Location}
  {components : List (List UInt8)} {path name : List UInt8}

theorem walk_snoc
    {expandLast expand :
      Location → List UInt8 → List (List UInt8) → Option Location}
    (expands : ∀ here target rest,
      expandLast here target (rest ++ [name]) =
        (expand here target rest).bind fun parent =>
          tree.lookup parent name) :
    tree.walk expandLast false here (components ++ [name]) =
      (tree.walk expand true here components).bind fun parent =>
        tree.lookup parent name := by
  induction components generalizing here with
  | nil =>
      simp only [List.nil_append, Tree.walk, Option.bind_some]
      cases found : tree.lookup here name with
      | none => rfl
      | some next =>
          dsimp only
          split <;> rfl
  | cons component rest inductionHypothesis =>
      simp only [List.cons_append, Tree.walk]
      cases found : tree.lookup here component with
      | none => rfl
      | some next =>
          dsimp only
          split
          · rename_i target _
            rw [if_neg (by simp), if_neg (by simp)]
            exact expands here target rest
          · exact inductionHypothesis

/-- A further component is looked up in what the others lead to. -/
theorem resolveFrom_snoc (links : Nat) :
    tree.resolveFrom links false here (components ++ [name]) =
      (tree.resolveFrom links true here components).bind fun parent =>
        tree.lookup parent name := by
  induction links generalizing here components with
  | zero =>
      apply walk_snoc
      exact fun _ _ _ => rfl
  | succ links inductionHypothesis =>
      apply walk_snoc
      intro here target rest
      by_cases empty : target = []
      · rw [if_pos empty, if_pos empty]
        rfl
      · rw [if_neg empty, if_neg empty, ← List.append_assoc]
        exact inductionHypothesis

theorem walk_follow
    {expandLast expand :
      Location → List UInt8 → List (List UInt8) → Option Location}
    (notLink : ∀ target, tree.node location ≠ some (.link target))
    (expands : ∀ here target rest,
      expandLast here target rest = some location →
        expand here target rest = some location)
    (found : tree.walk expandLast false here components = some location) :
    tree.walk expand true here components = some location := by
  induction components generalizing here with
  | nil => exact found
  | cons component rest inductionHypothesis =>
      simp only [Tree.walk] at found ⊢
      cases next : tree.lookup here component with
      | none =>
          rw [next] at found
          cases found
      | some next =>
          rw [next] at found
          dsimp only at found ⊢
          split at found
          · rename_i target isLink
            split at found
            · cases found
              exact absurd isLink (notLink target)
            · rw [if_neg (by simp)]
              exact expands here target rest found
          · exact inductionHypothesis found

/-- Following links makes no difference where the path leads to something
else. -/
theorem resolveFrom_follow
    {links : Nat}
    (notLink : ∀ target, tree.node location ≠ some (.link target))
    (found : tree.resolveFrom links false here components = some location) :
    tree.resolveFrom links true here components = some location := by
  induction links generalizing here components with
  | zero => exact walk_follow notLink (fun _ _ _ => id) found
  | succ links inductionHypothesis =>
      refine walk_follow notLink ?_ found
      intro here target rest found
      by_cases empty : target = []
      · rw [if_pos empty] at found
        cases found
      · rw [if_neg empty] at found ⊢
        exact inductionHypothesis found

theorem lstat_eq_some_iff {node : Node} :
    tree.lstat path = some (location, node) ↔
      tree.resolve false path = some location ∧
        tree.node location = some node := by
  simp [Tree.lstat, Option.bind_eq_some_iff]

theorem resolve_eq_some_iff {follow : Bool} :
    tree.resolve follow path = some location ↔
      path ≠ [] ∧ path.length < pathMax ∧
        tree.resolveFrom symloopMax follow (origin tree.cwd path)
          (path.splitOn slash) = some location := by
  unfold Tree.resolve
  by_cases refused : path = [] ∨ pathMax ≤ path.length
  · rw [if_pos refused]
    refine ⟨fun found => (by cases found), fun ⟨nonempty, short, _⟩ => ?_⟩
    rcases refused with empty | long
    · exact absurd empty nonempty
    · exact absurd long (Nat.not_le.mpr short)
  · rw [if_neg refused]
    rw [not_or, not_le] at refused
    simp only [refused.1, refused.2, ne_eq, not_false_eq_true, true_and]

/-- What is a directory for `lstat` is one for `opendir`. -/
theorem opendir_of_lstat
    {listing : List (List UInt8)}
    (found : tree.lstat path = some (location, .directory listing)) :
    tree.opendir path =
      if tree.readable location then some (location, listing) else none := by
  obtain ⟨resolved, isDirectory⟩ := lstat_eq_some_iff.mp found
  obtain ⟨nonempty, short, resolved⟩ := resolve_eq_some_iff.mp resolved
  have followed : tree.resolve true path = some location := by
    refine resolve_eq_some_iff.mpr ⟨nonempty, short, ?_⟩
    apply resolveFrom_follow ?_ resolved
    intro target isLink
    rw [isDirectory] at isLink
    cases isLink
  simp only [Tree.opendir, followed, Option.bind_some, isDirectory]

/-- A path, a slash and a component lead to what the component stands for in
the directory that the path leads to. -/
theorem lstat_append
    {listing : List (List UInt8)}
    (found : tree.lstat path = some (location, .directory listing))
    (short : (path ++ slash :: name).length < pathMax)
    (unseparated : slash ∉ name) :
    tree.lstat (path ++ slash :: name) =
      (tree.lookup location name).bind fun object =>
        (tree.node object).map fun node => (object, node) := by
  obtain ⟨resolved, isDirectory⟩ := lstat_eq_some_iff.mp found
  obtain ⟨nonempty, pathShort, resolved⟩ := resolve_eq_some_iff.mp resolved
  have followed : tree.resolveFrom symloopMax true (origin tree.cwd path)
      (path.splitOn slash) = some location := by
    apply resolveFrom_follow ?_ resolved
    intro target isLink
    rw [isDirectory] at isLink
    cases isLink
  have sameOrigin : origin tree.cwd (path ++ slash :: name) =
      origin tree.cwd path := by
    obtain ⟨first, rest, rfl⟩ := List.exists_cons_of_ne_nil nonempty
    rfl
  have notRefused : ¬(path ++ slash :: name = [] ∨
      pathMax ≤ (path ++ slash :: name).length) := by
    rw [not_or, not_le]
    exact ⟨by simp, short⟩
  unfold Tree.lstat Tree.resolve
  rw [if_neg notRefused, sameOrigin, List.splitOn_append_cons_self,
    List.splitOn_eq_singleton unseparated, resolveFrom_snoc, followed]
  rfl

end Longer

/-! ## What a component stands for -/

section Lookup

variable {tree : Tree} {parent location : Location}
  {listing : List (List UInt8)} {name : List UInt8} {node : Node}

theorem isDirectory_of_node
    (found : tree.node parent = some (.directory listing)) :
    tree.IsDirectory parent := by
  unfold Tree.IsDirectory
  rw [found]
  rfl

/-- An entry of a directory is called by a name. -/
theorem isName_of_entry
    (isDirectory : tree.node parent = some (.directory listing))
    (member : name ∈ listing)
    (noDots : ¬IsDots name) :
    IsName name :=
  (tree.names parent listing isDirectory name member).resolve_left noDots

/-- The names on the way to an object are names. -/
theorem isName_of_node
    {names : List (List UInt8)}
    (present : tree.node (names ++ parent) ≠ none) :
    ∀ name ∈ names, IsName name := by
  induction names with
  | nil => exact fun _ member => absurd member List.not_mem_nil
  | cons first rest inductionHypothesis =>
      obtain ⟨listing, isDirectory, member, noDots⟩ :=
        (tree.child first (rest ++ parent)).mp present
      intro name inside
      rcases List.mem_cons.mp inside with rfl | inside
      · exact isName_of_entry isDirectory member noDots
      · exact inductionHypothesis (by rw [isDirectory]; simp) name inside

/-- An entry stands for the object of this name. -/
theorem lookup_entry
    (isDirectory : tree.node parent = some (.directory listing))
    (searchable : tree.searchable parent = true)
    (member : name ∈ listing)
    (noDots : ¬IsDots name) :
    tree.lookup parent name = some (name :: parent) := by
  have isName := isName_of_entry isDirectory member noDots
  have present := (tree.child name parent).mpr
    ⟨listing, isDirectory, member, noDots⟩
  rw [IsDots, not_or] at noDots
  rw [Tree.lookup, if_neg (not_not.mpr (isDirectory_of_node isDirectory)),
    if_neg isName.component.nonempty, if_neg (by simp [searchable]),
    if_neg noDots.1, if_neg noDots.2, if_neg present]

/-- Without search permission an entry cannot be reached. -/
theorem lookup_unsearchable
    (searchable : tree.searchable parent = false)
    (nonempty : name ≠ []) :
    tree.lookup parent name = none := by
  rw [Tree.lookup, if_neg nonempty, if_pos searchable, ite_self]

/-- What a component can stand for: the directory, what is above it, or one of
its entries. -/
theorem lookup_cases
    (found : tree.lookup parent name = some location) :
    location = parent ∨ location = parent.tail ∨
      location = name :: parent ∧ name ≠ [] ∧ ¬IsDots name ∧
        tree.node location ≠ none := by
  unfold Tree.lookup at found
  split at found
  · cases found
  split at found
  · cases found
    exact .inl rfl
  rename_i nonempty
  split at found
  · cases found
  split at found
  · cases found
    exact .inl rfl
  rename_i notDot
  split at found
  · cases found
    exact .inr (.inl rfl)
  rename_i notDotDot
  split at found
  · cases found
  rename_i present
  cases found
  exact .inr (.inr ⟨rfl, nonempty, fun dots => dots.elim notDot notDotDot,
    present⟩)

/-- A path, a slash and the name of an entry lead to this entry, if the
directory can be searched. -/
theorem lstat_entry_iff
    {path : List UInt8}
    (found : tree.lstat path = some (parent, .directory listing))
    (member : name ∈ listing)
    (noDots : ¬IsDots name)
    (short : (path ++ slash :: name).length < pathMax) :
    tree.lstat (path ++ slash :: name) = some (location, node) ↔
      location = name :: parent ∧ tree.searchable parent = true ∧
        tree.node (name :: parent) = some node := by
  have isDirectory := (lstat_eq_some_iff.mp found).2
  have isName := isName_of_entry isDirectory member noDots
  rw [lstat_append found short isName.component.unseparated]
  by_cases searchable : tree.searchable parent = true
  · rw [lookup_entry isDirectory searchable member noDots, Option.bind_some,
      Option.map_eq_some_iff]
    constructor
    · rintro ⟨_, present, same⟩
      cases same
      exact ⟨rfl, searchable, present⟩
    · rintro ⟨rfl, -, present⟩
      exact ⟨node, present, rfl⟩
  · rw [lookup_unsearchable (by simpa using searchable)
      isName.component.nonempty]
    simp [searchable]

end Lookup

/-! ## The current directory -/

/-- `./` leads to the current directory. -/
theorem lstat_dotSlash
    {tree : Tree}
    {listing : List (List UInt8)}
    (isDirectory : tree.node tree.cwd = some (.directory listing))
    (searchable : tree.searchable tree.cwd = true) :
    tree.lstat (ascii "./") = some (tree.cwd, .directory listing) := by
  have directory := isDirectory_of_node isDirectory
  have stays : tree.lookup tree.cwd (ascii ".") = some tree.cwd := by
    rw [Tree.lookup, if_neg (not_not.mpr directory), if_neg (by decide),
      if_neg (by simp [searchable]), if_pos rfl]
  have ends : tree.lookup tree.cwd [] = some tree.cwd := by
    rw [Tree.lookup, if_neg (not_not.mpr directory), if_pos rfl]
  refine lstat_eq_some_iff.mpr ⟨?_, isDirectory⟩
  refine resolve_eq_some_iff.mpr ⟨by decide, by decide, ?_⟩
  have components : (ascii "./").splitOn slash = [ascii ".", []] := by decide
  have here : origin tree.cwd (ascii "./") = tree.cwd := if_neg (by decide)
  rw [components, here]
  simp only [symloopMax, Tree.resolveFrom, Tree.walk, stays, ends, isDirectory]

/-! ## A chain of directories -/

/-- The object at a location when there are only the given one and the
directories above it. -/
def chainNode : Location → Node → Location → Option Node
  | [], node, location => if location = [] then some node else none
  | name :: above, node, location =>
      if location = name :: above then some node
      else chainNode above (.directory [name]) location

theorem chainNode_eq_some_iff
    {bottom location : Location}
    {node object : Node} :
    chainNode bottom node location = some object ↔
      location = bottom ∧ object = node ∨
        ∃ name, name :: location <:+ bottom ∧ object = .directory [name] := by
  induction bottom generalizing node with
  | nil =>
      by_cases here : location = [] <;> simp [chainNode, here, eq_comm]
  | cons first above inductionHypothesis =>
      unfold chainNode
      by_cases here : location = first :: above
      · have notBelow : ∀ name, ¬name :: location <:+ first :: above := by
          intro name under
          rw [here] at under
          exact absurd under.length_le (Nat.not_succ_le_self _)
        rw [if_pos here]
        simp only [here, true_and, Option.some.injEq, eq_comm]
        rw [here] at notBelow
        simp [notBelow]
      · rw [if_neg here, inductionHypothesis]
        simp only [here, false_and, false_or, List.suffix_cons_iff,
          List.cons.injEq]
        constructor
        · rintro (⟨rfl, rfl⟩ | ⟨name, under, rfl⟩)
          · exact ⟨first, .inl ⟨rfl, rfl⟩, rfl⟩
          · exact ⟨name, .inr under, rfl⟩
        · rintro ⟨name, ⟨rfl, rfl⟩ | under, rfl⟩
          · exact .inl ⟨rfl, rfl⟩
          · exact .inr ⟨name, under, rfl⟩

/-- The locations of the objects of a chain. -/
theorem chainNode_ne_none_iff
    {bottom location : Location}
    {node : Node} :
    chainNode bottom node location ≠ none ↔ location <:+ bottom := by
  rw [Option.ne_none_iff_exists']
  constructor
  · rintro ⟨object, found⟩
    rcases chainNode_eq_some_iff.mp found with ⟨rfl, -⟩ | ⟨name, under, -⟩
    · exact List.suffix_refl _
    · exact (List.suffix_cons name location).trans under
  · rintro ⟨front, rfl⟩
    rcases List.eq_nil_or_concat front with rfl | ⟨outer, name, rfl⟩
    · exact ⟨node, chainNode_eq_some_iff.mpr (.inl ⟨rfl, rfl⟩)⟩
    · refine ⟨_, chainNode_eq_some_iff.mpr (.inr ⟨name, ⟨outer, ?_⟩, rfl⟩)⟩
      rw [List.concat_eq_append, List.append_assoc]
      rfl

/-- A directory of a chain has one entry. -/
theorem directory_of_chainNode
    {bottom location : Location}
    {last : Node}
    {listing : List (List UInt8)}
    (notDirectory : last.isDir = false)
    (isDirectory : chainNode bottom last location =
      some (.directory listing)) :
    ∃ name, name :: location <:+ bottom ∧ listing = [name] := by
  rcases chainNode_eq_some_iff.mp isDirectory with
    ⟨-, isLast⟩ | ⟨name, under, same⟩
  · rw [← isLast] at notDirectory
    cases notDirectory
  · cases same
    exact ⟨name, under, rfl⟩

/-- An object that is not a directory, below a chain of directories. -/
def chainTree
    (bottom : Location)
    (last : Node)
    (notDirectory : last.isDir = false)
    (names : ∀ name ∈ bottom, IsName name) : Tree where
  node := chainNode bottom last
  readable := fun _ => true
  searchable := fun _ => true
  cwd := []
  depth := bottom.length
  bounded location present :=
    (chainNode_ne_none_iff.mp present).length_le
  child name parent := by
    rw [chainNode_ne_none_iff]
    constructor
    · intro under
      exact ⟨[name], chainNode_eq_some_iff.mpr (.inr ⟨name, under, rfl⟩),
        .head _, (names name (under.subset (.head _))).noDots⟩
    · rintro ⟨listing, isDirectory, member, -⟩
      obtain ⟨other, under, rfl⟩ :=
        directory_of_chainNode notDirectory isDirectory
      rw [List.mem_singleton.mp member]
      exact under
  names location listing isDirectory name member := by
    obtain ⟨other, under, rfl⟩ :=
      directory_of_chainNode notDirectory isDirectory
    rw [List.mem_singleton.mp member]
    exact .inr (names other (under.subset (.head _)))
  once location listing isDirectory := by
    obtain ⟨other, -, rfl⟩ := directory_of_chainNode notDirectory isDirectory
    exact (List.pairwise_singleton _ other).filter _

end PosixTree
end OSaSP
