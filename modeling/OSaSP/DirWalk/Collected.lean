import OSaSP.DirWalk.CutPaths

/-!
# What is collected

Where every path fits and every directory can be read and searched, the walk is
the one through the tree: the places are the objects at and below the start,
each under the path that spells its names out behind the start, and the list
gets those that pass the filter, every directory before what is in it.

A directory stays open while the walk is below it.  The descriptors and the
stack of the process are taken to suffice for the depth of the tree.
-/

namespace OSaSP
namespace DirWalk

open CString RenderedPath PosixTree Descent

/-- No filter is chosen, or one that accepts the object. -/
def Options.Passes (opts : Options) (node : Node) : Prop :=
  opts.lOnly = false ∧ opts.dOnly = false ∧ opts.fOnly = false ∨
    opts.lOnly = true ∧ (∃ target, node = .link target) ∨
    opts.dOnly = true ∧ (∃ listing, node = .directory listing) ∨
    opts.fOnly = true ∧ node = .regular

theorem isMatch_iff
    {opts : Options}
    {path : List UInt8}
    {node : Node} :
    isMatch path node opts = true ↔ opts.Passes node := by
  obtain ⟨lOnly, dOnly, fOnly, sort⟩ := opts
  cases node <;> cases lOnly <;> cases dOnly <;> cases fOnly <;>
    simp [isMatch, Options.Passes, Node.isLnk, Node.isDir, Node.isReg]

/-- The list holds the paths of the objects at and below the start that pass
the filter, each of them once and every directory before its contents, and
there have been no messages. -/
structure Collected
    (tree : Tree)
    (opts : Options)
    (startDir : List UInt8)
    (here : Location)
    (state : WalkState) : Prop where
  exactly : ∀ path, path ∈ state.plist.contents ↔
    ∃ (names : List (List UInt8)) (node : Node),
      path = startDir ++ render slash names ∧
      tree.node (names.reverse ++ here) = some node ∧ opts.Passes node
  once : state.plist.contents.Nodup
  directoriesFirst : state.plist.contents.Pairwise fun earlier later =>
    ∀ names, earlier ≠ later ++ render slash names
  silent : state.stderr = []

/-- Main comes to its sorting with the right list, or an allocation that it
asked for has failed. -/
def Collects
    (tree : Tree)
    (memory : Nat → Bool)
    (opts : Options)
    (startDir : List UInt8)
    (here : Location) : Outcome → Prop
  | .returned state => Collected tree opts startDir here state
  | .exited state => ∃ request < state.allocations, memory request = false

/-- All paths at and below the start fit, and all directories there can be read
and searched. -/
structure Readable
    (tree : Tree)
    (startDir : List UInt8)
    (here : Location) : Prop where
  short : ∀ names : List (List UInt8),
    tree.node (names.reverse ++ here) ≠ none →
      (startDir ++ render slash names).length < pathMax
  permitted : ∀ (names : List (List UInt8)) listing,
    tree.node (names.reverse ++ here) = some (.directory listing) →
      tree.readable (names.reverse ++ here) = true ∧
        tree.searchable (names.reverse ++ here) = true

/-- The place of the object with these names below the start. -/
def place
    (startDir : List UInt8)
    (here : Location)
    (names : List (List UInt8))
    (node : Node) : Stop :=
  .object (startDir ++ render slash names) (names.reverse ++ here) node

section Places

variable {tree : Tree} {opts : Options} {startDir : List UInt8}
  {here : Location} {names : List (List UInt8)} {sb node : Node}

/-- Every object below the start is found under its path. -/
theorem lstat_place
    (found : tree.lstat startDir = some (here, sb))
    (readable : Readable tree startDir here)
    (present : tree.node (names.reverse ++ here) = some node) :
    tree.lstat (startDir ++ render slash names) =
      some (names.reverse ++ here, node) := by
  induction names using List.reverseRecOn generalizing node with
  | nil =>
      have same := (lstat_eq_some_iff.mp found).2
      rw [List.reverse_nil, List.nil_append, same] at present
      cases present
      simpa using found
  | append_singleton names name inductionHypothesis =>
      have short := readable.short (names ++ [name]) (by rw [present]; simp)
      rw [render_append, render_cons, render_nil, List.append_nil,
        ← List.append_assoc] at short ⊢
      rw [List.reverse_concat, List.cons_append] at present ⊢
      obtain ⟨listing, isParent, member, noDots⟩ :=
        (tree.child name _).mp (by rw [present]; simp)
      exact (lstat_entry_iff (inductionHypothesis isParent) member noDots
        short).mpr ⟨rfl, (readable.permitted names listing isParent).2, present⟩

theorem path_append (startDir name : List UInt8) (names : List (List UInt8)) :
    startDir ++ render slash (names ++ [name]) =
      startDir ++ render slash names ++ slash :: name := by
  rw [render_append, render_cons, render_nil, List.append_nil,
    List.append_assoc]

/-- What the loop makes of an entry: the place of this entry. -/
theorem stopAt_place
    {listing : List (List UInt8)}
    {dName : List UInt8}
    (found : tree.lstat startDir = some (here, sb))
    (readable : Readable tree startDir here)
    (isParent : tree.node (names.reverse ++ here) = some (.directory listing))
    (member : dName ∈ listing)
    (noDots : ¬IsDots dName) :
    ∃ node, tree.node ((names ++ [dName]).reverse ++ here) = some node ∧
      stopAt tree (startDir ++ render slash names) dName =
        place startDir here (names ++ [dName]) node := by
  have present := (tree.child dName (names.reverse ++ here)).mpr
    ⟨listing, isParent, member, noDots⟩
  rw [← List.cons_append, ← List.reverse_concat] at present
  obtain ⟨node, isNode⟩ := Option.ne_none_iff_exists'.mp present
  have entryFound := lstat_place found readable isNode
  have short := readable.short _ present
  refine ⟨node, isNode, ?_⟩
  rw [path_append] at entryFound short
  rw [place, path_append]
  exact stopAt_of_found (snprintf_of_fits short) entryFound

/-- The places below a directory are those of its entries. -/
theorem mem_below_place
    {child : Stop}
    (found : tree.lstat startDir = some (here, sb))
    (readable : Readable tree startDir here)
    (present : tree.node (names.reverse ++ here) = some node) :
    child ∈ below tree (place startDir here names node) ↔
      ∃ listing dName, node = .directory listing ∧ dName ∈ listing ∧
        ¬IsDots dName ∧
        stopAt tree (startDir ++ render slash names) dName = child := by
  cases node with
  | directory listing =>
      have permitted := (readable.permitted names listing present).1
      rw [place, below_readable (lstat_place found readable present) permitted,
        mem_stops]
      simp
  | link | regular | other => simp [place, below]

/-- The walk goes down to places of the tree. -/
theorem leads_place
    {stop : Stop}
    (found : tree.lstat startDir = some (here, sb))
    (readable : Readable tree startDir here)
    (present : tree.node (names.reverse ++ here) = some node)
    (leads : Leads (below tree) (place startDir here names node) stop) :
    ∃ more object, stop = place startDir here (names ++ more) object ∧
      tree.node ((names ++ more).reverse ++ here) = some object := by
  induction leads with
  | refl => exact ⟨[], node, by rw [List.append_nil], by simpa using present⟩
  | tail _ isChild inductionHypothesis =>
      obtain ⟨more, object, rfl, present⟩ := inductionHypothesis
      obtain ⟨listing, dName, rfl, member, noDots, rfl⟩ :=
        (mem_below_place found readable present).mp isChild
      obtain ⟨entry, isEntry, isPlace⟩ :=
        stopAt_place found readable present member noDots
      rw [List.append_assoc] at isEntry isPlace
      exact ⟨more ++ [dName], entry, isPlace, isEntry⟩

/-- The walk comes to every place of the tree. -/
theorem leads_to_place
    (found : tree.lstat startDir = some (here, sb))
    (readable : Readable tree startDir here)
    (present : tree.node (names.reverse ++ here) = some node) :
    Leads (below tree) (.object startDir here sb)
      (place startDir here names node) := by
  induction names using List.reverseRecOn generalizing node with
  | nil =>
      have same := (lstat_eq_some_iff.mp found).2
      rw [List.reverse_nil, List.nil_append, same] at present
      cases present
      rw [place, render_nil, List.append_nil]
      exact .refl
  | append_singleton names name inductionHypothesis =>
      have isEntry := present
      rw [List.reverse_concat, List.cons_append] at present
      obtain ⟨listing, isParent, member, noDots⟩ :=
        (tree.child name _).mp (by rw [present]; simp)
      refine (inductionHypothesis isParent).tail ?_
      refine (mem_below_place found readable isParent).mpr
        ⟨listing, name, rfl, member, noDots, ?_⟩
      obtain ⟨object, isObject, isPlace⟩ :=
        stopAt_place found readable isParent member noDots
      rw [isEntry] at isObject
      cases isObject
      exact isPlace

/-- The walk visits the places of the tree and nothing else. -/
theorem mem_visited
    {visited : List Stop}
    {stop : Stop}
    (found : tree.lstat startDir = some (here, sb))
    (readable : Readable tree startDir here)
    (visits : Visits (below tree) [.object startDir here sb] visited) :
    stop ∈ visited ↔
      ∃ names node, stop = place startDir here names node ∧
        tree.node (names.reverse ++ here) = some node := by
  have isStart : Stop.object startDir here sb = place startDir here [] sb := by
    rw [place, render_nil, List.append_nil]
    rfl
  constructor
  · intro member
    obtain ⟨start, single, leads⟩ := visits.mem_iff.mp member
    have present : tree.node (([] : List (List UInt8)).reverse ++ here) =
        some sb := (lstat_eq_some_iff.mp found).2
    rw [List.mem_singleton.mp single, isStart] at leads
    exact leads_place found readable present leads
  · rintro ⟨names, node, rfl, present⟩
    exact visits.mem_iff.mpr
      ⟨_, .head _, leads_to_place found readable present⟩

/-! ## The order -/

/-- A path that goes on behind another one belongs to an object below. -/
theorem prefix_of_path
    {other more : List (List UInt8)}
    (present : tree.node (names.reverse ++ here) ≠ none)
    (otherPresent : tree.node (other.reverse ++ here) ≠ none)
    (same : startDir ++ render slash names =
      startDir ++ render slash other ++ render slash more) :
    other <+: names := by
  rw [List.append_assoc, List.append_cancel_left_eq] at same
  have components : ∀ names : List (List UInt8),
      tree.node (names.reverse ++ here) ≠ none →
        ∀ name ∈ names, IsComponent slash name :=
    fun _ present name member =>
      (isName_of_node present name (List.mem_reverse.mpr member)).component
  refine (render_descends_iff (components other otherPresent)
    (components names present)).mp ?_
  rw [same]
  cases more with
  | nil => exact .inl (List.append_nil _)
  | cons name more =>
      right
      rw [render_cons, List.prefix_append_right_inj]
      exact List.prefix_append [slash] _

/-- The path of the first place does not go on behind that of the second. -/
def NotBelow (opts : Options) (first second : Stop) : Prop :=
  ∀ path, first.listed opts = some path →
    ∀ other, second.listed opts = some other →
      ∀ names, path ≠ other ++ render slash names

theorem path_of_listed
    {path : List UInt8}
    (listed : (place startDir here names node).listed opts = some path) :
    path = startDir ++ render slash names ∧ opts.Passes node := by
  rw [place, Stop.listed, Option.ite_none_right_eq_some] at listed
  exact ⟨(Option.some.inj listed.2).symm, isMatch_iff.mp listed.1⟩

/-- Places are in the right order unless the second one is at or above the
first. -/
theorem notBelow_place
    {other : List (List UInt8)}
    {object : Node}
    (present : tree.node (names.reverse ++ here) = some node)
    (otherPresent : tree.node (other.reverse ++ here) = some object)
    (notPrefix : ¬other <+: names) :
    NotBelow opts (place startDir here names node)
      (place startDir here other object) := by
  intro path listed otherPath otherListed more same
  rw [(path_of_listed listed).1, (path_of_listed otherListed).1] at same
  exact notPrefix (prefix_of_path (by rw [present]; simp)
    (by rw [otherPresent]; simp) same)

/-- What is below an entry is not below another one. -/
theorem entries_notBelow
    {listing : List (List UInt8)}
    {first second : List UInt8}
    (opts : Options)
    (found : tree.lstat startDir = some (here, sb))
    (readable : Readable tree startDir here)
    (isParent : tree.node (names.reverse ++ here) = some (.directory listing))
    (firstMember : first ∈ listing)
    (firstNoDots : ¬IsDots first)
    (secondMember : second ∈ listing)
    (secondNoDots : ¬IsDots second)
    (different : first ≠ second) :
    Apart (below tree) (NotBelow opts)
      (stopAt tree (startDir ++ render slash names) first)
      (stopAt tree (startDir ++ render slash names) second) := by
  obtain ⟨_, isFirst, firstPlace⟩ :=
    stopAt_place found readable isParent firstMember firstNoDots
  obtain ⟨_, isSecond, secondPlace⟩ :=
    stopAt_place found readable isParent secondMember secondNoDots
  rw [firstPlace, secondPlace]
  intro left right leadsLeft leadsRight
  obtain ⟨_, _, rfl, isLeft⟩ :=
    leads_place found readable isFirst leadsLeft
  obtain ⟨_, _, rfl, isRight⟩ :=
    leads_place found readable isSecond leadsRight
  apply notBelow_place isLeft isRight
  intro before
  simp only [List.append_assoc, List.prefix_append_right_inj,
    List.singleton_append, List.cons_prefix_cons] at before
  exact different before.1.symm

/-- Every directory is visited before its contents. -/
theorem visited_order
    {visited : List Stop}
    (opts : Options)
    (found : tree.lstat startDir = some (here, sb))
    (readable : Readable tree startDir here)
    (visits : Visits (below tree) [.object startDir here sb] visited) :
    visited.Pairwise (NotBelow opts) := by
  apply visits.pairwise
  · intro stop member child isChild other leads
    obtain ⟨names, node, rfl, present⟩ :=
      (mem_visited found readable visits).mp member
    obtain ⟨listing, dName, rfl, inside, noDots, rfl⟩ :=
      (mem_below_place found readable present).mp isChild
    obtain ⟨entry, isEntry, isPlace⟩ :=
      stopAt_place found readable present inside noDots
    rw [isPlace] at leads
    obtain ⟨more, object, rfl, isObject⟩ :=
      leads_place found readable isEntry leads
    apply notBelow_place present isObject
    intro before
    have longer := before.length_le
    simp only [List.length_append, List.length_cons] at longer
    omega
  · intro stop member
    obtain ⟨names, node, rfl, present⟩ :=
      (mem_visited found readable visits).mp member
    cases node with
    | link | regular | other => exact .nil
    | directory listing =>
        apply below_pairwise (lstat_place found readable present)
          (readable.permitted names listing present).1
        intro first firstMember firstNoDots second secondMember secondNoDots
        exact entries_notBelow opts found readable present firstMember
          firstNoDots secondMember secondNoDots
  · exact List.pairwise_singleton _ _

/-! ## The list -/

/-- Every reached directory is one of the tree, under its path. -/
theorem reached_place
    {path : List UInt8}
    {location : Location}
    (found : tree.lstat startDir = some (here, sb))
    (reached : Reached tree startDir path location) :
    ∃ names, path = startDir ++ render slash names ∧
      location = names.reverse ++ here := by
  induction reached with
  | start isStart _ =>
      rw [found] at isStart
      cases isStart
      exact ⟨[], (List.append_nil _).symm, rfl⟩
  | @entry _ dName _ _ _ _ _ _ _ _ _ _ _ inductionHypothesis =>
      obtain ⟨names, rfl, rfl⟩ := inductionHypothesis
      exact ⟨names ++ [dName], (path_append _ _ _).symm, by simp⟩

/-- Where every path fits nothing is cut. -/
theorem nowhere_of_readable
    (found : tree.lstat startDir = some (here, sb))
    (readable : Readable tree startDir here) :
    CutsLeadNowhere tree startDir := by
  intro path location listing dName reached isParent member noDots long
  obtain ⟨names, rfl, rfl⟩ := reached_place found reached
  have present := (tree.child dName _).mpr ⟨listing, isParent, member, noDots⟩
  rw [← List.cons_append, ← List.reverse_concat] at present
  have short := readable.short _ present
  rw [path_append] at short
  exact absurd long (Nat.not_le.mpr short)

/-- No message is written where everything is found. -/
theorem messages_nil
    {visited : List Stop}
    (found : tree.lstat startDir = some (here, sb))
    (readable : Readable tree startDir here)
    (visits : Visits (below tree) [.object startDir here sb] visited) :
    visited.filterMap Stop.message = [] := by
  rw [List.filterMap_eq_nil_iff]
  intro stop member
  obtain ⟨_, _, rfl, -⟩ := (mem_visited found readable visits).mp member
  rfl

/-- The list is right when main has gone through the descent. -/
theorem Logged.collected
    {visited : List Stop}
    {state : WalkState}
    (logged : Logged tree opts .start visited state)
    (found : tree.lstat startDir = some (here, sb))
    (readable : Readable tree startDir here)
    (visits : Visits (below tree) [.object startDir here sb] visited) :
    Collected tree opts startDir here state := by
  have contents : state.plist.contents =
      visited.filterMap (Stop.listed opts) := logged.listed
  have ordered : state.plist.contents.Pairwise fun earlier later =>
      ∀ names, earlier ≠ later ++ render slash names := by
    rw [contents, List.pairwise_filterMap]
    exact visited_order opts found readable visits
  constructor
  · intro path
    rw [contents, List.mem_filterMap]
    constructor
    · rintro ⟨stop, member, listed⟩
      obtain ⟨names, node, rfl, present⟩ :=
        (mem_visited found readable visits).mp member
      obtain ⟨pathEq, passes⟩ := path_of_listed listed
      exact ⟨names, node, pathEq, present, passes⟩
    · rintro ⟨names, node, rfl, present, passes⟩
      exact ⟨place startDir here names node,
        (mem_visited found readable visits).mpr ⟨names, node, rfl, present⟩,
        if_pos (isMatch_iff.mpr passes)⟩
  · refine ordered.imp fun notBelow same => ?_
    exact notBelow [] (by rw [render_nil, List.append_nil]; exact same)
  · exact ordered
  · rw [logged.messages, messages_nil found readable visits]
    rfl

/-- For every tree, every start in it whose objects all have paths that fit and
whose directories can all be read and searched, and every combination of
options: main comes to its sorting with the list of the paths of the objects at
and below the start that pass the filter, each once and every directory before
its contents, however often the array has grown, unless an allocation that it
asked for has failed.  Neither the descriptors nor the stack run out. -/
theorem collect_exact
    (tree : Tree)
    (memory : Nat → Bool)
    (opts : Options)
    (startDir : List UInt8)
    (here : Location)
    (sb : Node)
    (found : tree.lstat startDir = some (here, sb))
    (readable : Readable tree startDir here) :
    ∃ least, ∀ depth, least ≤ depth → ∃ outcome,
      collect tree memory opts depth startDir = some outcome ∧
        Collects tree memory opts startDir here outcome := by
  obtain ⟨visited, visits⟩ := exists_visits
    ((start_tracks found).ends (nowhere_of_readable found readable))
  obtain ⟨least, goes⟩ := collect_of_visits found visits
  refine ⟨least, fun depth enough => ?_⟩
  obtain ⟨outcome, ran, follows⟩ := goes depth enough
  refine ⟨outcome, ran, ?_⟩
  cases outcome with
  | returned state => exact Logged.collected follows found readable visits
  | exited state => exact follows.1

end Places

/-- The directory `a` with a link to the directory above it. -/
def linkUp : Tree :=
  chainTree [ascii "l", ascii "a"] (.link (ascii "..")) rfl (by decide)

-- `lstat` follows the link only with a slash behind it.
example :
    linkUp.lstat (ascii "a/l") =
        some ([ascii "l", ascii "a"], .link (ascii "..")) ∧
      linkUp.lstat (ascii "a/l/") = some ([], .directory [ascii "a"]) := by
  decide +kernel

theorem linkUp_readable : Readable linkUp (ascii "./") [] where
  short := by
    intro names present
    have under := chainNode_ne_none_iff.mp present
    rw [List.append_nil, ← List.mem_tails] at under
    have short : ∀ location ∈ [ascii "l", ascii "a"].tails,
        (ascii "./" ++ render slash location.reverse).length < pathMax := by
      decide
    have fits := short _ under
    rw [List.reverse_reverse] at fits
    exact fits
  permitted := fun _ _ _ => ⟨rfl, rfl⟩

/-- The walk through this tree, when links and directories are asked for. -/
theorem linkUp_collects :
    ∃ least, ∀ depth, least ≤ depth → ∃ outcome,
      collect linkUp (fun _ => true) ⟨true, true, false, false⟩ depth
          (ascii "./") = some outcome ∧
        Collects linkUp (fun _ => true) ⟨true, true, false, false⟩
          (ascii "./") [] outcome :=
  collect_exact linkUp (fun _ => true) ⟨true, true, false, false⟩
    (ascii "./") [] (.directory [ascii "a"]) (lstat_dotSlash rfl rfl)
    linkUp_readable

example :
    (collect linkUp (fun _ => true) ⟨true, true, false, false⟩ 3
      (ascii "./")).map (fun outcome => outcome.state.plist.contents) =
        some [ascii "./", ascii ".//a", ascii ".//a/l"] := by decide

end DirWalk
end OSaSP
