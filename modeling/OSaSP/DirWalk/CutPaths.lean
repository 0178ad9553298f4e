import OSaSP.DirWalk.Places

/-!
# Paths that are cut

`snprintf` leaves `PATH_MAX - 1` bytes of a path that is longer, and nobody
looks at its result.  What is left is the path of the directory itself when
only its slash fits, and the path of another entry when that entry's name
begins the cut one.  The walk goes down there a second time.  If the directory
is not empty, it goes down there for ever: the path of its entries is cut to
the same bytes.
-/

namespace OSaSP
namespace DirWalk

open CString RenderedPath PosixTree Descent

/-- The walk ends, whatever the memory grants, and has opened no directory
twice. -/
def EndsOnce (tree : Tree) (opts : Options) (startDir : List UInt8) : Prop :=
  ∀ memory, ∃ least, ∀ depth, least ≤ depth → ∃ outcome,
    collect tree memory opts depth startDir = some outcome ∧
      outcome.state.entered.Nodup

/-- The directories that can be opened from the start on with their whole
paths. -/
inductive Reached (tree : Tree) (startDir : List UInt8) :
    List UInt8 → Location → Prop
  | start
      {location : Location}
      {listing : List (List UInt8)}
      (found : tree.lstat startDir = some (location, .directory listing))
      (readable : tree.readable location = true) :
      Reached tree startDir startDir location
  | entry
      {path dName : List UInt8}
      {location : Location}
      {listing entries : List (List UInt8)}
      (parent : Reached tree startDir path location)
      (isParent : tree.node location = some (.directory listing))
      (searchable : tree.searchable location = true)
      (member : dName ∈ listing)
      (noDots : ¬IsDots dName)
      (fits : (path ++ slash :: dName).length < pathMax)
      (isDirectory :
        tree.node (dName :: location) = some (.directory entries))
      (readable : tree.readable (dName :: location) = true) :
      Reached tree startDir (path ++ slash :: dName) (dName :: location)

/-- The path leads to a directory that can be opened. -/
def LeadsToDirectory (tree : Tree) (path : List UInt8) : Prop :=
  ∃ location listing,
    tree.lstat path = some (location, .directory listing) ∧
      tree.readable location = true

/-- No path that is too long for the buffer leads to a directory after it has
been cut. -/
def CutsLeadNowhere (tree : Tree) (startDir : List UInt8) : Prop :=
  ∀ path location listing dName,
    Reached tree startDir path location →
      tree.node location = some (.directory listing) →
      dName ∈ listing → ¬IsDots dName →
      pathMax ≤ (path ++ slash :: dName).length →
        ¬LeadsToDirectory tree (snprintf pathMax (path ++ slash :: dName))

section Places

variable {tree : Tree} {opts : Options} {startDir path dName : List UInt8}
  {location : Location} {listing : List (List UInt8)}

/-! ## The places of reached directories -/

theorem Reached.lstat
    (reached : Reached tree startDir path location) :
    ∃ listing, tree.lstat path = some (location, .directory listing) := by
  induction reached with
  | start found _ => exact ⟨_, found⟩
  | @entry _ _ _ _ entries _ isParent searchable member noDots fits isDirectory
      _ inductionHypothesis =>
      obtain ⟨listing, found⟩ := inductionHypothesis
      have same := (lstat_eq_some_iff.mp found).2
      rw [isParent] at same
      cases same
      exact ⟨entries, (lstat_entry_iff found member noDots fits).mpr
        ⟨rfl, searchable, isDirectory⟩⟩

theorem Reached.readable
    (reached : Reached tree startDir path location) :
    tree.readable location = true := by
  cases reached with
  | start _ readable => exact readable
  | entry _ _ _ _ _ _ _ readable => exact readable

/-- What `lstat` says about a reached directory. -/
theorem Reached.found
    (reached : Reached tree startDir path location)
    (isDirectory : tree.node location = some (.directory listing)) :
    tree.lstat path = some (location, .directory listing) := by
  obtain ⟨entries, found⟩ := reached.lstat
  have same := (lstat_eq_some_iff.mp found).2
  rw [isDirectory] at same
  cases same
  exact found

/-- What is opened at a place, in terms of the tree. -/
theorem opened_object
    {sb : Node}
    {opened : Location}
    (found : tree.lstat path = some (location, sb)) :
    (Stop.object path location sb).opened tree = some opened ↔
      opened = location ∧ sb.isDir = true ∧
        tree.readable location = true := by
  cases sb with
  | directory listing =>
      rw [Stop.opened, opendir_of_lstat found]
      by_cases readable : tree.readable location = true
      · simp [readable, Node.isDir, eq_comm]
      · simp [readable]
  | link | regular | other => simp [Stop.opened, Node.isDir]

/-- The places below a directory that can be opened. -/
theorem below_readable
    (found : tree.lstat path = some (location, .directory listing))
    (readable : tree.readable location = true) :
    below tree (.object path location (.directory listing)) =
      stops tree path listing := by
  rw [below, opendir_of_lstat found, if_pos readable]

/-- A path that fits is not cut. -/
theorem snprintf_of_fits
    (fits : path.length < pathMax) :
    snprintf pathMax path = path :=
  List.take_of_length_le (Nat.le_sub_one_of_lt fits)

theorem stopAt_of_found
    {cut : List UInt8}
    {sb : Node}
    (cutEq : snprintf pathMax (path ++ slash :: dName) = cut)
    (found : tree.lstat cut = some (location, sb)) :
    stopAt tree path dName = .object cut location sb := by
  simp only [stopAt, cutEq, found]

theorem mem_stops {stop : Stop} :
    stop ∈ stops tree path listing ↔
      ∃ dName ∈ listing, ¬IsDots dName ∧ stopAt tree path dName = stop := by
  simp [stops, and_assoc]

/-- The entries of a directory are different, so what holds of any two
different ones holds of the places below it. -/
theorem below_pairwise
    {related : Stop → Stop → Prop}
    (found : tree.lstat path = some (location, .directory listing))
    (readable : tree.readable location = true)
    (entries : ∀ first ∈ listing, ¬IsDots first → ∀ second ∈ listing,
      ¬IsDots second → first ≠ second →
        related (stopAt tree path first) (stopAt tree path second)) :
    (below tree (.object path location (.directory listing))).Pairwise
      related := by
  rw [below_readable found readable, stops, List.pairwise_map]
  have once := tree.once location listing (lstat_eq_some_iff.mp found).2
  refine once.imp_of_mem ?_
  intro first second firstMember secondMember different
  simp only [List.mem_filter, decide_eq_true_eq] at firstMember secondMember
  exact entries first firstMember.1 firstMember.2 second secondMember.1
    secondMember.2 different

/-! ## Where nothing is cut to a directory -/

/-- Nothing is opened at the place, or it is a reached directory at or below
the location. -/
def Tracks
    (tree : Tree)
    (startDir : List UInt8)
    (top : Location)
    (stop : Stop) : Prop :=
  stop.opened tree = none ∨
    ∃ path location listing,
      stop = .object path location (.directory listing) ∧
        Reached tree startDir path location ∧
        tree.node location = some (.directory listing) ∧ top <:+ location

/-- Where nothing is opened the walk goes down to a message at most. -/
theorem below_of_opened_none
    {stop child : Stop}
    (quiet : stop.opened tree = none)
    (isChild : child ∈ below tree stop) :
    below tree child = [] ∧ child.opened tree = none := by
  unfold below at isChild
  split at isChild
  · rw [Stop.opened, Option.map_eq_none_iff] at quiet
    rw [quiet] at isChild
    rw [List.mem_singleton.mp isChild]
    exact ⟨rfl, rfl⟩
  · cases isChild

theorem Tracks.weaken
    {top higher : Location}
    {stop : Stop}
    (tracks : Tracks tree startDir top stop)
    (isHigher : higher <:+ top) :
    Tracks tree startDir higher stop := by
  rcases tracks with quiet | ⟨path, location, listing, rfl, reached, isDir, at_⟩
  · exact .inl quiet
  · exact .inr ⟨path, location, listing, rfl, reached, isDir,
      isHigher.trans at_⟩

theorem stopAt_tracks
    (nowhere : CutsLeadNowhere tree startDir)
    (reached : Reached tree startDir path location)
    (isParent : tree.node location = some (.directory listing))
    (member : dName ∈ listing)
    (noDots : ¬IsDots dName) :
    Tracks tree startDir (dName :: location) (stopAt tree path dName) := by
  unfold stopAt
  dsimp only
  split
  · exact .inl rfl
  rename_i object sb found
  cases opened : (Stop.object (snprintf pathMax (path ++ slash :: dName))
      object sb).opened tree with
  | none => exact .inl opened
  | some directory =>
      obtain ⟨rfl, isDir, readable⟩ := (opened_object found).mp opened
      right
      cases sb with
      | link | regular | other => cases isDir
      | directory entries =>
          by_cases fits : (path ++ slash :: dName).length < pathMax
          · rw [snprintf_of_fits fits] at found ⊢
            obtain ⟨rfl, searchable, isDirectory⟩ :=
              (lstat_entry_iff (reached.found isParent) member noDots
                fits).mp found
            exact ⟨_, _, _, rfl,
              .entry reached isParent searchable member noDots fits isDirectory
                readable,
              isDirectory, List.suffix_refl _⟩
          · exact absurd ⟨directory, entries, found, readable⟩
              (nowhere path location listing dName reached isParent member
                noDots (Nat.not_lt.mp fits))

theorem Tracks.child
    {top : Location}
    {stop child : Stop}
    (nowhere : CutsLeadNowhere tree startDir)
    (tracks : Tracks tree startDir top stop)
    (isChild : child ∈ below tree stop) :
    Tracks tree startDir top child := by
  rcases tracks with quiet | ⟨path, location, listing, rfl, reached, isDir, at_⟩
  · exact .inl (below_of_opened_none quiet isChild).2
  · rw [below_readable (reached.found isDir) reached.readable, mem_stops]
      at isChild
    obtain ⟨dName, member, noDots, rfl⟩ := isChild
    exact (stopAt_tracks nowhere reached isDir member noDots).weaken
      (at_.trans (List.suffix_cons _ _))

theorem Tracks.leads
    {top : Location}
    {stop other : Stop}
    (nowhere : CutsLeadNowhere tree startDir)
    (tracks : Tracks tree startDir top stop)
    (leads : Leads (below tree) stop other) :
    Tracks tree startDir top other := by
  induction leads with
  | refl => exact tracks
  | tail _ isChild inductionHypothesis =>
      exact inductionHypothesis.child nowhere isChild

theorem Tracks.suffix
    {top opened : Location}
    {stop : Stop}
    (tracks : Tracks tree startDir top stop)
    (isOpened : stop.opened tree = some opened) :
    top <:+ opened := by
  rcases tracks with quiet | ⟨path, location, listing, rfl, reached, isDir, at_⟩
  · rw [quiet] at isOpened
    cases isOpened
  · obtain ⟨rfl, -⟩ := (opened_object (reached.found isDir)).mp isOpened
    exact at_

theorem ends_of_opened_none
    {stop : Stop}
    (quiet : stop.opened tree = none) :
    Ends (below tree) stop := by
  refine .intro _ fun child isChild => .intro _ fun other isOther => ?_
  rw [Child, (below_of_opened_none quiet isChild).1] at isOther
  cases isOther

/-- The walk goes on below reached directories only, and each of them is deeper
in the tree than the one above. -/
theorem ends_of_reached
    (nowhere : CutsLeadNowhere tree startDir)
    (reached : Reached tree startDir path location)
    (isDirectory : tree.node location = some (.directory listing)) :
    Ends (below tree) (.object path location (.directory listing)) := by
  obtain ⟨rest, enough⟩ : ∃ rest, tree.depth < location.length + rest :=
    ⟨tree.depth + 1, by omega⟩
  induction rest generalizing path location listing with
  | zero =>
      have bounded := tree.bounded location (by rw [isDirectory]; simp)
      omega
  | succ rest inductionHypothesis =>
      refine .intro _ fun child isChild => ?_
      rw [Child, below_readable (reached.found isDirectory) reached.readable,
        mem_stops] at isChild
      obtain ⟨dName, member, noDots, rfl⟩ := isChild
      rcases stopAt_tracks nowhere reached isDirectory member noDots with
        quiet | ⟨_, deeper, _, isObject, reachedChild, isDir, under⟩
      · exact ends_of_opened_none quiet
      · rw [isObject]
        have longer := under.length_le
        rw [List.length_cons] at longer
        exact inductionHypothesis reachedChild isDir (by omega)

theorem Tracks.ends
    {top : Location}
    {stop : Stop}
    (nowhere : CutsLeadNowhere tree startDir)
    (tracks : Tracks tree startDir top stop) :
    Ends (below tree) stop := by
  rcases tracks with quiet | ⟨path, location, listing, rfl, reached, isDir, -⟩
  · exact ends_of_opened_none quiet
  · exact ends_of_reached nowhere reached isDir

/-- Main starts at a reached directory, unless it opens nothing. -/
theorem start_tracks
    {sb : Node}
    (found : tree.lstat startDir = some (location, sb)) :
    Tracks tree startDir location (.object startDir location sb) := by
  cases opened : (Stop.object startDir location sb).opened tree with
  | none => exact .inl opened
  | some directory =>
      obtain ⟨rfl, isDir, readable⟩ := (opened_object found).mp opened
      cases sb with
      | link | regular | other => cases isDir
      | directory listing =>
          exact .inr ⟨_, _, _, rfl, .start found readable,
            (lstat_eq_some_iff.mp found).2, List.suffix_refl _⟩

/-- Two places do not open the same directory. -/
def OpenDifferent (tree : Tree) (first second : Stop) : Prop :=
  ∀ opened, first.opened tree = some opened →
    second.opened tree ≠ some opened

/-- The subtrees of different entries have no directory in common. -/
theorem apart_entries
    {first second : List UInt8}
    (nowhere : CutsLeadNowhere tree startDir)
    (reached : Reached tree startDir path location)
    (isParent : tree.node location = some (.directory listing))
    (firstMember : first ∈ listing)
    (firstNoDots : ¬IsDots first)
    (secondMember : second ∈ listing)
    (secondNoDots : ¬IsDots second)
    (different : first ≠ second) :
    Apart (below tree) (OpenDifferent tree) (stopAt tree path first)
      (stopAt tree path second) := by
  intro left right leadsLeft leadsRight opened leftOpened rightOpened
  have underFirst := ((stopAt_tracks nowhere reached isParent firstMember
    firstNoDots).leads nowhere leadsLeft).suffix leftOpened
  have underSecond := ((stopAt_tracks nowhere reached isParent secondMember
    secondNoDots).leads nowhere leadsRight).suffix rightOpened
  have same : first :: location = second :: location :=
    (List.suffix_of_suffix_length_le underFirst underSecond
      (Nat.le_refl _)).eq_of_length rfl
  exact different (List.cons.inj same).1

/-- The places below one place have no directory in common. -/
theorem Tracks.children_apart
    {top : Location}
    {stop : Stop}
    (nowhere : CutsLeadNowhere tree startDir)
    (tracks : Tracks tree startDir top stop) :
    (below tree stop).Pairwise (Apart (below tree) (OpenDifferent tree)) := by
  rcases tracks with quiet | ⟨path, location, listing, rfl, reached, isDir, -⟩
  · apply List.pairwise_of_forall_mem_list
    intro child isChild _ _ left _ leads _ opened isOpened
    obtain ⟨nothingBelow, nothingOpened⟩ := below_of_opened_none quiet isChild
    rcases leads.cases_head with rfl | ⟨other, isOther, -⟩
    · rw [nothingOpened] at isOpened
      cases isOpened
    · rw [Child, nothingBelow] at isOther
      cases isOther
  · apply below_pairwise (reached.found isDir) reached.readable
    intro first firstMember firstNoDots second secondMember secondNoDots
    exact apart_entries nowhere reached isDir firstMember firstNoDots
      secondMember secondNoDots

/-- A directory is not opened again below. -/
theorem Tracks.above
    {top : Location}
    {stop child other : Stop}
    (nowhere : CutsLeadNowhere tree startDir)
    (tracks : Tracks tree startDir top stop)
    (isChild : child ∈ below tree stop)
    (leads : Leads (below tree) child other) :
    OpenDifferent tree stop other := by
  intro opened stopOpened otherOpened
  rcases tracks with quiet | ⟨path, location, listing, rfl, reached, isDir, -⟩
  · rw [quiet] at stopOpened
    cases stopOpened
  · obtain ⟨rfl, -⟩ := (opened_object (reached.found isDir)).mp stopOpened
    rw [below_readable (reached.found isDir) reached.readable, mem_stops]
      at isChild
    obtain ⟨dName, member, noDots, rfl⟩ := isChild
    have under := ((stopAt_tracks nowhere reached isDir member noDots).leads
      nowhere leads).suffix otherOpened
    exact absurd under.length_le (Nat.not_succ_le_self _)

/-- No directory is opened twice. -/
theorem opened_nodup
    {sb : Node}
    {visited : List Stop}
    (nowhere : CutsLeadNowhere tree startDir)
    (found : tree.lstat startDir = some (location, sb))
    (visits : Visits (below tree) [.object startDir location sb] visited) :
    (visited.filterMap (Stop.opened tree)).Nodup := by
  have tracks : ∀ stop ∈ visited, Tracks tree startDir location stop := by
    intro stop member
    obtain ⟨start, isStart, leads⟩ := visits.mem_iff.mp member
    rw [List.mem_singleton.mp isStart] at leads
    exact (start_tracks found).leads nowhere leads
  have different : visited.Pairwise (OpenDifferent tree) := by
    apply visits.pairwise
    · intro stop member child isChild other leads
      exact (tracks stop member).above nowhere isChild leads
    · intro stop member
      exact (tracks stop member).children_apart nowhere
    · exact List.pairwise_singleton _ _
  rw [List.Nodup, List.pairwise_filterMap]
  refine different.imp fun openDifferent opened first again second same => ?_
  rw [same] at first
  exact openDifferent _ first second

/-- Where no cut path leads to a directory, the walk ends and opens no
directory twice. -/
theorem endsOnce_of_nowhere
    (opts : Options)
    (nowhere : CutsLeadNowhere tree startDir) :
    EndsOnce tree opts startDir := by
  intro memory
  cases found : tree.lstat startDir with
  | none =>
      refine ⟨0, fun depth _ =>
        ⟨.exited (WalkState.start.report (.lstat startDir)), ?_,
          List.nodup_nil⟩⟩
      rw [collect, found]
  | some start =>
      obtain ⟨location, sb⟩ := start
      obtain ⟨visited, visits⟩ :=
        exists_visits ((start_tracks found).ends nowhere)
      obtain ⟨least, goes⟩ := collect_of_visits found visits
      have nodup := opened_nodup nowhere found visits
      refine ⟨least, fun depth enough => ?_⟩
      obtain ⟨outcome, ran, follows⟩ := goes depth enough
      refine ⟨outcome, ran, ?_⟩
      cases outcome with
      | returned after =>
          rw [Outcome.state, follows.entered]
          exact nodup
      | exited after =>
          obtain ⟨-, seen, before, entered⟩ := follows
          rw [Outcome.state, entered]
          exact nodup.sublist (before.sublist.filterMap _)

/-! ## Where something is cut to a directory -/

theorem Reached.start_found
    (reached : Reached tree startDir path location) :
    ∃ here sb, tree.lstat startDir = some (here, sb) := by
  induction reached with
  | start found _ => exact ⟨_, _, found⟩
  | entry _ _ _ _ _ _ _ _ inductionHypothesis => exact inductionHypothesis

/-- The walk comes to every reached directory. -/
theorem leads_reached
    {here : Location}
    {sb : Node}
    (start : tree.lstat startDir = some (here, sb))
    (reached : Reached tree startDir path location)
    (isDirectory : tree.node location = some (.directory listing)) :
    Leads (below tree) (.object startDir here sb)
      (.object path location (.directory listing)) := by
  induction reached generalizing listing with
  | start found _ =>
      rw [start] at found
      cases found
      have same := (lstat_eq_some_iff.mp start).2
      rw [isDirectory] at same
      cases same
      exact .refl
  | entry parent isParent searchable member noDots fits _ _
      inductionHypothesis =>
      have found := parent.found isParent
      refine (inductionHypothesis isParent).tail ?_
      rw [Child, below_readable found parent.readable, mem_stops]
      exact ⟨_, member, noDots, stopAt_of_found (snprintf_of_fits fits)
        ((lstat_entry_iff found member noDots fits).mpr
          ⟨rfl, searchable, isDirectory⟩)⟩

/-- With all memory granted, a walk that ends and opens no directory twice is a
finished descent. -/
theorem EndsOnce.visits
    {here : Location}
    {sb : Node}
    (endsOnce : EndsOnce tree opts startDir)
    (found : tree.lstat startDir = some (here, sb)) :
    ∃ visited, Visits (below tree) [.object startDir here sb] visited ∧
      (visited.filterMap (Stop.opened tree)).Nodup := by
  have granted : ∀ request : Nat, (fun _ : Nat => true) request = true :=
    fun _ => rfl
  obtain ⟨least, ends⟩ := endsOnce fun _ => true
  obtain ⟨_, ran, -⟩ := ends least (Nat.le_refl _)
  obtain ⟨visited, visits⟩ := visits_of_collect granted found ran
  obtain ⟨enough, goes⟩ := collect_of_visits found visits
  obtain ⟨outcome, ran, nodup⟩ := ends (max least enough) (Nat.le_max_left _ _)
  obtain ⟨again, ranAgain, follows⟩ :=
    goes (max least enough) (Nat.le_max_right _ _)
  rw [ran] at ranAgain
  cases ranAgain
  refine ⟨visited, visits, ?_⟩
  cases outcome with
  | returned after =>
      rw [Outcome.state, follows.entered] at nodup
      exact nodup
  | exited after =>
      obtain ⟨⟨request, -, refused⟩, -⟩ := follows
      cases refused

/-- Two entries with the same path are opened twice. -/
theorem not_nodup_of_twice
    {first second : List UInt8}
    {stop : Stop}
    {opened : Location}
    (nodup : ((stops tree path listing).filterMap (Stop.opened tree)).Nodup)
    (firstMember : first ∈ listing)
    (firstNoDots : ¬IsDots first)
    (secondMember : second ∈ listing)
    (secondNoDots : ¬IsDots second)
    (firstStop : stopAt tree path first = stop)
    (secondStop : stopAt tree path second = stop)
    (isOpened : stop.opened tree = some opened) :
    first = second := by
  let Different (left right : List UInt8) : Prop :=
    ∀ opened, (stopAt tree path left).opened tree = some opened →
      ∀ again, (stopAt tree path right).opened tree = some again →
        opened ≠ again
  have symm : Std.Symm Different :=
    ⟨fun _ _ different opened isOpened again isAgain same =>
      different again isAgain opened isOpened same.symm⟩
  have different : (listing.filter fun dName => ¬IsDots dName).Pairwise
      Different := by
    rw [stops, List.Nodup, List.filterMap_map, List.pairwise_filterMap] at nodup
    exact nodup
  by_contra distinct
  have apart := different.forall
    (List.mem_filter.mpr ⟨firstMember, by simpa using firstNoDots⟩)
    (List.mem_filter.mpr ⟨secondMember, by simpa using secondNoDots⟩) distinct
  rw [← firstStop] at isOpened
  exact apart opened isOpened opened
    (by rw [secondStop, ← firstStop]; exact isOpened) rfl

/-- A cut path has one byte less than the buffer. -/
theorem length_cut
    (long : pathMax ≤ path.length) :
    (snprintf pathMax path).length = pathMax - 1 := by
  rw [snprintf, List.length_take]
  omega

/-- The directory that a cut path leads to has no entries: their paths are cut
to the same bytes. -/
theorem no_entries_of_cut
    {visited pending : List Stop}
    {cut : List UInt8}
    (visits : Visits (below tree) pending visited)
    (found : tree.lstat cut = some (location, .directory listing))
    (readable : tree.readable location = true)
    (visitsCut : Stop.object cut location (.directory listing) ∈ visited)
    (full : cut.length = pathMax - 1)
    (member : dName ∈ listing) :
    IsDots dName := by
  by_contra noDots
  apply visits.not_child_self visitsCut
  rw [Child, below_readable found readable, mem_stops]
  refine ⟨dName, member, noDots, stopAt_of_found ?_ found⟩
  rw [snprintf, ← full]
  exact List.take_left

/-- What a cut path leads to, if that is a directory without entries: another
entry of the same directory. -/
theorem entry_of_cut
    {object : Location}
    {entries : List (List UInt8)}
    (found : tree.lstat path = some (location, .directory listing))
    (member : dName ∈ listing)
    (noDots : ¬IsDots dName)
    (long : pathMax ≤ (path ++ slash :: dName).length)
    (cutFound : tree.lstat (snprintf pathMax (path ++ slash :: dName)) =
      some (object, .directory entries))
    (noEntries : ∀ name ∈ entries, IsDots name) :
    ∃ other ∈ listing, ¬IsDots other ∧ other ≠ dName ∧
      stopAt tree path other =
        .object (snprintf pathMax (path ++ slash :: dName)) object
          (.directory entries) := by
  have full := length_cut long
  obtain ⟨resolved, isParent⟩ := lstat_eq_some_iff.mp found
  obtain ⟨-, pathShort, -⟩ := resolve_eq_some_iff.mp resolved
  obtain ⟨-, isObject⟩ := lstat_eq_some_iff.mp cutFound
  have notHere : object ≠ location := by
    rintro rfl
    rw [isParent] at isObject
    cases isObject
    exact noDots (noEntries dName member)
  by_cases nothingFits : path.length = pathMax - 1
  · have same : snprintf pathMax (path ++ slash :: dName) = path := by
      rw [snprintf, ← nothingFits]
      exact List.take_left
    rw [same, found] at cutFound
    cases cutFound
    exact absurd rfl notHere
  obtain ⟨rest, restEq⟩ : ∃ rest, pathMax - 1 = path.length + (rest + 1) :=
    ⟨pathMax - 1 - path.length - 1, by omega⟩
  have cutEq : snprintf pathMax (path ++ slash :: dName) =
      path ++ slash :: dName.take rest := by
    rw [snprintf, restEq, List.take_length_add_append, List.take_succ_cons]
  rw [cutEq] at full cutFound ⊢
  have isName := isName_of_entry isParent member noDots
  have unseparated : slash ∉ dName.take rest := fun inside =>
    isName.component.unseparated (List.mem_of_mem_take inside)
  have fits : (path ++ slash :: dName.take rest).length < pathMax := by
    rw [full]
    decide
  have looked := cutFound
  rw [lstat_append found fits unseparated, Option.bind_eq_some_iff] at looked
  obtain ⟨next, lookup, present⟩ := looked
  obtain ⟨_, -, same⟩ := Option.map_eq_some_iff.mp present
  cases same
  rcases lookup_cases lookup with here | up | ⟨isEntry, -, otherNoDots, present⟩
  · exact absurd here notHere
  · exfalso
    cases location with
    | nil => exact notHere up
    | cons name above =>
        rw [List.tail_cons] at up
        subst up
        obtain ⟨_, isAbove, nameMember, nameNoDots⟩ :=
          (tree.child name _).mp (by rw [isParent]; simp)
        rw [isObject] at isAbove
        cases isAbove
        exact nameNoDots (noEntries name nameMember)
  · rw [isEntry] at present
    obtain ⟨_, isDirectory, otherMember, -⟩ := (tree.child _ _).mp present
    rw [isParent] at isDirectory
    cases isDirectory
    refine ⟨_, otherMember, otherNoDots, ?_,
      stopAt_of_found (snprintf_of_fits fits) cutFound⟩
    intro same
    rw [same] at full
    omega

/-- A cut path that leads to a directory makes the walk go on for ever, or open
the directory twice. -/
theorem not_endsOnce_of_cut
    (reached : Reached tree startDir path location)
    (isDirectory : tree.node location = some (.directory listing))
    (member : dName ∈ listing)
    (noDots : ¬IsDots dName)
    (long : pathMax ≤ (path ++ slash :: dName).length)
    (leadsTo : LeadsToDirectory tree
      (snprintf pathMax (path ++ slash :: dName))) :
    ¬EndsOnce tree opts startDir := by
  intro endsOnce
  obtain ⟨here, sb, start⟩ := reached.start_found
  obtain ⟨visited, visits, nodup⟩ := endsOnce.visits start
  obtain ⟨object, entries, cutFound, readable⟩ := leadsTo
  have found := reached.found isDirectory
  have visitsParent :
      Stop.object path location (.directory listing) ∈ visited :=
    visits.mem_iff.mpr
      ⟨_, .head _, leads_reached start reached isDirectory⟩
  have belowSublist := visits.children_sublist visitsParent
  rw [below_readable found reached.readable] at belowSublist
  have cutStop := stopAt_of_found rfl cutFound
  have visitsCut := belowSublist.subset
    (mem_stops.mpr ⟨dName, member, noDots, cutStop⟩)
  have noEntries : ∀ name ∈ entries, IsDots name := fun _ =>
    no_entries_of_cut visits cutFound readable visitsCut (length_cut long)
  obtain ⟨other, otherMember, otherNoDots, different, otherStop⟩ :=
    entry_of_cut found member noDots long cutFound noEntries
  exact different (not_nodup_of_twice
    (nodup.sublist (belowSublist.filterMap _)) otherMember otherNoDots member
    noDots otherStop cutStop
    ((opened_object cutFound).mpr ⟨rfl, rfl, readable⟩))

/-- For every tree, every start and every combination of options: the walk ends
and opens no directory twice, whatever the memory grants, exactly when no path
of an entry of a reached directory that is too long for the buffer leads to a
directory after it has been cut. -/
theorem endsOnce_iff
    (tree : Tree)
    (opts : Options)
    (startDir : List UInt8) :
    EndsOnce tree opts startDir ↔ CutsLeadNowhere tree startDir := by
  constructor
  · intro endsOnce path location listing dName reached isDirectory member
      noDots long leadsTo
    exact not_endsOnce_of_cut reached isDirectory member noDots long leadsTo
      endsOnce
  · exact endsOnce_of_nowhere opts

end Places

/-! ## A directory whose path nearly fills the buffer -/

/-- Every directory of a chain is reached while its path fits. -/
theorem chain_reached
    {bottom location : Location}
    {last : Node}
    {name : List UInt8}
    (notDirectory : last.isDir = false)
    (names : ∀ name ∈ bottom, IsName name)
    (under : name :: location <:+ bottom)
    (fits : (ascii "./" ++ render slash location.reverse).length < pathMax) :
    Reached (chainTree bottom last notDirectory names) (ascii "./")
      (ascii "./" ++ render slash location.reverse) location := by
  have isDirectory : ∀ name location, name :: location <:+ bottom →
      (chainTree bottom last notDirectory names).node location =
        some (.directory [name]) :=
    fun name _ under => chainNode_eq_some_iff.mpr (.inr ⟨name, under, rfl⟩)
  induction location generalizing name with
  | nil =>
      exact .start (lstat_dotSlash (isDirectory name [] under) rfl) rfl
  | cons dName above inductionHypothesis =>
      have isEntry := (List.suffix_cons name _).trans under
      have pathEq : ascii "./" ++ render slash (dName :: above).reverse =
          (ascii "./" ++ render slash above.reverse) ++ slash :: dName := by
        rw [List.reverse_cons, render_append, List.append_assoc]
        simp
      rw [pathEq] at fits ⊢
      have shorter : (ascii "./" ++ render slash above.reverse).length <
          pathMax := by
        rw [List.length_append] at fits
        omega
      exact .entry (inductionHypothesis isEntry shorter)
        (isDirectory dName above isEntry) rfl (.head _)
        (names dName (isEntry.subset (.head _))).noDots fits
        (isDirectory name _ under) rfl

/-- Only the slash behind the path of the last directory fits, and it leads back
to this directory. -/
theorem chain_not_endsOnce
    {bottom : Location}
    {last : Node}
    {name : List UInt8}
    (opts : Options)
    (notDirectory : last.isDir = false)
    (names : ∀ object ∈ name :: bottom, IsName object)
    (length : (ascii "./" ++ render slash bottom.reverse).length =
      pathMax - 2) :
    ¬EndsOnce (chainTree (name :: bottom) last notDirectory names) opts
      (ascii "./") := by
  have under : name :: bottom <:+ name :: bottom := List.suffix_refl _
  have reached := chain_reached notDirectory names under
    (by rw [length]; decide)
  generalize treeEq : chainTree (name :: bottom) last notDirectory names = tree
    at reached
  have isDirectory : tree.node bottom = some (.directory [name]) := by
    rw [← treeEq]
    exact chainNode_eq_some_iff.mpr (.inr ⟨name, under, rfl⟩)
  have isName := names name (.head _)
  generalize ascii "./" ++ render slash bottom.reverse = path
    at length reached
  have full : (path ++ [slash]).length = pathMax - 1 := by
    rw [List.length_append, length]
    rfl
  have cutEq : snprintf pathMax (path ++ slash :: name) = path ++ [slash] := by
    rw [snprintf, List.append_cons, ← full]
    exact List.take_left
  have leadsBack : tree.lstat (path ++ [slash]) =
      some (bottom, .directory [name]) := by
    have stays : tree.lookup bottom [] = some bottom := by
      rw [Tree.lookup,
        if_neg (not_not.mpr (isDirectory_of_node isDirectory)), if_pos rfl]
    rw [lstat_append (reached.found isDirectory) (by rw [full]; decide)
      List.not_mem_nil, stays, Option.bind_some, isDirectory]
    rfl
  apply not_endsOnce_of_cut reached isDirectory (.head _) isName.noDots
  · have nonempty := List.length_pos_iff.mpr isName.component.nonempty
    rw [List.length_append, List.length_cons, length]
    simp only [pathMax]
    omega
  · rw [cutEq]
    exact ⟨bottom, [name], leadsBack, reached.readable⟩

theorem isName_replicate
    {count : Nat}
    (longerThanDots : 2 < count)
    (short : count ≤ nameMax) :
    IsName (List.replicate count 97) where
  component := by
    constructor
    · rw [ne_eq, List.replicate_eq_nil_iff]
      omega
    · rw [List.mem_replicate]
      exact fun both => absurd both.2 (by decide)
  unterminated := by
    rw [List.mem_replicate]
    exact fun both => absurd both.2 (by decide)
  short := by
    rw [List.length_replicate]
    exact short
  noDots := by
    rintro (same | same) <;>
      · have length := congrArg List.length same
        rw [List.length_replicate] at length
        simp [ascii] at length
        omega

/-- Sixteen directories, fifteen of which have names of 255 bytes and the last
one a name of 251 bytes, so that its path has 4094 bytes. -/
def deepDirectory : Location :=
  List.replicate 251 97 :: List.replicate 15 (List.replicate 255 97)

/-- They contain the file `b`. -/
theorem deepFile_names :
    ∀ name ∈ [98] :: deepDirectory, IsName name := by
  intro name member
  rcases List.mem_cons.mp member with rfl | member
  · decide
  · rcases List.mem_cons.mp member with rfl | member
    · exact isName_replicate (by decide) (by decide)
    · rw [(List.mem_replicate.mp member).2]
      exact isName_replicate (by decide) (by decide)

theorem length_deepDirectory :
    (ascii "./" ++ render slash deepDirectory.reverse).length =
      pathMax - 2 := by
  have names : deepDirectory.reverse =
      List.replicate 15 (List.replicate 255 97) ++
        [List.replicate 251 97] := by
    rw [deepDirectory, List.reverse_cons, List.reverse_replicate]
  rw [names, render, List.length_append, List.length_flatMap, List.map_append,
    List.map_replicate, List.map_singleton, List.length_cons, List.length_cons,
    List.length_replicate, List.length_replicate]
  decide

/-- The file `b` in the last of these directories keeps the walk from ending. -/
theorem deepFile_not_endsOnce :
    ¬EndsOnce (chainTree ([98] :: deepDirectory) .regular rfl deepFile_names)
      ⟨false, false, false, false⟩ (ascii "./") :=
  chain_not_endsOnce _ rfl deepFile_names length_deepDirectory

end DirWalk
end OSaSP
