import OSaSP.Foundations.CanonicalPaths
import OSaSP.FileServer.Session

/-!
# What `LIST` prints

The entries of a directory, as `handle_list` prints them from a tree of
directories, files and symbolic links.  Whether the target of a link is a link
itself is asked of a path that `realpath` has already followed to its end, so a
link to a link is printed like any other, if at all.

What is owed to a link depends on its immediate target in the file system: the
object that its text names from the directory of the link, or from the top of
the file system if it begins with a slash.  The server reads a link text as it
reads the arguments of commands, so it looks for one that begins with a slash
below its own root.
-/

namespace OSaSP
namespace FileServer

open CString PosixTree RenderedPath

/-- The canonical path of a location. -/
def canonicalAt (location : Location) : Option CanonicalPath :=
  if names : ∀ name ∈ location.reverse, IsName name then
    some ⟨location.reverse, names⟩
  else none

/-- The type of an object. -/
def kindOf : Node → FileKind
  | .directory _ => .directory
  | .link _ => .link
  | .regular | .other => .other

/-- What the system calls show of a tree. -/
def fileTree (tree : Tree) : FileTree where
  resolve path := (tree.resolve true path).bind canonicalAt
  opendir path := (tree.opendir path).map Prod.snd
  lstat path := (tree.lstat path).map fun found => kindOf found.2
  readlink path :=
    match tree.lstat path with
    | some (_, .link target) => some target
    | _ => none

/-- The path that `build_path` puts together for a target: from the root if it
begins with a slash, otherwise from the current directory. -/
def targetPath (root cwd target : List UInt8) : List UInt8 :=
  if target.head? = some slash then root ++ target
  else root ++ [slash] ++ cwd ++ [slash] ++ target

/-- A directory that `handle_list` can open, with its entries. -/
structure ServedDirectory (tree : Tree) where
  root : CanonicalPath
  cwd : List UInt8
  location : Location
  names : List (List UInt8)
  leads : tree.resolve true (targetPath root.text cwd (ascii ".")) =
    some location
  short : (pathText location).length < pathMax
  begins : root.text <+: pathText location
  listed : tree.node location = some (.directory names)
  readable : tree.readable location = true

namespace ServedDirectory

variable {tree : Tree} (served : ServedDirectory tree)

/-- The location is the root or below it. -/
def Inside (location : Location) : Prop :=
  served.root.components.reverse <:+ location

instance (location : Location) : Decidable (served.Inside location) :=
  inferInstanceAs (Decidable (_ <:+ _))

/-- The path under which the server looks for the target of a link. -/
def linkPath (linkto : List UInt8) : List UInt8 :=
  targetPath served.root.text served.cwd linkto

/-- How a link to an object inside the root is shown. -/
def arrowLine (name linkto : List UInt8) : Node → List UInt8
  | .link second => name ++ ascii " -->> " ++ second
  | _ => name ++ ascii " --> " ++ linkto

/-- The immediate target of a link in the directory, as the file system reads
its text: from the directory, or from the top if it begins with a slash. -/
def immediate (linkto : List UInt8) : Option (Location × Node) :=
  tree.objectFrom served.location linkto

/-- The line that is owed to a link, depending on its immediate target. -/
def linkLine (name linkto : List UInt8) : Option (List UInt8) :=
  match served.immediate linkto with
  | none => none
  | some (target, node) =>
      if served.Inside target then some (arrowLine name linkto node) else none

/-- The line that is owed to an entry; `.` and `..` have no object of their
own. -/
def expectedLine (name : List UInt8) : Option (List UInt8) :=
  match tree.node (name :: served.location) with
  | none => none
  | some (.directory _) => some (name ++ [slash])
  | some (.link linkto) => served.linkLine name linkto
  | some _ => some name

/-- The line that `handle_list` prints for an entry. -/
def entryLine (name : List UInt8) : Option (List UInt8) :=
  listEntry (fileTree tree) served.root.text served.cwd
    (pathText served.location) name

/-- The bytes that `handle_list` sends for an entry. -/
def printed (name : List UInt8) : List UInt8 :=
  (served.entryLine name).toList.flatMap fun line => line ++ [newline]

/-- `lstat` reaches the entry. -/
def Visible (name : List UInt8) : Prop :=
  tree.searchable served.location = true ∧
    (pathText served.location ++ slash :: name).length < pathMax

instance (name : List UInt8) : Decidable (served.Visible name) :=
  inferInstanceAs (Decidable (_ ∧ _))

/-- The path under which the server looks for the target of a link leads, by
`realpath`, to a path that begins with the root's. -/
def LeadsInside (linkto : List UInt8) : Prop :=
  ∃ final, tree.resolve true (served.linkPath linkto) = some final ∧
    (pathText final).length < pathMax ∧
    served.root.text <+: pathText final

/-- The text does not begin at the top of the file system. -/
def Relative (linkto : List UInt8) : Prop :=
  linkto ≠ [] ∧ linkto.head? ≠ some slash

/-- When a link is shown as it should be.  The immediate target is not a link
inside the root.  For a relative text, if the immediate target is anything else
inside the root, then the path under which the server looks for it names
something, so that there are not too many links on it, and it and the canonical
path of the target are short enough; and if the target is outside the root, the
path leads to none that begins with the root's.  For any other text the path
leads inside the root exactly if the immediate target is there. -/
structure LinkSound (linkto : List UInt8) : Prop where
  single : ∀ target second,
    served.immediate linkto = some (target, .link second) →
      ¬served.Inside target
  near : Relative linkto → ∀ target node,
    served.immediate linkto = some (target, node) →
      served.Inside target →
        tree.object (served.linkPath linkto) ≠ none ∧
          (served.linkPath linkto).length < pathMax ∧
          (pathText target).length < pathMax
  far : Relative linkto → ∀ target node,
    served.immediate linkto = some (target, node) →
      ¬served.Inside target → ¬served.LeadsInside linkto
  rooted : ¬Relative linkto →
    ((∃ target node, served.immediate linkto = some (target, node) ∧
        served.Inside target) ↔
      served.LeadsInside linkto)

/-- An entry that is owed a line is visible and its line is one, and a visible
link is sound. -/
structure EntrySound (name : List UInt8) : Prop where
  shown : ∀ line, served.expectedLine name = some line →
    served.Visible name ∧ newline ∉ line
  link : ∀ linkto, tree.node (name :: served.location) = some (.link linkto) →
    served.Visible name → served.LinkSound linkto

end ServedDirectory

/-! ## The calls of the system -/

section Calls

variable {tree : Tree} {location : Location}

theorem text_canonicalAt
    {path : CanonicalPath}
    (canonical : canonicalAt location = some path) :
    path.components = location.reverse ∧ path.text = pathText location := by
  unfold canonicalAt at canonical
  split at canonical
  · cases canonical
    refine ⟨rfl, ?_⟩
    by_cases top : location = []
    · subst top
      rfl
    · rw [pathText, if_neg top]
      exact CanonicalPath.text_of_ne_nil (mt List.reverse_eq_nil_iff.mp top)
  · cases canonical

theorem canonicalAt_of_passable (passable : tree.Passable location) :
    ∃ path, canonicalAt location = some path := by
  have names : ∀ name ∈ location.reverse, IsName name := by
    intro name member
    have isName := isName_of_passable passable name
      (List.mem_reverse.mp member)
    exact ⟨isName.component, isName.unterminated, not_or.mp isName.noDots⟩
  exact ⟨_, dif_pos names⟩

/-- What resolves has a canonical path, which `realpath` returns. -/
theorem resolve_fileTree_iff
    {path : List UInt8}
    (absolute : path.head? = some slash)
    (out : List UInt8) :
    (∃ canonical, (fileTree tree).resolve path = some canonical ∧
        out = canonical.text) ↔
      ∃ final, tree.resolve true path = some final ∧ out = pathText final := by
  constructor
  · rintro ⟨canonical, resolved, rfl⟩
    obtain ⟨final, leads, has⟩ := Option.bind_eq_some_iff.mp resolved
    exact ⟨final, leads, (text_canonicalAt has).2⟩
  · rintro ⟨final, leads, rfl⟩
    obtain ⟨canonical, has⟩ :=
      canonicalAt_of_passable (passable_of_resolve absolute leads)
    refine ⟨canonical, ?_, (text_canonicalAt has).2.symm⟩
    exact Option.bind_eq_some_iff.mpr ⟨final, leads, has⟩

theorem short_of_resolve
    (path : List UInt8)
    (canonical : CanonicalPath)
    (resolved : (fileTree tree).resolve path = some canonical) :
    path.length < pathMax := by
  obtain ⟨final, leads, _⟩ := Option.bind_eq_some_iff.mp resolved
  exact (resolve_eq_some_iff.mp leads).2.1

theorem composed_eq (root cwd target : List UInt8) :
    composed root cwd target =
      snprintf pathBuf (targetPath root cwd target) := by
  unfold composed targetPath
  split <;> rfl

theorem CanonicalPath.head_text (path : CanonicalPath) :
    path.text.head? = some slash := by
  unfold CanonicalPath.text
  split
  · rfl
  · rename_i notTop
    obtain ⟨first, rest, cut⟩ := List.exists_cons_of_ne_nil notTop
    rw [cut]
    rfl

theorem head_targetPath
    (root : CanonicalPath)
    (cwd target : List UInt8) :
    (targetPath root.text cwd target).head? = some slash := by
  have head := root.head_text
  obtain ⟨rest, cut⟩ := List.head?_eq_some_iff.mp head
  unfold targetPath
  rw [cut]
  split <;> rfl

/-- What `build_path` accepts. -/
theorem buildPath_fileTree_iff
    (root : CanonicalPath)
    (cwd target out : List UInt8) :
    buildPath (fileTree tree).toFileSystem root.text cwd target = some out ↔
      ∃ final, tree.resolve true (targetPath root.text cwd target) =
          some final ∧
        (pathText final).length < pathMax ∧ root.text <+: pathText final ∧
        out = pathText final := by
  have leads : ∀ out, _ ↔ ∃ final, tree.resolve true _ = some final ∧ _ :=
    resolve_fileTree_iff (head_targetPath root cwd target)
  rw [buildPath_eq_some_iff, composed_eq,
    FileSystem.resolve_snprintf short_of_resolve]
  constructor
  · rintro ⟨canonical, resolved, short, begins, rfl⟩
    obtain ⟨final, found, same⟩ := (leads _).mp ⟨canonical, resolved, rfl⟩
    rw [same] at short begins ⊢
    exact ⟨final, found, short, begins, rfl⟩
  · rintro ⟨final, found, short, begins, rfl⟩
    obtain ⟨canonical, resolved, same⟩ := (leads _).mpr ⟨final, found, rfl⟩
    rw [same] at short begins ⊢
    exact ⟨canonical, resolved, short, begins, rfl⟩

theorem length_le_targetPath (root cwd target : List UInt8) :
    target.length ≤ (targetPath root cwd target).length := by
  unfold targetPath
  split
  · rw [List.length_append]
    exact Nat.le_add_left _ _
  · rw [List.length_append]
    exact Nat.le_add_left _ _

/-- A target whose path resolves fits into the buffer for link texts. -/
theorem length_lt_of_resolve
    {root cwd target : List UInt8}
    {final : Location}
    (leads : tree.resolve true (targetPath root cwd target) = some final) :
    target.length < pathBuf - 1 := by
  have short := (resolve_eq_some_iff.mp leads).2.1
  have inside := length_le_targetPath root cwd target
  unfold pathBuf pathMax nameMax
  unfold PosixTree.pathMax at short
  omega

/-- What `realpath` returns is not a link. -/
theorem lstat_ne_link
    {path : List UInt8}
    (absolute : path.head? = some slash)
    (leads : tree.resolve true path = some location)
    (short : (pathText location).length < pathMax) :
    (fileTree tree).lstat (pathText location) ≠ some .link := by
  have passable := passable_of_resolve absolute leads
  have notLink := notLink_of_resolve leads
  obtain ⟨node, present⟩ := Option.ne_none_iff_exists'.mp passable.present
  change (tree.lstat _).map _ ≠ _
  cases node with
  | link target => exact absurd present (notLink target)
  | directory | regular | other =>
      rw [lstat_pathText passable present rfl short]
      exact nofun

end Calls

/-! ## What `handle_list` prints -/

namespace ServedDirectory

variable {tree : Tree} {served : ServedDirectory tree}
  {name linkto : List UInt8}

variable (served) in
theorem lstat_location :
    tree.lstat (pathText served.location) =
      some (served.location, .directory served.names) :=
  lstat_pathText
    (passable_of_resolve (head_targetPath _ _ _) served.leads)
    served.listed rfl served.short

variable (served) in
/-- The entries are printed one after the other. -/
theorem handleList_eq :
    handleList (fileTree tree) served.root.text served.cwd =
      served.names.filterMap served.entryLine := by
  have accepted : buildPath (fileTree tree).toFileSystem served.root.text
      served.cwd (ascii ".") = some (pathText served.location) :=
    (buildPath_fileTree_iff _ _ _ _).mpr
      ⟨served.location, served.leads, served.short, served.begins, rfl⟩
  have opened : (fileTree tree).opendir (pathText served.location) =
      some served.names := by
    change (tree.opendir _).map Prod.snd = _
    rw [opendir_of_lstat served.lstat_location, if_pos served.readable]
    rfl
  unfold handleList
  simp only [accepted, opened]
  rfl

theorem lstat_of_visible
    (member : name ∈ served.names)
    (noDots : ¬IsDots name)
    (visible : served.Visible name)
    {node : Node}
    (present : tree.node (name :: served.location) = some node) :
    tree.lstat (pathText served.location ++ slash :: name) =
      some (name :: served.location, node) :=
  (lstat_entry_iff served.lstat_location member noDots visible.2).mpr
    ⟨rfl, visible.1, present⟩

theorem lstat_of_not_visible
    (member : name ∈ served.names)
    (noDots : ¬IsDots name)
    (hidden : ¬served.Visible name) :
    tree.lstat (pathText served.location ++ slash :: name) = none := by
  by_contra found
  obtain ⟨⟨location, node⟩, found⟩ := Option.ne_none_iff_exists'.mp found
  have short := (resolve_eq_some_iff.mp (lstat_eq_some_iff.mp found).1).2.1
  have entry := (lstat_entry_iff served.lstat_location member noDots short).mp
    found
  exact hidden ⟨entry.2.1, short⟩

/-- What `lstat` says of the path that `handle_list` puts together. -/
theorem lstat_full (path name : List UInt8) :
    (fileTree tree).lstat (path ++ [slash] ++ name) =
      (tree.lstat (path ++ slash :: name)).map fun found =>
        kindOf found.2 := by
  rw [List.append_assoc]
  rfl

/-- The buffer is large enough for what can be looked at. -/
theorem fits_of_visible (visible : served.Visible name) :
    ¬pathBuf ≤ (pathText served.location ++ [slash] ++ name).length := by
  have short := visible.2
  rw [List.append_assoc, List.singleton_append]
  unfold pathBuf
  omega

/-- What cannot be looked at is not printed. -/
theorem entryLine_of_not_visible
    (member : name ∈ served.names)
    (noDots : ¬IsDots name)
    (hidden : ¬served.Visible name) :
    served.entryLine name = none := by
  have unseen : (fileTree tree).lstat
      (pathText served.location ++ [slash] ++ name) = none := by
    rw [lstat_full, lstat_of_not_visible member noDots hidden]
    rfl
  unfold entryLine listEntry
  rw [IsDots] at noDots
  rw [if_neg noDots]
  dsimp only
  split
  · rfl
  · rw [unseen]

/-- A link that can be looked at is printed if `build_path` accepts its
target. -/
theorem entryLine_of_link
    (member : name ∈ served.names)
    (noDots : ¬IsDots name)
    (visible : served.Visible name)
    (isLink : tree.node (name :: served.location) = some (.link linkto)) :
    (served.LeadsInside linkto →
      served.entryLine name = some (name ++ ascii " --> " ++ linkto)) ∧
      (¬served.LeadsInside linkto → served.entryLine name = none) := by
  have found := lstat_of_visible member noDots visible isLink
  have seen : (fileTree tree).lstat
      (pathText served.location ++ [slash] ++ name) = some .link := by
    rw [lstat_full, found]
    rfl
  have read : (fileTree tree).readlink
      (pathText served.location ++ [slash] ++ name) = some linkto := by
    unfold fileTree
    dsimp only
    rw [List.append_assoc, List.singleton_append, found]
  rw [IsDots] at noDots
  unfold entryLine listEntry
  rw [if_neg noDots]
  dsimp only
  rw [if_neg (fits_of_visible visible), seen]
  dsimp only
  rw [read]
  dsimp only
  constructor
  · rintro ⟨final, leads, short, begins⟩
    have uncut : linkto.take (pathBuf - 1) = linkto :=
      List.take_of_length_le (Nat.le_of_lt (length_lt_of_resolve leads))
    have accepted : buildPath (fileTree tree).toFileSystem served.root.text
        served.cwd linkto = some (pathText final) :=
      (buildPath_fileTree_iff _ _ _ _).mpr ⟨final, leads, short, begins, rfl⟩
    rw [uncut, accepted]
    exact if_neg (lstat_ne_link (head_targetPath _ _ _) leads short)
  · intro refused
    have rejected : buildPath (fileTree tree).toFileSystem served.root.text
        served.cwd (linkto.take (pathBuf - 1)) = none := by
      by_contra accepted
      obtain ⟨out, accepted⟩ := Option.ne_none_iff_exists'.mp accepted
      obtain ⟨final, leads, short, begins, -⟩ :=
        (buildPath_fileTree_iff _ _ _ _).mp accepted
      have uncut : linkto.take (pathBuf - 1) = linkto := by
        have inside := length_lt_of_resolve leads
        rw [List.length_take] at inside
        apply List.take_of_length_le
        omega
      rw [uncut] at leads
      exact refused ⟨final, leads, short, begins⟩
    rw [rejected]

/-- An entry that is not a link is printed as it should be. -/
theorem entryLine_of_notLink
    (member : name ∈ served.names)
    (noDots : ¬IsDots name)
    (visible : served.Visible name)
    {node : Node}
    (present : tree.node (name :: served.location) = some node)
    (notLink : node.isLnk = false) :
    served.entryLine name = served.expectedLine name := by
  have seen : (fileTree tree).lstat
      (pathText served.location ++ [slash] ++ name) = some (kindOf node) := by
    rw [lstat_full, lstat_of_visible member noDots visible present]
    rfl
  rw [IsDots] at noDots
  unfold entryLine listEntry expectedLine
  rw [if_neg noDots, present]
  dsimp only
  rw [if_neg (fits_of_visible visible), seen]
  cases node with
  | link target => cases notLink
  | directory | regular | other => rfl

/-- Whatever is inside the root has a path that begins with the root's. -/
theorem begins_of_inside
    {target : Location}
    (passable : tree.Passable target)
    (inside : served.Inside target) :
    served.root.text <+: pathText target := by
  obtain ⟨path, canonical⟩ := canonicalAt_of_passable passable
  obtain ⟨components, text⟩ := text_canonicalAt canonical
  by_cases top : served.root.components = []
  · have head : (pathText target).head? = some slash := head_pathText
    obtain ⟨rest, cut⟩ := List.head?_eq_some_iff.mp head
    rw [CanonicalPath.text, top, cut]
    exact ⟨rest, rfl⟩
  · have below : served.root.components <+: path.components := by
      rw [components, ← List.reverse_suffix, List.reverse_reverse]
      exact inside
    rw [← text]
    rcases (confined_iff top path).mpr below with same | begins
    · rw [same]
    · exact (List.prefix_append _ _).trans begins

/-- Where the server finds anything for a relative text, it is the immediate
target. -/
theorem immediate_of_object
    (relative : Relative linkto)
    {found : Location × Node}
    (named : tree.object (served.linkPath linkto) = some found) :
    served.immediate linkto = some found := by
  have head : (served.root.text ++ [slash] ++ served.cwd).head? =
      some slash := by
    obtain ⟨inner, cut⟩ := List.head?_eq_some_iff.mp served.root.head_text
    rw [cut]
    rfl
  have below : ∀ target : List UInt8, target.head? ≠ some slash →
      targetPath served.root.text served.cwd target =
        served.root.text ++ [slash] ++ served.cwd ++ slash :: target := by
    intro target notRooted
    rw [targetPath, if_neg notRooted, List.append_assoc _ [slash]]
    rfl
  have leads := served.leads
  rw [below _ (by decide)] at leads
  rw [linkPath, below _ relative.2] at named
  exact objectFrom_of_object head relative leads named

/-- A target inside the root that is not a link is found under a relative text
if the path is not too long, as a text and in its links. -/
theorem leadsInside_iff_of_inside
    {target : Location}
    {node : Node}
    (relative : Relative linkto)
    (targets : served.immediate linkto = some (target, node))
    (notLink : node.isLnk = false)
    (inside : served.Inside target) :
    served.LeadsInside linkto ↔
      tree.object (served.linkPath linkto) ≠ none ∧
        (served.linkPath linkto).length < pathMax ∧
        (pathText target).length < pathMax := by
  have absolute : (served.linkPath linkto).head? = some slash :=
    head_targetPath _ _ _
  cases named : tree.object (served.linkPath linkto) with
  | none =>
      refine iff_of_false ?_ (fun all => all.1 rfl)
      rintro ⟨final, leads, _⟩
      cases (resolve_of_no_object absolute named).symm.trans leads
  | some found =>
      obtain rfl : found = (target, node) := Option.some.inj
        ((immediate_of_object relative named).symm.trans targets)
      simp only [ne_eq, reduceCtorEq, not_false_eq_true, true_and]
      constructor
      · rintro ⟨final, leads, short, _⟩
        obtain ⟨pathShort, rfl⟩ :=
          (resolve_of_object absolute named notLink).mp leads
        exact ⟨pathShort, short⟩
      · rintro ⟨pathShort, short⟩
        have leads := (resolve_of_object absolute named notLink).mpr
          ⟨pathShort, rfl⟩
        exact ⟨target, leads, short,
          begins_of_inside (passable_of_resolve absolute leads) inside⟩

/-- Under a relative text that names nothing the server finds nothing. -/
theorem not_leadsInside_of_nothing
    (relative : Relative linkto)
    (nothing : served.immediate linkto = none) :
    ¬served.LeadsInside linkto := by
  rintro ⟨final, leads, _⟩
  have absolute : (served.linkPath linkto).head? = some slash :=
    head_targetPath _ _ _
  cases named : tree.object (served.linkPath linkto) with
  | none => cases (resolve_of_no_object absolute named).symm.trans leads
  | some found =>
      cases nothing.symm.trans (immediate_of_object relative named)

/-- A link without a target is sound if the server finds none. -/
theorem linkSound_iff_of_nothing
    (nothing : served.immediate linkto = none) :
    served.LinkSound linkto ↔ ¬served.LeadsInside linkto := by
  have unnamed : ∀ found, served.immediate linkto ≠ some found :=
    fun _ some => nomatch nothing.symm.trans some
  constructor
  · intro sound leads
    by_cases relative : Relative linkto
    · exact not_leadsInside_of_nothing relative nothing leads
    · obtain ⟨_, _, targets, _⟩ := (sound.rooted relative).mpr leads
      exact unnamed _ targets
  · intro refused
    refine ⟨?_, ?_, ?_, ?_⟩
    · exact fun _ _ targets => absurd targets (unnamed _)
    · exact fun _ _ _ targets => absurd targets (unnamed _)
    · exact fun _ _ _ targets => absurd targets (unnamed _)
    · exact fun _ => iff_of_false
        (fun ⟨_, _, targets, _⟩ => unnamed _ targets) refused

/-- A link with a target is sound if the server finds it exactly when it is
inside the root, and it is no link there. -/
theorem linkSound_iff
    {target : Location}
    {node : Node}
    (targets : served.immediate linkto = some (target, node)) :
    served.LinkSound linkto ↔
      (served.Inside target →
        node.isLnk = false ∧ served.LeadsInside linkto) ∧
      (¬served.Inside target → ¬served.LeadsInside linkto) := by
  have only : ∀ {other otherNode},
      served.immediate linkto = some (other, otherNode) →
        target = other ∧ node = otherNode := fun same =>
    Prod.mk.inj (Option.some.inj (targets.symm.trans same))
  constructor
  · intro sound
    constructor
    · intro inside
      have notLink : node.isLnk = false := by
        cases node with
        | link second =>
            exact absurd inside (sound.single target second targets)
        | directory | regular | other => rfl
      refine ⟨notLink, ?_⟩
      by_cases relative : Relative linkto
      · exact (leadsInside_iff_of_inside relative targets notLink inside).mpr
          (sound.near relative target node targets inside)
      · exact (sound.rooted relative).mp ⟨target, node, targets, inside⟩
    · intro outside
      by_cases relative : Relative linkto
      · exact sound.far relative target node targets outside
      · intro leads
        obtain ⟨_, _, same, inside⟩ := (sound.rooted relative).mpr leads
        obtain ⟨rfl, rfl⟩ := only same
        exact outside inside
  · rintro ⟨within, without⟩
    constructor
    · intro other second same inside
      obtain ⟨rfl, rfl⟩ := only same
      cases (within inside).1
    · intro relative other otherNode same inside
      obtain ⟨rfl, rfl⟩ := only same
      obtain ⟨notLink, leads⟩ := within inside
      exact (leadsInside_iff_of_inside relative targets notLink inside).mp leads
    · intro relative other otherNode same outside
      obtain ⟨rfl, rfl⟩ := only same
      exact without outside
    · intro notRelative
      constructor
      · rintro ⟨_, _, same, inside⟩
        obtain ⟨rfl, rfl⟩ := only same
        exact (within inside).2
      · intro leads
        refine ⟨target, node, targets, ?_⟩
        by_contra outside
        exact without outside leads

/-- The line printed for a link is the one owed to it exactly if the link is
sound. -/
theorem entryLine_eq_linkLine_iff
    (member : name ∈ served.names)
    (noDots : ¬IsDots name)
    (visible : served.Visible name)
    (isLink : tree.node (name :: served.location) = some (.link linkto)) :
    served.entryLine name = served.linkLine name linkto ↔
      served.LinkSound linkto := by
  obtain ⟨accepted, refused⟩ :=
    entryLine_of_link member noDots visible isLink
  have printed : ∀ line, served.entryLine name = some line ↔
      served.LeadsInside linkto ∧ line = name ++ ascii " --> " ++ linkto := by
    intro line
    by_cases accepts : served.LeadsInside linkto
    · rw [accepted accepts, Option.some.injEq, eq_comm]
      exact (and_iff_right accepts).symm
    · rw [refused accepts]
      exact iff_of_false nofun fun both => accepts both.1
  have silent : served.entryLine name = none ↔ ¬served.LeadsInside linkto := by
    constructor
    · intro nothing accepts
      rw [accepted accepts] at nothing
      cases nothing
    · exact refused
  unfold linkLine
  cases targets : served.immediate linkto with
  | none => exact silent.trans (linkSound_iff_of_nothing targets).symm
  | some found =>
      obtain ⟨target, node⟩ := found
      rw [linkSound_iff targets]
      dsimp only
      by_cases inside : served.Inside target
      · rw [if_pos inside]
        simp only [inside, forall_const, not_true_eq_false, false_imp_iff,
          and_true]
        by_cases single : node.isLnk = false
        · have line : arrowLine name linkto node =
              name ++ ascii " --> " ++ linkto := by
            cases node with
            | link second => cases single
            | directory | regular | other => rfl
          rw [printed, line]
          simp only [single, and_true, true_and]
        · cases node with
          | link second =>
              refine iff_of_false ?_ (fun sound => single sound.1)
              rw [printed]
              rintro ⟨-, same⟩
              rw [arrowLine, List.append_assoc, List.append_assoc,
                List.append_cancel_left_eq] at same
              cases same
          | directory | regular | other => exact absurd rfl single
      · rw [if_neg inside, silent]
        simp only [inside, false_imp_iff, true_and, not_false_eq_true,
          forall_const]

/-- The bytes for an entry are the line owed to it. -/
theorem lines_printed_iff {owed : Option (List UInt8)} :
    LineReader.lines newline (served.printed name) = owed.toList ↔
      served.entryLine name = owed ∧ ∀ line, owed = some line →
        newline ∉ line := by
  unfold printed
  cases served.entryLine name with
  | none =>
      cases owed with
      | none => exact ⟨fun _ => ⟨rfl, nofun⟩, fun _ => rfl⟩
      | some line => exact iff_of_false nofun fun both => nomatch both.1
  | some line =>
      have sent : (some line).toList.flatMap (fun line => line ++ [newline]) =
          line ++ [newline] := List.append_nil _
      rw [sent]
      cases owed with
      | none =>
          refine iff_of_false ?_ fun both => nomatch both.1
          rw [LineReader.lines_terminated]
          exact List.append_ne_nil_of_right_ne_nil _ nofun
      | some text =>
          rw [Option.toList_some, Option.some.injEq,
            LineReader.lines_terminated_eq_singleton_iff]
          constructor
          · rintro ⟨rfl, unbroken⟩
            exact ⟨rfl, fun _ same => Option.some.inj same ▸ unbroken⟩
          · rintro ⟨rfl, unbroken⟩
            exact ⟨rfl, unbroken line rfl⟩

/-- `.` and `..` are not printed. -/
theorem entryLine_of_dots (dots : IsDots name) :
    served.entryLine name = none ∧
      tree.node (name :: served.location) = none := by
  constructor
  · rw [IsDots] at dots
    unfold entryLine listEntry
    rw [if_pos dots]
  · by_contra present
    obtain ⟨_, _, _, noDots⟩ := isDirectory_of_child present
    exact noDots dots

/-- What is printed for an entry is what is owed to it exactly if the entry is
sound. -/
theorem lines_printed_eq_iff (member : name ∈ served.names) :
    LineReader.lines newline (served.printed name) =
        (served.expectedLine name).toList ↔
      served.EntrySound name := by
  rw [lines_printed_iff]
  by_cases dots : IsDots name
  · obtain ⟨silent, absent⟩ : served.entryLine name = none ∧
        tree.node (name :: served.location) = none := entryLine_of_dots dots
    have nothing : served.expectedLine name = none := by
      rw [expectedLine, absent]
    rw [silent, nothing]
    refine iff_of_true ⟨rfl, nofun⟩ ⟨?_, ?_⟩
    · rw [nothing]
      exact nofun
    · rw [absent]
      exact nofun
  have present : tree.node (name :: served.location) ≠ none :=
    (tree.child name served.location).mpr
      ⟨served.names, served.listed, member, dots⟩
  obtain ⟨node, present⟩ := Option.ne_none_iff_exists'.mp present
  by_cases visible : served.Visible name
  · have same : served.entryLine name = served.expectedLine name ↔
        ∀ linkto, node = .link linkto → served.LinkSound linkto := by
      cases node with
      | link linkto =>
          have owed : served.expectedLine name =
              served.linkLine name linkto := by
            rw [expectedLine, present]
          rw [owed, entryLine_eq_linkLine_iff member dots visible present]
          exact ⟨fun sound _ same => Node.link.inj same ▸ sound,
            fun sound => sound linkto rfl⟩
      | directory | regular | other =>
          exact iff_of_true
            (entryLine_of_notLink member dots visible present rfl) nofun
    rw [same]
    constructor
    · rintro ⟨sound, unbroken⟩
      refine ⟨fun line owed => ⟨visible, unbroken line owed⟩, ?_⟩
      intro linkto isLink _
      exact sound linkto (Option.some.inj (present.symm.trans isLink))
    · rintro ⟨shown, link⟩
      refine ⟨?_, fun line owed => (shown line owed).2⟩
      rintro linkto rfl
      exact link linkto present visible
  · rw [entryLine_of_not_visible member dots visible]
    constructor
    · rintro ⟨nothing, -⟩
      refine ⟨fun line owed => ?_, fun _ _ seen => absurd seen visible⟩
      cases nothing.trans owed
    · rintro ⟨shown, -⟩
      have nothing : served.expectedLine name = none := by
        by_contra something
        obtain ⟨line, owed⟩ := Option.ne_none_iff_exists'.mp something
        exact visible (shown line owed).1
      exact ⟨nothing.symm, fun line owed => (shown line owed).2⟩

end ServedDirectory

namespace LinkChain

/-- The entries of the directory `s`: the file `a`, a link `b` to it, a link `c`
to the link, a link `d` to the file with its whole path as the text, and a link
`e` whose text names nothing. -/
def entries : List (List UInt8) :=
  [ascii "a", ascii "b", ascii "c", ascii "d", ascii "e"]

/-- The directory `s` and what is in it. -/
def objects : List (Location × Node) :=
  [([], .directory [ascii "s"]),
    ([ascii "s"], .directory entries),
    ([ascii "a", ascii "s"], .regular),
    ([ascii "b", ascii "s"], .link (ascii "a")),
    ([ascii "c", ascii "s"], .link (ascii "b")),
    ([ascii "d", ascii "s"], .link (ascii "/s/a")),
    ([ascii "e", ascii "s"], .link (ascii "/a"))]

/-- The object at a location. -/
def node (location : Location) : Option Node :=
  (objects.find? fun object => object.1 = location).map Prod.snd

theorem mem_of_node
    {location : Location}
    {object : Node}
    (present : node location = some object) :
    (location, object) ∈ objects := by
  obtain ⟨found, isFound, rfl⟩ := Option.map_eq_some_iff.mp present
  obtain rfl : found.1 = location := by simpa using List.find?_some isFound
  exact List.mem_of_find?_eq_some isFound

theorem directory_cases
    {location : Location}
    {listing : List (List UInt8)}
    (isDirectory : node location = some (.directory listing)) :
    location = [] ∧ listing = [ascii "s"] ∨
      location = [ascii "s"] ∧ listing = entries := by
  have member := mem_of_node isDirectory
  simpa [objects] using member

/-- The tree of these objects. -/
def tree : Tree where
  node := node
  readable := fun _ => true
  searchable := fun _ => true
  cwd := []
  depth := 2
  bounded location present := by
    obtain ⟨object, found⟩ := Option.ne_none_iff_exists'.mp present
    have deep : ∀ object ∈ objects, object.1.length ≤ 2 := by decide
    exact deep _ (mem_of_node found)
  child name parent := by
    constructor
    · intro present
      obtain ⟨object, found⟩ := Option.ne_none_iff_exists'.mp present
      have member := mem_of_node found
      simp only [objects, List.mem_cons, Prod.mk.injEq, List.cons.injEq,
        List.not_mem_nil, or_false, reduceCtorEq, false_and,
        false_or] at member
      rcases member with ⟨⟨rfl, rfl⟩, -⟩ | ⟨⟨rfl, rfl⟩, -⟩ | ⟨⟨rfl, rfl⟩, -⟩ |
          ⟨⟨rfl, rfl⟩, -⟩ | ⟨⟨rfl, rfl⟩, -⟩ | ⟨⟨rfl, rfl⟩, -⟩ <;>
        exact ⟨_, rfl, by decide, by decide⟩
    · rintro ⟨listing, isDirectory, member, -⟩
      rcases directory_cases isDirectory with ⟨rfl, rfl⟩ | ⟨rfl, rfl⟩
      · have present : ∀ name ∈ [ascii "s"], node [name] ≠ none := by decide
        exact present name member
      · have present : ∀ name ∈ entries, node [name, ascii "s"] ≠ none := by
          decide
        exact present name member
  names location listing isDirectory := by
    rcases directory_cases isDirectory with ⟨-, rfl⟩ | ⟨-, rfl⟩ <;> decide
  once location listing isDirectory := by
    rcases directory_cases isDirectory with ⟨-, rfl⟩ | ⟨-, rfl⟩ <;> decide

/-- The directory `s` is served. -/
def served : ServedDirectory tree where
  root := ⟨[ascii "s"], by decide⟩
  cwd := []
  location := [ascii "s"]
  names := entries
  leads := by decide +kernel
  short := by decide
  begins := by decide
  listed := rfl
  readable := rfl

end LinkChain

end FileServer
end OSaSP
