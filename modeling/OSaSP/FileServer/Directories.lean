import OSaSP.FileServer.Session

/-!
# The current directory of a client

`cwd` is what a canonical path has behind the root, so it denotes a directory
as long as every accepted target is one and lies below the root.  `build_path`
tests neither: any file is accepted, and so is a sibling of the root whose name
begins with the root's.
-/

namespace OSaSP
namespace FileServer

open CString RenderedPath

/-- A static tree with a root in it.  The laws are those of `realpath`: a path
of `PATH_MAX` bytes is too long, a canonical path is its own, and what contains
an object is a directory. -/
structure ServedTree extends FileTree where
  root : CanonicalPath
  short : ∀ path canonical,
    resolve path = some canonical → path.length < pathMax
  canonical : ∀ path canonical,
    resolve path = some canonical → canonical.text.length < pathMax →
      resolve canonical.text = some canonical
  parents : ∀ (path parent : CanonicalPath) name,
    resolve path.text = some path →
      path.components = parent.components ++ [name] →
        resolve parent.text = some parent ∧
          lstat parent.text = some .directory
  rootPresent : resolve root.text = some root
  rootDirectory : lstat root.text = some .directory

/-- `root/cwd`. -/
def place (root cwd : List UInt8) : List UInt8 :=
  if cwd = [] then root
  else if root = [slash] then slash :: cwd
  else root ++ slash :: cwd

namespace ServedTree

/-- `cwd` denotes a directory. -/
structure DirectoryAt
    (tree : ServedTree)
    (cwd : List UInt8)
    (path : CanonicalPath) : Prop where
  resolved : tree.resolve (place tree.root.text cwd) = some path
  directory : tree.lstat path.text = some .directory

/-- What a target leads to from the current directory; a leading slash stands
for the root. -/
def destination
    (tree : ServedTree)
    (cwd target : List UInt8) : Option CanonicalPath :=
  if target = ascii "/" then some tree.root
  else if target.head? = some slash then
    tree.resolve (tree.root.text ++ target)
  else
    tree.resolve
      (tree.root.text ++ [slash] ++ cwd ++ [slash] ++ target)

/-- The target leads to a path whose string begins with that of the root. -/
structure Reaches
    (tree : ServedTree)
    (cwd target : List UInt8)
    (path : CanonicalPath) : Prop where
  leads : tree.destination cwd target = some path
  short : path.text.length < pathMax
  begins : tree.root.text <+: path.text

end ServedTree

/-- The command is `CD` with a target. -/
def IsCd (cmd target : List UInt8) : Prop :=
  strncasecmp cmd (ascii "CD ") 3 = 0 ∧ target = cmd.drop 3

/-- What `cwd` is after a command: a directory below the root, if anything;
after `CD ..` the parent, or still the root; after a `CD` without an error
what the target leads to, and after one with an error the same. -/
structure CwdFollows
    (tree : ServedTree)
    (cwd cmd : List UInt8)
    (reply : Reply) : Prop where
  inside : reply.cwd = [] ∨
    ∃ path, tree.DirectoryAt reply.cwd path ∧
      tree.root.components <+: path.components
  stays : IsCd cmd (ascii "..") → cwd = [] → reply.cwd = []
  parent : IsCd cmd (ascii "..") → cwd ≠ [] →
    ∃ path parent name, tree.DirectoryAt cwd path ∧
      path.components = parent.components ++ [name] ∧
      tree.DirectoryAt reply.cwd parent
  enters : ∀ target, IsCd cmd target → target ≠ ascii ".." →
    reply.body = [] →
      ∃ path, tree.destination cwd target = some path ∧
        tree.DirectoryAt reply.cwd path
  refuses : ∀ target, IsCd cmd target → reply.body ≠ [] → reply.cwd = cwd

/-- A received command moves `cwd` as it should. -/
def CdFollows
    (tree : ServedTree)
    (session : Session) : SessionEvent → Prop
  | .received chunk =>
      CwdFollows tree session.cwd (commandText chunk)
        (answer tree.toFileTree tree.root.text session.cwd
          (commandText chunk))
  | _ => True

/-- A received `CD` leads to no path that begins with the root's string and is
not a directory, or goes through a longer sibling of the root. -/
def CdTargetSound
    (tree : ServedTree)
    (session : Session) : SessionEvent → Prop
  | .received chunk =>
      ∀ target, IsCd (commandText chunk) target → target ≠ ascii ".." →
        ∀ path, tree.Reaches session.cwd target path →
          tree.lstat path.text = some .directory ∧
            ¬PassesLongerSibling tree.root.components path.components
  | _ => True

/-! ## Strings below the root -/

section Strings

variable {root path : CanonicalPath} {names : List (List UInt8)}

theorem CanonicalPath.ext_components
    {first second : CanonicalPath}
    (same : first.components = second.components) :
    first = second := by
  cases first
  cases second
  cases same
  rfl

theorem isComponent_of_below
    (below : path.components = root.components ++ names) :
    ∀ name ∈ names, IsComponent slash name := by
  intro name member
  apply path.isComponent
  rw [below]
  exact List.mem_append_right _ member

/-- The string of a path below the root. -/
theorem place_joined (below : path.components = root.components ++ names) :
    place root.text (joined slash names) = path.text := by
  have components := isComponent_of_below below
  unfold place
  by_cases here : names = []
  · subst here
    rw [List.append_nil] at below
    rw [CanonicalPath.ext_components below]
    rfl
  · have notHere := mt (joined_eq_nil_iff components).mp here
    have notTop : path.components ≠ [] := by
      rw [below]
      exact List.append_ne_nil_of_right_ne_nil _ here
    rw [if_neg notHere, CanonicalPath.text_of_ne_nil notTop, below,
      render_append, render_eq_cons_joined slash here]
    by_cases top : root.components = []
    · rw [top, CanonicalPath.text, top]
      rfl
    · have notSlash : root.text ≠ [slash] := fun same =>
        not_prefix_top top (same ▸ List.prefix_refl _)
      rw [if_neg notSlash, CanonicalPath.text_of_ne_nil top]

theorem relativeTo_text (below : path.components = root.components ++ names) :
    relativeTo root.text path.text = joined slash names := by
  have components := isComponent_of_below below
  rw [← place_joined below]
  unfold place relativeTo
  by_cases here : names = []
  · subst here
    rw [joined_nil, if_pos rfl, List.drop_length]
    rfl
  · have notHere := mt (joined_eq_nil_iff components).mp here
    have notSlash := head_joined_ne components
    rw [if_neg notHere]
    split
    · rename_i isTop
      rw [isTop]
      exact if_neg notSlash
    · rw [List.drop_left]
      rfl

/-- A name has no slash, so what stands before the last slash is the rest. -/
theorem parentOf_joined (components : ∀ name ∈ names, IsComponent slash name) :
    parentOf (joined slash names) = joined slash names.dropLast := by
  rcases List.eq_nil_or_concat names with rfl | ⟨front, name, rfl⟩
  · rfl
  · have isLast := components name (by simp)
    rw [List.concat_eq_append, List.dropLast_concat, parentOf]
    by_cases only : front = []
    · subst only
      rw [List.nil_append, joined_singleton,
        strrchr_of_not_mem isLast.unseparated]
      rfl
    · rw [joined_append_singleton slash only,
        strrchr_append _ isLast.unseparated]
      exact List.take_left

end Strings

/-! ## One command -/

section Commands

variable {tree : ServedTree} {cwd target cmd : List UInt8}

/-- `build_path` accepts what a target reaches. -/
theorem buildPath_eq_some_iff_reaches
    (notTop : target ≠ ascii "/")
    (out : List UInt8) :
    buildPath tree.toFileSystem tree.root.text cwd target = some out ↔
      ∃ path, tree.Reaches cwd target path ∧ out = path.text := by
  have leads : tree.resolve (composed tree.root.text cwd target) =
      tree.destination cwd target := by
    unfold composed ServedTree.destination
    rw [if_neg notTop]
    split <;> exact FileSystem.resolve_snprintf tree.short _
  rw [buildPath_eq_some_iff, leads]
  constructor
  · rintro ⟨path, leads, short, begins, same⟩
    exact ⟨path, ⟨leads, short, begins⟩, same⟩
  · rintro ⟨path, ⟨leads, short, begins⟩, same⟩
    exact ⟨path, leads, short, begins, same⟩

/-- The answers to `CD`. -/
inductive CdMove (tree : ServedTree) (cwd target : List UInt8) :
    Reply → Prop
  | top : target = ascii "/" → CdMove tree cwd target ⟨[], [], false⟩
  | up : target = ascii ".." →
      CdMove tree cwd target ⟨[], parentOf cwd, false⟩
  | into {path : CanonicalPath} :
      target ≠ ascii "/" → target ≠ ascii ".." →
      tree.Reaches cwd target path →
      CdMove tree cwd target
        ⟨[], relativeTo tree.root.text path.text, false⟩
  | refuse {text : List UInt8} :
      target ≠ ascii "/" → target ≠ ascii ".." →
      (∀ path, ¬tree.Reaches cwd target path) →
      CdMove tree cwd target ⟨[text], cwd, false⟩

/-- What is left of a path that fits is not too long. -/
theorem relativeTo_length_le (root newp : List UInt8) :
    (relativeTo root newp).length ≤ newp.length := by
  dsimp only [relativeTo]
  split
  · exact (List.drop_suffix _ _).length_le.trans
      (List.drop_suffix _ _).length_le
  · exact (List.drop_suffix _ _).length_le

theorem changeDirectory_move (tree : ServedTree) (cwd target : List UInt8) :
    CdMove tree cwd target
      (changeDirectory tree.toFileTree tree.root.text cwd target) := by
  have isTop : strcasecmp target (ascii "/") = 0 ↔ target = ascii "/" :=
    strcasecmp_eq_zero_iff_of_caseless (by decide)
  have isUp : strcasecmp target (ascii "..") = 0 ↔ target = ascii ".." :=
    strcasecmp_eq_zero_iff_of_caseless (by decide)
  by_cases top : target = ascii "/"
  · rw [changeDirectory, if_pos (isTop.mpr top)]
    exact .top top
  · by_cases up : target = ascii ".."
    · rw [changeDirectory, if_neg (mt isTop.mp top), if_pos (isUp.mpr up)]
      exact .up up
    · rw [changeDirectory, if_neg (mt isTop.mp top),
        if_neg (mt isUp.mp up)]
      split
      · rename_i newp built
        obtain ⟨path, reaches, rfl⟩ :=
          (buildPath_eq_some_iff_reaches top newp).mp built
        have short := (relativeTo_length_le tree.root.text path.text).trans_lt
          reaches.short
        dsimp only
        rw [if_pos short]
        exact .into top up reaches
      · rename_i built
        refine .refuse top up fun path reaches => ?_
        have accepted := (buildPath_eq_some_iff_reaches top path.text).mpr
          ⟨path, reaches, rfl⟩
        rw [built] at accepted
        cases accepted

/-- `cwd` is what the canonical path of a directory has behind the root. -/
structure Anchored
    (tree : ServedTree)
    (cwd : List UInt8)
    (names : List (List UInt8))
    (path : CanonicalPath) : Prop where
  text : cwd = joined slash names
  below : path.components = tree.root.components ++ names
  present : tree.resolve path.text = some path
  directory : tree.lstat path.text = some .directory

theorem anchored_top (tree : ServedTree) :
    Anchored tree [] [] tree.root :=
  ⟨rfl, (List.append_nil _).symm, tree.rootPresent, tree.rootDirectory⟩

namespace Anchored

variable {names : List (List UInt8)} {path : CanonicalPath}

theorem directoryAt (anchored : Anchored tree cwd names path) :
    tree.DirectoryAt cwd path := by
  refine ⟨?_, anchored.directory⟩
  rw [anchored.text, place_joined anchored.below]
  exact anchored.present

theorem inside (anchored : Anchored tree cwd names path) :
    cwd = [] ∨ ∃ path, tree.DirectoryAt cwd path ∧
      tree.root.components <+: path.components :=
  .inr ⟨path, anchored.directoryAt, names, anchored.below.symm⟩

theorem eq_nil_iff (anchored : Anchored tree cwd names path) :
    cwd = [] ↔ names = [] := by
  rw [anchored.text]
  exact joined_eq_nil_iff (isComponent_of_below anchored.below)

/-- The path with fewer components. -/
theorem exists_parent
    {front : List (List UInt8)}
    {name : List UInt8}
    (anchored : Anchored tree cwd (front ++ [name]) path) :
    ∃ parent, path.components = parent.components ++ [name] ∧
      Anchored tree (parentOf cwd) front parent := by
  have components := isComponent_of_below anchored.below
  have below := anchored.below
  rw [← List.append_assoc] at below
  refine ⟨⟨tree.root.components ++ front, fun name member => ?_⟩, below, ?_⟩
  · apply path.names
    rw [below]
    exact List.mem_append_left _ member
  · obtain ⟨present, directory⟩ :=
      tree.parents path ⟨tree.root.components ++ front, _⟩ name
        anchored.present below
    refine ⟨?_, rfl, present, directory⟩
    rw [anchored.text, parentOf_joined components, List.dropLast_concat]

/-- `CD ..` moves to the parent, or stays. -/
theorem up (anchored : Anchored tree cwd names path) :
    ∃ names path, Anchored tree (parentOf cwd) names path := by
  rcases List.eq_nil_or_concat names with rfl | ⟨front, name, rfl⟩
  · rw [anchored.text]
    exact ⟨[], tree.root, anchored_top tree⟩
  · rw [List.concat_eq_append] at anchored
    obtain ⟨parent, -, higher⟩ := anchored.exists_parent
    exact ⟨front, parent, higher⟩

end Anchored

/-- What a target leads to is what some string resolves to. -/
theorem exists_resolve_of_destination
    {path : CanonicalPath}
    (leads : tree.destination cwd target = some path) :
    ∃ text, tree.resolve text = some path := by
  unfold ServedTree.destination at leads
  split at leads
  · exact ⟨_, Option.some.inj leads ▸ tree.rootPresent⟩
  · split at leads <;> exact ⟨_, leads⟩

/-- A target that is a directory below the root. -/
theorem anchored_of_reaches
    {path : CanonicalPath}
    (reaches : tree.Reaches cwd target path)
    (directory : tree.lstat path.text = some .directory)
    (notLonger : ¬PassesLongerSibling tree.root.components path.components) :
    ∃ names, Anchored tree (relativeTo tree.root.text path.text) names
      path := by
  have inside : tree.root.components <+: path.components := by
    by_cases top : tree.root.components = []
    · rw [top]
      exact List.nil_prefix
    · rcases (text_prefix_iff top path).mp reaches.begins with confined | longer
      · exact (confined_iff top path).mp confined
      · exact absurd longer notLonger
  obtain ⟨names, below⟩ := inside
  obtain ⟨text, resolves⟩ := exists_resolve_of_destination reaches.leads
  exact ⟨names, relativeTo_text below.symm, below.symm,
    tree.canonical text path resolves reaches.short, directory⟩

/-- The directory of the empty `cwd` is the root. -/
theorem eq_root_of_directoryAt
    {path : CanonicalPath}
    (denotes : tree.DirectoryAt [] path) :
    path = tree.root := by
  have resolved : tree.resolve tree.root.text = some path := denotes.resolved
  rw [tree.rootPresent, Option.some.injEq] at resolved
  exact resolved.symm

theorem not_passes_of_prefix
    {path other : CanonicalPath}
    (below : path.components <+: other.components) :
    ¬PassesLongerSibling path.components other.components :=
  fun passes => passes.not_prefix below

/-- The next `cwd`, with a target that is sound. -/
theorem CdMove.anchored
    {names : List (List UInt8)}
    {path : CanonicalPath}
    {reply : Reply}
    (move : CdMove tree cwd target reply)
    (anchored : Anchored tree cwd names path)
    (sound : target ≠ ascii ".." → ∀ path, tree.Reaches cwd target path →
      tree.lstat path.text = some .directory ∧
        ¬PassesLongerSibling tree.root.components path.components) :
    ∃ names path, Anchored tree reply.cwd names path := by
  cases move with
  | top isTop => exact ⟨[], tree.root, anchored_top tree⟩
  | up isUp => exact anchored.up
  | @into path notTop notUp reaches =>
      obtain ⟨directory, notLonger⟩ := sound notUp path reaches
      obtain ⟨names, next⟩ := anchored_of_reaches reaches directory notLonger
      exact ⟨names, path, next⟩
  | refuse notTop notUp refused => exact ⟨names, path, anchored⟩

/-- A sound target is followed. -/
theorem CdMove.follows
    {names : List (List UInt8)}
    {path : CanonicalPath}
    {reply : Reply}
    (move : CdMove tree cwd (cmd.drop 3) reply)
    (anchored : Anchored tree cwd names path)
    (sound : cmd.drop 3 ≠ ascii ".." →
      ∀ path, tree.Reaches cwd (cmd.drop 3) path →
        tree.lstat path.text = some .directory ∧
          ¬PassesLongerSibling tree.root.components path.components) :
    CwdFollows tree cwd cmd reply := by
  obtain ⟨nextNames, nextPath, next⟩ := move.anchored anchored sound
  refine ⟨next.inside, ?_, ?_, ?_, ?_⟩
  · rintro ⟨-, isUp⟩ rfl
    cases move with
    | up _ => rfl
    | top isTop => rfl
    | into _ notUp _ => exact absurd isUp.symm notUp
    | refuse _ notUp _ => rfl
  · rintro ⟨-, isUp⟩ notTop
    cases move with
    | up _ =>
        rcases List.eq_nil_or_concat names with rfl | ⟨front, name, rfl⟩
        · exact absurd (anchored.eq_nil_iff.mpr rfl) notTop
        · rw [List.concat_eq_append] at anchored
          obtain ⟨parent, below, higher⟩ := anchored.exists_parent
          exact ⟨path, parent, name, anchored.directoryAt, below,
            higher.directoryAt⟩
    | top isTop => exact absurd (isUp.trans isTop) (by decide)
    | into _ notUp _ => exact absurd isUp.symm notUp
    | refuse _ notUp _ => exact absurd isUp.symm notUp
  · rintro target ⟨-, rfl⟩ notUp noError
    cases move with
    | up isUp => exact absurd isUp notUp
    | top isTop =>
        refine ⟨tree.root, ?_, (anchored_top tree).directoryAt⟩
        rw [ServedTree.destination, if_pos isTop]
    | @into path _ _ reaches =>
        obtain ⟨directory, notLonger⟩ := sound notUp path reaches
        obtain ⟨_, entered⟩ := anchored_of_reaches reaches directory notLonger
        exact ⟨path, reaches.leads, entered.directoryAt⟩
    | refuse _ _ _ => cases noError
  · rintro target ⟨-, rfl⟩ error
    cases move with
    | up _ | top _ | into _ _ _ => exact absurd rfl error
    | refuse _ _ _ => rfl

/-- A target that is followed is sound. -/
theorem CdMove.sound
    {path : CanonicalPath}
    {reply : Reply}
    (isCd : strncasecmp cmd (ascii "CD ") 3 = 0)
    (move : CdMove tree cwd (cmd.drop 3) reply)
    (follows : CwdFollows tree cwd cmd reply)
    (notUp : cmd.drop 3 ≠ ascii "..")
    (reaches : tree.Reaches cwd (cmd.drop 3) path) :
    tree.lstat path.text = some .directory ∧
      ¬PassesLongerSibling tree.root.components path.components := by
  cases move with
  | up isUp => exact absurd isUp notUp
  | top isTop =>
      have leads := reaches.leads
      rw [ServedTree.destination, if_pos isTop, Option.some.injEq] at leads
      subst leads
      exact ⟨tree.rootDirectory, not_passes_of_prefix (List.prefix_refl _)⟩
  | @into other _ _ reached =>
      obtain ⟨entered, leads, denotes⟩ :=
        follows.enters _ ⟨isCd, rfl⟩ notUp rfl
      rw [reaches.leads, Option.some.injEq] at leads
      subst leads
      refine ⟨denotes.directory, ?_⟩
      rcases follows.inside with isEmpty | ⟨inside, denotesInside, below⟩
      · rw [isEmpty] at denotes
        rw [eq_root_of_directoryAt denotes]
        exact not_passes_of_prefix (List.prefix_refl _)
      · have same := denotesInside.resolved
        rw [denotes.resolved, Option.some.injEq] at same
        subst same
        exact not_passes_of_prefix below
  | refuse _ _ refused => exact absurd reaches (refused path)

end Commands

/-! ## Whole sessions -/

section Sessions

variable {tree : ServedTree}

/-- The current directory of a session is anchored in the tree. -/
def CwdAnchored (tree : ServedTree) (session : Session) : Prop :=
  ∃ names path, Anchored tree session.cwd names path

/-- A received command in an anchored session: the next `cwd` follows it
exactly when its target is sound. -/
theorem cdFollows_iff
    {session : Session}
    (anchored : CwdAnchored tree session)
    (event : SessionEvent) :
    CdFollows tree session event ↔ CdTargetSound tree session event := by
  cases event with
  | shutdown | interrupted | timedOut | pollFailed | disconnected =>
      exact Iff.rfl
  | received chunk =>
      obtain ⟨names, path, anchored⟩ := anchored
      simp only [CdFollows, CdTargetSound]
      by_cases isCd : strncasecmp (commandText chunk) (ascii "CD ") 3 = 0
      · rw [answer_of_cd tree.toFileTree tree.root.text isCd]
        have move := changeDirectory_move tree session.cwd
          ((commandText chunk).drop 3)
        constructor
        · rintro follows target ⟨-, rfl⟩ notUp reached reaches
          exact move.sound isCd follows notUp reaches
        · intro sound
          exact move.follows anchored (sound _ ⟨isCd, rfl⟩)
      · have same := answer_cwd tree.toFileTree tree.root.text isCd session.cwd
        constructor
        · rintro - target ⟨changes, -⟩
          exact absurd changes isCd
        · intro _
          refine ⟨?_, ?_, ?_, ?_, ?_⟩
          · rw [same]
            exact anchored.inside
          · rintro ⟨changes, -⟩
            exact absurd changes isCd
          · rintro ⟨changes, -⟩
            exact absurd changes isCd
          · rintro target ⟨changes, -⟩
            exact absurd changes isCd
          · rintro target ⟨changes, -⟩
            exact absurd changes isCd

theorem cwdAnchored_step
    {session next : Session}
    {event : SessionEvent}
    (anchored : CwdAnchored tree session)
    (sound : CdTargetSound tree session event)
    (stepped : (sessionMachine tree.toFileTree tree.root.text).step session
      event = some next) :
    CwdAnchored tree next := by
  by_cases receives : ∃ chunk, event = .received chunk
  · obtain ⟨chunk, rfl⟩ := receives
    obtain ⟨-, rfl⟩ := sessionStep_received stepped
    obtain ⟨names, path, anchored⟩ := anchored
    have handled : (session.handle tree.toFileTree tree.root.text chunk).cwd =
        (answer tree.toFileTree tree.root.text session.cwd
          (commandText chunk)).cwd := rfl
    unfold CwdAnchored
    rw [handled]
    by_cases isCd : strncasecmp (commandText chunk) (ascii "CD ") 3 = 0
    · rw [answer_of_cd tree.toFileTree tree.root.text isCd]
      exact (changeDirectory_move tree session.cwd _).anchored anchored
        (sound _ ⟨isCd, rfl⟩)
    · rw [answer_cwd tree.toFileTree tree.root.text isCd]
      exact ⟨names, path, anchored⟩
  · obtain ⟨-, running, rfl⟩ := sessionStep_silent
      (fun chunk same => receives ⟨chunk, same⟩) stepped
    exact anchored

end Sessions

/-! ## A small tree -/

instance : DecidableEq CanonicalPath := fun first second =>
  decidable_of_iff (first.components = second.components)
    ⟨CanonicalPath.ext_components, congrArg CanonicalPath.components⟩

namespace SmallTree

/-- `/srv/root/readme`. -/
def srvReadme : CanonicalPath where
  components := [ascii "srv", ascii "root", ascii "readme"]
  names := by decide

/-- A tree without links: its paths with their kinds. -/
def objects : List (CanonicalPath × FileKind) :=
  [(⟨[], by decide⟩, .directory), (⟨[ascii "srv"], by decide⟩, .directory),
    (srvRoot, .directory), (srvRoot2, .directory), (srvDocs, .directory),
    (srvReadme, .other)]

/-- Follow the names of a path from directory to directory. -/
def walk (here : List (List UInt8)) :
    List (List UInt8) → Option (List (List UInt8))
  | [] => some here
  | name :: names =>
      if objects.any (fun object =>
          object.1.components = here && object.2 = .directory) then
        if name = [] ∨ name = ascii "." then walk here names
        else if name = ascii ".." then walk here.dropLast names
        else walk (here ++ [name]) names
      else none

def resolve (path : List UInt8) : Option CanonicalPath :=
  if path.length < pathMax ∧ path.head? = some slash then
    (walk [] (path.splitOn slash)).bind fun components =>
      (objects.map Prod.fst).find? fun object =>
        object.components = components
  else none

def lstat (path : List UInt8) : Option FileKind :=
  (objects.find? fun object => object.1.text = path).map Prod.snd

theorem mem_of_resolve
    {path : List UInt8}
    {canonical : CanonicalPath}
    (resolved : resolve path = some canonical) :
    path.length < pathMax ∧ canonical ∈ objects.map Prod.fst := by
  unfold resolve at resolved
  split at resolved
  · rename_i both
    obtain ⟨components, -, found⟩ := Option.bind_eq_some_iff.mp resolved
    exact ⟨both.1, List.mem_of_find?_eq_some found⟩
  · cases resolved

theorem resolve_text :
    ∀ path ∈ objects.map Prod.fst, resolve path.text = some path := by
  decide

theorem parent_present :
    ∀ path ∈ objects.map Prod.fst, path.components ≠ [] →
      ∃ parent ∈ objects.map Prod.fst,
        parent.components = path.components.dropLast ∧
          lstat parent.text = some .directory := by
  decide

/-- `/srv/root` is served; next to it is `/srv/root2`. -/
def tree : ServedTree where
  resolve := resolve
  opendir _ := none
  lstat := lstat
  readlink _ := none
  root := srvRoot
  short _ _ resolved := (mem_of_resolve resolved).1
  canonical _ canonical resolved _ :=
    resolve_text canonical (mem_of_resolve resolved).2
  parents path parent name present below := by
    have notTop : path.components ≠ [] := by
      rw [below]
      exact List.append_ne_nil_of_right_ne_nil _ (List.cons_ne_nil _ _)
    obtain ⟨other, member, same, directory⟩ :=
      parent_present path (mem_of_resolve present).2 notTop
    rw [below, List.dropLast_concat] at same
    rw [← CanonicalPath.ext_components same]
    exact ⟨resolve_text other member, directory⟩
  rootPresent := resolve_text srvRoot (by decide)
  rootDirectory := by decide

end SmallTree

end FileServer
end OSaSP
