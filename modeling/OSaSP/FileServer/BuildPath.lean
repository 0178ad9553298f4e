import OSaSP.Foundations.CString
import OSaSP.Foundations.RenderedPath

/-!
# Path resolution of the file server

`build_path` writes the root, the current directory and the target of a
command one behind the other, lets `realpath` resolve the result and accepts it
if it begins with the root.  The file system is whatever `realpath` makes of a
string: a canonical path or a failure.

Beginning with the root is tested on the strings.  On the components it also
accepts the siblings of the root whose names go on behind the root's own name,
and everything below them; nothing else outside the root is accepted.
-/

namespace OSaSP
namespace FileServer

open CString RenderedPath

/-- `PATH_MAX`. -/
def pathMax : Nat := 4096

/-- `NAME_MAX`. -/
def nameMax : Nat := 255

/-- `PATHBUF`. -/
def pathBuf : Nat := pathMax + nameMax + 2

/-- The byte `'/'`. -/
def slash : UInt8 := 47

/-- What a canonical path has for components: names, but neither `.` nor
`..`. -/
structure IsName (name : List UInt8) : Prop where
  component : IsComponent slash name
  noTerminator : 0 ∉ name
  noDots : name ≠ ascii "." ∧ name ≠ ascii ".."

instance (name : List UInt8) : Decidable (IsName name) :=
  decidable_of_iff
    (IsComponent slash name ∧ 0 ∉ name ∧
      (name ≠ ascii "." ∧ name ≠ ascii ".."))
    ⟨fun is => ⟨is.1, is.2.1, is.2.2⟩, fun is => ⟨is.1, is.2, is.3⟩⟩

/-- An absolute path as `realpath` produces it. -/
structure CanonicalPath where
  components : List (List UInt8)
  names : ∀ name ∈ components, IsName name

namespace CanonicalPath

/-- The string of a canonical path. -/
def text (path : CanonicalPath) : List UInt8 :=
  match path.components with
  | [] => [slash]
  | components => render slash components

theorem text_of_ne_nil
    {path : CanonicalPath}
    (notTop : path.components ≠ []) :
    path.text = render slash path.components := by
  unfold text
  split
  · contradiction
  · rfl

theorem isComponent
    (path : CanonicalPath) :
    ∀ name ∈ path.components, IsComponent slash name :=
  fun name member => (path.names name member).component

end CanonicalPath

/-- The object that a path string leads to, if there is one. -/
structure FileSystem where
  resolve : List UInt8 → Option CanonicalPath

/-- `realpath`: the canonical path, unless there is none or it is too long. -/
def FileSystem.realpath
    (files : FileSystem)
    (path : List UInt8) : Option (List UInt8) :=
  match files.resolve path with
  | some canonical =>
      if canonical.text.length < pathMax then some canonical.text else none
  | none => none

/-- `tmp`: the string that `build_path` hands to `realpath`. -/
def composed (root cwd target : List UInt8) : List UInt8 :=
  if target.head? = some slash then snprintf pathBuf (root ++ target)
  else snprintf pathBuf (root ++ [slash] ++ cwd ++ [slash] ++ target)

/-- `build_path`: the path written to `out`, or `none` for -1. -/
def buildPath
    (files : FileSystem)
    (root cwd target : List UInt8) : Option (List UInt8) :=
  match files.realpath (composed root cwd target) with
  | none => none
  | some realp =>
      if strncmp realp root root.length ≠ 0 then none else some realp

/-- The buffer of `build_path` is large enough for any path that can be
resolved. -/
theorem FileSystem.resolve_snprintf
    {files : FileSystem}
    (short : ∀ path canonical,
      files.resolve path = some canonical → path.length < pathMax)
    (path : List UInt8) :
    files.resolve (snprintf pathBuf path) = files.resolve path := by
  by_cases fits : path.length ≤ pathBuf - 1
  · rw [snprintf, List.take_of_length_le fits]
  · have tooLong : ∀ path : List UInt8, pathMax ≤ path.length →
        files.resolve path = none := by
      intro path long
      cases resolved : files.resolve path with
      | none => rfl
      | some canonical =>
          have := short path canonical resolved
          omega
    have cut : (snprintf pathBuf path).length = pathBuf - 1 := by
      rw [snprintf, List.length_take]
      omega
    rw [tooLong _ (by rw [cut]; decide), tooLong path]
    unfold pathBuf pathMax at *
    omega

/-- The string is the root's or goes on behind it with a slash. -/
def Confined (root out : List UInt8) : Prop :=
  out = root ∨ root ++ [slash] <+: out

/-- The path string leads to a sibling of the root whose name begins with the
root's and is longer, or to something below such a sibling. -/
def FileSystem.LeadsToLongerSibling
    (files : FileSystem)
    (root : CanonicalPath)
    (path : List UInt8) : Prop :=
  ∃ canonical, files.resolve path = some canonical ∧
    canonical.text.length < pathMax ∧
    PassesLongerSibling root.components canonical.components

section BuildPath

variable {files : FileSystem} {root : CanonicalPath}
  {cwd target out : List UInt8}

/-- `build_path` accepts what resolves to a path string that begins with the
root. -/
theorem buildPath_eq_some_iff :
    buildPath files root.text cwd target = some out ↔
      ∃ path, files.resolve (composed root.text cwd target) = some path ∧
        path.text.length < pathMax ∧ root.text <+: path.text ∧
        out = path.text := by
  unfold buildPath FileSystem.realpath
  cases files.resolve (composed root.text cwd target) with
  | none => simp
  | some path =>
      by_cases short : path.text.length < pathMax
      · by_cases begins : root.text <+: path.text
        · simp [short, begins, (strncmp_length_eq_zero_iff _ _).mpr begins,
            eq_comm]
        · have unequal := mt (strncmp_length_eq_zero_iff path.text _).mp begins
          simp [short, begins, unequal]
      · simp [short]

/-- The top of the file system does not begin with any other path. -/
theorem not_prefix_top (notTop : root.components ≠ []) :
    ¬root.text <+: [slash] := by
  intro before
  have bound := before.length_le
  obtain ⟨name, rest, split⟩ := List.exists_cons_of_ne_nil notTop
  have nonempty := (root.isComponent name (by rw [split]; simp)).nonempty
  have positive := List.length_pos_iff.mpr nonempty
  rw [CanonicalPath.text_of_ne_nil notTop, split, render_cons] at bound
  simp only [List.length_cons, List.length_append, List.length_nil] at bound
  omega

/-- A string is confined exactly when its components begin with the root's. -/
theorem confined_iff
    (notTop : root.components ≠ [])
    (path : CanonicalPath) :
    Confined root.text path.text ↔ root.components <+: path.components := by
  by_cases top : path.components = []
  · have textEq : path.text = [slash] := by rw [CanonicalPath.text, top]
    rw [textEq, top, List.prefix_nil]
    constructor
    · rintro (equal | below)
      · exact absurd (equal ▸ List.prefix_refl _) (not_prefix_top notTop)
      · exact absurd ((List.prefix_append _ _).trans below)
          (not_prefix_top notTop)
    · exact fun equal => absurd equal notTop
  · unfold Confined
    rw [CanonicalPath.text_of_ne_nil notTop, CanonicalPath.text_of_ne_nil top]
    exact render_descends_iff root.isComponent path.isComponent

/-- The prefix test on the strings accepts what is confined and what passes a
longer sibling of the root. -/
theorem text_prefix_iff
    (notTop : root.components ≠ [])
    (path : CanonicalPath) :
    root.text <+: path.text ↔
      Confined root.text path.text ∨
        PassesLongerSibling root.components path.components := by
  rw [confined_iff notTop]
  by_cases top : path.components = []
  · have textEq : path.text = [slash] := by rw [CanonicalPath.text, top]
    rw [textEq, top, List.prefix_nil]
    simp [not_prefix_top notTop, notTop, PassesLongerSibling]
  · rw [CanonicalPath.text_of_ne_nil notTop, CanonicalPath.text_of_ne_nil top]
    exact render_prefix_iff root.isComponent path.isComponent

/-- Whatever the strings of the client and the file system, `build_path` keeps
to the root exactly when it is not led to a sibling whose name is longer than
the root's and begins with it. -/
theorem buildPath_confined_iff
    (files : FileSystem)
    (root : CanonicalPath)
    (notTop : root.components ≠ [])
    (cwd target : List UInt8) :
    (∀ out, buildPath files root.text cwd target = some out →
        Confined root.text out) ↔
      ¬files.LeadsToLongerSibling root (composed root.text cwd target) := by
  constructor
  · rintro confined ⟨path, resolved, short, passes⟩
    have accepted : buildPath files root.text cwd target = some path.text :=
      buildPath_eq_some_iff.mpr ⟨path, resolved, short,
        (text_prefix_iff notTop path).mpr (.inr passes), rfl⟩
    exact passes.not_prefix ((confined_iff notTop path).mp
      (confined path.text accepted))
  · intro notLed out accepted
    obtain ⟨path, resolved, short, begins, rfl⟩ :=
      buildPath_eq_some_iff.mp accepted
    rcases (text_prefix_iff notTop path).mp begins with confined | passes
    · exact confined
    · exact absurd ⟨path, resolved, short, passes⟩ notLed

end BuildPath

/-! ## A sibling of the served directory -/

/-- `/srv/root`. -/
def srvRoot : CanonicalPath where
  components := [ascii "srv", ascii "root"]
  names := by decide

/-- `/srv/root2`. -/
def srvRoot2 : CanonicalPath where
  components := [ascii "srv", ascii "root2"]
  names := by decide

/-- `/srv/root/docs`. -/
def srvDocs : CanonicalPath where
  components := [ascii "srv", ascii "root", ascii "docs"]
  names := by decide

/-- A file system without symbolic links that has these three directories. -/
def threeDirectories : FileSystem where
  resolve path :=
    if path = ascii "/srv/root//docs" then some srvDocs
    else if path = ascii "/srv/root//../root2" then some srvRoot2
    else none

theorem buildPath_docs_confined :
    buildPath threeDirectories srvRoot.text (ascii "") (ascii "docs") =
        some srvDocs.text ∧
      ∀ out, buildPath threeDirectories srvRoot.text (ascii "")
          (ascii "docs") = some out →
        Confined srvRoot.text out := by
  refine ⟨by decide, ?_⟩
  refine (buildPath_confined_iff threeDirectories srvRoot (by decide) _ _).mpr
    ?_
  rintro ⟨path, resolved, -, passes⟩
  cases resolved
  exact passes.not_prefix (by decide)

/-- From the root, `CD ../root2` leaves the served tree. -/
theorem not_every_path_confined :
    ¬∀ (files : FileSystem) (root : CanonicalPath),
      root.components ≠ [] → ∀ cwd target out : List UInt8,
        buildPath files root.text cwd target = some out →
          Confined root.text out := by
  intro every
  have confined := every threeDirectories srvRoot (by decide) (ascii "")
    (ascii "../root2") srvRoot2.text (by decide)
  unfold Confined at confined
  exact absurd confined (by decide)

end FileServer
end OSaSP
