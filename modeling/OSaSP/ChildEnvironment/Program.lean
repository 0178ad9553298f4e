import OSaSP.ChildEnvironment.ReadEnvFile
import OSaSP.Foundations.Machine
import OSaSP.Foundations.ProcessTable

/-!
# The parent, its children and what they print

The parent reads single characters: `+` starts a child with the name of the
environment file, which then looks up the names in the file, `*` starts a child
without, which prints its whole environment, and `q` waits for all children.
Either child gets the strings that `read_env_file` stored, so both print the
same variables, provided that no variable of the parent is set twice.

`execve` finds the program.
-/

namespace OSaSP
namespace ChildEnvironment

open BoundedReader CString LineReader

/-! ## The child -/

/-- The lines that `read_env_from_file` prints. -/
def readEnvFromFile
    (environ : Environment)
    (content : List UInt8) : List (List UInt8) :=
  (pieces lineFeed lineRoom content).filterMap fun buf =>
    (getenv environ (chomp buf)).map fun value =>
      chomp buf ++ [equals] ++ value

/-- The lines that `read_env_from_array` prints. -/
def readEnvFromArray (environ : Environment) : List (List UInt8) :=
  environ.map Subtype.val

/-- The arguments and the environment of an `execve` of the child. -/
structure Child where
  name : List UInt8
  envPath : Option (List UInt8)
  environ : Environment

/-- The variables that the child prints, when the file has this content;
nothing when the child was to read a file that cannot be opened. -/
def Child.printed
    (child : Child)
    (file : Option (List UInt8)) : Option (List (List UInt8)) :=
  match child.envPath with
  | some _ => file.map (readEnvFromFile child.environ)
  | none => some (readEnvFromArray child.environ)

/-! ## The parent -/

/-- The strings in an array up to `NULL`, when there is one in its slots. -/
def untilNull
    (newEnv : Nat → Option (List UInt8)) :
    Nat → Nat → Option (List (List UInt8))
  | 0, _ => none
  | slots + 1, index =>
      match newEnv index with
      | none => some []
      | some text =>
          (untilNull newEnv slots (index + 1)).map fun texts => text :: texts

/-- The environment that `execve` makes of `new_env`. -/
def execEnviron (newEnv : Nat → Option (List UInt8)) : Option Environment :=
  (untilNull newEnv newEnvSlots 0).map fun texts =>
    texts.map fun text => ⟨stringAt text, zero_not_mem_stringAt text⟩

/-- The number of children that are started at most. -/
def maxChildren : Nat := 100

/-- `snprintf(child_name, sizeof(child_name), "child_%02d", child_count++)`. -/
def childName (number : Nat) : List UInt8 :=
  snprintf 32 (ascii "child_" ++ decimal 2 number)

/-- `env_file`. -/
def envFile : List UInt8 := ascii "../../env"

/-- What the parent is about to do. -/
inductive Place
  | command
  | waitAll
  | exited (success : Bool)
  deriving DecidableEq

/-- The parent with the array, the counter, its children in the kernel, and all
children that it has started. -/
structure Parent where
  place : Place
  newEnv : Nat → Option (List UInt8)
  childCount : Nat
  table : ProcessTable
  started : List Child

/-- `main` up to its loop; it ends when `CHILD_PATH` is not set or the file
cannot be opened. -/
def start
    (environ : Environment)
    (file : Option (List UInt8))
    (uninitialised : Nat → Option (List UInt8)) : Option Parent :=
  (getenv environ (ascii "CHILD_PATH")).bind fun _ =>
    (readEnvFile environ file uninitialised newEnvSlots).map fun reading =>
      { place := .command
        newEnv := reading.newEnv
        childCount := 0
        table := .empty
        started := [] }

/-- A command with what `fork` gives, a return of `wait`, or a death. -/
inductive Action
  | plus (forked : Option Nat)
  | star (forked : Option Nat)
  | quit
  /-- Any other character. -/
  | other
  /-- `wait` returns this child. -/
  | wait (pid : Nat)
  /-- `wait` fails and ends the loop. -/
  | waitFails
  | die (pid : Nat)

/-- The branches of `+` and `*`; they differ in the arguments of the child. -/
def Parent.spawn
    (parent : Parent)
    (envPath : Option (List UInt8))
    (forked : Option Nat) : Option Parent :=
  if parent.childCount ≥ maxChildren then some parent
  else
    match forked with
    | none =>
        some { parent with
          childCount := parent.childCount + 1
          place := .exited false }
    | some pid =>
        (execEnviron parent.newEnv).bind fun environ =>
          (parent.table.fork pid).map fun table =>
            { parent with
              childCount := parent.childCount + 1
              table
              started := parent.started ++
                [⟨childName parent.childCount, envPath, environ⟩] }

/-- One step of the parent or of a child. -/
def step (parent : Parent) : Action → Option Parent
  | .plus forked =>
      if parent.place = .command then parent.spawn (some envFile) forked
      else none
  | .star forked =>
      if parent.place = .command then parent.spawn none forked else none
  | .quit =>
      if parent.place = .command then some { parent with place := .waitAll }
      else none
  | .other => if parent.place = .command then some parent else none
  | .wait pid =>
      if parent.place = .waitAll then
        (parent.table.wait pid).map fun table => { parent with table }
      else none
  | .waitFails =>
      if parent.place = .waitAll ∧ parent.table.children = [] then
        some { parent with place := .exited true }
      else none
  | .die pid =>
      (parent.table.die pid).map fun table => { parent with table }

/-- The program in an environment and with a file. -/
def program
    (environ : Environment)
    (file : Option (List UInt8)) : Machine Parent Action where
  initial parent :=
    ∃ uninitialised, start environ file uninitialised = some parent
  step := step

/-! ## Looking up a variable -/

/-- The name of the variable that a string of the environment sets. -/
def nameOf (entry : List UInt8) : List UInt8 :=
  entry.takeWhile fun byte => byte ≠ equals

/-- No variable is set twice. -/
def SetOnce (environ : Environment) : Prop :=
  (environ.map fun entry => nameOf entry.val).Nodup

/-- The string that sets a variable to a value. -/
def setting (name value : List UInt8) : List UInt8 :=
  name ++ [equals] ++ value

theorem prefix_iff_setting
    {name entry : List UInt8} :
    (name ++ [equals]).isPrefixOf entry = true ↔
      ∃ value, entry = setting name value := by
  rw [List.isPrefixOf_iff_prefix]
  exact ⟨fun ⟨value, same⟩ => ⟨value, same.symm⟩,
    fun ⟨value, same⟩ => ⟨value, same.symm⟩⟩

theorem drop_setting (name value : List UInt8) :
    (setting name value).drop (name.length + 1) = value := by
  have front : (name ++ [equals]).length = name.length + 1 := by simp
  rw [setting, ← front, List.drop_left]

/-- The value is part of the name's string only behind the first `=`. -/
theorem nameOf_setting (name value value' : List UInt8) :
    nameOf (setting name value) = nameOf (setting name value') := by
  unfold nameOf setting
  rw [List.append_assoc, List.append_assoc]
  induction name with
  | nil => rfl
  | cons byte name inductionHypothesis =>
      change List.takeWhile _ (byte :: (name ++ ([equals] ++ value))) =
        List.takeWhile _ (byte :: (name ++ ([equals] ++ value')))
      rw [List.takeWhile_cons, List.takeWhile_cons, inductionHypothesis]

/-- What is found is set by some string. -/
theorem mem_of_getenv
    {environ : Environment}
    {name value : List UInt8}
    (isSet : getenv environ name = some value) :
    name ≠ [] ∧ ∃ entry ∈ environ, entry.val = setting name value := by
  unfold getenv at isSet
  split at isSet
  · cases isSet
  · rename_i named
    obtain ⟨entry, member, found⟩ := List.exists_of_findSome?_eq_some isSet
    split at found
    · rename_i isPrefix
      obtain ⟨rest, same⟩ := prefix_iff_setting.mp isPrefix
      rw [same, drop_setting, Option.some.injEq] at found
      subst found
      exact ⟨fun empty => named (by simp [empty]), entry, member, same⟩
    · cases found

/-- A value that no other string contradicts is found. -/
theorem getenv_of_mem
    {environ : Environment}
    {name value : List UInt8}
    (named : name ≠ [])
    (isSet : ∃ entry ∈ environ, entry.val = setting name value)
    (only : ∀ entry ∈ environ, ∀ value', entry.val = setting name value' →
      value' = value) :
    getenv environ name = some value := by
  unfold getenv
  rw [if_neg (by simpa using named)]
  obtain ⟨entry, member, same⟩ := isSet
  induction environ with
  | nil => cases member
  | cons head environ inductionHypothesis =>
      rw [List.findSome?_cons]
      by_cases isPrefix : (name ++ [equals]).isPrefixOf head.val = true
      · obtain ⟨value', headSame⟩ := prefix_iff_setting.mp isPrefix
        rw [if_pos isPrefix, headSame, drop_setting,
          only head (List.mem_cons_self ..) value' headSame]
      · rw [if_neg isPrefix]
        rcases List.mem_cons.mp member with here | behind
        · rw [here] at same
          exact absurd (prefix_iff_setting.mpr ⟨value, same⟩) isPrefix
        · exact inductionHypothesis
            (fun entry later => only entry (List.mem_cons_of_mem _ later))
            behind

/-- A variable that is set once has one value. -/
theorem SetOnce.value_unique
    {environ : Environment}
    (once : SetOnce environ)
    {first second : { entry : List UInt8 // (0 : UInt8) ∉ entry }}
    (firstMember : first ∈ environ)
    (secondMember : second ∈ environ)
    {name value value' : List UInt8}
    (firstSets : first.val = setting name value)
    (secondSets : second.val = setting name value') :
    value' = value := by
  have names : nameOf first.val = nameOf second.val := by
    rw [firstSets, secondSets]
    exact nameOf_setting name value value'
  have same := List.inj_on_of_nodup_map once firstMember secondMember names
  have settings : setting name value = setting name value' := by
    rw [← firstSets, ← secondSets, same]
  exact (List.append_cancel_left settings).symm

/-- In a selection of the strings, a variable is found with the same value or
not at all. -/
theorem getenv_selection
    {environ selected : Environment}
    (once : SetOnce environ)
    (selects : ∀ entry ∈ selected, entry ∈ environ)
    {name : List UInt8}
    (kept : ∀ value, getenv environ name = some value →
      ∃ entry ∈ selected, entry.val = setting name value) :
    getenv selected name = getenv environ name := by
  cases found : getenv environ name with
  | some value =>
      obtain ⟨named, entry, member, sets⟩ := mem_of_getenv found
      refine getenv_of_mem named (kept value found) ?_
      intro other selectedMember value' otherSets
      exact once.value_unique member (selects other selectedMember) sets
        otherSets
  | none =>
      cases foundHere : getenv selected name with
      | none => rfl
      | some value =>
          obtain ⟨named, entry, member, sets⟩ := mem_of_getenv foundHere
          have present : getenv environ name = some value :=
            getenv_of_mem named ⟨entry, selects entry member, sets⟩
              fun other otherMember value' otherSets =>
                once.value_unique (selects entry member) otherMember sets
                  otherSets
          rw [found] at present
          cases present

/-! ## What the children get and print -/

section Printed

variable {environ : Environment}

/-- The strings of the variables that the file names. -/
theorem map_text_found (line : Nat) (reads : List (List UInt8)) :
    (found environ line reads).map Variable.text =
      reads.filterMap fun buf =>
        (getenv environ (chomp buf)).map fun value =>
          chomp buf ++ [equals] ++ value := by
  induction reads generalizing line with
  | nil => rfl
  | cons buf reads inductionHypothesis =>
      rw [found, List.map_append, inductionHypothesis, List.filterMap_cons,
        lookUp]
      cases getenv environ (chomp buf) <;> rfl

/-- Every variable found is set by a string of the environment. -/
theorem mem_of_found
    {line : Nat}
    {reads : List (List UInt8)}
    {var : Variable}
    (isFound : var ∈ found environ line reads) :
    ∃ entry ∈ environ, entry.val = var.text := by
  induction reads generalizing line with
  | nil => cases isFound
  | cons buf reads inductionHypothesis =>
      rcases List.mem_append.mp isFound with here | behind
      · obtain ⟨value, isSet, rfl⟩ :=
          Option.map_eq_some_iff.mp (Option.mem_toList.mp here)
        exact (mem_of_getenv isSet).2
      · exact inductionHypothesis behind

/-- Every name that the file gives is found with its string. -/
theorem found_of_mem
    (line : Nat)
    {reads : List (List UInt8)}
    {buf value : List UInt8}
    (member : buf ∈ reads)
    (isSet : getenv environ (chomp buf) = some value) :
    setting (chomp buf) value ∈
      (found environ line reads).map Variable.text := by
  rw [map_text_found]
  exact List.mem_filterMap.mpr ⟨buf, member, by rw [isSet]; rfl⟩

/-- The array up to its terminator. -/
theorem untilNull_eq
    {newEnv : Nat → Option (List UInt8)}
    {texts : List (List UInt8)}
    {slots index : Nat}
    (room : texts.length < slots)
    (present : ∀ place text, texts[place]? = some text →
      newEnv (index + place) = some text)
    (terminated : newEnv (index + texts.length) = none) :
    untilNull newEnv slots index = some texts := by
  induction texts generalizing slots index with
  | nil =>
      obtain ⟨slots, rfl⟩ := Nat.exists_eq_succ_of_ne_zero (Nat.ne_of_gt room)
      rw [List.length_nil, Nat.add_zero] at terminated
      rw [untilNull, terminated]
  | cons text texts inductionHypothesis =>
      obtain ⟨slots, rfl⟩ :=
        Nat.exists_eq_succ_of_ne_zero (Nat.ne_zero_of_lt room)
      have first : newEnv index = some text := present 0 text rfl
      have rest : untilNull newEnv slots (index + 1) = some texts := by
        apply inductionHypothesis (Nat.lt_of_succ_lt_succ room)
        · intro place other found
          have slot := present (place + 1) other found
          rwa [← Nat.add_assoc, Nat.add_right_comm] at slot
        · rwa [List.length_cons, ← Nat.add_assoc, Nat.add_right_comm]
            at terminated
      rw [untilNull, first, rest]
      rfl

/-- The texts that are stored are strings of the environment. -/
def selection
    (environ : Environment)
    (content : List UInt8) : Environment :=
  ((found environ 0 (pieces lineFeed lineRoom content)).map
    Variable.text).map fun text => ⟨stringAt text, zero_not_mem_stringAt text⟩

theorem map_val_selection
    (environ : Environment)
    (content : List UInt8) :
    (selection environ content).map Subtype.val =
      (found environ 0 (pieces lineFeed lineRoom content)).map
        Variable.text := by
  rw [selection, List.map_map, List.map_map]
  apply List.map_congr_left
  intro var isFound
  obtain ⟨entry, -, same⟩ := mem_of_found isFound
  rw [Function.comp_apply, Function.comp_apply, ← same]
  exact stringAt_of_noZero entry.property

/-- With room for the terminator, `execve` passes on the strings of the
variables that the file names. -/
theorem execEnviron_readEnvFile
    {content : List UInt8}
    {uninitialised : Nat → Option (List UInt8)}
    {reading : Reading}
    (few : (found environ 0 (pieces lineFeed lineRoom content)).length <
      newEnvSlots)
    (reads : readEnvFile environ (some content) uninitialised newEnvSlots =
      some reading) :
    execEnviron reading.newEnv = some (selection environ content) := by
  obtain ⟨other, otherReads, stored, terminated, -, slots⟩ :=
    readEnvFile_spec environ content uninitialised newEnvSlots
  obtain rfl : other = reading :=
    Option.some.inj (otherReads.symm.trans reads)
  rw [← found_pieces, List.take_of_length_le (Nat.le_of_lt few)] at stored
  have array : untilNull other.newEnv newEnvSlots 0 = some
      ((found environ 0 (pieces lineFeed lineRoom content)).map
        Variable.text) := by
    apply untilNull_eq
    · rwa [List.length_map]
    · intro place text present
      rw [← stored, List.getElem?_map, Option.map_eq_some_iff] at present
      obtain ⟨var, present, rfl⟩ := present
      rw [Nat.zero_add]
      exact slots place var present
    · rwa [List.length_map, Nat.zero_add, ← stored]
  rw [execEnviron, array]
  rfl

/-- The two kinds of children print the same lines. -/
theorem readEnvFromFile_selection
    (once : SetOnce environ)
    (content : List UInt8) :
    readEnvFromFile (selection environ content) content =
      readEnvFromArray (selection environ content) := by
  have strings := map_val_selection environ content
  have selects : ∀ entry ∈ selection environ content, entry ∈ environ := by
    intro entry member
    have text : entry.val ∈ (selection environ content).map Subtype.val :=
      List.mem_map_of_mem member
    rw [strings] at text
    obtain ⟨var, isFound, same⟩ := List.mem_map.mp text
    obtain ⟨original, present, sets⟩ := mem_of_found isFound
    rwa [Subtype.ext (same.symm.trans sets.symm)]
  have alike : ∀ buf ∈ pieces lineFeed lineRoom content,
      getenv (selection environ content) (chomp buf) =
        getenv environ (chomp buf) := by
    intro buf member
    apply getenv_selection once selects
    intro value isSet
    have stored := found_of_mem 0 member isSet
    rw [← strings] at stored
    exact List.mem_map.mp stored
  rw [readEnvFromArray, strings, map_text_found, readEnvFromFile]
  apply List.filterMap_congr
  intro buf member
  rw [alike buf member]

end Printed

/-! ## All runs of the program -/

/-- The children that were started so far: they have their own names, of which
there are a hundred, and one environment. -/
structure Started
    (environ : Environment)
    (content : List UInt8)
    (parent : Parent) : Prop where
  array : execEnviron parent.newEnv = some (selection environ content)
  bound : parent.childCount ≤ maxChildren
  number : parent.place ≠ .exited false →
    parent.started.length = parent.childCount
  names : parent.started.map Child.name =
    (List.range parent.started.length).map childName
  fewer : parent.started.length ≤ parent.childCount
  environs : ∀ child ∈ parent.started,
    child.environ = selection environ content
  waited : parent.place = .exited true → parent.table.children = []

theorem Started.spawn
    {environ : Environment}
    {content : List UInt8}
    {parent next : Parent}
    {envPath : Option (List UInt8)}
    {forked : Option Nat}
    (kept : Started environ content parent)
    (ready : parent.place = .command)
    (spawned : parent.spawn envPath forked = some next) :
    Started environ content next := by
  unfold Parent.spawn at spawned
  split at spawned
  · cases spawned
    exact kept
  · rename_i room
    have number := kept.number (by simp [ready])
    have bound : parent.childCount + 1 ≤ maxChildren := by omega
    cases forked with
    | none =>
        cases spawned
        refine ⟨kept.array, bound, fun alive => absurd rfl alive,
          kept.names, Nat.le_succ_of_le kept.fewer, kept.environs, ?_⟩
        intro impossible
        cases impossible
    | some pid =>
        simp only [Option.bind_eq_some_iff, Option.map_eq_some_iff] at spawned
        obtain ⟨environ', array, table, -, rfl⟩ := spawned
        have same : selection environ content = environ' :=
          Option.some.inj (kept.array.symm.trans array)
        refine ⟨kept.array, bound, fun _ => ?_, ?_, ?_, ?_, ?_⟩
        · rw [List.length_append, List.length_singleton, number]
        · rw [List.map_append, kept.names, List.length_append,
            List.length_singleton, List.range_succ, List.map_append, number]
          rfl
        · rw [List.length_append, List.length_singleton, number]
        · intro child member
          rcases List.mem_append.mp member with old | new
          · exact kept.environs child old
          · rw [List.mem_singleton.mp new, same]
        · simp [ready]

theorem Started.step
    {environ : Environment}
    {content : List UInt8}
    {parent next : Parent}
    {action : Action}
    (kept : Started environ content parent)
    (stepped : ChildEnvironment.step parent action = some next) :
    Started environ content next := by
  cases action with
  | plus forked | star forked =>
      simp only [ChildEnvironment.step] at stepped
      split at stepped
      · rename_i ready
        exact kept.spawn ready stepped
      · cases stepped
  | quit =>
      simp only [ChildEnvironment.step] at stepped
      split at stepped
      · rename_i ready
        cases stepped
        exact ⟨kept.array, kept.bound, fun _ => kept.number (by simp [ready]),
          kept.names, kept.fewer, kept.environs, by simp⟩
      · cases stepped
  | other =>
      simp only [ChildEnvironment.step] at stepped
      split at stepped
      · cases stepped
        exact kept
      · cases stepped
  | wait pid =>
      simp only [ChildEnvironment.step] at stepped
      split at stepped
      · rename_i waits
        obtain ⟨table, -, rfl⟩ := Option.map_eq_some_iff.mp stepped
        exact ⟨kept.array, kept.bound, kept.number, kept.names, kept.fewer,
          kept.environs, by simp [waits]⟩
      · cases stepped
  | waitFails =>
      simp only [ChildEnvironment.step] at stepped
      split at stepped
      · rename_i last
        cases stepped
        exact ⟨kept.array, kept.bound,
          fun _ => kept.number (by simp [last.1]), kept.names, kept.fewer,
          kept.environs, fun _ => last.2⟩
      · cases stepped
  | die pid =>
      obtain ⟨table, died, rfl⟩ := Option.map_eq_some_iff.mp stepped
      refine ⟨kept.array, kept.bound, kept.number, kept.names, kept.fewer,
        kept.environs, fun exited => ?_⟩
      -- Nobody is left who could die.
      have none_ := kept.waited exited
      obtain ⟨alive, -⟩ := ProcessTable.die_eq_some died
      simp [none_] at alive

/-- The hundred names differ. -/
theorem childNames_nodup : ((List.range maxChildren).map childName).Nodup := by
  decide +kernel

theorem Started.of_reachable
    {environ : Environment}
    {content : List UInt8}
    {parent : Parent}
    (few : (found environ 0 (pieces lineFeed lineRoom content)).length <
      newEnvSlots)
    (reachable : (program environ (some content)).Reachable parent) :
    Started environ content parent := by
  apply reachable.invariant
  · rintro first ⟨uninitialised, started⟩
    obtain ⟨path, -, started⟩ := Option.bind_eq_some_iff.mp started
    obtain ⟨reading, reads, rfl⟩ := Option.map_eq_some_iff.mp started
    exact ⟨execEnviron_readEnvFile few reads, Nat.zero_le _, fun _ => rfl, rfl,
      Nat.zero_le _, by simp, fun exited => nomatch exited⟩
  · intro _ _ _ kept _ stepped
    exact kept.step stepped

/-- What the parent promises its user: at most a hundred children, each under
its own name, every one of which prints the variables that the pieces read from
the file name, in the order of the file, whichever command started it; and after
the quit command, unlike after a failed `fork`, no child is left behind. -/
structure ChildrenAlike
    (environ : Environment)
    (content : List UInt8)
    (parent : Parent) : Prop where
  bound : parent.started.length ≤ maxChildren
  names : (parent.started.map Child.name).Nodup
  printed : ∀ child ∈ parent.started, child.printed (some content) =
    some ((found environ 0 (pieces lineFeed lineRoom content)).map
      Variable.text)
  waited : parent.place = .exited true → parent.table.children = []

/-- With every variable set once and a slot left for the terminator, in every
reachable state. -/
theorem reachable_childrenAlike
    (environ : Environment)
    (content : List UInt8)
    (once : SetOnce environ)
    (few : (found environ 0 (pieces lineFeed lineRoom content)).length <
      newEnvSlots)
    (parent : Parent)
    (reachable : (program environ (some content)).Reachable parent) :
    ChildrenAlike environ content parent := by
  have kept := Started.of_reachable few reachable
  have bound := Nat.le_trans kept.fewer kept.bound
  refine ⟨bound, ?_, fun child member => ?_, kept.waited⟩
  · rw [kept.names]
    exact childNames_nodup.sublist ((List.range_sublist.mpr bound).map _)
  · have array : readEnvFromArray (selection environ content) =
        (found environ 0 (pieces lineFeed lineRoom content)).map
          Variable.text := map_val_selection environ content
    rw [Child.printed, kept.environs child member]
    split
    · rw [Option.map_some, readEnvFromFile_selection once, array]
    · rw [array]

/-- Three variables, of which the file names two. -/
def threeVariables : Environment :=
  [⟨ascii "CHILD_PATH=child", by decide⟩, ⟨ascii "A=1", by decide⟩,
    ⟨ascii "B=2", by decide⟩]

theorem threeVariables_childrenAlike :
    ∃ first final,
      start threeVariables (some (ascii "B\nX\nA\n")) (fun _ => none) =
          some first ∧
        (program threeVariables (some (ascii "B\nX\nA\n"))).run first
            [.plus (some 7), .star (some 8)] = some final ∧
          final.started.length = 2 ∧
            ChildrenAlike threeVariables (ascii "B\nX\nA\n") final := by
  have evaluated :
      ((start threeVariables (some (ascii "B\nX\nA\n")) fun _ => none).bind
        fun first => ((program threeVariables (some (ascii "B\nX\nA\n"))).run
          first [.plus (some 7), .star (some 8)]).map
            fun final => final.started.length) = some 2 := by
    decide +kernel
  obtain ⟨first, started, rest⟩ := Option.bind_eq_some_iff.mp evaluated
  obtain ⟨final, ran, two⟩ := Option.map_eq_some_iff.mp rest
  refine ⟨first, final, started, ran, two, ?_⟩
  exact reachable_childrenAlike threeVariables (ascii "B\nX\nA\n")
    (by unfold SetOnce; decide +kernel) (by decide +kernel) final
    (Machine.Reachable.run (.initial ⟨_, started⟩) ran)

end ChildEnvironment
end OSaSP
