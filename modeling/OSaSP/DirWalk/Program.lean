import OSaSP.DirWalk.Collected
import Mathlib.Order.Lattice

/-!
# The whole of `dirwalk`

`main` reads its options, walks through the tree, sorts if it is asked to and
prints a path a line.  Some versions of `getopt` take options only in front of
the directory, others move the directory to the end of the arguments and also
take those behind it.

The lines are those of the objects that pass the filter, in the order of the
locale or every directory before its contents.  On any tree, sorting changes
nothing but the order.  The descriptors and the stack of the process are taken
to suffice for the depth of the tree.
-/

namespace OSaSP
namespace DirWalk

open CString RenderedPath PosixTree Descent

/-! ## The options -/

/-- The options before the first one is read. -/
def Options.unset : Options where
  lOnly := false
  dOnly := false
  fOnly := false
  sort := false

/-- The `switch` over a letter; `none` is its default. -/
def Options.set (opts : Options) (letter : UInt8) : Option Options :=
  if letter = 108 then some { opts with lOnly := true }
  else if letter = 100 then some { opts with dOnly := true }
  else if letter = 102 then some { opts with fOnly := true }
  else if letter = 115 then some { opts with sort := true }
  else none

/-- The argument is taken for options: a minus sign and something behind it. -/
def isOptions (argument : List UInt8) : Bool :=
  argument.head? == some 45 && 1 < argument.length

/-- The loop over `getopt`: the options and the arguments from `optind` on;
`none` is an unknown letter.  `permutes` says that operands are moved to the end
of the arguments. -/
def getopt
    (permutes : Bool) :
    List (List UInt8) → Options → Option (Options × List (List UInt8))
  | [], opts => some (opts, [])
  | argument :: rest, opts =>
      if argument = ascii "--" then some (opts, rest)
      else if isOptions argument then
        (argument.tail.foldlM Options.set opts).bind (getopt permutes rest)
      else if permutes then
        (getopt permutes rest opts).map fun (opts, operands) =>
          (opts, argument :: operands)
      else some (opts, argument :: rest)

/-! ## The program -/

section Program

variable {Key : Type} [LinearOrder Key]

/-- `cmp_strcoll`; `strcoll` compares what `strxfrm` makes of its arguments. -/
def cmpStrcoll (strxfrm : List UInt8 → Key) (first second : List UInt8) : Int :=
  if strxfrm first < strxfrm second then -1
  else if strxfrm second < strxfrm first then 1
  else 0

/-- What `qsort` with `cmp_strcoll` does. -/
structure Sorter (strxfrm : List UInt8 → Key) where
  sort : List (List UInt8) → List (List UInt8)
  perm : ∀ items, (sort items).Perm items
  ordered : ∀ items, (sort items).Pairwise fun earlier later =>
    cmpStrcoll strxfrm earlier later ≤ 0

/-- How the program ends: with its usage, with a failure, or with the lines it
has printed. -/
inductive Ending
  | usage
  | failed (stderr : List Message)
  | printed (lines : List (List UInt8)) (stderr : List Message)

/-- `main`, unless the walk goes deeper than the given bound. -/
def main
    (tree : Tree)
    (memory : Nat → Bool)
    {strxfrm : List UInt8 → Key}
    (sorter : Sorter strxfrm)
    (permutes : Bool)
    (depth : Nat)
    (args : List (List UInt8)) : Option Ending :=
  match getopt permutes args .unset with
  | none => some .usage
  | some (opts, operands) =>
      let startDir := operands.headD (ascii "./")
      (collect tree memory opts depth startDir).map fun
        | .exited state => .failed state.stderr
        | .returned state =>
            .printed
              (if opts.sort then sorter.sort state.plist.contents
              else state.plist.contents) state.stderr

end Program

/-! ## What is parsed -/

/-- The options with those that the letters ask for. -/
def Options.given (opts : Options) (letters : List UInt8) : Options where
  lOnly := opts.lOnly || letters.contains 108
  dOnly := opts.dOnly || letters.contains 100
  fOnly := opts.fOnly || letters.contains 102
  sort := opts.sort || letters.contains 115

/-- A minus sign and known letters. -/
def IsOptions (argument : List UInt8) : Prop :=
  ∃ letters, argument = 45 :: letters ∧ letters ≠ [] ∧
    ∀ letter ∈ letters, letter ∈ ascii "ldfs"

/-- An argument that is not taken for options. -/
def IsOperand (argument : List UInt8) : Prop :=
  argument ≠ ascii "--" ∧ isOptions argument = false

section Parsing

variable {permutes : Bool} {opts : Options}

/-- Known letters set their options. -/
theorem foldlM_set
    {letters : List UInt8}
    (known : ∀ letter ∈ letters, letter ∈ ascii "ldfs") :
    letters.foldlM Options.set opts = some (opts.given letters) := by
  induction letters generalizing opts with
  | nil =>
      obtain ⟨_, _, _, _⟩ := opts
      simp [Options.given]
  | cons letter letters inductionHypothesis =>
      rw [List.forall_mem_cons] at known
      have isLetter : letter = 108 ∨ letter = 100 ∨ letter = 102 ∨
          letter = 115 := by
        simpa [ascii] using known.1
      rw [List.foldlM_cons]
      rcases isLetter with rfl | rfl | rfl | rfl <;>
        simp [Options.set, inductionHypothesis known.2, Options.given]

theorem Options.given_append (front back : List UInt8) :
    (opts.given front).given back = opts.given (front ++ back) := by
  simp [Options.given, Bool.or_assoc]

theorem Options.given_nil : opts.given [] = opts := by
  obtain ⟨_, _, _, _⟩ := opts
  simp [Options.given]

/-- Arguments with options are taken one after the other. -/
theorem getopt_options
    {args : List (List UInt8)}
    (options : ∀ argument ∈ args, IsOptions argument)
    (rest : List (List UInt8)) :
    getopt permutes (args ++ rest) opts =
      getopt permutes rest (opts.given (args.flatMap List.tail)) := by
  induction args generalizing opts with
  | nil => rw [List.nil_append, List.flatMap_nil, Options.given_nil]
  | cons argument args inductionHypothesis =>
      rw [List.forall_mem_cons] at options
      obtain ⟨⟨letters, rfl, nonempty, known⟩, others⟩ := options
      have notEnd : 45 :: letters ≠ ascii "--" := by
        intro same
        have minus := known 45 (by
          rw [(List.cons.inj same).2]
          decide)
        exact absurd minus (by decide)
      have isOption : isOptions (45 :: letters) = true := by
        simpa [isOptions] using List.length_pos_iff.mpr nonempty
      rw [List.cons_append, getopt, if_neg notEnd, if_pos isOption,
        List.tail_cons, foldlM_set known, Option.bind_some,
        inductionHypothesis others, Options.given_append, List.flatMap_cons,
        List.tail_cons]

/-- The arguments that `getopt` takes for options: all of them, or those in
front of the directory. -/
def accepted
    (permutes : Bool)
    (before : List (List UInt8))
    (dir : Option (List UInt8))
    (behind : List (List UInt8)) : List (List UInt8) :=
  if permutes ∨ dir = none then before ++ behind else before

/-- Options in front of a directory and behind it. -/
theorem getopt_around
    {before behind : List (List UInt8)}
    {dir : Option (List UInt8)}
    (options : ∀ argument ∈ before ++ behind, IsOptions argument)
    (operand : ∀ argument ∈ dir, IsOperand argument) :
    ∃ operands,
      getopt permutes (before ++ dir.toList ++ behind) opts =
        some (opts.given
          ((accepted permutes before dir behind).flatMap List.tail),
          operands) ∧
      operands.headD (ascii "./") = dir.getD (ascii "./") := by
  rw [List.forall_mem_append] at options
  have all : getopt permutes behind
      (opts.given (before.flatMap List.tail)) =
        some (opts.given ((before ++ behind).flatMap List.tail), []) := by
    have taken : getopt permutes (behind ++ [])
        (opts.given (before.flatMap List.tail)) = _ :=
      getopt_options options.2 []
    rw [List.append_nil] at taken
    rw [taken, Options.given_append, List.flatMap_append]
    rfl
  rw [List.append_assoc, getopt_options options.1]
  cases dir with
  | none =>
      refine ⟨[], ?_, rfl⟩
      rw [accepted, if_pos (.inr rfl)]
      exact all
  | some dir =>
      obtain ⟨notEnd, notOptions⟩ := operand dir rfl
      rw [Option.toList_some, List.singleton_append, getopt, if_neg notEnd,
        notOptions, if_neg Bool.false_ne_true]
      cases permutes with
      | true =>
          refine ⟨[dir], ?_, rfl⟩
          rw [if_pos rfl, all, accepted, if_pos (.inl rfl)]
          rfl
      | false =>
          refine ⟨dir :: behind, ?_, rfl⟩
          rw [if_neg Bool.false_ne_true, accepted, if_neg (by simp)]

end Parsing

/-! ## What is printed -/

/-- The lines are the paths of the objects at and below the start that pass the
filter, each of them once, sorted or every directory before its contents. -/
structure Lists
    {Key : Type}
    [LinearOrder Key]
    (strxfrm : List UInt8 → Key)
    (tree : Tree)
    (opts : Options)
    (startDir : List UInt8)
    (here : Location)
    (lines : List (List UInt8)) : Prop where
  exactly : ∀ path, path ∈ lines ↔
    ∃ (names : List (List UInt8)) (node : Node),
      path = startDir ++ render slash names ∧
      tree.node (names.reverse ++ here) = some node ∧ opts.Passes node
  once : lines.Nodup
  inOrder : opts.sort = true → lines.Pairwise fun earlier later =>
    strxfrm earlier ≤ strxfrm later
  directoriesFirst : opts.sort = false → lines.Pairwise fun earlier later =>
    ∀ names, earlier ≠ later ++ render slash names

section Program

variable {Key : Type} [LinearOrder Key] {strxfrm : List UInt8 → Key}
  {tree : Tree} {opts : Options} {startDir : List UInt8} {here : Location}

theorem cmpStrcoll_le_iff {first second : List UInt8} :
    cmpStrcoll strxfrm first second ≤ 0 ↔ strxfrm first ≤ strxfrm second := by
  unfold cmpStrcoll
  split_ifs with less greater
  · exact iff_of_true (by decide) less.le
  · exact iff_of_false (by decide) (not_le.mpr greater)
  · exact iff_of_true (Int.le_refl 0) (not_lt.mp greater)

/-- Sorting a collected list. -/
theorem Collected.lists
    {state : WalkState}
    (sorter : Sorter strxfrm)
    (collected : Collected tree opts startDir here state) :
    Lists strxfrm tree opts startDir here
      (if opts.sort then sorter.sort state.plist.contents
      else state.plist.contents) := by
  cases sorts : opts.sort with
  | false =>
      exact ⟨collected.exactly, collected.once,
        fun same => absurd (sorts.symm.trans same) Bool.false_ne_true,
        fun _ => collected.directoriesFirst⟩
  | true =>
      have perm := sorter.perm state.plist.contents
      refine ⟨fun path => perm.mem_iff.trans (collected.exactly path),
        perm.nodup_iff.mpr collected.once, fun _ => ?_,
        fun same => absurd (same.symm.trans sorts) Bool.false_ne_true⟩
      exact (sorter.ordered _).imp cmpStrcoll_le_iff.mp

/-- The program comes to its end with the right lines and nothing else, unless
an allocation has failed. -/
def Prints
    (strxfrm : List UInt8 → Key)
    (tree : Tree)
    (memory : Nat → Bool)
    (opts : Options)
    (startDir : List UInt8)
    (here : Location) : Ending → Prop
  | .usage => False
  | .failed _ => ∃ request, memory request = false
  | .printed lines stderr =>
      stderr = [] ∧ Lists strxfrm tree opts startDir here lines

/-- For every tree, every start in it whose objects all have paths that fit and
whose directories can all be read and searched, and every command line of known
options around the start: `dirwalk` prints the paths of the objects at and
below the start that pass the filter, each once, in the order of the locale if
it is asked to sort and every directory before its contents otherwise, unless an
allocation has failed.  Neither the descriptors nor the stack run out, and
options behind the start count only where `getopt` moves operands. -/
theorem main_prints
    (tree : Tree)
    (memory : Nat → Bool)
    (sorter : Sorter strxfrm)
    (permutes : Bool)
    (before behind : List (List UInt8))
    (dir : Option (List UInt8))
    (here : Location)
    (sb : Node)
    (options : ∀ argument ∈ before ++ behind, IsOptions argument)
    (operand : ∀ argument ∈ dir, IsOperand argument)
    (found : tree.lstat (dir.getD (ascii "./")) = some (here, sb))
    (readable : Readable tree (dir.getD (ascii "./")) here) :
    ∃ least, ∀ depth, least ≤ depth → ∃ ending,
      main tree memory sorter permutes depth
        (before ++ dir.toList ++ behind) = some ending ∧
      Prints strxfrm tree memory
        (Options.unset.given
          ((accepted permutes before dir behind).flatMap List.tail))
        (dir.getD (ascii "./")) here ending := by
  obtain ⟨operands, parsed, head⟩ :
      ∃ operands, getopt permutes (before ++ dir.toList ++ behind) .unset =
          some (Options.unset.given
            ((accepted permutes before dir behind).flatMap List.tail),
            operands) ∧
        operands.headD (ascii "./") = dir.getD (ascii "./") :=
    getopt_around options operand
  obtain ⟨visited, visits⟩ := exists_visits
    ((start_tracks found).ends (nowhere_of_readable found readable))
  obtain ⟨least, goes⟩ := collect_of_visits found visits
  refine ⟨least, fun depth enough => ?_⟩
  obtain ⟨outcome, ran, follows⟩ := goes depth enough
  rw [main, parsed]
  dsimp only
  rw [head, ran]
  cases outcome with
  | returned state =>
      have collected := Logged.collected follows found readable visits
      exact ⟨_, rfl, collected.silent, collected.lists sorter⟩
  | exited state =>
      obtain ⟨request, -, refused⟩ := follows.1
      exact ⟨_, rfl, request, refused⟩

/-! ## Sorting -/

/-- The same options with sorting. -/
def Options.withSort (opts : Options) : Options :=
  { opts with sort := true }

theorem set_withSort (letter : UInt8) :
    opts.withSort.set letter = (opts.set letter).map Options.withSort := by
  unfold Options.set
  split_ifs <;> rfl

theorem foldlM_withSort (letters : List UInt8) :
    letters.foldlM Options.set opts.withSort =
      (letters.foldlM Options.set opts).map Options.withSort := by
  induction letters generalizing opts with
  | nil => rfl
  | cons letter letters inductionHypothesis =>
      rw [List.foldlM_cons, List.foldlM_cons, set_withSort]
      cases opts.set letter with
      | none => rfl
      | some next => exact inductionHypothesis

/-- `getopt` does the same whether sorting is already chosen or not. -/
theorem getopt_withSort (permutes : Bool) (args : List (List UInt8)) :
    getopt permutes args opts.withSort =
      (getopt permutes args opts).map fun (opts, operands) =>
        (opts.withSort, operands) := by
  induction args generalizing opts with
  | nil => rfl
  | cons argument rest inductionHypothesis =>
      rw [getopt, getopt]
      split_ifs with ends options permuting
      · rfl
      · rw [foldlM_withSort]
        cases argument.tail.foldlM Options.set opts with
        | none => rfl
        | some next => exact inductionHypothesis
      · rw [inductionHypothesis, Option.map_map, Option.map_map]
        rfl
      · rfl

/-- The option `-s` in front of all others. -/
theorem getopt_dashS (permutes : Bool) (args : List (List UInt8)) :
    getopt permutes (ascii "-s" :: args) opts =
      (getopt permutes args opts).map fun (opts, operands) =>
        (opts.withSort, operands) := by
  rw [← getopt_withSort]
  rfl

/-- The walk does not look at the option to sort. -/
theorem readLoop_withSort
    (memory : Nat → Bool)
    (descend : List UInt8 → WalkState → Option Outcome)
    (basepath : List UInt8)
    (entries : List (List UInt8))
    (state : WalkState) :
    readLoop tree memory opts.withSort descend basepath entries state =
      readLoop tree memory opts descend basepath entries state := by
  induction entries generalizing state with
  | nil => rfl
  | cons dName entries inductionHypothesis =>
      have rest : readLoop tree memory opts.withSort descend basepath entries =
          readLoop tree memory opts descend basepath entries :=
        funext inductionHypothesis
      rw [readLoop, readLoop, rest]
      rfl

theorem traverseDir_withSort (memory : Nat → Bool) (depth : Nat) :
    traverseDir tree memory opts.withSort depth =
      traverseDir tree memory opts depth := by
  induction depth with
  | zero => rfl
  | succ depth inductionHypothesis =>
      funext basepath state
      rw [traverseDir, traverseDir, inductionHypothesis]
      cases tree.opendir basepath with
      | none => rfl
      | some opened => exact readLoop_withSort memory _ _ _ _

theorem collect_withSort
    (memory : Nat → Bool)
    (depth : Nat)
    (startDir : List UInt8) :
    collect tree memory opts.withSort depth startDir =
      collect tree memory opts depth startDir := by
  rw [collect, collect, traverseDir_withSort]
  rfl

/-- The second program ends like the first one, with the same lines in the
order of the locale. -/
def Reordered (strxfrm : List UInt8 → Key) : Ending → Ending → Prop
  | .usage, .usage => True
  | .failed stderr, .failed stderr' => stderr' = stderr
  | .printed lines stderr, .printed lines' stderr' =>
      stderr' = stderr ∧ lines'.Perm lines ∧
        lines'.Pairwise fun earlier later => strxfrm earlier ≤ strxfrm later
  | _, _ => False

/-- On every tree, with every command line and whatever allocations fail, `-s`
changes nothing but the order of the lines. -/
theorem sorting_reorders
    (tree : Tree)
    (memory : Nat → Bool)
    (sorter : Sorter strxfrm)
    (permutes : Bool)
    (depth : Nat)
    (args : List (List UInt8))
    (plain : Ending)
    (ran : main tree memory sorter permutes depth args = some plain) :
    ∃ sorted,
      main tree memory sorter permutes depth (ascii "-s" :: args) =
        some sorted ∧
      Reordered strxfrm plain sorted := by
  rw [main, getopt_dashS]
  rw [main] at ran
  cases parsed : getopt permutes args .unset with
  | none =>
      rw [parsed] at ran
      cases ran
      exact ⟨_, rfl, trivial⟩
  | some result =>
      obtain ⟨opts, operands⟩ := result
      rw [parsed] at ran
      dsimp only [Option.map_some] at ran ⊢
      rw [collect_withSort]
      obtain ⟨outcome, walked, rfl⟩ := Option.map_eq_some_iff.mp ran
      rw [walked]
      cases outcome with
      | exited state => exact ⟨_, rfl, rfl⟩
      | returned state =>
          have perm := sorter.perm state.plist.contents
          refine ⟨_, rfl, rfl, ?_, (sorter.ordered _).imp cmpStrcoll_le_iff.mp⟩
          cases opts.sort with
          | false => exact perm
          | true => exact .refl _

end Program

/-! ## A link and its directory -/

/-- A merge sort does what `qsort` is assumed to do. -/
def mergeSorter
    {Key : Type}
    [LinearOrder Key]
    (strxfrm : List UInt8 → Key) : Sorter strxfrm where
  sort items := items.mergeSort fun first second =>
    decide (strxfrm first ≤ strxfrm second)
  perm items := List.mergeSort_perm items _
  ordered items := by
    refine (List.pairwise_mergeSort ?_ ?_ items).imp fun ordered =>
      cmpStrcoll_le_iff.mpr (of_decide_eq_true ordered)
    · simpa using fun _ _ _ => le_trans
    · intro first second
      simpa using le_total (strxfrm first) (strxfrm second)

/-- The shorter paths first. -/
def lengthSorter : Sorter List.length := mergeSorter List.length

/-- Directories are asked for in front of the start, links and the order behind
it. -/
theorem linkUp_prints :
    ∃ least, ∀ depth, least ≤ depth → ∃ ending,
      main linkUp (fun _ => true) lengthSorter true depth
        [ascii "-d", ascii "./", ascii "-ls"] = some ending ∧
      Prints List.length linkUp (fun _ => true) ⟨true, true, false, true⟩
        (ascii "./") [] ending :=
  main_prints linkUp (fun _ => true) lengthSorter true [ascii "-d"]
    [ascii "-ls"] (some (ascii "./")) [] (.directory [ascii "a"])
    (by
      intro argument member
      simp only [List.singleton_append, List.mem_cons, List.not_mem_nil,
        or_false] at member
      rcases member with rfl | rfl
      · exact ⟨ascii "d", rfl, by decide, by simp [ascii]⟩
      · exact ⟨ascii "ls", rfl, by decide, by simp [ascii]⟩)
    (by
      rintro _ ⟨⟩
      exact ⟨by decide, by decide⟩)
    (lstat_dotSlash rfl rfl) linkUp_readable

/-- The same without the order, and then with it. -/
theorem linkUp_reordered :
    ∃ plain sorted,
      main linkUp (fun _ => true) lengthSorter false 3 [ascii "-dl"] =
        some plain ∧
      main linkUp (fun _ => true) lengthSorter false 3
        [ascii "-s", ascii "-dl"] = some sorted ∧
      Reordered List.length plain sorted := by
  have ran : ∃ plain, main linkUp (fun _ => true) lengthSorter false 3
      [ascii "-dl"] = some plain :=
    Option.isSome_iff_exists.mp (by decide +kernel)
  obtain ⟨plain, ran⟩ := ran
  obtain ⟨sorted, ranSorted, reordered⟩ := sorting_reorders linkUp
    (fun _ => true) lengthSorter false 3 [ascii "-dl"] plain ran
  exact ⟨plain, sorted, ran, ranSorted, reordered⟩

end DirWalk
end OSaSP
