import OSaSP.Foundations.PosixTree

/-!
# The directory walk

`traverse_dir` goes down on path strings: it opens a directory by its path,
asks `lstat` about every entry, lists the path if it passes the filter and
calls itself on the path of a directory.  Paths are cut to the size of the
buffer, so the recursion is one on strings and not on the tree.
-/

namespace OSaSP
namespace DirWalk

open CString PosixTree

/-! ## The list of paths -/

/-- `PathList`: so many slots, of which the first ones are filled. -/
structure PathList where
  items : List (Option (List UInt8))
  count : Nat
  capacity : Nat
  allocated : items.length = capacity
  bounded : count ≤ capacity
  filled : none ∉ items.take count

namespace PathList

/-- The list that main begins with. -/
def empty : PathList where
  items := []
  count := 0
  capacity := 0
  allocated := rfl
  bounded := Nat.le_refl 0
  filled := List.not_mem_nil

/-- The collected paths. -/
def contents (plist : PathList) : List (List UInt8) :=
  (plist.items.take plist.count).filterMap id

/-- A successful `realloc`: the new slots hold nothing yet. -/
def grow
    (plist : PathList)
    (newCapacity : Nat)
    (larger : plist.capacity ≤ newCapacity) : PathList where
  items := plist.items ++
    List.replicate (newCapacity - plist.capacity) none
  count := plist.count
  capacity := newCapacity
  allocated := by
    rw [List.length_append, List.length_replicate, plist.allocated]
    omega
  bounded := plist.bounded.trans larger
  filled := by
    rw [List.take_append_of_le_length (plist.allocated ▸ plist.bounded)]
    exact plist.filled

/-- Filling the slot behind the others adds an item. -/
theorem take_set
    {items : List (Option (List UInt8))}
    {count : Nat}
    (inside : count < items.length)
    (path : List UInt8) :
    (items.set count (some path)).take (count + 1) =
      items.take count ++ [some path] := by
  have room : count < (items.set count (some path)).length := by
    rw [List.length_set]
    exact inside
  rw [List.take_succ_eq_append_getElem room,
    List.take_set_of_le (Nat.le_refl _), List.getElem_set_self]

/-- `pl->items[pl->count] = path; pl->count++` -/
def put
    (plist : PathList)
    (path : List UInt8)
    (room : plist.count < plist.capacity) : PathList where
  items := plist.items.set plist.count (some path)
  count := plist.count + 1
  capacity := plist.capacity
  allocated := by
    rw [List.length_set]
    exact plist.allocated
  bounded := room
  filled := by
    rw [take_set (plist.allocated ▸ room), List.mem_append, not_or]
    exact ⟨plist.filled, by simp⟩

@[simp] theorem contents_grow
    (plist : PathList)
    (newCapacity : Nat)
    (larger : plist.capacity ≤ newCapacity) :
    (plist.grow newCapacity larger).contents = plist.contents := by
  simp only [contents, grow]
  rw [List.take_append_of_le_length (plist.allocated ▸ plist.bounded)]

@[simp] theorem contents_put
    (plist : PathList)
    (path : List UInt8)
    (room : plist.count < plist.capacity) :
    (plist.put path room).contents = plist.contents ++ [path] := by
  simp only [contents, put]
  rw [take_set (plist.allocated ▸ room), List.filterMap_append]
  rfl

/-- `newCapacity` -/
def newCapacity (plist : PathList) : Nat :=
  if plist.capacity = 0 then 16 else plist.capacity * 2

theorem capacity_lt_newCapacity (plist : PathList) :
    plist.capacity < plist.newCapacity := by
  unfold newCapacity
  split <;> omega

end PathList

/-! ## The program -/

/-- `Options`. -/
structure Options where
  lOnly : Bool
  dOnly : Bool
  fOnly : Bool
  sort : Bool

/-- What the program writes to the standard error output. -/
inductive Message
  | realloc
  | strdup
  | opendir (basepath : List UInt8)
  | lstat (path : List UInt8)
  deriving DecidableEq

/-- The running program: its list, the number of allocations it has asked for,
its messages and the directories it has opened. -/
structure WalkState where
  plist : PathList
  allocations : Nat
  stderr : List Message
  entered : List Location

namespace WalkState

/-- The program at its start. -/
def start : WalkState where
  plist := .empty
  allocations := 0
  stderr := []
  entered := []

/-- A message is written. -/
def report (state : WalkState) (message : Message) : WalkState :=
  { state with stderr := state.stderr ++ [message] }

/-- A directory is opened. -/
def enter (state : WalkState) (location : Location) : WalkState :=
  { state with entered := state.entered ++ [location] }

/-- An allocation is asked for. -/
def allocate (state : WalkState) : WalkState :=
  { state with allocations := state.allocations + 1 }

end WalkState

/-- A function returns, or the program calls `exit(EXIT_FAILURE)`. -/
inductive Outcome
  | returned (state : WalkState)
  | exited (state : WalkState)

/-- The program at that moment. -/
def Outcome.state : Outcome → WalkState
  | .returned state => state
  | .exited state => state

/-- What comes next, unless the program has exited. -/
def Outcome.andThen
    (outcome : Outcome)
    (next : WalkState → Option Outcome) : Option Outcome :=
  match outcome with
  | .returned state => next state
  | .exited state => some (.exited state)

/-- The end of `add_path`: the copy of the path and its slot. -/
def storePath
    (memory : Nat → Bool)
    (path : List UInt8)
    (state : WalkState)
    (room : state.plist.count < state.plist.capacity) : Outcome :=
  if memory state.allocations then
    .returned { state.allocate with plist := state.plist.put path room }
  else .exited (state.allocate.report .strdup)

/-- `add_path`; `memory` says which allocations succeed.  (An array so large
that the capacity would overflow is refused long before.) -/
def addPath
    (memory : Nat → Bool)
    (path : List UInt8)
    (state : WalkState) : Outcome :=
  if full : state.plist.count = state.plist.capacity then
    if memory state.allocations then
      storePath memory path
        { state.allocate with
          plist := state.plist.grow state.plist.newCapacity
            (Nat.le_of_lt state.plist.capacity_lt_newCapacity) }
        (Nat.lt_of_le_of_lt (Nat.le_of_eq full)
          state.plist.capacity_lt_newCapacity)
    else .exited (state.allocate.report .realloc)
  else
    storePath memory path state (Nat.lt_of_le_of_ne state.plist.bounded full)

/-- The path is behind the others and nothing else has happened, or an
allocation that was asked for has failed. -/
def Adds
    (memory : Nat → Bool)
    (path : List UInt8)
    (before : WalkState) : Outcome → Prop
  | .returned after =>
      after.plist.contents = before.plist.contents ++ [path] ∧
        after.stderr = before.stderr ∧ after.entered = before.entered
  | .exited after =>
      (∃ request < after.allocations, memory request = false) ∧
        after.entered = before.entered

theorem storePath_adds
    (memory : Nat → Bool)
    (path : List UInt8)
    (state : WalkState)
    (room : state.plist.count < state.plist.capacity) :
    Adds memory path state (storePath memory path state room) := by
  unfold storePath
  by_cases granted : memory state.allocations = true
  · rw [if_pos granted]
    exact ⟨PathList.contents_put _ _ _, rfl, rfl⟩
  · rw [if_neg granted]
    rw [Bool.not_eq_true] at granted
    exact ⟨⟨_, Nat.lt_succ_self _, granted⟩, rfl⟩

/-- A full array grows and keeps what is in it. -/
theorem addPath_adds
    (memory : Nat → Bool)
    (path : List UInt8)
    (state : WalkState) :
    Adds memory path state (addPath memory path state) := by
  unfold addPath
  by_cases full : state.plist.count = state.plist.capacity
  · rw [dif_pos full]
    by_cases granted : memory state.allocations = true
    · rw [if_pos granted]
      have adds := storePath_adds memory path
        { state.allocate with
          plist := state.plist.grow state.plist.newCapacity
            (Nat.le_of_lt state.plist.capacity_lt_newCapacity) }
        (Nat.lt_of_le_of_lt (Nat.le_of_eq full)
          state.plist.capacity_lt_newCapacity)
      unfold Adds at adds ⊢
      rw [PathList.contents_grow] at adds
      exact adds
    · rw [if_neg granted]
      rw [Bool.not_eq_true] at granted
      exact ⟨⟨_, Nat.lt_succ_self _, granted⟩, rfl⟩
  · rw [dif_neg full]
    exact storePath_adds memory path state _

/-- `is_match`; the path is not looked at. -/
def isMatch (_path : List UInt8) (sb : Node) (opts : Options) : Bool :=
  let anyFilter := opts.lOnly || opts.dOnly || opts.fOnly
  if opts.lOnly && sb.isLnk then true
  else if opts.dOnly && sb.isDir then true
  else if opts.fOnly && sb.isReg then true
  else if !anyFilter then true
  else false

section Program

variable (tree : Tree) (memory : Nat → Bool) (opts : Options)

/-- What happens to a path after its `lstat`: it is listed if it matches, and
`traverse_dir` is called on it if it is a directory. -/
def examine
    (descend : List UInt8 → WalkState → Option Outcome)
    (path : List UInt8)
    (sb : Node)
    (state : WalkState) : Option Outcome :=
  let added :=
    if isMatch path sb opts then addPath memory path state
    else .returned state
  added.andThen fun state =>
    if sb.isDir then descend path state else some (.returned state)

/-- The loop over `readdir`; `descend` is the recursive call. -/
def readLoop
    (descend : List UInt8 → WalkState → Option Outcome)
    (basepath : List UInt8) :
    List (List UInt8) → WalkState → Option Outcome
  | [], state => some (.returned state)
  | dName :: entries, state =>
      if dName = ascii "." ∨ dName = ascii ".." then
        readLoop descend basepath entries state
      else
        let path := snprintf pathMax (basepath ++ slash :: dName)
        match tree.lstat path with
        | none =>
            readLoop descend basepath entries (state.report (.lstat path))
        | some (_, sb) =>
            (examine memory opts descend path sb state).bind fun outcome =>
              outcome.andThen (readLoop descend basepath entries)

/-- `traverse_dir`, unless it goes deeper than the given bound. -/
def traverseDir : Nat → List UInt8 → WalkState → Option Outcome
  | 0, _, _ => none
  | depth + 1, basepath, state =>
      match tree.opendir basepath with
      | none => some (.returned (state.report (.opendir basepath)))
      | some (location, listing) =>
          readLoop tree memory opts (traverseDir depth) basepath listing
            (state.enter location)

/-- What main does before it sorts. -/
def collect (depth : Nat) (startDir : List UInt8) : Option Outcome :=
  match tree.lstat startDir with
  | none => some (.exited (WalkState.start.report (.lstat startDir)))
  | some (_, sb) =>
      examine memory opts (traverseDir tree memory opts depth) startDir sb
        .start

end Program

end DirWalk
end OSaSP
