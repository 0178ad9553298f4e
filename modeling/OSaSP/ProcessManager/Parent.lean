import OSaSP.Foundations.CString
import OSaSP.Foundations.Machine
import OSaSP.Foundations.Segment
import Mathlib.Algebra.Order.Ring.Nat

/-!
# The process manager

`parent.c` keeps its children in an array.  The commands of the user append to
it and cut it, and both the `SIGCHLD` handler and a loop in `main` take children
out of it that have died.  The handler may run between any two statements of the
main program; it runs to its end and reaps every dead child.

Statements that touch neither the array, its size and capacity nor a process
are left out, as are the printed lines; a statement that only prints an entry
still reads the array.
-/

namespace OSaSP
namespace ProcessManager

open CString Segment

/-- The values of a `size_t`. -/
def sizeModulus : Nat := 2 ^ 64

/-- Process ids are positive `int`s. -/
def pidLimit : Nat := 2 ^ 31

/-- `CAPACITY`. -/
def initialCapacity : Nat := 8

/-- `size - 1` as a `size_t`. -/
def pred (size : Nat) : Nat :=
  if size = 0 then sizeModulus - 1 else size - 1

/-- `process_info`, and a record of the past that the program does not keep: the
size of the array when the entry was given its name. -/
structure ProcessInfo where
  pid : Nat
  name : List UInt8
  createdAt : Nat

/-- The name of the child created at an index, as `init_child_process` prints it
into the entry. -/
def childName (index : Nat) : List UInt8 :=
  snprintf (initialCapacity * 2) (ascii "C_" ++ decimal 2 index)

/-- Places of the main program between two statements.  `looping` says that
`delete_child_process_by_index` was called from the loop of
`delete_all_children`.  At `plusAssign` the block was enlarged where it is; at
`plusAssignMoved` it was moved, the old one is freed and the pointer still leads
to it.  The index of `waitDecrement` is the last one of the loop before. -/
inductive Place
  | prompt
  | plusCheck
  | plusRealloc (newCapacity : Nat)
  | plusAssign (newCapacity : Nat)
  | plusAssignMoved (newCapacity : Nat) (tmp : Nat → ProcessInfo)
  | plusCapacity (newCapacity : Nat)
  | plusFork
  | plusCall (pid : Nat)
  | initName (pid index : Nat)
  | initPid (pid index : Nat)
  | plusReport (pid : Nat)
  | plusIncrement (pid : Nat)
  | minusCheck
  | minusCall
  | killAllCheck
  | killAllTest
  | killAllCall
  | deleteCheck (looping : Bool) (index : Nat)
  | deleteRead (looping : Bool) (index : Nat)
  | deleteKill (looping : Bool) (index pid : Nat)
  | deleteShiftTest (looping : Bool) (i pid : Nat)
  | deleteShift (looping : Bool) (i pid : Nat)
  | deleteDecrement (looping : Bool) (pid : Nat)
  | wait
  | waitFind (pid : Nat)
  | waitReport (idx : Nat)
  | waitShiftTest (j : Nat)
  | waitShift (j : Nat)
  | waitDecrement (j : Nat)

/-- The array with its size and capacity, the place of the main program, the
living and the dead children, and three records of the past: the children that
were created and since then neither deleted nor reaped, whether every index used
so far was inside the block that the pointer led to, and whether the size was
ever decremented at zero. -/
structure State where
  table : Nat → ProcessInfo
  size : Nat
  capacity : Nat
  place : Place
  alive : List Nat
  zombies : List Nat
  expected : List Nat
  inBounds : Bool
  wrapped : Bool

namespace State

variable (state : State)

/-- The process ids in the array. -/
def pids : List Nat :=
  slice (fun index => (state.table index).pid) 0 state.size

/-- Go to another place. -/
def goto (place : Place) : State :=
  { state with place }

/-- The number of entries that may be used through the pointer: none while it
leads to a freed block. -/
def room : Nat :=
  match state.place with
  | .plusAssignMoved _ _ => 0
  | _ => state.capacity

/-- Entries of the array are used. -/
def touch (indices : List Nat) : State :=
  { state with
    inBounds := state.inBounds &&
      indices.all fun index => decide (index < state.room) }

/-- `child_processes[j] = child_processes[j + 1]`. -/
def shift (j : Nat) : State :=
  { state.touch [j, j + 1] with
    table := Function.update state.table j (state.table (j + 1)) }

/-- `child_processes_size--`. -/
def decrement : State :=
  { state with
    size := pred state.size
    wrapped := state.wrapped || state.size == 0 }

/-- `find_process_index_by_pid`; `none` for -1. -/
def findProcessIndexByPid (pid : Nat) : Option Nat :=
  (List.range state.size).find? fun index => (state.table index).pid == pid

/-- What the search reads. -/
def searched (pid : Nat) : List Nat :=
  match state.findProcessIndexByPid pid with
  | some idx => List.range (idx + 1)
  | none => List.range state.size

/-- `delete_child_process_by_index` returns to its caller. -/
def leaveDelete (looping : Bool) : State :=
  if looping then state.goto .killAllTest else state.goto .wait

/-- A dead child is reaped. -/
def reaped (pid : Nat) : State :=
  { state with
    zombies := state.zombies.erase pid
    expected := state.expected.erase pid }

/-- One round of the handler: `waitpid` returned `pid`. -/
def handle (pid : Nat) : State :=
  let state := state.reaped pid
  match state.findProcessIndexByPid pid with
  | some idx =>
      { state.touch (List.range state.size) with
        table := shiftLoop (pred state.size) state.size idx state.table
      }.decrement
  | none => state.touch (List.range state.size)

end State

/-- `SIGCHLD` in `signal_handler`: the children come in the order in which
`waitpid` returns them. -/
def signalHandler (pids : List Nat) (state : State) : State :=
  pids.foldl State.handle state

/-- The commands that matter; `m` and `l` only print. -/
inductive Command
  | plus
  | minus
  | killAll
  | print

/-- Where `main` goes from its prompt. -/
def Command.start : Command → Place
  | .plus => .plusCheck
  | .minus => .minusCheck
  | .killAll => .killAllCheck
  | .print => .wait

/-- One step: a command at the prompt, a statement of the main program, one of
the outcomes of its system calls, the death of a child, or the handler. -/
inductive Action
  | command (command : Command)
  | run
  | reallocInPlace
  | reallocMoved
  | reallocFailed
  | forked (pid : Nat)
  | forkFailed
  | waited (pid : Nat)
  | waitedNone
  | die (pid : Nat)
  | handler (pids : List Nat)

/-- The statements without an outcome to choose. -/
def runStatement (state : State) : Option State :=
  match state.place with
  | .prompt | .plusRealloc _ | .plusFork | .wait => none
  | .plusCheck =>
      if state.size ≥ state.capacity then
        some (state.goto (.plusRealloc (state.capacity * 2 % sizeModulus)))
      else some (state.goto .plusFork)
  | .plusAssign newCapacity => some (state.goto (.plusCapacity newCapacity))
  | .plusAssignMoved newCapacity tmp =>
      some ({ state with table := tmp }.goto (.plusCapacity newCapacity))
  | .plusCapacity newCapacity =>
      some ({ state with capacity := newCapacity }.goto .plusFork)
  | .plusCall pid => some (state.goto (.initName pid state.size))
  | .initName pid index =>
      some ({ state.touch [index] with
        table := Function.update state.table index
          { state.table index with
            name := childName index
            createdAt := state.size }
      }.goto (.initPid pid index))
  | .initPid pid index =>
      some ({ state.touch [index] with
        table := Function.update state.table index
          { state.table index with pid }
      }.goto (.plusReport pid))
  | .plusReport pid =>
      some ((state.touch [state.size]).goto (.plusIncrement pid))
  | .plusIncrement _ =>
      some ({ state with size := (state.size + 1) % sizeModulus }.goto .wait)
  | .minusCheck =>
      if state.size = 0 then some (state.goto .wait)
      else some (state.goto .minusCall)
  | .minusCall => some (state.goto (.deleteCheck false (pred state.size)))
  | .killAllCheck =>
      if state.size = 0 then some (state.goto .wait)
      else some (state.goto .killAllTest)
  | .killAllTest =>
      if state.size > 0 then some (state.goto .killAllCall)
      else some (state.goto .wait)
  | .killAllCall => some (state.goto (.deleteCheck true (pred state.size)))
  | .deleteCheck looping index =>
      if index ≥ state.size then some (state.leaveDelete looping)
      else some (state.goto (.deleteRead looping index))
  | .deleteRead looping index =>
      some ((state.touch [index]).goto
        (.deleteKill looping index (state.table index).pid))
  -- From the signal on the child counts as deleted.
  | .deleteKill looping index pid =>
      some ({ state with expected := state.expected.erase pid }.goto
        (.deleteShiftTest looping index pid))
  | .deleteShiftTest looping i pid =>
      if i < pred state.size then
        some (state.goto (.deleteShift looping i pid))
      else some (state.goto (.deleteDecrement looping pid))
  | .deleteShift looping i pid =>
      some ((state.shift i).goto (.deleteShiftTest looping (i + 1) pid))
  | .deleteDecrement looping _ => some (state.decrement.leaveDelete looping)
  | .waitFind pid =>
      let searched := state.touch (state.searched pid)
      match state.findProcessIndexByPid pid with
      | some idx => some (searched.goto (.waitReport idx))
      | none => some (searched.goto .wait)
  | .waitReport idx =>
      some ((state.touch [idx]).goto (.waitShiftTest idx))
  | .waitShiftTest j =>
      if j < pred state.size then some (state.goto (.waitShift j))
      else some (state.goto (.waitDecrement j))
  | .waitShift j => some ((state.shift j).goto (.waitShiftTest (j + 1)))
  | .waitDecrement _ => some (state.decrement.goto .wait)

/-- One step of the program with its children. -/
def step (state : State) : Action → Option State
  | .command command =>
      match state.place with
      | .prompt => some (state.goto command.start)
      | _ => none
  | .run => runStatement state
  | .reallocInPlace =>
      match state.place with
      | .plusRealloc newCapacity => some (state.goto (.plusAssign newCapacity))
      | _ => none
  | .reallocMoved =>
      match state.place with
      | .plusRealloc newCapacity =>
          some (state.goto (.plusAssignMoved newCapacity state.table))
      | _ => none
  | .reallocFailed =>
      match state.place with
      | .plusRealloc _ => some (state.goto .wait)
      | _ => none
  | .forked pid =>
      match state.place with
      | .plusFork =>
          if 0 < pid ∧ pid < pidLimit ∧ pid ∉ state.alive ++ state.zombies then
            some ({ state with
              alive := state.alive ++ [pid]
              expected := state.expected ++ [pid] }.goto (.plusCall pid))
          else none
      | _ => none
  | .forkFailed =>
      match state.place with
      | .plusFork => some (state.goto .wait)
      | _ => none
  | .waited pid =>
      match state.place with
      | .wait =>
          if pid ∈ state.zombies then
            some ((state.reaped pid).goto (.waitFind pid))
          else none
      | _ => none
  | .waitedNone =>
      match state.place with
      | .wait => if state.zombies = [] then some (state.goto .prompt) else none
      | _ => none
  | .die pid =>
      if pid ∈ state.alive then
        some { state with
          alive := state.alive.erase pid
          zombies := state.zombies ++ [pid] }
      else none
  | .handler pids =>
      if pids.Perm state.zombies then some (signalHandler pids state) else none

/-- The manager at its first prompt, with a freshly allocated array. -/
def start (table : Nat → ProcessInfo) : State where
  table := table
  size := 0
  capacity := initialCapacity
  place := .prompt
  alive := []
  zombies := []
  expected := []
  inBounds := true
  wrapped := false

/-- The process manager. -/
def manager (table : Nat → ProcessInfo) : Machine State Action where
  initial state := state = start table
  step := step

end ProcessManager
end OSaSP
