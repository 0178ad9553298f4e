import OSaSP.Foundations.ProcessTable
import OSaSP.Foundations.Progress
import OSaSP.SharedQueue.BufferTypes

/-!
# The children of the process version and their end

The parent keeps the pids of its children in `producer_pids` and
`consumer_pids`.  `terminate_last_*` and `system_cleanup` kill a listed child
and then call `wait(NULL)`, which takes whichever child is dead.  Children die
at any time, by themselves or killed, and the kernel gives free pids in any
order, so a listed pid may be stale or name a younger child.  Still no `wait`
is ever in vain, and the quit command ends with no child left.
-/

namespace OSaSP
namespace SharedQueue
namespace Children

/-- What the parent is about to do. -/
inductive Place
  /-- The read of the next command. -/
  | command
  /-- `display_current_status`. -/
  | status
  /-- The `wait` of `terminate_last_producer` or `terminate_last_consumer`. -/
  | waitTerminated
  /-- The test and the `kill` of the first loop of `system_cleanup`. -/
  | killProducer (index : Nat)
  | waitProducer (index : Nat)
  /-- The test and the `kill` of the second loop. -/
  | killConsumer (index : Nat)
  | waitConsumer (index : Nat)
  | removeSharedMemory
  | removeSemaphores
  /-- The end, after the quit command or after a failed `fork`. -/
  | exited (success : Bool)
  deriving DecidableEq

/-- The parent with its lists, its children, and the shared memory segment and
the semaphore set that `system_init` made. -/
structure Parent where
  place : Place
  producerPids : List Nat
  consumerPids : List Nat
  table : ProcessTable
  sharedMemory : Bool
  semaphores : Bool

/-- The parent behind `system_init`. -/
def Parent.start : Parent where
  place := .command
  producerPids := []
  consumerPids := []
  table := .empty
  sharedMemory := true
  semaphores := true

/-- What the parent reads, what the kernel answers, and the deaths. -/
inductive Action
  /-- `P`; `fork` gives a pid or fails. -/
  | spawnProducer (forked : Option Nat)
  /-- `C`. -/
  | spawnConsumer (forked : Option Nat)
  /-- `p`. -/
  | terminateProducer
  /-- `c`. -/
  | terminateConsumer
  /-- `s`. -/
  | displayStatus
  /-- The semaphore was free and the status is printed. -/
  | statusShown
  /-- `q`. -/
  | quit
  /-- The parent goes on with a statement that waits for nothing. -/
  | go
  /-- `wait` returns this child. -/
  | wait (pid : Nat)
  /-- `wait` fails, because there is no child. -/
  | waitFails
  /-- A child dies. -/
  | die (pid : Nat)

namespace Parent

/-- `spawn_producer_process` in the parent. -/
def spawnProducerProcess
    (parent : Parent)
    (forked : Option Nat) : Option Parent :=
  if parent.producerPids.length ≥ maxChildProcesses - 1 then some parent
  else
    match forked with
    | none => some { parent with place := .exited false }
    | some pid =>
        (parent.table.fork pid).map fun table =>
          { parent with
            producerPids := parent.producerPids ++ [pid]
            table }

/-- `spawn_consumer_process` in the parent. -/
def spawnConsumerProcess
    (parent : Parent)
    (forked : Option Nat) : Option Parent :=
  if parent.consumerPids.length ≥ maxChildProcesses - 1 then some parent
  else
    match forked with
    | none => some { parent with place := .exited false }
    | some pid =>
        (parent.table.fork pid).map fun table =>
          { parent with
            consumerPids := parent.consumerPids ++ [pid]
            table }

/-- `terminate_last_producer` up to its `wait`. -/
def terminateLastProducer (parent : Parent) : Parent :=
  match parent.producerPids.getLast? with
  | none => parent
  | some pid =>
      { parent with
        producerPids := parent.producerPids.dropLast
        table := parent.table.kill pid
        place := .waitTerminated }

/-- `terminate_last_consumer` up to its `wait`. -/
def terminateLastConsumer (parent : Parent) : Parent :=
  match parent.consumerPids.getLast? with
  | none => parent
  | some pid =>
      { parent with
        consumerPids := parent.consumerPids.dropLast
        table := parent.table.kill pid
        place := .waitTerminated }

/-- The statements of `system_cleanup` that wait for nothing, and the `exit`
behind it. -/
def go (parent : Parent) : Option Parent :=
  match parent.place with
  | .killProducer index =>
      match parent.producerPids[index]? with
      | none => some { parent with place := .killConsumer 0 }
      | some pid =>
          some { parent with
            table := parent.table.kill pid
            place := .waitProducer index }
  | .killConsumer index =>
      match parent.consumerPids[index]? with
      | none => some { parent with place := .removeSharedMemory }
      | some pid =>
          some { parent with
            table := parent.table.kill pid
            place := .waitConsumer index }
  | .removeSharedMemory =>
      some { parent with sharedMemory := false, place := .removeSemaphores }
  | .removeSemaphores =>
      some { parent with semaphores := false, place := .exited true }
  | _ => none

/-- Where the parent goes on once `wait` has returned. -/
def afterWait (parent : Parent) : Option Place :=
  match parent.place with
  | .waitTerminated => some .command
  | .waitProducer index => some (.killProducer (index + 1))
  | .waitConsumer index => some (.killConsumer (index + 1))
  | _ => none

/-- A command is only read at its place. -/
def atCommand (parent : Parent) (next : Option Parent) : Option Parent :=
  if parent.place = .command then next else none

/-- One step of the parent or of a child. -/
def step (parent : Parent) : Action → Option Parent
  | .spawnProducer forked =>
      parent.atCommand (parent.spawnProducerProcess forked)
  | .spawnConsumer forked =>
      parent.atCommand (parent.spawnConsumerProcess forked)
  | .terminateProducer => parent.atCommand (some parent.terminateLastProducer)
  | .terminateConsumer => parent.atCommand (some parent.terminateLastConsumer)
  | .displayStatus => parent.atCommand (some { parent with place := .status })
  | .statusShown =>
      if parent.place = .status then some { parent with place := .command }
      else none
  | .quit => parent.atCommand (some { parent with place := .killProducer 0 })
  | .go => parent.go
  | .wait pid =>
      parent.afterWait.bind fun place =>
        (parent.table.wait pid).map fun table => { parent with table, place }
  | .waitFails =>
      if parent.table.children = [] then
        parent.afterWait.map fun place => { parent with place }
      else none
  | .die pid =>
      (parent.table.die pid).map fun table => { parent with table }

end Parent

/-- The parent and its children from `system_init` on. -/
def program : Machine Parent Action where
  initial parent := parent = .start
  step := Parent.step

/-! ## The list that is left -/

namespace Parent

/-- The listed pids whose children are still to be killed. -/
def listed (parent : Parent) : List Nat :=
  match parent.place with
  | .command | .status | .waitTerminated | .exited false =>
      parent.producerPids ++ parent.consumerPids
  | .killProducer index =>
      parent.producerPids.drop index ++ parent.consumerPids
  | .waitProducer index =>
      parent.producerPids.drop (index + 1) ++ parent.consumerPids
  | .killConsumer index => parent.consumerPids.drop index
  | .waitConsumer index => parent.consumerPids.drop (index + 1)
  | .removeSharedMemory | .removeSemaphores | .exited true => []

/-- A kill is behind the parent and its `wait` ahead. -/
def waiting (parent : Parent) : Bool :=
  match parent.place with
  | .waitTerminated | .waitProducer _ | .waitConsumer _ => true
  | _ => false

/-- The quit command was read. -/
def closing (parent : Parent) : Bool :=
  match parent.place with
  | .killProducer _ | .waitProducer _ | .killConsumer _ | .waitConsumer _
  | .removeSharedMemory | .removeSemaphores | .exited true => true
  | .command | .status | .waitTerminated | .exited false => false

/-- How many statements of `system_cleanup` are left. -/
def statementsLeft (parent : Parent) : Nat :=
  let producers := parent.producerPids.length
  let consumers := parent.consumerPids.length
  match parent.place with
  | .killProducer index => 2 * (producers - index) + 2 * consumers + 4
  | .waitProducer index => 2 * (producers - (index + 1)) + 2 * consumers + 5
  | .killConsumer index => 2 * (consumers - index) + 3
  | .waitConsumer index => 2 * (consumers - (index + 1)) + 4
  | .removeSharedMemory => 2
  | .removeSemaphores => 1
  | _ => 0

/-- The segment and the semaphores go last, in this order. -/
structure RemovesLast (parent : Parent) : Prop where
  sharedMemory : parent.sharedMemory = false ↔
    parent.place = .removeSemaphores ∨ parent.place = .exited true
  semaphores : parent.semaphores = false ↔ parent.place = .exited true

end Parent

/-- What one step does. -/
structure Stepped
    (action : Action)
    (parent next : Parent) : Prop where
  move : ProcessTable.Move (fun pid => action = .die pid)
    parent.table parent.listed parent.waiting
    next.table next.listed next.waiting
  producers : parent.producerPids.length ≤ maxChildProcesses - 1 →
    next.producerPids.length ≤ maxChildProcesses - 1
  consumers : parent.consumerPids.length ≤ maxChildProcesses - 1 →
    next.consumerPids.length ≤ maxChildProcesses - 1
  removes : parent.RemovesLast → next.RemovesLast
  closes : parent.closing = true → next.closing = true ∧
    next.statementsLeft + next.table.left <
      parent.statementsLeft + parent.table.left

/-- Commands are read at their place. -/
theorem Parent.atCommand_eq_some
    {parent final : Parent}
    {next : Option Parent}
    (stepped : parent.atCommand next = some final) :
    parent.place = .command ∧ next = some final := by
  unfold atCommand at stepped
  split at stepped
  · rename_i ready
    exact ⟨ready, stepped⟩
  · cases stepped

/-- Nothing was removed at this place. -/
def Place.early : Place → Bool
  | .removeSemaphores | .exited true => false
  | _ => true

/-- A step between two places before the removals. -/
theorem Parent.RemovesLast.early
    {parent next : Parent}
    (removes : parent.RemovesLast)
    (early : parent.place.early = true)
    (early' : next.place.early = true)
    (sharedMemory : next.sharedMemory = parent.sharedMemory)
    (semaphores : next.semaphores = parent.semaphores) :
    next.RemovesLast := by
  have before : ∀ place : Place, place.early = true →
      place ≠ .removeSemaphores ∧ place ≠ .exited true := by
    rintro place early
    constructor <;> rintro rfl <;> cases early
  obtain ⟨memory, sets⟩ := removes
  obtain ⟨shared, exited⟩ := before parent.place early
  obtain ⟨shared', exited'⟩ := before next.place early'
  constructor
  · rw [sharedMemory, memory]
    simp [shared, exited, shared', exited']
  · rw [semaphores, sets]
    simp [exited, exited']

/-- A statement that only goes on to another place. -/
theorem Parent.goto_stepped
    {action : Action}
    {parent : Parent}
    {place : Place}
    (early : parent.place.early = true)
    (early' : place.early = true)
    (listed : ({ parent with place } : Parent).listed = parent.listed)
    (waiting : ({ parent with place } : Parent).waiting = parent.waiting)
    (closes : parent.closing = true →
      ({ parent with place } : Parent).closing = true ∧
      ({ parent with place } : Parent).statementsLeft <
        parent.statementsLeft) :
    Stepped action parent { parent with place } where
  move := .keep rfl listed waiting
  producers := id
  consumers := id
  removes removes := removes.early early early' rfl rfl
  closes closing := ⟨(closes closing).1,
    Nat.add_lt_add_right (closes closing).2 _⟩

/-- A `kill` of `system_cleanup`; the `wait` for it comes next. -/
theorem Parent.kill_stepped
    {action : Action}
    {parent : Parent}
    {place : Place}
    (pid : Nat)
    (early : parent.place.early = true)
    (early' : place.early = true)
    (idle : parent.waiting = false)
    (waits : ({ parent with place } : Parent).waiting = true)
    (taken : parent.listed.Perm
      (pid :: ({ parent with place } : Parent).listed))
    (closes : ({ parent with place } : Parent).closing = true ∧
      ({ parent with place } : Parent).statementsLeft <
        parent.statementsLeft) :
    Stepped action parent
      { parent with table := parent.table.kill pid, place } where
  move := .kill pid idle waits rfl taken
  producers := id
  consumers := id
  removes removes := removes.early early early' rfl rfl
  closes _ := ⟨closes.1,
    Nat.add_lt_add_of_lt_of_le closes.2 (parent.table.left_kill_le pid)⟩

theorem Parent.spawnProducerProcess_stepped
    {action : Action}
    {parent next : Parent}
    {forked : Option Nat}
    (ready : parent.place = .command)
    (spawned : parent.spawnProducerProcess forked = some next) :
    Stepped action parent next := by
  have open_ : parent.closing = false := by simp [closing, ready]
  unfold spawnProducerProcess at spawned
  split at spawned
  · cases spawned
    exact ⟨.keep rfl rfl rfl, id, id, id, by simp [open_]⟩
  · rename_i room
    cases forked with
    | none =>
        cases spawned
        apply goto_stepped
        · simp [Place.early, ready]
        · rfl
        · simp [listed, ready]
        · simp [waiting, ready]
        · simp [open_]
    | some pid =>
        rw [Option.map_eq_some_iff] at spawned
        obtain ⟨table, forked, rfl⟩ := spawned
        refine ⟨.fork pid ?_ ?_ forked ?_, fun _ => ?_, id, fun removes => ?_,
          by simp [open_]⟩
        · simp [waiting, ready]
        · simp [waiting, ready]
        · simp only [listed, ready, List.append_assoc]
          exact List.perm_middle
        · rw [List.length_append, List.length_singleton]
          omega
        · exact removes.early (by simp [Place.early, ready])
            (by simp [Place.early, ready]) rfl rfl

theorem Parent.spawnConsumerProcess_stepped
    {action : Action}
    {parent next : Parent}
    {forked : Option Nat}
    (ready : parent.place = .command)
    (spawned : parent.spawnConsumerProcess forked = some next) :
    Stepped action parent next := by
  have open_ : parent.closing = false := by simp [closing, ready]
  unfold spawnConsumerProcess at spawned
  split at spawned
  · cases spawned
    exact ⟨.keep rfl rfl rfl, id, id, id, by simp [open_]⟩
  · rename_i room
    cases forked with
    | none =>
        cases spawned
        apply goto_stepped
        · simp [Place.early, ready]
        · rfl
        · simp [listed, ready]
        · simp [waiting, ready]
        · simp [open_]
    | some pid =>
        rw [Option.map_eq_some_iff] at spawned
        obtain ⟨table, forked, rfl⟩ := spawned
        refine ⟨.fork pid ?_ ?_ forked ?_, id, fun _ => ?_, fun removes => ?_,
          by simp [open_]⟩
        · simp [waiting, ready]
        · simp [waiting, ready]
        · simp only [listed, ready, ← List.append_assoc]
          exact List.perm_append_singleton pid _
        · rw [List.length_append, List.length_singleton]
          omega
        · exact removes.early (by simp [Place.early, ready])
            (by simp [Place.early, ready]) rfl rfl

/-- The last pid of a list in front of the others. -/
theorem perm_getLast
    {pids : List Nat}
    {pid : Nat}
    (last : pids.getLast? = some pid) :
    pids.Perm (pid :: pids.dropLast) := by
  have split := List.dropLast_append_getLast? pid last
  calc pids = pids.dropLast ++ [pid] := split.symm
    _ |>.Perm (pid :: pids.dropLast) := List.perm_append_singleton pid _

theorem Parent.terminateLastProducer_stepped
    {action : Action}
    {parent : Parent}
    (ready : parent.place = .command) :
    Stepped action parent parent.terminateLastProducer := by
  have open_ : parent.closing = false := by simp [closing, ready]
  unfold terminateLastProducer
  split
  · exact ⟨.keep rfl rfl rfl, id, id, id, by simp [open_]⟩
  · rename_i pid last
    refine ⟨.kill pid ?_ rfl rfl ?_, fun bound => ?_, id, fun removes => ?_,
      by simp [open_]⟩
    · simp [waiting, ready]
    · simp only [listed, ready]
      exact (perm_getLast last).append_right _
    · rw [List.length_dropLast]
      omega
    · exact removes.early (by simp [Place.early, ready]) rfl rfl rfl

theorem Parent.terminateLastConsumer_stepped
    {action : Action}
    {parent : Parent}
    (ready : parent.place = .command) :
    Stepped action parent parent.terminateLastConsumer := by
  have open_ : parent.closing = false := by simp [closing, ready]
  unfold terminateLastConsumer
  split
  · exact ⟨.keep rfl rfl rfl, id, id, id, by simp [open_]⟩
  · rename_i pid last
    refine ⟨.kill pid ?_ rfl rfl ?_, id, fun bound => ?_, fun removes => ?_,
      by simp [open_]⟩
    · simp [waiting, ready]
    · simp only [listed, ready]
      exact ((perm_getLast last).append_left _).trans List.perm_middle
    · rw [List.length_dropLast]
      omega
    · exact removes.early (by simp [Place.early, ready]) rfl rfl rfl

/-- The pids from one that is listed on. -/
theorem drop_of_getElem?
    {pids : List Nat}
    {index pid : Nat}
    (found : pids[index]? = some pid) :
    pids.drop index = pid :: pids.drop (index + 1) := by
  obtain ⟨inside, rfl⟩ := List.getElem?_eq_some_iff.mp found
  exact List.drop_eq_getElem_cons inside

/-- The statements of `system_cleanup` that wait for nothing. -/
theorem Parent.go_stepped
    {action : Action}
    {parent next : Parent}
    (went : parent.go = some next) :
    Stepped action parent next := by
  cases place : parent.place with
  | killProducer index =>
      simp only [go, place] at went
      cases found : parent.producerPids[index]? with
      | none =>
          have behind := List.getElem?_eq_none_iff.mp found
          rw [found] at went
          cases went
          apply goto_stepped
          · simp [Place.early, place]
          · rfl
          · simp [listed, place, List.drop_eq_nil_of_le behind]
          · simp [waiting, place]
          · refine fun _ => ⟨rfl, ?_⟩
            simp only [statementsLeft, place]
            omega
      | some pid =>
          obtain ⟨inside, -⟩ := List.getElem?_eq_some_iff.mp found
          rw [found] at went
          cases went
          apply kill_stepped
          · simp [Place.early, place]
          · rfl
          · simp [waiting, place]
          · rfl
          · simp [listed, place, drop_of_getElem? found]
          · refine ⟨rfl, ?_⟩
            simp only [statementsLeft, place]
            omega
  | killConsumer index =>
      simp only [go, place] at went
      cases found : parent.consumerPids[index]? with
      | none =>
          have behind := List.getElem?_eq_none_iff.mp found
          rw [found] at went
          cases went
          apply goto_stepped
          · simp [Place.early, place]
          · rfl
          · simp [listed, place, List.drop_eq_nil_of_le behind]
          · simp [waiting, place]
          · refine fun _ => ⟨rfl, ?_⟩
            simp only [statementsLeft, place]
            omega
      | some pid =>
          obtain ⟨inside, -⟩ := List.getElem?_eq_some_iff.mp found
          rw [found] at went
          cases went
          apply kill_stepped
          · simp [Place.early, place]
          · rfl
          · simp [waiting, place]
          · rfl
          · simp [listed, place, drop_of_getElem? found]
          · refine ⟨rfl, ?_⟩
            simp only [statementsLeft, place]
            omega
  | removeSharedMemory =>
      simp only [go, place, Option.some.injEq] at went
      subst went
      refine ⟨.keep rfl ?_ ?_, id, id, fun removes => ⟨?_, ?_⟩, fun _ =>
        ⟨rfl, ?_⟩⟩
      · simp [listed, place]
      · simp [waiting, place]
      · simp
      · simp [removes.semaphores, place]
      · simp [statementsLeft, place]
  | removeSemaphores =>
      simp only [go, place, Option.some.injEq] at went
      subst went
      refine ⟨.keep rfl ?_ ?_, id, id, fun removes => ⟨?_, ?_⟩, fun _ =>
        ⟨rfl, ?_⟩⟩
      · simp [listed, place]
      · simp [waiting, place]
      · simp [removes.sharedMemory, place]
      · simp
      · simp [statementsLeft, place]
  | command | status | waitTerminated | waitProducer | waitConsumer
  | exited => simp [go, place] at went

/-- The return of a `wait`. -/
theorem Parent.wait_stepped
    {action : Action}
    {parent : Parent}
    {place : Place}
    {pid : Nat}
    {table : ProcessTable}
    (after : parent.afterWait = some place)
    (waited : parent.table.wait pid = some table) :
    Stepped action parent { parent with table, place } := by
  have same := ProcessTable.left_wait waited
  cases before : parent.place with
  | waitTerminated =>
      simp only [afterWait, before, Option.some.injEq] at after
      subst after
      refine ⟨.wait pid ?_ rfl waited ?_, id, id, fun removes => ?_, ?_⟩
      · simp [waiting, before]
      · simp [listed, before]
      · exact removes.early (by simp [Place.early, before]) rfl rfl rfl
      · simp [closing, before]
  | waitProducer | waitConsumer =>
      simp only [afterWait, before, Option.some.injEq] at after
      subst after
      refine ⟨.wait pid ?_ rfl waited ?_, id, id, fun removes => ?_, fun _ =>
        ⟨rfl, ?_⟩⟩
      · simp [waiting, before]
      · simp [listed, before]
      · exact removes.early (by simp [Place.early, before]) rfl rfl rfl
      · simp only [statementsLeft, before]
        omega
  | command | status | killProducer | killConsumer | removeSharedMemory
  | removeSemaphores | exited => simp [afterWait, before] at after

/-- Every step of a parent whose children are accounted for. -/
theorem Parent.step_stepped
    {parent next : Parent}
    {action : Action}
    (accounted : parent.table.Accounted parent.listed parent.waiting)
    (stepped : parent.step action = some next) :
    Stepped action parent next := by
  cases action with
  | spawnProducer forked =>
      obtain ⟨ready, spawned⟩ := atCommand_eq_some stepped
      exact spawnProducerProcess_stepped ready spawned
  | spawnConsumer forked =>
      obtain ⟨ready, spawned⟩ := atCommand_eq_some stepped
      exact spawnConsumerProcess_stepped ready spawned
  | terminateProducer =>
      obtain ⟨ready, same⟩ := atCommand_eq_some stepped
      cases same
      exact terminateLastProducer_stepped ready
  | terminateConsumer =>
      obtain ⟨ready, same⟩ := atCommand_eq_some stepped
      cases same
      exact terminateLastConsumer_stepped ready
  | displayStatus =>
      obtain ⟨ready, same⟩ := atCommand_eq_some stepped
      cases same
      apply goto_stepped
      · simp [Place.early, ready]
      · rfl
      · simp [listed, ready]
      · simp [waiting, ready]
      · simp [closing, ready]
  | statusShown =>
      simp only [step] at stepped
      split at stepped
      · rename_i shown
        cases stepped
        apply goto_stepped
        · simp [Place.early, shown]
        · rfl
        · simp [listed, shown]
        · simp [waiting, shown]
        · simp [closing, shown]
      · cases stepped
  | quit =>
      obtain ⟨ready, same⟩ := atCommand_eq_some stepped
      cases same
      apply goto_stepped
      · simp [Place.early, ready]
      · rfl
      · simp [listed, ready]
      · simp [waiting, ready]
      · simp [closing, ready]
  | go => exact go_stepped stepped
  | wait pid =>
      simp only [step, Option.bind_eq_some_iff, Option.map_eq_some_iff]
        at stepped
      obtain ⟨place, after, table, waited, rfl⟩ := stepped
      exact wait_stepped after waited
  | waitFails =>
      -- A parent that waits has a child.
      simp only [step] at stepped
      split at stepped
      · rename_i none_
        rw [Option.map_eq_some_iff] at stepped
        obtain ⟨place, after, -⟩ := stepped
        have waits : parent.waiting = true := by
          cases before : parent.place <;>
            simp [afterWait, before] at after <;> simp [waiting, before]
        have count := accounted.count
        rw [none_, waits] at count
        simp at count
      · cases stepped
  | die pid =>
      simp only [step, Option.map_eq_some_iff] at stepped
      obtain ⟨table, died, rfl⟩ := stepped
      refine ⟨.die pid rfl rfl died rfl, id, id, fun removes => ?_,
        fun closes => ⟨closes, ?_⟩⟩
      · exact ⟨removes.sharedMemory, removes.semaphores⟩
      · have lower := ProcessTable.left_die_lt died
        change parent.statementsLeft + table.left < _
        omega

/-! ## The lists and the children in every reachable state -/

/-- The children are accounted for, the lists stay below the end of their
arrays, and the removals come last. -/
structure Kept (parent : Parent) : Prop where
  accounted : parent.table.Accounted parent.listed parent.waiting
  producers : parent.producerPids.length ≤ maxChildProcesses - 1
  consumers : parent.consumerPids.length ≤ maxChildProcesses - 1
  removes : parent.RemovesLast

theorem kept_start : Kept .start where
  accounted := .empty
  producers := Nat.zero_le _
  consumers := Nat.zero_le _
  removes := ⟨by simp [Parent.start], by simp [Parent.start]⟩

theorem Kept.step
    {parent next : Parent}
    {action : Action}
    (kept : Kept parent)
    (stepped : parent.step action = some next) :
    Kept next := by
  obtain ⟨move, producers, consumers, removes, -⟩ :=
    Parent.step_stepped kept.accounted stepped
  exact ⟨kept.accounted.move move, producers kept.producers,
    consumers kept.consumers, removes kept.removes⟩

theorem kept_of_reachable
    {parent : Parent}
    (reachable : program.Reachable parent) :
    Kept parent := by
  apply reachable.invariant
  · rintro _ rfl
    exact kept_start
  · intro _ _ _ kept _ stepped
    exact kept.step stepped

/-- No child is left when nothing is listed and no `wait` is ahead. -/
theorem Kept.no_child
    {parent : Parent}
    (kept : Kept parent)
    (nothing : parent.listed = [])
    (idle : parent.waiting = false) :
    parent.table.children = [] := by
  have count := kept.accounted.count
  rw [nothing, idle] at count
  exact List.length_eq_zero_iff.mp count

/-- What holds between the parent's lists and its children: every running child
is listed, a parent in `wait` has a child that is dead or about to die, the
lists fit their arrays, and the segment and the semaphores outlive every
child. -/
structure ChildrenKept (parent : Parent) : Prop where
  count : parent.table.children.length =
    parent.listed.length + parent.waiting.toNat
  covered : ∀ pid ∈ parent.table.running, pid ∈ parent.listed
  notInVain : parent.waiting = true →
    ∃ child ∈ parent.table.children, child.2 ≠ .running
  producers : parent.producerPids.length < maxChildProcesses
  consumers : parent.consumerPids.length < maxChildProcesses
  outlived : parent.sharedMemory = false ∨ parent.semaphores = false →
    parent.table.children = []

/-- However the children die and whichever pids the kernel gives. -/
theorem reachable_childrenKept
    (parent : Parent)
    (reachable : program.Reachable parent) :
    ChildrenKept parent := by
  have kept := kept_of_reachable reachable
  have bound : maxChildProcesses - 1 < maxChildProcesses := by decide
  refine ⟨kept.accounted.count, kept.accounted.covered, fun waits => ?_,
    Nat.lt_of_le_of_lt kept.producers bound,
    Nat.lt_of_le_of_lt kept.consumers bound, fun removed => ?_⟩
  · have accounted := kept.accounted
    rw [waits] at accounted
    exact accounted.exists_not_running
  · have late : parent.place = .removeSemaphores ∨
        parent.place = .exited true := by
      rcases removed with memory | sets
      · exact kept.removes.sharedMemory.mp memory
      · exact .inr (kept.removes.semaphores.mp sets)
    apply kept.no_child
    · rcases late with place | place <;> simp [Parent.listed, place]
    · rcases late with place | place <;> simp [Parent.waiting, place]

/-- Two producers and a consumer; the consumer dies by itself, its death is
what the `wait` for the second producer takes, and its pid goes to a new
producer. -/
def staleSchedule : List Action :=
  [.spawnProducer (some 7), .spawnProducer (some 8), .spawnConsumer (some 9),
    .die 9, .terminateProducer, .wait 9, .spawnProducer (some 9)]

theorem staleSchedule_childrenKept :
    ∃ parent, program.run .start staleSchedule = some parent ∧
      (parent.producerPids = [7, 9] ∧ parent.consumerPids = [9]) ∧
        ChildrenKept parent := by
  have executed : ∃ parent, program.run .start staleSchedule = some parent ∧
      parent.producerPids = [7, 9] ∧ parent.consumerPids = [9] :=
    ⟨_, rfl, rfl, rfl⟩
  obtain ⟨parent, ran, lists⟩ := executed
  exact ⟨parent, ran, lists,
    reachable_childrenKept parent (Machine.Reachable.run (.initial rfl) ran)⟩

/-! ## The quit command -/

/-- A closing parent is stuck exactly when it has exited. -/
theorem Kept.stuck_iff
    {parent : Parent}
    (kept : Kept parent)
    (closes : parent.closing = true) :
    program.Stuck parent ↔ parent.place = .exited true := by
  have waits_or_dies : parent.waiting = true → ∃ pid,
      (parent.table.wait pid).isSome ∨ (parent.table.die pid).isSome := by
    intro waits
    have accounted := kept.accounted
    rw [waits] at accounted
    obtain ⟨⟨pid, life⟩, member, stopped⟩ := accounted.exists_not_running
    refine ⟨pid, ?_⟩
    cases life with
    | running => exact absurd rfl stopped
    | killed => exact .inr (by simp [ProcessTable.die, member])
    | dead => exact .inl (by simp [ProcessTable.wait, member])
  constructor
  · intro stuck
    cases place : parent.place with
    | exited success =>
        cases success with
        | true => rfl
        | false => simp [Parent.closing, place] at closes
    | killProducer index =>
        have went := stuck .go
        simp only [program, Parent.step, Parent.go, place] at went
        split at went <;> cases went
    | killConsumer index =>
        have went := stuck .go
        simp only [program, Parent.step, Parent.go, place] at went
        split at went <;> cases went
    | removeSharedMemory | removeSemaphores =>
        have went := stuck .go
        simp [program, Parent.step, Parent.go, place] at went
    | waitProducer index | waitConsumer index =>
        obtain ⟨pid, waited | died⟩ :=
          waits_or_dies (by simp [Parent.waiting, place])
        · have blocked := stuck (.wait pid)
          simp [program, Parent.step, Parent.afterWait, place] at blocked
          simp [blocked] at waited
        · have blocked := stuck (.die pid)
          simp [program, Parent.step] at blocked
          simp [blocked] at died
    | command | status | waitTerminated =>
        simp [Parent.closing, place] at closes
  · intro place action
    have none_ : parent.table.children = [] :=
      kept.no_child (by simp [Parent.listed, place])
        (by simp [Parent.waiting, place])
    cases action <;>
      simp [program, Parent.step, Parent.atCommand, Parent.go,
        Parent.afterWait, ProcessTable.die, place, none_]

/-- After the quit command only a bounded number of statements and deaths is
left, however many children died before; what the program ends in is its exit,
with every child dead and waited for and both shared objects removed. -/
theorem quit_leaves_no_child
    (parent final : Parent)
    (reachable : program.Reachable parent)
    (actions : List Action)
    (executed : program.run parent (.quit :: actions) = some final) :
    actions.length ≤
        4 * (parent.producerPids.length + parent.consumerPids.length) + 4 ∧
      (program.Stuck final ↔ final.place = .exited true) ∧
      (final.place = .exited true → final.table.children = [] ∧
        final.sharedMemory = false ∧ final.semaphores = false) := by
  rw [Machine.run_cons, Option.bind_eq_some_iff] at executed
  obtain ⟨first, stepped, rest⟩ := executed
  have kept := kept_of_reachable reachable
  have stepped : parent.step .quit = some first := stepped
  have firstKept := kept.step stepped
  obtain ⟨ready, same⟩ := Parent.atCommand_eq_some stepped
  cases same
  let closingKept : Parent → Prop := fun parent =>
    Kept parent ∧ parent.closing = true
  have preserved : ∀ parent action next, closingKept parent →
      program.step parent action = some next → closingKept next := by
    intro parent action next holds stepped
    have step := Parent.step_stepped holds.1.accounted stepped
    exact ⟨holds.1.step stepped, (step.closes holds.2).1⟩
  have lowers : ∀ parent action next, closingKept parent →
      program.step parent action = some next →
        next.statementsLeft + next.table.left <
          parent.statementsLeft + parent.table.left := by
    intro parent action next holds stepped
    have step := Parent.step_stepped holds.1.accounted stepped
    exact (step.closes holds.2).2
  have bounded := Machine.length_add_rank_le
    (fun parent : Parent => parent.statementsLeft + parent.table.left)
    preserved lowers ⟨firstKept, rfl⟩ rest
  have finalKept : closingKept final :=
    Machine.run_preserves closingKept preserved ⟨firstKept, rfl⟩ rest
  refine ⟨?_, finalKept.1.stuck_iff finalKept.2, fun place => ⟨?_, ?_, ?_⟩⟩
  · have children := kept.accounted.count
    have left := parent.table.left_le
    simp only [Parent.listed, Parent.waiting, ready, List.length_append,
      Bool.toNat_false] at children
    simp only [Parent.statementsLeft] at bounded
    omega
  · exact finalKept.1.no_child (by simp [Parent.listed, place])
      (by simp [Parent.waiting, place])
  · exact finalKept.1.removes.sharedMemory.mpr (.inr place)
  · exact finalKept.1.removes.semaphores.mpr place

/-- What follows the quit command after the stale pids: the second `wait` takes
the producer that was terminated before, and the last `kill` hits a producer
once more. -/
def staleQuit : List Action :=
  [.go, .die 7, .wait 7, .go, .die 8, .wait 8, .go, .go, .die 9, .wait 9, .go,
    .go, .go]

theorem staleSchedule_quit :
    ∃ parent final, program.run .start staleSchedule = some parent ∧
      program.run parent (.quit :: staleQuit) = some final ∧
        staleQuit.length ≤ 16 ∧ program.Stuck final ∧
          final.table.children = [] := by
  have executed : ∃ parent final,
      program.run .start staleSchedule = some parent ∧
        program.run parent (.quit :: staleQuit) = some final ∧
          (parent.producerPids.length = 2 ∧ parent.consumerPids.length = 1) ∧
            final.place = .exited true :=
    ⟨_, _, rfl, rfl, ⟨rfl, rfl⟩, rfl⟩
  obtain ⟨parent, final, before, ran, ⟨producers, consumers⟩, place⟩ :=
    executed
  obtain ⟨bound, stuck, removed⟩ := quit_leaves_no_child parent final
    (Machine.Reachable.run (.initial rfl) before) staleQuit ran
  rw [producers, consumers] at bound
  exact ⟨parent, final, before, ran, bound, stuck.mpr place,
    (removed place).1⟩

/-! ## When no child dies by itself -/

/-- A child dies only after the parent has killed it. -/
def OnlyKilledDie (parent : Parent) (action : Action) : Prop :=
  ∀ pid, action = .die pid → pid ∉ parent.table.running

theorem exact_step
    {parent next : Parent}
    {action : Action}
    (exact : parent.table.Exact parent.listed parent.waiting)
    (killed : OnlyKilledDie parent action)
    (stepped : parent.step action = some next) :
    next.table.Exact next.listed next.waiting :=
  exact.move (Parent.step_stepped exact.toAccounted stepped).move killed

/-- As long as no child dies by itself, the listed pids that are still to be
killed name the running children, each of them once, so every `kill` hits a
running child of the parent; and the only other child is the one that was killed
last. -/
theorem lists_exact
    (actions : List Action)
    (final : Parent)
    (executed : program.run .start actions = some final)
    (killed : program.EveryStep OnlyKilledDie .start actions) :
    final.listed.Perm final.table.running ∧
      final.table.children.length =
        final.table.running.length + final.waiting.toNat := by
  have preserved : ∀ parent action next,
      parent.table.Exact parent.listed parent.waiting →
        OnlyKilledDie parent action →
          program.step parent action = some next →
            next.table.Exact next.listed next.waiting :=
    fun _ _ _ exact killed stepped => exact_step exact killed stepped
  have everywhere : program.EveryState
      (fun parent => parent.table.Exact parent.listed parent.waiting)
      .start actions :=
    Machine.everyState_of_everyStep preserved .empty killed
  have exact := everywhere.last executed
  have same : final.listed.Perm final.table.running :=
    (List.perm_ext_iff_of_nodup exact.nodup final.table.running_nodup).mpr
      fun pid => ⟨exact.runs pid, exact.covered pid⟩
  refine ⟨same, ?_⟩
  rw [exact.count, same.length_eq]

instance : ∀ parent action, Decidable (OnlyKilledDie parent action)
  | parent, .die pid =>
      decidable_of_iff (pid ∉ parent.table.running)
        ⟨fun absent _ same => by cases same; exact absent,
          fun holds => holds pid rfl⟩
  | _, .spawnProducer _ | _, .spawnConsumer _ | _, .terminateProducer
  | _, .terminateConsumer | _, .displayStatus | _, .statusShown | _, .quit
  | _, .go | _, .wait _ | _, .waitFails =>
      isTrue fun _ impossible => by cases impossible

/-- The producer forked last is the one that is terminated. -/
def tidySchedule : List Action :=
  [.spawnProducer (some 7), .spawnProducer (some 8), .spawnConsumer (some 9),
    .terminateProducer, .die 8]

theorem tidySchedule_exact :
    ∃ parent, program.run .start tidySchedule = some parent ∧
      parent.listed = [7, 9] ∧
        parent.listed.Perm parent.table.running := by
  have executed : ∃ parent, program.run .start tidySchedule = some parent ∧
      parent.listed = [7, 9] := ⟨_, rfl, rfl⟩
  obtain ⟨parent, ran, listed⟩ := executed
  exact ⟨parent, ran, listed,
    (lists_exact tidySchedule parent ran (by decide)).1⟩

end Children
end SharedQueue
end OSaSP
