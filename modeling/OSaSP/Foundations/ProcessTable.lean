import OSaSP.Foundations.Pool
import Mathlib.Algebra.Order.BigOperators.Group.List
import Mathlib.Data.List.Nodup
import Mathlib.Data.List.Perm.Subperm

/-!
# Children between `fork` and `wait`

A process keeps a list of the pids of its children.  The kernel keeps a child
from `fork` until its parent has waited for it: first running, then perhaps
with a `SIGKILL` pending, then dead.  A pid is given again only after its
child was waited for.

A parent that kills a listed child and then waits for whichever child is dead
may take the death of another one, and keeps a stale pid then.  What stays true
is a matter of counting: there are as many children as pids on the list, and
every running child is listed.
-/

namespace OSaSP

/-- What became of a child that was not waited for yet. -/
inductive Life
  | running
  | killed
  | dead
  deriving DecidableEq

/-- The number of changes that are left to a child before its death. -/
def Life.left : Life → Nat
  | .running => 2
  | .killed => 1
  | .dead => 0

/-- The children that were not waited for yet, each under its own pid. -/
structure ProcessTable where
  children : List (Nat × Life)
  distinct : (children.map Prod.fst).Nodup

namespace ProcessTable

/-- No child yet. -/
def empty : ProcessTable where
  children := []
  distinct := List.nodup_nil

/-- The pids in use. -/
def pids (table : ProcessTable) : List Nat :=
  table.children.map Prod.fst

/-- The pids of the children that still run. -/
def running (table : ProcessTable) : List Nat :=
  (table.children.filter fun child => child.2 = .running).map Prod.fst

/-- Change what became of one child. -/
def update
    (table : ProcessTable)
    (pid : Nat)
    (become : Life → Life) : ProcessTable where
  children := table.children.map fun child =>
    if child.1 = pid then (child.1, become child.2) else child
  distinct := by
    rw [List.map_map]
    have same : Prod.fst ∘ (fun child : Nat × Life =>
        if child.1 = pid then (child.1, become child.2) else child) =
          Prod.fst := by
      funext child
      simp only [Function.comp_apply]
      split <;> rfl
    rw [same]
    exact table.distinct

/-- `fork` that gives a pid not in use. -/
def fork (table : ProcessTable) (pid : Nat) : Option ProcessTable :=
  if free : pid ∈ table.pids then none
  else
    some
      { children := table.children ++ [(pid, .running)]
        distinct := by
          rw [List.map_append, List.nodup_append]
          refine ⟨table.distinct, List.nodup_singleton _, ?_⟩
          intro other member new last same
          rw [List.map_singleton, List.mem_singleton] at last
          rw [same, last] at member
          exact free member }

/-- `kill(pid, SIGKILL)`; nothing happens to a pid that is no child's. -/
def kill (table : ProcessTable) (pid : Nat) : ProcessTable :=
  table.update pid fun
    | .running => .killed
    | life => life

/-- The child's death, of a signal or by itself. -/
def die (table : ProcessTable) (pid : Nat) : Option ProcessTable :=
  if (pid, .running) ∈ table.children ∨ (pid, .killed) ∈ table.children then
    some (table.update pid fun _ => .dead)
  else none

/-- `wait(NULL)` that returns the pid of a dead child. -/
def wait (table : ProcessTable) (pid : Nat) : Option ProcessTable :=
  if (pid, .dead) ∈ table.children then
    some
      { children := table.children.erase (pid, .dead)
        distinct := table.distinct.sublist (List.erase_sublist.map _) }
  else none

/-! ## Which children run -/

theorem mem_running
    {table : ProcessTable}
    {pid : Nat} :
    pid ∈ table.running ↔ (pid, .running) ∈ table.children := by
  simp [running]

theorem running_nodup (table : ProcessTable) : table.running.Nodup :=
  table.distinct.sublist (List.filter_sublist.map _)

theorem mem_update
    {table : ProcessTable}
    {pid other : Nat}
    {become : Life → Life}
    {life : Life} :
    (other, life) ∈ (table.update pid become).children ↔
      if other = pid then
        ∃ before, (other, before) ∈ table.children ∧ become before = life
      else (other, life) ∈ table.children := by
  simp only [update, List.mem_map]
  constructor
  · rintro ⟨⟨number, before⟩, member, same⟩
    split at same <;> rename_i here
    · cases same
      rw [if_pos here]
      exact ⟨before, member, rfl⟩
    · cases same
      rw [if_neg here]
      exact member
  · intro found
    split at found <;> rename_i here
    · obtain ⟨before, member, rfl⟩ := found
      exact ⟨(other, before), member, if_pos here⟩
    · exact ⟨(other, life), found, if_neg here⟩

@[simp] theorem length_update
    (table : ProcessTable)
    (pid : Nat)
    (become : Life → Life) :
    (table.update pid become).children.length = table.children.length := by
  simp [update]

@[simp] theorem length_kill (table : ProcessTable) (pid : Nat) :
    (table.kill pid).children.length = table.children.length :=
  length_update table pid _

/-- After a `SIGKILL` the child does not run. -/
theorem mem_running_kill
    {table : ProcessTable}
    {pid other : Nat} :
    other ∈ (table.kill pid).running ↔
      other ∈ table.running ∧ other ≠ pid := by
  rw [mem_running, mem_running, kill, mem_update]
  split <;> rename_i here
  · constructor
    · rintro ⟨before, -, become⟩
      cases before <;> cases become
    · exact fun both => absurd here both.2
  · exact ⟨fun member => ⟨member, here⟩, And.left⟩

/-- What `fork` does. -/
theorem fork_eq_some
    {table next : ProcessTable}
    {pid : Nat}
    (forked : table.fork pid = some next) :
    pid ∉ table.pids ∧
      next.children = table.children ++ [(pid, .running)] := by
  unfold fork at forked
  split at forked
  · cases forked
  · rename_i free
    cases forked
    exact ⟨free, rfl⟩

/-- What a death does. -/
theorem die_eq_some
    {table next : ProcessTable}
    {pid : Nat}
    (died : table.die pid = some next) :
    ((pid, .running) ∈ table.children ∨ (pid, .killed) ∈ table.children) ∧
      next = table.update pid fun _ => .dead := by
  unfold die at died
  split at died
  · rename_i alive
    cases died
    exact ⟨alive, rfl⟩
  · cases died

/-- What `wait` does. -/
theorem wait_eq_some
    {table next : ProcessTable}
    {pid : Nat}
    (waited : table.wait pid = some next) :
    (pid, .dead) ∈ table.children ∧
      next.children = table.children.erase (pid, .dead) := by
  unfold wait at waited
  split at waited
  · rename_i dead
    cases waited
    exact ⟨dead, rfl⟩
  · cases waited

theorem mem_running_fork
    {table next : ProcessTable}
    {pid other : Nat}
    (forked : table.fork pid = some next) :
    other ∈ next.running ↔ other ∈ table.running ∨ other = pid := by
  simp [mem_running, (fork_eq_some forked).2]

theorem mem_running_die
    {table next : ProcessTable}
    {pid other : Nat}
    (died : table.die pid = some next) :
    other ∈ next.running ↔ other ∈ table.running ∧ other ≠ pid := by
  obtain ⟨-, rfl⟩ := die_eq_some died
  rw [mem_running, mem_running, mem_update]
  split <;> rename_i here
  · simp [here]
  · exact ⟨fun member => ⟨member, here⟩, And.left⟩

/-- Waiting for a dead child changes nothing about those that run. -/
theorem mem_running_wait
    {table next : ProcessTable}
    {pid other : Nat}
    (waited : table.wait pid = some next) :
    other ∈ next.running ↔ other ∈ table.running := by
  obtain ⟨dead, children⟩ := wait_eq_some waited
  rw [mem_running, mem_running, children, List.mem_erase_of_ne (by simp)]

/-- `wait` takes one child off the table. -/
theorem length_wait
    {table next : ProcessTable}
    {pid : Nat}
    (waited : table.wait pid = some next) :
    next.children.length + 1 = table.children.length := by
  obtain ⟨dead, children⟩ := wait_eq_some waited
  have positive := List.length_pos_of_mem dead
  rw [children, List.length_erase_of_mem dead]
  omega

/-! ## The parent's list -/

/-- There are as many children as listed pids, and one more while the parent
waits after a kill; every running child is listed. -/
structure Accounted
    (table : ProcessTable)
    (listed : List Nat)
    (waiting : Bool) : Prop where
  count : table.children.length = listed.length + waiting.toNat
  covered : ∀ pid ∈ table.running, pid ∈ listed

namespace Accounted

variable {table next : ProcessTable} {listed later : List Nat} {pid : Nat}

theorem empty : Accounted empty [] false where
  count := rfl
  covered := by simp [running, ProcessTable.empty]

/-- A child that was forked is put on the list. -/
theorem fork
    (accounted : Accounted table listed false)
    (forked : table.fork pid = some next)
    (added : later.Perm (pid :: listed)) :
    Accounted next later false where
  count := by
    rw [(fork_eq_some forked).2, List.length_append, List.length_singleton,
      added.length_eq, List.length_cons, accounted.count]
    rfl
  covered := by
    intro other member
    rw [added.mem_iff, List.mem_cons]
    rcases (mem_running_fork forked).mp member with old | new
    · exact .inr (accounted.covered other old)
    · exact .inl new

/-- A pid is taken off the list and its child killed. -/
theorem kill
    (accounted : Accounted table listed false)
    (taken : listed.Perm (pid :: later)) :
    Accounted (table.kill pid) later true where
  count := by
    rw [length_kill, accounted.count, taken.length_eq]
    rfl
  covered := by
    intro other member
    obtain ⟨before, different⟩ := mem_running_kill.mp member
    have listed := taken.mem_iff.mp (accounted.covered other before)
    exact (List.mem_cons.mp listed).resolve_left different

/-- The parent has waited for a child, whichever it was. -/
theorem wait
    (accounted : Accounted table listed true)
    (waited : table.wait pid = some next) :
    Accounted next listed false where
  count := by
    have lengths := length_wait waited
    have count := accounted.count
    simp only [Bool.toNat_true, Bool.toNat_false] at count ⊢
    omega
  covered := fun other member =>
    accounted.covered other ((mem_running_wait waited).mp member)

/-- A child may die at any time. -/
theorem die
    {waiting : Bool}
    (accounted : Accounted table listed waiting)
    (died : table.die pid = some next) :
    Accounted next listed waiting where
  count := by
    rw [(die_eq_some died).2, length_update, accounted.count]
  covered := fun other member =>
    accounted.covered other ((mem_running_die died).mp member).1

/-- A parent that waits has a child that is dead or about to die: the running
ones are on the list, and there are more children than pids on it. -/
theorem exists_not_running
    (accounted : Accounted table listed true) :
    ∃ child ∈ table.children, child.2 ≠ .running := by
  by_contra allRun
  push Not at allRun
  have every : table.running = table.pids := by
    unfold running pids
    rw [List.filter_eq_self.mpr fun child member =>
      decide_eq_true (allRun child member)]
  have fewer := (table.running_nodup.subperm accounted.covered).length_le
  have count := accounted.count
  rw [every, pids, List.length_map, count] at fewer
  simp at fewer

end Accounted

/-- The list is exact: it names every running child once and no other. -/
structure Exact
    (table : ProcessTable)
    (listed : List Nat)
    (waiting : Bool) : Prop extends Accounted table listed waiting where
  nodup : listed.Nodup
  runs : ∀ pid ∈ listed, pid ∈ table.running

namespace Exact

variable {table next : ProcessTable} {listed later : List Nat} {pid : Nat}

theorem empty : Exact empty [] false where
  toAccounted := .empty
  nodup := List.nodup_nil
  runs := by simp

theorem fork
    (exact : Exact table listed false)
    (forked : table.fork pid = some next)
    (added : later.Perm (pid :: listed)) :
    Exact next later false where
  toAccounted := exact.toAccounted.fork forked added
  nodup := by
    rw [added.nodup_iff, List.nodup_cons]
    refine ⟨fun member => ?_, exact.nodup⟩
    have runs := mem_running.mp (exact.runs pid member)
    exact (fork_eq_some forked).1 (List.mem_map.mpr ⟨_, runs, rfl⟩)
  runs := by
    intro other member
    rw [mem_running_fork forked]
    rcases List.mem_cons.mp (added.mem_iff.mp member) with new | old
    · exact .inr new
    · exact .inl (exact.runs other old)

theorem kill
    (exact : Exact table listed false)
    (taken : listed.Perm (pid :: later)) :
    Exact (table.kill pid) later true := by
  obtain ⟨absent, nodup⟩ :=
    List.nodup_cons.mp (taken.nodup_iff.mp exact.nodup)
  refine ⟨exact.toAccounted.kill taken, nodup, ?_⟩
  intro other member
  refine mem_running_kill.mpr
    ⟨exact.runs other (taken.mem_iff.mpr (List.mem_cons_of_mem _ member)), ?_⟩
  rintro rfl
  exact absent member

theorem wait
    (exact : Exact table listed true)
    (waited : table.wait pid = some next) :
    Exact next listed false where
  toAccounted := exact.toAccounted.wait waited
  nodup := exact.nodup
  runs := fun other member =>
    (mem_running_wait waited).mpr (exact.runs other member)

/-- The list stays exact when the child that dies was killed. -/
theorem die
    {waiting : Bool}
    (exact : Exact table listed waiting)
    (died : table.die pid = some next)
    (killed : pid ∉ table.running) :
    Exact next listed waiting where
  toAccounted := exact.toAccounted.die died
  nodup := exact.nodup
  runs := by
    intro other member
    have runs := exact.runs other member
    refine (mem_running_die died).mpr ⟨runs, ?_⟩
    rintro rfl
    exact killed runs

end Exact

/-- What a step of such a parent does to the children and to the list; `dies`
are the children that the step may take away. -/
inductive Move
    (dies : Nat → Prop)
    (table : ProcessTable)
    (listed : List Nat)
    (waiting : Bool)
    (next : ProcessTable)
    (later : List Nat)
    (waiting' : Bool) : Prop
  | keep
      (table : next = table)
      (listed : later = listed)
      (waiting : waiting' = waiting)
  | fork
      (pid : Nat)
      (idle : waiting = false)
      (idle' : waiting' = false)
      (forked : table.fork pid = some next)
      (added : later.Perm (pid :: listed))
  | kill
      (pid : Nat)
      (idle : waiting = false)
      (waits : waiting' = true)
      (killed : next = table.kill pid)
      (taken : listed.Perm (pid :: later))
  | wait
      (pid : Nat)
      (waits : waiting = true)
      (idle : waiting' = false)
      (waited : table.wait pid = some next)
      (listed : later = listed)
  | die
      (pid : Nat)
      (allowed : dies pid)
      (waiting : waiting' = waiting)
      (died : table.die pid = some next)
      (listed : later = listed)

section Moves

variable {table next : ProcessTable} {listed later : List Nat}
variable {waiting waiting' : Bool} {dies : Nat → Prop}

theorem Accounted.move
    (accounted : Accounted table listed waiting)
    (move : Move dies table listed waiting next later waiting') :
    Accounted next later waiting' := by
  cases move with
  | keep table listed waits =>
      subst table listed waits
      exact accounted
  | fork pid idle idle' forked added =>
      subst idle idle'
      exact accounted.fork forked added
  | kill pid idle waits killed taken =>
      subst idle waits killed
      exact accounted.kill taken
  | wait pid waits idle waited listed =>
      subst waits idle listed
      exact accounted.wait waited
  | die pid allowed waits died listed =>
      subst waits listed
      exact accounted.die died

/-- The list stays exact when no running child dies without being killed. -/
theorem Exact.move
    (exact : Exact table listed waiting)
    (move : Move dies table listed waiting next later waiting')
    (killed : ∀ pid, dies pid → pid ∉ table.running) :
    Exact next later waiting' := by
  cases move with
  | keep table listed waits =>
      subst table listed waits
      exact exact
  | fork pid idle idle' forked added =>
      subst idle idle'
      exact exact.fork forked added
  | kill pid idle waits killed taken =>
      subst idle waits killed
      exact exact.kill taken
  | wait pid waits idle waited listed =>
      subst waits idle listed
      exact exact.wait waited
  | die pid allowed waits died listed =>
      subst waits listed
      exact exact.die died (killed pid allowed)

end Moves

/-! ## How much can still happen to the children -/

/-- The changes that are left to all children. -/
def left (table : ProcessTable) : Nat :=
  Pool.total (fun child : Nat × Life => child.2.left) table.children

/-- A change of a child that leads no further from its death. -/
theorem left_update_le
    (table : ProcessTable)
    (pid : Nat)
    {become : Life → Life}
    (lower : ∀ life, (become life).left ≤ life.left) :
    (table.update pid become).left ≤ table.left := by
  unfold left Pool.total update
  rw [List.map_map]
  apply List.sum_le_sum
  intro child _
  simp only [Function.comp_apply]
  split
  · exact lower child.2
  · exact Nat.le_refl _

theorem left_kill_le (table : ProcessTable) (pid : Nat) :
    (table.kill pid).left ≤ table.left :=
  table.left_update_le pid fun life => by cases life <;> decide

/-- A death is a change that is not left any more. -/
theorem left_die_lt
    {table next : ProcessTable}
    {pid : Nat}
    (died : table.die pid = some next) :
    next.left < table.left := by
  obtain ⟨alive, rfl⟩ := die_eq_some died
  have lower : ∀ child ∈ table.children,
      (if child.1 = pid then (child.1, Life.dead) else child).2.left ≤
        child.2.left := by
    intro child _
    split
    · exact Nat.zero_le _
    · exact Nat.le_refl _
  unfold left Pool.total update
  rw [List.map_map]
  apply List.sum_lt_sum _ _ lower
  rcases alive with running | killed
  · exact ⟨_, running, by simp [Life.left]⟩
  · exact ⟨_, killed, by simp [Life.left]⟩

/-- A dead child has no changes left. -/
theorem left_wait
    {table next : ProcessTable}
    {pid : Nat}
    (waited : table.wait pid = some next) :
    next.left = table.left := by
  obtain ⟨dead, children⟩ := wait_eq_some waited
  have total := ((List.perm_cons_erase dead).map
    fun child : Nat × Life => child.2.left).sum_eq
  rw [List.map_cons, List.sum_cons] at total
  unfold left Pool.total
  rw [children, total]
  simp [Life.left]

theorem left_le (table : ProcessTable) :
    table.left ≤ 2 * table.children.length := by
  unfold left Pool.total
  have bound := List.sum_le_card_nsmul
    (table.children.map fun child => child.2.left) 2 (by
      intro weight member
      obtain ⟨child, -, rfl⟩ := List.mem_map.mp member
      cases child.2 <;> decide)
  rw [List.length_map] at bound
  simpa [Nat.mul_comm] using bound

end ProcessTable
end OSaSP
