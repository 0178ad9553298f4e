import OSaSP.Foundations.Pool
import OSaSP.IndexSort.Layout

/-!
# The phases of the workers

The barriers divide a run into phases, and all workers are in the same one.
The roster says so and counts the arrivals; the ledger says that every claim
is either finished or held by a worker.  Both are kept by every step, whatever
the phase.
-/

namespace OSaSP
namespace IndexSort

variable {Record : Type}

/-- What the barriers separate. -/
inductive Phase
  | start
  | sorting
  | level (level : Nat)
  | clearing (level : Nat)
  | merging (level : Nat)

/-- The phase after the barrier that ends a phase. -/
def Phase.next : Phase → Phase
  | .start => .sorting
  | .sorting => .level 0
  | .level current => .clearing current
  | .clearing current => .merging current
  | .merging current => .level (current + 1)

/-- The places of a phase, when `2 ^ levels` blocks are merged. -/
def WorkerPc.inPhase
    (levels : Nat) :
    WorkerPc Record → Phase → Prop
  | .starting, .start => True
  | .claimInitial, .sorting | .sortInitial _, .sorting
  | .claimBlock, .sorting | .sortBlock _, .sorting
  | .blocksDone, .sorting => True
  | .levelTest step, .level level => step = 2 ^ level ∧ level ≤ levels
  | .beforeClear step, .level level => step = 2 ^ level ∧ level < levels
  | .returned, .level level => level = levels
  | .clear step, .clearing level | .cleared step, .clearing level =>
      step = 2 ^ level ∧ level < levels
  | .claimPair step, .merging level | .merging step _, .merging level
  | .copying step _ _, .merging level | .pairsDone step, .merging level =>
      step = 2 ^ level ∧ level < levels
  | _, _ => False

/-- A barrier leads into the next phase. -/
theorem WorkerPc.inPhase_afterBarrier
    {levels : Nat}
    {pc after : WorkerPc Record}
    {phase : Phase}
    (inPhase : pc.inPhase levels phase)
    (leads : pc.afterBarrier = some after) :
    after.inPhase levels phase.next := by
  cases pc with
  | starting =>
      cases leads
      cases phase <;> first | exact inPhase.elim | trivial
  | blocksDone =>
      cases leads
      cases phase <;> first
        | exact inPhase.elim
        | exact ⟨rfl, Nat.zero_le _⟩
  | beforeClear step =>
      cases leads
      cases phase <;> first | exact inPhase.elim | exact inPhase
  | cleared step =>
      cases leads
      cases phase <;> first | exact inPhase.elim | exact inPhase
  | pairsDone step =>
      cases leads
      cases phase <;> first
        | exact inPhase.elim
        | exact ⟨by rw [inPhase.1, Nat.pow_succ], inPhase.2⟩
  | claimInitial | sortInitial | claimBlock | sortBlock | levelTest | clear
  | claimPair | merging | copying | returned => cases leads

/-! ## The roster -/

/-- All workers are in one phase, and the barrier has counted those that
wait. -/
structure Roster
    (threads levels : Nat)
    (phase : Phase)
    (workers : List (Worker Record))
    (arrived : Nat) : Prop where
  inPhase : ∀ worker ∈ workers, worker.pc.inPhase levels phase
  size : workers.length = threads
  arrivals : Pool.total (fun worker => worker.arrived.toNat) workers = arrived
  incomplete : arrived < threads
  atBarrier : ∀ worker ∈ workers,
    worker.arrived = true → worker.pc.afterBarrier.isSome = true

namespace Roster

variable {threads levels arrived id : Nat} {phase : Phase}
  {workers : List (Worker Record)} {worker : Worker Record}
  {pc : WorkerPc Record}

/-- A worker that moves inside its phase keeps the roster. -/
theorem goto
    (roster : Roster threads levels phase workers arrived)
    (present : workers[id]? = some worker)
    (running : worker.arrived = false)
    (inPhase : pc.inPhase levels phase) :
    Roster threads levels phase (workers.set id ⟨pc, false⟩) arrived := by
  have counted := Pool.total_set
    (fun worker : Worker Record => worker.arrived.toNat) present ⟨pc, false⟩
  have arrivals := roster.arrivals
  simp only [running, Bool.toNat_false, Nat.add_zero] at counted
  constructor
  · exact Pool.forall_mem_set roster.inPhase inPhase
  · rw [List.length_set]
    exact roster.size
  · omega
  · exact roster.incomplete
  · exact Pool.forall_mem_set roster.atBarrier (by simp)

/-- An arrival that is not the last one keeps the phase. -/
theorem arrive
    (roster : Roster threads levels phase workers arrived)
    (present : workers[id]? = some worker)
    (running : worker.arrived = false)
    (barrier : worker.pc.afterBarrier.isSome = true)
    (notLast : arrived + 1 ≠ threads) :
    Roster threads levels phase (workers.set id ⟨worker.pc, true⟩)
      (arrived + 1) := by
  have counted := Pool.total_set
    (fun worker : Worker Record => worker.arrived.toNat) present
    ⟨worker.pc, true⟩
  have arrivals := roster.arrivals
  have incomplete := roster.incomplete
  simp only [running, Bool.toNat_false, Bool.toNat_true, Nat.add_zero]
    at counted
  constructor
  · exact Pool.forall_mem_set roster.inPhase
      (roster.inPhase worker (List.mem_of_getElem? present))
  · rw [List.length_set]
    exact roster.size
  · omega
  · omega
  · exact Pool.forall_mem_set roster.atBarrier fun _ => barrier

/-- At the last arrival every worker waits at a barrier. -/
theorem all_arrived
    (roster : Roster threads levels phase workers arrived)
    (present : workers[id]? = some worker)
    (running : worker.arrived = false)
    (barrier : worker.pc.afterBarrier.isSome = true)
    (last : arrived + 1 = threads) :
    ∀ worker' ∈ workers.set id ⟨worker.pc, true⟩,
      worker'.arrived = true ∧ worker'.pc.inPhase levels phase ∧
        worker'.pc.afterBarrier.isSome = true := by
  have counted := Pool.total_set
    (fun worker : Worker Record => worker.arrived.toNat) present
    ⟨worker.pc, true⟩
  have arrivals := roster.arrivals
  have size := roster.size
  simp only [running, Bool.toNat_false, Bool.toNat_true, Nat.add_zero]
    at counted
  have everyone : Pool.total (fun _ : Worker Record => 1)
      (workers.set id ⟨worker.pc, true⟩) = threads := by
    simp [Pool.total, size]
  have arrived' := Pool.eq_of_total_eq
    (fun (worker : Worker Record) _ => Bool.toNat_le worker.arrived)
    (by omega : Pool.total (fun worker => worker.arrived.toNat)
        (workers.set id ⟨worker.pc, true⟩) =
      Pool.total (fun _ => 1) (workers.set id ⟨worker.pc, true⟩))
  have phases : ∀ worker' ∈ workers.set id ⟨worker.pc, true⟩,
      worker'.pc.inPhase levels phase :=
    Pool.forall_mem_set roster.inPhase
      (roster.inPhase worker (List.mem_of_getElem? present))
  have barriers : ∀ worker' ∈ workers.set id ⟨worker.pc, true⟩,
      worker'.arrived = true → worker'.pc.afterBarrier.isSome = true :=
    Pool.forall_mem_set roster.atBarrier fun _ => barrier
  intro worker' member
  have waits : worker'.arrived = true := by
    have counts := arrived' worker' member
    cases flag : worker'.arrived with
    | true => rfl
    | false => rw [flag] at counts; cases counts
  exact ⟨waits, phases worker' member, barriers worker' member waits⟩

/-- The last arrival takes all workers to the next phase. -/
theorem release
    {waiting : List (Worker Record)}
    (positive : 0 < threads)
    (size : waiting.length = threads)
    (everyone : ∀ worker ∈ waiting,
      worker.arrived = true ∧ worker.pc.inPhase levels phase ∧
        worker.pc.afterBarrier.isSome = true) :
    Roster threads levels phase.next (waiting.map PoolState.release) 0 := by
  have released : ∀ worker ∈ waiting.map PoolState.release,
      worker.pc.inPhase levels phase.next ∧ worker.arrived = false := by
    intro worker member
    obtain ⟨before, beforeMember, rfl⟩ := List.mem_map.mp member
    obtain ⟨waits, inPhase, barrier⟩ := everyone before beforeMember
    obtain ⟨after, leads⟩ := Option.isSome_iff_exists.mp barrier
    simp only [PoolState.release, waits, leads, if_true]
    exact ⟨WorkerPc.inPhase_afterBarrier inPhase leads, trivial⟩
  constructor
  · exact fun worker member => (released worker member).1
  · rw [List.length_map]
    exact size
  · apply (Pool.total_eq_zero_iff _ _).mpr
    intro worker member
    rw [(released worker member).2]
    rfl
  · exact positive
  · intro worker member waits
    rw [(released worker member).2] at waits
    cases waits

end Roster

/-! ## The ledger -/

/-- The job a worker holds at a place. -/
def WorkerPc.held : WorkerPc Record → Option Job
  | .sortInitial block | .sortBlock block => some (.sort block)
  | .merging step block | .copying step block _ => some (.merge step block)
  | _ => none

/-- A worker at a barrier holds nothing. -/
theorem WorkerPc.held_of_barrier
    {pc : WorkerPc Record}
    (barrier : pc.afterBarrier.isSome = true) :
    pc.held = none := by
  cases pc <;> first | rfl | cases barrier

/-- Neither does it when the barrier lets it go. -/
theorem WorkerPc.held_afterBarrier
    {pc after : WorkerPc Record}
    (leads : pc.afterBarrier = some after) :
    after.held = none := by
  cases pc <;> cases leads <;> rfl

/-- One if the worker holds the job. -/
def Worker.holds (job : Job) (worker : Worker Record) : Nat :=
  if worker.pc.held = some job then 1 else 0

/-- Every claim of a job is finished or held. -/
def Ledger
    (claims finished : List Job)
    (workers : List (Worker Record)) : Prop :=
  ∀ job, claims.count job =
    finished.count job + Pool.total (Worker.holds job) workers

namespace Ledger

variable {claims finished : List Job} {workers : List (Worker Record)}
  {id : Nat} {worker new : Worker Record} {job : Job}

/-- A worker that neither claims nor finishes keeps the ledger. -/
theorem move
    (ledger : Ledger claims finished workers)
    (present : workers[id]? = some worker)
    (same : new.pc.held = worker.pc.held) :
    Ledger claims finished (workers.set id new) := by
  intro job
  have counted := Pool.total_set (Worker.holds job) present new
  have equal : new.holds job = worker.holds job := by
    rw [Worker.holds, Worker.holds, same]
  have before := ledger job
  omega

/-- A worker claims a job. -/
theorem claim
    (ledger : Ledger claims finished workers)
    (present : workers[id]? = some worker)
    (free : worker.pc.held = none)
    (holds : new.pc.held = some job) :
    Ledger (claims ++ [job]) finished (workers.set id new) := by
  intro other
  have counted := Pool.total_set (Worker.holds other) present new
  have before := ledger other
  simp only [Worker.holds, free, holds, reduceCtorEq, if_false,
    Option.some.injEq] at counted
  simp only [List.count_append, List.count_singleton, beq_iff_eq]
  omega

/-- A worker finishes its job. -/
theorem finish
    (ledger : Ledger claims finished workers)
    (present : workers[id]? = some worker)
    (holds : worker.pc.held = some job)
    (free : new.pc.held = none) :
    Ledger claims (finished ++ [job]) (workers.set id new) := by
  intro other
  have counted := Pool.total_set (Worker.holds other) present new
  have before := ledger other
  simp only [Worker.holds, free, holds, reduceCtorEq, if_false,
    Option.some.injEq] at counted
  simp only [List.count_append, List.count_singleton, beq_iff_eq]
  omega

/-- Workers that hold nothing hold no particular job. -/
theorem total_holds_eq_zero
    (free : ∀ worker ∈ workers, worker.pc.held = none)
    (job : Job) :
    Pool.total (Worker.holds job) workers = 0 := by
  apply (Pool.total_eq_zero_iff _ _).mpr
  intro worker member
  rw [Worker.holds, free worker member]
  rfl

/-- When nobody holds anything, every claim is finished. -/
theorem finished_eq
    (ledger : Ledger claims finished workers)
    (free : ∀ worker ∈ workers, worker.pc.held = none)
    (job : Job) :
    finished.count job = claims.count job := by
  have balance := ledger job
  rw [total_holds_eq_zero free] at balance
  omega

/-- The ledger survives a barrier. -/
theorem release
    {waiting : List (Worker Record)}
    (ledger : Ledger claims finished waiting)
    (everyone : ∀ worker ∈ waiting,
      worker.arrived = true ∧ worker.pc.afterBarrier.isSome = true) :
    Ledger claims finished (waiting.map PoolState.release) := by
  intro job
  have free : ∀ worker ∈ waiting, worker.pc.held = none :=
    fun worker member =>
      WorkerPc.held_of_barrier (everyone worker member).2
  have after : ∀ worker ∈ waiting.map PoolState.release,
      worker.pc.held = none := by
    intro worker member
    obtain ⟨before, beforeMember, rfl⟩ := List.mem_map.mp member
    obtain ⟨waits, barrier⟩ := everyone before beforeMember
    obtain ⟨pc, leads⟩ := Option.isSome_iff_exists.mp barrier
    simp only [PoolState.release, waits, leads, if_true]
    exact WorkerPc.held_afterBarrier leads
  rw [ledger job, total_holds_eq_zero free, total_holds_eq_zero after]

/-- A job that a worker holds is claimed. -/
theorem claimed_of_holds
    (ledger : Ledger claims finished workers)
    (member : worker ∈ workers)
    (holds : worker.pc.held = some job) :
    claims.count job ≠ 0 := by
  obtain ⟨id, present⟩ := List.getElem?_of_mem member
  have bound := Pool.weight_le_total (Worker.holds job) present
  have balance := ledger job
  have one : worker.holds job = 1 := by
    rw [Worker.holds, holds, if_pos rfl]
  omega

/-- A job claimed once is held by at most one worker and then not finished. -/
theorem sole_holder
    (ledger : Ledger claims finished workers)
    (once : claims.count job ≤ 1)
    (present : workers[id]? = some worker)
    (holds : worker.pc.held = some job) :
    finished.count job = 0 ∧
      ∀ other worker', workers[other]? = some worker' → other ≠ id →
        worker'.pc.held ≠ some job := by
  have bound := Pool.weight_le_total (Worker.holds job) present
  have balance := ledger job
  have one : worker.holds job = 1 := by
    rw [Worker.holds, holds, if_pos rfl]
  refine ⟨by omega, fun other worker' found different also => ?_⟩
  have both := Pool.weight_add_weight_le_total (Worker.holds job) found
    present different
  have alsoOne : worker'.holds job = 1 := by
    rw [Worker.holds, also, if_pos rfl]
  omega

end Ledger

end IndexSort
end OSaSP
