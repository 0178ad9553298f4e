import OSaSP.Foundations.Progress
import OSaSP.IndexSort.Parallel
import Mathlib.Data.Nat.Log

/-!
# The workers return

However the workers take turns, they are done after a number of steps that
depends only on their number and on the number of blocks, and none of them is
left waiting at a barrier.  A worker passes the same barriers whatever it
claims; every claim costs it three more steps at most, and there are fewer than
twice as many jobs as blocks.
-/

namespace OSaSP
namespace IndexSort

variable {Record : Type}

/-! ## The number of jobs -/

/-- The jobs as nodes of a binary tree: a merge has the number of the first
block of its right half, the blocks themselves come behind. -/
def Job.number (levels : Nat) : Job → Nat
  | .sort block => 2 ^ levels + block
  | .merge step block => block + step

/-- A pair of a level meets in the middle of two strides of the level. -/
theorem IsPair.middle_mod
    {levels level block : Nat}
    (pair : IsPair levels level block) :
    (block + 2 ^ level) % 2 ^ (level + 1) = 2 ^ level := by
  rw [Nat.add_mod, pair.1, Nat.zero_add, Nat.mod_mod]
  exact Nat.mod_eq_of_lt
    (Nat.pow_lt_pow_right Nat.one_lt_two (Nat.lt_succ_self _))

/-- The pairs of a higher level meet at ends of its strides. -/
theorem IsPair.middle_mod_of_lt
    {levels level higher block : Nat}
    (pair : IsPair levels higher block)
    (below : level < higher) :
    (block + 2 ^ higher) % 2 ^ (level + 1) = 0 := by
  apply Nat.mod_eq_zero_of_dvd
  apply Nat.dvd_add
  · exact (Nat.pow_dvd_pow 2 (Nat.le_succ_of_le below)).trans
      (Nat.dvd_of_mod_eq_zero pair.1)
  · exact Nat.pow_dvd_pow 2 below

/-- Two pairs that meet at the same block are the same pair. -/
theorem IsPair.eq_of_middle_eq
    {levels level level' block block' : Nat}
    (pair : IsPair levels level block)
    (pair' : IsPair levels level' block')
    (same : block + 2 ^ level = block' + 2 ^ level') :
    level = level' ∧ block = block' := by
  have positive := Nat.two_pow_pos level
  have positive' := Nat.two_pow_pos level'
  rcases Nat.lt_trichotomy level level' with less | rfl | greater
  · have middle := pair.middle_mod
    rw [same, pair'.middle_mod_of_lt less] at middle
    omega
  · exact ⟨rfl, Nat.add_right_cancel same⟩
  · have middle := pair'.middle_mod
    rw [← same, pair.middle_mod_of_lt greater] at middle
    omega

/-- The numbers of the jobs run from 1. -/
theorem Job.Expected.number_range
    {levels : Nat}
    {job : Job}
    (expected : job.Expected levels) :
    1 ≤ job.number levels ∧ job.number levels < 2 ^ (levels + 1) := by
  have positive := Nat.two_pow_pos levels
  rw [Nat.pow_succ]
  cases job with
  | sort block =>
      have inside : block < 2 ^ levels := expected
      simp only [Job.number]
      omega
  | merge step block =>
      obtain ⟨lower, -, rfl, pair⟩ := expected
      have stride := Nat.two_pow_pos lower
      have inside := pair.2
      simp only [Job.number]
      omega

/-- No two jobs have the same number. -/
theorem Job.Expected.number_inj
    {levels : Nat}
    {first second : Job}
    (expected : first.Expected levels)
    (expected' : second.Expected levels)
    (same : first.number levels = second.number levels) :
    first = second := by
  cases first with
  | sort block =>
      cases second with
      | sort block' => exact congrArg Job.sort (Nat.add_left_cancel same)
      | merge step block' =>
          obtain ⟨lower, -, rfl, pair⟩ := expected'
          have inside := pair.2
          simp only [Job.number] at same
          omega
  | merge step block =>
      obtain ⟨lower, -, rfl, pair⟩ := expected
      cases second with
      | sort block' =>
          have inside := pair.2
          simp only [Job.number] at same
          omega
      | merge step block' =>
          obtain ⟨lower', -, rfl, pair'⟩ := expected'
          obtain ⟨rfl, rfl⟩ := pair.eq_of_middle_eq pair' same
          rfl

/-- As many jobs as a binary tree over the blocks has nodes. -/
def jobCount (levels : Nat) : Nat := 2 ^ (levels + 1) - 1

/-- No more jobs than there are can be claimed. -/
theorem length_le_jobCount
    {levels : Nat}
    {claims : List Job}
    (expected : ∀ job ∈ claims, job.Expected levels)
    (nodup : claims.Nodup) :
    claims.length ≤ jobCount levels := by
  have numbered : (claims.map (Job.number levels)).Nodup :=
    List.Nodup.map_on
      (fun first firstMember second secondMember =>
        (expected first firstMember).number_inj
          (expected second secondMember)) nodup
  have inside : claims.map (Job.number levels) ⊆
      List.range' 1 (jobCount levels) := by
    intro number member
    obtain ⟨job, claimed, rfl⟩ := List.mem_map.mp member
    obtain ⟨first, last⟩ := (expected job claimed).number_range
    rw [List.mem_range'_1]
    exact ⟨first, by rw [jobCount]; omega⟩
  have bound := (List.subperm_of_subset numbered inside).length_le
  rwa [List.length_map, List.length_range'] at bound

/-! ## The steps a worker has left -/

/-- The merge levels behind the one with a stride. -/
def levelsBehind (levels step : Nat) : Nat := levels - Nat.log 2 step - 1

/-- The steps that a worker still takes if it claims nothing more. -/
def WorkerPc.stepsLeft (levels : Nat) : WorkerPc Record → Nat
  | .starting => 6 * levels + 5
  | .claimInitial | .sortInitial _ | .sortBlock _ => 6 * levels + 4
  | .claimBlock => 6 * levels + 3
  | .blocksDone => 6 * levels + 2
  | .levelTest step => 6 * (levels - Nat.log 2 step) + 1
  | .beforeClear step => 6 * levelsBehind levels step + 6
  | .clear step => 6 * levelsBehind levels step + 5
  | .cleared step => 6 * levelsBehind levels step + 4
  | .claimPair step => 6 * levelsBehind levels step + 3
  | .merging step _ => 6 * levelsBehind levels step + 5
  | .copying step _ _ => 6 * levelsBehind levels step + 4
  | .pairsDone step => 6 * levelsBehind levels step + 2
  | .returned => 0

/-- One step less for a worker that has arrived at its barrier. -/
def Worker.stepsLeft (levels : Nat) (worker : Worker Record) : Nat :=
  worker.pc.stepsLeft levels - worker.arrived.toNat

section Steps

variable {levels level : Nat} {phase : Phase} {pc after : WorkerPc Record}

theorem levelsBehind_two_pow (levels level : Nat) :
    levelsBehind levels (2 ^ level) = levels - level - 1 := by
  rw [levelsBehind, Nat.log_pow Nat.one_lt_two]

/-- The level after the current one. -/
theorem levels_sub_log_double (levels level : Nat) :
    levels - Nat.log 2 (2 ^ level * 2) = levels - level - 1 := by
  rw [← Nat.pow_succ, Nat.log_pow Nat.one_lt_two, ← Nat.add_one,
    Nat.sub_add_eq]

/-- Going through a barrier is one step. -/
theorem WorkerPc.stepsLeft_afterBarrier
    (inPhase : pc.inPhase levels phase)
    (leads : pc.afterBarrier = some after) :
    pc.stepsLeft levels = after.stepsLeft levels + 1 := by
  cases pc with
  | starting | beforeClear | cleared => cases leads; rfl
  | blocksDone =>
      cases leads
      simp [stepsLeft]
  | pairsDone step =>
      cases leads
      cases phase with
      | merging level =>
          obtain ⟨rfl, -⟩ := inPhase
          rw [stepsLeft, stepsLeft, levels_sub_log_double,
            levelsBehind_two_pow]
      | start | sorting | level | clearing => exact inPhase.elim
  | claimInitial | sortInitial | claimBlock | sortBlock | levelTest | clear
  | claimPair | merging | copying | returned => cases leads

/-- Being let go does not change the steps that are left. -/
theorem Worker.stepsLeft_release
    {worker : Worker Record}
    (waits : worker.arrived = true)
    (inPhase : worker.pc.inPhase levels phase)
    (barrier : worker.pc.afterBarrier.isSome = true) :
    (PoolState.release worker).stepsLeft levels = worker.stepsLeft levels := by
  obtain ⟨after, leads⟩ := Option.isSome_iff_exists.mp barrier
  have less := WorkerPc.stepsLeft_afterBarrier inPhase leads
  simp only [PoolState.release, waits, leads, if_true, Worker.stepsLeft, less,
    Bool.toNat_true, Bool.toNat_false, Nat.add_sub_cancel, Nat.sub_zero]

end Steps

/-! ## Every step brings the return closer -/

section Rank

variable {Key : Type} [LinearOrder Key] {timeMark : Record → Key}
  {qsort : Qsort timeMark} {config : Config} {levels : Nat}
  {original : Nat → Record} {state next : PoolState Record} {id : Nat}
  {worker : Worker Record} {allocation : Option (Nat → Record)}

/-- What a step of a worker outside the barriers costs: a claim may add two
steps, everything else is one step less.  A failed allocation ends the
process. -/
inductive Advance
    (levels id : Nat)
    (worker : Worker Record)
    (state next : PoolState Record) : Prop
  | exit (exited : next.exited = true)
  | move (pc : WorkerPc Record)
      (workers : next.workers = state.workers.set id ⟨pc, false⟩)
      (claims : next.claims = state.claims)
      (fewer : pc.stepsLeft levels < worker.pc.stepsLeft levels)
  | claim (pc : WorkerPc Record) (job : Job)
      (workers : next.workers = state.workers.set id ⟨pc, false⟩)
      (claims : next.claims = state.claims ++ [job])
      (most : pc.stepsLeft levels ≤ worker.pc.stepsLeft levels + 2)

/-- The steps of a worker that is not at a barrier. -/
theorem advanceWorker_advance
    {phase : Phase}
    (blocksEq : config.blocks = 2 ^ levels)
    (inPhase : worker.pc.inPhase levels phase)
    (running : worker.arrived = false)
    (working : worker.pc.afterBarrier = none)
    (advanced : advanceWorker qsort config id worker allocation state =
      some next) :
    Advance levels id worker state next := by
  simp only [advanceWorker, running, Bool.false_eq_true, if_false]
    at advanced
  cases place : worker.pc with
  | starting | blocksDone | beforeClear | cleared | pairsDone =>
      rw [place] at working
      cases working
  | claimInitial =>
      simp only [place] at advanced
      split at advanced <;> cases advanced
      · exact .claim _ _ rfl rfl (by simp [place, WorkerPc.stepsLeft])
      · exact .move _ rfl rfl (by simp [place, WorkerPc.stepsLeft])
  | sortInitial block | sortBlock block =>
      simp only [place] at advanced
      cases advanced
      exact .move _ rfl rfl (by simp [place, WorkerPc.stepsLeft])
  | claimBlock =>
      simp only [place] at advanced
      split at advanced <;> cases advanced
      · exact .claim _ _ rfl rfl (by simp [place, WorkerPc.stepsLeft])
      · exact .move _ rfl rfl (by simp [place, WorkerPc.stepsLeft])
  | levelTest step =>
      rw [place] at inPhase
      cases phase with
      | level level =>
          obtain ⟨rfl, bound⟩ := inPhase
          simp only [place, blocksEq] at advanced
          split at advanced <;> cases advanced
          · rename_i inside
            have below : level < levels :=
              (Nat.pow_lt_pow_iff_right (Nat.le_refl 2)).mp inside
            refine .move _ rfl rfl ?_
            rw [place, WorkerPc.stepsLeft, WorkerPc.stepsLeft,
              levelsBehind_two_pow, Nat.log_pow Nat.one_lt_two]
            omega
          · exact .move _ rfl rfl (by simp [place, WorkerPc.stepsLeft])
      | start | sorting | clearing | merging => exact inPhase.elim
  | clear step =>
      simp only [place] at advanced
      cases advanced
      refine .move (.cleared step) ?_ ?_ ?_
      · split <;> rfl
      · split <;> rfl
      · simp [place, WorkerPc.stepsLeft]
  | claimPair step =>
      simp only [place] at advanced
      split at advanced <;> cases advanced
      · exact .claim _ _ rfl rfl (by simp [place, WorkerPc.stepsLeft])
      · exact .move _ rfl rfl (by simp [place, WorkerPc.stepsLeft])
  | merging step block =>
      simp only [place] at advanced
      split at advanced
      · cases allocation with
        | none =>
            cases advanced
            exact .exit rfl
        | some tmp =>
            cases advanced
            exact .move _ rfl rfl (by simp [place, WorkerPc.stepsLeft])
      · cases advanced
        exact .move _ rfl rfl (by simp [place, WorkerPc.stepsLeft])
  | copying step block tmp =>
      simp only [place] at advanced
      cases advanced
      exact .move _ rfl rfl (by simp [place, WorkerPc.stepsLeft])
  | returned => simp [place] at advanced

/-- The steps that all workers still take if nothing more is claimed. -/
def PoolState.stepsLeft (levels : Nat) (state : PoolState Record) : Nat :=
  Pool.total (Worker.stepsLeft levels) state.workers

/-- The steps that are left, with three for every job not yet claimed. -/
def PoolState.rank (levels : Nat) (state : PoolState Record) : Nat :=
  if state.exited then 0
  else state.stepsLeft levels + 3 * (jobCount levels - state.claims.length)

/-- A worker that can move has a step left. -/
theorem WorkerPc.stepsLeft_pos
    (levels : Nat)
    {pc : WorkerPc Record}
    (notReturned : pc ≠ .returned) :
    0 < pc.stepsLeft levels := by
  cases pc with
  | returned => exact absurd rfl notReturned
  | starting | claimInitial | sortInitial | claimBlock | sortBlock
  | blocksDone | levelTest | beforeClear | clear | cleared | claimPair
  | merging | copying | pairsDone => exact Nat.succ_pos _

/-- The barrier takes one step from the worker that arrives and none from those
it lets go. -/
theorem stepsLeft_barrierWait
    {phase : Phase}
    (roster : Roster config.threads levels phase state.workers state.arrived)
    (present : state.workers[id]? = some worker)
    (running : worker.arrived = false)
    (barrier : worker.pc.afterBarrier.isSome = true) :
    (state.barrierWait config.threads id worker.pc).stepsLeft levels + 1 =
      state.stepsLeft levels := by
  have counted := Pool.total_set (Worker.stepsLeft levels) present
    ⟨worker.pc, true⟩
  have positive : 0 < worker.pc.stepsLeft levels := by
    apply WorkerPc.stepsLeft_pos
    intro place
    rw [place] at barrier
    cases barrier
  have waiting : Pool.total (Worker.stepsLeft levels)
      (state.workers.set id ⟨worker.pc, true⟩) + 1 =
        state.stepsLeft levels := by
    simp only [Worker.stepsLeft, running, Bool.toNat_false, Bool.toNat_true,
      PoolState.stepsLeft] at counted ⊢
    omega
  unfold PoolState.barrierWait
  dsimp only
  split
  · rename_i last
    have everyone := roster.all_arrived present running barrier last
    rw [← waiting]
    congr 1
    simp only [PoolState.stepsLeft, Pool.total, List.map_map]
    apply congrArg
    apply List.map_congr_left
    intro worker' member
    obtain ⟨waits, inPhase, atBarrier⟩ := everyone worker' member
    exact Worker.stepsLeft_release waits inPhase atBarrier
  · exact waiting

/-- No more is claimed than there are jobs. -/
theorem PoolInvariant.length_claims_le
    (invariant : PoolInvariant timeMark config levels original state)
    (blocksEq : config.blocks = 2 ^ levels)
    (positive : 0 < config.threads) :
    state.claims.length ≤ jobCount levels := by
  obtain ⟨expected, nodup⟩ := invariant.claims blocksEq positive
  exact length_le_jobCount expected nodup

/-- Every step of the pool lowers its rank. -/
theorem PoolInvariant.rank_lt
    {action : PoolAction Record}
    (invariant : PoolInvariant timeMark config levels original state)
    (blocksEq : config.blocks = 2 ^ levels)
    (positive : 0 < config.threads)
    (stepped : poolStep qsort config state action = some next) :
    next.rank levels < state.rank levels := by
  have bounded := (invariant.step blocksEq positive stepped).length_claims_le
    blocksEq positive
  unfold poolStep at stepped
  split at stepped
  · cases stepped
  rename_i alive
  rw [Option.bind_eq_some_iff] at stepped
  obtain ⟨worker, present, advanced⟩ := stepped
  obtain ⟨phase, roster, -, -⟩ := invariant
  have inPhase := roster.inPhase worker (List.mem_of_getElem? present)
  have own := Pool.weight_le_total (Worker.stepsLeft levels) present
  cases running : worker.arrived with
  | true => simp [advanceWorker, running] at advanced
  | false =>
      have ownSteps : worker.stepsLeft levels = worker.pc.stepsLeft levels := by
        rw [Worker.stepsLeft, running]
        rfl
      have counted : ∀ pc, Pool.total (Worker.stepsLeft levels)
            (state.workers.set action.id ⟨pc, false⟩) +
          worker.pc.stepsLeft levels =
            state.stepsLeft levels + pc.stepsLeft levels := by
        intro pc
        rw [← ownSteps]
        exact Pool.total_set (Worker.stepsLeft levels) present ⟨pc, false⟩
      rw [PoolState.rank, PoolState.rank, if_neg alive]
      cases barrier : worker.pc.afterBarrier with
      | some after =>
          have waits : next =
              state.barrierWait config.threads action.id worker.pc := by
            cases place : worker.pc <;> rw [place] at barrier <;>
              simp [WorkerPc.afterBarrier] at barrier <;>
              simpa [advanceWorker, running, place, eq_comm] using advanced
          have less : (state.barrierWait config.threads action.id
              worker.pc).stepsLeft levels + 1 = state.stepsLeft levels :=
            stepsLeft_barrierWait roster present running
              (by rw [barrier]; rfl)
          have claims : next.claims = state.claims := by
            rw [waits, PoolState.barrierWait]
            split <;> rfl
          rw [← waits] at less
          rw [claims]
          split <;> omega
      | none =>
          have notReturned : worker.pc ≠ .returned := by
            intro place
            simp [advanceWorker, running, place] at advanced
          have left := WorkerPc.stepsLeft_pos levels notReturned
          change worker.stepsLeft levels ≤ state.stepsLeft levels at own
          cases advanceWorker_advance blocksEq inPhase running barrier
            advanced with
          | exit exited =>
              rw [if_pos exited]
              omega
          | move pc workers claims fewer =>
              have moved := counted pc
              rw [← workers] at moved
              rw [claims]
              change next.stepsLeft levels + _ = _ at moved
              split <;> omega
          | claim pc job workers claims most =>
              have moved := counted pc
              rw [← workers] at moved
              change next.stepsLeft levels + _ = _ at moved
              rw [claims, List.length_append, List.length_singleton]
                at bounded ⊢
              split <;> omega

/-! ## No worker is left waiting -/

/-- A worker that neither waits nor has returned can take a step. -/
theorem advanceWorker_isSome
    (id : Nat)
    (running : worker.arrived = false)
    (notReturned : worker.pc ≠ .returned)
    (allocation : Option (Nat → Record))
    (state : PoolState Record) :
    (advanceWorker qsort config id worker allocation state).isSome = true := by
  simp only [advanceWorker, running, Bool.false_eq_true, if_false]
  cases place : worker.pc with
  | returned => exact absurd place notReturned
  | claimInitial | claimBlock | levelTest | claimPair =>
      dsimp only
      split <;> rfl
  | merging =>
      dsimp only
      split
      · cases allocation <;> rfl
      · rfl
  | starting | sortInitial | sortBlock | blocksDone | beforeClear | clear
  | cleared | copying | pairsDone => rfl

/-- The workers are stuck only when all of them have returned: the last one at
a barrier is never one that has returned already. -/
theorem PoolInvariant.stuck_iff
    {base : Nat → Record}
    (invariant : PoolInvariant timeMark config levels original state) :
    (pool qsort config base).Stuck state ↔
      state.exited = true ∨ AllReturned state := by
  obtain ⟨phase, roster, -, -⟩ := invariant
  constructor
  · intro stuck
    by_contra notDone
    obtain ⟨alive, notAll⟩ := not_or.mp notDone
    -- Whoever has not returned waits at a barrier.
    have waiting : ∀ worker ∈ state.workers,
        worker.pc ≠ .returned → worker.arrived = true := by
      intro worker member notReturned
      by_contra running
      rw [Bool.not_eq_true] at running
      obtain ⟨id, present⟩ := List.getElem?_of_mem member
      have blocked : poolStep qsort config state ⟨id, none⟩ = none :=
        stuck ⟨id, none⟩
      rw [poolStep, if_neg alive, present, Option.bind_some] at blocked
      have moves : (advanceWorker qsort config id worker none
          state).isSome = true :=
        advanceWorker_isSome id running notReturned none state
      rw [blocked] at moves
      cases moves
    obtain ⟨slow, slowMember, slowPlace⟩ :
        ∃ worker ∈ state.workers, worker.pc ≠ .returned := by
      by_contra none
      apply notAll
      intro worker member
      have place : worker.pc = .returned := by
        by_contra notReturned
        exact none ⟨worker, member, notReturned⟩
      rw [place]
    have slowWaits := roster.atBarrier slow slowMember
      (waiting slow slowMember slowPlace)
    have slowPhase := roster.inPhase slow slowMember
    -- At the last level nobody waits, and elsewhere nobody has returned.
    have nobodyReturned : ∀ worker ∈ state.workers, worker.pc ≠ .returned := by
      intro worker member place
      have inPhase := roster.inPhase worker member
      rw [place] at inPhase
      cases phase with
      | level level =>
          obtain rfl : level = levels := inPhase
          cases slowAt : slow.pc <;> rw [slowAt] at slowPhase slowWaits <;>
            first
              | exact slowPhase.elim
              | exact absurd slowPhase.2 (Nat.lt_irrefl _)
              | cases slowWaits
      | start | sorting | clearing | merging => exact inPhase.elim
    have all : Pool.total (fun worker : Worker Record => worker.arrived.toNat)
        state.workers = Pool.total (fun _ => 1) state.workers := by
      apply Pool.total_congr
      intro worker member
      rw [waiting worker member (nobodyReturned worker member)]
      rfl
    have everyone : Pool.total (fun _ : Worker Record => 1) state.workers =
        config.threads := by
      simp [Pool.total, roster.size]
    have arrivals := roster.arrivals
    have incomplete := roster.incomplete
    omega
  · rintro (exited | returned) action
    · change poolStep qsort config state action = none
      rw [poolStep, if_pos exited]
    · change poolStep qsort config state action = none
      rw [poolStep]
      split
      · rfl
      · rw [Option.bind_eq_none_iff]
        intro worker present
        have place := returned worker (List.mem_of_getElem? present)
        have atEnd : worker.pc = .returned := by
          cases atPlace : worker.pc <;> rw [atPlace] at place <;>
            first | rfl | cases place
        rw [advanceWorker, atEnd]
        split <;> rfl

end Rank

/-- For any number of records, any power of two of blocks and any number of
workers: no schedule of the workers is longer than a number that depends on
the workers and the blocks only, and when no worker can take another step, the
process has exited after a failed allocation or all workers have returned. -/
theorem workers_return
    {Key : Type}
    [LinearOrder Key]
    {timeMark : Record → Key}
    (qsort : Qsort timeMark)
    (config : Config)
    (levels : Nat)
    (blocksEq : config.blocks = 2 ^ levels)
    (positive : 0 < config.threads)
    (base : Nat → Record)
    (schedule : List (PoolAction Record))
    (state : PoolState Record)
    (executed : (pool qsort config base).run (poolStart config base) schedule =
      some state) :
    schedule.length ≤
        config.threads * (6 * levels + 5) + 3 * jobCount levels ∧
      ((pool qsort config base).Stuck state ↔
        state.exited = true ∨ AllReturned state) := by
  have starts : PoolInvariant timeMark config levels base
      (poolStart config base) := poolInvariant_start positive base
  constructor
  · have bounded := Machine.length_add_rank_le (PoolState.rank levels)
      (fun _ _ _ invariant stepped =>
        PoolInvariant.step invariant blocksEq positive stepped)
      (fun _ _ _ invariant stepped =>
        PoolInvariant.rank_lt invariant blocksEq positive stepped)
      starts executed
    have first : (poolStart config base).rank levels =
        config.threads * (6 * levels + 5) + 3 * jobCount levels := by
      simp [PoolState.rank, PoolState.stepsLeft, poolStart, Pool.total,
        Worker.stepsLeft, WorkerPc.stepsLeft]
    omega
  · have invariant := poolInvariant_of_reachable blocksEq positive
      (Machine.Reachable.run (.initial rfl) executed)
    exact invariant.stuck_iff

/-- The two workers that sort five records take 27 steps of at most 31. -/
theorem twoWorkersSchedule_returns :
    ∃ state,
      (pool (insertionQsort id) twoWorkers fiveRecords).run
          (poolStart twoWorkers fiveRecords) twoWorkersSchedule =
        some state ∧
      twoWorkersSchedule.length ≤ 2 * (6 * 1 + 5) + 3 * jobCount 1 ∧
      (pool (insertionQsort id) twoWorkers fiveRecords).Stuck state := by
  have executed : ∃ state,
      (pool (insertionQsort id) twoWorkers fiveRecords).run
          (poolStart twoWorkers fiveRecords) twoWorkersSchedule =
        some state ∧ AllReturned state :=
    ⟨_, rfl, by unfold AllReturned; decide⟩
  obtain ⟨state, ran, returned⟩ := executed
  have ended := workers_return (insertionQsort id) twoWorkers 1 rfl
    (by decide) fiveRecords twoWorkersSchedule state ran
  exact ⟨state, ran, ended.1, ended.2.mpr (.inr returned)⟩

end IndexSort
end OSaSP
