import OSaSP.Foundations.Phased
import OSaSP.IndexSort.Parallel

/-!
# The parallel sort as a sequence of jobs

A finished job has done to the records what it does on its own, because
nobody else touched its range meanwhile.  So the records are always those that
the finished jobs make of the original ones, one after the other.  The jobs of
a phase commute, and which jobs there are depends on the blocks only: neither
the schedule nor the number of workers matters.
-/

namespace OSaSP
namespace IndexSort

open Segment

section Jobs

variable {Record Key : Type} [LinearOrder Key] {timeMark : Record → Key}
  (qsort : Qsort timeMark) (config : Config)

/-- What a job makes of the records of its range. -/
def Job.result (records : List Record) : Job → List Record
  | .sort _ => qsort.sort records
  | .merge step block =>
      mergeLists timeMark (records.take (config.n1 step block))
        (records.drop (config.n1 step block))

/-- One job done on its own. -/
def applyJob (base : Nat → Record) (job : Job) : Nat → Record :=
  overwrite base (config.range job).1
    (job.result qsort config
      (slice base (config.range job).1 (config.range job).2))

/-- The number of the phase of a job: the blocks are sorted first, then the
pairs are merged in growing steps. -/
def Job.phase : Job → Nat
  | .sort _ => 0
  | .merge step _ => step

instance (levels level block : Nat) : Decidable (IsPair levels level block) :=
  inferInstanceAs (Decidable (_ ∧ _))

/-- The jobs of a sort of `2 ^ levels` blocks, phase by phase. -/
def jobs (levels : Nat) : List Job :=
  (List.range (2 ^ levels)).map Job.sort ++
    (List.range levels).flatMap fun level =>
      ((List.range (2 ^ levels)).filter fun block =>
        IsPair levels level block).map (Job.merge (2 ^ level))

/-- The sort by a single hand: all jobs in their order. -/
def serialSort (base : Nat → Record) : Nat → Record :=
  (jobs (Nat.log2 config.blocks)).foldl (applyJob qsort config) base

end Jobs

/-! ## The list of jobs -/

theorem mem_jobs {levels : Nat} {job : Job} :
    job ∈ jobs levels ↔ job.Expected levels := by
  simp only [jobs, List.mem_append, List.mem_map, List.mem_range,
    List.mem_flatMap, List.mem_filter, decide_eq_true_eq]
  cases job with
  | sort block => simp [Job.Expected]
  | merge step block =>
      simp only [Job.Expected, reduceCtorEq, and_false, exists_false,
        false_or, Job.merge.injEq]
      constructor
      · rintro ⟨level, below, other, ⟨inside, pair⟩, rfl, rfl⟩
        exact ⟨level, below, rfl, pair⟩
      · rintro ⟨level, below, rfl, pair⟩
        exact ⟨level, below, block,
          ⟨Nat.lt_of_le_of_lt (Nat.le_add_right _ _) pair.2, pair⟩, rfl, rfl⟩

theorem nodup_jobs (levels : Nat) : (jobs levels).Nodup := by
  refine List.nodup_append.mpr ⟨?_, ?_, ?_⟩
  · exact List.nodup_range.map fun _ _ same => Job.sort.inj same
  · refine List.nodup_flatMap.mpr ⟨fun level _ => ?_, ?_⟩
    · exact (List.nodup_range.filter _).map
        fun _ _ same => (Job.merge.inj same).2
    · refine List.nodup_range.imp fun {first second} different => ?_
      refine List.disjoint_left.mpr fun job inFirst inSecond => ?_
      obtain ⟨_, -, rfl⟩ := List.mem_map.mp inFirst
      obtain ⟨_, -, same⟩ := List.mem_map.mp inSecond
      exact different (Nat.pow_right_injective (Nat.le_refl 2)
        (Job.merge.inj same).1.symm)
  · intro sorting inBlocks merging inPairs same
    obtain ⟨_, -, rfl⟩ := List.mem_map.mp inBlocks
    obtain ⟨_, -, inLevel⟩ := List.mem_flatMap.mp inPairs
    obtain ⟨_, -, rfl⟩ := List.mem_map.mp inLevel
    cases same

/-- The jobs come phase by phase. -/
theorem ordered_jobs (levels : Nat) :
    (jobs levels).Pairwise fun earlier later =>
      earlier.phase ≤ later.phase := by
  refine List.pairwise_append.mpr ⟨?_, ?_, ?_⟩
  · exact List.pairwise_map.mpr
      (List.pairwise_lt_range.imp fun _ => Nat.le_refl 0)
  · refine List.pairwise_flatMap.mpr ⟨fun level _ => ?_, ?_⟩
    · refine List.pairwise_map.mpr ?_
      exact (List.pairwise_lt_range.filter _).imp fun _ => Nat.le_refl _
    · refine List.pairwise_lt_range.imp fun {first second} less => ?_
      intro earlier inFirst later inSecond
      obtain ⟨_, -, rfl⟩ := List.mem_map.mp inFirst
      obtain ⟨_, -, rfl⟩ := List.mem_map.mp inSecond
      exact Nat.pow_le_pow_right Nat.two_pos (Nat.le_of_lt less)
  · intro sorting inBlocks merging _
    obtain ⟨_, -, rfl⟩ := List.mem_map.mp inBlocks
    exact Nat.zero_le _

/-! ## Jobs of one phase commute -/

section Commute

variable {Record Key : Type} [LinearOrder Key] {timeMark : Record → Key}
  {qsort : Qsort timeMark} {config : Config}

@[simp] theorem length_result (job : Job) (records : List Record) :
    (job.result qsort config records).length = records.length := by
  cases job with
  | sort block => exact (qsort.perm records).length_eq
  | merge step block =>
      have merged := (mergeLists_perm timeMark
        (records.take (config.n1 step block))
        (records.drop (config.n1 step block))).length_eq
      rw [List.take_append_drop] at merged
      exact merged

/-- Jobs whose ranges are apart do not see each other. -/
theorem commute_of_apart
    {first second : Job}
    (apart : config.Apart first second) :
    Phased.Commute (applyJob qsort config) first second := by
  intro base
  have afterFirst : slice (applyJob qsort config base first)
      (config.range second).1 (config.range second).2 =
        slice base (config.range second).1 (config.range second).2 := by
    apply slice_overwrite_apart
    rw [length_result, length_slice]
    exact apart.symm
  have afterSecond : slice (applyJob qsort config base second)
      (config.range first).1 (config.range first).2 =
        slice base (config.range first).1 (config.range first).2 := by
    apply slice_overwrite_apart
    rw [length_result, length_slice]
    exact apart
  have left : applyJob qsort config (applyJob qsort config base first)
      second =
        overwrite (applyJob qsort config base first) (config.range second).1
          (second.result qsort config
            (slice base (config.range second).1 (config.range second).2)) := by
    rw [← afterFirst]
    rfl
  have right : applyJob qsort config (applyJob qsort config base second)
      first =
        overwrite (applyJob qsort config base second) (config.range first).1
          (first.result qsort config
            (slice base (config.range first).1 (config.range first).2)) := by
    rw [← afterSecond]
    rfl
  rw [left, right]
  apply overwrite_comm
  rw [length_result, length_slice, length_result, length_slice]
  exact apart

/-- Expected jobs of one phase commute. -/
theorem Job.Expected.commute
    {levels : Nat}
    {first second : Job}
    (blocksEq : config.blocks = 2 ^ levels)
    (firstExpected : first.Expected levels)
    (secondExpected : second.Expected levels)
    (same : first.phase = second.phase) :
    Phased.Commute (applyJob qsort config) first second := by
  by_cases equal : first = second
  · subst equal
    exact fun _ => rfl
  · apply commute_of_apart
    apply firstExpected.apart blocksEq secondExpected ?_ equal
    cases first with
    | sort block =>
        cases second with
        | sort other => trivial
        | merge step other =>
            obtain ⟨lower, -, rfl, -⟩ := secondExpected
            exact absurd same (Nat.ne_of_lt (Nat.two_pow_pos lower))
    | merge step block =>
        cases second with
        | sort other =>
            obtain ⟨lower, -, rfl, -⟩ := firstExpected
            exact absurd same (Nat.ne_of_gt (Nat.two_pow_pos lower))
        | merge step' other => exact same

end Commute

/-! ## A run finishes jobs -/

section Runs

variable {Record Key : Type} [LinearOrder Key] {timeMark : Record → Key}
  {qsort : Qsort timeMark} {config : Config} {levels level : Nat}
  {original : Nat → Record} {state next : PoolState Record}

@[simp] theorem PoolState.barrierWait_base
    (state : PoolState Record)
    (threads id : Nat)
    (pc : WorkerPc Record) :
    (state.barrierWait threads id pc).base = state.base := by
  unfold PoolState.barrierWait
  dsimp only
  split <;> rfl

@[simp] theorem PoolState.barrierWait_finished
    (state : PoolState Record)
    (threads id : Nat)
    (pc : WorkerPc Record) :
    (state.barrierWait threads id pc).finished = state.finished := by
  unfold PoolState.barrierWait
  dsimp only
  split <;> rfl

/-- The worker with the given number finishes the job it holds. -/
def Finishes
    (qsort : Qsort timeMark)
    (config : Config)
    (id : Nat)
    (state next : PoolState Record) : Prop :=
  ∃ worker job, state.workers[id]? = some worker ∧
    worker.pc.held = some job ∧ next.finished = state.finished ++ [job] ∧
      next.base = applyJob qsort config state.base job

/-- The temporary array of a pair holds what the job makes of its range. -/
theorem MergingData.result_eq
    {block : Nat}
    {tmp : Nat → Record}
    {worker : Worker Record}
    (data : MergingData timeMark config levels level original state)
    (blocksEq : config.blocks = 2 ^ levels)
    (below : level < levels)
    (pair : IsPair levels level block)
    (member : worker ∈ state.workers)
    (place : worker.pc = .copying (2 ^ level) block tmp) :
    (IndexSort.copyPair config state (2 ^ level) block tmp).base =
      applyJob qsort config state.base (.merge (2 ^ level) block) := by
  obtain ⟨n1, n2, -⟩ := Config.pair_counts blocksEq below pair
  have copied := data.copies worker member _ _ _ place
  simp only [IndexSort.copyPair, applyJob, Config.range, Job.result, n1, n2,
    copied]
  rw [Config.left, slice_add, List.take_left' (length_slice _ _ _),
    List.drop_left' (length_slice _ _ _)]

/-- The merge of a pair of empty runs writes nothing. -/
theorem applyJob_of_empty
    {step block : Nat}
    (n1 : config.n1 step block = 0)
    (n2 : config.n2 step block = 0)
    (base : Nat → Record) :
    applyJob qsort config base (.merge step block) = base := by
  simp only [applyJob, Config.range, Job.result, n1, n2, Nat.add_zero,
    slice_zero, List.take_nil, List.drop_nil, mergeLists_nil_left,
    overwrite_nil]

/-- A step finishes at most one job, and does to the records what the job does
on its own. -/
theorem PoolInvariant.finishes
    {action : PoolAction Record}
    (invariant : PoolInvariant timeMark config levels original state)
    (blocksEq : config.blocks = 2 ^ levels)
    (stepped : poolStep qsort config state action = some next) :
    next.base = state.base ∧ next.finished = state.finished ∨
      Finishes qsort config action.id state next := by
  unfold poolStep at stepped
  split at stepped
  · cases stepped
  rw [Option.bind_eq_some_iff] at stepped
  obtain ⟨worker, present, advanced⟩ := stepped
  obtain ⟨phase, roster, book, data⟩ := invariant
  have member := List.mem_of_getElem? present
  have inPhase := roster.inPhase worker member
  unfold advanceWorker at advanced
  split at advanced
  · cases advanced
  cases place : worker.pc with
  | starting | blocksDone | beforeClear | cleared | pairsDone =>
      simp only [place, Option.some.injEq] at advanced
      subst advanced
      left
      simp
  | claimInitial =>
      simp only [place] at advanced
      split at advanced <;> cases advanced <;> exact .inl ⟨rfl, rfl⟩
  | sortInitial block | sortBlock block =>
      simp only [place, Option.some.injEq] at advanced
      subst advanced
      exact .inr ⟨worker, .sort block, present, by rw [place]; rfl, rfl, rfl⟩
  | claimBlock | claimPair =>
      simp only [place] at advanced
      split at advanced <;> cases advanced <;> exact .inl ⟨rfl, rfl⟩
  | levelTest step =>
      simp only [place] at advanced
      split at advanced <;> cases advanced <;> exact .inl ⟨rfl, rfl⟩
  | clear step =>
      simp only [place, Option.some.injEq] at advanced
      subst advanced
      left
      split <;> exact ⟨rfl, rfl⟩
  | merging step block =>
      simp only [place] at advanced
      split at advanced
      · split at advanced <;> cases advanced <;> exact .inl ⟨rfl, rfl⟩
      · rename_i nothing
        cases advanced
        cases phase with
        | merging level =>
            rw [place] at inPhase
            obtain ⟨rfl, below⟩ := inPhase
            have held : worker.pc.held = some (.merge (2 ^ level) block) := by
              rw [place]
              rfl
            have pair := MergingData.isPair data
              (book.ledger.claimed_of_holds member held)
            obtain ⟨n1, n2, -⟩ := Config.pair_counts blocksEq below pair
            refine .inr ⟨worker, _, present, held, rfl, ?_⟩
            rw [applyJob_of_empty (by omega) (by omega)]
            rfl
        | start | sorting | level | clearing =>
            rw [place] at inPhase
            exact inPhase.elim
  | copying step block tmp =>
      simp only [place, Option.some.injEq] at advanced
      subst advanced
      cases phase with
      | merging level =>
          rw [place] at inPhase
          obtain ⟨rfl, below⟩ := inPhase
          have held : worker.pc.held = some (.merge (2 ^ level) block) := by
            rw [place]
            rfl
          have pair := MergingData.isPair data
            (book.ledger.claimed_of_holds member held)
          exact .inr ⟨worker, _, present, held, rfl,
            MergingData.result_eq data blocksEq below pair member place⟩
      | start | sorting | level | clearing =>
          rw [place] at inPhase
          exact inPhase.elim
  | returned => simp [place] at advanced

/-- While a worker holds a job, no job of a later phase is finished. -/
theorem PoolInvariant.finished_phase_le
    {worker : Worker Record}
    {held done : Job}
    (invariant : PoolInvariant timeMark config levels original state)
    (member : worker ∈ state.workers)
    (holds : worker.pc.held = some held)
    (finished : done ∈ state.finished) :
    done.phase ≤ held.phase := by
  obtain ⟨phase, roster, book, data⟩ := invariant
  have inPhase := roster.inPhase worker member
  have claimed : state.claims.count done ≠ 0 := by
    have balance := book.ledger done
    have counted := List.count_pos_iff.mpr finished
    omega
  cases done with
  | sort block => exact Nat.zero_le _
  | merge step block =>
      cases phase with
      | sorting =>
          obtain ⟨lower, below, -⟩ :=
            (SortingData.merges data).only step block claimed
          omega
      | merging level =>
          obtain ⟨lower, below, rfl, -⟩ :=
            MergingData.only data step block claimed
          cases place : worker.pc <;> rw [place] at inPhase holds <;>
            cases holds <;> first
              | exact inPhase.elim
              | (rw [inPhase.1]
                 exact Nat.pow_le_pow_right Nat.two_pos
                   (Nat.le_of_lt_succ below))
      | start | level | clearing =>
          cases place : worker.pc <;> rw [place] at inPhase holds <;>
            cases holds <;> exact inPhase.elim

/-- The records are those that the finished jobs make of the original ones, and
the jobs are finished phase by phase. -/
structure Serial
    (qsort : Qsort timeMark)
    (config : Config)
    (original : Nat → Record)
    (state : PoolState Record) : Prop where
  base : state.base =
    state.finished.foldl (applyJob qsort config) original
  ordered : state.finished.Pairwise fun earlier later =>
    earlier.phase ≤ later.phase

theorem Serial.step
    {action : PoolAction Record}
    (serial : Serial qsort config original state)
    (invariant : PoolInvariant timeMark config levels original state)
    (blocksEq : config.blocks = 2 ^ levels)
    (stepped : poolStep qsort config state action = some next) :
    Serial qsort config original next := by
  rcases invariant.finishes blocksEq stepped
    with ⟨base, finished⟩ | ⟨worker, job, present, holds, finished, base⟩
  · constructor
    · rw [base, finished]
      exact serial.base
    · rw [finished]
      exact serial.ordered
  · constructor
    · rw [base, finished, List.foldl_append, ← serial.base]
      rfl
    · rw [finished]
      refine List.pairwise_append.mpr
        ⟨serial.ordered, List.pairwise_singleton _ _, ?_⟩
      intro done earlier last lastMember
      rw [List.mem_singleton.mp lastMember]
      exact invariant.finished_phase_le (List.mem_of_getElem? present) holds
        earlier

theorem serial_of_reachable
    (blocksEq : config.blocks = 2 ^ levels)
    (positive : 0 < config.threads)
    {base : Nat → Record}
    (reachable : (pool qsort config base).Reachable state) :
    Serial qsort config base state := by
  have both : PoolInvariant timeMark config levels base state ∧
      Serial qsort config base state := by
    apply Machine.ReachableUnder.invariant ?_ ?_ reachable
    · rintro _ rfl
      exact ⟨poolInvariant_start positive base, rfl, .nil⟩
    · rintro before action after ⟨invariant, serial⟩ _ stepped
      exact ⟨invariant.step blocksEq positive stepped,
        serial.step invariant blocksEq stepped⟩
  exact both.2

/-- When all workers have returned, the jobs of the sort are done, each
once. -/
theorem ParallelSorted.finished_perm
    (parallel : ParallelSorted timeMark config levels original state)
    (blocksEq : config.blocks = 2 ^ levels)
    (once : state.finished.Nodup) :
    state.finished.Perm (jobs levels) := by
  refine (List.perm_ext_iff_of_nodup once (nodup_jobs levels)).mpr
    fun job => ⟨fun member => ?_, fun member => ?_⟩
  · exact mem_jobs.mpr (parallel.nothingElse job member)
  · have expected := mem_jobs.mp member
    rw [← List.count_pos_iff]
    cases job with
    | sort block =>
        rw [parallel.blocksOnce block (blocksEq ▸ expected)]
        exact Nat.one_pos
    | merge step block =>
        obtain ⟨level, below, rfl, pair⟩ := expected
        rw [parallel.pairsOnce level below block pair]
        exact Nat.one_pos

/-- The parallel sort is the sort by a single hand, whatever the schedule and
the number of workers. -/
theorem base_eq_serialSort
    (blocksEq : config.blocks = 2 ^ levels)
    (positive : 0 < config.threads)
    {base : Nat → Record}
    (reachable : (pool qsort config base).Reachable state)
    (returned : AllReturned state) :
    state.base = serialSort qsort config base := by
  have invariant := poolInvariant_of_reachable blocksEq positive reachable
  have serial := serial_of_reachable blocksEq positive reachable
  have parallel := invariant.parallelSorted blocksEq positive returned
  obtain ⟨-, -, finishedEq⟩ := invariant.returned positive returned
  have once : state.finished.Nodup := by
    rw [List.nodup_iff_count_le_one]
    intro job
    rw [finishedEq]
    exact List.nodup_iff_count_le_one.mp
      (invariant.claims blocksEq positive).2 job
  rw [serial.base, serialSort, blocksEq, Nat.log2_two_pow]
  apply Phased.foldl_eq_of_perm (parallel.finished_perm blocksEq once)
    serial.ordered (ordered_jobs levels)
  intro first firstMember second secondMember same
  exact (parallel.nothingElse first firstMember).commute blocksEq
    (parallel.nothingElse second secondMember) same

end Runs

end IndexSort
end OSaSP
