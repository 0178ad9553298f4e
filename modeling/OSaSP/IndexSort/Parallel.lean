import OSaSP.IndexSort.Runs
import Mathlib.Data.List.Sort

/-!
# The parallel sort

The invariant of the workers goes through every barrier and every step, for any
number of workers and any order of their steps.  When all of them have
returned, the whole blocks are one sorted run and nothing behind them was
touched.
-/

namespace OSaSP
namespace IndexSort

open Segment

section Workers

variable {Record Key : Type} [LinearOrder Key] {timeMark : Record → Key}
  {qsort : Qsort timeMark} {config : Config} {levels level : Nat}
  {original : Nat → Record} {state : PoolState Record} {id : Nat}
  {worker : Worker Record} {pc : WorkerPc Record}

/-! ## Barriers -/

/-- Setting the flag of a worker that arrives changes no data. -/
theorem PhaseData.arrive
    {phase : Phase}
    (data : PhaseData timeMark config levels original state phase)
    (present : state.workers[id]? = some worker)
    (arrived : Nat) :
    PhaseData timeMark config levels original
      { state with
        arrived := arrived
        workers := state.workers.set id ⟨worker.pc, true⟩ } phase := by
  have member := List.mem_of_getElem? present
  cases phase with
  | start => exact ⟨data.base, data.free, data.merges⟩
  | sorting =>
      exact ⟨data.perm, data.sorted, data.merges,
        Pool.forall_mem_set data.done (data.done worker member)⟩
  | level current => exact ⟨data.blocks, data.merges, data.runs⟩
  | clearing current =>
      refine ⟨⟨data.blocks, data.merges, data.runs⟩, ?_⟩
      intro first found step place
      rcases Pool.getElem?_set_cases found with ⟨same, rfl⟩ | ⟨-, found⟩
      · subst same
        exact data.cleared worker present step place
      · exact data.cleared first found step place
  | merging current =>
      exact ⟨data.blocks, data.once, data.only, data.current, data.pairs,
        Pool.forall_mem_set data.copies (data.copies worker member),
        Pool.forall_mem_set data.done (data.done worker member)⟩

/-- A worker that was let go is at no barrier and holds nothing. -/
theorem released_pc
    {waiting : List (Worker Record)}
    (everyone : ∀ worker ∈ waiting,
      worker.arrived = true ∧ worker.pc.afterBarrier.isSome = true)
    {worker : Worker Record}
    (member : worker ∈ waiting.map PoolState.release) :
    worker.pc.afterBarrier = none ∧ worker.pc.held = none := by
  obtain ⟨before, beforeMember, rfl⟩ := List.mem_map.mp member
  obtain ⟨waits, barrier⟩ := everyone before beforeMember
  obtain ⟨after, leads⟩ := Option.isSome_iff_exists.mp barrier
  simp only [PoolState.release, waits, leads, if_true]
  cases place : before.pc <;> rw [place] at leads <;> cases leads <;>
    exact ⟨rfl, rfl⟩

/-- Behind the first barrier after the sorting, every block is a run. -/
theorem SortingData.toLevel
    (data : SortingData timeMark config levels original state)
    (blocksEq : config.blocks = 2 ^ levels)
    (claimed : ∀ block < config.blocks, state.blockMap block = true)
    (finished : ∀ block < config.blocks,
      state.finished.count (.sort block) ≠ 0)
    (arrived : Nat)
    (workers : List (Worker Record)) :
    LevelData timeMark config levels 0 original
      { state with arrived, workers } := by
  refine ⟨claimed, data.merges, ?_⟩
  intro block _ inside
  rw [← blocksEq] at inside
  rw [Nat.pow_zero, Nat.one_mul]
  exact ⟨data.sorted block inside (finished block inside),
    data.perm block inside⟩

/-- Once the merge map is cleared, no pair of the level is claimed and the runs
of the last level are what is to be merged. -/
theorem ClearingData.toMerging
    (data : ClearingData timeMark config levels level original state)
    (free : ∀ block, state.mergeMap block = false)
    (finishedEq : ∀ job, state.finished.count job = state.claims.count job)
    {workers : List (Worker Record)}
    (released : ∀ worker ∈ workers,
      worker.pc.afterBarrier = none ∧ worker.pc.held = none)
    (arrived : Nat) :
    MergingData timeMark config levels level original
      { state with arrived, workers } := by
  have unclaimed : ∀ block,
      state.claims.count (.merge (2 ^ level) block) = 0 := by
    intro block
    by_contra claimed
    obtain ⟨lower, lowerBelow, same, -⟩ := data.merges.only _ _ claimed
    have := Nat.pow_right_injective (Nat.le_refl 2) same
    omega
  refine ⟨data.blocks, data.merges.once, ?_, ?_, ?_, ?_, ?_⟩
  · intro step block claimed
    obtain ⟨lower, lowerBelow, same, pair⟩ :=
      data.merges.only step block claimed
    exact ⟨lower, by omega, same, pair⟩
  · intro block
    change state.claims.count _ = (state.mergeMap block).toNat
    rw [unclaimed, free]
    rfl
  · intro block pair
    change PairData timeMark original state.base _ _
      (state.finished.count _)
    obtain ⟨leftAligned, rightAligned⟩ := pair.aligned
    have left := data.runs block leftAligned
      (Nat.lt_of_le_of_lt (Nat.le_add_right _ _) pair.2)
    have right := data.runs _ rightAligned pair.2
    rw [Nat.add_mul] at right
    refine ⟨?_, fun _ => ⟨left.sorted, right.sorted⟩, ?_⟩
    · rw [slice_add, slice_add]
      exact left.perm.append right.perm
    · intro finished
      rw [finishedEq, unclaimed] at finished
      exact absurd rfl finished
  · intro worker member step block tmp copying
    have held := (released worker member).2
    rw [copying] at held
    cases held
  · intro worker member step pairsDone
    have leads := (released worker member).1
    rw [pairsDone] at leads
    cases leads

/-- When every pair of a level is merged, the runs have twice the length. -/
theorem MergingData.toLevel
    (data : MergingData timeMark config levels level original state)
    (below : level < levels)
    (claimed : ∀ block, IsPair levels level block →
      state.mergeMap block = true)
    (finishedEq : ∀ job, state.finished.count job = state.claims.count job)
    (arrived : Nat)
    (workers : List (Worker Record)) :
    LevelData timeMark config levels (level + 1) original
      { state with arrived, workers } := by
  refine ⟨data.blocks, ⟨?_, data.only⟩, ?_⟩
  · intro lower lowerBelow block pair
    rcases Nat.lt_or_eq_of_le (Nat.le_of_lt_succ lowerBelow) with less | rfl
    · exact data.once lower less block pair
    · change state.claims.count _ = 1
      rw [data.current, claimed block pair]
      rfl
  · intro block aligned inside
    have room := add_stride_le below aligned inside
    have positive := Nat.two_pow_pos level
    rw [Nat.pow_succ] at room
    have pair : IsPair levels level block := ⟨aligned, by omega⟩
    obtain ⟨perm, -, merged⟩ := data.pairs block pair
    rw [Nat.pow_succ, Nat.mul_two, Nat.add_mul]
    refine ⟨merged ?_, perm⟩
    rw [finishedEq, data.current, claimed block pair]
    exact Nat.one_ne_zero

/-- What the data of a phase becomes when the barrier lets everyone go. -/
theorem PhaseData.release
    {phase : Phase}
    (data : PhaseData timeMark config levels original state phase)
    (book : Bookkeeping config original state)
    (blocksEq : config.blocks = 2 ^ levels)
    (someone : ∃ worker, state.workers[0]? = some worker)
    (everyone : ∀ worker ∈ state.workers,
      worker.arrived = true ∧ worker.pc.inPhase levels phase ∧
        worker.pc.afterBarrier.isSome = true) :
    PhaseData timeMark config levels original
      { state with
        arrived := 0
        workers := state.workers.map PoolState.release } phase.next := by
  obtain ⟨first, firstPresent⟩ := someone
  have firstMember := List.mem_of_getElem? firstPresent
  obtain ⟨-, firstPhase, firstBarrier⟩ := everyone first firstMember
  have barriers : ∀ worker ∈ state.workers,
      worker.arrived = true ∧ worker.pc.afterBarrier.isSome = true :=
    fun worker member =>
      ⟨(everyone worker member).1, (everyone worker member).2.2⟩
  have released : ∀ worker ∈ state.workers.map PoolState.release,
      worker.pc.afterBarrier = none ∧ worker.pc.held = none :=
    fun _ member => released_pc barriers member
  have finishedEq := book.ledger.finished_eq fun worker member =>
    WorkerPc.held_of_barrier (barriers worker member).2
  cases phase with
  | start =>
      refine ⟨?_, ?_, data.merges, ?_⟩
      · intro block _
        change (slice state.base _ _).Perm _
        rw [data.base]
      · intro block _ finished
        change state.finished.count _ ≠ 0 at finished
        rw [finishedEq, book.sortClaims, data.free] at finished
        exact absurd rfl finished
      · intro worker member place
        have leads := (released worker member).1
        rw [place] at leads
        cases leads
  | sorting =>
      have place : first.pc = .blocksDone := by
        cases place : first.pc <;> rw [place] at firstPhase firstBarrier <;>
          first | rfl | exact firstPhase.elim | cases firstBarrier
      have claimed := data.done first firstMember place
      refine data.toLevel blocksEq claimed ?_ _ _
      intro block inside
      rw [finishedEq, book.sortClaims, claimed block inside]
      exact Nat.one_ne_zero
  | level current =>
      refine ⟨⟨data.blocks, data.merges, data.runs⟩, ?_⟩
      intro worker present step place
      have leads := (released worker (List.mem_of_getElem? present)).1
      rw [place] at leads
      cases leads
  | clearing current =>
      obtain ⟨step, place⟩ : ∃ step, first.pc = .cleared step := by
        cases place : first.pc <;> rw [place] at firstPhase firstBarrier <;>
          first
            | exact ⟨_, rfl⟩
            | exact firstPhase.elim
            | cases firstBarrier
      exact data.toMerging (data.cleared first firstPresent step place)
        finishedEq released _
  | merging current =>
      obtain ⟨step, place⟩ : ∃ step, first.pc = .pairsDone step := by
        cases place : first.pc <;> rw [place] at firstPhase firstBarrier <;>
          first
            | exact ⟨_, rfl⟩
            | exact firstPhase.elim
            | cases firstBarrier
      rw [place] at firstPhase
      exact data.toLevel firstPhase.2 (data.done first firstMember step place)
        finishedEq _ _

/-- The invariant goes through a barrier. -/
theorem PoolInvariant.barrierWait
    (invariant : PoolInvariant timeMark config levels original state)
    (blocksEq : config.blocks = 2 ^ levels)
    (positive : 0 < config.threads)
    (present : state.workers[id]? = some worker)
    (running : worker.arrived = false)
    (barrier : worker.pc.afterBarrier.isSome = true) :
    PoolInvariant timeMark config levels original
      (state.barrierWait config.threads id worker.pc) := by
  obtain ⟨phase, roster, book, data⟩ := invariant
  have ledger : Ledger state.claims state.finished
      (state.workers.set id ⟨worker.pc, true⟩) :=
    book.ledger.move present rfl
  unfold PoolState.barrierWait
  dsimp only
  split
  · rename_i last
    have everyone := roster.all_arrived present running barrier last
    have size : (state.workers.set id ⟨worker.pc, true⟩).length =
        config.threads := by
      rw [List.length_set]
      exact roster.size
    have bookWaiting : Bookkeeping config original
        { state with
          arrived := 0
          workers := state.workers.set id ⟨worker.pc, true⟩ } :=
      ⟨ledger, book.sortClaims, book.blockRange, book.untouched⟩
    have someone : ∃ first,
        (state.workers.set id ⟨worker.pc, true⟩)[0]? = some first :=
      ⟨_, List.getElem?_eq_getElem (by omega)⟩
    refine ⟨phase.next, Roster.release positive size everyone, ?_, ?_⟩
    · refine ⟨ledger.release fun worker member => ?_, book.sortClaims,
        book.blockRange, book.untouched⟩
      obtain ⟨waits, -, atBarrier⟩ := everyone worker member
      exact ⟨waits, atBarrier⟩
    · exact (data.arrive present 0).release bookWaiting blocksEq someone
        everyone
  · rename_i notLast
    exact ⟨phase, roster.arrive present running barrier notLast,
      ⟨ledger, book.sortClaims, book.blockRange, book.untouched⟩,
      data.arrive present _⟩

/-! ## Steps inside a phase -/

section Steps

variable {next : PoolState Record}

/-- A worker of the sorting phase moves without finishing anything. -/
theorem PoolInvariant.gotoSorting
    (roster : Roster config.threads levels .sorting state.workers
      state.arrived)
    (book : Bookkeeping config original state)
    (data : SortingData timeMark config levels original state)
    (present : state.workers[id]? = some worker)
    (running : worker.arrived = false)
    (inPhase : pc.inPhase levels .sorting)
    (same : pc.held = worker.pc.held)
    (done : pc = .blocksDone →
      ∀ block < config.blocks, state.blockMap block = true) :
    PoolInvariant timeMark config levels original (state.goto id pc) :=
  ⟨.sorting, roster.goto present running inPhase, book.goto present same,
    data.goto id done⟩

/-- A worker claims a free block. -/
theorem PoolInvariant.claimBlock
    {block : Nat}
    (roster : Roster config.threads levels .sorting state.workers
      state.arrived)
    (book : Bookkeeping config original state)
    (data : SortingData timeMark config levels original state)
    (present : state.workers[id]? = some worker)
    (running : worker.arrived = false)
    (free : worker.pc.held = none)
    (inPhase : pc.inPhase levels .sorting)
    (holds : pc.held = some (.sort block))
    (unclaimed : state.blockMap block = false)
    (inside : block < config.blocks) :
    PoolInvariant timeMark config levels original
      ((state.claimBlock block).goto id pc) := by
  refine ⟨.sorting, roster.goto present running inPhase,
    book.claimBlock present free holds unclaimed inside,
    (data.claimBlock block).goto id ?_⟩
  rintro rfl
  cases holds

/-- A worker sorts the block it holds. -/
theorem PoolInvariant.sortBlock
    {block : Nat}
    (roster : Roster config.threads levels .sorting state.workers
      state.arrived)
    (book : Bookkeeping config original state)
    (data : SortingData timeMark config levels original state)
    (present : state.workers[id]? = some worker)
    (running : worker.arrived = false)
    (holds : worker.pc.held = some (.sort block)) :
    PoolInvariant timeMark config levels original
      (((sortRange qsort config state block).finish (.sort block)).goto id
        .claimBlock) := by
  have inside := book.block_of_held present holds
  refine ⟨.sorting, roster.goto present running trivial,
    book.finish present holds rfl ?_,
    (data.sortRange inside).goto id (by simp)⟩
  intro index beyond
  apply overwrite_outside
  right
  rw [(qsort.perm _).length_eq, length_slice, Config.count_eq inside]
  calc config.offset block + config.recsPerBlock
      = (block + 1) * config.recsPerBlock := (Nat.succ_mul _ _).symm
    _ ≤ config.blockRecords := Nat.mul_le_mul_right _ inside
    _ ≤ index := beyond

/-- The steps of the sorting phase keep the invariant. -/
theorem PoolInvariant.advanceSorting
    {allocation : Option (Nat → Record)}
    (roster : Roster config.threads levels .sorting state.workers
      state.arrived)
    (book : Bookkeeping config original state)
    (data : SortingData timeMark config levels original state)
    (present : state.workers[id]? = some worker)
    (running : worker.arrived = false)
    (working : worker.pc.afterBarrier = none)
    (advanced : advanceWorker qsort config id worker allocation state =
      some next) :
    PoolInvariant timeMark config levels original next := by
  have inPhase := roster.inPhase worker (List.mem_of_getElem? present)
  simp only [advanceWorker, running, Bool.false_eq_true, if_false]
    at advanced
  cases place : worker.pc with
  | claimInitial =>
      simp only [place] at advanced
      split at advanced <;> cases advanced
      · rename_i free
        exact claimBlock roster book data present running (by rw [place]; rfl)
          trivial rfl free.2 free.1
      · exact gotoSorting roster book data present running trivial
          (by rw [place]; rfl) (by simp)
  | sortInitial block | sortBlock block =>
      simp only [place] at advanced
      cases advanced
      exact sortBlock roster book data present running (by rw [place]; rfl)
  | claimBlock =>
      simp only [place] at advanced
      split at advanced <;> cases advanced
      · rename_i block found
        obtain ⟨free, inside, -⟩ := claimLoop_eq_some found
        exact claimBlock roster book data present running (by rw [place]; rfl)
          trivial rfl free inside
      · rename_i missing
        refine gotoSorting roster book data present running trivial
          (by rw [place]; rfl) fun _ block inside => ?_
        have claimed := claimLoop_eq_none Nat.one_pos (by omega) missing block
        simpa using claimed (by omega)
  | blocksDone => rw [place] at working; cases working
  | starting | levelTest | beforeClear | clear | cleared | claimPair
  | merging | copying | pairsDone | returned =>
      rw [place] at inPhase
      exact inPhase.elim

/-- The steps between two levels keep the invariant. -/
theorem PoolInvariant.advanceLevel
    {allocation : Option (Nat → Record)}
    (blocksEq : config.blocks = 2 ^ levels)
    (roster : Roster config.threads levels (.level level) state.workers
      state.arrived)
    (book : Bookkeeping config original state)
    (data : LevelData timeMark config levels level original state)
    (present : state.workers[id]? = some worker)
    (running : worker.arrived = false)
    (working : worker.pc.afterBarrier = none)
    (advanced : advanceWorker qsort config id worker allocation state =
      some next) :
    PoolInvariant timeMark config levels original next := by
  have inPhase := roster.inPhase worker (List.mem_of_getElem? present)
  have kept : ∀ id pc, LevelData timeMark config levels level original
      (state.goto id pc) :=
    fun _ _ => ⟨data.blocks, data.merges, data.runs⟩
  simp only [advanceWorker, running, Bool.false_eq_true, if_false]
    at advanced
  cases place : worker.pc with
  | levelTest step =>
      rw [place] at inPhase
      obtain ⟨rfl, bound⟩ := inPhase
      simp only [place, blocksEq] at advanced
      split at advanced <;> cases advanced
      · rename_i inside
        have below : level < levels :=
          (Nat.pow_lt_pow_iff_right (Nat.le_refl 2)).mp inside
        exact ⟨.level level, roster.goto present running ⟨rfl, below⟩,
          book.goto present (by rw [place]; rfl), kept _ _⟩
      · rename_i outside
        have last : level = levels := by
          by_contra different
          exact outside ((Nat.pow_lt_pow_iff_right (Nat.le_refl 2)).mpr
            (by omega))
        exact ⟨.level level, roster.goto present running last,
          book.goto present (by rw [place]; rfl), kept _ _⟩
  | returned => simp [place] at advanced
  | beforeClear => rw [place] at working; cases working
  | starting | claimInitial | sortInitial | claimBlock | sortBlock
  | blocksDone | clear | cleared | claimPair | merging | copying
  | pairsDone =>
      rw [place] at inPhase
      exact inPhase.elim

/-- The clearing of the merge map keeps the invariant. -/
theorem PoolInvariant.advanceClearing
    {allocation : Option (Nat → Record)}
    (roster : Roster config.threads levels (.clearing level) state.workers
      state.arrived)
    (book : Bookkeeping config original state)
    (data : ClearingData timeMark config levels level original state)
    (present : state.workers[id]? = some worker)
    (running : worker.arrived = false)
    (working : worker.pc.afterBarrier = none)
    (advanced : advanceWorker qsort config id worker allocation state =
      some next) :
    PoolInvariant timeMark config levels original next := by
  have inPhase := roster.inPhase worker (List.mem_of_getElem? present)
  simp only [advanceWorker, running, Bool.false_eq_true, if_false]
    at advanced
  cases place : worker.pc with
  | clear step =>
      rw [place] at inPhase
      simp only [place] at advanced
      cases advanced
      have held : (WorkerPc.cleared step : WorkerPc Record).held =
          worker.pc.held := by rw [place]; rfl
      split
      · refine ⟨.clearing level, roster.goto present running inPhase,
          ⟨book.ledger.move present held, book.sortClaims, book.blockRange,
            book.untouched⟩, ⟨data.blocks, data.merges, data.runs⟩, ?_⟩
        intro _ _ _ _ _
        rfl
      · rename_i notFirst
        refine ⟨.clearing level, roster.goto present running inPhase,
          book.goto present held, ⟨data.blocks, data.merges, data.runs⟩, ?_⟩
        intro first found step' cleared
        rcases Pool.getElem?_set_cases found with ⟨same, -⟩ | ⟨-, found⟩
        · exact absurd same.symm notFirst
        · exact data.cleared first found step' cleared
  | cleared => rw [place] at working; cases working
  | starting | claimInitial | sortInitial | claimBlock | sortBlock
  | blocksDone | levelTest | beforeClear | claimPair | merging | copying
  | pairsDone | returned =>
      rw [place] at inPhase
      exact inPhase.elim

/-- A pair of empty runs is merged by doing nothing. -/
theorem MergingData.skipPair
    {block : Nat}
    (data : MergingData timeMark config levels level original state)
    (empty : 2 ^ level * config.recsPerBlock = 0) :
    MergingData timeMark config levels level original
      (state.finish (.merge (2 ^ level) block)) where
  blocks := data.blocks
  once := data.once
  only := data.only
  current := data.current
  pairs other pair := by
    rw [empty]
    exact ⟨.refl _, fun _ => ⟨.nil, .nil⟩, fun _ => .nil⟩
  copies := data.copies
  done := data.done

/-- The steps of a merge level keep the invariant. -/
theorem PoolInvariant.advanceMerging
    {allocation : Option (Nat → Record)}
    (blocksEq : config.blocks = 2 ^ levels)
    (roster : Roster config.threads levels (.merging level) state.workers
      state.arrived)
    (book : Bookkeeping config original state)
    (data : MergingData timeMark config levels level original state)
    (present : state.workers[id]? = some worker)
    (running : worker.arrived = false)
    (working : worker.pc.afterBarrier = none)
    (advanced : advanceWorker qsort config id worker allocation state =
      some next) :
    PoolInvariant timeMark config levels original next := by
  have member := List.mem_of_getElem? present
  have inPhase := roster.inPhase worker member
  simp only [advanceWorker, running, Bool.false_eq_true, if_false]
    at advanced
  cases place : worker.pc with
  | claimPair step =>
      rw [place] at inPhase
      obtain ⟨rfl, below⟩ := inPhase
      simp only [place] at advanced
      split at advanced <;> cases advanced
      · rename_i block found
        rw [blocksEq] at found
        obtain ⟨free, pair⟩ := claimLoop_isPair found
        exact ⟨.merging level, roster.goto present running ⟨rfl, below⟩,
          book.claimPair present (by rw [place]; rfl) rfl,
          (data.claimPair pair free).goto id (by simp) (by simp)⟩
      · rename_i missing
        rw [blocksEq] at missing
        exact ⟨.merging level, roster.goto present running ⟨rfl, below⟩,
          book.goto present (by rw [place]; rfl),
          data.goto id (by simp) fun _ _ _ pair =>
            pair.claimed (Nat.le_refl _) missing⟩
  | merging step block =>
      rw [place] at inPhase
      obtain ⟨rfl, below⟩ := inPhase
      have held : worker.pc.held = some (.merge (2 ^ level) block) := by
        rw [place]
        rfl
      have pair := data.isPair (book.ledger.claimed_of_holds member held)
      simp only [place] at advanced
      split at advanced
      · cases allocation with
        | none =>
            cases advanced
            exact ⟨.merging level, roster,
              ⟨book.ledger, book.sortClaims, book.blockRange,
                book.untouched⟩,
              ⟨data.blocks, data.once, data.only, data.current, data.pairs,
                data.copies, data.done⟩⟩
        | some tmp =>
            cases advanced
            exact ⟨.merging level, roster.goto present running ⟨rfl, below⟩,
              book.goto present held.symm,
              data.mergePair blocksEq below pair id tmp⟩
      · rename_i nothing
        cases advanced
        obtain ⟨n1, n2, -⟩ := Config.pair_counts blocksEq below pair
        have empty : 2 ^ level * config.recsPerBlock = 0 := by
          rw [n1, n2] at nothing
          omega
        exact ⟨.merging level, roster.goto present running ⟨rfl, below⟩,
          book.finish present held rfl fun _ _ => rfl,
          (data.skipPair empty).goto id (by simp) (by simp)⟩
  | copying step block tmp =>
      rw [place] at inPhase
      obtain ⟨rfl, below⟩ := inPhase
      have held : worker.pc.held = some (.merge (2 ^ level) block) := by
        rw [place]
        rfl
      have pair := data.isPair (book.ledger.claimed_of_holds member held)
      simp only [place] at advanced
      cases advanced
      refine ⟨.merging level, roster.goto present running ⟨rfl, below⟩,
        book.finish present held rfl ?_,
        data.copyPair blocksEq below book.ledger roster.inPhase present
          place⟩
      intro index beyond
      apply overwrite_outside
      right
      obtain ⟨n1, n2, -⟩ := Config.pair_counts blocksEq below pair
      have room := pair.room below
      rw [length_slice, n1, n2, Config.left, ← Nat.add_mul, ← Nat.add_mul,
        ← Nat.mul_two, ← Nat.pow_succ]
      calc (block + 2 ^ (level + 1)) * config.recsPerBlock
          ≤ config.blocks * config.recsPerBlock :=
            Nat.mul_le_mul_right _ (blocksEq ▸ room)
        _ ≤ index := beyond
  | pairsDone => rw [place] at working; cases working
  | starting | claimInitial | sortInitial | claimBlock | sortBlock
  | blocksDone | levelTest | beforeClear | clear | cleared | returned =>
      rw [place] at inPhase
      exact inPhase.elim

/-- Every step of the pool keeps the invariant. -/
theorem PoolInvariant.step
    {action : PoolAction Record}
    (invariant : PoolInvariant timeMark config levels original state)
    (blocksEq : config.blocks = 2 ^ levels)
    (positive : 0 < config.threads)
    (stepped : poolStep qsort config state action = some next) :
    PoolInvariant timeMark config levels original next := by
  unfold poolStep at stepped
  split at stepped
  · cases stepped
  rw [Option.bind_eq_some_iff] at stepped
  obtain ⟨worker, present, advanced⟩ := stepped
  cases running : worker.arrived with
  | true => simp [advanceWorker, running] at advanced
  | false =>
      cases barrier : worker.pc.afterBarrier with
      | some after =>
          have waits : next =
              state.barrierWait config.threads action.id worker.pc := by
            cases place : worker.pc <;> rw [place] at barrier <;>
              simp [WorkerPc.afterBarrier] at barrier <;>
              simpa [advanceWorker, running, place, eq_comm] using advanced
          rw [waits]
          exact invariant.barrierWait blocksEq positive present running
            (by rw [barrier]; rfl)
      | none =>
          obtain ⟨phase, roster, book, data⟩ := invariant
          cases phase with
          | start =>
              have inPhase := roster.inPhase worker
                (List.mem_of_getElem? present)
              cases place : worker.pc <;>
                rw [place] at inPhase barrier <;>
                first | exact inPhase.elim | cases barrier
          | sorting =>
              exact advanceSorting roster book data present running barrier
                advanced
          | level current =>
              exact advanceLevel blocksEq roster book data present running
                barrier advanced
          | clearing current =>
              exact advanceClearing roster book data present running barrier
                advanced
          | merging current =>
              exact advanceMerging blocksEq roster book data present running
                barrier advanced

theorem poolInvariant_start
    (positive : 0 < config.threads)
    (base : Nat → Record) :
    PoolInvariant timeMark config levels base (poolStart config base) := by
  have starting : ∀ worker ∈ (poolStart config base).workers,
      worker = (⟨.starting, false⟩ : Worker Record) :=
    fun worker member => List.eq_of_mem_replicate member
  refine ⟨.start, ?_, ?_, ⟨rfl, fun _ => rfl, ?_, ?_⟩⟩
  · constructor
    · intro worker member
      rw [starting worker member]
      trivial
    · exact List.length_replicate
    · apply (Pool.total_eq_zero_iff _ _).mpr
      intro worker member
      rw [starting worker member]
      rfl
    · exact positive
    · intro worker member arrived
      rw [starting worker member] at arrived
      cases arrived
  · refine ⟨?_, fun _ => rfl, ?_, fun _ _ => rfl⟩
    · intro job
      rw [Ledger.total_holds_eq_zero]
      · rfl
      · intro worker member
        rw [starting worker member]
        rfl
    · intro block claimed
      cases claimed
  · intro lower below
    omega
  · intro step block claimed
    exact absurd rfl claimed

/-- The invariant holds in every reachable state of the pool. -/
theorem poolInvariant_of_reachable
    (blocksEq : config.blocks = 2 ^ levels)
    (positive : 0 < config.threads)
    {base : Nat → Record}
    (reachable : (pool qsort config base).Reachable state) :
    PoolInvariant timeMark config levels base state := by
  apply reachable.invariant
  · rintro _ rfl
    exact poolInvariant_start positive base
  · intro before action after invariant _ stepped
    exact invariant.step blocksEq positive stepped

end Steps

/-! ## Claims -/

/-- The first record and the number of records of a job. -/
def Config.range (config : Config) : Job → Nat × Nat
  | .sort block => (config.offset block, config.count block)
  | .merge step block =>
      (config.left block, config.n1 step block + config.n2 step block)

/-- Neither range reaches into the other. -/
def Config.Apart (config : Config) (first second : Job) : Prop :=
  (config.range first).1 + (config.range first).2 ≤ (config.range second).1 ∨
    (config.range second).1 + (config.range second).2 ≤ (config.range first).1

/-- Two jobs handed out between the same two barriers. -/
def Job.SamePhase : Job → Job → Prop
  | .sort _, .sort _ => True
  | .merge step _, .merge step' _ => step = step'
  | _, _ => False

/-- Workers in one phase hold jobs of that phase. -/
theorem WorkerPc.samePhase_of_held
    {left right : WorkerPc Record}
    {phase : Phase}
    {leftJob rightJob : Job}
    (leftPhase : left.inPhase levels phase)
    (rightPhase : right.inPhase levels phase)
    (leftHolds : left.held = some leftJob)
    (rightHolds : right.held = some rightJob) :
    leftJob.SamePhase rightJob := by
  cases phase with
  | sorting =>
      cases left <;> cases leftHolds <;> cases right <;> cases rightHolds <;>
        trivial
  | merging current =>
      cases left <;> cases leftHolds <;> cases right <;> cases rightHolds <;>
        first
          | exact leftPhase.elim
          | exact rightPhase.elim
          | exact leftPhase.1.trans rightPhase.1.symm
  | start | level | clearing =>
      cases left <;> cases leftHolds <;> exact leftPhase.elim

/-- The jobs of a sort of `2 ^ levels` blocks. -/
def Job.Expected (levels : Nat) : Job → Prop
  | .sort block => block < 2 ^ levels
  | .merge step block =>
      ∃ lower < levels, step = 2 ^ lower ∧ IsPair levels lower block

/-- Two different jobs of a phase have ranges apart. -/
theorem Job.Expected.apart
    {first second : Job}
    (blocksEq : config.blocks = 2 ^ levels)
    (firstExpected : first.Expected levels)
    (secondExpected : second.Expected levels)
    (same : first.SamePhase second)
    (different : first ≠ second) :
    config.Apart first second := by
  cases first with
  | sort first =>
      cases second with
      | merge => exact same.elim
      | sort second =>
          have firstInside : first < config.blocks := blocksEq ▸ firstExpected
          have secondInside : second < config.blocks :=
            blocksEq ▸ secondExpected
          simp only [Config.Apart, Config.range,
            Config.count_eq firstInside, Config.count_eq secondInside,
            Config.offset, ← Nat.succ_mul]
          have notSame : first ≠ second := fun equal =>
            different (congrArg Job.sort equal)
          rcases Nat.lt_or_gt_of_ne notSame with less | greater
          · exact .inl (Nat.mul_le_mul_right _ less)
          · exact .inr (Nat.mul_le_mul_right _ greater)
  | merge step first =>
      cases second with
      | sort => exact same.elim
      | merge step' second =>
          obtain rfl : step = step' := same
          obtain ⟨lower, below, rfl, firstPair⟩ := firstExpected
          obtain ⟨lower', below', sameStep, secondPair⟩ := secondExpected
          obtain rfl := Nat.pow_right_injective (Nat.le_refl 2) sameStep
          obtain ⟨first1, first2, -⟩ :=
            Config.pair_counts blocksEq below firstPair
          obtain ⟨second1, second2, -⟩ :=
            Config.pair_counts blocksEq below secondPair
          simp only [Config.Apart, Config.range, Config.left, first1, first2,
            second1, second2]
          have notSame : first ≠ second := fun equal =>
            different (congrArg (Job.merge _) equal)
          exact secondPair.apart firstPair notSame _

section Claims

/-- The merges claimed on the levels so far are pairs, each claimed once. -/
theorem MergeClaims.claimed_once
    {claims : List Job}
    {step block : Nat}
    (merges : MergeClaims levels level claims)
    (bound : level ≤ levels)
    (claimed : claims.count (.merge step block) ≠ 0) :
    (∃ lower < levels, step = 2 ^ lower ∧ IsPair levels lower block) ∧
      claims.count (.merge step block) ≤ 1 := by
  obtain ⟨lower, below, rfl, pair⟩ := merges.only step block claimed
  exact ⟨⟨lower, Nat.lt_of_lt_of_le below bound, rfl, pair⟩,
    Nat.le_of_eq (merges.once lower below block pair)⟩

/-- While a level is merged, its own claims are counted by the merge map. -/
theorem MergingData.claimed_once
    {step block : Nat}
    (data : MergingData timeMark config levels level original state)
    (below : level < levels)
    (claimed : state.claims.count (.merge step block) ≠ 0) :
    (∃ lower < levels, step = 2 ^ lower ∧ IsPair levels lower block) ∧
      state.claims.count (.merge step block) ≤ 1 := by
  obtain ⟨lower, lowerBelow, rfl, pair⟩ := data.only step block claimed
  refine ⟨⟨lower, by omega, rfl, pair⟩, ?_⟩
  rcases Nat.lt_or_eq_of_le (Nat.le_of_lt_succ lowerBelow) with less | rfl
  · exact Nat.le_of_eq (data.once lower less block pair)
  · rw [data.current block]
    exact Bool.toNat_le _

/-- In every phase the merges claimed are pairs, each claimed once. -/
theorem PhaseData.claimed_once
    {phase : Phase}
    {step block : Nat}
    (data : PhaseData timeMark config levels original state phase)
    (inPhase : worker.pc.inPhase levels phase)
    (claimed : state.claims.count (.merge step block) ≠ 0) :
    (∃ lower < levels, step = 2 ^ lower ∧ IsPair levels lower block) ∧
      state.claims.count (.merge step block) ≤ 1 := by
  cases phase with
  | start => exact data.merges.claimed_once (Nat.zero_le _) claimed
  | sorting => exact data.merges.claimed_once (Nat.zero_le _) claimed
  | level current =>
      refine data.merges.claimed_once ?_ claimed
      cases place : worker.pc <;> rw [place] at inPhase <;>
        first
          | exact inPhase.elim
          | exact inPhase.2
          | exact Nat.le_of_lt inPhase.2
          | exact Nat.le_of_eq inPhase
  | clearing current =>
      refine data.merges.claimed_once ?_ claimed
      cases place : worker.pc <;> rw [place] at inPhase <;>
        first
          | exact inPhase.elim
          | exact Nat.le_of_lt inPhase.2
  | merging current =>
      refine MergingData.claimed_once data ?_ claimed
      cases place : worker.pc <;> rw [place] at inPhase <;>
        first | exact inPhase.elim | exact inPhase.2

/-- Every claim is a job of the sort, and no job is claimed twice. -/
theorem PoolInvariant.claims
    (invariant : PoolInvariant timeMark config levels original state)
    (blocksEq : config.blocks = 2 ^ levels)
    (positive : 0 < config.threads) :
    (∀ job ∈ state.claims, job.Expected levels) ∧ state.claims.Nodup := by
  obtain ⟨phase, roster, book, data⟩ := invariant
  obtain ⟨first, firstMember⟩ : ∃ worker, worker ∈ state.workers :=
    List.exists_mem_of_length_pos (roster.size ▸ positive)
  have merges : ∀ step block,
      state.claims.count (.merge step block) ≠ 0 →
        (∃ lower < levels, step = 2 ^ lower ∧ IsPair levels lower block) ∧
          state.claims.count (.merge step block) ≤ 1 :=
    fun _ _ => data.claimed_once (roster.inPhase first firstMember)
  constructor
  · intro job member
    have claimed := Nat.ne_of_gt (List.count_pos_iff.mpr member)
    cases job with
    | sort block =>
        change block < 2 ^ levels
        rw [book.sortClaims block] at claimed
        rw [← blocksEq]
        apply book.blockRange
        cases flag : state.blockMap block with
        | true => rfl
        | false => rw [flag] at claimed; exact absurd rfl claimed
    | merge step block => exact (merges step block claimed).1
  · rw [List.nodup_iff_count_le_one]
    intro job
    cases job with
    | sort block =>
        rw [book.sortClaims block]
        exact Bool.toNat_le _
    | merge step block =>
        by_cases claimed : state.claims.count (.merge step block) = 0
        · omega
        · exact (merges step block claimed).2

/-- When all workers have returned, they are past the last merge level. -/
theorem PoolInvariant.returned
    (invariant : PoolInvariant timeMark config levels original state)
    (positive : 0 < config.threads)
    (returned : AllReturned state) :
    Bookkeeping config original state ∧
      LevelData timeMark config levels levels original state ∧
        ∀ job, state.finished.count job = state.claims.count job := by
  obtain ⟨phase, roster, book, data⟩ := invariant
  obtain ⟨first, firstMember⟩ : ∃ worker, worker ∈ state.workers :=
    List.exists_mem_of_length_pos (roster.size ▸ positive)
  have places : ∀ worker ∈ state.workers, worker.pc = .returned := by
    intro worker member
    have place := returned worker member
    cases atPlace : worker.pc <;> rw [atPlace] at place <;>
      first | rfl | cases place
  have firstPhase := roster.inPhase first firstMember
  rw [places first firstMember] at firstPhase
  have finishedEq := book.ledger.finished_eq fun worker member => by
    rw [places worker member]
    rfl
  cases phase with
  | level current =>
      obtain rfl : current = levels := firstPhase
      exact ⟨book, data, finishedEq⟩
  | start | sorting | clearing | merging => exact firstPhase.elim

end Claims

/-- The result of the parallel sort: every job of the sort was done exactly
once and no other, the whole blocks are one sorted run, and the records behind
them are untouched. -/
structure ParallelSorted
    (timeMark : Record → Key)
    (config : Config)
    (levels : Nat)
    (original : Nat → Record)
    (state : PoolState Record) : Prop where
  blocksOnce : ∀ block < config.blocks,
    state.finished.count (.sort block) = 1
  pairsOnce : ∀ level < levels, ∀ block, IsPair levels level block →
    state.finished.count (.merge (2 ^ level) block) = 1
  nothingElse : ∀ job ∈ state.finished, job.Expected levels
  run : Run timeMark original state.base 0 config.blockRecords
  untouched : ∀ index, config.blockRecords ≤ index →
    state.base index = original index

theorem PoolInvariant.parallelSorted
    (invariant : PoolInvariant timeMark config levels original state)
    (blocksEq : config.blocks = 2 ^ levels)
    (positive : 0 < config.threads)
    (returned : AllReturned state) :
    ParallelSorted timeMark config levels original state := by
  obtain ⟨book, data, finishedEq⟩ := invariant.returned positive returned
  obtain ⟨expected, -⟩ := invariant.claims blocksEq positive
  constructor
  · intro block inside
    rw [finishedEq, book.sortClaims, data.blocks block inside]
    rfl
  · intro level below block pair
    rw [finishedEq]
    exact data.merges.once level below block pair
  · intro job member
    apply expected
    rw [← List.count_pos_iff, ← finishedEq]
    exact List.count_pos_iff.mpr member
  · have whole := data.runs 0 (Nat.zero_mod _) (Nat.two_pow_pos levels)
    rw [Nat.zero_mul, ← blocksEq] at whole
    exact whole
  · exact book.untouched

/-- For any number of records, any power of two of blocks, any number of
workers and any order of their steps: jobs claimed in the same phase have
ranges apart, so have the jobs that two workers hold at the same time, and
when all workers have returned the sort is done. -/
theorem reachable_parallelSorted
    (qsort : Qsort timeMark)
    (config : Config)
    (levels : Nat)
    (blocksEq : config.blocks = 2 ^ levels)
    (positive : 0 < config.threads)
    (base : Nat → Record)
    (state : PoolState Record)
    (reachable : (pool qsort config base).Reachable state) :
    (state.claims.Pairwise fun first second =>
      first.SamePhase second → config.Apart first second) ∧
    (∀ (left right : Nat) (leftWorker rightWorker : Worker Record)
        (leftJob rightJob : Job),
      left ≠ right → state.workers[left]? = some leftWorker →
        state.workers[right]? = some rightWorker →
          leftWorker.pc.held = some leftJob →
            rightWorker.pc.held = some rightJob →
              config.Apart leftJob rightJob) ∧
    (AllReturned state → ParallelSorted timeMark config levels base state) := by
  have invariant :=
    poolInvariant_of_reachable blocksEq positive reachable
  obtain ⟨expected, nodup⟩ := invariant.claims blocksEq positive
  refine ⟨?_, ?_, invariant.parallelSorted blocksEq positive⟩
  · apply nodup.pairwise_of_forall_ne
    intro first firstMember second secondMember different same
    exact (expected first firstMember).apart blocksEq
      (expected second secondMember) same different
  · intro left right leftWorker rightWorker leftJob rightJob different
      leftPresent rightPresent leftHolds rightHolds
    obtain ⟨phase, roster, book, -⟩ := invariant
    have leftMember := List.mem_of_getElem? leftPresent
    have rightMember := List.mem_of_getElem? rightPresent
    have leftClaimed := List.count_pos_iff.mp (Nat.pos_of_ne_zero
      (book.ledger.claimed_of_holds leftMember leftHolds))
    have rightClaimed := List.count_pos_iff.mp (Nat.pos_of_ne_zero
      (book.ledger.claimed_of_holds rightMember rightHolds))
    have notSame : leftJob ≠ rightJob := by
      rintro rfl
      exact (book.ledger.sole_holder
        (List.nodup_iff_count_le_one.mp nodup leftJob) leftPresent
        leftHolds).2 right rightWorker rightPresent (Ne.symm different)
        rightHolds
    have same : leftJob.SamePhase rightJob :=
      WorkerPc.samePhase_of_held (roster.inPhase leftWorker leftMember)
        (roster.inPhase rightWorker rightMember) leftHolds rightHolds
    exact (expected leftJob leftClaimed).apart blocksEq
      (expected rightJob rightClaimed) same notSame

end Workers

/-- An insertion sort does what `qsort` is assumed to do. -/
def insertionQsort
    {Record Key : Type}
    [LinearOrder Key]
    (timeMark : Record → Key) : Qsort timeMark where
  sort records :=
    records.insertionSort fun left right => timeMark left ≤ timeMark right
  perm records := List.perm_insertionSort _ records
  ordered records := by
    have total : Std.Total fun left right : Record =>
        timeMark left ≤ timeMark right :=
      ⟨fun left right => le_total (timeMark left) (timeMark right)⟩
    have transitive : IsTrans Record fun left right =>
        timeMark left ≤ timeMark right :=
      ⟨fun _ _ _ => le_trans⟩
    apply (List.pairwise_insertionSort _ records).imp
    intro left right ordered
    exact (compare_nonpos_iff timeMark left right).mpr ordered

/-- Two workers sort five records in two blocks. -/
def twoWorkers : Config where
  threads := 2
  blocks := 2
  records := 5

def fiveRecords : Nat → Nat :=
  fun index => [3, 1, 9, 2, 0].getD index 0

/-- The workers take turns up to the only pair, which worker 0 merges. -/
def twoWorkersSchedule : List (PoolAction Nat) :=
  ((List.replicate 10 [0, 1]).flatten ++ [0, 0, 0, 0, 1, 0, 1]).map fun id =>
    ⟨id, some fun _ => 0⟩

theorem twoWorkersSchedule_parallelSorted :
    ∃ state,
      (pool (insertionQsort id) twoWorkers fiveRecords).run
          (poolStart twoWorkers fiveRecords) twoWorkersSchedule =
        some state ∧
      slice state.base 0 5 = [1, 2, 3, 9, 0] ∧
      ParallelSorted id twoWorkers 1 fiveRecords state := by
  have executed : ∃ state,
      (pool (insertionQsort id) twoWorkers fiveRecords).run
          (poolStart twoWorkers fiveRecords) twoWorkersSchedule =
        some state ∧
      slice state.base 0 5 = [1, 2, 3, 9, 0] ∧ AllReturned state :=
    ⟨_, rfl, rfl, by unfold AllReturned; decide⟩
  obtain ⟨state, ran, records, returned⟩ := executed
  have sorted := reachable_parallelSorted (insertionQsort id) twoWorkers 1
    rfl (by decide) fiveRecords state
    (Machine.Reachable.run (.initial rfl) ran)
  exact ⟨state, ran, records, sorted.2.2 returned⟩

end IndexSort
end OSaSP
