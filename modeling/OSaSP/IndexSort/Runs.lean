import OSaSP.IndexSort.Phases

/-!
# Sorted runs

What each phase knows about the records.  While the blocks are sorted, a
finished block is sorted; at a merge level every run of `2 ^ level` blocks is
sorted; while a level is merged, a finished pair is sorted and a pending one
consists of two sorted runs.  Every statement about a range also says that the
range is a permutation of the original one.
-/

namespace OSaSP
namespace IndexSort

open Segment

variable {Record Key : Type} [LinearOrder Key]

/-- A range is a sorted permutation of the original range. -/
structure Run
    (timeMark : Record → Key)
    (original base : Nat → Record)
    (start count : Nat) : Prop where
  sorted : Sorted timeMark (slice base start count)
  perm : (slice base start count).Perm (slice original start count)

/-- Exactly the pairs of the levels below `level` were claimed, once each. -/
structure MergeClaims (levels level : Nat) (claims : List Job) : Prop where
  once : ∀ lower < level, ∀ block, IsPair levels lower block →
    claims.count (.merge (2 ^ lower) block) = 1
  only : ∀ step block, claims.count (.merge step block) ≠ 0 →
    ∃ lower < level, step = 2 ^ lower ∧ IsPair levels lower block

/-- What holds in every phase. -/
structure Bookkeeping
    (config : Config)
    (original : Nat → Record)
    (state : PoolState Record) : Prop where
  ledger : Ledger state.claims state.finished state.workers
  sortClaims : ∀ block,
    state.claims.count (.sort block) = (state.blockMap block).toNat
  blockRange : ∀ block, state.blockMap block = true → block < config.blocks
  untouched : ∀ index, config.blockRecords ≤ index →
    state.base index = original index

/-- Before the first barrier nothing has happened. -/
structure StartData
    (levels : Nat)
    (original : Nat → Record)
    (state : PoolState Record) : Prop where
  base : state.base = original
  free : ∀ block, state.blockMap block = false
  merges : MergeClaims levels 0 state.claims

/-- While the blocks are sorted. -/
structure SortingData
    (timeMark : Record → Key)
    (config : Config)
    (levels : Nat)
    (original : Nat → Record)
    (state : PoolState Record) : Prop where
  perm : ∀ block < config.blocks,
    (slice state.base (config.offset block) config.recsPerBlock).Perm
      (slice original (config.offset block) config.recsPerBlock)
  sorted : ∀ block < config.blocks, state.finished.count (.sort block) ≠ 0 →
    Sorted timeMark
      (slice state.base (config.offset block) config.recsPerBlock)
  merges : MergeClaims levels 0 state.claims
  done : ∀ worker ∈ state.workers, worker.pc = .blocksDone →
    ∀ block < config.blocks, state.blockMap block = true

/-- Between two merge levels. -/
structure LevelData
    (timeMark : Record → Key)
    (config : Config)
    (levels level : Nat)
    (original : Nat → Record)
    (state : PoolState Record) : Prop where
  blocks : ∀ block < config.blocks, state.blockMap block = true
  merges : MergeClaims levels level state.claims
  runs : ∀ block, block % 2 ^ level = 0 → block < 2 ^ levels →
    Run timeMark original state.base (block * config.recsPerBlock)
      (2 ^ level * config.recsPerBlock)

/-- While thread 0 clears the merge map. -/
structure ClearingData
    (timeMark : Record → Key)
    (config : Config)
    (levels level : Nat)
    (original : Nat → Record)
    (state : PoolState Record) : Prop
    extends LevelData timeMark config levels level original state where
  cleared : ∀ worker, state.workers[0]? = some worker →
    ∀ step, worker.pc = .cleared step →
      ∀ block, state.mergeMap block = false

/-- One pair of a level, given how often its merge was finished. -/
structure PairData
    (timeMark : Record → Key)
    (original base : Nat → Record)
    (start length finished : Nat) : Prop where
  perm : (slice base start (length + length)).Perm
    (slice original start (length + length))
  pending : finished = 0 → Sorted timeMark (slice base start length) ∧
    Sorted timeMark (slice base (start + length) length)
  merged : finished ≠ 0 →
    Sorted timeMark (slice base start (length + length))

/-- While the pairs of a level are merged. -/
structure MergingData
    (timeMark : Record → Key)
    (config : Config)
    (levels level : Nat)
    (original : Nat → Record)
    (state : PoolState Record) : Prop where
  blocks : ∀ block < config.blocks, state.blockMap block = true
  once : ∀ lower < level, ∀ block, IsPair levels lower block →
    state.claims.count (.merge (2 ^ lower) block) = 1
  only : ∀ step block, state.claims.count (.merge step block) ≠ 0 →
    ∃ lower < level + 1, step = 2 ^ lower ∧ IsPair levels lower block
  current : ∀ block,
    state.claims.count (.merge (2 ^ level) block) =
      (state.mergeMap block).toNat
  pairs : ∀ block, IsPair levels level block →
    PairData timeMark original state.base (block * config.recsPerBlock)
      (2 ^ level * config.recsPerBlock)
      (state.finished.count (.merge (2 ^ level) block))
  copies : ∀ worker ∈ state.workers, ∀ step block tmp,
    worker.pc = .copying step block tmp →
      slice tmp 0 (2 ^ level * config.recsPerBlock +
          2 ^ level * config.recsPerBlock) =
        mergeLists timeMark
          (slice state.base (block * config.recsPerBlock)
            (2 ^ level * config.recsPerBlock))
          (slice state.base (block * config.recsPerBlock +
              2 ^ level * config.recsPerBlock)
            (2 ^ level * config.recsPerBlock))
  done : ∀ worker ∈ state.workers, ∀ step, worker.pc = .pairsDone step →
    ∀ block, IsPair levels level block → state.mergeMap block = true

/-- What a phase knows about the records and the claims. -/
def PhaseData
    (timeMark : Record → Key)
    (config : Config)
    (levels : Nat)
    (original : Nat → Record)
    (state : PoolState Record) : Phase → Prop
  | .start => StartData levels original state
  | .sorting => SortingData timeMark config levels original state
  | .level level => LevelData timeMark config levels level original state
  | .clearing level =>
      ClearingData timeMark config levels level original state
  | .merging level => MergingData timeMark config levels level original state

/-- The inductive invariant of the workers. -/
def PoolInvariant
    (timeMark : Record → Key)
    (config : Config)
    (levels : Nat)
    (original : Nat → Record)
    (state : PoolState Record) : Prop :=
  ∃ phase,
    Roster config.threads levels phase state.workers state.arrived ∧
      Bookkeeping config original state ∧
      PhaseData timeMark config levels original state phase

/-! ## Bookkeeping -/

section Bookkeeping

variable {config : Config} {original : Nat → Record}
  {state : PoolState Record} {id : Nat} {worker : Worker Record}
  {pc : WorkerPc Record}

theorem Bookkeeping.goto
    (book : Bookkeeping config original state)
    (present : state.workers[id]? = some worker)
    (same : pc.held = worker.pc.held) :
    Bookkeeping config original (state.goto id pc) where
  ledger := book.ledger.move present same
  sortClaims := book.sortClaims
  blockRange := book.blockRange
  untouched := book.untouched

theorem Bookkeeping.claimBlock
    {block : Nat}
    (book : Bookkeeping config original state)
    (present : state.workers[id]? = some worker)
    (free : worker.pc.held = none)
    (holds : pc.held = some (.sort block))
    (unclaimed : state.blockMap block = false)
    (inside : block < config.blocks) :
    Bookkeeping config original ((state.claimBlock block).goto id pc) where
  ledger := book.ledger.claim present free holds
  sortClaims other := by
    change (state.claims ++ [Job.sort block]).count (.sort other) =
      (Function.update state.blockMap block true other).toNat
    rw [List.count_append, book.sortClaims other]
    by_cases same : other = block
    · subst same
      rw [unclaimed, Function.update_self, List.count_singleton_self]
      rfl
    · rw [Function.update_of_ne same, List.count_singleton]
      simp [Ne.symm same]
  blockRange other claimed := by
    change Function.update state.blockMap block true other = true at claimed
    by_cases same : other = block
    · subst same
      exact inside
    · rw [Function.update_of_ne same] at claimed
      exact book.blockRange other claimed
  untouched := book.untouched

theorem Bookkeeping.claimPair
    {step block : Nat}
    (book : Bookkeeping config original state)
    (present : state.workers[id]? = some worker)
    (free : worker.pc.held = none)
    (holds : pc.held = some (.merge step block)) :
    Bookkeeping config original
      ((state.claimPair step block).goto id pc) where
  ledger := book.ledger.claim present free holds
  sortClaims other := by
    change (state.claims ++ [Job.merge step block]).count (.sort other) = _
    rw [List.count_append, List.count_singleton]
    exact book.sortClaims other
  blockRange := book.blockRange
  untouched := book.untouched

/-- A finished job wrote inside the whole blocks only. -/
theorem Bookkeeping.finish
    {base : Nat → Record}
    {job : Job}
    (book : Bookkeeping config original state)
    (present : state.workers[id]? = some worker)
    (holds : worker.pc.held = some job)
    (free : pc.held = none)
    (outside : ∀ index, config.blockRecords ≤ index →
      base index = state.base index) :
    Bookkeeping config original
      (({ state with base }.finish job).goto id pc) where
  ledger := book.ledger.finish present holds free
  sortClaims := book.sortClaims
  blockRange := book.blockRange
  untouched index beyond :=
    (outside index beyond).trans (book.untouched index beyond)

theorem Bookkeeping.block_of_held
    {block : Nat}
    (book : Bookkeeping config original state)
    (present : state.workers[id]? = some worker)
    (holds : worker.pc.held = some (.sort block)) :
    block < config.blocks := by
  have claimed := book.ledger.claimed_of_holds
    (List.mem_of_getElem? present) holds
  rw [book.sortClaims block] at claimed
  apply book.blockRange
  cases flag : state.blockMap block with
  | true => rfl
  | false => rw [flag] at claimed; exact absurd rfl claimed

end Bookkeeping

/-! ## Sorting the blocks -/

section Sorting

variable {timeMark : Record → Key} {qsort : Qsort timeMark}
  {config : Config} {levels : Nat} {original : Nat → Record}
  {state : PoolState Record} {id : Nat} {pc : WorkerPc Record}

/-- `qsort` with `compare` sorts. -/
theorem Qsort.sorted
    (qsort : Qsort timeMark)
    (records : List Record) :
    Sorted timeMark (qsort.sort records) := by
  apply (qsort.ordered records).imp
  intro earlier later ordered
  exact (compare_nonpos_iff timeMark earlier later).mp ordered

theorem SortingData.goto
    (data : SortingData timeMark config levels original state)
    (id : Nat)
    (done : pc = .blocksDone →
      ∀ block < config.blocks, state.blockMap block = true) :
    SortingData timeMark config levels original (state.goto id pc) where
  perm := data.perm
  sorted := data.sorted
  merges := data.merges
  done := Pool.forall_mem_set data.done done

theorem MergeClaims.claimBlock
    {level : Nat}
    {claims : List Job}
    (merges : MergeClaims levels level claims)
    (block : Nat) :
    MergeClaims levels level (claims ++ [.sort block]) := by
  have same : ∀ step other,
      (claims ++ [Job.sort block]).count (.merge step other) =
        claims.count (.merge step other) := by
    intro step other
    rw [List.count_append, List.count_singleton]
    rfl
  constructor
  · intro lower below other pair
    rw [same]
    exact merges.once lower below other pair
  · intro step other claimed
    rw [same] at claimed
    exact merges.only step other claimed

theorem SortingData.claimBlock
    (data : SortingData timeMark config levels original state)
    (block : Nat) :
    SortingData timeMark config levels original (state.claimBlock block) where
  perm := data.perm
  sorted := data.sorted
  merges := data.merges.claimBlock block
  done worker member place other inside := by
    change Function.update state.blockMap block true other = true
    by_cases same : other = block
    · subst same
      exact Function.update_self _ _ _
    · rw [Function.update_of_ne same]
      exact data.done worker member place other inside

/-- Sorting one block leaves the others alone and makes its own sorted. -/
theorem SortingData.sortRange
    {block : Nat}
    (data : SortingData timeMark config levels original state)
    (inside : block < config.blocks) :
    SortingData timeMark config levels original
      ((IndexSort.sortRange qsort config state block).finish
        (.sort block)) := by
  have length : (qsort.sort (slice state.base (config.offset block)
      (config.count block))).length = config.recsPerBlock := by
    rw [(qsort.perm _).length_eq, length_slice, Config.count_eq inside]
  have own := slice_overwrite_of_length state.base (config.offset block)
    length
  have others : ∀ other, other ≠ block →
      slice (overwrite state.base (config.offset block)
          (qsort.sort (slice state.base (config.offset block)
            (config.count block)))) (config.offset other)
          config.recsPerBlock =
        slice state.base (config.offset other) config.recsPerBlock := by
    intro other different
    apply slice_overwrite_apart
    rw [length, Config.offset, Config.offset, ← Nat.succ_mul,
      ← Nat.succ_mul]
    rcases Nat.lt_or_gt_of_ne different with less | greater
    · exact .inl (Nat.mul_le_mul_right _ less)
    · exact .inr (Nat.mul_le_mul_right _ greater)
  refine ⟨?_, ?_, data.merges, data.done⟩
  · intro other otherInside
    by_cases same : other = block
    · subst same
      change (slice (overwrite _ _ _) _ _).Perm _
      rw [own, Config.count_eq inside]
      exact (qsort.perm _).trans (data.perm other inside)
    · change (slice (overwrite _ _ _) _ _).Perm _
      rw [others other same]
      exact data.perm other otherInside
  · intro other otherInside finished
    by_cases same : other = block
    · subst same
      change Sorted timeMark (slice (overwrite _ _ _) _ _)
      rw [own]
      exact qsort.sorted _
    · change Sorted timeMark (slice (overwrite _ _ _) _ _)
      rw [others other same]
      apply data.sorted other otherInside
      change (state.finished ++ [Job.sort block]).count (.sort other) ≠ 0
        at finished
      rw [List.count_append, List.count_singleton] at finished
      simpa [Ne.symm same] using finished

end Sorting

/-! ## Merging the pairs of a level -/

section Merging

variable {timeMark : Record → Key} {config : Config} {levels level : Nat}
  {original : Nat → Record} {state : PoolState Record} {id : Nat}
  {pc : WorkerPc Record}

/-- The pair that a worker of a level holds is a pair of that level. -/
theorem MergingData.isPair
    (data : MergingData timeMark config levels level original state)
    {block : Nat}
    (claimed : state.claims.count (.merge (2 ^ level) block) ≠ 0) :
    IsPair levels level block := by
  obtain ⟨lower, _, same, pair⟩ := data.only _ _ claimed
  rw [Nat.pow_right_injective (Nat.le_refl 2) same]
  exact pair

theorem MergingData.goto
    (data : MergingData timeMark config levels level original state)
    (id : Nat)
    (notCopying : ∀ step block tmp, pc ≠ .copying step block tmp)
    (done : ∀ step, pc = .pairsDone step →
      ∀ block, IsPair levels level block → state.mergeMap block = true) :
    MergingData timeMark config levels level original (state.goto id pc) where
  blocks := data.blocks
  once := data.once
  only := data.only
  current := data.current
  pairs := data.pairs
  copies := Pool.forall_mem_set data.copies
    fun step block tmp place => absurd place (notCopying step block tmp)
  done := Pool.forall_mem_set data.done done

theorem MergingData.claimPair
    {block : Nat}
    (data : MergingData timeMark config levels level original state)
    (pair : IsPair levels level block)
    (free : state.mergeMap block = false) :
    MergingData timeMark config levels level original
      (state.claimPair (2 ^ level) block) := by
  have counted : ∀ step other,
      (state.claims ++ [Job.merge (2 ^ level) block]).count
          (.merge step other) =
        state.claims.count (.merge step other) +
          if 2 ^ level = step ∧ block = other then 1 else 0 := by
    intro step other
    simp only [List.count_append, List.count_singleton, beq_iff_eq,
      Job.merge.injEq]
  refine ⟨data.blocks, ?_, ?_, ?_, data.pairs, data.copies, ?_⟩
  · intro lower below other otherPair
    have different : ¬(2 ^ level = 2 ^ lower ∧ block = other) := by
      rintro ⟨same, -⟩
      have := Nat.pow_right_injective (Nat.le_refl 2) same
      omega
    change (state.claims ++ [Job.merge (2 ^ level) block]).count _ = 1
    rw [counted, if_neg different]
    exact data.once lower below other otherPair
  · intro step other claimed
    change (state.claims ++ [Job.merge (2 ^ level) block]).count _ ≠ 0
      at claimed
    rw [counted] at claimed
    by_cases own : 2 ^ level = step ∧ block = other
    · obtain ⟨rfl, rfl⟩ := own
      exact ⟨level, Nat.lt_succ_self level, rfl, pair⟩
    · rw [if_neg own] at claimed
      exact data.only step other claimed
  · intro other
    change (state.claims ++ [Job.merge (2 ^ level) block]).count _ =
      (Function.update state.mergeMap block true other).toNat
    rw [counted, data.current other]
    by_cases same : other = block
    · subst same
      rw [free, Function.update_self, if_pos ⟨rfl, rfl⟩]
      rfl
    · rw [Function.update_of_ne same, if_neg (fun own => same own.2.symm)]
      rfl
  · intro worker member step place other otherPair
    change Function.update state.mergeMap block true other = true
    by_cases same : other = block
    · subst same
      exact Function.update_self _ _ _
    · rw [Function.update_of_ne same]
      exact data.done worker member step place other otherPair

/-- The temporary array holds the merge of the two runs. -/
theorem MergingData.mergePair
    {block : Nat}
    (data : MergingData timeMark config levels level original state)
    (blocksEq : config.blocks = 2 ^ levels)
    (below : level < levels)
    (pair : IsPair levels level block)
    (id : Nat)
    (tmp : Nat → Record) :
    MergingData timeMark config levels level original
      (state.goto id (.copying (2 ^ level) block
        (IndexSort.mergePair config timeMark state (2 ^ level) block
          tmp))) where
  blocks := data.blocks
  once := data.once
  only := data.only
  current := data.current
  pairs := data.pairs
  copies := by
    apply Pool.forall_mem_set data.copies
    intro step other tmp' place
    obtain ⟨rfl, rfl, rfl⟩ := place
    obtain ⟨n1, n2, mid⟩ := Config.pair_counts blocksEq below pair
    rw [IndexSort.mergePair, n1, n2, mid, slice_merge, slice_offset,
      slice_offset]
    rfl
  done := Pool.forall_mem_set data.done (by simp)

/-- The ranges of two pairs of a level are apart. -/
theorem IsPair.apart
    {block other : Nat}
    (pair : IsPair levels level block)
    (otherPair : IsPair levels level other)
    (different : other ≠ block)
    (length : Nat) :
    other * length + (2 ^ level * length + 2 ^ level * length) ≤
        block * length ∨
      block * length + (2 ^ level * length + 2 ^ level * length) ≤
        other * length := by
  have total : ∀ first : Nat,
      first * length + (2 ^ level * length + 2 ^ level * length) =
        (first + 2 ^ (level + 1)) * length := by
    intro first
    rw [Nat.pow_succ, Nat.add_mul, Nat.mul_two, Nat.add_mul]
  rw [total, total]
  rcases stride_apart otherPair.1 pair.1 different with before | after
  · exact .inl (Nat.mul_le_mul_right _ before)
  · exact .inr (Nat.mul_le_mul_right _ after)

/-- Copying a merged pair back leaves the other pairs of the level alone. -/
theorem slice_copied_apart
    {block other : Nat}
    (pair : IsPair levels level block)
    (otherPair : IsPair levels level other)
    (different : other ≠ block)
    (base tmp : Nat → Record)
    (records : Nat) :
    slice (overwrite base (block * records)
        (slice tmp 0 (2 ^ level * records + 2 ^ level * records)))
        (other * records) (2 ^ level * records + 2 ^ level * records) =
      slice base (other * records)
        (2 ^ level * records + 2 ^ level * records) := by
  apply slice_overwrite_apart
  rw [length_slice]
  exact pair.apart otherPair different records

/-- What is known about a pair depends only on its records. -/
theorem PairData.congr
    {base changed : Nat → Record}
    {start length finished : Nat}
    (data : PairData timeMark original base start length finished)
    (same : slice changed start (length + length) =
      slice base start (length + length)) :
    PairData timeMark original changed start length finished := by
  obtain ⟨left, right⟩ := slice_add_inj same
  refine ⟨?_, ?_, ?_⟩
  · rw [same]
    exact data.perm
  · rw [left, right]
    exact data.pending
  · rw [same]
    exact data.merged

/-- Copying the merge of a pair back finishes the pair. -/
theorem PairData.copied
    {base tmp : Nat → Record}
    {start length : Nat}
    (data : PairData timeMark original base start length 0)
    (merged : slice tmp 0 (length + length) =
      mergeLists timeMark (slice base start length)
        (slice base (start + length) length))
    (finished : Nat) :
    PairData timeMark original
      (overwrite base start (slice tmp 0 (length + length)))
      start length (finished + 1) := by
  have own : slice (overwrite base start (slice tmp 0 (length + length)))
      start (length + length) = slice tmp 0 (length + length) :=
    slice_overwrite_of_length base start (length_slice _ _ _)
  obtain ⟨sortedLeft, sortedRight⟩ := data.pending rfl
  refine ⟨?_, ?_, ?_⟩
  · rw [own, merged]
    refine (mergeLists_perm timeMark _ _).trans ?_
    rw [← slice_add]
    exact data.perm
  · intro impossible
    cases impossible
  · intro _
    rw [own, merged]
    exact sortedLeft.mergeLists sortedRight

/-- The copy of a merged pair leaves the others alone and makes its own
sorted. -/
theorem MergingData.copyPair
    {block : Nat}
    {tmp : Nat → Record}
    {worker : Worker Record}
    (data : MergingData timeMark config levels level original state)
    (blocksEq : config.blocks = 2 ^ levels)
    (below : level < levels)
    (ledger : Ledger state.claims state.finished state.workers)
    (inPhase : ∀ worker ∈ state.workers,
      worker.pc.inPhase levels (.merging level))
    (present : state.workers[id]? = some worker)
    (place : worker.pc = .copying (2 ^ level) block tmp) :
    MergingData timeMark config levels level original
      (((IndexSort.copyPair config state (2 ^ level) block tmp).finish
        (.merge (2 ^ level) block)).goto id (.claimPair (2 ^ level))) := by
  have member := List.mem_of_getElem? present
  have holds : worker.pc.held = some (.merge (2 ^ level) block) := by
    rw [place]
    rfl
  have pair := data.isPair (ledger.claimed_of_holds member holds)
  have once : state.claims.count (.merge (2 ^ level) block) ≤ 1 := by
    rw [data.current block]
    exact Bool.toNat_le _
  obtain ⟨unfinished, sole⟩ := ledger.sole_holder once present holds
  obtain ⟨n1, n2, -⟩ := Config.pair_counts blocksEq below pair
  let length := 2 ^ level * config.recsPerBlock
  let base := overwrite state.base (block * config.recsPerBlock)
    (slice tmp 0 (length + length))
  have baseEq : overwrite state.base (config.left block)
      (slice tmp 0 (config.n1 (2 ^ level) block +
        config.n2 (2 ^ level) block)) = base := by
    rw [n1, n2]
    rfl
  have others : ∀ other, IsPair levels level other → other ≠ block →
      slice base (other * config.recsPerBlock) (length + length) =
        slice state.base (other * config.recsPerBlock) (length + length) :=
    fun other otherPair different =>
      slice_copied_apart pair otherPair different state.base tmp
        config.recsPerBlock
  have counted : ∀ other,
      (state.finished ++ [Job.merge (2 ^ level) block]).count
          (.merge (2 ^ level) other) =
        state.finished.count (.merge (2 ^ level) other) +
          if block = other then 1 else 0 := by
    intro other
    simp only [List.count_append, List.count_singleton, beq_iff_eq,
      Job.merge.injEq, true_and]
  refine ⟨data.blocks, data.once, data.only, data.current, ?_, ?_, ?_⟩
  · intro other otherPair
    change PairData timeMark original (overwrite state.base _ _) _ _
      ((state.finished ++ [Job.merge (2 ^ level) block]).count _)
    have known := data.pairs other otherPair
    rw [baseEq, counted]
    by_cases same : other = block
    · subst same
      rw [unfinished] at known ⊢
      rw [if_pos rfl]
      exact known.copied (data.copies worker member _ _ _ place) 0
    · rw [if_neg (Ne.symm same), Nat.add_zero]
      exact known.congr (others other otherPair same)
  · intro other otherMember step otherBlock tmp' otherPlace
    obtain ⟨position, found⟩ := List.getElem?_of_mem otherMember
    rcases Pool.getElem?_set_cases found with ⟨-, rfl⟩ | ⟨different, found⟩
    · cases otherPlace
    · have otherIn := List.mem_of_getElem? found
      have otherHolds : other.pc.held = some (.merge step otherBlock) := by
        rw [otherPlace]
        rfl
      obtain ⟨rfl, -⟩ : step = 2 ^ level ∧ level < levels := by
        simpa [otherPlace, WorkerPc.inPhase] using inPhase other otherIn
      have otherPair := data.isPair
        (ledger.claimed_of_holds otherIn otherHolds)
      have notOwn : otherBlock ≠ block := by
        rintro rfl
        exact sole position other found different otherHolds
      obtain ⟨left, right⟩ :=
        slice_add_inj (others otherBlock otherPair notOwn)
      change _ = mergeLists timeMark
        (slice (overwrite state.base _ _) _ _)
        (slice (overwrite state.base _ _) _ _)
      rw [baseEq, left, right]
      exact data.copies other otherIn _ _ _ otherPlace
  · exact Pool.forall_mem_set data.done (by simp)

end Merging

end IndexSort
end OSaSP
