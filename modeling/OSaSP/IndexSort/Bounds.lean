import OSaSP.IndexSort.SortIndex

/-!
# The records inside the mapping

`main` computes the bytes it needs as a `size_t` from a count that it reads
from the file.  Below `2 ^ 60` records the product is exact, and then no worker
and no merge leaves the mapping.  From there on it wraps, the test passes for
any mapping that holds the wrapped number of bytes, and the last records are
behind it.
-/

namespace OSaSP
namespace IndexSort

/-! ## The records of a window -/

/-- `idx` of a mapping of `size` bytes has so many records. -/
def mappedRecords (size : UInt64) : Nat :=
  (size.toNat - 8) / 16

/-- The records that a job reads and writes; a merge of an empty run does
nothing. -/
def Job.Touches (config : Config) (index : Nat) : Job → Prop
  | .sort block =>
      config.offset block ≤ index ∧
        index < config.offset block + config.count block
  | .merge step block =>
      0 < config.n1 step block ∧ 0 < config.n2 step block ∧
        config.left block ≤ index ∧
          index < config.left block +
            (config.n1 step block + config.n2 step block)

/-- The records that main's own merge reads and writes. -/
def Arguments.FinalMergeTouches
    (args : Arguments)
    (total index : Nat) : Prop :=
  args.threads > 1 ∧ args.blocks > 1 ∧ 0 < total / 2 ∧
    0 < total - total / 2 ∧ index < total

section Window

variable {Record Key : Type} [LinearOrder Key] {timeMark : Record → Key}

/-- The records that may be touched in a window of `total` records, by a worker
or by main. -/
def Arguments.MayTouch
    (args : Arguments)
    (qsort : Qsort timeMark)
    (total : Nat)
    (base : Nat → Record)
    (index : Nat) : Prop :=
  (∃ state, (pool qsort (args.config total) base).Reachable state ∧
    ∃ job ∈ state.claims, job.Touches (args.config total) index) ∨
  args.FinalMergeTouches total index

/-- An expected job stays inside the whole blocks. -/
theorem Job.Expected.touches_lt
    {config : Config}
    {levels index : Nat}
    {job : Job}
    (blocksEq : config.blocks = 2 ^ levels)
    (expected : job.Expected levels)
    (touches : job.Touches config index) :
    index < config.blockRecords := by
  cases job with
  | sort block =>
      have inside : block < config.blocks := blocksEq ▸ expected
      obtain ⟨-, upper⟩ := touches
      rw [Config.count_eq inside, Config.offset, ← Nat.succ_mul] at upper
      exact Nat.lt_of_lt_of_le upper (Nat.mul_le_mul_right _ inside)
  | merge step block =>
      obtain ⟨lower, below, rfl, pair⟩ := expected
      obtain ⟨n1, n2, -⟩ := Config.pair_counts blocksEq below pair
      obtain ⟨-, -, -, upper⟩ := touches
      have room := pair.room below
      rw [n1, n2, Config.left, ← Nat.add_mul, ← Nat.add_mul, ← Nat.mul_two,
        ← Nat.pow_succ] at upper
      exact Nat.lt_of_lt_of_le upper
        (Nat.mul_le_mul_right _ (blocksEq ▸ room))

/-- Only announced records are touched. -/
theorem Arguments.MayTouch.lt
    {args : Arguments}
    {pageSize : UInt64}
    {qsort : Qsort timeMark}
    {total index : Nat}
    {base : Nat → Record}
    (accepted : ¬args.Invalid pageSize)
    (threads : 1 ≤ args.threads)
    (touches : args.MayTouch qsort total base index) :
    index < total := by
  obtain ⟨-, levels, blocksEq⟩ :=
    Arguments.blocks_eq_two_pow accepted threads
  rcases touches with ⟨state, reachable, job, claimed, touches⟩ | merges
  · have positive := Arguments.threads_pos threads total
    have blocks : (args.config total).blocks = 2 ^ levels := blocksEq
    have invariant := poolInvariant_of_reachable blocks positive reachable
    have expected := (invariant.claims blocksEq positive).1 job claimed
    exact Nat.lt_of_lt_of_le (expected.touches_lt blocksEq touches)
      (Config.blockRecords_le _)
  · exact merges.2.2.2.2

/-! ## The last block -/

/-- The search claims the first entry that is not set. -/
theorem claimLoop_first
    {map : Nat → Bool}
    {blocks fuel i block : Nat}
    (claimed : ∀ earlier, i ≤ earlier → earlier < block →
      map earlier = true)
    (free : map block = false)
    (start : i ≤ block)
    (inside : block < blocks)
    (enough : block < i + fuel) :
    claimLoop map blocks 0 1 fuel i = some block := by
  induction fuel generalizing i with
  | zero => omega
  | succ fuel inductionHypothesis =>
      rw [claimLoop, if_pos (by omega)]
      by_cases here : i = block
      · subst here
        rw [free]
        rfl
      · rw [claimed i (Nat.le_refl i) (by omega), if_pos rfl]
        exact inductionHypothesis
          (fun earlier lower => claimed earlier (by omega)) (by omega)
          (by omega)

/-- A pool of one worker steps as the worker does. -/
theorem Reachable.single
    {qsort : Qsort timeMark}
    {config : Config}
    {base : Nat → Record}
    {state next : PoolState Record}
    {worker : Worker Record}
    (reachable : (pool qsort config base).Reachable state)
    (running : state.exited = false)
    (alone : state.workers = [worker])
    (advanced : advanceWorker qsort config 0 worker none state = some next) :
    (pool qsort config base).Reachable next := by
  have stepped : poolStep qsort config state ⟨0, none⟩ = some next := by
    rw [poolStep, running, alone]
    exact advanced
  exact .step reachable trivial stepped

/-- A single worker claims one block after the other. -/
theorem exists_claimed
    (qsort : Qsort timeMark)
    {config : Config}
    (single : config.threads = 1)
    (base : Nat → Record)
    (count : Nat)
    (bound : count < config.blocks) :
    ∃ state, (pool qsort config base).Reachable state ∧
      state.exited = false ∧ state.workers = [⟨.claimBlock, false⟩] ∧
        (∀ block, state.blockMap block = decide (block ≤ count)) ∧
          .sort count ∈ state.claims := by
  induction count with
  | zero =>
      let started : PoolState Record :=
        { poolStart config base with
          workers := [⟨.claimInitial, false⟩] }
      let claimed : PoolState Record :=
        (started.claimBlock 0).goto 0 (.sortInitial 0)
      have alone : (poolStart config base).workers =
          [⟨.starting, false⟩] := by
        rw [poolStart, single]
        rfl
      have released : advanceWorker qsort config 0 ⟨.starting, false⟩ none
          (poolStart config base) = some started := by
        simp [advanceWorker, PoolState.barrierWait, poolStart, single,
          PoolState.release, WorkerPc.afterBarrier, started]
      have claims : advanceWorker qsort config 0 ⟨.claimInitial, false⟩ none
          started = some claimed := by
        have free : 0 < config.blocks ∧ started.blockMap 0 = false :=
          ⟨bound, rfl⟩
        simp [advanceWorker, free, claimed]
      have starts := Reachable.single (.initial rfl) rfl alone released
      have sorting := Reachable.single starts rfl rfl claims
      refine ⟨_, Reachable.single sorting rfl rfl rfl, rfl, rfl, ?_, ?_⟩
      · intro block
        change Function.update (fun _ => false) 0 true block = _
        by_cases first : block = 0 <;> simp [first]
      · exact List.mem_singleton_self _
  | succ count inductionHypothesis =>
      obtain ⟨state, reachable, running, alone, claimed, -⟩ :=
        inductionHypothesis (by omega)
      have found : claimLoop state.blockMap config.blocks 0 1 config.blocks 0 =
          some (count + 1) := by
        apply claimLoop_first
        · intro earlier _ below
          rw [claimed]
          exact decide_eq_true (by omega)
        · rw [claimed]
          exact decide_eq_false (by omega)
        · exact Nat.zero_le _
        · exact bound
        · omega
      let next : PoolState Record :=
        (state.claimBlock (count + 1)).goto 0 (.sortBlock (count + 1))
      have claims : advanceWorker qsort config 0 ⟨.claimBlock, false⟩ none
          state = some next := by
        simp [advanceWorker, found, next]
      have workers : next.workers = [⟨.sortBlock (count + 1), false⟩] := by
        change state.workers.set 0 _ = _
        rw [alone]
        rfl
      have sorting := Reachable.single reachable running alone claims
      refine ⟨_, Reachable.single sorting running workers rfl, running, ?_,
        ?_, ?_⟩
      · change List.set (List.set state.workers 0 _) 0 _ = _
        rw [alone]
        rfl
      · intro block
        change Function.update state.blockMap (count + 1) true block = _
        by_cases same : block = count + 1
        · simp [same]
        · rw [Function.update_of_ne same, claimed]
          apply decide_eq_decide.mpr
          omega
      · exact List.mem_append_right _ (List.mem_singleton_self _)

end Window

/-! ## The test of main -/

/-- Below `2 ^ 60` records the bytes needed are computed exactly. -/
theorem needed_toNat
    {total : UInt64}
    (small : total.toNat < 2 ^ 60) :
    (needed total).toNat = 8 + total.toNat * 16 := by
  simp only [needed, UInt64.toNat_add, UInt64.toNat_mul, UInt64.toNat_ofNat]
  omega

/-- No mapping has more than `2 ^ 60 - 1` records. -/
theorem mappedRecords_lt (size : UInt64) : mappedRecords size < 2 ^ 60 := by
  have bound := size.toNat_lt
  unfold mappedRecords
  omega

section Accepted

variable {Record Key : Type} [LinearOrder Key] {timeMark : Record → Key}
  {args : Arguments} {pageSize : UInt64}

/-- From `2 ^ 60` records on, a record is touched that no mapping has. -/
theorem exists_mayTouch
    (qsort : Qsort timeMark)
    (accepted : ¬args.Invalid pageSize)
    (threads : 1 ≤ args.threads)
    (blocksInt : args.blocks < 2 ^ 31)
    {total : Nat}
    (large : 2 ^ 60 ≤ total)
    (base : Nat → Record) :
    ∃ index, 2 ^ 60 - 1 ≤ index ∧ args.MayTouch qsort total base index := by
  obtain ⟨four, levels, blocksEq⟩ :=
    Arguments.blocks_eq_two_pow accepted threads
  by_cases several : args.threads > 1
  · exact ⟨total - 1, by omega,
      .inr ⟨several, by omega, by omega, by omega, by omega⟩⟩
  · let config := args.config total
    have single : config.threads = 1 := by
      change args.threads.toNat = 1
      omega
    have blocks : config.blocks = 2 ^ levels := blocksEq
    have few : 2 ^ levels < 2 ^ 31 := by
      rw [← blocksEq]
      omega
    have below : levels < 31 := (Nat.pow_lt_pow_iff_right (by omega)).mp few
    -- The blocks divide `2 ^ 60`, so the whole blocks reach that far.
    have whole : 2 ^ 60 ≤ config.blockRecords := by
      have split : 2 ^ 60 = 2 ^ levels * 2 ^ (60 - levels) := by
        rw [← Nat.pow_add]
        congr 1
        omega
      have quotient : 2 ^ (60 - levels) ≤ total / 2 ^ levels := by
        rw [Nat.le_div_iff_mul_le (Nat.two_pow_pos levels), Nat.mul_comm,
          ← split]
        exact large
      rw [Config.blockRecords, blocks, Config.recsPerBlock, blocks, split]
      exact Nat.mul_le_mul_left _ quotient
    have last : config.blocks - 1 < config.blocks := by
      have positive := Nat.two_pow_pos levels
      omega
    obtain ⟨state, reachable, -, -, -, claimed⟩ :=
      exists_claimed qsort single base (config.blocks - 1) last
    have next : config.blocks - 1 + 1 = config.blocks := by omega
    have upper : config.offset (config.blocks - 1) + config.recsPerBlock =
        config.blockRecords := by
      rw [Config.offset, ← Nat.succ_mul, Nat.succ_eq_add_one, next]
      rfl
    have filled : 0 < config.recsPerBlock := by
      rw [Nat.pos_iff_ne_zero]
      intro none
      rw [Config.blockRecords, none] at whole
      omega
    refine ⟨config.blockRecords - 1, by omega,
      .inl ⟨state, reachable, _, claimed, ?_⟩⟩
    change config.offset _ ≤ _ ∧ _ < config.offset _ + config.count _
    rw [Config.count_eq last, upper]
    omega

/-- When main's test lets a window pass, all records that may be touched in it
are inside the mapping exactly when it announces fewer than `2 ^ 60`. -/
theorem touches_inside_iff
    (qsort : Qsort timeMark)
    (args : Arguments)
    (pageSize : UInt64)
    (accepted : ¬args.Invalid pageSize)
    (threads : 1 ≤ args.threads)
    (blocksInt : args.blocks < 2 ^ 31)
    (size total : UInt64)
    (fits : ¬needed total > size)
    (base : Nat → Record) :
    (∀ index, args.MayTouch qsort total.toNat base index →
      index < mappedRecords size) ↔
        total.toNat < 2 ^ 60 := by
  constructor
  · intro inside
    by_contra large
    obtain ⟨index, far, touches⟩ := exists_mayTouch qsort accepted threads
      blocksInt (Nat.le_of_not_lt large) base
    have near := inside index touches
    have bound := mappedRecords_lt size
    omega
  · intro small index touches
    have announced := touches.lt accepted threads
    have bytes := needed_toNat small
    rw [gt_iff_lt, UInt64.lt_iff_toNat_lt, bytes] at fits
    unfold mappedRecords
    omega

end Accepted

/-! ## A header of eight bytes -/

/-- Two workers on eight blocks. -/
def twoOnEight : Arguments where
  memsize := 4096
  blocks := 8
  threads := 2

/-- A mapping of the eight bytes of a header that announces `2 ^ 60` records
passes the test, and main's own merge starts with a record behind it. -/
theorem not_every_touch_inside :
    ¬∀ (args : Arguments) (size total : UInt64),
      ¬args.Invalid 4096 → 1 ≤ args.threads → ¬needed total > size →
        ∀ index,
          args.MayTouch markQsort total.toNat (fun _ => ⟨0, 0⟩) index →
            index < mappedRecords size := by
  intro every
  have merges : twoOnEight.FinalMergeTouches
      (1152921504606846976 : UInt64).toNat 0 := by
    unfold Arguments.FinalMergeTouches
    decide +kernel
  have inside := every twoOnEight 8 1152921504606846976 (by decide)
    (by decide) (by decide) 0 (.inr merges)
  exact absurd inside (by decide)

/-- Both workers pass the first barrier and claim their own blocks. -/
def firstClaims : List (PoolAction IndexS) :=
  [⟨0, none⟩, ⟨1, none⟩, ⟨0, none⟩, ⟨1, none⟩]

/-- Sixteen records fill a mapping of 264 bytes: the second worker sorts the
records 2 and 3, main's own merge reaches the last one, and no record behind
it is touched. -/
theorem sixteenRecords_inside :
    mappedRecords 264 = 16 ∧
      twoOnEight.MayTouch markQsort 16 (fun _ => ⟨0, 0⟩) 3 ∧
      twoOnEight.MayTouch markQsort 16 (fun _ => ⟨0, 0⟩) 15 ∧
      ∀ index, twoOnEight.MayTouch markQsort 16 (fun _ => ⟨0, 0⟩) index →
        index < mappedRecords 264 := by
  have executed : ∃ state,
      (pool markQsort (twoOnEight.config 16) fun _ => ⟨0, 0⟩).run
          (poolStart (twoOnEight.config 16) fun _ => ⟨0, 0⟩) firstClaims =
        some state ∧ .sort 1 ∈ state.claims :=
    ⟨_, rfl, by decide⟩
  obtain ⟨state, ran, claimed⟩ := executed
  refine ⟨by decide,
    .inl ⟨state, .run (.initial rfl) ran, .sort 1, claimed, ?_⟩, .inr ?_, ?_⟩
  · unfold Job.Touches
    decide
  · unfold Arguments.FinalMergeTouches
    decide
  · exact (touches_inside_iff markQsort twoOnEight 4096 (by decide)
      (by decide) (by decide) 264 16 (by decide) _).mpr (by decide)

end IndexSort
end OSaSP
