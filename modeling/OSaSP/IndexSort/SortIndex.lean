import OSaSP.IndexSort.Parallel
import Mathlib.Data.Int.Bitwise

/-!
# The main program of `sort_index`

`main` maps the file window by window, lets the workers sort each window and
merges its two halves once more.  The file is kept as its 64-bit words: a
window starts at a whole page, so every access is to whole words.  Sizes and
offsets are `size_t`.

The exit code of a terminating run and the file it leaves are related to the
file it started on.  For a well-formed file, a run that exits with 0 has sorted
exactly one window; whether the records end up in order is decided by the
records behind the last whole block.
-/

namespace OSaSP
namespace IndexSort

open Segment

/-- `struct index_s`; the time mark is the bit pattern of its double. -/
@[ext] structure IndexS where
  timeMark : UInt64
  recno : UInt64
  deriving DecidableEq, Repr

/-- The key of a record, in the order of the time marks. -/
def IndexS.key {Key : Type} (decode : UInt64 → Key) (record : IndexS) : Key :=
  decode record.timeMark

/-- The size of the file and its words. -/
structure IndexFile where
  size : UInt64
  word : Nat → UInt64

namespace IndexFile

variable (file : IndexFile) (offset : UInt64)

/-- `hdr->records` of the window at `offset`. -/
def hdrRecords : UInt64 :=
  file.word (offset.toNat / 8)

/-- `hdr->idx[index]` of the window at `offset`. -/
def idx (index : Nat) : IndexS where
  timeMark := file.word (offset.toNat / 8 + 1 + 2 * index)
  recno := file.word (offset.toNat / 8 + 1 + 2 * index + 1)

/-- The file after the records of a window of `size` bytes were replaced by
those of `base`. -/
def store (size : UInt64) (base : Nat → IndexS) : IndexFile where
  size := file.size
  word index :=
    let first := offset.toNat / 8 + 1
    if first ≤ index ∧ index < offset.toNat / 8 + size.toNat / 8 then
      if (index - first) % 2 = 0 then (base ((index - first) / 2)).timeMark
      else (base ((index - first) / 2)).recno
    else file.word index

/-- The first `count` records of the file. -/
def records (count : Nat) : List IndexS :=
  slice (file.idx 0) 0 count

/-- A count and exactly that many records. -/
structure WellFormed (count : Nat) : Prop where
  header : (file.hdrRecords 0).toNat = count
  size : file.size.toNat = 8 + 16 * count

end IndexFile

/-- The numbers on the command line. -/
structure Arguments where
  memsize : UInt64
  blocks : Int
  threads : Int

namespace Arguments

variable (args : Arguments)

/-- The test of the arguments.  The products of `int`s are exact: where C
leaves an overflow undefined, the exact product is refused. -/
def Invalid (pageSize : UInt64) : Prop :=
  args.memsize % pageSize ≠ 0 ∨ args.blocks.land (args.blocks - 1) ≠ 0 ∨
    args.blocks < args.threads * 4

instance (pageSize : UInt64) : Decidable (args.Invalid pageSize) := by
  unfold Invalid
  infer_instance

/-- `size` of the window at `offset`. -/
def windowSize (file : IndexFile) (offset : UInt64) : UInt64 :=
  if offset + args.memsize > file.size then file.size - offset
  else args.memsize

/-- The arguments of the workers of a window of `total` records. -/
def config (total : Nat) : Config where
  threads := args.threads.toNat
  blocks := args.blocks.toNat
  records := total

/-- What main does to the records once the workers are joined; `none` when
`malloc` fails. -/
def afterJoin
    {Record Key : Type}
    [LinearOrder Key]
    (timeMark : Record → Key)
    (total : Nat)
    (allocation : Option (Nat → Record))
    (base : Nat → Record) : Option (Nat → Record) :=
  if args.threads > 1 ∧ args.blocks > 1 then
    let mid := total / 2
    let n1 := mid - 0
    let n2 := total - mid
    if n1 > 0 ∧ n2 > 0 then
      allocation.map fun tmp =>
        overwrite base 0
          (slice
            (merge timeMark tmp base n1 (fun index => base (mid + index)) n2)
            0 (n1 + n2))
    else some base
  else some base

end Arguments

/-- `needed`: the bytes of a header and `total` records, as a `size_t`. -/
def needed (total : UInt64) : UInt64 :=
  8 + total * 16

section Program

variable {Key : Type} [LinearOrder Key] {decode : UInt64 → Key}
  (qsort : Qsort (IndexS.key decode)) (args : Arguments)

/-- The window at `offset` is mapped and holds all the records it announces;
the workers started on it are in `state`. -/
structure Mapped
    (file : IndexFile)
    (offset : UInt64)
    (state : PoolState IndexS) : Prop where
  inside : offset < file.size
  notEmpty : args.windowSize file offset ≠ 0
  fits : ¬needed (file.hdrRecords offset) > args.windowSize file offset
  reachable :
    (pool qsort (args.config (file.hdrRecords offset).toNat)
      (file.idx offset)).Reachable state

/-- The loop over the windows from `offset` on: the file before, the file
after and the exit code.  A mapping of no bytes always fails. -/
inductive Windows : UInt64 → IndexFile → IndexFile → Nat → Prop
  | finished
      {offset : UInt64}
      {file : IndexFile}
      (last : ¬offset < file.size) :
      Windows offset file file 0
  | mmapFailed
      {offset : UInt64}
      {file : IndexFile}
      (inside : offset < file.size) :
      Windows offset file file 1
  | tooSmall
      {offset : UInt64}
      {file : IndexFile}
      (inside : offset < file.size)
      (notEmpty : args.windowSize file offset ≠ 0)
      (tooSmall :
        needed (file.hdrRecords offset) > args.windowSize file offset) :
      Windows offset file file 1
  | workerFailed
      {offset : UInt64}
      {file : IndexFile}
      {state : PoolState IndexS}
      (mapped : Mapped qsort args file offset state)
      (exited : state.exited = true) :
      Windows offset file
        (file.store offset (args.windowSize file offset) state.base) 1
  | mergeFailed
      {offset : UInt64}
      {file : IndexFile}
      {state : PoolState IndexS}
      {allocation : Option (Nat → IndexS)}
      (mapped : Mapped qsort args file offset state)
      (returned : AllReturned state)
      (failed : args.afterJoin (IndexS.key decode)
        (file.hdrRecords offset).toNat allocation state.base = none) :
      Windows offset file
        (file.store offset (args.windowSize file offset) state.base) 1
  | sorted
      {offset : UInt64}
      {file after : IndexFile}
      {code : Nat}
      {state : PoolState IndexS}
      {allocation : Option (Nat → IndexS)}
      {base : Nat → IndexS}
      (mapped : Mapped qsort args file offset state)
      (returned : AllReturned state)
      (merged : args.afterJoin (IndexS.key decode)
        (file.hdrRecords offset).toNat allocation state.base = some base)
      (rest : Windows (offset + args.windowSize file offset)
        (file.store offset (args.windowSize file offset) base) after code) :
      Windows offset file after code

/-- A run of `sort_index`: the file before, the file after, the exit code. -/
inductive SortIndex
    (pageSize : UInt64) : IndexFile → IndexFile → Nat → Prop
  | invalid {file : IndexFile} (refused : args.Invalid pageSize) :
      SortIndex pageSize file file 1
  | openFailed {file : IndexFile} (accepted : ¬args.Invalid pageSize) :
      SortIndex pageSize file file 1
  | opened
      {file after : IndexFile}
      {code : Nat}
      (accepted : ¬args.Invalid pageSize)
      (windows : Windows qsort args 0 file after code) :
      SortIndex pageSize file after code

end Program

/-! ## One window -/

/-- The accepted block counts are the powers of two. -/
theorem Arguments.blocks_eq_two_pow
    {args : Arguments}
    {pageSize : UInt64}
    (accepted : ¬args.Invalid pageSize)
    (positive : 1 ≤ args.threads) :
    4 ≤ args.blocks ∧ ∃ levels, args.blocks.toNat = 2 ^ levels := by
  simp only [Invalid, not_or, not_not, not_lt] at accepted
  obtain ⟨-, powerOfTwo, enough⟩ := accepted
  have four : 4 ≤ args.blocks := by omega
  refine ⟨four, ?_⟩
  have notNegative : 0 ≤ args.blocks := by omega
  obtain ⟨blocks, blocksEq⟩ := Int.eq_ofNat_of_zero_le notNegative
  rw [blocksEq] at powerOfTwo four
  have positiveBlocks : blocks ≠ 0 := by omega
  have previous : (blocks : Int) - 1 = ((blocks - 1 : Nat) : Int) := by omega
  rw [previous] at powerOfTwo
  have bits : blocks &&& (blocks - 1) = 0 := Int.ofNat_inj.mp powerOfTwo
  obtain ⟨levels, equal⟩ :=
    (Nat.and_sub_one_eq_zero_iff_isPowerOfTwo positiveBlocks).mp bits
  exact ⟨levels, by rw [blocksEq, Int.toNat_natCast, equal]⟩

/-- Admitted thread counts are positive numbers of workers. -/
theorem Arguments.threads_pos
    {args : Arguments}
    (positive : 1 ≤ args.threads)
    (total : Nat) :
    0 < (args.config total).threads := by
  change 0 < args.threads.toNat
  omega

namespace IndexFile

variable {file : IndexFile} {count : Nat}

/-- A well-formed file is just as long as its header says. -/
theorem WellFormed.needed_eq (wellFormed : file.WellFormed count) :
    needed (file.hdrRecords 0) = file.size := by
  obtain ⟨header, size⟩ := wellFormed
  have bound := file.size.toNat_lt
  apply UInt64.toNat_inj.mp
  simp only [needed, UInt64.toNat_add, UInt64.toNat_mul, UInt64.toNat_ofNat,
    header, size]
  omega

/-- The header is in no record. -/
theorem hdrRecords_store (size : UInt64) (base : Nat → IndexS) :
    (file.store 0 size base).hdrRecords 0 = file.hdrRecords 0 := by
  simp [store, hdrRecords]

/-- The stored records are read back. -/
theorem WellFormed.records_store
    (wellFormed : file.WellFormed count)
    (base : Nat → IndexS) :
    (file.store 0 file.size base).records count = slice base 0 count := by
  apply slice_congr
  intro index _ inside
  have size := wellFormed.size
  have even : (2 * index) % 2 = 0 := by omega
  have odd : (2 * index + 1) % 2 = 1 := by omega
  have half : (2 * index + 1) / 2 = index := by omega
  ext
  · have within : 1 ≤ 1 + 2 * index ∧ 1 + 2 * index < file.size.toNat / 8 := by
      omega
    simp [idx, store, within]
  · have within : 1 ≤ 1 + 2 * index + 1 ∧
        1 + 2 * index + 1 < file.size.toNat / 8 := by
      omega
    have behind : 1 + 2 * index + 1 - 1 = 2 * index + 1 := by omega
    simp [idx, store, within, behind, odd, half]

end IndexFile

section Order

variable {Record Key : Type} [LinearOrder Key] {timeMark : Record → Key}
  {base original : Nat → Record}

/-- The records behind the first `whole` are in order and none of them belongs
before one of the first `whole`. -/
structure TailInOrder
    (timeMark : Record → Key)
    (base : Nat → Record)
    (whole total : Nat) : Prop where
  tail : Sorted timeMark (slice base whole (total - whole))
  above : ∀ front ∈ slice base 0 whole,
    ∀ back ∈ slice base whole (total - whole),
      timeMark front ≤ timeMark back

/-- Both halves are in order. -/
structure HalvesInOrder
    (timeMark : Record → Key)
    (base : Nat → Record)
    (total : Nat) : Prop where
  left : Sorted timeMark (slice base 0 (total / 2))
  right : Sorted timeMark (slice base (total / 2) (total - total / 2))

/-- Behind a sorted prefix, order depends on the tail only. -/
theorem sorted_iff_tailInOrder
    {whole total : Nat}
    (inside : whole ≤ total)
    (sorted : Sorted timeMark (slice base 0 whole)) :
    Sorted timeMark (slice base 0 total) ↔
      TailInOrder timeMark base whole total := by
  have split := slice_add base 0 whole (total - whole)
  rw [Nat.add_sub_cancel' inside, Nat.zero_add] at split
  unfold Sorted
  rw [split, List.pairwise_append]
  constructor
  · rintro ⟨-, tail, above⟩
    exact ⟨tail, above⟩
  · rintro ⟨tail, above⟩
    exact ⟨sorted, tail, above⟩

/-- A sorted prefix that reaches over the middle joins the two halves. -/
theorem sorted_iff_halvesInOrder
    {whole total : Nat}
    (overMiddle : total / 2 < whole)
    (sorted : Sorted timeMark (slice base 0 whole)) :
    Sorted timeMark (slice base 0 total) ↔
      HalvesInOrder timeMark base total := by
  rw [sorted_slice_iff] at sorted ⊢
  constructor
  · intro ordered
    constructor <;> rw [sorted_slice_iff] <;> intro first second _ less _
    · exact ordered first second (Nat.zero_le _) less (by omega)
    · exact ordered first second (Nat.zero_le _) less (by omega)
  · rintro ⟨-, right⟩ first second _ less inside
    rw [sorted_slice_iff] at right
    by_cases front : second < whole
    · exact sorted first second (Nat.zero_le _) less (by omega)
    by_cases back : total / 2 ≤ first
    · exact right first second back less (by omega)
    -- The middle is in the prefix and in the right half.
    · exact (sorted first (total / 2) (Nat.zero_le _) (by omega)
        (by omega)).trans
        (right (total / 2) second le_rfl (by omega) (by omega))

/-- Permuting the prefix does not matter to the tail. -/
theorem TailInOrder.congr
    {whole total : Nat}
    (perm : (slice base 0 whole).Perm (slice original 0 whole))
    (untouched : ∀ index, whole ≤ index → base index = original index) :
    TailInOrder timeMark base whole total ↔
      TailInOrder timeMark original whole total := by
  have tailEq : slice base whole (total - whole) =
      slice original whole (total - whole) :=
    slice_congr fun index lower _ => untouched index lower
  constructor
  · rintro ⟨tail, above⟩
    rw [tailEq] at tail above
    exact ⟨tail, fun front member => above front (perm.mem_iff.mpr member)⟩
  · rintro ⟨tail, above⟩
    rw [← tailEq] at tail above
    exact ⟨tail, fun front member => above front (perm.mem_iff.mp member)⟩

end Order

/-- The parallel sort permutes the records. -/
theorem ParallelSorted.perm
    {Record Key : Type}
    [LinearOrder Key]
    {timeMark : Record → Key}
    {config : Config}
    {levels : Nat}
    {original : Nat → Record}
    {state : PoolState Record}
    (parallel : ParallelSorted timeMark config levels original state) :
    (slice state.base 0 config.records).Perm
      (slice original 0 config.records) := by
  have inside := config.blockRecords_le
  have tailEq : slice state.base config.blockRecords
      (config.records - config.blockRecords) =
        slice original config.blockRecords
          (config.records - config.blockRecords) :=
    slice_congr fun index lower _ => parallel.untouched index lower
  rw [← Nat.add_sub_cancel' inside, slice_add, slice_add, Nat.zero_add,
    tailEq]
  exact parallel.run.perm.append_right _

namespace Arguments

variable {Record Key : Type} [LinearOrder Key] {timeMark : Record → Key}
  {args : Arguments} {total : Nat} {allocation : Option (Nat → Record)}
  {base merged : Nat → Record}

/-- A range of at most one record is in order. -/
theorem sorted_slice_of_le_one
    (base : Nat → Record)
    (start : Nat)
    {count : Nat}
    (short : count ≤ 1) :
    Sorted timeMark (slice base start count) := by
  rw [sorted_slice_iff]
  intro first second _ _ _
  omega

/-- Where main merges, the result is in order exactly when both halves are. -/
theorem sorted_afterJoin_iff
    (blocks : args.blocks > 1)
    (threads : args.threads > 1)
    (joined : args.afterJoin timeMark total allocation base = some merged) :
    (slice merged 0 total).Perm (slice base 0 total) ∧
      (Sorted timeMark (slice merged 0 total) ↔
        HalvesInOrder timeMark base total) := by
  unfold afterJoin at joined
  rw [if_pos ⟨threads, blocks⟩] at joined
  dsimp only at joined
  rw [Nat.sub_zero] at joined
  split at joined
  · obtain ⟨tmp, -, rfl⟩ := Option.map_eq_some_iff.mp joined
    have sum : total / 2 + (total - total / 2) = total := by omega
    have written := slice_merge timeMark tmp base (total / 2)
      (fun index => base (total / 2 + index)) (total - total / 2)
    rw [slice_offset, sum] at written
    have result := slice_overwrite_of_length base 0
      (length_slice (merge timeMark tmp base (total / 2)
        (fun index => base (total / 2 + index)) (total - total / 2)) 0 total)
    have halves := slice_add base 0 (total / 2) (total - total / 2)
    rw [sum, Nat.zero_add] at halves
    rw [sum, result, written, halves]
    refine ⟨mergeLists_perm timeMark _ _, ?_⟩
    rw [sorted_mergeLists_iff]
    exact ⟨fun ⟨left, right⟩ => ⟨left, right⟩,
      fun ⟨left, right⟩ => ⟨left, right⟩⟩
  · have short : total ≤ 1 := by omega
    cases joined
    refine ⟨List.Perm.refl _, fun _ => ⟨?_, ?_⟩, fun _ => ?_⟩
    · exact sorted_slice_of_le_one base _ (by omega)
    · exact sorted_slice_of_le_one base _ (by omega)
    · exact sorted_slice_of_le_one base _ short

/-- With one worker main merges nothing. -/
theorem eq_of_afterJoin
    (single : ¬args.threads > 1)
    (joined : args.afterJoin timeMark total allocation base = some merged) :
    merged = base := by
  unfold afterJoin at joined
  rw [if_neg fun merges => single merges.1] at joined
  exact (Option.some.inj joined).symm

/-- The condition on a file under which `sort_index` sorts it. -/
def Sorts
    (timeMark : Record → Key)
    (args : Arguments)
    (base : Nat → Record)
    (total : Nat) : Prop :=
  if args.threads > 1 ∧ (total : Int) < args.blocks then
    HalvesInOrder timeMark base total
  else TailInOrder timeMark base (args.config total).blockRecords total

/-- A record count that the blocks divide leaves no tail. -/
theorem sorts_of_dvd
    (timeMark : Record → Key)
    (args : Arguments)
    (base : Nat → Record)
    {total : Nat}
    (divides : args.blocks.toNat ∣ total) :
    Sorts timeMark args base total := by
  unfold Sorts
  split
  · rename_i few
    have none : total = 0 := Nat.eq_zero_of_dvd_of_lt divides (by omega)
    subst none
    exact ⟨sorted_slice_of_le_one base _ (by omega),
      sorted_slice_of_le_one base _ (by omega)⟩
  · have whole : (args.config total).blockRecords = total :=
      Nat.mul_div_cancel' divides
    rw [whole]
    refine ⟨sorted_slice_of_le_one base _ (by omega), ?_⟩
    intro front _ back member
    rw [Nat.sub_self, slice_zero] at member
    exact absurd member List.not_mem_nil

/-- Fewer records than blocks make blocks of no records. -/
theorem blockRecords_eq_zero
    (few : (total : Int) < args.blocks) :
    (args.config total).blockRecords = 0 := by
  have none : total / args.blocks.toNat = 0 := Nat.div_eq_of_lt (by omega)
  simp only [Config.blockRecords, Config.recsPerBlock, config, none,
    Nat.mul_zero]

/-- From one record a block on, the whole blocks reach over the middle. -/
theorem half_lt_blockRecords
    (blocks : 4 ≤ args.blocks)
    (enough : ¬(total : Int) < args.blocks) :
    total / 2 < (args.config total).blockRecords := by
  have division := Nat.div_add_mod total args.blocks.toNat
  have remainder := Nat.mod_lt total (by omega : 0 < args.blocks.toNat)
  have quotient : 0 < total / args.blocks.toNat :=
    Nat.div_pos (by omega) (by omega)
  have oneEach := Nat.le_mul_of_pos_right args.blocks.toNat quotient
  change total / 2 < args.blocks.toNat * (total / args.blocks.toNat)
  omega

/-- From the parallel sort and main's merge: the records are permuted, and they
are in order exactly under the condition. -/
theorem sorted_iff_sorts
    {levels : Nat}
    {original : Nat → Record}
    {state : PoolState Record}
    (blocks : 4 ≤ args.blocks)
    (parallel :
      ParallelSorted timeMark (args.config total) levels original state)
    (joined :
      args.afterJoin timeMark total allocation state.base = some merged) :
    (slice merged 0 total).Perm (slice original 0 total) ∧
      (Sorted timeMark (slice merged 0 total) ↔
        Sorts timeMark args original total) := by
  have inside : (args.config total).blockRecords ≤ total :=
    (args.config total).blockRecords_le
  have sorted := parallel.run.sorted
  have whole : (slice state.base 0 total).Perm (slice original 0 total) :=
    parallel.perm
  have ordered := (sorted_iff_tailInOrder inside sorted).trans
    (TailInOrder.congr parallel.run.perm parallel.untouched)
  unfold Sorts
  by_cases threads : args.threads > 1
  · obtain ⟨perm, halves⟩ :=
      sorted_afterJoin_iff (by omega) threads joined
    refine ⟨perm.trans whole, halves.trans ?_⟩
    by_cases few : (total : Int) < args.blocks
    · have same : state.base = original := by
        funext index
        exact parallel.untouched index
          (by rw [blockRecords_eq_zero few]; exact Nat.zero_le index)
      rw [if_pos ⟨threads, few⟩, same]
    · rw [if_neg fun both => few both.2]
      exact (sorted_iff_halvesInOrder (half_lt_blockRecords blocks few)
        sorted).symm.trans ordered
  · obtain rfl := eq_of_afterJoin threads joined
    rw [if_neg fun both => threads both.1]
    exact ⟨whole, ordered⟩

end Arguments

/-! ## Runs that exit with 0 -/

section Runs

variable {Key : Type} [LinearOrder Key] {decode : UInt64 → Key}
  {qsort : Qsort (IndexS.key decode)} {args : Arguments}
  {file after : IndexFile} {count : Nat}

/-- Exit code 0 on a well-formed file means that the whole file was one window
and was sorted. -/
theorem Windows.single
    (wellFormed : file.WellFormed count)
    (windows : Windows qsort args 0 file after 0) :
    ∃ state allocation base,
      Mapped qsort args file 0 state ∧ AllReturned state ∧
        args.afterJoin (IndexS.key decode) (file.hdrRecords 0).toNat
          allocation state.base = some base ∧
        after = file.store 0 file.size base := by
  have size := wellFormed.size
  cases windows with
  | finished last =>
      refine absurd (UInt64.lt_iff_toNat_lt.mpr ?_) last
      rw [size]
      simp only [UInt64.toNat_ofNat]
      omega
  | @sorted _ _ _ _ state allocation base mapped returned merged rest =>
      have window : args.windowSize file 0 = file.size := by
        have fits := mapped.fits
        rw [wellFormed.needed_eq] at fits
        unfold Arguments.windowSize at fits ⊢
        by_cases longer : 0 + args.memsize > file.size
        · rw [if_pos longer]
          exact UInt64.sub_zero _
        · rw [if_neg longer] at fits ⊢
          rw [UInt64.zero_add] at longer
          apply UInt64.toNat_inj.mp
          simp only [gt_iff_lt, UInt64.lt_iff_toNat_lt] at fits longer
          omega
      rw [window, UInt64.zero_add] at rest
      refine ⟨state, allocation, base, mapped, returned, merged, ?_⟩
      -- The next window would begin behind the end of the file.
      have last : ¬file.size < (file.store 0 file.size base).size :=
        UInt64.lt_irrefl _
      generalize codeEq : (0 : Nat) = code at rest
      cases rest with
      | finished => rfl
      | mmapFailed | tooSmall | workerFailed | mergeFailed =>
          exact absurd codeEq (by decide)
      | sorted mapped => exact absurd mapped.inside last

/-- A run on a well-formed file that exits with 0 keeps the header and permutes
the records.  They end up in order exactly when, before the run, the records
behind the last whole block were in order and belonged behind all others; with
fewer records than blocks and a merge by main, exactly when both halves were in
order. -/
theorem sortIndex_sorted_iff
    (qsort : Qsort (IndexS.key decode))
    (args : Arguments)
    (pageSize : UInt64)
    (threads : 1 ≤ args.threads)
    (file after : IndexFile)
    (count : Nat)
    (wellFormed : file.WellFormed count)
    (run : SortIndex qsort args pageSize file after 0) :
    (after.hdrRecords 0 = file.hdrRecords 0 ∧ after.size = file.size ∧
        (after.records count).Perm (file.records count) ∧
        Sorted (IndexS.key decode) (after.records count)) ↔
      args.Sorts (IndexS.key decode) (file.idx 0) count := by
  generalize codeEq : (0 : Nat) = code at run
  cases run with
  | invalid | openFailed => exact absurd codeEq (by decide)
  | opened accepted windows =>
      subst codeEq
      obtain ⟨four, levels, blocksEq⟩ :=
        Arguments.blocks_eq_two_pow accepted threads
      obtain ⟨state, allocation, base, mapped, returned, joined, rfl⟩ :=
        windows.single wellFormed
      have header := wellFormed.header
      have reachable := mapped.reachable
      rw [header] at reachable joined
      have blocks : (args.config count).blocks = 2 ^ levels := blocksEq
      have positive := Arguments.threads_pos threads count
      have invariant := poolInvariant_of_reachable blocks positive reachable
      have parallel := invariant.parallelSorted blocks positive returned
      obtain ⟨perm, ordered⟩ :=
        Arguments.sorted_iff_sorts four parallel joined
      rw [IndexFile.hdrRecords_store, wellFormed.records_store]
      constructor
      · rintro ⟨-, -, -, sorted⟩
        exact ordered.mp sorted
      · intro sorts
        exact ⟨rfl, rfl, perm, ordered.mpr sorts⟩

end Runs

section OneWindow

variable {Key : Type} [LinearOrder Key] {decode : UInt64 → Key}
  {qsort : Qsort (IndexS.key decode)} {args : Arguments}
  {pageSize : UInt64} {file : IndexFile} {state : PoolState IndexS}
  {allocation : Option (Nat → IndexS)} {base : Nat → IndexS}

/-- The program around a run of the workers, when the file is one window. -/
theorem sortIndex_of_pool
    (accepted : ¬args.Invalid pageSize)
    (window : args.windowSize file 0 = file.size)
    (notEmpty : 0 < file.size)
    (fits : ¬needed (file.hdrRecords 0) > file.size)
    (reachable : (pool qsort (args.config (file.hdrRecords 0).toNat)
      (file.idx 0)).Reachable state)
    (returned : AllReturned state)
    (joined : args.afterJoin (IndexS.key decode) (file.hdrRecords 0).toNat
      allocation state.base = some base) :
    SortIndex qsort args pageSize file (file.store 0 file.size base) 0 := by
  have mapped : Mapped qsort args file 0 state := by
    refine ⟨notEmpty, ?_, ?_, reachable⟩
    · rw [window]
      exact (UInt64.ne_of_lt notEmpty).symm
    · rw [window]
      exact fits
  have rest : Windows qsort args (0 + file.size)
      (file.store 0 file.size base) (file.store 0 file.size base) 0 :=
    .finished (by rw [UInt64.zero_add]; exact UInt64.lt_irrefl _)
  rw [← window] at rest ⊢
  exact .opened accepted (.sorted mapped returned joined rest)

end OneWindow

/-! ## One worker on four blocks -/

/-- A file of records with the given time marks. -/
def fileOf (marks : List UInt64) : IndexFile where
  size := 8 + 16 * UInt64.ofNat marks.length
  word index :=
    if index = 0 then UInt64.ofNat marks.length
    else if index % 2 = 1 then marks.getD (index / 2) 0
    else UInt64.ofNat (index / 2)

/-- One page, four blocks, one worker. -/
def oneWorker : Arguments where
  memsize := 4096
  blocks := 4
  threads := 1

/-- Insertion sort, with the time marks read as numbers. -/
def markQsort : Qsort (IndexS.key UInt64.toNat) :=
  insertionQsort (IndexS.key UInt64.toNat)

/-- The workers of `oneWorker` on such a file. -/
def oneWorkerPool (marks : List UInt64) :
    Machine (PoolState IndexS) (PoolAction IndexS) :=
  pool markQsort (oneWorker.config marks.length) ((fileOf marks).idx 0)

/-- The only worker takes so many steps. -/
def oneWorkerSchedule (steps : Nat) : List (PoolAction IndexS) :=
  List.replicate steps ⟨0, some fun _ => ⟨0, 0⟩⟩

/-- The program around the only worker's run. -/
theorem sortIndex_of_oneWorkerPool
    {marks : List UInt64}
    {steps : Nat}
    {state : PoolState IndexS}
    (header : ((fileOf marks).hdrRecords 0).toNat = marks.length)
    (window : oneWorker.windowSize (fileOf marks) 0 = (fileOf marks).size)
    (notEmpty : 0 < (fileOf marks).size)
    (fits : ¬needed ((fileOf marks).hdrRecords 0) > (fileOf marks).size)
    (ran : (oneWorkerPool marks).run
      (poolStart (oneWorker.config marks.length) ((fileOf marks).idx 0))
      (oneWorkerSchedule steps) = some state)
    (returned : AllReturned state) :
    SortIndex markQsort oneWorker 4096 (fileOf marks)
      ((fileOf marks).store 0 (fileOf marks).size state.base) 0 := by
  have joined : oneWorker.afterJoin (IndexS.key UInt64.toNat)
      ((fileOf marks).hdrRecords 0).toNat none state.base =
        some state.base := rfl
  apply sortIndex_of_pool (by decide) window notEmpty fits ?_ returned joined
  rw [header]
  exact Machine.Reachable.run (.initial rfl) ran

/-- Five records on four blocks; the last one belongs where it is. -/
theorem fiveRecords_sorted :
    ∃ after,
      SortIndex markQsort oneWorker 4096 (fileOf [3, 1, 0, 2, 9]) after 0 ∧
      Sorted (IndexS.key UInt64.toNat) (after.records 5) := by
  have executed : ∃ state,
      (oneWorkerPool [3, 1, 0, 2, 9]).run
          (poolStart (oneWorker.config 5) ((fileOf [3, 1, 0, 2, 9]).idx 0))
          (oneWorkerSchedule 33) = some state ∧
        AllReturned state :=
    ⟨_, rfl, by unfold AllReturned; decide⟩
  obtain ⟨state, ran, returned⟩ := executed
  have run := sortIndex_of_oneWorkerPool rfl rfl (by decide) (by decide) ran
    returned
  have sorts : oneWorker.Sorts (IndexS.key UInt64.toNat)
      ((fileOf [3, 1, 0, 2, 9]).idx 0) 5 := by
    rw [Arguments.Sorts, if_neg (by decide)]
    exact ⟨by unfold Sorted; decide, by decide⟩
  have sorted := (sortIndex_sorted_iff markQsort oneWorker 4096 (by decide)
    (fileOf [3, 1, 0, 2, 9]) _ 5 ⟨rfl, rfl⟩ run).mpr sorts
  exact ⟨_, run, sorted.2.2.2⟩

/-- Two records on four blocks: every block is empty and nothing moves. -/
theorem not_every_file_sorted :
    ¬∀ (args : Arguments) (file after : IndexFile) (count : Nat),
      1 ≤ args.threads → file.WellFormed count →
        SortIndex markQsort args 4096 file after 0 →
          after.hdrRecords 0 = file.hdrRecords 0 ∧
            (after.records count).Perm (file.records count) ∧
            Sorted (IndexS.key UInt64.toNat) (after.records count) := by
  intro every
  have executed : ∃ state,
      (oneWorkerPool [2, 1]).run
          (poolStart (oneWorker.config 2) ((fileOf [2, 1]).idx 0))
          (oneWorkerSchedule 30) = some state ∧
        AllReturned state ∧
        slice state.base 0 2 = [⟨2, 1⟩, ⟨1, 2⟩] :=
    ⟨_, rfl, by unfold AllReturned; decide, rfl⟩
  obtain ⟨state, ran, returned, records⟩ := executed
  have wellFormed : (fileOf [2, 1]).WellFormed 2 := ⟨rfl, rfl⟩
  have run := sortIndex_of_oneWorkerPool rfl rfl (by decide) (by decide) ran
    returned
  have sorted := (every oneWorker (fileOf [2, 1]) _ 2 (by decide) wellFormed
    run).2.2
  rw [wellFormed.records_store, records] at sorted
  exact absurd sorted (by unfold Sorted; decide)

end IndexSort
end OSaSP
