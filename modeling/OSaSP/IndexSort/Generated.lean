import OSaSP.IndexSort.SortIndex

/-!
# From `gen` over `sort_index` to `view`

`gen` writes a file of records with the numbers from 1 on, `sort_index` sorts
it in place and `view` lists it.  Both ends compute addresses from the record
count, so an access is checked against the size of the buffer.

After a complete write, whatever `sort_index` answers, `view` finds as many
records as were generated, and after exit code 0 it lists every number once.
After a write cut short, `sort_index` leaves the file alone and `view` reads
behind its buffer.
-/

namespace OSaSP
namespace IndexSort

open Segment

/-! ## `gen` -/

/-- The record that `gen` puts at an index. -/
def genRecord (timeMark : Nat → UInt64) (index : Nat) : IndexS where
  timeMark := timeMark index
  recno := UInt64.ofNat (index + 1)

/-- `hdr->idx[index]` is assigned. -/
def setIdx
    (word : Nat → UInt64)
    (index : Nat)
    (record : IndexS) : Nat → UInt64 :=
  Function.update (Function.update word (1 + 2 * index) record.timeMark)
    (1 + 2 * index + 1) record.recno

/-- The loop of `gen` over a buffer of `size` bytes, from `index` on; `none` is
a write behind the buffer. -/
def fill
    (size : UInt64)
    (timeMark : Nat → UInt64) :
    Nat → Nat → (Nat → UInt64) → Option (Nat → UInt64)
  | 0, _, word => some word
  | rounds + 1, index, word =>
      if 8 + 16 * (index + 1) ≤ size.toNat then
        fill size timeMark rounds (index + 1)
          (setIdx word index (genRecord timeMark index))
      else none

/-- The words of a file of which only `written` bytes arrived. -/
def arrived (written : UInt64) (word : Nat → UInt64) : Nat → UInt64 :=
  fun index =>
    if 8 * (index + 1) ≤ written.toNat then word index
    else word index % UInt64.ofNat (2 ^ (8 * (written.toNat - 8 * index)))

/-- The file that `gen` writes when the calls of `rand_mjd` return `timeMark`,
`malloc` returns a buffer of unknown content or none and `fwrite` brings
`written` bytes into the file. -/
def gen
    (records : UInt64)
    (timeMark : Nat → UInt64)
    (buffer : Option (Nat → UInt64))
    (written : UInt64) : Option IndexFile :=
  buffer.bind fun word =>
    if 8 ≤ (needed records).toNat then
      (fill (needed records) timeMark records.toNat 0
        (Function.update word 0 records)).map fun filled =>
          ⟨written, arrived written filled⟩
    else none

/-! ## `view` -/

/-- A line that `view` prints. -/
inductive Line where
  | header (records : UInt64)
  | entry (record : IndexS)
  deriving DecidableEq, Repr

/-- The loop of `view` from `index` on; `none` is a read behind the buffer. -/
def listFrom (file : IndexFile) : Nat → Nat → Option (List Line)
  | 0, _ => some []
  | rounds + 1, index =>
      if 8 + 16 * (index + 1) ≤ file.size.toNat then
        (listFrom file rounds (index + 1)).map (.entry (file.idx 0 index) :: ·)
      else none

/-- What `view` prints of a file. -/
def view (file : IndexFile) : Option (List Line) :=
  if 8 ≤ file.size.toNat then
    (listFrom file (file.hdrRecords 0).toNat 0).map
      (.header (file.hdrRecords 0) :: ·)
  else none

/-! ## The two loops -/

/-- The bytes of a header are always asked for. -/
theorem le_needed (total : UInt64) : 8 ≤ (needed total).toNat := by
  simp only [needed, UInt64.toNat_add, UInt64.toNat_mul, UInt64.toNat_ofNat]
  omega

/-- Below `2 ^ 60` records the size is exact. -/
theorem needed_eq_of_lt
    {total : UInt64}
    (few : total.toNat < 2 ^ 60) :
    (needed total).toNat = 8 + 16 * total.toNat := by
  simp only [needed, UInt64.toNat_add, UInt64.toNat_mul, UInt64.toNat_ofNat]
  omega

/-- What the loop of `gen` has done when it ends. -/
structure Filled
    (size : UInt64)
    (timeMark : Nat → UInt64)
    (rounds index : Nat)
    (word filled : Nat → UInt64) : Prop where
  inside : rounds = 0 ∨ 8 + 16 * (index + rounds) ≤ size.toNat
  before : ∀ place, place < 1 + 2 * index → filled place = word place
  mark : ∀ place, index ≤ place → place < index + rounds →
    filled (1 + 2 * place) = (genRecord timeMark place).timeMark
  number : ∀ place, index ≤ place → place < index + rounds →
    filled (1 + 2 * place + 1) = (genRecord timeMark place).recno

/-- The loop of `gen` fills the records one after the other. -/
theorem fill_filled
    {size : UInt64}
    {timeMark : Nat → UInt64}
    {rounds index : Nat}
    {word filled : Nat → UInt64}
    (done : fill size timeMark rounds index word = some filled) :
    Filled size timeMark rounds index word filled := by
  induction rounds generalizing index word with
  | zero =>
      obtain rfl := Option.some.inj done
      exact ⟨.inl rfl, fun _ _ => rfl, fun _ _ _ => by omega,
        fun _ _ _ => by omega⟩
  | succ rounds inductionHypothesis =>
      rw [fill] at done
      split at done
      case isFalse => exact absurd done (Option.some_ne_none _).symm
      rename_i inside
      have rest := inductionHypothesis done
      refine ⟨.inr ?_, ?_, ?_, ?_⟩
      · rcases rest.inside with none | inside'
        · subst none
          exact inside
        · omega
      · intro place less
        rw [rest.before place (by omega), setIdx,
          Function.update_of_ne (by omega), Function.update_of_ne (by omega)]
      · intro place lower upper
        by_cases here : place = index
        · subst here
          rw [rest.before _ (by omega), setIdx,
            Function.update_of_ne (by omega), Function.update_self]
        · exact rest.mark place (by omega) (by omega)
      · intro place lower upper
        by_cases here : place = index
        · subst here
          rw [rest.before _ (by omega), setIdx, Function.update_self]
        · exact rest.number place (by omega) (by omega)

/-- A buffer with room for all records is filled. -/
theorem fill_isSome
    {size : UInt64}
    {timeMark : Nat → UInt64}
    {rounds index : Nat}
    {word : Nat → UInt64}
    (inside : 8 + 16 * (index + rounds) ≤ size.toNat) :
    (fill size timeMark rounds index word).isSome := by
  induction rounds generalizing index word with
  | zero => rfl
  | succ rounds inductionHypothesis =>
      rw [fill, if_pos (by omega)]
      exact inductionHypothesis (by omega)

/-- `gen` stays inside its buffer up to the count from which on the size wraps
around. -/
theorem gen_isSome_iff
    (records : UInt64)
    (timeMark : Nat → UInt64)
    (buffer : Nat → UInt64)
    (written : UInt64) :
    (gen records timeMark (some buffer) written).isSome ↔
      records.toNat < 2 ^ 60 := by
  rw [gen, Option.bind_some, if_pos (le_needed records), Option.isSome_map]
  constructor
  · intro done
    obtain ⟨filled, done⟩ := Option.isSome_iff_exists.mp done
    have bound := (needed records).toNat_lt
    rcases (fill_filled done).inside with none | inside <;> omega
  · intro few
    apply fill_isSome
    rw [needed_eq_of_lt few, Nat.zero_add]

/-- `view` prints the records that the header announces, if they are there. -/
theorem listFrom_eq
    (file : IndexFile)
    (rounds index : Nat) :
    listFrom file rounds index =
      if rounds = 0 ∨ 8 + 16 * (index + rounds) ≤ file.size.toNat then
        some ((slice (file.idx 0) index rounds).map .entry)
      else none := by
  induction rounds generalizing index with
  | zero => rfl
  | succ rounds inductionHypothesis =>
      rw [listFrom, inductionHypothesis, slice_succ_eq_cons]
      by_cases inside : 8 + 16 * (index + (rounds + 1)) ≤ file.size.toNat
      · rw [if_pos (by omega), if_pos (.inr (by omega)), if_pos (.inr inside)]
        rfl
      · rw [if_neg (by omega : ¬(rounds + 1 = 0 ∨ _))]
        split
        · have more : rounds ≠ 0 := by
            rintro rfl
            omega
          rw [if_neg (by omega), Option.map_none]
        · rfl

theorem view_eq (file : IndexFile) :
    view file =
      if 8 + 16 * (file.hdrRecords 0).toNat ≤ file.size.toNat then
        some (.header (file.hdrRecords 0) ::
          (file.records (file.hdrRecords 0).toNat).map .entry)
      else none := by
  rw [view, listFrom_eq, Nat.zero_add]
  by_cases inside :
      8 + 16 * (file.hdrRecords 0).toNat ≤ file.size.toNat
  · rw [if_pos (by omega), if_pos (.inr inside), if_pos inside]
    rfl
  · rw [if_neg inside]
    split
    · rw [if_neg (by omega), Option.map_none]
    · rfl

/-! ## The generated file -/

section Generated

variable {records written : UInt64} {timeMark : Nat → UInt64}
  {buffer : Option (Nat → UInt64)} {file : IndexFile}

/-- A file is generated by filling a buffer. -/
theorem exists_filled
    (generated : gen records timeMark buffer written = some file) :
    ∃ word filled, file = ⟨written, arrived written filled⟩ ∧
      filled 0 = records ∧ records.toNat < 2 ^ 60 ∧
      Filled (needed records) timeMark records.toNat 0 word filled := by
  obtain ⟨word, rfl, generated'⟩ := Option.bind_eq_some_iff.mp generated
  have few := (gen_isSome_iff records timeMark word written).mp
    (by rw [generated]; rfl)
  rw [if_pos (le_needed records)] at generated'
  obtain ⟨filled, done, rfl⟩ := Option.map_eq_some_iff.mp generated'
  have result := fill_filled done
  refine ⟨_, filled, rfl, ?_, few, result⟩
  rw [result.before 0 (by omega), Function.update_self]

/-- After a complete write the file is well-formed and holds the generated
records. -/
theorem gen_wellFormed
    (generated : gen records timeMark buffer written = some file)
    (complete : written = needed records) :
    file.WellFormed records.toNat ∧
      file.records records.toNat =
        slice (genRecord timeMark) 0 records.toNat := by
  obtain ⟨word, filled, rfl, header, few, result⟩ := exists_filled generated
  subst complete
  have size := needed_eq_of_lt few
  have whole : ∀ place, place < 1 + 2 * records.toNat →
      arrived (needed records) filled place = filled place := by
    intro place inside
    rw [arrived, if_pos (by omega)]
  refine ⟨⟨?_, size⟩, ?_⟩
  · change (arrived _ filled 0).toNat = _
    rw [whole 0 (by omega), header]
  · apply slice_congr
    intro index _ inside
    have mark := result.mark index (by omega) (by omega)
    have number := result.number index (by omega) (by omega)
    apply IndexS.ext
    · change arrived _ filled (0 + 1 + 2 * index) = _
      rw [Nat.zero_add, whole _ (by omega), mark]
    · change arrived _ filled (0 + 1 + 2 * index + 1) = _
      rw [Nat.zero_add, whole _ (by omega), number]

/-- After a write cut short the file is shorter than its header says. -/
theorem gen_short
    (generated : gen records timeMark buffer written = some file)
    (cut : written < needed records) :
    needed (file.hdrRecords 0) > file.size ∧ view file = none := by
  obtain ⟨word, filled, rfl, header, few, result⟩ := exists_filled generated
  have size := needed_eq_of_lt few
  rw [UInt64.lt_iff_toNat_lt] at cut
  rw [gt_iff_lt, UInt64.lt_iff_toNat_lt, view_eq]
  by_cases whole : 8 ≤ written.toNat
  · have same : IndexFile.hdrRecords ⟨written, arrived written filled⟩ 0 =
        records := by
      change arrived _ filled 0 = _
      rw [arrived, if_pos (by omega), header]
    rw [same]
    exact ⟨cut, if_neg (by change ¬_ ≤ written.toNat; omega)⟩
  · constructor
    · exact (Nat.lt_of_not_le whole).trans_le (le_needed _)
    · exact if_neg (by change ¬_ ≤ written.toNat; omega)

/-- The numbers of the generated records. -/
theorem map_recno_genRecord (few : records.toNat < 2 ^ 60) :
    ((slice (genRecord timeMark) 0 records.toNat).map fun record =>
        record.recno.toNat) = List.range' 1 records.toNat := by
  rw [slice, List.map_map, List.range'_eq_map_range]
  apply List.map_congr_left
  intro index member
  have inside := List.mem_range.mp member
  simp only [Function.comp_apply, genRecord, Nat.zero_add]
  rw [UInt64.toNat_ofNat_of_lt' (by
    change _ < 2 ^ 64
    omega), Nat.add_comm]

end Generated

/-! ## The run in between -/

section Runs

variable {Key : Type} [LinearOrder Key] {decode : UInt64 → Key}
  {qsort : Qsort (IndexS.key decode)} {args : Arguments} {pageSize : UInt64}
  {file after : IndexFile} {count code : Nat}

/-- The window at the beginning is no longer than the file. -/
theorem Arguments.windowSize_le (args : Arguments) (file : IndexFile) :
    args.windowSize file 0 ≤ file.size := by
  rw [windowSize, UInt64.zero_add]
  split
  · rw [UInt64.sub_zero]
    exact UInt64.le_refl _
  · rename_i shorter
    exact UInt64.not_lt.mp shorter

/-- On a well-formed file every run keeps the header and the size. -/
theorem Windows.wellFormed
    (wellFormed : file.WellFormed count)
    (windows : Windows qsort args 0 file after code) :
    after.WellFormed count := by
  have stored : ∀ size base, (file.store 0 size base).WellFormed count := by
    intro size base
    refine ⟨?_, wellFormed.size⟩
    rw [IndexFile.hdrRecords_store]
    exact wellFormed.header
  cases windows with
  | finished | mmapFailed | tooSmall => exact wellFormed
  | workerFailed | mergeFailed => exact stored _ _
  | @sorted _ _ _ _ state allocation base mapped returned merged rest =>
      -- The first window is the whole file.
      have window : args.windowSize file 0 = file.size := by
        have fits := mapped.fits
        rw [wellFormed.needed_eq] at fits
        exact UInt64.le_antisymm (args.windowSize_le file)
          (UInt64.not_lt.mp fits)
      rw [window, UInt64.zero_add] at rest
      have last : ¬file.size < (file.store 0 file.size base).size :=
        UInt64.lt_irrefl _
      cases rest with
      | finished => exact stored _ _
      | mmapFailed inside | tooSmall inside => exact absurd inside last
      | workerFailed mapped | mergeFailed mapped | sorted mapped =>
          exact absurd mapped.inside last

/-- A file shorter than its header says is left alone and reported, unless it
is empty. -/
theorem Windows.refused
    (short : needed (file.hdrRecords 0) > file.size)
    (windows : Windows qsort args 0 file after code) :
    after = file ∧ (code = 0 → file.size = 0) := by
  have refused : ∀ state, ¬Mapped qsort args file 0 state := by
    intro state mapped
    have fits := UInt64.not_lt.mp mapped.fits
    exact UInt64.not_le.mpr short
      (UInt64.le_trans fits (args.windowSize_le file))
  cases windows with
  | finished last =>
      refine ⟨rfl, fun _ => ?_⟩
      rw [UInt64.lt_iff_toNat_lt] at last
      apply UInt64.toNat_inj.mp
      change _ = 0
      change ¬0 < _ at last
      omega
  | mmapFailed | tooSmall =>
      exact ⟨rfl, fun zero => absurd zero Nat.one_ne_zero⟩
  | workerFailed mapped | mergeFailed mapped | sorted mapped =>
      exact absurd mapped (refused _)

/-- Exit code 0 on a well-formed file: the records are permuted, and sorted
under the condition on the tail. -/
theorem SortIndex.perm
    (threads : 1 ≤ args.threads)
    (wellFormed : file.WellFormed count)
    (run : SortIndex qsort args pageSize file after 0) :
    (after.records count).Perm (file.records count) ∧
      (Sorted (IndexS.key decode) (after.records count) ↔
        args.Sorts (IndexS.key decode) (file.idx 0) count) := by
  generalize codeEq : (0 : Nat) = code at run
  cases run with
  | invalid | openFailed => exact absurd codeEq Nat.zero_ne_one
  | opened accepted windows =>
      subst codeEq
      obtain ⟨four, levels, blocksEq⟩ :=
        Arguments.blocks_eq_two_pow accepted threads
      obtain ⟨state, allocation, base, mapped, returned, joined, rfl⟩ :=
        windows.single wellFormed
      have reachable := mapped.reachable
      rw [wellFormed.header] at reachable joined
      have blocks : (args.config count).blocks = 2 ^ levels := blocksEq
      have positive := Arguments.threads_pos threads count
      have invariant := poolInvariant_of_reachable blocks positive reachable
      rw [wellFormed.records_store]
      exact Arguments.sorted_iff_sorts four
        (invariant.parallelSorted blocks positive returned) joined

end Runs

/-- The condition on the tail depends only on the records of the file. -/
theorem Arguments.Sorts.congr
    {Record Key : Type}
    [LinearOrder Key]
    {timeMark : Record → Key}
    {args : Arguments}
    {base original : Nat → Record}
    {total : Nat}
    (same : slice base 0 total = slice original 0 total)
    (sorts : args.Sorts timeMark base total) :
    args.Sorts timeMark original total := by
  have parts : ∀ front, front ≤ total →
      slice base 0 front = slice original 0 front ∧
        slice base front (total - front) =
          slice original front (total - front) := by
    intro front inside
    rw [← Nat.add_sub_cancel' inside] at same
    have split := slice_add_inj same
    rwa [Nat.zero_add] at split
  unfold Sorts at sorts ⊢
  split
  · rename_i few
    rw [if_pos few] at sorts
    obtain ⟨left, right⟩ := parts (total / 2) (by omega)
    exact ⟨left ▸ sorts.left, right ▸ sorts.right⟩
  · rename_i many
    rw [if_neg many] at sorts
    obtain ⟨front, back⟩ := parts _ (args.config total).blockRecords_le
    refine ⟨back ▸ sorts.tail, ?_⟩
    rw [← front, ← back]
    exact sorts.above

/-! ## The three programs one after the other -/

/-- After a complete write `view` lists as many records as were generated;
after exit code 0 every generated record is listed once, in order under the
condition on the tail.  A file cut short is left alone, and `view` reads behind
its buffer. -/
theorem generated_file_listed
    {Key : Type}
    [LinearOrder Key]
    {decode : UInt64 → Key}
    (qsort : Qsort (IndexS.key decode))
    (args : Arguments)
    (pageSize : UInt64)
    (threads : 1 ≤ args.threads)
    (records written : UInt64)
    (timeMark : Nat → UInt64)
    (buffer : Option (Nat → UInt64))
    (file after : IndexFile)
    (code : Nat)
    (generated : gen records timeMark buffer written = some file)
    (run : SortIndex qsort args pageSize file after code) :
    (written = needed records →
      ∃ listed : List IndexS,
        view after = some (.header records :: listed.map .entry) ∧
        listed.length = records.toNat ∧
        (code = 0 →
          listed.Perm (slice (genRecord timeMark) 0 records.toNat) ∧
          (listed.map fun record => record.recno.toNat).Perm
            (List.range' 1 records.toNat) ∧
          (Sorted (IndexS.key decode) listed ↔
            args.Sorts (IndexS.key decode) (genRecord timeMark)
              records.toNat))) ∧
    (written < needed records →
      after = file ∧ (code = 0 → written = 0) ∧ view after = none) := by
  constructor
  · intro complete
    obtain ⟨wellFormed, same⟩ := gen_wellFormed generated complete
    obtain ⟨_, _, _, _, few, _⟩ := exists_filled generated
    have kept : after.WellFormed records.toNat := by
      cases run with
      | invalid | openFailed => exact wellFormed
      | opened accepted windows => exact windows.wellFormed wellFormed
    have header : after.hdrRecords 0 = records :=
      UInt64.toNat_inj.mp kept.header
    refine ⟨after.records records.toNat, ?_, length_slice _ _ _, ?_⟩
    · rw [view_eq, header, if_pos kept.size.ge]
    · rintro rfl
      obtain ⟨perm, ordered⟩ := run.perm threads wellFormed
      rw [same] at perm
      have numbers := perm.map fun record => record.recno.toNat
      rw [map_recno_genRecord few] at numbers
      exact ⟨perm, numbers, ordered.trans
        ⟨.congr same, .congr same.symm⟩⟩
  · intro cut
    obtain ⟨short, unreadable⟩ := gen_short generated cut
    have size : file.size = written := by
      obtain ⟨_, _, rfl, _⟩ := exists_filled generated
      rfl
    have refused : after = file ∧ (code = 0 → file.size = 0) := by
      cases run with
      | invalid | openFailed =>
          exact ⟨rfl, fun zero => absurd zero Nat.one_ne_zero⟩
      | opened accepted windows => exact windows.refused short
    obtain ⟨rfl, empty⟩ := refused
    exact ⟨rfl, size ▸ empty, unreadable⟩

/-- The time marks of five records; the last one is where it belongs. -/
def fiveMarks (index : Nat) : UInt64 :=
  [3, 1, 0, 2, 9].getD index 0

/-- The file of these records. -/
def fiveFile : IndexFile where
  size := 88
  word := arrived 88 ((List.range 5).foldl
    (fun word index => setIdx word index (genRecord fiveMarks index))
    (Function.update (fun _ => 0) 0 5))

/-- Five records are generated, sorted by one worker and listed. -/
theorem fiveFile_listed :
    ∃ after, ∃ listed : List IndexS,
      gen 5 fiveMarks (some fun _ => 0) 88 = some fiveFile ∧
      SortIndex markQsort oneWorker 4096 fiveFile after 0 ∧
      view after = some (.header 5 :: listed.map .entry) ∧
      (listed.map fun record => record.recno.toNat).Perm [1, 2, 3, 4, 5] := by
  have generated : gen 5 fiveMarks (some fun _ => 0) 88 = some fiveFile := rfl
  have executed : ∃ state,
      (pool markQsort (oneWorker.config 5) (fiveFile.idx 0)).run
          (poolStart (oneWorker.config 5) (fiveFile.idx 0))
          (oneWorkerSchedule 33) = some state ∧
        AllReturned state :=
    ⟨_, rfl, by unfold AllReturned; decide⟩
  obtain ⟨state, ran, returned⟩ := executed
  have joined : oneWorker.afterJoin (IndexS.key UInt64.toNat) 5 none
      state.base = some state.base := rfl
  have run : SortIndex markQsort oneWorker 4096 fiveFile
      (fiveFile.store 0 fiveFile.size state.base) 0 :=
    sortIndex_of_pool (by decide) rfl (by decide) (by decide)
      (.run (.initial rfl) ran) returned joined
  obtain ⟨listed, lines, -, sorted⟩ := (generated_file_listed markQsort
    oneWorker 4096 (by decide) 5 88 fiveMarks _ fiveFile _ 0 generated run).1
      rfl
  exact ⟨_, listed, generated, run, lines, (sorted rfl).2.1⟩

end IndexSort
end OSaSP
