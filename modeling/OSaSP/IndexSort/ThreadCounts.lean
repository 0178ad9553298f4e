import OSaSP.IndexSort.Serial
import OSaSP.IndexSort.SortIndex

/-!
# Thread counts

The workers leave the same records whatever their number and their schedule.
The number of threads matters in one place only: with more than one of them
main merges the two halves of every window once more, and a merge exchanges
records with equal time marks.
-/

namespace OSaSP
namespace IndexSort

open Segment

/-! ## Runs in which nothing fails -/

section Program

variable {Key : Type} [LinearOrder Key] {decode : UInt64 → Key}
  (qsort : Qsort (IndexS.key decode)) (args : Arguments)

/-- The loop over the windows when every mapping and every allocation
succeeds. -/
inductive Undisturbed : UInt64 → IndexFile → IndexFile → Prop
  | finished
      {offset : UInt64}
      {file : IndexFile}
      (last : ¬offset < file.size) :
      Undisturbed offset file file
  | tooSmall
      {offset : UInt64}
      {file : IndexFile}
      (inside : offset < file.size)
      (notEmpty : args.windowSize file offset ≠ 0)
      (tooSmall :
        needed (file.hdrRecords offset) > args.windowSize file offset) :
      Undisturbed offset file file
  | sorted
      {offset : UInt64}
      {file after : IndexFile}
      {state : PoolState IndexS}
      {allocation : Option (Nat → IndexS)}
      {base : Nat → IndexS}
      (mapped : Mapped qsort args file offset state)
      (returned : AllReturned state)
      (merged : args.afterJoin (IndexS.key decode)
        (file.hdrRecords offset).toNat allocation state.base = some base)
      (rest : Undisturbed (offset + args.windowSize file offset)
        (file.store offset (args.windowSize file offset) base) after) :
      Undisturbed offset file after

/-- Every window that fits is replaced by what `transform` makes of its
records, up to the first one that does not fit. -/
inductive Sweep
    (transform : Nat → (Nat → IndexS) → Nat → IndexS) :
    UInt64 → IndexFile → IndexFile → Prop
  | finished
      {offset : UInt64}
      {file : IndexFile}
      (last : ¬offset < file.size) :
      Sweep transform offset file file
  | tooSmall
      {offset : UInt64}
      {file : IndexFile}
      (inside : offset < file.size)
      (notEmpty : args.windowSize file offset ≠ 0)
      (tooSmall :
        needed (file.hdrRecords offset) > args.windowSize file offset) :
      Sweep transform offset file file
  | window
      {offset : UInt64}
      {file after : IndexFile}
      (inside : offset < file.size)
      (notEmpty : args.windowSize file offset ≠ 0)
      (fits : ¬needed (file.hdrRecords offset) > args.windowSize file offset)
      (rest : Sweep transform (offset + args.windowSize file offset)
        (file.store offset (args.windowSize file offset)
          (transform (file.hdrRecords offset).toNat (file.idx offset)))
        after) :
      Sweep transform offset file after

end Program

section Runs

variable {Key : Type} [LinearOrder Key] {decode : UInt64 → Key}
  {qsort : Qsort (IndexS.key decode)} {args : Arguments}
  {file after : IndexFile} {offset : UInt64}

/-- A run in which nothing fails is a run. -/
theorem Undisturbed.windows
    (run : Undisturbed qsort args offset file after) :
    ∃ code, Windows qsort args offset file after code := by
  induction run with
  | finished last => exact ⟨0, .finished last⟩
  | tooSmall inside notEmpty tooSmall =>
      exact ⟨1, .tooSmall inside notEmpty tooSmall⟩
  | sorted mapped returned merged _ inductionHypothesis =>
      obtain ⟨code, rest⟩ := inductionHypothesis
      exact ⟨code, .sorted mapped returned merged rest⟩

/-- Nothing fails in a run that exits with 0. -/
theorem Windows.undisturbed
    {code : Nat}
    (windows : Windows qsort args offset file after code)
    (succeeded : code = 0) :
    Undisturbed qsort args offset file after := by
  induction windows with
  | finished last => exact .finished last
  | mmapFailed | tooSmall | workerFailed | mergeFailed => cases succeeded
  | sorted mapped returned merged _ inductionHypothesis =>
      exact .sorted mapped returned merged (inductionHypothesis succeeded)

/-- A sweep leaves one file only. -/
theorem Sweep.unique
    {transform : Nat → (Nat → IndexS) → Nat → IndexS}
    {other : IndexFile}
    (sweep : Sweep args transform offset file after)
    (again : Sweep args transform offset file other) :
    after = other := by
  induction sweep with
  | finished last =>
      cases again with
      | finished => rfl
      | tooSmall inside | window inside => exact absurd inside last
  | tooSmall inside notEmpty tooSmall =>
      cases again with
      | finished last => exact absurd inside last
      | tooSmall => rfl
      | window _ _ fits => exact absurd tooSmall fits
  | window inside notEmpty fits _ inductionHypothesis =>
      cases again with
      | finished last => exact absurd inside last
      | tooSmall _ _ tooSmall => exact absurd tooSmall fits
      | window _ _ _ rest => exact inductionHypothesis rest

end Runs

/-! ## What main adds -/

section FinalMerge

variable {Record Key : Type} [LinearOrder Key] {timeMark : Record → Key}

/-- The merge of the two halves of `total` records. -/
def mergeHalves
    (timeMark : Record → Key)
    (total : Nat)
    (base : Nat → Record) : Nat → Record :=
  overwrite base 0
    (mergeLists timeMark (slice base 0 (total / 2))
      (slice base (total / 2) (total - total / 2)))

/-- A single record is not moved. -/
theorem mergeHalves_of_le_one
    {total : Nat}
    (short : total ≤ 1)
    (base : Nat → Record) :
    mergeHalves timeMark total base = base := by
  have left : total / 2 = 0 := by omega
  rw [mergeHalves, left, slice_zero, mergeLists_nil_left]
  exact overwrite_slice base 0 _

/-- Main merges the halves when it had more than one worker. -/
theorem afterJoin_eq
    {args : Arguments}
    {total : Nat}
    {allocation : Option (Nat → Record)}
    {base merged : Nat → Record}
    (blocks : args.blocks > 1)
    (joined : args.afterJoin timeMark total allocation base = some merged) :
    merged =
      if args.threads > 1 then mergeHalves timeMark total base else base := by
  unfold Arguments.afterJoin at joined
  by_cases several : args.threads > 1
  · rw [if_pos ⟨several, blocks⟩] at joined
    rw [if_pos several]
    dsimp only at joined
    rw [Nat.sub_zero] at joined
    split at joined
    · obtain ⟨tmp, -, rfl⟩ := Option.map_eq_some_iff.mp joined
      have written := slice_merge timeMark tmp base (total / 2)
        (fun index => base (total / 2 + index)) (total - total / 2)
      rw [slice_offset] at written
      rw [written]
      rfl
    · cases joined
      exact (mergeHalves_of_le_one (by omega) base).symm
  · rw [if_neg fun both => several both.1] at joined
    rw [if_neg several]
    exact (Option.some.inj joined).symm

end FinalMerge

section Sweeps

variable {Key : Type} [LinearOrder Key] {decode : UInt64 → Key}
  {qsort : Qsort (IndexS.key decode)} {args : Arguments}
  {file after : IndexFile} {offset : UInt64}

/-- What a run makes of the records of a window. -/
def Arguments.sortWindow
    (args : Arguments)
    (qsort : Qsort (IndexS.key decode))
    (total : Nat)
    (base : Nat → IndexS) : Nat → IndexS :=
  let sorted := serialSort qsort (args.config total) base
  if args.threads > 1 then mergeHalves (IndexS.key decode) total sorted
  else sorted

/-- A run in which nothing fails depends on nothing but the file and the
arguments. -/
theorem Undisturbed.sweep
    {pageSize : UInt64}
    (accepted : ¬args.Invalid pageSize)
    (threads : 1 ≤ args.threads)
    (run : Undisturbed qsort args offset file after) :
    Sweep args (args.sortWindow qsort) offset file after := by
  obtain ⟨four, levels, blocksEq⟩ :=
    Arguments.blocks_eq_two_pow accepted threads
  induction run with
  | finished last => exact .finished last
  | tooSmall inside notEmpty tooSmall =>
      exact .tooSmall inside notEmpty tooSmall
  | @sorted offset file after state allocation base mapped returned merged _
      inductionHypothesis =>
      have blocks : (args.config (file.hdrRecords offset).toNat).blocks =
          2 ^ levels := blocksEq
      have sorted := base_eq_serialSort blocks
        (Arguments.threads_pos threads _) mapped.reachable returned
      have base_eq : base = args.sortWindow qsort
          (file.hdrRecords offset).toNat (file.idx offset) := by
        rw [afterJoin_eq (by omega) merged, sorted]
        rfl
      rw [base_eq] at inductionHypothesis
      exact .window mapped.inside mapped.notEmpty mapped.fits
        inductionHypothesis

/-- Another number of threads, with the other arguments kept. -/
def Arguments.withThreads (args : Arguments) (threads : Int) : Arguments :=
  { args with threads }

/-- The number of threads decides nothing about the windows. -/
theorem Sweep.of_withThreads
    {threads : Int}
    {transform : Nat → (Nat → IndexS) → Nat → IndexS}
    (sweep : Sweep (args.withThreads threads) transform offset file after) :
    Sweep args transform offset file after := by
  induction sweep with
  | finished last => exact .finished last
  | tooSmall inside notEmpty tooSmall =>
      exact .tooSmall inside notEmpty tooSmall
  | window inside notEmpty fits _ inductionHypothesis =>
      exact .window inside notEmpty fits inductionHypothesis

/-- One worker leaves what the workers have sorted. -/
theorem sortWindow_one (args : Arguments) :
    (args.withThreads 1).sortWindow qsort =
      fun total => serialSort qsort (args.config total) := by
  funext total base
  unfold Arguments.sortWindow
  apply if_neg
  exact Int.lt_irrefl 1

/-- With several workers main merges the halves once more. -/
theorem sortWindow_several
    {threads : Int}
    (several : threads > 1) :
    (args.withThreads threads).sortWindow qsort =
      fun total base => mergeHalves (IndexS.key decode) total
        (serialSort qsort (args.config total) base) := by
  funext total base
  unfold Arguments.sortWindow
  apply if_pos
  exact several

/-- For every file, every schedule and any two admitted numbers of threads: if
both are one, or neither is, the runs leave the same file.  If the first one is
one and the second one is not, then in every window the second run leaves the
records of the first one with their two halves merged once more. -/
theorem threadCounts_agree
    (qsort : Qsort (IndexS.key decode))
    (args : Arguments)
    (pageSize : UInt64)
    (first second : Int)
    (firstPositive : 1 ≤ first)
    (secondPositive : 1 ≤ second)
    (firstAccepted : ¬(args.withThreads first).Invalid pageSize)
    (secondAccepted : ¬(args.withThreads second).Invalid pageSize)
    (file afterFirst afterSecond : IndexFile)
    (firstRun :
      Undisturbed qsort (args.withThreads first) 0 file afterFirst)
    (secondRun :
      Undisturbed qsort (args.withThreads second) 0 file afterSecond) :
    ((first = 1 ↔ second = 1) → afterFirst = afterSecond) ∧
      (first = 1 → second ≠ 1 →
        Sweep args (fun total => serialSort qsort (args.config total)) 0 file
            afterFirst ∧
          Sweep args
            (fun total base => mergeHalves (IndexS.key decode) total
              (serialSort qsort (args.config total) base)) 0 file
            afterSecond) := by
  have firstSweep :=
    (firstRun.sweep firstAccepted firstPositive).of_withThreads
  have secondSweep :=
    (secondRun.sweep secondAccepted secondPositive).of_withThreads
  constructor
  · intro alike
    by_cases one : first = 1
    · rw [one] at firstSweep
      rw [alike.mp one] at secondSweep
      exact firstSweep.unique secondSweep
    · have notOne : second ≠ 1 := fun same => one (alike.mpr same)
      rw [sortWindow_several (by omega)] at firstSweep secondSweep
      exact firstSweep.unique secondSweep
  · intro one notOne
    rw [one, sortWindow_one] at firstSweep
    rw [sortWindow_several (by omega)] at secondSweep
    exact ⟨firstSweep, secondSweep⟩

/-- A run that exits with 0 is one in which nothing fails. -/
theorem SortIndex.undisturbed
    {pageSize : UInt64}
    (run : SortIndex qsort args pageSize file after 0) :
    Undisturbed qsort args 0 file after := by
  generalize codeEq : (0 : Nat) = code at run
  cases run with
  | invalid | openFailed => exact absurd codeEq (by decide)
  | opened _ windows => exact windows.undisturbed codeEq.symm

end Sweeps

/-! ## Two equal time marks on eight blocks -/

/-- One page and eight blocks. -/
def eightBlocks (threads : Int) : Arguments where
  memsize := 4096
  blocks := 8
  threads := threads

/-- The turns of two workers: the first one sorts, searches and merges. -/
def equalMarksTurns : List Nat :=
  [1, 0] ++ List.replicate 18 0 ++ List.replicate 3 1 ++
    ([4, 2, 1].flatMap fun pairs =>
      [0, 1, 0, 1, 0, 1, 0, 1] ++ List.replicate (2 * pairs + 2) 0 ++ [1, 1]) ++
    [0, 1]

/-- The workers on two records with the same mark, in the given turns. -/
def equalMarksRun
    (threads : Int)
    (turns : List Nat) : Option (PoolState IndexS) :=
  let config := (eightBlocks threads).config 2
  let base := (fileOf [7, 7]).idx 0
  (pool markQsort config base).run (poolStart config base)
    (turns.map fun id => ⟨id, some fun _ => ⟨0, 0⟩⟩)

/-- The program around such a run. -/
theorem sortIndex_of_equalMarksRun
    {threads : Int}
    {turns : List Nat}
    {state : PoolState IndexS}
    {base : Nat → IndexS}
    (accepted : ¬(eightBlocks threads).Invalid 4096)
    (ran : equalMarksRun threads turns = some state)
    (returned : AllReturned state)
    (joined : (eightBlocks threads).afterJoin (IndexS.key UInt64.toNat) 2
      (some fun _ => ⟨0, 0⟩) state.base = some base) :
    SortIndex markQsort (eightBlocks threads) 4096 (fileOf [7, 7])
      ((fileOf [7, 7]).store 0 (fileOf [7, 7]).size base) 0 := by
  apply sortIndex_of_pool accepted rfl (by decide) (by decide) ?_ returned
    joined
  exact Machine.Reachable.run (.initial rfl) ran

/-- One worker leaves the two records as they are. -/
theorem oneWorker_keeps :
    ∃ after, SortIndex markQsort (eightBlocks 1) 4096 (fileOf [7, 7]) after 0 ∧
      after.records 2 = [⟨7, 1⟩, ⟨7, 2⟩] := by
  have executed : ∃ state, equalMarksRun 1 (List.replicate 52 0) = some state ∧
      AllReturned state ∧ slice state.base 0 2 = [⟨7, 1⟩, ⟨7, 2⟩] :=
    ⟨_, rfl, by unfold AllReturned; decide, rfl⟩
  obtain ⟨state, ran, returned, records⟩ := executed
  have wellFormed : (fileOf [7, 7]).WellFormed 2 := ⟨rfl, rfl⟩
  refine ⟨_, sortIndex_of_equalMarksRun (by decide) ran returned rfl, ?_⟩
  rw [wellFormed.records_store]
  exact records

/-- Two workers exchange them. -/
theorem twoWorkers_exchange :
    ∃ after, SortIndex markQsort (eightBlocks 2) 4096 (fileOf [7, 7]) after 0 ∧
      after.records 2 = [⟨7, 2⟩, ⟨7, 1⟩] := by
  have executed : ∃ state, equalMarksRun 2 equalMarksTurns = some state ∧
      AllReturned state ∧ ∃ base,
        (eightBlocks 2).afterJoin (IndexS.key UInt64.toNat) 2
          (some fun _ => ⟨0, 0⟩) state.base = some base ∧
        slice base 0 2 = [⟨7, 2⟩, ⟨7, 1⟩] :=
    ⟨_, rfl, by unfold AllReturned; decide, _, rfl, rfl⟩
  obtain ⟨state, ran, returned, base, joined, records⟩ := executed
  have wellFormed : (fileOf [7, 7]).WellFormed 2 := ⟨rfl, rfl⟩
  refine ⟨_, sortIndex_of_equalMarksRun (by decide) ran returned joined, ?_⟩
  rw [wellFormed.records_store]
  exact records

/-- The two runs side by side. -/
theorem twoCounts_agree :
    ∃ afterFirst afterSecond,
      Undisturbed markQsort (eightBlocks 1) 0 (fileOf [7, 7]) afterFirst ∧
        Undisturbed markQsort (eightBlocks 2) 0 (fileOf [7, 7]) afterSecond ∧
        Sweep (eightBlocks 1)
          (fun total => serialSort markQsort ((eightBlocks 1).config total)) 0
          (fileOf [7, 7]) afterFirst := by
  obtain ⟨afterFirst, firstRun, -⟩ := oneWorker_keeps
  obtain ⟨afterSecond, secondRun, -⟩ := twoWorkers_exchange
  have agreed := threadCounts_agree markQsort (eightBlocks 1) 4096 1 2
    (by decide) (by decide) (by decide) (by decide) (fileOf [7, 7]) afterFirst
    afterSecond firstRun.undisturbed secondRun.undisturbed
  exact ⟨afterFirst, afterSecond, firstRun.undisturbed,
    secondRun.undisturbed, (agreed.2 rfl (by decide)).1⟩

/-- The last merge exchanges two records with the same mark. -/
theorem not_every_count_same :
    ¬∀ (args : Arguments) (first second : Int) (file : IndexFile)
        (afterFirst afterSecond : IndexFile),
      1 ≤ first → 1 ≤ second →
        SortIndex markQsort (args.withThreads first) 4096 file afterFirst 0 →
          SortIndex markQsort (args.withThreads second) 4096 file afterSecond
              0 →
            ∀ count, afterFirst.records count = afterSecond.records count := by
  intro every
  obtain ⟨afterFirst, firstRun, firstRecords⟩ := oneWorker_keeps
  obtain ⟨afterSecond, secondRun, secondRecords⟩ := twoWorkers_exchange
  have same := every (eightBlocks 1) 1 2 (fileOf [7, 7]) afterFirst
    afterSecond (by decide) (by decide) firstRun secondRun 2
  rw [firstRecords, secondRecords] at same
  exact absurd same (by decide)

end IndexSort
end OSaSP
