import OSaSP.IndexSort.Merge

/-!
# What the merge leaves in its output

The loops of `merge` are followed record by record.  A record of either input
goes to one place of the output, so the output is an interleaving of the
inputs, and the first loop's comparison puts the second input first among equal
time marks.
-/

namespace OSaSP
namespace IndexSort

open Segment

variable {Record Key : Type} [LinearOrder Key] {timeMark : Record → Key}

/-- The first `count` records of `source` stand in their order at `place` among
the first `size` entries of `dst`. -/
structure Placed
    (place : Nat → Nat)
    (source : Nat → Record)
    (count : Nat)
    (dst : Nat → Record)
    (size : Nat) : Prop where
  inside : ∀ index < count, place index < size
  value : ∀ index < count, dst (place index) = source index
  ordered : ∀ earlier later, earlier < later → later < count →
    place earlier < place later

/-- The first `size` entries of `dst` are an interleaving of the first `na`
records of `a` and the first `nb` records of `b`. -/
structure Interleaves
    (placeA placeB : Nat → Nat)
    (a : Nat → Record)
    (na : Nat)
    (b : Nat → Record)
    (nb : Nat)
    (dst : Nat → Record)
    (size : Nat) : Prop where
  fromA : Placed placeA a na dst size
  fromB : Placed placeB b nb dst size
  apart : ∀ i < na, ∀ j < nb, placeA i ≠ placeB j
  covered : ∀ k < size, (∃ i < na, placeA i = k) ∨ ∃ j < nb, placeB j = k

/-! ## One record is written behind the others -/

section Placing

variable {place placeA placeB : Nat → Nat}
  {source a b dst : Nat → Record}
  {count na nb size : Nat}

/-- Nothing is placed at the beginning. -/
theorem Placed.empty
    (place : Nat → Nat)
    (source dst : Nat → Record)
    (size : Nat) :
    Placed place source 0 dst size where
  inside index within := absurd within (Nat.not_lt_zero index)
  value index within := absurd within (Nat.not_lt_zero index)
  ordered _ later _ within := absurd within (Nat.not_lt_zero later)

theorem Placed.keep
    (placed : Placed place source count dst size)
    (record : Record) :
    Placed place source count (Function.update dst size record)
      (size + 1) where
  inside index within := Nat.lt_succ_of_lt (placed.inside index within)
  value index within := by
    rw [Function.update_of_ne (Nat.ne_of_lt (placed.inside index within))]
    exact placed.value index within
  ordered := placed.ordered

theorem Placed.add (placed : Placed place source count dst size) :
    Placed (Function.update place count size) source (count + 1)
      (Function.update dst size (source count)) (size + 1) where
  inside index within := by
    by_cases last : index = count
    · rw [last, Function.update_self]
      exact Nat.lt_succ_self size
    · rw [Function.update_of_ne last]
      exact Nat.lt_succ_of_lt (placed.inside index (by omega))
  value index within := by
    by_cases last : index = count
    · rw [last, Function.update_self, Function.update_self]
    · rw [Function.update_of_ne last]
      exact (placed.keep _).value index (by omega)
  ordered earlier later less within := by
    rw [Function.update_of_ne (show earlier ≠ count by omega)]
    by_cases last : later = count
    · rw [last, Function.update_self]
      exact placed.inside earlier (by omega)
    · rw [Function.update_of_ne last]
      exact placed.ordered earlier later less (by omega)

/-- The two inputs of an interleaving may change their roles. -/
theorem Interleaves.symm
    (interleaves : Interleaves placeA placeB a na b nb dst size) :
    Interleaves placeB placeA b nb a na dst size where
  fromA := interleaves.fromB
  fromB := interleaves.fromA
  apart j inB i inA := (interleaves.apart i inA j inB).symm
  covered k inside := (interleaves.covered k inside).symm

theorem Interleaves.empty
    (placeA placeB : Nat → Nat)
    (a b dst : Nat → Record) :
    Interleaves placeA placeB a 0 b 0 dst 0 where
  fromA := Placed.empty placeA a dst 0
  fromB := Placed.empty placeB b dst 0
  apart i inA := absurd inA (Nat.not_lt_zero i)
  covered k inside := absurd inside (Nat.not_lt_zero k)

theorem Interleaves.addA
    (interleaves : Interleaves placeA placeB a na b nb dst size) :
    Interleaves (Function.update placeA na size) placeB a (na + 1) b nb
      (Function.update dst size (a na)) (size + 1) where
  fromA := interleaves.fromA.add
  fromB := interleaves.fromB.keep _
  apart i inA j inB := by
    by_cases last : i = na
    · rw [last, Function.update_self]
      exact (Nat.ne_of_lt (interleaves.fromB.inside j inB)).symm
    · rw [Function.update_of_ne last]
      exact interleaves.apart i (by omega) j inB
  covered k inside := by
    by_cases last : k = size
    · exact .inl ⟨na, Nat.lt_succ_self na, by rw [Function.update_self, last]⟩
    · apply (interleaves.covered k (by omega)).imp_left
      rintro ⟨i, inA, place⟩
      refine ⟨i, Nat.lt_succ_of_lt inA, ?_⟩
      rwa [Function.update_of_ne (Nat.ne_of_lt inA)]

theorem Interleaves.addB
    (interleaves : Interleaves placeA placeB a na b nb dst size) :
    Interleaves placeA (Function.update placeB nb size) a na b (nb + 1)
      (Function.update dst size (b nb)) (size + 1) :=
  interleaves.symm.addA.symm

end Placing

/-! ## The loops -/

/-- What holds of the variables of `merge` at every test of its loops.  A
record of `b` that equals one already taken from `a` was taken before it. -/
structure Merging.Progress
    (timeMark : Record → Key)
    (dst a : Nat → Record)
    (na : Nat)
    (b : Nat → Record)
    (nb : Nat)
    (merging : Merging Record) : Prop where
  range : Merging.InRange na nb merging
  writes : merging.writes = List.range merging.k
  readsA : ∀ index ∈ merging.readsA, index < na
  readsB : ∀ index ∈ merging.readsB, index < nb
  behind : ∀ index, merging.k ≤ index → merging.dst index = dst index
  interleaved : ∃ placeA placeB,
    Interleaves placeA placeB a merging.i b merging.j merging.dst
      merging.k ∧
      (Sorted timeMark (slice b 0 nb) →
        ∀ i < merging.i, ∀ j < nb, timeMark (a i) = timeMark (b j) →
          j < merging.j ∧ placeB j < placeA i)

namespace Merging

variable {dst a b : Nat → Record}
  {na nb : Nat}
  {merging : Merging Record}

theorem Progress.start :
    Progress timeMark dst a na b nb
      (⟨dst, 0, 0, 0, [], [], []⟩ : Merging Record) where
  range := ⟨Nat.zero_le na, Nat.zero_le nb, rfl⟩
  writes := rfl
  readsA _ member := absurd member List.not_mem_nil
  readsB _ member := absurd member List.not_mem_nil
  behind _ _ := rfl
  interleaved := by
    refine ⟨id, id, Interleaves.empty id id a b dst, ?_⟩
    intro _ i taken
    exact absurd taken (Nat.not_lt_zero i)

/-- One more index inside the input is read. -/
theorem below_append
    {reads : List Nat}
    {bound last : Nat}
    (below : ∀ index ∈ reads, index < bound)
    (inside : last < bound) :
    ∀ index ∈ reads ++ [last], index < bound :=
  List.forall_mem_append.mpr ⟨below, List.forall_mem_singleton.mpr inside⟩

/-- The comparison of the first loop only reads. -/
theorem Progress.read
    (progress : Progress timeMark dst a na b nb merging)
    (inA : merging.i < na)
    (inB : merging.j < nb) :
    Progress timeMark dst a na b nb
      { merging with
        readsA := merging.readsA ++ [merging.i]
        readsB := merging.readsB ++ [merging.j] } where
  range := ⟨progress.range.i, progress.range.j, progress.range.k⟩
  writes := progress.writes
  readsA := below_append progress.readsA inA
  readsB := below_append progress.readsB inB
  behind := progress.behind
  interleaved := progress.interleaved

/-- A record of `a` is only taken when the next of `b` is greater. -/
theorem Progress.takeA
    (progress : Progress timeMark dst a na b nb merging)
    (inA : merging.i < na)
    (smaller : merging.j < nb →
      timeMark (a merging.i) < timeMark (b merging.j)) :
    Progress timeMark dst a na b nb (merging.takeA a) where
  range := progress.range.takeA inA
  writes := by
    simp only [Merging.takeA]
    rw [progress.writes, List.range_succ]
  readsA := below_append progress.readsA inA
  readsB := progress.readsB
  behind index above := by
    simp only [Merging.takeA] at above ⊢
    rw [Function.update_of_ne (by omega)]
    exact progress.behind index (by omega)
  interleaved := by
    obtain ⟨placeA, placeB, interleaves, equalKeys⟩ := progress.interleaved
    refine ⟨_, placeB, interleaves.addA, ?_⟩
    intro sortedB i taken j inB equal
    by_cases last : i = merging.i
    · -- Behind a greater record of a sorted `b` nothing equals this one.
      have before : j < merging.j := by
        by_contra behind
        have less := smaller (by omega)
        have ordered : timeMark (b merging.j) ≤ timeMark (b j) := by
          rcases Nat.lt_or_eq_of_le (Nat.le_of_not_lt behind) with
            later | same
          · exact (sorted_slice_iff b 0 nb).mp sortedB _ _ (Nat.zero_le _)
              later (by omega)
          · rw [same]
        rw [last] at equal
        rw [equal] at less
        exact absurd less (not_lt_of_ge ordered)
      refine ⟨before, ?_⟩
      rw [last, Function.update_self]
      exact interleaves.fromB.inside j before
    · rw [Function.update_of_ne last]
      simp only [Merging.takeA] at taken ⊢
      exact equalKeys sortedB i (by omega) j inB equal

/-- Nothing already taken from `a` equals a record taken from `b` now. -/
theorem Progress.takeB
    (progress : Progress timeMark dst a na b nb merging)
    (inB : merging.j < nb) :
    Progress timeMark dst a na b nb (merging.takeB b) where
  range := progress.range.takeB inB
  writes := by
    simp only [Merging.takeB]
    rw [progress.writes, List.range_succ]
  readsA := progress.readsA
  readsB := below_append progress.readsB inB
  behind index above := by
    simp only [Merging.takeB] at above ⊢
    rw [Function.update_of_ne (by omega)]
    exact progress.behind index (by omega)
  interleaved := by
    obtain ⟨placeA, placeB, interleaves, equalKeys⟩ := progress.interleaved
    refine ⟨placeA, _, interleaves.addB, ?_⟩
    intro sortedB i taken j inB' equal
    obtain ⟨before, earlier⟩ := equalKeys sortedB i taken j inB' equal
    rw [Function.update_of_ne (Nat.ne_of_lt before)]
    exact ⟨Nat.lt_succ_of_lt before, earlier⟩

theorem Progress.bothLoop
    (fuel : Nat)
    (progress : Progress timeMark dst a na b nb merging) :
    Progress timeMark dst a na b nb
      (bothLoop timeMark a na b nb fuel merging) := by
  induction fuel generalizing merging with
  | zero => exact progress
  | succ fuel inductionHypothesis =>
      simp only [Merging.bothLoop]
      split
      · rename_i inside
        apply inductionHypothesis
        have read := progress.read inside.1 inside.2
        simp only [round]
        split
        · rename_i smaller
          exact read.takeA inside.1 fun _ => smaller
        · exact read.takeB inside.2
      · exact progress

theorem Progress.loopA
    (fuel : Nat)
    (progress : Progress timeMark dst a na b nb merging)
    (ended : merging.i = na ∨ merging.j = nb) :
    Progress timeMark dst a na b nb (loopA a na fuel merging) := by
  induction fuel generalizing merging with
  | zero => exact progress
  | succ fuel inductionHypothesis =>
      simp only [Merging.loopA]
      split
      · rename_i inA
        have doneB : merging.j = nb := by omega
        apply inductionHypothesis
        · apply progress.takeA inA
          intro inB
          omega
        · exact .inr doneB
      · exact progress

theorem Progress.loopB
    (fuel : Nat)
    (progress : Progress timeMark dst a na b nb merging) :
    Progress timeMark dst a na b nb (loopB b nb fuel merging) := by
  induction fuel generalizing merging with
  | zero => exact progress
  | succ fuel inductionHypothesis =>
      simp only [Merging.loopB]
      split
      · rename_i inB
        exact inductionHypothesis (progress.takeB inB)
      · exact progress

end Merging

/-- The loops end with both inputs used up. -/
theorem mergeLoops_spec
    (timeMark : Record → Key)
    (dst a : Nat → Record)
    (na : Nat)
    (b : Nat → Record)
    (nb : Nat) :
    (mergeLoops timeMark dst a na b nb).i = na ∧
      (mergeLoops timeMark dst a na b nb).j = nb ∧
      (mergeLoops timeMark dst a na b nb).Progress timeMark dst a na b
        nb := by
  have start : Merging.Progress timeMark dst a na b nb
      (⟨dst, 0, 0, 0, [], [], []⟩ : Merging Record) := Merging.Progress.start
  obtain ⟨range, ended, _⟩ :=
    Merging.bothLoop_spec timeMark a b (na + nb) start.range (by simp)
  obtain ⟨rangeA, doneA, _⟩ :=
    Merging.loopA_spec timeMark a b na range ended (by omega)
  obtain ⟨_, doneA', doneB, _⟩ :=
    Merging.loopB_spec timeMark a b nb rangeA doneA (by omega)
  refine ⟨doneA', doneB, ?_⟩
  apply Merging.Progress.loopB
  apply Merging.Progress.loopA
  · exact start.bothLoop (na + nb)
  · exact ended

/-- What a call of `merge` does: it writes every one of the first `na + nb`
entries of `dst` once and in order, reads inside the inputs, and interleaves
them. -/
structure MergeCorrect
    (timeMark : Record → Key)
    (dst a : Nat → Record)
    (na : Nat)
    (b : Nat → Record)
    (nb : Nat) : Prop where
  writes : (mergeLoops timeMark dst a na b nb).writes = List.range (na + nb)
  untouched : ∀ index, na + nb ≤ index →
    merge timeMark dst a na b nb index = dst index
  readsA : ∀ index ∈ (mergeLoops timeMark dst a na b nb).readsA, index < na
  readsB : ∀ index ∈ (mergeLoops timeMark dst a na b nb).readsB, index < nb
  interleaved : ∃ placeA placeB,
    Interleaves placeA placeB a na b nb (merge timeMark dst a na b nb)
      (na + nb) ∧
      (Sorted timeMark (slice a 0 na) → Sorted timeMark (slice b 0 nb) →
        ∀ i < na, ∀ j < nb, timeMark (a i) = timeMark (b j) →
          placeB j < placeA i)
  sorted : Sorted timeMark (slice a 0 na) → Sorted timeMark (slice b 0 nb) →
    Sorted timeMark (slice (merge timeMark dst a na b nb) 0 (na + nb))

/-- `merge` is correct for all arrays. -/
theorem merge_correct
    (timeMark : Record → Key)
    (dst a : Nat → Record)
    (na : Nat)
    (b : Nat → Record)
    (nb : Nat) :
    MergeCorrect timeMark dst a na b nb := by
  obtain ⟨doneA, doneB, progress⟩ := mergeLoops_spec timeMark dst a na b nb
  have size : (mergeLoops timeMark dst a na b nb).k = na + nb := by
    rw [progress.range.k, doneA, doneB]
  constructor
  · rw [progress.writes, size]
  · intro index above
    exact progress.behind index (by omega)
  · exact progress.readsA
  · exact progress.readsB
  · obtain ⟨placeA, placeB, interleaves, equalKeys⟩ := progress.interleaved
    rw [doneA, doneB, size] at interleaves
    refine ⟨placeA, placeB, interleaves, ?_⟩
    intro _ sortedB i inA j inB equal
    rw [doneA] at equalKeys
    exact (equalKeys sortedB i inA j inB equal).2
  · intro sortedA sortedB
    rw [slice_merge]
    exact sortedA.mergeLists sortedB

end IndexSort
end OSaSP
