import OSaSP.Foundations.Segment
import Mathlib.Order.Lattice

/-!
# The merge of `sort_index`

`merge` is the three loops of the source over array indices.  The result is the
list merge of the two inputs that prefers the second input on equal keys, so
the library's facts about merging lists carry over.
-/

namespace OSaSP
namespace IndexSort

open Segment

variable {Record Key : Type} [LinearOrder Key] (timeMark : Record → Key)

/-- `compare`: the sign of the difference of two time marks. -/
def compare (left right : Record) : Int :=
  (if timeMark left > timeMark right then 1 else 0) -
    (if timeMark left < timeMark right then 1 else 0)

/-- `compare` puts the smaller time mark first. -/
theorem compare_nonpos_iff (left right : Record) :
    compare timeMark left right ≤ 0 ↔ timeMark left ≤ timeMark right := by
  unfold compare
  rcases lt_trichotomy (timeMark left) (timeMark right) with
    less | equal | greater
  · simp [less, le_of_lt less, not_lt_of_gt less]
  · simp [equal]
  · simp [greater, not_le_of_gt greater, not_lt_of_gt greater]

/-- The variables of `merge` with the indices read and written so far. -/
structure Merging (Record : Type) where
  dst : Nat → Record
  i : Nat
  j : Nat
  k : Nat
  readsA : List Nat
  readsB : List Nat
  writes : List Nat

namespace Merging

/-- `dst[k++] = a[i++]`. -/
def takeA (a : Nat → Record) (merging : Merging Record) : Merging Record :=
  { merging with
    dst := Function.update merging.dst merging.k (a merging.i)
    i := merging.i + 1
    k := merging.k + 1
    readsA := merging.readsA ++ [merging.i]
    writes := merging.writes ++ [merging.k] }

/-- `dst[k++] = b[j++]`. -/
def takeB (b : Nat → Record) (merging : Merging Record) : Merging Record :=
  { merging with
    dst := Function.update merging.dst merging.k (b merging.j)
    j := merging.j + 1
    k := merging.k + 1
    readsB := merging.readsB ++ [merging.j]
    writes := merging.writes ++ [merging.k] }

/-- One round of the first loop, which also reads both records to compare
them. -/
def round (a b : Nat → Record) (merging : Merging Record) : Merging Record :=
  let read := { merging with
    readsA := merging.readsA ++ [merging.i]
    readsB := merging.readsB ++ [merging.j] }
  if timeMark (a merging.i) < timeMark (b merging.j) then read.takeA a
  else read.takeB b

/-- `while (i < na && j < nb)`, for at most `fuel` rounds. -/
def bothLoop
    (a : Nat → Record)
    (na : Nat)
    (b : Nat → Record)
    (nb : Nat) : Nat → Merging Record → Merging Record
  | 0, merging => merging
  | fuel + 1, merging =>
      if merging.i < na ∧ merging.j < nb then
        bothLoop a na b nb fuel (round timeMark a b merging)
      else merging

/-- `while (i < na)`, for at most `fuel` rounds. -/
def loopA
    (a : Nat → Record)
    (na : Nat) : Nat → Merging Record → Merging Record
  | 0, merging => merging
  | fuel + 1, merging =>
      if merging.i < na then loopA a na fuel (merging.takeA a) else merging

/-- `while (j < nb)`, for at most `fuel` rounds. -/
def loopB
    (b : Nat → Record)
    (nb : Nat) : Nat → Merging Record → Merging Record
  | 0, merging => merging
  | fuel + 1, merging =>
      if merging.j < nb then loopB b nb fuel (merging.takeB b) else merging

end Merging

/-- The three loops of `merge`, each with fuel for as many rounds as its input
allows. -/
def mergeLoops
    (dst a : Nat → Record)
    (na : Nat)
    (b : Nat → Record)
    (nb : Nat) : Merging Record :=
  let merging := Merging.bothLoop timeMark a na b nb (na + nb)
    ⟨dst, 0, 0, 0, [], [], []⟩
  Merging.loopB b nb nb (Merging.loopA a na na merging)

/-- `merge`: the array `dst` afterwards. -/
def merge
    (dst a : Nat → Record)
    (na : Nat)
    (b : Nat → Record)
    (nb : Nat) : Nat → Record :=
  (mergeLoops timeMark dst a na b nb).dst

/-- The list that `merge` produces: on equal time marks the second input comes
first. -/
def mergeLists (a b : List Record) : List Record :=
  List.merge b a fun right left => decide (timeMark right ≤ timeMark left)

/-! ## The three loops compute the list -/

namespace Merging

/-- What has been written so far followed by the merge of what is left. -/
def outcome
    (a : Nat → Record)
    (na : Nat)
    (b : Nat → Record)
    (nb : Nat)
    (merging : Merging Record) : List Record :=
  slice merging.dst 0 merging.k ++
    mergeLists timeMark (slice a merging.i (na - merging.i))
      (slice b merging.j (nb - merging.j))

/-- The indices stay inside the inputs and `k` counts what was taken. -/
structure InRange (na nb : Nat) (merging : Merging Record) : Prop where
  i : merging.i ≤ na
  j : merging.j ≤ nb
  k : merging.k = merging.i + merging.j

theorem slice_update_behind
    (dst : Nat → Record)
    (k : Nat)
    (record : Record) :
    slice (Function.update dst k record) 0 (k + 1) =
      slice dst 0 k ++ [record] := by
  rw [slice_succ, Nat.zero_add, Function.update_self]
  congr 1
  apply slice_congr
  intro index _ inside
  exact Function.update_of_ne (by omega) _ _

end Merging

section Lists

variable {timeMark}

/-- With `a` first strictly smaller, the merge takes it. -/
theorem mergeLists_cons_of_lt
    {left right : Record}
    (smaller : timeMark left < timeMark right)
    (a b : List Record) :
    mergeLists timeMark (left :: a) (right :: b) =
      left :: mergeLists timeMark a (right :: b) := by
  unfold mergeLists
  rw [List.cons_merge_cons_neg _ _ _ (by simpa using smaller)]

/-- Otherwise the merge takes the first of `b`. -/
theorem mergeLists_cons_of_not_lt
    {left right : Record}
    (notSmaller : ¬timeMark left < timeMark right)
    (a b : List Record) :
    mergeLists timeMark (left :: a) (right :: b) =
      right :: mergeLists timeMark (left :: a) b := by
  unfold mergeLists
  rw [List.cons_merge_cons_pos _ _ _ (by simpa using notSmaller)]

@[simp] theorem mergeLists_nil_left (b : List Record) :
    mergeLists timeMark [] b = b := by
  simp [mergeLists]

@[simp] theorem mergeLists_nil_right (a : List Record) :
    mergeLists timeMark a [] = a := by
  simp [mergeLists]

end Lists

namespace Merging

variable {timeMark}
  {a b : Nat → Record}
  {na nb : Nat}
  {merging : Merging Record}

theorem outcome_round
    (inA : merging.i < na)
    (inB : merging.j < nb) :
    (round timeMark a b merging).outcome timeMark a na b nb =
      merging.outcome timeMark a na b nb := by
  obtain ⟨restA, restAEq⟩ : ∃ rest, na - merging.i = rest + 1 :=
    ⟨na - merging.i - 1, by omega⟩
  obtain ⟨restB, restBEq⟩ : ∃ rest, nb - merging.j = rest + 1 :=
    ⟨nb - merging.j - 1, by omega⟩
  unfold outcome round
  dsimp only
  split
  · rename_i smaller
    have left : na - (merging.i + 1) = restA := by omega
    simp only [takeA, slice_update_behind, left, restAEq, restBEq,
      slice_succ_eq_cons a, slice_succ_eq_cons b,
      mergeLists_cons_of_lt smaller, List.append_assoc,
      List.singleton_append]
  · rename_i notSmaller
    have left : nb - (merging.j + 1) = restB := by omega
    simp only [takeB, slice_update_behind, left, restAEq, restBEq,
      slice_succ_eq_cons a, slice_succ_eq_cons b,
      mergeLists_cons_of_not_lt notSmaller,
      List.append_assoc, List.singleton_append]

theorem outcome_takeA
    (inA : merging.i < na)
    (doneB : nb ≤ merging.j) :
    (merging.takeA a).outcome timeMark a na b nb =
      merging.outcome timeMark a na b nb := by
  obtain ⟨restA, restAEq⟩ : ∃ rest, na - merging.i = rest + 1 :=
    ⟨na - merging.i - 1, by omega⟩
  have left : na - (merging.i + 1) = restA := by omega
  have empty : nb - merging.j = 0 := by omega
  simp only [outcome, takeA, slice_update_behind, left, restAEq, empty,
    slice_zero, mergeLists_nil_right, slice_succ_eq_cons a,
    List.append_assoc, List.singleton_append]

theorem outcome_takeB
    (doneA : na ≤ merging.i)
    (inB : merging.j < nb) :
    (merging.takeB b).outcome timeMark a na b nb =
      merging.outcome timeMark a na b nb := by
  obtain ⟨restB, restBEq⟩ : ∃ rest, nb - merging.j = rest + 1 :=
    ⟨nb - merging.j - 1, by omega⟩
  have left : nb - (merging.j + 1) = restB := by omega
  have empty : na - merging.i = 0 := by omega
  simp only [outcome, takeB, slice_update_behind, left, restBEq, empty,
    slice_zero, mergeLists_nil_left, slice_succ_eq_cons b,
    List.append_assoc, List.singleton_append]

theorem InRange.round
    (range : InRange na nb merging)
    (inA : merging.i < na)
    (inB : merging.j < nb) :
    InRange na nb (round timeMark a b merging) := by
  obtain ⟨iBound, jBound, kEq⟩ := range
  unfold Merging.round
  dsimp only
  split
  · exact ⟨inA, jBound, by simp only [takeA]; omega⟩
  · exact ⟨iBound, inB, by simp only [takeB]; omega⟩

theorem InRange.takeA
    (range : InRange na nb merging)
    (inA : merging.i < na) :
    InRange na nb (merging.takeA a) := by
  obtain ⟨iBound, jBound, kEq⟩ := range
  exact ⟨inA, jBound, by simp only [Merging.takeA]; omega⟩

theorem InRange.takeB
    (range : InRange na nb merging)
    (inB : merging.j < nb) :
    InRange na nb (merging.takeB b) := by
  obtain ⟨iBound, jBound, kEq⟩ := range
  exact ⟨iBound, inB, by simp only [Merging.takeB]; omega⟩

/-- With enough fuel the first loop runs until one input is used up. -/
theorem bothLoop_spec
    (timeMark : Record → Key)
    (a b : Nat → Record)
    (fuel : Nat)
    (range : InRange na nb merging)
    (enough : (na - merging.i) + (nb - merging.j) ≤ fuel) :
    let after := bothLoop timeMark a na b nb fuel merging
    InRange na nb after ∧
      (after.i = na ∨ after.j = nb) ∧
      after.outcome timeMark a na b nb =
        merging.outcome timeMark a na b nb := by
  induction fuel generalizing merging with
  | zero =>
      have iBound := range.i
      have jBound := range.j
      exact ⟨range, .inl (by simp only [bothLoop]; omega), rfl⟩
  | succ fuel inductionHypothesis =>
      simp only [bothLoop]
      split
      · rename_i inside
        have taken : (round timeMark a b merging).i +
            (round timeMark a b merging).j = merging.i + merging.j + 1 := by
          unfold Merging.round
          dsimp only
          split <;> simp only [Merging.takeA, Merging.takeB] <;> omega
        have nextRange : InRange na nb (round timeMark a b merging) :=
          range.round inside.1 inside.2
        have iBound := nextRange.i
        have jBound := nextRange.j
        obtain ⟨afterRange, ended, same⟩ :=
          inductionHypothesis nextRange (by omega)
        exact ⟨afterRange, ended,
          same.trans (outcome_round inside.1 inside.2)⟩
      · rename_i ended
        have iBound := range.i
        have jBound := range.j
        exact ⟨range, by omega, rfl⟩

/-- The second loop uses up the first input when the second is used up. -/
theorem loopA_spec
    (timeMark : Record → Key)
    (a b : Nat → Record)
    (fuel : Nat)
    (range : InRange na nb merging)
    (ended : merging.i = na ∨ merging.j = nb)
    (enough : na - merging.i ≤ fuel) :
    let after := loopA a na fuel merging
    InRange na nb after ∧ after.i = na ∧
      after.outcome timeMark a na b nb =
        merging.outcome timeMark a na b nb := by
  induction fuel generalizing merging with
  | zero =>
      have iBound := range.i
      exact ⟨range, by simp only [loopA]; omega, rfl⟩
  | succ fuel inductionHypothesis =>
      simp only [loopA]
      split
      · rename_i inA
        have doneB : merging.j = nb := by omega
        obtain ⟨afterRange, doneA, same⟩ :=
          inductionHypothesis (range.takeA inA) (.inr doneB)
            (by simp only [Merging.takeA]; omega)
        exact ⟨afterRange, doneA,
          same.trans (outcome_takeA inA (Nat.le_of_eq doneB.symm))⟩
      · rename_i doneA
        have iBound := range.i
        exact ⟨range, by omega, rfl⟩

/-- The third loop uses up the second input. -/
theorem loopB_spec
    (timeMark : Record → Key)
    (a b : Nat → Record)
    (fuel : Nat)
    (range : InRange na nb merging)
    (doneA : merging.i = na)
    (enough : nb - merging.j ≤ fuel) :
    let after := loopB b nb fuel merging
    InRange na nb after ∧ after.i = na ∧ after.j = nb ∧
      after.outcome timeMark a na b nb =
        merging.outcome timeMark a na b nb := by
  induction fuel generalizing merging with
  | zero =>
      have jBound := range.j
      exact ⟨range, doneA, by simp only [loopB]; omega, rfl⟩
  | succ fuel inductionHypothesis =>
      simp only [loopB]
      split
      · rename_i inB
        obtain ⟨afterRange, doneA', doneB, same⟩ :=
          inductionHypothesis (range.takeB inB) doneA
            (by simp only [Merging.takeB]; omega)
        exact ⟨afterRange, doneA', doneB,
          same.trans (outcome_takeB (Nat.le_of_eq doneA.symm) inB)⟩
      · rename_i doneB
        have jBound := range.j
        exact ⟨range, doneA, by omega, rfl⟩

end Merging

/-- The first `na + nb` entries of `dst` are the merged list. -/
theorem slice_merge
    (dst a : Nat → Record)
    (na : Nat)
    (b : Nat → Record)
    (nb : Nat) :
    slice (merge timeMark dst a na b nb) 0 (na + nb) =
      mergeLists timeMark (slice a 0 na) (slice b 0 nb) := by
  have start : Merging.InRange na nb
      (⟨dst, 0, 0, 0, [], [], []⟩ : Merging Record) :=
    ⟨Nat.zero_le _, Nat.zero_le _, rfl⟩
  obtain ⟨range, ended, both⟩ :=
    Merging.bothLoop_spec timeMark a b (na + nb) start (by simp)
  obtain ⟨range, doneA, left⟩ :=
    Merging.loopA_spec timeMark a b na range ended (by omega)
  obtain ⟨range, doneA, doneB, right⟩ :=
    Merging.loopB_spec timeMark a b nb range doneA (by omega)
  have written := right.trans (left.trans both)
  have count := range.k
  rw [Merging.outcome, Merging.outcome, doneA, doneB, Nat.sub_self,
    Nat.sub_self, slice_zero, slice_zero, mergeLists_nil_left,
    List.append_nil, count, doneA, doneB] at written
  exact written

/-! ## Sorted lists -/

/-- Nondecreasing in the time marks. -/
def Sorted (records : List Record) : Prop :=
  records.Pairwise fun earlier later => timeMark earlier ≤ timeMark later

theorem mergeLists_perm (a b : List Record) :
    (mergeLists timeMark a b).Perm (a ++ b) :=
  (List.merge_perm_append _).trans List.perm_append_comm

variable {timeMark}

/-- Merging two sorted lists gives a sorted list. -/
theorem Sorted.mergeLists
    {a b : List Record}
    (sortedA : Sorted timeMark a)
    (sortedB : Sorted timeMark b) :
    Sorted timeMark (mergeLists timeMark a b) := by
  have pairwise : (IndexSort.mergeLists timeMark a b).Pairwise
      fun earlier later =>
        decide (timeMark earlier ≤ timeMark later) = true := by
    apply List.pairwise_merge
    · intro first second third
      simpa using le_trans
    · intro first second
      simpa using le_total (timeMark first) (timeMark second)
    · simpa [Sorted] using sortedB
    · simpa [Sorted] using sortedA
  simpa [Sorted] using pairwise

/-- A merge keeps the order of both of its inputs. -/
theorem sublist_mergeLists
    (timeMark : Record → Key)
    (a b : List Record) :
    a.Sublist (mergeLists timeMark a b) ∧
      b.Sublist (mergeLists timeMark a b) := by
  induction a generalizing b with
  | nil =>
      rw [mergeLists_nil_left]
      exact ⟨List.nil_sublist b, List.Sublist.refl b⟩
  | cons left a hypothesisA =>
      induction b with
      | nil =>
          rw [mergeLists_nil_right]
          exact ⟨List.Sublist.refl _, List.nil_sublist _⟩
      | cons right b hypothesisB =>
          by_cases smaller : timeMark left < timeMark right
          · rw [mergeLists_cons_of_lt smaller]
            obtain ⟨inA, inB⟩ := hypothesisA (right :: b)
            exact ⟨inA.cons_cons left, inB.cons left⟩
          · rw [mergeLists_cons_of_not_lt smaller]
            obtain ⟨inA, inB⟩ := hypothesisB
            exact ⟨inA.cons right, inB.cons_cons right⟩

/-- The merge of two lists is sorted exactly when both lists are. -/
theorem sorted_mergeLists_iff (a b : List Record) :
    Sorted timeMark (mergeLists timeMark a b) ↔
      Sorted timeMark a ∧ Sorted timeMark b := by
  constructor
  · intro sorted
    obtain ⟨inA, inB⟩ := sublist_mergeLists timeMark a b
    exact ⟨sorted.sublist inA, sorted.sublist inB⟩
  · rintro ⟨sortedA, sortedB⟩
    exact sortedA.mergeLists sortedB

/-- Order of a range in terms of its indices. -/
theorem sorted_slice_iff (base : Nat → Record) (start count : Nat) :
    Sorted timeMark (slice base start count) ↔
      ∀ first second, start ≤ first → first < second →
        second < start + count →
          timeMark (base first) ≤ timeMark (base second) := by
  unfold Sorted slice
  rw [List.pairwise_map, List.pairwise_iff_getElem]
  simp only [List.length_range, List.getElem_range]
  constructor
  · intro ordered first second lower less upper
    have between := ordered (first - start) (second - start) (by omega)
      (by omega) (by omega)
    rwa [Nat.add_sub_cancel' lower, Nat.add_sub_cancel' (by omega)] at between
  · intro ordered first second _ inside less
    exact ordered _ _ (by omega) (by omega) (by omega)

end IndexSort
end OSaSP
