import OSaSP.IndexSort.Workers
import Mathlib.Algebra.Order.Ring.Nat

/-!
# Blocks, pairs and their ranges

With `blocks = 2 ^ levels` the ranges that one phase hands out are the blocks,
or the pairs of neighbouring runs of one merge level.  Inside the layout the
source's cuts at the number of records change nothing, because only whole
blocks are ever touched.
-/

namespace OSaSP
namespace IndexSort

/-! ## The search for an unclaimed entry -/

/-- A claimed entry was free, lies in the range of the search and is reached
in strides. -/
theorem claimLoop_eq_some
    {map : Nat → Bool}
    {blocks ahead stride fuel i block : Nat}
    (found : claimLoop map blocks ahead stride fuel i = some block) :
    map block = false ∧ block + ahead < blocks ∧
      ∃ strides, block = i + strides * stride := by
  induction fuel generalizing i with
  | zero => cases found
  | succ fuel inductionHypothesis =>
      unfold claimLoop at found
      split at found
      · rename_i inside
        split at found
        · obtain ⟨free, bound, strides, rfl⟩ := inductionHypothesis found
          exact ⟨free, bound, strides + 1, by rw [Nat.succ_mul]; omega⟩
        · rename_i free
          rw [Bool.not_eq_true] at free
          cases found
          exact ⟨free, inside, 0, by omega⟩
      · cases found

/-- When the search finds nothing, every entry it passes is claimed. -/
theorem claimLoop_eq_none
    {map : Nat → Bool}
    {blocks ahead stride fuel i : Nat}
    (positive : 0 < stride)
    (enough : blocks ≤ i + fuel)
    (missing : claimLoop map blocks ahead stride fuel i = none)
    (strides : Nat)
    (inside : i + strides * stride + ahead < blocks) :
    map (i + strides * stride) = true := by
  induction fuel generalizing i strides with
  | zero => omega
  | succ fuel inductionHypothesis =>
      unfold claimLoop at missing
      split at missing
      · split at missing
        · rename_i claimed
          cases strides with
          | zero => simpa using claimed
          | succ strides =>
              have shift : i + (strides + 1) * stride =
                  i + stride + strides * stride := by
                rw [Nat.succ_mul]
                omega
              rw [shift] at inside ⊢
              exact inductionHypothesis (by omega) missing strides inside
        · cases missing
      · omega

/-! ## Ranges -/

/-- The first block of a pair of runs of length `2 ^ level`. -/
def IsPair (levels level block : Nat) : Prop :=
  block % 2 ^ (level + 1) = 0 ∧ block + 2 ^ level < 2 ^ levels

/-- A multiple of a divisor of the bound leaves room for one more stride. -/
theorem add_stride_le
    {levels level block : Nat}
    (below : level ≤ levels)
    (aligned : block % 2 ^ level = 0)
    (inside : block < 2 ^ levels) :
    block + 2 ^ level ≤ 2 ^ levels := by
  obtain ⟨first, rfl⟩ := Nat.dvd_of_mod_eq_zero aligned
  obtain ⟨all, allEq⟩ := Nat.pow_dvd_pow 2 below
  rw [allEq] at inside ⊢
  have fewer : first < all := Nat.lt_of_mul_lt_mul_left inside
  calc 2 ^ level * first + 2 ^ level = 2 ^ level * (first + 1) := by
        rw [Nat.mul_succ]
    _ ≤ 2 ^ level * all := Nat.mul_le_mul_left _ fewer

/-- Different multiples of a stride are at least one stride apart. -/
theorem stride_apart
    {stride left right : Nat}
    (leftAligned : left % stride = 0)
    (rightAligned : right % stride = 0)
    (different : left ≠ right) :
    left + stride ≤ right ∨ right + stride ≤ left := by
  obtain ⟨first, rfl⟩ := Nat.dvd_of_mod_eq_zero leftAligned
  obtain ⟨second, rfl⟩ := Nat.dvd_of_mod_eq_zero rightAligned
  rcases Nat.lt_trichotomy first second with less | rfl | greater
  · left
    rw [← Nat.mul_succ]
    exact Nat.mul_le_mul_left _ less
  · exact absurd rfl different
  · right
    rw [← Nat.mul_succ]
    exact Nat.mul_le_mul_left _ greater

theorem IsPair.room
    {levels level block : Nat}
    (pair : IsPair levels level block)
    (below : level < levels) :
    block + 2 ^ (level + 1) ≤ 2 ^ levels :=
  add_stride_le below pair.1 (Nat.lt_of_le_of_lt (Nat.le_add_right _ _) pair.2)

/-- Both runs of a pair are aligned. -/
theorem IsPair.aligned
    {levels level block : Nat}
    (pair : IsPair levels level block) :
    block % 2 ^ level = 0 ∧ (block + 2 ^ level) % 2 ^ level = 0 := by
  have divides : 2 ^ level ∣ block :=
    (Nat.pow_dvd_pow 2 (Nat.le_succ level)).trans
      (Nat.dvd_of_mod_eq_zero pair.1)
  rw [Nat.add_mod_right]
  exact ⟨Nat.mod_eq_zero_of_dvd divides, Nat.mod_eq_zero_of_dvd divides⟩

/-- The search of a merge level claims a free pair. -/
theorem claimLoop_isPair
    {map : Nat → Bool}
    {levels level fuel block : Nat}
    (found : claimLoop map (2 ^ levels) (2 ^ level) (2 ^ level * 2) fuel 0 =
      some block) :
    map block = false ∧ IsPair levels level block := by
  obtain ⟨free, inside, strides, rfl⟩ := claimLoop_eq_some found
  refine ⟨free, ?_, inside⟩
  rw [Nat.zero_add, Nat.pow_succ]
  exact Nat.mul_mod_left _ _

/-- When it finds none, every pair of the level is claimed. -/
theorem IsPair.claimed
    {map : Nat → Bool}
    {levels level fuel block : Nat}
    (pair : IsPair levels level block)
    (enough : 2 ^ levels ≤ fuel)
    (missing : claimLoop map (2 ^ levels) (2 ^ level) (2 ^ level * 2) fuel 0 =
      none) :
    map block = true := by
  obtain ⟨strides, rfl⟩ := Nat.dvd_of_mod_eq_zero pair.1
  have claimed := claimLoop_eq_none
    (Nat.mul_pos (Nat.two_pow_pos level) Nat.two_pos)
    (Nat.le_trans enough (Nat.le_add_left _ _)) missing strides
  rw [Nat.zero_add, ← Nat.pow_succ, Nat.mul_comm strides] at claimed
  exact claimed pair.2

namespace Config

variable {config : Config} {levels : Nat}

/-- The records of the whole blocks. -/
def blockRecords (config : Config) : Nat :=
  config.blocks * config.recsPerBlock

theorem blockRecords_le (config : Config) :
    config.blockRecords ≤ config.records :=
  Nat.mul_div_le _ _

/-- A boundary of a whole block is not cut. -/
theorem clamp_eq
    {block : Nat}
    (inside : block ≤ config.blocks) :
    config.clamp block = block * config.recsPerBlock := by
  have bound : block * config.recsPerBlock ≤ config.records :=
    (Nat.mul_le_mul_right _ inside).trans config.blockRecords_le
  rw [clamp, if_neg (by omega)]

/-- A whole block is not cut. -/
theorem count_eq
    {block : Nat}
    (inside : block < config.blocks) :
    config.count block = config.recsPerBlock := by
  have bound : (block + 1) * config.recsPerBlock ≤ config.records :=
    (Nat.mul_le_mul_right _ inside).trans config.blockRecords_le
  rw [Nat.succ_mul] at bound
  rw [count, offset, if_neg (by omega)]

/-- Both runs of a pair have their full length. -/
theorem pair_counts
    (blocksEq : config.blocks = 2 ^ levels)
    {level block : Nat}
    (below : level < levels)
    (pair : IsPair levels level block) :
    config.n1 (2 ^ level) block = 2 ^ level * config.recsPerBlock ∧
      config.n2 (2 ^ level) block = 2 ^ level * config.recsPerBlock ∧
      config.clamp (block + 2 ^ level) =
        config.left block + 2 ^ level * config.recsPerBlock := by
  have room := pair.room below
  rw [Nat.pow_succ] at room
  have mid : config.clamp (block + 2 ^ level) =
      (block + 2 ^ level) * config.recsPerBlock :=
    clamp_eq (by omega)
  have right : config.clamp (block + 2 ^ level * 2) =
      (block + 2 ^ level * 2) * config.recsPerBlock :=
    clamp_eq (by omega)
  rw [n1, n2, mid, right, left, Nat.add_mul, Nat.add_mul, Nat.mul_right_comm]
  refine ⟨by omega, by omega, rfl⟩

end Config

end IndexSort
end OSaSP
