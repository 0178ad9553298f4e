import Mathlib.Data.List.Basic
import Mathlib.Logic.Function.Basic

/-!
# Segments of an array

An array is a memory indexed by natural numbers.  `slice` reads a range of
it as a list and `overwrite` puts a list into it.  The lemmas say what is read
back after a write: the written list at its own place, the old cells
elsewhere.
-/

namespace OSaSP
namespace Segment

variable {Cell : Type u}

/-- The `count` cells from `start` on. -/
def slice (memory : Nat → Cell) (start count : Nat) : List Cell :=
  (List.range count).map fun offset => memory (start + offset)

/-- Put a list at `start`. -/
def overwrite
    (memory : Nat → Cell)
    (start : Nat)
    (cells : List Cell) : Nat → Cell :=
  fun index =>
    if start ≤ index then cells.getD (index - start) (memory index)
    else memory index

@[simp] theorem length_slice
    (memory : Nat → Cell)
    (start count : Nat) :
    (slice memory start count).length = count := by
  simp [slice]

@[simp] theorem slice_zero
    (memory : Nat → Cell)
    (start : Nat) :
    slice memory start 0 = [] := rfl

/-- A segment splits wherever one likes. -/
theorem slice_add
    (memory : Nat → Cell)
    (start first second : Nat) :
    slice memory start (first + second) =
      slice memory start first ++
        slice memory (start + first) second := by
  simp only [slice, List.range_add, List.map_append, List.map_map]
  congr 1
  apply List.map_congr_left
  intro offset _
  simp only [Function.comp_apply, Nat.add_assoc]

/-- Equal segments have equal parts. -/
theorem slice_add_inj
    {left right : Nat → Cell}
    {start first second : Nat}
    (same : slice left start (first + second) =
      slice right start (first + second)) :
    slice left start first = slice right start first ∧
      slice left (start + first) second =
        slice right (start + first) second := by
  rw [slice_add, slice_add] at same
  exact List.append_inj same (by rw [length_slice, length_slice])

/-- The front of a segment. -/
theorem take_slice
    (memory : Nat → Cell)
    (start : Nat)
    {front count : Nat}
    (inside : front ≤ count) :
    (slice memory start count).take front = slice memory start front := by
  rw [← Nat.add_sub_cancel' inside, slice_add]
  exact List.take_left' (by simp)

/-- A nonempty segment begins with the cell at its start. -/
theorem slice_succ_eq_cons
    (memory : Nat → Cell)
    (start count : Nat) :
    slice memory start (count + 1) =
      memory start :: slice memory (start + 1) count := by
  rw [Nat.add_comm, slice_add]
  rfl

/-- A segment ends with its last cell. -/
theorem slice_succ
    (memory : Nat → Cell)
    (start count : Nat) :
    slice memory start (count + 1) =
      slice memory start count ++ [memory (start + count)] := by
  rw [slice_add]
  rfl

/-- A segment depends only on the cells it reads. -/
theorem slice_congr
    {left right : Nat → Cell}
    {start count : Nat}
    (agree : ∀ index, start ≤ index → index < start + count →
      left index = right index) :
    slice left start count = slice right start count := by
  apply List.map_congr_left
  intro offset member
  have inside := List.mem_range.mp member
  exact agree _ (by omega) (by omega)

/-- A segment of an array seen from an offset on. -/
theorem slice_offset
    (memory : Nat → Cell)
    (start count : Nat) :
    slice (fun index => memory (start + index)) 0 count =
      slice memory start count := by
  simp [slice]

/-- The cells of a segment. -/
theorem mem_slice
    {memory : Nat → Cell}
    {start count : Nat}
    {cell : Cell} :
    cell ∈ slice memory start count ↔
      ∃ index, start ≤ index ∧ index < start + count ∧
        memory index = cell := by
  simp only [slice, List.mem_map, List.mem_range]
  constructor
  · rintro ⟨offset, inside, equal⟩
    exact ⟨start + offset, by omega, by omega, equal⟩
  · rintro ⟨index, lower, upper, equal⟩
    refine ⟨index - start, by omega, ?_⟩
    rw [Nat.add_sub_cancel' lower]
    exact equal

theorem getElem?_slice
    (memory : Nat → Cell)
    (start : Nat)
    {count offset : Nat}
    (inside : offset < count) :
    (slice memory start count)[offset]? = some (memory (start + offset)) := by
  simp [slice, inside]

/-- Cells outside the written list keep their value. -/
theorem overwrite_outside
    (memory : Nat → Cell)
    {start index : Nat}
    {cells : List Cell}
    (outside : index < start ∨ start + cells.length ≤ index) :
    overwrite memory start cells index = memory index := by
  unfold overwrite
  split
  · rw [List.getD_eq_getElem?_getD, List.getElem?_eq_none (by omega)]
    rfl
  · rfl

/-- The written list is read back. -/
theorem slice_overwrite
    (memory : Nat → Cell)
    (start : Nat)
    (cells : List Cell) :
    slice (overwrite memory start cells) start cells.length = cells := by
  apply List.ext_getElem?
  intro offset
  by_cases inside : offset < cells.length
  · rw [getElem?_slice _ _ inside, overwrite, if_pos (by omega),
      Nat.add_sub_cancel_left, List.getD_eq_getElem?_getD,
      List.getElem?_eq_getElem inside]
    rfl
  · rw [List.getElem?_eq_none (by simpa using inside),
      List.getElem?_eq_none (by omega)]

/-- The written list is read back at its own length. -/
theorem slice_overwrite_of_length
    (memory : Nat → Cell)
    (start : Nat)
    {cells : List Cell}
    {count : Nat}
    (length : cells.length = count) :
    slice (overwrite memory start cells) start count = cells := by
  subst length
  exact slice_overwrite memory start cells

/-- A segment apart from the written list is left alone. -/
theorem slice_overwrite_apart
    (memory : Nat → Cell)
    {start other count : Nat}
    {cells : List Cell}
    (apart : other + count ≤ start ∨ start + cells.length ≤ other) :
    slice (overwrite memory start cells) other count =
      slice memory other count := by
  apply slice_congr
  intro index lower upper
  apply overwrite_outside
  omega

/-- An empty list writes nothing. -/
@[simp] theorem overwrite_nil
    (memory : Nat → Cell)
    (start : Nat) :
    overwrite memory start [] = memory := by
  funext index
  apply overwrite_outside
  rw [List.length_nil]
  omega

/-- What is there already writes nothing, either. -/
theorem overwrite_slice
    (memory : Nat → Cell)
    (start count : Nat) :
    overwrite memory start (slice memory start count) = memory := by
  funext index
  by_cases inside : start ≤ index ∧ index < start + count
  · rw [overwrite, if_pos inside.1, List.getD_eq_getElem?_getD,
      getElem?_slice memory start (by omega), Nat.add_sub_cancel' inside.1]
    rfl
  · apply overwrite_outside
    rw [length_slice]
    omega

/-- What is read inside the written list is not from the memory below. -/
theorem overwrite_inside
    (left right : Nat → Cell)
    {start index : Nat}
    {cells : List Cell}
    (lower : start ≤ index)
    (upper : index < start + cells.length) :
    overwrite left start cells index = overwrite right start cells index := by
  rw [overwrite, overwrite, if_pos lower, if_pos lower,
    List.getD_eq_getElem?_getD, List.getD_eq_getElem?_getD,
    List.getElem?_eq_getElem (by omega)]
  rfl

/-- Lists written apart from each other may be written in either order. -/
theorem overwrite_comm
    (memory : Nat → Cell)
    {first second : Nat}
    {firstCells secondCells : List Cell}
    (apart : first + firstCells.length ≤ second ∨
      second + secondCells.length ≤ first) :
    overwrite (overwrite memory first firstCells) second secondCells =
      overwrite (overwrite memory second secondCells) first firstCells := by
  funext index
  by_cases inFirst : first ≤ index ∧ index < first + firstCells.length
  · rw [overwrite_outside _ (by omega)]
    exact overwrite_inside _ _ inFirst.1 inFirst.2
  by_cases inSecond : second ≤ index ∧ index < second + secondCells.length
  · rw [overwrite_outside (overwrite memory second secondCells) (by omega)]
    exact overwrite_inside _ _ inSecond.1 inSecond.2
  · rw [overwrite_outside _ (by omega), overwrite_outside _ (by omega),
      overwrite_outside _ (by omega), overwrite_outside _ (by omega)]

/-- One cell is replaced. -/
theorem slice_update
    (memory : Nat → Cell)
    (index : Nat)
    (cell : Cell)
    (count : Nat) :
    slice (Function.update memory index cell) 0 count =
      (slice memory 0 count).set index cell := by
  apply List.ext_getElem?
  intro other
  rw [List.getElem?_set, length_slice]
  by_cases inside : other < count
  · rw [getElem?_slice _ _ inside, getElem?_slice _ _ inside,
      Nat.zero_add]
    by_cases same : index = other
    · subst same
      rw [if_pos rfl, if_pos inside, Function.update_self]
    · rw [if_neg same, Function.update_of_ne (Ne.symm same)]
  · rw [List.getElem?_eq_none (by simpa using inside),
      List.getElem?_eq_none (by simpa using inside)]
    by_cases same : index = other
    · rw [if_pos same, if_neg (by omega)]
    · rw [if_neg same]

/-! ## Closing a gap -/

/-- `for (j = start; j < last; j++) memory[j] = memory[j + 1]`, for at most
`fuel` rounds. -/
def shiftLoop
    (last : Nat) : Nat → Nat → (Nat → Cell) → Nat → Cell
  | 0, _, memory => memory
  | fuel + 1, j, memory =>
      if j < last then
        shiftLoop last fuel (j + 1)
          (Function.update memory j (memory (j + 1)))
      else memory

/-- The cells between the start and `last` move down by one. -/
theorem shiftLoop_apply
    (last : Nat)
    {fuel start : Nat}
    (memory : Nat → Cell)
    (enough : last ≤ start + fuel)
    (index : Nat) :
    shiftLoop last fuel start memory index =
      if start ≤ index ∧ index < last then memory (index + 1)
      else memory index := by
  induction fuel generalizing start memory with
  | zero =>
      rw [shiftLoop, if_neg (by omega)]
  | succ fuel inductionHypothesis =>
      rw [shiftLoop]
      by_cases more : start < last
      · rw [if_pos more, inductionHypothesis _ (by omega)]
        by_cases later : start + 1 ≤ index ∧ index < last
        · rw [if_pos later, Function.update_of_ne (by omega),
            if_pos (by omega)]
        rw [if_neg later]
        by_cases same : index = start
        · subst same
          rw [Function.update_self, if_pos ⟨Nat.le_refl index, more⟩]
        · rw [Function.update_of_ne same, if_neg (by omega)]
      · rw [if_neg more, if_neg (by omega)]

/-- What is read of the cells moves with them. -/
theorem shiftLoop_comp
    {Other : Type v}
    (read : Cell → Other)
    {last fuel start : Nat}
    (memory : Nat → Cell)
    (enough : last ≤ start + fuel) :
    (fun index => read (shiftLoop last fuel start memory index)) =
      shiftLoop last fuel start fun index => read (memory index) := by
  funext index
  rw [shiftLoop_apply _ _ enough, shiftLoop_apply _ _ enough]
  exact apply_ite read _ _ _

/-- Moving the cells behind `start` down erases the cell at `start`. -/
theorem slice_shiftLoop
    {last fuel start : Nat}
    (memory : Nat → Cell)
    (inside : start ≤ last)
    (enough : last ≤ start + fuel) :
    slice (shiftLoop last fuel start memory) 0 last =
      (slice memory 0 (last + 1)).eraseIdx start := by
  apply List.ext_getElem?
  intro index
  rw [List.getElem?_eraseIdx]
  by_cases below : index < last
  · rw [getElem?_slice _ _ below, Nat.zero_add,
      shiftLoop_apply last memory enough]
    by_cases front : index < start
    · rw [if_neg (by omega), if_pos front, getElem?_slice _ _ (by omega),
        Nat.zero_add]
    · rw [if_pos (by omega), if_neg front, getElem?_slice _ _ (by omega),
        Nat.zero_add]
  · rw [List.getElem?_eq_none (by simpa using below), if_neg (by omega),
      List.getElem?_eq_none (by simpa using below)]

end Segment
end OSaSP
