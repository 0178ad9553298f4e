import Mathlib.Data.List.Basic
import Mathlib.Data.Nat.ModEq
import Mathlib.Logic.Function.Basic

/-!
# Windows of a ring of slots

A ring is a memory of slots read modulo a capacity.  The window of length
`count` that starts at `start` lists the slots `start`, `start + 1`, … in that
order, wrapping at the capacity.  A first-in first-out buffer stores its
contents in such a window: taking from the front shortens it on the left,
adding at the back writes the first slot behind it, and copying it to the
beginning of another memory leaves its contents alone.
-/

namespace OSaSP
namespace Ring

variable {Cell : Type u}

/-- The `count` slots from `start` on, wrapping at `capacity`. -/
def window
    (memory : Nat → Cell)
    (capacity start count : Nat) : List Cell :=
  (List.range count).map fun offset => memory ((start + offset) % capacity)

@[simp] theorem length_window
    (memory : Nat → Cell)
    (capacity start count : Nat) :
    (window memory capacity start count).length = count := by
  simp [window]

/-- The slot just behind a window extends it on the right. -/
theorem window_succ
    (memory : Nat → Cell)
    (capacity start count : Nat) :
    window memory capacity start (count + 1) =
      window memory capacity start count ++
        [memory ((start + count) % capacity)] := by
  simp [window, List.range_succ]

/-- A nonempty window begins with the slot it starts at. -/
theorem window_succ_eq_cons
    (memory : Nat → Cell)
    (capacity start count : Nat) :
    window memory capacity start (count + 1) =
      memory (start % capacity) ::
        window memory capacity (start + 1) count := by
  simp only [window, List.range_succ_eq_map, List.map_cons, List.map_map,
    Nat.add_zero, List.cons.injEq, true_and]
  apply List.map_congr_left
  intro offset _
  simp only [Function.comp_apply]
  congr 2
  omega

/-- Only the start's residue modulo the capacity matters. -/
theorem window_congr_start
    (memory : Nat → Cell)
    {capacity left right : Nat}
    (count : Nat)
    (equal : left % capacity = right % capacity) :
    window memory capacity left count =
      window memory capacity right count := by
  apply List.map_congr_left
  intro offset _
  rw [Nat.add_mod left, equal, ← Nat.add_mod]

/-- A window depends only on the slots it reads. -/
theorem window_congr
    {left right : Nat → Cell}
    {capacity start count : Nat}
    (agree : ∀ offset < count,
      left ((start + offset) % capacity) =
        right ((start + offset) % capacity)) :
    window left capacity start count =
      window right capacity start count := by
  apply List.map_congr_left
  intro offset member
  exact agree offset (List.mem_range.mp member)

/-- Two offsets inside one capacity never name the same slot. -/
theorem slot_injective
    {capacity start left right : Nat}
    (leftBound : left < capacity)
    (rightBound : right < capacity)
    (same : (start + left) % capacity = (start + right) % capacity) :
    left = right := by
  have congruent : left % capacity = right % capacity :=
    Nat.ModEq.add_left_cancel' start same
  rwa [Nat.mod_eq_of_lt leftBound, Nat.mod_eq_of_lt rightBound] at congruent

/-- Writing the slot behind a window that does not fill the ring leaves the
window alone. -/
theorem window_update_behind
    (memory : Nat → Cell)
    {capacity start count : Nat}
    (room : count < capacity)
    (value : Cell) :
    window (Function.update memory ((start + count) % capacity) value)
        capacity start count =
      window memory capacity start count := by
  apply window_congr
  intro offset inside
  apply Function.update_of_ne
  intro same
  have equal := slot_injective (by omega) room same
  omega

/-- Writing the slot behind a window that does not fill the ring appends the
written value. -/
theorem window_enqueue
    (memory : Nat → Cell)
    {capacity start count : Nat}
    (room : count < capacity)
    (value : Cell) :
    window (Function.update memory ((start + count) % capacity) value)
        capacity start (count + 1) =
      window memory capacity start count ++ [value] := by
  rw [window_succ, window_update_behind memory room, Function.update_self]

/-- A copy that puts the window's slots at the beginning of another ring has
the same contents there. -/
theorem window_straighten
    {source target : Nat → Cell}
    {capacity start count newCapacity : Nat}
    (fits : count ≤ newCapacity)
    (copied : ∀ offset < count,
      target offset = source ((start + offset) % capacity)) :
    window target newCapacity 0 count =
      window source capacity start count := by
  apply List.map_congr_left
  intro offset member
  have inside := List.mem_range.mp member
  rw [Nat.zero_add, Nat.mod_eq_of_lt (Nat.lt_of_lt_of_le inside fits)]
  exact copied offset inside

end Ring
end OSaSP
