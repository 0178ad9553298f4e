import OSaSP.ProcessManager.Parent

/-!
# What the handler does to the array

One round of the handler erases the reaped process id from the array, moves
nothing in front of it and nothing behind the last entry.  At most places of the
main program this is just what the main program can bear.  `Reapable` names the
exceptions: the places where the main program holds a copy of the array, an
index or a gap that the round would make wrong.
-/

namespace OSaSP
namespace ProcessManager

open Segment

namespace State

variable {state : State} {pid idx : Nat}

@[simp] theorem length_pids (state : State) :
    state.pids.length = state.size :=
  length_slice _ _ _

/-- The array is cut where the search stops. -/
theorem pids_of_found
    (found : state.findProcessIndexByPid pid = some idx) :
    idx < state.size ∧
      ∃ front back, state.pids = front ++ pid :: back ∧
        front.length = idx ∧ pid ∉ front := by
  unfold findProcessIndexByPid at found
  rw [List.find?_range_eq_some] at found
  obtain ⟨matching, member, earlier⟩ := found
  have inside := List.mem_range.mp member
  refine ⟨inside, slice (fun index => (state.table index).pid) 0 idx,
    slice (fun index => (state.table index).pid) (idx + 1)
      (state.size - (idx + 1)), ?_, length_slice _ _ _, ?_⟩
  · have split := slice_add (fun index => (state.table index).pid) 0 idx
      (state.size - (idx + 1) + 1)
    have total : idx + (state.size - (idx + 1) + 1) = state.size := by omega
    rw [total, Nat.zero_add, slice_succ_eq_cons, beq_iff_eq.mp matching]
      at split
    exact split
  · intro inFront
    obtain ⟨index, -, below, equal⟩ := mem_slice.mp inFront
    have different := earlier index (by omega)
    rw [equal, beq_self_eq_true] at different
    cases different

theorem not_mem_pids_of_not_found
    (notFound : state.findProcessIndexByPid pid = none) :
    pid ∉ state.pids := by
  unfold findProcessIndexByPid at notFound
  rw [List.find?_range_eq_none] at notFound
  intro member
  obtain ⟨index, -, below, equal⟩ := mem_slice.mp member
  have different := notFound index (by omega)
  rw [equal, beq_self_eq_true] at different
  cases different

theorem pred_of_pos {size : Nat} (positive : 0 < size) :
    pred size = size - 1 :=
  if_neg (by omega)

@[simp] theorem size_decrement (state : State) :
    state.decrement.size = pred state.size := rfl

/-- Entries inside the block are used without harm. -/
theorem inBounds_touch
    {indices : List Nat}
    (inside : ∀ index ∈ indices, index < state.room) :
    (state.touch indices).inBounds = state.inBounds := by
  have all : (indices.all fun index => decide (index < state.room)) =
      true := by
    rw [List.all_eq_true]
    intro index member
    exact decide_eq_true (inside index member)
  rw [touch, all, Bool.and_true]

/-- What one round of the handler does. -/
structure Handled (state : State) (pid : Nat) (next : State) : Prop where
  pids : next.pids = state.pids.erase pid
  size_le : next.size ≤ state.size
  unlisted : pid ∉ state.pids →
    next.size = state.size ∧ next.table = state.table
  front : ∀ index, pid ∉ state.pids.take (index + 1) →
    next.table index = state.table index
  behind : ∀ index, state.size ≤ index + 1 →
    next.table index = state.table index
  capacity : next.capacity = state.capacity
  place : next.place = state.place
  alive : next.alive = state.alive
  zombies : next.zombies = state.zombies.erase pid
  expected : next.expected = state.expected.erase pid
  inBounds : state.size ≤ state.room →
    next.inBounds = state.inBounds
  wrapped : next.wrapped = state.wrapped

/-- One round of the handler. -/
theorem handled (state : State) (pid : Nat) :
    Handled state pid (state.handle pid) := by
  have pidsEq : (state.reaped pid).pids = state.pids := rfl
  unfold handle
  dsimp only
  cases found : (state.reaped pid).findProcessIndexByPid pid with
  | none =>
      have absent := not_mem_pids_of_not_found found
      rw [pidsEq] at absent
      refine ⟨(List.erase_of_not_mem absent).symm, Nat.le_refl _,
        fun _ => ⟨rfl, rfl⟩, fun _ _ => rfl, fun _ _ => rfl, rfl, rfl, rfl, rfl,
        rfl, ?_, rfl⟩
      intro fits
      exact inBounds_touch fun index member =>
        Nat.lt_of_lt_of_le (List.mem_range.mp member) fits
  | some idx =>
      obtain ⟨inside, front, back, split, length, notInFront⟩ :=
        pids_of_found found
      rw [pidsEq] at split
      have inside : idx < state.size := inside
      have last := pred_of_pos (Nat.zero_lt_of_lt inside)
      have total : state.size - 1 + 1 = state.size := by omega
      have moved := slice_shiftLoop
        (fun index => (state.table index).pid)
        (by omega : idx ≤ pred state.size)
        (by omega : pred state.size ≤ idx + state.size)
      rw [← shiftLoop_comp ProcessInfo.pid state.table (by omega), last,
        total] at moved
      refine ⟨?_, ?_, ?_, ?_, ?_, rfl, rfl, rfl, rfl, rfl, ?_, ?_⟩
      · change slice (fun index =>
          (shiftLoop (pred state.size) state.size idx state.table index).pid) 0
            (pred state.size) = state.pids.erase pid
        rw [last, moved]
        change state.pids.eraseIdx idx = state.pids.erase pid
        rw [split, List.erase_append_right _ notInFront,
          List.erase_cons_head, ← length,
          List.eraseIdx_append_of_length_le (Nat.le_refl _), Nat.sub_self]
        rfl
      · change pred state.size ≤ state.size
        omega
      · intro absent
        exact absurd (by rw [split]; simp) absent
      · intro index notBefore
        have before : index < idx := by
          apply Nat.lt_of_not_ge
          intro passed
          apply notBefore
          rw [split, List.mem_iff_getElem?]
          refine ⟨idx, ?_⟩
          rw [List.getElem?_take_of_lt (by omega), ← length,
            List.getElem?_append_right (Nat.le_refl _), Nat.sub_self]
          rfl
        change shiftLoop (pred state.size) state.size idx state.table index = _
        rw [shiftLoop_apply _ _ (by omega), if_neg (by omega)]
      · intro index behind
        change shiftLoop (pred state.size) state.size idx state.table index = _
        rw [shiftLoop_apply _ _ (by omega), if_neg (by omega)]
      · intro fits
        have used : ((state.reaped pid).touch
            (List.range state.size)).inBounds =
            (state.reaped pid).inBounds :=
          inBounds_touch fun index member =>
            Nat.lt_of_lt_of_le (List.mem_range.mp member) fits
        exact used
      · change (state.wrapped || state.size == 0) = state.wrapped
        have notZero : (state.size == 0) = false := by
          rw [beq_eq_false_iff_ne]
          omega
        rw [notZero, Bool.or_false]

/-- The rounds of the handler stay at the place of the main program. -/
theorem place_signalHandler (state : State) (pids : List Nat) :
    (signalHandler pids state).place = state.place := by
  induction pids generalizing state with
  | nil => rfl
  | cons pid pids inductionHypothesis =>
      exact (inductionHypothesis (state.handle pid)).trans
        (handled state pid).place

/-- The handler never adds an entry. -/
theorem size_signalHandler (state : State) (pids : List Nat) :
    (signalHandler pids state).size ≤ state.size := by
  induction pids generalizing state with
  | nil => exact Nat.le_refl _
  | cons pid pids inductionHypothesis =>
      exact (inductionHypothesis (state.handle pid)).trans
        (handled state pid).size_le

end State

end ProcessManager
end OSaSP
