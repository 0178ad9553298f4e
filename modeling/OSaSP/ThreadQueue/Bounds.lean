import OSaSP.ThreadQueue.SemMoves
import OSaSP.ThreadQueue.CondMoves

/-!
# Bounds of the queues of the thread version

A resize request fixes its target in one critical section and a consumer
applies it in a later one.  The target stays five away from the capacity in
between, since nothing else changes either of them, so the capacity runs
through positive multiples of five.
-/

namespace OSaSP
namespace ThreadQueue

/-- The counters of a queue fit its buffer and agree with each other. -/
structure CircularQueue.Bounded (queue : CircularQueue) : Prop where
  capacityPositive : 0 < queue.capacity
  capacityMultiple : 5 ∣ queue.capacity
  countBound : queue.count ≤ queue.capacity
  headBound : queue.head < queue.capacity
  totals : (queue.totalAdded : Int) - queue.totalExtracted = queue.count

/-- The target of a pending request is five away from the capacity and
positive. -/
structure CircularQueue.Aimed (queue : CircularQueue) : Prop where
  increase : queue.resizeRequest = .increase →
    queue.newCapacityRequest = queue.capacity + 5
  decrease : queue.resizeRequest = .decrease →
    queue.newCapacityRequest = queue.capacity - 5 ∧
      0 < queue.newCapacityRequest

/-- From one state to the next every successful resize moves the capacity five
up or down, as the pending request says, and nothing else moves it. -/
def ResizesByFive
    (queue : CircularQueue)
    (history : History)
    (next : CircularQueue)
    (record : History) : Prop :=
  ∃ recorded,
    record.events = history.events ++ recorded ∧
      (∀ capacity count, .resized capacity count ∈ recorded →
        next.capacity = capacity ∧
          (queue.resizeRequest = .increase ∧
              capacity = queue.capacity + 5 ∨
            queue.resizeRequest = .decrease ∧
              capacity + 5 = queue.capacity)) ∧
      ((∀ capacity count, .resized capacity count ∉ recorded) →
        next.capacity = queue.capacity)

namespace CircularQueue

variable {queue next : CircularQueue} {history record : History}
  {occasion : Occasion} {allocates : Prop}

theorem Bounded.init
    {size : Nat}
    (positive : 0 < size)
    (multiple : 5 ∣ size)
    (block : Nat → MessagePtr) :
    (CircularQueue.init size block).Bounded :=
  ⟨positive, multiple, Nat.zero_le _, positive, rfl⟩

theorem Aimed.init (size : Nat) (block : Nat → MessagePtr) :
    (CircularQueue.init size block).Aimed :=
  ⟨by simp [CircularQueue.init], by simp [CircularQueue.init]⟩

/-- A request only changes the request. -/
theorem Bounded.request (bounded : queue.Bounded) (op : ResizeOp) :
    (queue.request op).Bounded := by
  obtain ⟨request, target, requested⟩ := queue.request_eq op
  obtain ⟨positive, multiple, count, head, totals⟩ := bounded
  rw [requested]
  exact ⟨positive, multiple, count, head, totals⟩

theorem Aimed.request
    (aimed : queue.Aimed)
    (op : ResizeOp) :
    (queue.request op).Aimed := by
  unfold CircularQueue.request
  cases op with
  | plus => exact ⟨fun _ => rfl, by simp⟩
  | minus =>
      dsimp only
      split
      · exact aimed
      · rename_i positive
        rw [and_iff_left rfl, not_le] at positive
        exact ⟨by simp, fun _ => ⟨rfl, positive⟩⟩

theorem Bounded.insert
    (bounded : queue.Bounded)
    (notFull : queue.count ≠ queue.capacity)
    (msg : MessagePtr) :
    (queue.insert msg).Bounded where
  capacityPositive := bounded.capacityPositive
  capacityMultiple := bounded.capacityMultiple
  countBound := by
    have bound := bounded.countBound
    change queue.count + 1 ≤ queue.capacity
    omega
  headBound := bounded.headBound
  totals := by
    have totals := bounded.totals
    change ((queue.totalAdded + 1 : Nat) : Int) - queue.totalExtracted =
      (queue.count + 1 : Nat)
    omega

theorem Bounded.extract
    (bounded : queue.Bounded)
    (stored : queue.count ≠ 0) :
    queue.extract.Bounded where
  capacityPositive := bounded.capacityPositive
  capacityMultiple := bounded.capacityMultiple
  countBound := (Nat.sub_le _ _).trans bounded.countBound
  headBound := Nat.mod_lt _ bounded.capacityPositive
  totals := by
    have totals := bounded.totals
    change (queue.totalAdded : Int) - (queue.totalExtracted + 1 : Nat) =
      (queue.count - 1 : Nat)
    omega

/-- The target of a pending request is positive and five away. -/
theorem Aimed.target
    (aimed : queue.Aimed)
    (pending : queue.resizeRequest ≠ .none) :
    queue.resizeRequest = .increase ∧
        queue.newCapacityRequest.toNat = queue.capacity + 5 ∨
      queue.resizeRequest = .decrease ∧
        0 < queue.newCapacityRequest.toNat ∧
        queue.newCapacityRequest.toNat + 5 = queue.capacity := by
  cases request : queue.resizeRequest with
  | none => exact absurd request pending
  | increase =>
      have target := aimed.increase request
      exact .inl ⟨rfl, by omega⟩
  | decrease =>
      obtain ⟨target, positive⟩ := aimed.decrease request
      exact .inr ⟨rfl, by omega, by omega⟩

/-- Serving a request keeps the bounds. -/
theorem Bounded.serve
    (bounded : queue.Bounded)
    (aimed : queue.Aimed)
    (pending : queue.resizeRequest ≠ .none)
    (served : ServeMove allocates queue history next record) :
    next.Bounded := by
  cases served with
  | declined =>
      exact ⟨bounded.capacityPositive, bounded.capacityMultiple,
        bounded.countBound, bounded.headBound, bounded.totals⟩
  | resized block accepts =>
      obtain ⟨positive, fits⟩ :=
        (CircularQueue.refuses_eq_false_iff _ _).mp accepts
      refine ⟨?_, ?_, ?_, ?_, bounded.totals⟩
      · change 0 < queue.newCapacityRequest.toNat
        omega
      · change 5 ∣ queue.newCapacityRequest.toNat
        have multiple := bounded.capacityMultiple
        rcases aimed.target pending with ⟨-, target⟩ | ⟨-, -, target⟩ <;>
          omega
      · change queue.count ≤ queue.newCapacityRequest.toNat
        omega
      · change 0 < queue.newCapacityRequest.toNat
        omega

theorem Bounded.move
    (bounded : queue.Bounded)
    (aimed : queue.Aimed)
    (moved : QueueMove occasion queue history next record) :
    next.Bounded := by
  cases moved with
  | kept => exact bounded
  | requested op => exact bounded.request op
  | inserted msg _ _ notFull => exact bounded.insert notFull msg
  | extracted stored => exact bounded.extract stored
  | served pending _ served => exact bounded.serve aimed pending served
  | extractedServed stored decreases _ served =>
      have pending : queue.extract.resizeRequest ≠ .none := by
        change queue.resizeRequest ≠ .none
        simp [decreases]
      exact (bounded.extract stored).serve ⟨aimed.increase, aimed.decrease⟩
        pending served

/-- Serving a request clears it. -/
theorem cleared_of_serveMove
    (served : ServeMove allocates queue history next record) :
    next.resizeRequest = .none := by
  cases served <;> rfl

theorem Aimed.of_cleared (cleared : queue.resizeRequest = .none) :
    queue.Aimed :=
  ⟨by simp [cleared], by simp [cleared]⟩

theorem Aimed.move
    (aimed : queue.Aimed)
    (moved : QueueMove occasion queue history next record) :
    next.Aimed := by
  cases moved with
  | kept => exact aimed
  | requested op => exact aimed.request op
  | inserted | extracted => exact ⟨aimed.increase, aimed.decrease⟩
  | served _ _ served | extractedServed _ _ _ served =>
      exact .of_cleared (cleared_of_serveMove served)

end CircularQueue

namespace ResizesByFive

variable {queue next : CircularQueue} {history record : History}
  {occasion : Occasion} {allocates : Prop}

/-- A step that records no resize. -/
theorem of_no_resize
    {recorded : List QueueEvent}
    (events : record.events = history.events ++ recorded)
    (none : ∀ capacity count, .resized capacity count ∉ recorded)
    (capacity : next.capacity = queue.capacity) :
    ResizesByFive queue history next record :=
  ⟨recorded, events, fun capacity count member =>
    absurd member (none capacity count), fun _ => capacity⟩

theorem serve
    (aimed : queue.Aimed)
    (pending : queue.resizeRequest ≠ .none)
    (served : ServeMove allocates queue history next record) :
    ResizesByFive queue history next record := by
  cases served with
  | declined => exact of_no_resize (List.append_nil _).symm (by simp) rfl
  | resized block accepts =>
      refine ⟨_, rfl, ?_, ?_⟩
      · intro capacity count member
        rw [List.mem_singleton, QueueEvent.resized.injEq] at member
        obtain ⟨rfl, -⟩ := member
        refine ⟨rfl, ?_⟩
        rcases aimed.target pending with ⟨up, target⟩ | ⟨down, -, target⟩
        · exact .inl ⟨up, target⟩
        · exact .inr ⟨down, target⟩
      · intro none
        exact absurd (List.mem_singleton_self _) (none _ _)

theorem move
    (aimed : queue.Aimed)
    (moved : QueueMove occasion queue history next record) :
    ResizesByFive queue history next record := by
  cases moved with
  | kept => exact of_no_resize (List.append_nil _).symm (by simp) rfl
  | requested op =>
      obtain ⟨_, _, requested⟩ := queue.request_eq op
      refine of_no_resize (List.append_nil _).symm (by simp) ?_
      rw [requested]
  | inserted msg => exact of_no_resize rfl (by simp) rfl
  | extracted => exact of_no_resize rfl (by simp) rfl
  | served pending _ served => exact serve aimed pending served
  | extractedServed _ decreases _ served =>
      have pending : queue.extract.resizeRequest ≠ .none := by
        change queue.resizeRequest ≠ .none
        simp [decreases]
      have aimedAfter : queue.extract.Aimed :=
        ⟨aimed.increase, aimed.decrease⟩
      obtain ⟨recorded, events, resized, kept⟩ :=
        serve aimedAfter pending served
      refine ⟨.extracted queue.front :: recorded, ?_, ?_, ?_⟩
      · rw [events]
        exact List.append_assoc _ _ _
      · intro capacity count member
        rcases List.mem_cons.mp member with extraction | later
        · cases extraction
        · exact resized capacity count later
      · intro none
        exact kept fun capacity count member =>
          none capacity count (List.mem_cons_of_mem _ member)

end ResizesByFive

/-! ## Both labs -/

theorem sem_bounded_aimed
    {size : Nat}
    (positive : 0 < size)
    (multiple : 5 ∣ size)
    {state : SemState}
    (reachable : (semMachine size).Reachable state) :
    state.queue.Bounded ∧ state.queue.Aimed := by
  apply reachable.invariant
  · rintro _ ⟨block, rfl⟩
    exact ⟨.init positive multiple block, .init size block⟩
  · intro state action next ⟨bounded, aimed⟩ _ stepped
    have moved := semStep_queueMove stepped
    exact ⟨bounded.move aimed moved, aimed.move moved⟩

theorem cond_bounded_aimed
    {size : Nat}
    (positive : 0 < size)
    (multiple : 5 ∣ size)
    {state : CondState}
    (reachable : (condMachine size).Reachable state) :
    state.queue.Bounded ∧ state.queue.Aimed := by
  apply reachable.invariant
  · rintro _ ⟨block, rfl⟩
    exact ⟨.init positive multiple block, .init size block⟩
  · intro state action next ⟨bounded, aimed⟩ _ stepped
    have moved := (condStep_move stepped).queue
    exact ⟨bounded.move aimed moved, aimed.move moved⟩

/-- In every reachable state of either lab the capacity is a positive multiple
of five, the count, the head and the totals fit, and every successful resize
of the next step moves the capacity by exactly five in the requested
direction. -/
theorem queues_bounded_and_resize_by_five :
    (∀ state, (semMachine initialQueueSize).Reachable state →
      state.queue.Bounded ∧
        ∀ action next, semStep state action = some next →
          ResizesByFive state.queue.toCircularQueue state.history
            next.queue.toCircularQueue next.history) ∧
    (∀ state, (condMachine initialQueueSize).Reachable state →
      state.queue.Bounded ∧
        ∀ action next, condStep state action = some next →
          ResizesByFive state.queue.toCircularQueue state.history
            next.queue.toCircularQueue next.history) := by
  constructor
  · intro state reachable
    obtain ⟨bounded, aimed⟩ :=
      sem_bounded_aimed (by decide) (by decide) reachable
    exact ⟨bounded, fun _ _ stepped => .move aimed (semStep_queueMove stepped)⟩
  · intro state reachable
    obtain ⟨bounded, aimed⟩ :=
      cond_bounded_aimed (by decide) (by decide) reachable
    exact ⟨bounded, fun _ _ stepped =>
      .move aimed (condStep_move stepped).queue⟩

/-- The keys and steps that bring one consumer to a pending increase. -/
def semGrowSchedule : List SemAction :=
  [.main .idle, .main (.addConsumer .created), .main .idle,
    .main (.requestResize .plus), .consumer 0 .timedOut none]

/-- The same on the condition-variable queue. -/
def condGrowSchedule : List CondAction :=
  [.main .idle, .main (.addConsumer .created), .main .idle,
    .main (.requestResize .plus), .consumer 0 .timedOut none]

/-- Either queue of ten grows to fifteen and stays within its bounds. -/
theorem grown_queues_bounded :
    (∃ state next,
      (semMachine initialQueueSize).run
          (semStart initialQueueSize fun _ => 0) semGrowSchedule =
        some state ∧
      semStep state (.consumer 0 .timedOut (some fun _ => 0)) = some next ∧
      next.queue.capacity = 15 ∧
      state.queue.Bounded ∧
      ResizesByFive state.queue.toCircularQueue state.history
        next.queue.toCircularQueue next.history) ∧
    (∃ state next,
      (condMachine initialQueueSize).run
          (condStart initialQueueSize fun _ => 0) condGrowSchedule =
        some state ∧
      condStep state (.consumer 0 .timedOut (some fun _ => 0)) = some next ∧
      next.queue.capacity = 15 ∧
      state.queue.Bounded ∧
      ResizesByFive state.queue.toCircularQueue state.history
        next.queue.toCircularQueue next.history) := by
  constructor
  · refine ⟨_, _, rfl, rfl, rfl, ?_⟩
    obtain ⟨bounded, resizes⟩ := queues_bounded_and_resize_by_five.1 _
      (Machine.Reachable.run (.initial ⟨fun _ => 0, rfl⟩)
        (show (semMachine initialQueueSize).run _ semGrowSchedule = _
          from rfl))
    exact ⟨bounded,
      resizes (.consumer 0 .timedOut (some fun _ => 0)) _ rfl⟩
  · refine ⟨_, _, rfl, rfl, rfl, ?_⟩
    obtain ⟨bounded, resizes⟩ := queues_bounded_and_resize_by_five.2 _
      (Machine.Reachable.run (.initial ⟨fun _ => 0, rfl⟩)
        (show (condMachine initialQueueSize).run _ condGrowSchedule = _
          from rfl))
    exact ⟨bounded,
      resizes (.consumer 0 .timedOut (some fun _ => 0)) _ rfl⟩

end ThreadQueue
end OSaSP
