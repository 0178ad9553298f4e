import OSaSP.ThreadQueue.MessageLife

/-!
# No message is lost

Every message that was created is in exactly one place: in the hands of the
producer that has not inserted it yet, in the ring, in the hands of the
consumer that extracted it, or destroyed.  Unlike the reads of a message, this
does not depend on who reports first.  It does depend on the ring, which loses
a message that is written behind its buffer.
-/

namespace OSaSP
namespace ThreadQueue

open Lifetime

section Custody

variable {Queue ProducerPc ConsumerPc : Type}

/-- The messages in hand, in the ring and destroyed are the ones created. -/
def LabState.Accounted
    (carriers : Carriers ProducerPc ConsumerPc)
    (queue : CircularQueue)
    (state : LabState Queue ProducerPc ConsumerPc) : Prop :=
  carried (fun thread => carriers.fresh thread.pc) state.producers +
      (queue.contents : Multiset MessagePtr) +
      carried (fun thread => carriers.taken thread.pc) state.consumers +
      (state.heap.destroyed : Multiset MessagePtr) =
    Multiset.range state.heap.allocated

variable {carriers : Carriers ProducerPc ConsumerPc}
  {queue nextQueue : CircularQueue}
  {state next : LabState Queue ProducerPc ConsumerPc}

/-- No message is destroyed twice, and none that was not created. -/
theorem LabState.Accounted.destroyed
    (accounted : state.Accounted carriers queue) :
    state.heap.destroyed.Nodup ∧
      ∀ msg ∈ state.heap.destroyed, msg < state.heap.allocated := by
  have below : (state.heap.destroyed : Multiset MessagePtr) ≤
      Multiset.range state.heap.allocated := by
    rw [← accounted]
    exact Multiset.le_add_left _ _
  constructor
  · exact Multiset.coe_nodup.mp
      (Multiset.nodup_of_le below (Multiset.nodup_range _))
  · intro msg member
    exact Multiset.mem_range.mp (Multiset.mem_of_le below member)

theorem LabState.Accounted.producerHands
    {index : Nat}
    {thread : Thread ProducerPc}
    {new : ProducerPc}
    (accounted : state.Accounted carriers queue)
    (before : RingSafe queue state.history)
    (after : RingSafe nextQueue next.history)
    (present : state.producers[index]? = some thread)
    (producers : next.producers =
      state.producers.set index ⟨thread.id, new⟩)
    (consumers : next.consumers = state.consumers)
    (hands : ProducerHands carriers state.heap state.history thread.pc new
      next.heap next.history) :
    next.Accounted carriers nextQueue := by
  obtain ⟨rest, freshBefore, freshAfter⟩ :=
    exists_carried_rest (fun thread => carriers.fresh thread.pc) present
  unfold LabState.Accounted at accounted ⊢
  rw [freshBefore] at accounted
  rw [producers, consumers, freshAfter]
  generalize heap_eq : next.heap = heap at hands ⊢
  generalize history_eq : next.history = history at hands
  cases hands with
  | quiet sameFresh sameNoted =>
      rw [contents_of_same before after (by rw [history_eq])
        (by rw [history_eq]), sameFresh]
      exact accounted
  | create freshOld notedOld freshNew notedNew =>
      rw [contents_of_same before after (by rw [history_eq])
        (by rw [history_eq]), freshNew]
      rw [freshOld] at accounted
      simp only [Heap.createMessage, Multiset.range_succ, ← accounted,
        Option.toList_none, Option.toList_some, Multiset.coe_nil,
        Multiset.coe_singleton, Multiset.singleton_add, Multiset.cons_add,
        zero_add]
  | insert msg accesses freshOld notedOld freshNew notedNew =>
      rw [contents_of_inserted before after
        (by rw [history_eq, History.added_inserted])
        (by rw [history_eq, History.extracted_inserted]), freshNew, coe_snoc]
      rw [freshOld] at accounted
      simp only [← accounted, Option.toList_none, Option.toList_some,
        Multiset.coe_nil, Multiset.coe_singleton, Multiset.singleton_add,
        Multiset.cons_add, Multiset.add_cons, zero_add]
  | createInsert accesses freshOld notedOld freshNew notedNew =>
      rw [contents_of_inserted before after
        (by rw [history_eq, History.added_inserted])
        (by rw [history_eq, History.extracted_inserted]), freshNew, coe_snoc]
      rw [freshOld] at accounted
      simp only [Heap.createMessage, Multiset.range_succ, ← accounted,
        Option.toList_none, Multiset.coe_nil, Multiset.cons_add,
        Multiset.add_cons, zero_add]
  | discard msg freshOld notedOld freshNew notedNew =>
      rw [contents_of_same before after (by rw [history_eq])
        (by rw [history_eq]), freshNew]
      rw [freshOld] at accounted
      simp only [Heap.destroyMessage, coe_snoc, ← accounted,
        Option.toList_none, Option.toList_some, Multiset.coe_nil,
        Multiset.coe_singleton, Multiset.singleton_add, Multiset.cons_add,
        Multiset.add_cons, zero_add]
  | report msg freshOld notedOld freshNew notedNew =>
      rw [contents_of_same before after (by rw [history_eq])
        (by rw [history_eq]), freshNew]
      rw [freshOld] at accounted
      exact accounted

theorem LabState.Accounted.consumerHands
    {index : Nat}
    {thread : Thread ConsumerPc}
    {new : ConsumerPc}
    (accounted : state.Accounted carriers queue)
    (before : RingSafe queue state.history)
    (after : RingSafe nextQueue next.history)
    (present : state.consumers[index]? = some thread)
    (consumers : next.consumers =
      state.consumers.set index ⟨thread.id, new⟩)
    (producers : next.producers = state.producers)
    (hands : ConsumerHands carriers state.heap state.history thread.pc new
      next.heap next.history) :
    next.Accounted carriers nextQueue := by
  obtain ⟨rest, takenBefore, takenAfter⟩ :=
    exists_carried_rest (fun thread => carriers.taken thread.pc) present
  unfold LabState.Accounted at accounted ⊢
  rw [takenBefore] at accounted
  rw [producers, consumers, takenAfter]
  generalize heap_eq : next.heap = heap at hands ⊢
  generalize history_eq : next.history = history at hands
  cases hands with
  | quiet sameTaken added extracted =>
      rw [contents_of_same before after (by rw [history_eq, added])
        (by rw [history_eq, extracted]), sameTaken]
      exact accounted
  | extract msg takenOld takenNew added extracted =>
      rw [contents_of_extracted before after (by rw [history_eq, added])
        (by rw [history_eq, extracted]), takenOld, ← Multiset.cons_coe]
        at accounted
      rw [takenNew, ← accounted]
      simp only [Option.toList_none, Option.toList_some, Multiset.coe_nil,
        Multiset.coe_singleton, Multiset.singleton_add, Multiset.cons_add,
        Multiset.add_cons, zero_add]
  | report msg takenOld takenNew =>
      rw [contents_of_same before after (by rw [history_eq])
        (by rw [history_eq]), takenNew]
      rw [takenOld] at accounted
      exact accounted
  | destroy msg takenOld doomed takenNew =>
      rw [contents_of_same before after (by rw [history_eq])
        (by rw [history_eq]), takenNew]
      rw [takenOld] at accounted
      simp only [Heap.destroyMessage, coe_snoc, ← accounted,
        Option.toList_none, Option.toList_some, Multiset.coe_nil,
        Multiset.coe_singleton, Multiset.singleton_add, Multiset.cons_add,
        Multiset.add_cons, zero_add]

/-- Every step of a lab keeps account of the messages. -/
theorem LabState.Accounted.step
    {turn : Turn}
    (accounted : state.Accounted carriers queue)
    (before : RingSafe queue state.history)
    (after : RingSafe nextQueue next.history)
    (stepped : HandsStep carriers state next turn) :
    next.Accounted carriers nextQueue := by
  cases stepped with
  | main ledger heap history =>
      have contents := contents_of_same before after (by rw [history])
        (by rw [history])
      have same := ledger queue.contents
      simp only [LabState.ledger, Ledger.mk.injEq] at same
      obtain ⟨made, fresh, -, taken, destroyed, -⟩ := same
      unfold LabState.Accounted
      rw [contents, fresh, taken, destroyed, made]
      exact accounted
  | producer present producers consumers hands =>
      exact accounted.producerHands before after present producers consumers
        hands
  | consumer present consumers producers hands =>
      exact accounted.consumerHands before after present consumers producers
        hands

/-- Before the first thread there is nothing to account for. -/
theorem start_accounted
    (size : Nat)
    (block : Nat → MessagePtr)
    (producers : state.producers = [])
    (consumers : state.consumers = [])
    (heap : state.heap = .empty) :
    state.Accounted carriers (.init size block) := by
  unfold LabState.Accounted
  rw [producers, consumers, heap]
  rfl

end Custody

/-! ## Both labs -/

/-- The ring and the account of the semaphore lab. -/
structure SemKept (state : SemState) : Prop where
  ring : SemInvariant state
  accounted : state.Accounted semCarriers state.queue.toCircularQueue

/-- The ring and the account of the condition-variable lab. -/
structure CondKept (state : CondState) : Prop where
  ring : CondInvariant state
  accounted : state.Accounted condCarriers state.queue.toCircularQueue

theorem SemKept.step
    {state next : SemState}
    {action : SemAction}
    (kept : SemKept state)
    (inserts : SemInsertsSafely state action)
    (stepped : semStep state action = some next) :
    SemKept next := by
  have ring := kept.ring.step inserts stepped
  exact ⟨ring, kept.accounted.step (RingInvariant.safe kept.ring)
    (RingInvariant.safe ring) (semStep_handsStep stepped)⟩

theorem CondKept.step
    {state next : CondState}
    {action : CondAction}
    (kept : CondKept state)
    (inserts : CondInsertsSafely state action)
    (stepped : condStep state action = some next) :
    CondKept next := by
  have ring := kept.ring.step inserts stepped
  exact ⟨ring, kept.accounted.step (RingInvariant.safe kept.ring)
    (RingInvariant.safe ring) (condStep_handsStep stepped)⟩

theorem semKept_start
    {size : Nat}
    (positive : 0 < size)
    (block : Nat → MessagePtr) :
    SemKept (semStart size block) :=
  ⟨semInvariant_start positive block, start_accounted size block rfl rfl rfl⟩

theorem condKept_start
    {size : Nat}
    (positive : 0 < size)
    (block : Nat → MessagePtr) :
    CondKept (condStart size block) :=
  ⟨condInvariant_start positive block, start_accounted size block rfl rfl rfl⟩

end ThreadQueue
end OSaSP
