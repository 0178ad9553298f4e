import OSaSP.Foundations.Lifetime
import OSaSP.ThreadQueue.Fifo
import OSaSP.ThreadQueue.Workers

/-!
# The messages in hand

Whichever lab it runs in, a thread has at most one message in hand.  What a
step does with it is a move of the message through its life, so the messages of
a lab form a ledger that every step keeps sound as long as no consumer destroys
a message that its producer still has to report.
-/

namespace OSaSP
namespace ThreadQueue

open Lifetime

/-! ## Messages in hand -/

/-- The message a thread has in hand at a place: created and not inserted,
inserted and not yet reported, extracted and not destroyed, and, among the
latter, about to be destroyed. -/
structure Carriers (ProducerPc ConsumerPc : Type) where
  fresh : ProducerPc → Option MessagePtr
  noted : ProducerPc → Option MessagePtr
  taken : ConsumerPc → Option MessagePtr
  doomed : ConsumerPc → Option MessagePtr

/-- The places of the semaphore lab. -/
def semCarriers : Carriers ProducerSemPc ConsumerSemPc where
  fresh
    | .insert msg | .giveBackFull msg | .discard msg => some msg
    | _ => none
  noted
    | .postFilled msg | .report msg => some msg
    | _ => none
  taken
    | .postEmpty msg | .report msg | .discard msg => some msg
    | _ => none
  doomed
    | .discard msg => some msg
    | _ => none

/-- The places of the condition-variable lab, where a message is created and
inserted in one critical section. -/
def condCarriers : Carriers ProducerCondPc ConsumerCondPc where
  fresh _ := none
  noted
    | .report msg => some msg
    | _ => none
  taken
    | .report msg | .discard msg => some msg
    | _ => none
  doomed
    | .discard msg => some msg
    | _ => none

section Hands

variable {Queue ProducerPc ConsumerPc : Type}

/-- The messages of a lab whose ring stores the given ones. -/
def LabState.ledger
    (carriers : Carriers ProducerPc ConsumerPc)
    (contents : List MessagePtr)
    (state : LabState Queue ProducerPc ConsumerPc) : Ledger MessagePtr where
  made := Multiset.range state.heap.allocated
  fresh := carried (fun thread => carriers.fresh thread.pc) state.producers
  stored := contents
  taken := carried (fun thread => carriers.taken thread.pc) state.consumers
  destroyed := state.heap.destroyed
  noted := carried (fun thread => carriers.noted thread.pc) state.producers

/-- No field of a message was read after it was destroyed. -/
def Heap.ReadsAlive (heap : Heap) : Prop :=
  ∀ read ∈ heap.reads, read.destroyed = false

/-- A consumer destroys no message that a producer has still to report. -/
def LabState.ReportsFirst
    (carriers : Carriers ProducerPc ConsumerPc)
    (state : LabState Queue ProducerPc ConsumerPc) : Turn → Prop
  | .consumer index =>
      ∀ thread, state.consumers[index]? = some thread →
        ∀ msg, carriers.doomed thread.pc = some msg →
          ∀ producer ∈ state.producers,
            carriers.noted producer.pc ≠ some msg
  | _ => True

instance
    (carriers : Carriers ProducerPc ConsumerPc)
    (state : LabState Queue ProducerPc ConsumerPc) :
    ∀ turn, Decidable (state.ReportsFirst carriers turn)
  | .main _ | .producer _ => isTrue trivial
  | .consumer index =>
      Machine.decidableAfter (state.consumers[index]?) fun thread =>
        ∀ msg, carriers.doomed thread.pc = some msg →
          ∀ producer ∈ state.producers,
            carriers.noted producer.pc ≠ some msg

/-- What a step of a producer does with the message it has in hand. -/
inductive ProducerHands
    (carriers : Carriers ProducerPc ConsumerPc)
    (heap : Heap)
    (history : History)
    (old new : ProducerPc) : Heap → History → Prop
  | quiet :
      carriers.fresh new = carriers.fresh old →
      carriers.noted new = carriers.noted old →
      ProducerHands carriers heap history old new heap history
  | create :
      carriers.fresh old = none →
      carriers.noted old = none →
      carriers.fresh new = some heap.allocated →
      carriers.noted new = none →
      ProducerHands carriers heap history old new heap.createMessage history
  | insert (msg : MessagePtr) (accesses : List Access) :
      carriers.fresh old = some msg →
      carriers.noted old = none →
      carriers.fresh new = none →
      carriers.noted new = some msg →
      ProducerHands carriers heap history old new heap
        (history.record (.inserted msg) accesses)
  | createInsert (accesses : List Access) :
      carriers.fresh old = none →
      carriers.noted old = none →
      carriers.fresh new = none →
      carriers.noted new = some heap.allocated →
      ProducerHands carriers heap history old new heap.createMessage
        (history.record (.inserted heap.allocated) accesses)
  | discard (msg : MessagePtr) :
      carriers.fresh old = some msg →
      carriers.noted old = none →
      carriers.fresh new = none →
      carriers.noted new = none →
      ProducerHands carriers heap history old new (heap.destroyMessage msg)
        history
  | report (msg : MessagePtr) :
      carriers.fresh old = none →
      carriers.noted old = some msg →
      carriers.fresh new = none →
      carriers.noted new = none →
      ProducerHands carriers heap history old new (heap.readMessage msg)
        history

/-- What a step of a consumer does with the message it has in hand. -/
inductive ConsumerHands
    (carriers : Carriers ProducerPc ConsumerPc)
    (heap : Heap)
    (history : History)
    (old new : ConsumerPc) : Heap → History → Prop
  | quiet {record : History} :
      carriers.taken new = carriers.taken old →
      record.added = history.added →
      record.extracted = history.extracted →
      ConsumerHands carriers heap history old new heap record
  | extract {record : History} (msg : MessagePtr) :
      carriers.taken old = none →
      carriers.taken new = some msg →
      record.added = history.added →
      record.extracted = history.extracted ++ [msg] →
      ConsumerHands carriers heap history old new heap record
  | report (msg : MessagePtr) :
      carriers.taken old = some msg →
      carriers.taken new = some msg →
      ConsumerHands carriers heap history old new (heap.readMessage msg)
        history
  | destroy (msg : MessagePtr) :
      carriers.taken old = some msg →
      carriers.doomed old = some msg →
      carriers.taken new = none →
      ConsumerHands carriers heap history old new (heap.destroyMessage msg)
        history

/-- What a step of a lab does with the messages in hand. -/
inductive HandsStep
    (carriers : Carriers ProducerPc ConsumerPc)
    (state next : LabState Queue ProducerPc ConsumerPc) : Turn → Prop
  | main {command : Command} :
      (∀ contents, next.ledger carriers contents =
        state.ledger carriers contents) →
      next.heap = state.heap →
      next.history = state.history →
      HandsStep carriers state next (.main command)
  | producer {index : Nat} {thread : Thread ProducerPc} {new : ProducerPc} :
      state.producers[index]? = some thread →
      next.producers = state.producers.set index ⟨thread.id, new⟩ →
      next.consumers = state.consumers →
      ProducerHands carriers state.heap state.history thread.pc new next.heap
        next.history →
      HandsStep carriers state next (.producer index)
  | consumer {index : Nat} {thread : Thread ConsumerPc} {new : ConsumerPc} :
      state.consumers[index]? = some thread →
      next.consumers = state.consumers.set index ⟨thread.id, new⟩ →
      next.producers = state.producers →
      ConsumerHands carriers state.heap state.history thread.pc new next.heap
        next.history →
      HandsStep carriers state next (.consumer index)

/-! ## Steps keep the messages alive -/

/-- Every message has one owner, none that is in hand is destroyed, and none
was read after it was. -/
structure LabState.Alive
    (carriers : Carriers ProducerPc ConsumerPc)
    (queue : CircularQueue)
    (state : LabState Queue ProducerPc ConsumerPc) : Prop where
  sound : (state.ledger carriers queue.contents).Sound
  reads : state.heap.ReadsAlive

theorem Heap.ReadsAlive.readMessage
    {heap : Heap}
    (reads : heap.ReadsAlive)
    {msg : MessagePtr}
    (lives : msg ∉ heap.destroyed) :
    (heap.readMessage msg).ReadsAlive := by
  intro read member
  rcases List.mem_append.mp member with earlier | last
  · exact reads read earlier
  · rw [List.mem_singleton.mp last]
    simpa using lives

variable {carriers : Carriers ProducerPc ConsumerPc}
  {queue nextQueue : CircularQueue}
  {state next : LabState Queue ProducerPc ConsumerPc}

/-- Fifo in both states tells what happened to the stored messages. -/
theorem contents_of_same
    (before : RingSafe queue state.history)
    (after : RingSafe nextQueue next.history)
    (added : next.history.added = state.history.added)
    (extracted : next.history.extracted = state.history.extracted) :
    nextQueue.contents = queue.contents := by
  have fifo := after.fifo
  rw [added, extracted, ← before.fifo] at fifo
  exact List.append_cancel_left fifo

theorem contents_of_inserted
    {msg : MessagePtr}
    (before : RingSafe queue state.history)
    (after : RingSafe nextQueue next.history)
    (added : next.history.added = state.history.added ++ [msg])
    (extracted : next.history.extracted = state.history.extracted) :
    nextQueue.contents = queue.contents ++ [msg] := by
  have fifo := after.fifo
  rw [added, extracted, ← before.fifo, List.append_assoc] at fifo
  exact List.append_cancel_left fifo

theorem contents_of_extracted
    {msg : MessagePtr}
    (before : RingSafe queue state.history)
    (after : RingSafe nextQueue next.history)
    (added : next.history.added = state.history.added)
    (extracted : next.history.extracted =
      state.history.extracted ++ [msg]) :
    queue.contents = msg :: nextQueue.contents := by
  have fifo := after.fifo
  rw [added, extracted, ← before.fifo, List.append_assoc] at fifo
  exact (List.append_cancel_left fifo).symm

theorem LabState.Alive.producerHands
    {index : Nat}
    {thread : Thread ProducerPc}
    {new : ProducerPc}
    (alive : state.Alive carriers queue)
    (before : RingSafe queue state.history)
    (after : RingSafe nextQueue next.history)
    (present : state.producers[index]? = some thread)
    (producers : next.producers =
      state.producers.set index ⟨thread.id, new⟩)
    (consumers : next.consumers = state.consumers)
    (hands : ProducerHands carriers state.heap state.history thread.pc new
      next.heap next.history) :
    next.Alive carriers nextQueue := by
  obtain ⟨sound, reads⟩ := alive
  obtain ⟨fresh, freshBefore, freshAfter⟩ :=
    exists_carried_rest (fun thread => carriers.fresh thread.pc) present
  obtain ⟨noted, notedBefore, notedAfter⟩ :=
    exists_carried_rest (fun thread => carriers.noted thread.pc) present
  unfold LabState.ledger at sound
  rw [freshBefore, notedBefore] at sound
  suffices wanted :
      (⟨Multiset.range next.heap.allocated,
        (carriers.fresh new).toList + fresh, nextQueue.contents,
        carried (fun thread => carriers.taken thread.pc) state.consumers,
        next.heap.destroyed, (carriers.noted new).toList + noted⟩ :
          Ledger MessagePtr).Sound ∧ next.heap.ReadsAlive by
    refine ⟨?_, wanted.2⟩
    unfold LabState.ledger
    rw [producers, consumers, freshAfter, notedAfter]
    exact wanted.1
  generalize heap_eq : next.heap = heap at hands ⊢
  generalize history_eq : next.history = history at hands
  cases hands with
  | quiet sameFresh sameNoted =>
      rw [contents_of_same before after (by rw [history_eq])
        (by rw [history_eq]), sameFresh, sameNoted]
      exact ⟨sound, reads⟩
  | create freshOld notedOld freshNew notedNew =>
      rw [contents_of_same before after (by rw [history_eq])
        (by rw [history_eq]), freshNew, notedNew]
      rw [freshOld, notedOld] at sound
      refine ⟨?_, reads⟩
      have moved := sound.move (.make Multiset.notMem_range_self)
      simpa [Heap.createMessage, Multiset.range_succ] using moved
  | insert msg accesses freshOld notedOld freshNew notedNew =>
      rw [contents_of_inserted before after
        (by rw [history_eq, History.added_inserted])
        (by rw [history_eq, History.extracted_inserted]), freshNew, notedNew,
        coe_snoc]
      rw [freshOld, notedOld] at sound
      refine ⟨?_, reads⟩
      have moved := sound.move .share
      simpa using moved
  | createInsert accesses freshOld notedOld freshNew notedNew =>
      rw [contents_of_inserted before after
        (by rw [history_eq, History.added_inserted])
        (by rw [history_eq, History.extracted_inserted]), freshNew, notedNew,
        coe_snoc]
      rw [freshOld, notedOld] at sound
      refine ⟨?_, reads⟩
      have moved := (sound.move (.make Multiset.notMem_range_self)).move .share
      simpa [Heap.createMessage, Multiset.range_succ] using moved
  | discard msg freshOld notedOld freshNew notedNew =>
      rw [contents_of_same before after (by rw [history_eq])
        (by rw [history_eq]), freshNew, notedNew]
      rw [freshOld, notedOld] at sound
      refine ⟨?_, reads⟩
      have moved := sound.move .drop
      simpa [Heap.destroyMessage, coe_snoc] using moved
  | report msg freshOld notedOld freshNew notedNew =>
      rw [contents_of_same before after (by rw [history_eq])
        (by rw [history_eq]), freshNew, notedNew]
      rw [freshOld, notedOld] at sound
      have lives := (sound.alive msg (by simp)).2
      refine ⟨?_, reads.readMessage lives⟩
      have moved := sound.move .note
      simpa [Heap.readMessage] using moved

theorem LabState.Alive.consumerHands
    {index : Nat}
    {thread : Thread ConsumerPc}
    {new : ConsumerPc}
    (alive : state.Alive carriers queue)
    (before : RingSafe queue state.history)
    (after : RingSafe nextQueue next.history)
    (reported : state.ReportsFirst carriers (.consumer index))
    (present : state.consumers[index]? = some thread)
    (consumers : next.consumers =
      state.consumers.set index ⟨thread.id, new⟩)
    (producers : next.producers = state.producers)
    (hands : ConsumerHands carriers state.heap state.history thread.pc new
      next.heap next.history) :
    next.Alive carriers nextQueue := by
  obtain ⟨sound, reads⟩ := alive
  obtain ⟨taken, takenBefore, takenAfter⟩ :=
    exists_carried_rest (fun thread => carriers.taken thread.pc) present
  unfold LabState.ledger at sound
  rw [takenBefore] at sound
  suffices wanted :
      (⟨Multiset.range next.heap.allocated,
        carried (fun thread => carriers.fresh thread.pc) state.producers,
        nextQueue.contents, (carriers.taken new).toList + taken,
        next.heap.destroyed,
        carried (fun thread => carriers.noted thread.pc) state.producers⟩ :
          Ledger MessagePtr).Sound ∧ next.heap.ReadsAlive by
    refine ⟨?_, wanted.2⟩
    unfold LabState.ledger
    rw [producers, consumers, takenAfter]
    exact wanted.1
  generalize heap_eq : next.heap = heap at hands ⊢
  generalize history_eq : next.history = history at hands
  cases hands with
  | quiet sameTaken added extracted =>
      rw [contents_of_same before after (by rw [history_eq, added])
        (by rw [history_eq, extracted]), sameTaken]
      exact ⟨sound, reads⟩
  | extract msg takenOld takenNew added extracted =>
      rw [contents_of_extracted before after (by rw [history_eq, added])
        (by rw [history_eq, extracted]), takenOld, ← Multiset.cons_coe]
        at sound
      rw [takenNew]
      refine ⟨?_, reads⟩
      have moved := sound.move .take
      simpa using moved
  | report msg takenOld takenNew =>
      rw [contents_of_same before after (by rw [history_eq])
        (by rw [history_eq]), takenNew]
      rw [takenOld] at sound
      have lives : msg ∉ (state.heap.destroyed : Multiset MessagePtr) :=
        sound.not_destroyed_of_taken (by simp)
      exact ⟨sound, reads.readMessage lives⟩
  | destroy msg takenOld doomed takenNew =>
      rw [contents_of_same before after (by rw [history_eq])
        (by rw [history_eq]), takenNew]
      rw [takenOld] at sound
      have unnoted : msg ∉ carried (fun thread => carriers.noted thread.pc)
          state.producers := by
        intro noted
        obtain ⟨producer, member, carries⟩ := List.mem_filterMap.mp noted
        exact reported thread present msg doomed producer member carries
      refine ⟨?_, reads⟩
      have moved := sound.move (.destroy unnoted)
      simpa [Heap.destroyMessage, coe_snoc] using moved

/-- A step that inserts and destroys as it should keeps every message in hand
alive. -/
theorem LabState.Alive.step
    {turn : Turn}
    (alive : state.Alive carriers queue)
    (before : RingSafe queue state.history)
    (after : RingSafe nextQueue next.history)
    (reported : state.ReportsFirst carriers turn)
    (stepped : HandsStep carriers state next turn) :
    next.Alive carriers nextQueue := by
  cases stepped with
  | main ledger heap history =>
      have contents := contents_of_same before after (by rw [history])
        (by rw [history])
      constructor
      · rw [ledger, contents]
        exact alive.sound
      · rw [heap]
        exact alive.reads
  | producer present producers consumers hands =>
      exact alive.producerHands before after present producers consumers hands
  | consumer present consumers producers hands =>
      exact alive.consumerHands before after reported present consumers
        producers hands

/-- The main thread has no message in hand. -/
theorem HandsStep.ofMain
    {lab : Lab Queue ProducerPc ConsumerPc}
    {command : Command}
    (freshStart : carriers.fresh lab.producerStart = none)
    (notedStart : carriers.noted lab.producerStart = none)
    (takenStart : carriers.taken lab.consumerStart = none)
    (heap : next.heap = state.heap)
    (moved : lab.MainMove state next) :
    HandsStep carriers state next (.main command) := by
  refine .main (fun contents => ?_) heap moved.history
  unfold LabState.ledger
  have fresh : carried (fun thread => carriers.fresh thread.pc)
      next.producers =
        carried (fun thread => carriers.fresh thread.pc) state.producers := by
    rcases moved.producers with same | ⟨id, joined⟩
    · rw [same]
    · rw [joined, carried_join state.producers freshStart]
  have noted : carried (fun thread => carriers.noted thread.pc)
      next.producers =
        carried (fun thread => carriers.noted thread.pc) state.producers := by
    rcases moved.producers with same | ⟨id, joined⟩
    · rw [same]
    · rw [joined, carried_join state.producers notedStart]
  have taken : carried (fun thread => carriers.taken thread.pc)
      next.consumers =
        carried (fun thread => carriers.taken thread.pc) state.consumers := by
    rcases moved.consumers with same | ⟨id, joined⟩
    · rw [same]
    · rw [joined, carried_join state.consumers takenStart]
  rw [fresh, noted, taken, heap]

/-- The operator loop does not touch the messages. -/
theorem execute_heap
    {lab : Lab Queue ProducerPc ConsumerPc}
    (state : LabState Queue ProducerPc ConsumerPc)
    (command : Command) :
    (lab.execute state command).heap = state.heap := by
  cases command with
  | idle | requestResize | quit => rfl
  | addProducer outcome =>
      unfold Lab.execute LabState.addProducer
      dsimp only
      split
      · cases outcome <;> rfl
      · rfl
  | addConsumer outcome =>
      unfold Lab.execute LabState.addConsumer
      dsimp only
      split
      · cases outcome <;> rfl
      · rfl
  | removeProducer =>
      unfold Lab.execute LabState.removeProducer
      dsimp only
      split <;> rfl
  | removeConsumer =>
      unfold Lab.execute LabState.removeConsumer
      dsimp only
      split <;> rfl

theorem mainStep_heap
    {lab : Lab Queue ProducerPc ConsumerPc}
    {command : Command}
    (stepped : lab.mainStep command state = some next) :
    next.heap = state.heap := by
  unfold Lab.mainStep at stepped
  dsimp only at stepped
  split at stepped <;> cases stepped
  · rfl
  · exact execute_heap state command
  all_goals rfl

end Hands

/-- A served request inserts and extracts no message. -/
theorem ServeMove.kept
    {allocates : Prop}
    {queue next : CircularQueue}
    {history record : History}
    (served : ServeMove allocates queue history next record) :
    record.added = history.added ∧ record.extracted = history.extracted := by
  cases served with
  | declined _ => exact ⟨rfl, rfl⟩
  | resized block _ => simp

end ThreadQueue
end OSaSP
