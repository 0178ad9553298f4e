import OSaSP.ThreadQueue.Custody
import OSaSP.ThreadQueue.Ending
import OSaSP.ThreadQueue.Ids

/-!
# The program around the labs

`main` shows a menu, runs the chosen lab from `init_queue_*` to
`destroy_queue_*` and shows the menu again.  A lab that was stopped always
comes to its end, so the menu comes back; and by then every message that the
lab created was destroyed, by a thread or together with the queue, and none was
destroyed twice.

The main thread waits for the threads whose handles it has stored.  As long as
every thread is added in room, these are all of them.  Otherwise a handle is
stored outside its array, and what the program does then is undefined; here the
thread is not waited for.
-/

namespace OSaSP
namespace ThreadQueue

/-! ## The end of a queue -/

/-- The loop of `destroy_queue_sem` and `destroy_queue_cond` over the messages
that are still stored. -/
def CircularQueue.destroyLoop (queue : CircularQueue) :
    Nat → Nat → Heap → Heap
  | 0, _, heap => heap
  | count + 1, head, heap =>
      queue.destroyLoop count ((head + 1) % queue.capacity)
        (heap.destroyMessage (queue.buffer head))

/-- The fields that both functions clear. -/
def CircularQueue.cleared (queue : CircularQueue) : CircularQueue :=
  { queue with capacity := 0, head := 0, tail := 0, count := 0 }

/-- `destroy_queue_sem`. -/
def destroyQueueSem
    (queue : CircularQueueSem)
    (heap : Heap) : CircularQueueSem × Heap :=
  ({ queue with toCircularQueue := queue.cleared },
    queue.destroyLoop queue.count queue.head heap)

/-- `destroy_queue_cond`. -/
def destroyQueueCond
    (queue : CircularQueueCond)
    (heap : Heap) : CircularQueueCond × Heap :=
  ({ queue with
      toCircularQueue := { queue.cleared with resizeRequest := .none }
      resizeInProgress := true },
    queue.destroyLoop queue.count queue.head heap)

/-- The loop destroys what is stored, in its order, and creates nothing. -/
theorem CircularQueue.destroyLoop_eq
    (queue : CircularQueue)
    (count head : Nat)
    (headBound : 0 < count → head < queue.capacity)
    (heap : Heap) :
    queue.destroyLoop count head heap =
      { heap with destroyed := heap.destroyed ++
          Ring.window queue.buffer queue.capacity head count } := by
  induction count generalizing head heap with
  | zero => simp [destroyLoop, Ring.window]
  | succ count inductionHypothesis =>
      have inside := headBound (Nat.succ_pos count)
      have next : (head + 1) % queue.capacity < queue.capacity :=
        Nat.mod_lt _ (Nat.zero_lt_of_lt inside)
      have wrapped : Ring.window queue.buffer queue.capacity
          ((head + 1) % queue.capacity) count =
            Ring.window queue.buffer queue.capacity (head + 1) count :=
        Ring.window_congr_start _ count (Nat.mod_mod _ _)
      rw [destroyLoop, inductionHypothesis _ fun _ => next, wrapped,
        Ring.window_succ_eq_cons, Nat.mod_eq_of_lt inside]
      simp [Heap.destroyMessage]

/-! ## The joins -/

/-- The thread whose handle is at an index of `producer_threads` or
`consumer_threads`: the one that was created with this id. -/
def handle
    {Pc : Type}
    (threads : List (Thread Pc))
    (index : Nat) : Option (Thread Pc) :=
  if index < maxThreads then threads.find? fun thread => thread.id = index
  else none

/-- Every `pthread_join` of a loop of `run_lab_logic` returns: the threads whose
handles it finds have finished. -/
def joinsReturn
    {Pc : Type}
    [DecidableEq Pc]
    (finished : Pc)
    (threads : List (Thread Pc))
    (next : Nat) : Bool :=
  (List.range next).all fun index =>
    (handle threads index).all fun thread => thread.pc = finished

/-- The main thread comes to the end of its joins. -/
def LabState.JoinsReturn
    {Queue ProducerPc ConsumerPc : Type}
    [DecidableEq ProducerPc]
    [DecidableEq ConsumerPc]
    (producerEnd : ProducerPc)
    (consumerEnd : ConsumerPc)
    (state : LabState Queue ProducerPc ConsumerPc) : Prop :=
  state.control.pc = .joining ∧
    joinsReturn producerEnd state.producers state.control.nextProducerId ∧
      joinsReturn consumerEnd state.consumers state.control.nextConsumerId

instance
    {Queue ProducerPc ConsumerPc : Type}
    [DecidableEq ProducerPc]
    [DecidableEq ConsumerPc]
    (producerEnd : ProducerPc)
    (consumerEnd : ConsumerPc)
    (state : LabState Queue ProducerPc ConsumerPc) :
    Decidable (state.JoinsReturn producerEnd consumerEnd) :=
  inferInstanceAs (Decidable (_ ∧ _ ∧ _))

section Joins

variable {Pc : Type} [DecidableEq Pc] {finished : Pc}
  {threads : List (Thread Pc)} {next : Nat}

/-- Nothing is waited for but the threads of the lab. -/
theorem joinsReturn_of_all
    (all : ∀ thread ∈ threads, thread.pc = finished) :
    joinsReturn finished threads next = true := by
  unfold joinsReturn
  rw [List.all_eq_true]
  intro index _
  rw [Option.all_eq_true]
  intro thread found
  unfold handle at found
  split at found
  · exact decide_eq_true (all thread (List.mem_of_find?_eq_some found))
  · cases found

/-- Inside the arrays the handle of every thread is found. -/
theorem Crew.all_of_joinsReturn
    {active : Nat → Bool}
    {count : Int}
    (crew : Crew threads active next count)
    (inside : next ≤ maxThreads)
    (returns : joinsReturn finished threads next = true) :
    ∀ thread ∈ threads, thread.pc = finished := by
  intro thread member
  have below := crew.id_lt member
  unfold joinsReturn at returns
  rw [List.all_eq_true] at returns
  have returned := returns thread.id (List.mem_range.mpr below)
  have found : handle threads thread.id = some thread := by
    rw [handle, if_pos (Nat.lt_of_lt_of_le below inside)]
    have stored :
        (threads.find? fun other => other.id = thread.id).isSome :=
      List.find?_isSome.mpr ⟨thread, member, by simp⟩
    obtain ⟨other, isFirst⟩ := Option.isSome_iff_exists.mp stored
    have sameId : other.id = thread.id := by
      simpa using List.find?_some isFirst
    obtain ⟨place, present⟩ := List.getElem?_of_mem member
    obtain ⟨otherPlace, otherPresent⟩ :=
      List.getElem?_of_mem (List.mem_of_find?_eq_some isFirst)
    have first := crew.ids place thread present
    have second := crew.ids otherPlace other otherPresent
    obtain rfl : place = otherPlace := by omega
    rw [isFirst, otherPresent.symm.trans present]
  rw [found] at returned
  exact of_decide_eq_true returned

variable {Queue ProducerPc ConsumerPc : Type} [DecidableEq ProducerPc]
  [DecidableEq ConsumerPc] {producerEnd : ProducerPc}
  {consumerEnd : ConsumerPc} {state : LabState Queue ProducerPc ConsumerPc}

theorem LabState.Over.joinsReturn
    (isOver : state.Over producerEnd consumerEnd) :
    state.JoinsReturn producerEnd consumerEnd :=
  ⟨isOver.joining, joinsReturn_of_all isOver.producers,
    joinsReturn_of_all isOver.consumers⟩

/-- When all threads were added in room, the joins wait for all of them. -/
theorem LabState.Numbered.over
    (numbered : state.Numbered)
    (returns : state.JoinsReturn producerEnd consumerEnd) :
    state.Over producerEnd consumerEnd :=
  ⟨returns.1,
    numbered.crewed.producers.all_of_joinsReturn numbered.producers returns.2.1,
    numbered.crewed.consumers.all_of_joinsReturn numbered.consumers returns.2.2⟩

end Joins

/-! ## The menu -/

/-- Where the program is, with the messages of the labs that are over. -/
inductive ProgramState
  | menu (ended : List Heap)
  | semLab (ended : List Heap) (state : SemState)
  | condLab (ended : List Heap) (state : CondState)
  | exited (ended : List Heap)

/-- The messages of the labs that are over. -/
def ProgramState.ended : ProgramState → List Heap
  | .menu ended | .semLab ended _ | .condLab ended _ | .exited ended => ended

/-- The messages of the lab that is running. -/
def ProgramState.current : ProgramState → Option Heap
  | .semLab _ state => some state.heap
  | .condLab _ state => some state.heap
  | .menu _ | .exited _ => none

/-- The choices of the menu; a lab is initialized on the block that `malloc`
returns, if everything can be allocated. -/
inductive Choice
  | semaphores (block : Option (Nat → MessagePtr))
  | condVariables (block : Option (Nat → MessagePtr))
  | exit
  | incorrect

/-- A choice in the menu, a step of the running lab, or the return of the last
`pthread_join`. -/
inductive ProgramAction
  | choose (choice : Choice)
  | sem (action : SemAction)
  | cond (action : CondAction)
  | joined

/-- The branches of the menu. -/
def chooseLab (ended : List Heap) : Choice → ProgramState
  | .semaphores (some block) => .semLab ended (semStart initialQueueSize block)
  | .condVariables (some block) =>
      .condLab ended (condStart initialQueueSize block)
  | .exit => .exited ended
  | .semaphores none | .condVariables none | .incorrect => .menu ended

/-- One step of the program. -/
def programStep : ProgramState → ProgramAction → Option ProgramState
  | .menu ended, .choose choice => some (chooseLab ended choice)
  | .semLab ended state, .sem action =>
      (semStep state action).map (.semLab ended)
  | .condLab ended state, .cond action =>
      (condStep state action).map (.condLab ended)
  | .semLab ended state, .joined =>
      if state.JoinsReturn .finished .finished then
        some (.menu (ended ++ [(destroyQueueSem state.queue state.heap).2]))
      else none
  | .condLab ended state, .joined =>
      if state.JoinsReturn .finished .finished then
        some (.menu (ended ++ [(destroyQueueCond state.queue state.heap).2]))
      else none
  | _, _ => none

/-- The program, from the first menu on. -/
def program : Machine ProgramState ProgramAction where
  initial state := state = .menu []
  step := programStep

/-- The steps of the program: a choice at the menu, a step of the running lab,
or the end of its joins. -/
inductive ProgramMove : ProgramState → ProgramAction → ProgramState → Prop
  | chosen (ended : List Heap) (choice : Choice) :
      ProgramMove (.menu ended) (.choose choice) (chooseLab ended choice)
  | sem {state next : SemState} {action : SemAction} (ended : List Heap)
      (advanced : semStep state action = some next) :
      ProgramMove (.semLab ended state) (.sem action) (.semLab ended next)
  | cond {state next : CondState} {action : CondAction} (ended : List Heap)
      (advanced : condStep state action = some next) :
      ProgramMove (.condLab ended state) (.cond action) (.condLab ended next)
  | semJoined {state : SemState} (ended : List Heap)
      (returns : state.JoinsReturn .finished .finished) :
      ProgramMove (.semLab ended state) .joined
        (.menu (ended ++ [(destroyQueueSem state.queue state.heap).2]))
  | condJoined {state : CondState} (ended : List Heap)
      (returns : state.JoinsReturn .finished .finished) :
      ProgramMove (.condLab ended state) .joined
        (.menu (ended ++ [(destroyQueueCond state.queue state.heap).2]))

theorem programStep_move
    {state next : ProgramState}
    {action : ProgramAction}
    (stepped : programStep state action = some next) :
    ProgramMove state action next := by
  cases state with
  | exited ended => cases action <;> cases stepped
  | menu ended =>
      cases action with
      | sem | cond | joined => cases stepped
      | choose choice =>
          cases stepped
          exact .chosen ended choice
  | semLab ended state =>
      cases action with
      | choose | cond => cases stepped
      | sem action =>
          obtain ⟨next, advanced, rfl⟩ := Option.map_eq_some_iff.mp stepped
          exact .sem ended advanced
      | joined =>
          obtain ⟨returns, left⟩ := Option.ite_none_right_eq_some.mp stepped
          cases left
          exact .semJoined ended returns
  | condLab ended state =>
      cases action with
      | choose | sem => cases stepped
      | cond action =>
          obtain ⟨next, advanced, rfl⟩ := Option.map_eq_some_iff.mp stepped
          exact .cond ended advanced
      | joined =>
          obtain ⟨returns, left⟩ := Option.ite_none_right_eq_some.mp stepped
          cases left
          exact .condJoined ended returns

/-! ## The menu comes back -/

/-- The menu is shown. -/
def ProgramState.atMenu : ProgramState → Bool
  | .menu _ => true
  | _ => false

/-- A lab is running although `keep_running` is cleared. -/
def ProgramState.Stopped : ProgramState → Prop
  | .semLab _ state => state.control.keepRunning = false
  | .condLab _ state => state.control.keepRunning = false
  | _ => False

theorem ProgramState.Stopped.current
    {state : ProgramState}
    (stopped : state.Stopped) :
    state.current ≠ none := by
  cases state with
  | menu | exited => exact stopped.elim
  | semLab | condLab => exact nofun

/-- What is left of the lab. -/
def ProgramState.rank : ProgramState → Nat ×ₗ Nat
  | .semLab _ state => state.rank semSteps
  | .condLab _ state => state.rank condSteps
  | _ => toLex (0, 0)

/-- A stopped lab comes closer to its end or is left for the menu. -/
theorem programStep_closes
    {state next : ProgramState}
    {action : ProgramAction}
    (stopped : state.Stopped)
    (stepped : programStep state action = some next) :
    next.atMenu = true ∨ next.Stopped ∧ next.rank < state.rank := by
  cases programStep_move stepped with
  | chosen => exact stopped.elim
  | sem _ advanced =>
      exact .inr ((semStep_closes stopped advanced).closes stopped)
  | cond _ advanced =>
      exact .inr ((condStep_closes stopped advanced).closes stopped)
  | semJoined | condJoined => exact .inl rfl

/-- When nothing is possible any more, the program has exited. -/
theorem program_stuck_iff {state : ProgramState} :
    program.Stuck state ↔ ∃ ended, state = .exited ended := by
  constructor
  · intro stuck
    cases state with
    | menu ended => cases stuck (.choose .incorrect)
    | exited ended => exact ⟨ended, rfl⟩
    | semLab ended state =>
        have isOver : state.Over .finished .finished := by
          apply (semMachine_stuck_iff initialQueueSize).mp
          intro action
          exact Option.map_eq_none_iff.mp (stuck (.sem action))
        have left : programStep (.semLab ended state) .joined = none :=
          stuck .joined
        rw [programStep, if_pos isOver.joinsReturn] at left
        cases left
    | condLab ended state =>
        have isOver : state.Over .finished .finished := by
          apply (condMachine_stuck_iff initialQueueSize).mp
          intro action
          exact Option.map_eq_none_iff.mp (stuck (.cond action))
        have left : programStep (.condLab ended state) .joined = none :=
          stuck .joined
        rw [programStep, if_pos isOver.joinsReturn] at left
        cases left
  · rintro ⟨ended, rfl⟩ action
    cases action <;> rfl

/-- A thread is added in room. -/
def ProgramState.AddsInRoom : ProgramState → ProgramAction → Prop
  | .semLab _ state, .sem action => state.AddsInRoom action.turn
  | .condLab _ state, .cond action => state.AddsInRoom action.turn
  | _, _ => True

/-- All threads of the running lab have their handles in the arrays. -/
def ProgramState.Numbered : ProgramState → Prop
  | .semLab _ state => state.Numbered
  | .condLab _ state => state.Numbered
  | _ => True

/-- The running lab is over: its main thread is at the joins and every worker
has finished. -/
def ProgramState.Over : ProgramState → Prop
  | .semLab _ state => state.Over .finished .finished
  | .condLab _ state => state.Over .finished .finished
  | _ => False

theorem ProgramState.Numbered.step
    {state next : ProgramState}
    {action : ProgramAction}
    (numbered : state.Numbered)
    (inRoom : state.AddsInRoom action)
    (stepped : programStep state action = some next) :
    next.Numbered := by
  cases programStep_move stepped with
  | chosen ended choice =>
      cases choice with
      | semaphores block =>
          cases block with
          | none => trivial
          | some block => exact semStart_numbered initialQueueSize block
      | condVariables block =>
          cases block with
          | none => trivial
          | some block => exact condStart_numbered initialQueueSize block
      | exit | incorrect => trivial
  | sem _ advanced =>
      exact LabState.Numbered.step numbered inRoom (semStep_labStep advanced)
  | cond _ advanced =>
      exact LabState.Numbered.step numbered inRoom (condStep_labStep advanced)
  | semJoined | condJoined => trivial

/-- A lab whose threads have their handles in the arrays is left for the menu
when it is over. -/
theorem ProgramState.Numbered.over
    {state next : ProgramState}
    {action : ProgramAction}
    (numbered : state.Numbered)
    (running : state.current ≠ none)
    (stepped : programStep state action = some next)
    (back : next.atMenu = true) :
    state.Over := by
  cases programStep_move stepped with
  | chosen => exact absurd rfl running
  | sem | cond => cases back
  | semJoined _ returns | condJoined _ returns =>
      exact LabState.Numbered.over numbered returns

/-- No message is inserted after a resize that landed exactly on the count
without another resize in between. -/
def ProgramState.InsertsSafely : ProgramState → ProgramAction → Prop
  | .semLab _ state, .sem action => SemInsertsSafely state action
  | .condLab _ state, .cond action => CondInsertsSafely state action
  | _, _ => True

/-- Every message was destroyed, and once only. -/
def Heap.AllDestroyed (heap : Heap) : Prop :=
  heap.destroyed.Perm (List.range heap.allocated)

/-- No message was destroyed twice, and none that was not created. -/
def Heap.NoneTwice (heap : Heap) : Prop :=
  heap.destroyed.Nodup ∧ ∀ msg ∈ heap.destroyed, msg < heap.allocated

/-- The account of the labs that are over and of the running one. -/
def ProgramState.Kept (state : ProgramState) : Prop :=
  (∀ heap ∈ state.ended, heap.AllDestroyed) ∧
    match state with
    | .semLab _ state => SemKept state
    | .condLab _ state => CondKept state
    | .menu _ | .exited _ => True

/-- Nobody has a message in hand when a lab is over; what is left is stored. -/
theorem LabState.Accounted.destroyLoop
    {Queue ProducerPc ConsumerPc : Type}
    {carriers : Carriers ProducerPc ConsumerPc}
    {producerEnd : ProducerPc}
    {consumerEnd : ConsumerPc}
    {queue : CircularQueue}
    {state : LabState Queue ProducerPc ConsumerPc}
    (accounted : state.Accounted carriers queue)
    (invariant : RingInvariant queue state.history)
    (isOver : state.Over producerEnd consumerEnd)
    (freshEnd : carriers.fresh producerEnd = none)
    (takenEnd : carriers.taken consumerEnd = none) :
    (queue.destroyLoop queue.count queue.head state.heap).AllDestroyed := by
  have fresh : Lifetime.carried (fun thread => carriers.fresh thread.pc)
      state.producers = 0 := by
    apply (Multiset.coe_eq_zero _).mpr
    apply List.filterMap_eq_nil_iff.mpr
    intro thread member
    rw [isOver.producers thread member, freshEnd]
  have taken : Lifetime.carried (fun thread => carriers.taken thread.pc)
      state.consumers = 0 := by
    apply (Multiset.coe_eq_zero _).mpr
    apply List.filterMap_eq_nil_iff.mpr
    intro thread member
    rw [isOver.consumers thread member, takenEnd]
  unfold LabState.Accounted at accounted
  rw [fresh, taken, zero_add, add_zero, Multiset.coe_add,
    ← Multiset.coe_range, Multiset.coe_eq_coe] at accounted
  rw [queue.destroyLoop_eq queue.count queue.head
    (fun _ => invariant.headBound)]
  exact List.perm_append_comm.trans accounted

/-- Every step of the program keeps account of the messages. -/
theorem ProgramState.Kept.step
    {state next : ProgramState}
    {action : ProgramAction}
    (kept : state.Kept)
    (numbered : state.Numbered)
    (inserts : state.InsertsSafely action)
    (stepped : programStep state action = some next) :
    next.Kept := by
  obtain ⟨isOver, running⟩ := kept
  have ended : ∀ {heap : Heap} {heaps : List Heap},
      (∀ heap ∈ heaps, heap.AllDestroyed) → heap.AllDestroyed →
        ∀ heap' ∈ heaps ++ [heap], heap'.AllDestroyed := by
    intro heap heaps before last heap' member
    rcases List.mem_append.mp member with earlier | new
    · exact before heap' earlier
    · rw [List.mem_singleton.mp new]
      exact last
  cases programStep_move stepped with
  | chosen heaps choice =>
      cases choice with
      | semaphores block =>
          cases block with
          | none => exact ⟨isOver, trivial⟩
          | some block => exact ⟨isOver, semKept_start (by decide) block⟩
      | condVariables block =>
          cases block with
          | none => exact ⟨isOver, trivial⟩
          | some block => exact ⟨isOver, condKept_start (by decide) block⟩
      | exit | incorrect => exact ⟨isOver, trivial⟩
  | sem heaps advanced => exact ⟨isOver, running.step inserts advanced⟩
  | cond heaps advanced => exact ⟨isOver, running.step inserts advanced⟩
  | semJoined heaps returns | condJoined heaps returns =>
      have finished := LabState.Numbered.over numbered returns
      exact ⟨ended isOver (running.accounted.destroyLoop running.ring
        finished rfl rfl), trivial⟩

/-- In a run of the program through any labs, in which every thread is added in
room and no message is inserted right after a resize to exactly the count:
whenever a lab is over, each of its messages was destroyed exactly once, and
while a lab runs no message has been destroyed twice. -/
theorem program_destroys_each_once
    (actions : List ProgramAction)
    (final : ProgramState)
    (executed : program.run (.menu []) actions = some final)
    (inRoom : program.EveryStep ProgramState.AddsInRoom (.menu []) actions)
    (safely : program.EveryStep ProgramState.InsertsSafely (.menu []) actions) :
    (∀ heap ∈ final.ended, heap.AllDestroyed) ∧
      ∀ heap, final.current = some heap → heap.NoneTwice := by
  have starts : (ProgramState.menu []).Kept ∧ (ProgramState.menu []).Numbered :=
    ⟨⟨fun heap member => absurd member List.not_mem_nil, trivial⟩, trivial⟩
  have preserved : ∀ state action next,
      state.Kept ∧ state.Numbered →
        state.AddsInRoom action ∧ state.InsertsSafely action →
          program.step state action = some next →
            next.Kept ∧ next.Numbered :=
    fun _ _ _ ⟨kept, numbered⟩ ⟨room, inserts⟩ stepped =>
      ⟨kept.step numbered inserts stepped, numbered.step room stepped⟩
  have kept : program.EveryState
      (fun state => state.Kept ∧ state.Numbered) (.menu []) actions :=
    Machine.everyState_of_everyStep preserved starts (inRoom.and safely)
  obtain ⟨⟨ended, running⟩, -⟩ := kept.last executed
  refine ⟨ended, fun heap current => ?_⟩
  cases final with
  | menu | exited => cases current
  | semLab _ state =>
      cases current
      exact running.accounted.destroyed
  | condLab _ state =>
      cases current
      exact running.accounted.destroyed

instance (state : ProgramState) (action : ProgramAction) :
    Decidable (state.InsertsSafely action) :=
  match state, action with
  | .semLab _ state, .sem action =>
      inferInstanceAs (Decidable (SemInsertsSafely state action))
  | .condLab _ state, .cond action =>
      inferInstanceAs (Decidable (CondInsertsSafely state action))
  | .menu _, _ | .exited _, _ | .semLab _ _, .choose _ | .semLab _ _, .cond _
  | .semLab _ _, .joined | .condLab _ _, .choose _ | .condLab _ _, .sem _
  | .condLab _ _, .joined => isTrue trivial

instance (state : ProgramState) (action : ProgramAction) :
    Decidable (state.AddsInRoom action) :=
  match state, action with
  | .semLab _ state, .sem action =>
      inferInstanceAs (Decidable (state.AddsInRoom action.turn))
  | .condLab _ state, .cond action =>
      inferInstanceAs (Decidable (state.AddsInRoom action.turn))
  | .menu _, _ | .exited _, _ | .semLab _ _, .choose _ | .semLab _ _, .cond _
  | .semLab _ _, .joined | .condLab _ _, .choose _ | .condLab _ _, .sem _
  | .condLab _ _, .joined => isTrue trivial

/-- A lab in which a producer inserts two messages and a consumer takes one. -/
def twoMessages : List ProgramAction :=
  let producer := ProgramAction.cond (.producer 0 .woken true)
  let consumer := ProgramAction.cond (.consumer 0 .woken none)
  let command := fun key => [ProgramAction.cond (.main .idle),
    ProgramAction.cond (.main key)]
  [.choose (.condVariables (some fun _ => 0))] ++
  command (.addProducer .created) ++ List.replicate 6 producer ++
  command (.addConsumer .created) ++ List.replicate 4 consumer ++
  command .quit ++ List.replicate 8 (.cond (.main .idle)) ++
  [producer, producer, consumer, consumer, .joined]

/-- Incorrect choices follow for ever. -/
def twoMessagesRun
    (heap : Heap)
    (ran : program.run (.menu []) twoMessages = some (.menu [heap])) :
    Machine.InfiniteRun program :=
  .idling program (.menu []) (.menu [heap]) twoMessages (.choose .incorrect)
    ran rfl

/-- One of the two messages is destroyed by the consumer, the other together
with the queue. -/
theorem twoMessages_destroyed :
    ∃ heap, program.run (.menu []) twoMessages = some (.menu [heap]) ∧
      heap.allocated = 2 ∧ heap.AllDestroyed := by
  have executed : ∃ heap,
      program.run (.menu []) twoMessages = some (.menu [heap]) ∧
        heap.allocated = 2 :=
    ⟨_, rfl, rfl⟩
  obtain ⟨heap, ran, two⟩ := executed
  have destroyed := (program_destroys_each_once twoMessages (.menu [heap]) ran
    (by decide +kernel) (by decide +kernel)).1
  exact ⟨heap, ran, two, destroyed heap (List.mem_singleton_self heap)⟩

end ThreadQueue
end OSaSP
