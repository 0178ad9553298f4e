import OSaSP.ThreadQueue.LabControl

/-!
# Threads, flags and counts of the main thread

The thread with an id sits at that place of its list, and no more flags are
set below the next id than the count of the main thread says: a thread that
gives up clears its own flag and leaves the count alone.
-/

namespace OSaSP
namespace ThreadQueue

/-- The flags set below an id. -/
def activeBelow (active : Nat → Bool) : Nat → Nat
  | 0 => 0
  | next + 1 => activeBelow active next + (if active next then 1 else 0)

theorem activeBelow_congr
    {left right : Nat → Bool}
    {next : Nat}
    (same : ∀ id < next, left id = right id) :
    activeBelow left next = activeBelow right next := by
  induction next with
  | zero => rfl
  | succ next inductionHypothesis =>
      rw [activeBelow, activeBelow, same next (Nat.lt_succ_self next),
        inductionHypothesis fun id below => same id (by omega)]

/-- Flags from the next id on do not count. -/
theorem activeBelow_update
    (active : Nat → Bool)
    {next id : Nat}
    (outside : next ≤ id)
    (value : Bool) :
    activeBelow (Function.update active id value) next =
      activeBelow active next :=
  activeBelow_congr fun other below =>
    Function.update_of_ne (by omega) value active

theorem activeBelow_stop_le
    (active : Nat → Bool)
    (next id : Nat) :
    activeBelow (Function.update active id false) next ≤
      activeBelow active next := by
  induction next with
  | zero => exact Nat.le_refl _
  | succ next inductionHypothesis =>
      simp only [activeBelow]
      by_cases same : next = id
      · subst same
        simp only [Function.update_self, Bool.false_eq_true, if_false]
        omega
      · rw [Function.update_of_ne same]
        omega

/-- Clearing a set flag leaves one less. -/
theorem activeBelow_clear
    {active : Nat → Bool}
    {next id : Nat}
    (below : id < next)
    (set : active id = true) :
    activeBelow (Function.update active id false) next + 1 =
      activeBelow active next := by
  induction next with
  | zero => omega
  | succ next inductionHypothesis =>
      by_cases last : id = next
      · subst last
        simp [activeBelow, activeBelow_update, set]
      · have fewer := inductionHypothesis (by omega)
        have other : next ≠ id := fun same => last same.symm
        simp only [activeBelow, Function.update_of_ne other]
        omega

/-- The search finds a set flag. -/
theorem lastActive_eq_some
    {active : Nat → Bool}
    {next id : Nat}
    (found : lastActive active next = some id) :
    id < next ∧ active id = true := by
  induction next with
  | zero => cases found
  | succ next inductionHypothesis =>
      unfold lastActive at found
      split at found
      · rename_i set
        rw [Option.some.injEq] at found
        subst found
        exact ⟨Nat.lt_succ_self _, set⟩
      · obtain ⟨below, set⟩ := inductionHypothesis found
        exact ⟨Nat.lt_succ_of_lt below, set⟩

/-- One kind of threads with its flags and counters. -/
structure Crew
    {Pc : Type}
    (pool : List (Thread Pc))
    (active : Nat → Bool)
    (next : Nat)
    (count : Int) : Prop where
  size : pool.length = next
  ids : ∀ index (thread : Thread Pc), pool[index]? = some thread →
    thread.id = index
  counted : (activeBelow active next : Int) ≤ count

namespace Crew

variable {Pc : Type} {pool : List (Thread Pc)} {active : Nat → Bool}
  {next : Nat} {count : Int}

theorem empty (active : Nat → Bool) :
    Crew ([] : List (Thread Pc)) active 0 0 :=
  ⟨rfl, by simp, Int.le_refl _⟩

theorem count_nonneg (crew : Crew pool active next count) : 0 ≤ count := by
  have counted := crew.counted
  omega

/-- Every thread has an id given before. -/
theorem id_lt
    (crew : Crew pool active next count)
    {thread : Thread Pc}
    (member : thread ∈ pool) :
    thread.id < next := by
  obtain ⟨index, found⟩ := List.mem_iff_getElem?.mp member
  rw [crew.ids index thread found, ← crew.size]
  exact (List.getElem?_eq_some_iff.mp found).1

theorem present
    (crew : Crew pool active next count)
    {id : Nat}
    (below : id < next) :
    ∃ pc, pool[id]? = some ⟨id, pc⟩ := by
  have inside : id < pool.length := by
    rw [crew.size]
    exact below
  have found := List.getElem?_eq_getElem inside
  refine ⟨(pool.get ⟨id, inside⟩).pc, ?_⟩
  rw [found]
  have numbered := crew.ids id _ found
  cases place : pool.get ⟨id, inside⟩ with
  | mk number pc =>
      have same : pool[id] = ⟨number, pc⟩ := place
      rw [same] at numbered ⊢
      rw [show number = id from numbered]

/-- Flags from the next id on are of no concern. -/
theorem update
    (crew : Crew pool active next count)
    (value : Bool) :
    Crew pool (Function.update active next value) next count :=
  ⟨crew.size, crew.ids, by
    rw [activeBelow_update active (Nat.le_refl next)]
    exact crew.counted⟩

theorem join
    (crew : Crew pool active next count)
    (start : Pc) :
    Crew (pool ++ [⟨next, start⟩]) (Function.update active next true)
      (next + 1) (count + 1) where
  size := by simp [crew.size]
  ids := by
    intro index thread found
    rw [List.getElem?_append] at found
    split at found
    · exact crew.ids index thread found
    · rename_i outside
      rw [List.getElem?_singleton] at found
      split at found
      · rename_i last
        have size := crew.size
        rw [Option.some.injEq] at found
        subst found
        change next = index
        omega
      · cases found
  counted := by
    have counted := crew.counted
    simp only [activeBelow, activeBelow_update active (Nat.le_refl next),
      Function.update_self, if_true]
    omega

/-- A thread clears its own flag. -/
theorem stop
    (crew : Crew pool active next count)
    (id : Nat) :
    Crew pool (Function.update active id false) next count :=
  ⟨crew.size, crew.ids, by
    have counted := crew.counted
    have fewer := activeBelow_stop_le active next id
    omega⟩

/-- The main thread clears a flag and counts one thread less. -/
theorem remove
    (crew : Crew pool active next count)
    {id : Nat}
    (found : lastActive active next = some id) :
    Crew pool (Function.update active id false) next (count - 1) :=
  ⟨crew.size, crew.ids, by
    have counted := crew.counted
    obtain ⟨below, set⟩ := lastActive_eq_some found
    have fewer := activeBelow_clear below set
    omega⟩

/-- The main thread clears all flags. -/
theorem deactivate (crew : Crew pool active next count) :
    Crew pool (fun id => if id < next then false else active id) next
      count :=
  ⟨crew.size, crew.ids, by
    have counted := crew.counted
    have none : activeBelow
        (fun id => if id < next then false else active id) next =
          activeBelow (fun _ => false) next :=
      activeBelow_congr fun id below => if_pos below
    have zero : ∀ next, activeBelow (fun _ => false) next = 0 := by
      intro next
      induction next with
      | zero => rfl
      | succ next inductionHypothesis =>
          simp [activeBelow, inductionHypothesis]
    rw [none, zero]
    omega⟩

/-- A thread moves. -/
theorem move
    (crew : Crew pool active next count)
    {index : Nat}
    {thread : Thread Pc}
    (present : pool[index]? = some thread)
    (pc : Pc) :
    Crew (pool.set index ⟨thread.id, pc⟩) active next count where
  size := by rw [List.length_set, crew.size]
  ids := by
    intro other moved found
    rw [List.getElem?_set] at found
    split at found
    · rename_i same
      subst same
      split at found
      · rw [Option.some.injEq] at found
        subst found
        exact crew.ids index thread present
      · cases found
    · exact crew.ids other moved found
  counted := crew.counted

end Crew

/-- Both kinds of threads. -/
structure LabState.Crewed
    {Queue ProducerPc ConsumerPc : Type}
    (state : LabState Queue ProducerPc ConsumerPc) : Prop where
  producers : Crew state.producers state.control.producerActive
    state.control.nextProducerId state.control.producerCount
  consumers : Crew state.consumers state.control.consumerActive
    state.control.nextConsumerId state.control.consumerCount

section MainThread

variable {Queue ProducerPc ConsumerPc : Type}
  {lab : Lab Queue ProducerPc ConsumerPc}
  {state next : LabState Queue ProducerPc ConsumerPc}

theorem LabState.Crewed.execute
    (crewed : state.Crewed)
    (command : Command) :
    (lab.execute state command).Crewed := by
  obtain ⟨producers, consumers⟩ := crewed
  cases command with
  | idle | requestResize | quit => exact ⟨producers, consumers⟩
  | addProducer outcome =>
      unfold Lab.execute LabState.addProducer
      dsimp only
      split
      · cases outcome with
        | noMemory | notCreated => exact ⟨producers.update _, consumers⟩
        | created => exact ⟨producers.join _, consumers⟩
      · exact ⟨producers, consumers⟩
  | addConsumer outcome =>
      unfold Lab.execute LabState.addConsumer
      dsimp only
      split
      · cases outcome with
        | noMemory | notCreated => exact ⟨producers, consumers.update _⟩
        | created => exact ⟨producers, consumers.join _⟩
      · exact ⟨producers, consumers⟩
  | removeProducer =>
      unfold Lab.execute LabState.removeProducer
      dsimp only
      split
      · exact ⟨producers, consumers⟩
      · rename_i found
        exact ⟨producers.remove found, consumers⟩
  | removeConsumer =>
      unfold Lab.execute LabState.removeConsumer
      dsimp only
      split
      · exact ⟨producers, consumers⟩
      · rename_i found
        exact ⟨producers, consumers.remove found⟩

theorem LabState.Crewed.mainStep
    {command : Command}
    (crewed : state.Crewed)
    (stepped : lab.mainStep command state = some next) :
    next.Crewed := by
  obtain ⟨producers, consumers⟩ := crewed
  unfold Lab.mainStep at stepped
  dsimp only at stepped
  split at stepped <;> cases stepped
  · exact ⟨producers, consumers⟩
  · exact LabState.Crewed.execute ⟨producers, consumers⟩ command
  · exact ⟨producers.deactivate, consumers.deactivate⟩
  · exact ⟨producers, consumers⟩
  · exact ⟨producers, consumers⟩
  · exact ⟨producers, consumers⟩
  · exact ⟨producers, consumers⟩

end MainThread

end ThreadQueue
end OSaSP
