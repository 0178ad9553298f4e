import OSaSP.ProcessManager.Handler

/-!
# The array between two statements

At the prompt the array lists the expected children.  Between the statements of
a command it lists them up to one: the child that is being appended, the one
that is being deleted, or a gap that is being closed.  `Listing` says for each
place which it is.

A round of the handler keeps the listing of every place if it is `Reapable`
there: at most places any child is, and at the others all but those that would
invalidate what the main program has already read.
-/

namespace OSaSP
namespace ProcessManager

open Segment

namespace State

variable (state : State)

/-- The children that have not been reaped. -/
def children : List Nat := state.alive ++ state.zombies

/-- The array lists what it should. -/
def Listed : Prop := state.pids = state.expected

/-- The array is about to grow. -/
def Growing (newCapacity : Nat) : Prop :=
  state.Listed ∧ newCapacity = state.capacity * 2 ∧
    state.capacity ≤ pidLimit

/-- A new child is not listed yet, and there is room for it. -/
def Appending (pid : Nat) : Prop :=
  state.expected = state.pids ++ [pid] ∧ state.size < state.capacity

/-- The last child of the array is going to be deleted. -/
def Targeting (pid : Nat) : Prop :=
  state.Listed ∧ ∃ front, state.expected = front ++ [pid]

/-- A deleted child is still listed behind all others. -/
def Leaving (pid : Nat) : Prop :=
  state.pids = state.expected ++ [pid]

/-- One entry has to go: that at `j`, or the last one if `j` is not before
it.  What stands in the gap is a reaped child or one that is listed anyway. -/
def Gap (j : Nat) : Prop :=
  ∃ front hole back, state.pids = front ++ hole :: back ∧
    state.expected = front ++ back ∧
    (hole ∈ state.children → hole ∈ state.expected) ∧
    (front.length = j ∨ back = [] ∧ front.length ≤ j)

/-- How the array differs from the expected children at each place. -/
def Listing : Prop :=
  match state.place with
  | .plusRealloc newCapacity | .plusAssign newCapacity
  | .plusCapacity newCapacity => state.Growing newCapacity
  | .plusAssignMoved newCapacity tmp =>
      state.Growing newCapacity ∧
        ∀ index < state.size, tmp index = state.table index
  | .plusFork => state.Listed ∧ state.size < state.capacity
  | .plusCall pid => state.Appending pid
  | .initName pid index | .initPid pid index =>
      state.Appending pid ∧ index = state.size
  | .plusReport pid | .plusIncrement pid =>
      state.Appending pid ∧ (state.table state.size).pid = pid
  | .deleteCheck _ index => state.Listed ∧ state.size ≤ index + 1
  | .deleteRead _ index =>
      state.Targeting (state.table index).pid ∧ state.size ≤ index + 1 ∧
        index < state.capacity
  | .deleteKill _ index pid =>
      state.Targeting pid ∧ state.size ≤ index + 1
  | .deleteShiftTest _ i pid => state.Leaving pid ∧ state.size ≤ i + 1
  | .deleteShift _ _ _ => False
  | .deleteDecrement _ pid => state.Leaving pid
  | .waitFind pid =>
      state.pids.erase pid = state.expected ∧ pid ∉ state.children
  | .waitReport idx => state.Gap idx ∧ idx < state.capacity
  | .waitShiftTest j => state.Gap j
  | .waitShift j =>
      state.Gap j ∧ j + 1 < state.capacity ∧
        (state.size ≤ j + 1 → (state.table (j + 1)).pid ∉ state.children)
  | .waitDecrement j => state.Gap j ∧ state.size ≤ j + 1
  | _ => state.Listed

/-- The main program can bear that the handler reaps the child now.

It cannot bear any loss while its pointer leads to a freed block, since the
handler reads through it, the loss of a listed child while it holds the index of
a new entry, the loss of the new child before it is listed, the loss of a child
that it is deleting, and, while it closes a gap, the loss of a child listed up
to the gap, unless the gap has come to the end. -/
def Reapable (pid : Nat) : Prop :=
  match state.place with
  | .plusAssignMoved _ _ => False
  | .plusCall new => pid ≠ new
  | .initName new _ | .initPid new _ | .plusReport new | .plusIncrement new =>
      pid ≠ new ∧ pid ∉ state.pids
  | .deleteRead _ index => pid ≠ (state.table index).pid
  | .deleteKill _ _ target | .deleteShiftTest _ _ target
  | .deleteShift _ _ target | .deleteDecrement _ target => pid ≠ target
  | .waitReport j | .waitShiftTest j | .waitShift j | .waitDecrement j =>
      state.size ≤ j + 1 ∨ pid ∉ state.pids.take (j + 1)
  | _ => True

instance (pid : Nat) : Decidable (state.Reapable pid) := by
  unfold Reapable
  cases state.place <;> exact inferInstance

/-- What holds at every place. -/
structure Sound : Prop where
  nodup : state.children.Nodup
  pidBound : ∀ pid ∈ state.children, pid < pidLimit
  expectedNodup : state.expected.Nodup
  known : ∀ pid ∈ state.expected, pid ∈ state.children
  fits : state.size ≤ state.capacity
  capacityLarge : initialCapacity ≤ state.capacity
  capacityBound : state.capacity ≤ 2 * pidLimit
  inBounds : state.inBounds = true
  notWrapped : state.wrapped = false

section Handled

variable {state next : State} {pid : Nat}

/-- Where anything may be reaped the pointer leads to the whole block. -/
theorem Reapable.room (reapable : state.Reapable pid) :
    state.room = state.capacity := by
  unfold Reapable at reapable
  unfold State.room
  cases place : state.place <;> simp only [place] at reapable ⊢

/-- Erasing anything but the last entry. -/
theorem erase_concat_of_ne
    (front : List Nat)
    {last : Nat}
    (different : pid ≠ last) :
    (front ++ [last]).erase pid = front.erase pid ++ [last] := by
  rw [List.erase_append]
  split
  · rfl
  · rename_i absent
    rw [List.erase_of_not_mem absent,
      List.erase_of_not_mem (by simpa using different)]

/-- Soundness depends on the size only by its bound, on the children up to their
order, and not on the place and the entries. -/
theorem Sound.of_perm
    (sound : state.Sound)
    (children : next.children.Perm state.children)
    (expected : next.expected = state.expected)
    (capacity : next.capacity = state.capacity)
    (fits : next.size ≤ state.capacity)
    (inBounds : next.inBounds = state.inBounds)
    (wrapped : next.wrapped = state.wrapped) :
    next.Sound := by
  constructor
  · exact children.nodup_iff.mpr sound.nodup
  · exact fun pid member =>
      sound.pidBound pid (children.mem_iff.mp member)
  · rw [expected]
    exact sound.expectedNodup
  · rw [expected]
    exact fun pid member =>
      children.mem_iff.mpr (sound.known pid member)
  · rw [capacity]
    exact fits
  · rw [capacity]
    exact sound.capacityLarge
  · rw [capacity]
    exact sound.capacityBound
  · rw [inBounds]
    exact sound.inBounds
  · rw [wrapped]
    exact sound.notWrapped

theorem Sound.of_eq
    (sound : state.Sound)
    (alive : next.alive = state.alive)
    (zombies : next.zombies = state.zombies)
    (expected : next.expected = state.expected)
    (capacity : next.capacity = state.capacity)
    (fits : next.size ≤ state.capacity)
    (inBounds : next.inBounds = state.inBounds)
    (wrapped : next.wrapped = state.wrapped) :
    next.Sound := by
  have children : next.children = state.children := by
    unfold children
    rw [alive, zombies]
  exact sound.of_perm (children ▸ List.Perm.refl _) expected capacity fits
    inBounds wrapped

/-- A reaped child leaves the children. -/
theorem Sound.children_reaped
    (sound : state.Sound)
    (dead : pid ∈ state.zombies) :
    (state.reaped pid).children = state.children.erase pid := by
  have notAlive : pid ∉ state.alive := by
    intro alive
    exact (List.nodup_append.mp sound.nodup).2.2 pid alive pid dead rfl
  exact (List.erase_append_right _ notAlive).symm

theorem Sound.reaped
    (sound : state.Sound)
    (dead : pid ∈ state.zombies) :
    (state.reaped pid).Sound := by
  have children := sound.children_reaped dead
  refine ⟨?_, ?_, sound.expectedNodup.erase pid, ?_, sound.fits,
    sound.capacityLarge, sound.capacityBound, sound.inBounds,
    sound.notWrapped⟩
  · rw [children]
    exact sound.nodup.erase pid
  · rw [children]
    exact fun other member =>
      sound.pidBound other (List.mem_of_mem_erase member)
  · intro other member
    rw [children]
    have expected := (sound.expectedNodup.mem_erase_iff).mp member
    exact (sound.nodup.mem_erase_iff).mpr
      ⟨expected.1, sound.known other expected.2⟩

theorem Handled.children
    (handled : Handled state pid next)
    (sound : state.Sound)
    (dead : pid ∈ state.zombies) :
    next.children = state.children.erase pid := by
  rw [← sound.children_reaped dead]
  unfold State.children
  rw [handled.alive, handled.zombies]
  rfl

theorem Handled.sound
    (handled : Handled state pid next)
    (sound : state.Sound)
    (dead : pid ∈ state.zombies)
    (reapable : state.Reapable pid) :
    next.Sound := by
  have fits : state.size ≤ state.room := by
    rw [reapable.room]
    exact sound.fits
  exact (sound.reaped dead).of_eq handled.alive handled.zombies
    handled.expected handled.capacity (handled.size_le.trans sound.fits)
    (handled.inBounds fits) handled.wrapped

theorem Handled.listed
    (handled : Handled state pid next)
    (listed : state.Listed) :
    next.Listed := by
  unfold State.Listed at listed ⊢
  rw [handled.pids, handled.expected, listed]

theorem Handled.growing
    (handled : Handled state pid next)
    {newCapacity : Nat}
    (growing : state.Growing newCapacity) :
    next.Growing newCapacity := by
  obtain ⟨listed, capacity, bound⟩ := growing
  refine ⟨handled.listed listed, ?_, ?_⟩
  · rw [handled.capacity]
    exact capacity
  · rw [handled.capacity]
    exact bound

theorem Handled.appending
    (handled : Handled state pid next)
    {new : Nat}
    (different : pid ≠ new)
    (appending : state.Appending new) :
    next.Appending new := by
  obtain ⟨expected, room⟩ := appending
  constructor
  · rw [handled.pids, handled.expected, expected,
      erase_concat_of_ne _ different]
  · rw [handled.capacity]
    exact Nat.lt_of_le_of_lt handled.size_le room

theorem Handled.targeting
    (handled : Handled state pid next)
    {target : Nat}
    (different : pid ≠ target)
    (targeting : state.Targeting target) :
    next.Targeting target := by
  obtain ⟨listed, front, expected⟩ := targeting
  refine ⟨handled.listed listed, front.erase pid, ?_⟩
  rw [handled.expected, expected, erase_concat_of_ne _ different]

theorem Handled.leaving
    (handled : Handled state pid next)
    {target : Nat}
    (different : pid ≠ target)
    (leaving : state.Leaving target) :
    next.Leaving target := by
  unfold State.Leaving at leaving ⊢
  rw [handled.pids, handled.expected, leaving,
    erase_concat_of_ne _ different]

/-- A round of the handler while a gap is being closed. -/
theorem Handled.gap
    (handled : Handled state pid next)
    (sound : state.Sound)
    (dead : pid ∈ state.zombies)
    {j : Nat}
    (reapable : state.size ≤ j + 1 ∨ pid ∉ state.pids.take (j + 1))
    (gap : state.Gap j) :
    next.Gap j := by
  obtain ⟨front, hole, back, pids, expected, held, position⟩ := gap
  have length := congrArg List.length pids
  rw [length_pids, List.length_append, List.length_cons] at length
  have children := handled.children sound dead
  have isChild : pid ∈ state.children := List.mem_append_right _ dead
  have held' : hole ∈ next.children → hole ∈ next.expected := by
    rw [children, handled.expected, sound.nodup.mem_erase_iff,
      sound.expectedNodup.mem_erase_iff]
    exact fun ⟨different, member⟩ => ⟨different, held member⟩
  rcases Nat.lt_or_ge (j + 1) state.size with inside | atEnd
  · -- The child is listed behind the gap or not at all.
    have position : front.length = j := by
      rcases position with equal | ⟨rfl, _⟩
      · exact equal
      · rw [List.length_nil] at length
        omega
    have behind : pid ∉ front ++ [hole] := by
      have notBefore := reapable.resolve_left (by omega)
      have cut : front ++ hole :: back = (front ++ [hole]) ++ back := by simp
      rwa [pids, cut, List.take_left' (by simp [position])] at notBefore
    rw [List.mem_append, List.mem_singleton, not_or] at behind
    refine ⟨front, hole, back.erase pid, ?_, ?_, held', .inl position⟩
    · rw [handled.pids, pids, List.erase_append_right _ behind.1,
        List.erase_cons_tail (by simpa using Ne.symm behind.2)]
    · rw [handled.expected, expected, List.erase_append_right _ behind.1]
  · -- The gap is the last entry.
    have empty : back = [] := by
      rcases position with equal | ⟨empty, _⟩
      · exact List.length_eq_zero_iff.mp (by omega)
      · exact empty
    subst empty
    rw [List.append_nil] at expected
    refine ⟨front.erase pid, hole, [], ?_, ?_, held', .inr ⟨rfl, ?_⟩⟩
    · rw [handled.pids, pids]
      by_cases same : pid = hole
      · have inFront : pid ∈ front := by
          rw [same] at isChild ⊢
          exact expected ▸ held isChild
        exact List.erase_append_left _ inFront
      · exact erase_concat_of_ne front same
    · rw [handled.expected, expected, List.append_nil]
    · have shorter := List.length_erase_le (l := front) (a := pid)
      omega

/-- At most one entry is lost. -/
theorem Handled.size_ge (handled : Handled state pid next) :
    state.size ≤ next.size + 1 := by
  have length := congrArg List.length handled.pids
  have bound : state.pids.length - 1 ≤ (state.pids.erase pid).length :=
    List.le_length_erase
  rw [length_pids] at length bound
  omega

/-- A child listed behind `index` whose loss leaves no entry there was listed
last. -/
theorem Handled.last_eq
    (handled : Handled state pid next)
    {index : Nat}
    (notBefore : pid ∉ state.pids.take index)
    (was : index < state.size)
    (now : next.size ≤ index) :
    (state.table index).pid = pid := by
  have listed : pid ∈ state.pids := by
    apply Classical.byContradiction
    intro unlisted
    have same := (handled.unlisted unlisted).1
    omega
  have length := congrArg List.length handled.pids
  rw [length_pids, List.length_erase_of_mem listed, length_pids] at length
  obtain ⟨at', -, below, equal⟩ := mem_slice.mp listed
  have notFront : ¬at' < index := by
    intro front
    apply notBefore
    have cut : state.pids.take index =
        slice (fun index => (state.table index).pid) 0 index :=
      take_slice _ _ (Nat.le_of_lt was)
    rw [cut]
    exact mem_slice.mpr ⟨at', Nat.zero_le _, by omega, equal⟩
  have last : at' = index := by omega
  rw [← last]
  exact equal

/-- A child listed behind the front of the array leaves the front. -/
theorem Handled.take_eq
    (handled : Handled state pid next)
    {count : Nat}
    (inside : count ≤ state.size)
    (notBefore : pid ∉ state.pids.take count) :
    next.pids.take count = state.pids.take count := by
  have split := List.take_append_drop count state.pids
  rw [handled.pids, ← split, List.erase_append_right _ notBefore, split]
  apply List.take_left'
  rw [List.length_take, length_pids]
  omega

/-- A reapable child leaves the place its listing. -/
theorem Handled.listing
    (handled : Handled state pid next)
    (sound : state.Sound)
    (dead : pid ∈ state.zombies)
    (reapable : state.Reapable pid)
    (listing : state.Listing) :
    next.Listing := by
  have shorter := handled.size_le
  unfold Listing at listing ⊢
  unfold Reapable at reapable
  rw [handled.place]
  cases place : state.place <;> simp only [place] at listing reapable ⊢
  case plusRealloc | plusAssign | plusCapacity =>
      exact handled.growing listing
  case plusFork =>
      rw [handled.capacity]
      exact ⟨handled.listed listing.1, by omega⟩
  case plusCall new => exact handled.appending reapable listing
  case initName new index | initPid new index =>
      rw [(handled.unlisted reapable.2).1]
      exact ⟨handled.appending reapable.1 listing.1, listing.2⟩
  case plusReport new | plusIncrement new =>
      obtain ⟨size, table⟩ := handled.unlisted reapable.2
      rw [size, table]
      exact ⟨handled.appending reapable.1 listing.1, listing.2⟩
  case deleteCheck looping index =>
      exact ⟨handled.listed listing.1, by omega⟩
  case deleteRead looping index =>
      obtain ⟨targeting, behind, inside⟩ := listing
      rw [handled.behind index behind, handled.capacity]
      exact ⟨handled.targeting reapable targeting, by omega, inside⟩
  case deleteKill looping index target =>
      exact ⟨handled.targeting reapable listing.1, by omega⟩
  case deleteShiftTest looping i target =>
      exact ⟨handled.leaving reapable listing.1, by omega⟩
  case deleteDecrement looping target =>
      exact handled.leaving reapable listing
  case waitFind target =>
      rw [handled.pids, handled.expected, List.erase_comm, listing.1,
        handled.children sound dead]
      exact ⟨rfl, fun member => listing.2 (List.mem_of_mem_erase member)⟩
  case waitReport idx =>
      rw [handled.capacity]
      exact ⟨handled.gap sound dead reapable listing.1, listing.2⟩
  case waitShiftTest j => exact handled.gap sound dead reapable listing
  case waitShift j =>
      obtain ⟨gap, inside, garbage⟩ := listing
      refine ⟨handled.gap sound dead reapable gap, ?_, ?_⟩
      · rw [handled.capacity]
        exact inside
      · intro atEnd
        have almost := handled.size_ge
        rw [handled.behind (j + 1) (by omega), handled.children sound dead,
          sound.nodup.mem_erase_iff]
        rintro ⟨different, child⟩
        by_cases wasAtEnd : state.size ≤ j + 1
        · exact garbage wasAtEnd child
        · -- The last entry was the only one behind the gap.
          have notBefore := reapable.resolve_left wasAtEnd
          exact different (handled.last_eq notBefore (by omega) atEnd)
  case waitDecrement j =>
      exact ⟨handled.gap sound dead reapable listing.1, by omega⟩
  all_goals exact handled.listed listing

/-- What was reapable besides a reapable child still is. -/
theorem Handled.reapable
    (handled : Handled state pid next)
    (reapable : state.Reapable pid)
    (listing : state.Listing)
    {other : Nat}
    (otherReapable : state.Reapable other) :
    next.Reapable other := by
  have shorter := handled.size_le
  have fewer : next.pids.Sublist state.pids := by
    rw [handled.pids]
    exact List.erase_sublist
  unfold Reapable at reapable otherReapable ⊢
  unfold Listing at listing
  rw [handled.place]
  cases place : state.place <;>
    simp only [place] at listing reapable otherReapable ⊢
  case plusCall => exact otherReapable
  case initName | initPid | plusReport | plusIncrement =>
      exact ⟨otherReapable.1,
        fun member => otherReapable.2 (fewer.subset member)⟩
  case deleteRead looping index =>
      rw [handled.behind index listing.2.1]
      exact otherReapable
  case deleteKill | deleteShiftTest | deleteDecrement => exact otherReapable
  case waitReport j | waitShiftTest j | waitShift j | waitDecrement j =>
      by_cases atEnd : state.size ≤ j + 1
      · exact .inl (by omega)
      · rw [handled.take_eq (by omega) (reapable.resolve_left atEnd)]
        exact .inr (otherReapable.resolve_left atEnd)

end Handled

end State

end ProcessManager
end OSaSP
