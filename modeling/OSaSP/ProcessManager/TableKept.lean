import OSaSP.ProcessManager.Listing
import Mathlib.Data.List.Perm.Subperm

/-!
# The array at the prompt

Every statement takes the listing of its place to that of the next one, so the
main program alone keeps the array right.  With the handler in between it does
as long as the handler reaps only children that are reapable at the place where
it interrupts the main program.  Reaping the child that is being deleted, for
example, makes the main program remove a second entry, and with one child
decrement the size at zero.
-/

namespace OSaSP
namespace ProcessManager

open Segment

namespace State

variable {state next : State} {pid index : Nat}

/-- What holds between two statements. -/
structure Tidy (state : State) : Prop where
  sound : state.Sound
  listing : state.Listing

/-- The listing of a known place. -/
theorem Tidy.listing_at
    (tidy : state.Tidy)
    {place : Place}
    (atPlace : state.place = place) :
    (state.goto place).Listing := by
  have same : state.goto place = state := by
    rw [← atPlace]
    rfl
  rw [same]
  exact tidy.listing

/-! ## Small steps -/

theorem Sound.goto (sound : state.Sound) (place : Place) :
    (state.goto place).Sound :=
  sound.of_eq rfl rfl rfl rfl sound.fits rfl rfl

/-- Entries inside the array may be used, and the array changed, where the
pointer leads to the whole block. -/
theorem Sound.touch
    (sound : state.Sound)
    {indices : List Nat}
    (room : state.room = state.capacity)
    (inside : ∀ index ∈ indices, index < state.capacity)
    (table : Nat → ProcessInfo) :
    { state.touch indices with table }.Sound := by
  rw [← room] at inside
  exact sound.of_eq rfl rfl rfl rfl sound.fits (inBounds_touch inside) rfl

/-- There are not more children than process ids. -/
theorem Sound.length_expected (sound : state.Sound) :
    state.expected.length ≤ pidLimit := by
  have inRange : state.expected ⊆ List.range pidLimit := fun pid member =>
    List.mem_range.mpr (sound.pidBound pid (sound.known pid member))
  have bound := (List.Nodup.subperm sound.expectedNodup inRange).length_le
  rwa [List.length_range] at bound

/-- Taking the last entry off. -/
theorem pids_decrement (positive : 0 < state.size) :
    state.decrement.pids = state.pids.dropLast := by
  have split : state.size = state.size - 1 + 1 := by omega
  have cut := slice_succ (fun index => (state.table index).pid) 0
    (state.size - 1)
  rw [← split] at cut
  unfold pids
  rw [size_decrement, pred_of_pos positive, cut]
  exact List.dropLast_concat.symm

theorem Sound.decrement
    (sound : state.Sound)
    (positive : 0 < state.size) :
    state.decrement.Sound := by
  have fits := sound.fits
  refine sound.of_eq rfl rfl rfl rfl ?_ rfl ?_
  · rw [size_decrement, pred_of_pos positive]
    omega
  · have notZero : (state.size == 0) = false := by
      rw [beq_eq_false_iff_ne]
      omega
    change (state.wrapped || state.size == 0) = state.wrapped
    rw [notZero, Bool.or_false]

/-- A size is at most one more than the index before it, also at zero. -/
theorem size_le_pred (state : State) : state.size ≤ pred state.size + 1 := by
  unfold pred
  split <;> omega

theorem length_of_listed (listed : state.Listed) :
    state.expected.length = state.size := by
  rw [← listed, length_pids]

/-- A full array is doubled, far from the end of its type. -/
theorem Listed.growing
    (listed : state.Listed)
    (sound : state.Sound)
    (full : state.size ≥ state.capacity) :
    state.Growing (state.capacity * 2 % sizeModulus) := by
  have length := length_of_listed listed
  have bound := sound.length_expected
  have small : pidLimit * 2 < sizeModulus := by decide
  exact ⟨listed, Nat.mod_eq_of_lt (by omega), by omega⟩

/-- The array is replaced by a copy. -/
theorem Listed.assign
    (listed : state.Listed)
    {tmp : Nat → ProcessInfo}
    (copy : ∀ index < state.size, tmp index = state.table index) :
    { state with table := tmp }.Listed := by
  have same : { state with table := tmp }.pids = state.pids := by
    apply slice_congr
    intro index _ inside
    have below : index < state.size := by
      rw [Nat.zero_add] at inside
      exact inside
    exact congrArg ProcessInfo.pid (copy index below)
  unfold Listed
  rw [same]
  exact listed

/-- The entry behind the last one is filled. -/
theorem Appending.fill
    (appending : state.Appending pid)
    (entry : ProcessInfo) :
    { state.touch [state.size] with
      table := Function.update state.table state.size entry
    }.Appending pid := by
  refine ⟨?_, appending.2⟩
  have same : { state.touch [state.size] with
      table := Function.update state.table state.size entry }.pids =
      state.pids := by
    apply slice_congr
    intro index _ inside
    have below : index < state.size := by
      rw [Nat.zero_add] at inside
      exact inside
    change (Function.update state.table state.size entry index).pid = _
    rw [Function.update_of_ne (by omega)]
  rw [same]
  exact appending.1

/-- The new entry is taken in. -/
theorem Appending.increment
    (appending : state.Appending pid)
    (sound : state.Sound)
    (filled : (state.table state.size).pid = pid) :
    { state with size := (state.size + 1) % sizeModulus }.Listed ∧
      { state with size := (state.size + 1) % sizeModulus }.Sound := by
  obtain ⟨expected, room⟩ := appending
  have bound := sound.capacityBound
  have small : 2 * pidLimit < sizeModulus := by decide
  have exact : (state.size + 1) % sizeModulus = state.size + 1 :=
    Nat.mod_eq_of_lt (by omega)
  rw [exact]
  refine ⟨?_, sound.of_eq rfl rfl rfl rfl room rfl rfl⟩
  change slice (fun index => (state.table index).pid) 0 (state.size + 1) =
    state.expected
  rw [slice_succ, Nat.zero_add, expected]
  exact congrArg (fun last => state.pids ++ [last]) filled

/-- The entry to be deleted is the last one. -/
theorem Listed.targeting
    (listed : state.Listed)
    (inside : index < state.size)
    (last : state.size ≤ index + 1) :
    state.Targeting (state.table index).pid := by
  have size : state.size = index + 1 := by omega
  refine ⟨listed, slice (fun index => (state.table index).pid) 0 index, ?_⟩
  have cut := slice_succ (fun index => (state.table index).pid) 0 index
  rw [← size, Nat.zero_add] at cut
  exact listed.symm.trans cut

/-- From the signal on the last child is deleted but listed. -/
theorem Targeting.kill
    (targeting : state.Targeting pid)
    (sound : state.Sound) :
    { state with expected := state.expected.erase pid }.Leaving pid ∧
      { state with expected := state.expected.erase pid }.Sound := by
  obtain ⟨listed, front, expected⟩ := targeting
  constructor
  · have notInFront : pid ∉ front := by
      have nodup := sound.expectedNodup
      rw [expected, List.nodup_append] at nodup
      exact fun member =>
        nodup.2.2 pid member pid (List.mem_singleton_self pid) rfl
    change state.pids = state.expected.erase pid ++ [pid]
    rw [listed, expected, List.erase_append_right _ notInFront,
      List.erase_cons_head, List.append_nil]
  · exact ⟨sound.nodup, sound.pidBound, sound.expectedNodup.erase pid,
      fun other member => sound.known other (List.mem_of_mem_erase member),
      sound.fits, sound.capacityLarge, sound.capacityBound, sound.inBounds,
      sound.notWrapped⟩

theorem Leaving.size_pos (leaving : state.Leaving pid) : 0 < state.size := by
  have length := congrArg List.length leaving
  rw [length_pids, List.length_append, List.length_singleton] at length
  omega

/-- The deleted child is taken off. -/
theorem Leaving.decrement (leaving : state.Leaving pid) :
    state.decrement.Listed := by
  unfold Listed
  rw [pids_decrement leaving.size_pos, leaving]
  exact List.dropLast_concat

/-! ## The gap that `main` closes -/

variable {j : Nat}

theorem Gap.size_pos (gap : state.Gap j) : 0 < state.size := by
  obtain ⟨front, hole, back, pids, -⟩ := gap
  have length := congrArg List.length pids
  rw [length_pids, List.length_append, List.length_cons] at length
  omega

/-- The reaped child is found. -/
theorem gap_of_found
    (found : state.findProcessIndexByPid pid = some index)
    (erased : state.pids.erase pid = state.expected)
    (reaped : pid ∉ state.children) :
    state.Gap index := by
  obtain ⟨-, front, back, split, length, notInFront⟩ := pids_of_found found
  refine ⟨front, pid, back, split, ?_, fun child => absurd child reaped,
    .inl length⟩
  rw [← erased, split, List.erase_append_right _ notInFront,
    List.erase_cons_head]

/-- The entry behind the gap moves into it. -/
theorem Gap.shift
    (gap : state.Gap j)
    (garbage : state.size ≤ j + 1 →
      (state.table (j + 1)).pid ∉ state.children) :
    (state.shift j).Gap (j + 1) := by
  obtain ⟨front, hole, back, pids, expected, held, position⟩ := gap
  have length := congrArg List.length pids
  rw [length_pids, List.length_append, List.length_cons] at length
  have written : (state.shift j).pids =
      (front ++ hole :: back).set j (state.table (j + 1)).pid := by
    rw [← pids]
    have moved := Function.comp_update ProcessInfo.pid state.table j
      (state.table (j + 1))
    exact (congrArg (fun memory => slice memory 0 state.size) moved).trans
      (slice_update _ j _ state.size)
  rcases Nat.lt_or_ge (j + 1) state.size with inside | atEnd
  · -- The next child is listed twice now, the second time in the gap.
    have before : front.length = j := by
      rcases position with equal | ⟨rfl, _⟩
      · exact equal
      · rw [List.length_nil] at length
        omega
    obtain ⟨first, rest, rfl⟩ := List.exists_cons_of_length_pos
      (by omega : 0 < back.length)
    have second := getElem?_slice
      (fun index => (state.table index).pid) 0 inside
    have entry : (state.table (j + 1)).pid = first := by
      change state.pids[j + 1]? = _ at second
      rw [pids, List.getElem?_append_right (by omega), Nat.zero_add] at second
      have one : j + 1 - front.length = 1 := by omega
      rw [one] at second
      exact (Option.some.inj second).symm
    refine ⟨front ++ [first], first, rest, ?_, ?_, ?_, ?_⟩
    · rw [written, entry, ← before, List.set_append_right _ _ (Nat.le_refl _),
        Nat.sub_self, List.append_assoc]
      rfl
    · rw [List.append_assoc]
      exact expected
    · intro _
      change first ∈ state.expected
      rw [expected]
      simp
    · left
      rw [List.length_append, before, List.length_singleton]
  · have empty : back = [] := by
      rcases position with equal | ⟨empty, _⟩
      · exact List.length_eq_zero_iff.mp (by omega)
      · exact empty
    subst empty
    by_cases last : front.length = j
    · -- A reaped child moves into the gap at the end.
      refine ⟨front, (state.table (j + 1)).pid, [], ?_, expected,
        fun child => absurd child (garbage atEnd), .inr ⟨rfl, by omega⟩⟩
      rw [written, ← last, List.set_append_right _ _ (Nat.le_refl _),
        Nat.sub_self]
      rfl
    · refine ⟨front, hole, [], ?_, expected, held, .inr ⟨rfl, by omega⟩⟩
      rw [written]
      apply List.set_eq_of_length_le
      rw [List.length_append, List.length_singleton]
      omega

/-- The gap at the end is taken off. -/
theorem Gap.decrement
    (gap : state.Gap j)
    (atEnd : state.size ≤ j + 1) :
    state.decrement.Listed := by
  have positive := gap.size_pos
  obtain ⟨front, hole, back, pids, expected, -, position⟩ := gap
  have length := congrArg List.length pids
  rw [length_pids, List.length_append, List.length_cons] at length
  have empty : back = [] := by
    rcases position with equal | ⟨empty, _⟩
    · exact List.length_eq_zero_iff.mp (by omega)
    · exact empty
  subst empty
  unfold Listed
  rw [pids_decrement positive, pids, List.dropLast_concat]
  exact (expected.trans (List.append_nil front)).symm

theorem lt_of_mem_searched (member : index ∈ state.searched pid) :
    index < state.size := by
  unfold searched at member
  cases found : state.findProcessIndexByPid pid with
  | none =>
      rw [found] at member
      exact List.mem_range.mp member
  | some idx =>
      rw [found] at member
      have bound := List.mem_range.mp member
      have inside := (pids_of_found found).1
      omega

/-! ## Statements -/

/-- A statement of the main program goes from the listing of its place to that
of the next one. -/
theorem Tidy.run
    (tidy : state.Tidy)
    (ran : runStatement state = some next) :
    next.Tidy := by
  obtain ⟨sound, listing⟩ := tidy
  have fits := sound.fits
  unfold runStatement at ran
  unfold Listing at listing
  cases place : state.place <;> simp only [place] at ran listing
  case prompt | plusRealloc | plusFork | wait => cases ran
  case plusCheck =>
      split at ran <;> rename_i full <;> cases ran
      · exact ⟨sound.goto _, listing.growing sound full⟩
      · exact ⟨sound.goto _, listing, Nat.lt_of_not_ge full⟩
  case plusAssign newCapacity =>
      cases ran
      exact ⟨sound.goto _, listing⟩
  case plusAssignMoved newCapacity tmp =>
      cases ran
      obtain ⟨⟨listed, growing⟩, copy⟩ := listing
      exact ⟨sound.of_eq rfl rfl rfl rfl fits rfl rfl, listed.assign copy,
        growing⟩
  case plusCapacity newCapacity =>
      cases ran
      obtain ⟨listed, double, bound⟩ := listing
      have large := sound.capacityLarge
      have positive : 0 < initialCapacity := by decide
      subst double
      refine ⟨⟨sound.nodup, sound.pidBound, sound.expectedNodup, sound.known,
        ?_, ?_, ?_, sound.inBounds, sound.notWrapped⟩, listed, ?_⟩
      · change state.size ≤ state.capacity * 2
        omega
      · change initialCapacity ≤ state.capacity * 2
        omega
      · change state.capacity * 2 ≤ 2 * pidLimit
        omega
      · change state.size < state.capacity * 2
        omega
  case plusCall pid =>
      cases ran
      exact ⟨sound.goto _, listing, rfl⟩
  case initName pid index =>
      cases ran
      have room : state.room = state.capacity := by rw [State.room, place]
      obtain ⟨appending, rfl⟩ := listing
      exact ⟨(sound.touch room (by simpa using appending.2) _).goto _,
        appending.fill _, rfl⟩
  case initPid pid index =>
      cases ran
      have room : state.room = state.capacity := by rw [State.room, place]
      obtain ⟨appending, rfl⟩ := listing
      refine ⟨(sound.touch room (by simpa using appending.2) _).goto _,
        appending.fill _, ?_⟩
      change (Function.update state.table state.size
        { state.table state.size with pid } state.size).pid = pid
      rw [Function.update_self]
  case plusReport pid =>
      cases ran
      have room : state.room = state.capacity := by rw [State.room, place]
      exact ⟨(sound.touch room (by simpa using listing.1.2) state.table).goto _,
        listing⟩
  case plusIncrement pid =>
      cases ran
      obtain ⟨listed, sound⟩ := listing.1.increment sound listing.2
      exact ⟨sound.goto _, listed⟩
  case minusCheck | killAllCheck | killAllTest =>
      split at ran <;> cases ran <;> exact ⟨sound.goto _, listing⟩
  case minusCall | killAllCall =>
      cases ran
      exact ⟨sound.goto _, listing, size_le_pred state⟩
  case deleteCheck looping index =>
      split at ran <;> rename_i inside
      · unfold leaveDelete at ran
        cases looping <;> cases ran <;> exact ⟨sound.goto _, listing.1⟩
      · cases ran
        have inside := Nat.lt_of_not_ge inside
        exact ⟨sound.goto _, listing.1.targeting inside listing.2, listing.2,
          Nat.lt_of_lt_of_le inside fits⟩
  case deleteRead looping index =>
      cases ran
      have room : state.room = state.capacity := by rw [State.room, place]
      exact ⟨(sound.touch room (by simpa using listing.2.2) state.table).goto _,
        listing.1, listing.2.1⟩
  case deleteKill looping index pid =>
      cases ran
      obtain ⟨leaving, sound⟩ := listing.1.kill sound
      exact ⟨sound.goto _, leaving, listing.2⟩
  case deleteShiftTest looping i pid =>
      have last := pred_of_pos listing.1.size_pos
      rw [if_neg (by omega)] at ran
      cases ran
      exact ⟨sound.goto _, listing.1⟩
  case deleteDecrement looping pid =>
      have sound := sound.decrement listing.size_pos
      unfold leaveDelete at ran
      cases looping <;> cases ran <;>
        exact ⟨sound.goto _, listing.decrement⟩
  case waitFind pid =>
      have room : state.room = state.capacity := by rw [State.room, place]
      have inside : ∀ index ∈ state.searched pid, index < state.capacity :=
        fun index member =>
          Nat.lt_of_lt_of_le (lt_of_mem_searched member) fits
      cases found : state.findProcessIndexByPid pid with
      | none =>
          rw [found] at ran
          cases ran
          have absent := not_mem_pids_of_not_found found
          refine ⟨(sound.touch room inside state.table).goto _, ?_⟩
          exact (List.erase_of_not_mem absent).symm.trans listing.1
      | some idx =>
          rw [found] at ran
          cases ran
          exact ⟨(sound.touch room inside state.table).goto _,
            gap_of_found found listing.1 listing.2,
            Nat.lt_of_lt_of_le (pids_of_found found).1 fits⟩
  case waitReport idx =>
      cases ran
      have room : state.room = state.capacity := by rw [State.room, place]
      exact ⟨(sound.touch room (by simpa using listing.2) state.table).goto _,
        listing.1⟩
  case waitShiftTest j =>
      have last := pred_of_pos listing.size_pos
      split at ran <;> cases ran
      · refine ⟨sound.goto _, listing, ?_, ?_⟩
        · change j + 1 < state.capacity
          omega
        · intro atEnd
          change state.size ≤ j + 1 at atEnd
          omega
      · refine ⟨sound.goto _, listing, ?_⟩
        change state.size ≤ j + 1
        omega
  case waitShift j =>
      cases ran
      have room : state.room = state.capacity := by rw [State.room, place]
      obtain ⟨gap, inside, garbage⟩ := listing
      have used : ∀ index ∈ [j, j + 1], index < state.capacity := by
        simp only [List.mem_cons, List.not_mem_nil, or_false]
        omega
      exact ⟨(sound.touch room used _).goto _, gap.shift garbage⟩
  case waitDecrement j =>
      cases ran
      exact ⟨(sound.decrement listing.1.size_pos).goto _,
        listing.1.decrement listing.2⟩

/-! ## The other steps -/

/-- The handler runs through children that are all reapable. -/
theorem Tidy.signalHandler
    {pids : List Nat}
    (tidy : state.Tidy)
    (dead : pids.Perm state.zombies)
    (reapable : ∀ pid ∈ pids, state.Reapable pid) :
    (signalHandler pids state).Tidy := by
  induction pids generalizing state with
  | nil => exact tidy
  | cons pid pids inductionHypothesis =>
      have round := handled state pid
      rw [List.forall_mem_cons] at reapable
      have member : pid ∈ state.zombies :=
        dead.mem_iff.mp (List.mem_cons_self ..)
      have listing := round.listing tidy.sound member reapable.1 tidy.listing
      have sound := round.sound tidy.sound member reapable.1
      apply inductionHypothesis ⟨sound, listing⟩
      · rw [round.zombies]
        exact (List.cons_perm_iff_perm_erase.mp dead).2
      · exact fun other otherMember =>
          round.reapable reapable.1 tidy.listing (reapable.2 other otherMember)

/-- A new child is forked. -/
theorem Tidy.forked
    (tidy : state.Tidy)
    (forking : state.place = .plusFork)
    (bounded : pid < pidLimit)
    (fresh : pid ∉ state.alive ++ state.zombies) :
    ({ state with
      alive := state.alive ++ [pid]
      expected := state.expected ++ [pid] }.goto (.plusCall pid)).Tidy := by
  obtain ⟨listed, room⟩ : state.Listed ∧ state.size < state.capacity :=
    tidy.listing_at forking
  have sound := tidy.sound
  have unexpected : pid ∉ state.expected := fun member =>
    fresh (sound.known pid member)
  have perm : (state.alive ++ [pid] ++ state.zombies).Perm
      (pid :: state.children) := by
    rw [List.append_assoc]
    exact List.perm_middle
  refine ⟨⟨?_, ?_, ?_, ?_, sound.fits, sound.capacityLarge,
    sound.capacityBound, sound.inBounds, sound.notWrapped⟩, ?_, room⟩
  · exact perm.nodup_iff.mpr (List.nodup_cons.mpr ⟨fresh, sound.nodup⟩)
  · intro other member
    rcases List.mem_cons.mp (perm.mem_iff.mp member) with rfl | old
    · exact bounded
    · exact sound.pidBound other old
  · exact (List.perm_append_singleton pid _).nodup_iff.mpr
      (List.nodup_cons.mpr ⟨unexpected, sound.expectedNodup⟩)
  · intro other member
    apply perm.mem_iff.mpr
    rcases List.mem_append.mp member with old | new
    · exact .tail _ (sound.known other old)
    · exact List.mem_cons.mpr (.inl (List.mem_singleton.mp new))
  · change state.expected ++ [pid] = state.pids ++ [pid]
    rw [listed]

/-- A gap does not depend on the order of the children. -/
theorem Gap.of_perm
    (gap : state.Gap j)
    (children : next.children.Perm state.children)
    (pids : next.pids = state.pids)
    (expected : next.expected = state.expected) :
    next.Gap j := by
  unfold Gap
  rw [pids, expected]
  obtain ⟨front, hole, back, split, rest, held, position⟩ := gap
  exact ⟨front, hole, back, split, rest,
    fun member => held (children.mem_iff.mp member), position⟩

/-- A child dies. -/
theorem Tidy.die
    (tidy : state.Tidy)
    (living : pid ∈ state.alive) :
    { state with
      alive := state.alive.erase pid
      zombies := state.zombies ++ [pid] }.Tidy := by
  obtain ⟨sound, listing⟩ := tidy
  have perm : (state.alive.erase pid ++ (state.zombies ++ [pid])).Perm
      state.children := by
    rw [← List.append_assoc]
    refine (List.perm_append_singleton pid _).trans ?_
    exact ((List.perm_cons_erase living).append_right _).symm
  have same : ∀ {child}, child ∉ state.children →
      child ∉ state.alive.erase pid ++ (state.zombies ++ [pid]) :=
    fun reaped member => reaped (perm.mem_iff.mp member)
  refine ⟨sound.of_perm perm rfl rfl sound.fits rfl rfl, ?_⟩
  unfold Listing at listing ⊢
  cases place : state.place <;> simp only [place] at listing ⊢
  case waitFind => exact ⟨listing.1, same listing.2⟩
  case waitReport => exact ⟨listing.1.of_perm perm rfl rfl, listing.2⟩
  case waitShiftTest => exact listing.of_perm perm rfl rfl
  case waitShift =>
      exact ⟨listing.1.of_perm perm rfl rfl, listing.2.1,
        fun atEnd => same (listing.2.2 atEnd)⟩
  case waitDecrement => exact ⟨listing.1.of_perm perm rfl rfl, listing.2⟩
  all_goals exact listing

end State

/-- The handler interrupts only where it reaps reapable children. -/
def Bearable (state : State) (action : Action) : Prop :=
  match action with
  | .handler pids => ∀ pid ∈ pids, state.Reapable pid
  | _ => True

instance (state : State) (action : Action) :
    Decidable (Bearable state action) := by
  unfold Bearable
  cases action <;> exact inferInstance

/-- A bearable step keeps the array tidy. -/
theorem State.Tidy.step
    {state next : State}
    {action : Action}
    (tidy : state.Tidy)
    (bearable : Bearable state action)
    (stepped : step state action = some next) :
    next.Tidy := by
  cases action with
  | run => exact tidy.run stepped
  | handler pids =>
      simp only [ProcessManager.step] at stepped
      split at stepped <;> cases stepped
      exact tidy.signalHandler ‹_› bearable
  | die pid =>
      simp only [ProcessManager.step] at stepped
      split at stepped <;> cases stepped
      exact tidy.die ‹_›
  | forked pid =>
      simp only [ProcessManager.step] at stepped
      split at stepped
      · rename_i forking
        split at stepped <;> cases stepped
        rename_i fresh
        exact tidy.forked forking fresh.2.1 fresh.2.2
      · cases stepped
  | waited pid =>
      simp only [ProcessManager.step] at stepped
      split at stepped
      · rename_i waiting
        split at stepped <;> cases stepped
        rename_i dead
        have listed : state.Listed := tidy.listing_at waiting
        refine ⟨(tidy.sound.reaped dead).goto _, ?_, ?_⟩
        · change state.pids.erase pid = state.expected.erase pid
          rw [listed]
        · change pid ∉ (state.reaped pid).children
          rw [tidy.sound.children_reaped dead]
          exact tidy.sound.nodup.not_mem_erase
      · cases stepped
  | command command =>
      simp only [ProcessManager.step] at stepped
      split at stepped <;> cases stepped
      have listing := tidy.listing_at ‹_›
      cases command <;> exact ⟨tidy.sound.goto _, listing⟩
  | reallocInPlace =>
      simp only [ProcessManager.step] at stepped
      split at stepped <;> cases stepped
      rename_i place
      have growing := tidy.listing_at place
      exact ⟨tidy.sound.goto _, growing⟩
  | reallocMoved =>
      simp only [ProcessManager.step] at stepped
      split at stepped <;> cases stepped
      rename_i place
      have growing := tidy.listing_at place
      exact ⟨tidy.sound.goto _, growing, fun _ _ => rfl⟩
  | reallocFailed | forkFailed =>
      simp only [ProcessManager.step] at stepped
      split at stepped <;> cases stepped
      rename_i place
      have listing := tidy.listing_at place
      exact ⟨tidy.sound.goto _, listing.1⟩
  | waitedNone =>
      simp only [ProcessManager.step] at stepped
      split at stepped
      · rename_i waiting
        split at stepped <;> cases stepped
        have listed : state.Listed := tidy.listing_at waiting
        exact ⟨tidy.sound.goto _, listed⟩
      · cases stepped

/-- The size was never decremented at zero and every index used was inside the
array; and at the prompt the array lists, in the order of their creation and
each once, the children that were created and neither deleted nor reaped. -/
structure TableKept (state : State) : Prop where
  notWrapped : state.wrapped = false
  inBounds : state.inBounds = true
  listed : state.place = .prompt →
    state.pids = state.expected ∧ state.expected.Nodup

theorem tidy_start (table : Nat → ProcessInfo) : (start table).Tidy :=
  ⟨⟨List.nodup_nil, fun _ member => absurd member List.not_mem_nil,
    List.nodup_nil, fun _ member => absurd member List.not_mem_nil,
    Nat.zero_le _, Nat.le_refl _,
    (by decide : initialCapacity ≤ 2 * pidLimit), rfl, rfl⟩, rfl⟩

/-- In every run in which the handler reaps only children that are reapable at
the place where it interrupts the main program, the array is kept. -/
theorem reachableUnder_tableKept
    (table : Nat → ProcessInfo)
    (state : State)
    (reachable : (manager table).ReachableUnder Bearable state) :
    TableKept state := by
  have tidy : state.Tidy := by
    apply Machine.ReachableUnder.invariant _ _ reachable
    · rintro state rfl
      exact tidy_start table
    · intro state action next tidy bearable stepped
      exact tidy.step bearable stepped
  refine ⟨tidy.sound.notWrapped, tidy.sound.inBounds, fun atPrompt => ?_⟩
  have listed : state.Listed := tidy.listing_at atPrompt
  exact ⟨listed, tidy.sound.expectedNodup⟩

/-- A child is forked and taken into an array with a free entry. -/
def create (pid : Nat) : List Action :=
  [.command .plus, .run, .forked pid, .run, .run, .run, .run, .run,
    .waitedNone]

/-- The array is filled; while it grows where it is and while the last child is
deleted, others die and the handler takes them out. -/
def reapInWindows : List Action :=
  [100, 101, 102, 103, 104, 105, 106, 107].flatMap create ++
  [.command .plus, .run, .reallocInPlace, .die 103, .handler [103], .run, .run,
    .forked 108, .run, .run, .run, .run, .run, .waitedNone] ++
  [.command .minus, .run, .run, .run, .run, .run, .die 100, .die 101,
    .handler [101, 100], .run, .run, .die 108, .waited 108, .run, .waitedNone]

/-- A single child is deleted, and dies just before the main program takes it
off. -/
def dieBeforeDecrement : List Action :=
  create 100 ++ [.command .minus, .run, .run, .run, .run, .run, .run,
    .die 100, .handler [100], .run]

/-- An array of zeros, as `calloc` returns it. -/
def zeroTable : Nat → ProcessInfo := fun _ => ⟨0, [], 0⟩

theorem reapInWindows_tableKept :
    ∃ state,
      (manager zeroTable).run (start zeroTable) reapInWindows = some state ∧
      state.pids = [102, 104, 105, 106, 107] ∧
      state.capacity = 16 ∧ TableKept state := by
  have executed :
      ((manager zeroTable).run (start zeroTable) reapInWindows).map
        (fun state => (state.pids, state.capacity)) =
      some ([102, 104, 105, 106, 107], 16) := by
    decide +kernel
  obtain ⟨state, ran, values⟩ := Option.map_eq_some_iff.mp executed
  obtain ⟨pids, capacity⟩ := Prod.mk.inj values
  have bearable : (manager zeroTable).EveryStep Bearable (start zeroTable)
      reapInWindows := by
    decide +kernel
  have reachable : (manager zeroTable).ReachableUnder Bearable state :=
    .of_everyStep (.initial rfl) bearable ran
  exact ⟨state, ran, pids, capacity,
    reachableUnder_tableKept zeroTable state reachable⟩

/-- Reaping the child between the signal and the decrement wraps the size. -/
theorem not_every_run_tableKept :
    ¬∀ (table : Nat → ProcessInfo) (state : State),
      (manager table).Reachable state → TableKept state := by
  intro every
  have executed : ∃ state,
      (manager zeroTable).run (start zeroTable) dieBeforeDecrement =
        some state ∧ state.wrapped = true :=
    ⟨_, rfl, rfl⟩
  obtain ⟨state, ran, wrapped⟩ := executed
  have kept := every zeroTable state
    (Machine.Reachable.run (.initial rfl) ran)
  exact absurd (wrapped.symm.trans kept.notWrapped) (by decide)

end ProcessManager
end OSaSP
