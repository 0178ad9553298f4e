import OSaSP.ProcessManager.TableKept
import Mathlib.Data.List.Nodup

/-!
# The names in the array

A child is named after the size of the array at its creation.  Different sizes
give different names, so two listed children share a name exactly if they were
created at the same size.  While children leave from the end only, the present
size was never used for a child that is still listed; after a death in front of
others the next child gets the name of one that lives.

The runs here are those whose handler reaps between two commands, so no
statement of the main program is interrupted.
-/

namespace OSaSP
namespace ProcessManager

open CString Segment

/-- Moving an entry over its predecessor moves the gap. -/
theorem eraseIdx_set_succ
    {Entry : Type}
    (entries : List Entry)
    {j : Nat}
    (inside : j + 1 < entries.length) :
    (entries.set j entries[j + 1]).eraseIdx (j + 1) = entries.eraseIdx j := by
  apply List.ext_getElem?
  intro index
  rcases Nat.lt_trichotomy index j with before | rfl | behind
  · rw [List.getElem?_eraseIdx_of_lt (by omega),
      List.getElem?_eraseIdx_of_lt before, List.getElem?_set_ne (by omega)]
  · rw [List.getElem?_eraseIdx_of_lt (by omega),
      List.getElem?_eraseIdx_of_ge (by omega),
      List.getElem?_set_self (by omega), List.getElem?_eq_getElem inside]
  · rw [List.getElem?_eraseIdx_of_ge (by omega),
      List.getElem?_eraseIdx_of_ge (by omega),
      List.getElem?_set_ne (by omega)]

theorem nodup_concat_iff
    {Entry : Type}
    {entries : List Entry}
    {entry : Entry} :
    (entries ++ [entry]).Nodup ↔ entries.Nodup ∧ entry ∉ entries := by
  rw [← List.concat_eq_append, List.nodup_concat, and_comm]

/-! ## Names and sizes -/

theorem length_decimal_le
    {width number bound : Nat}
    (positive : 0 < bound)
    (wide : width ≤ bound)
    (small : number < 10 ^ bound) :
    (decimal width number).length ≤ bound := by
  have digits := (Nat.length_toDigits_le_iff (b := 10) (by decide)
    positive).mpr small
  unfold decimal
  rw [List.length_append, List.length_replicate, List.length_map]
  omega

/-- Different sizes give different names, as long as the digits fit. -/
theorem childName_injOn
    {first second : Nat}
    (firstSmall : first < 2 * pidLimit)
    (secondSmall : second < 2 * pidLimit)
    (same : childName first = childName second) :
    first = second := by
  have fits : ∀ index < 2 * pidLimit,
      childName index = ascii "C_" ++ decimal 2 index := by
    intro index small
    have digits : (decimal 2 index).length ≤ 13 :=
      length_decimal_le (by decide) (by decide)
        (Nat.lt_trans small (by decide : 2 * pidLimit < 10 ^ 13))
    apply List.take_of_length_le
    rw [List.length_append]
    have word : (ascii "C_").length = 2 := rfl
    have room : initialCapacity * 2 - 1 = 15 := rfl
    omega
  rw [fits first firstSmall, fits second secondSmall] at same
  exact decimal_injective 2 (List.append_cancel_left same)

/-- An entry carries the name of its creation. -/
structure ProcessInfo.Stamped (entry : ProcessInfo) : Prop where
  name : entry.name = childName entry.createdAt
  bound : entry.createdAt < 2 * pidLimit

/-- Entries that were created at different sizes and carry the names of their
creation. -/
structure Distinct (entries : List ProcessInfo) : Prop where
  stamped : ∀ entry ∈ entries, entry.Stamped
  nodup : (entries.map ProcessInfo.createdAt).Nodup

namespace Distinct

variable {entries fewer : List ProcessInfo}

theorem sublist
    (distinct : Distinct entries)
    (sublist : fewer.Sublist entries) :
    Distinct fewer :=
  ⟨fun entry member => distinct.stamped entry (sublist.subset member),
    distinct.nodup.sublist (sublist.map _)⟩

/-- The names are those of the creations. -/
theorem names_eq (distinct : Distinct entries) :
    entries.map ProcessInfo.name =
      (entries.map ProcessInfo.createdAt).map childName := by
  rw [List.map_map]
  exact List.map_congr_left fun entry member =>
    (distinct.stamped entry member).name

/-- Entries created at different sizes have different names. -/
theorem nodup_names (distinct : Distinct entries) :
    (entries.map ProcessInfo.name).Nodup := by
  have small : ∀ size ∈ entries.map ProcessInfo.createdAt,
      size < 2 * pidLimit := by
    intro size member
    obtain ⟨entry, listed, rfl⟩ := List.mem_map.mp member
    exact (distinct.stamped entry listed).bound
  rw [distinct.names_eq]
  exact distinct.nodup.map_on fun first firstMember second secondMember =>
    childName_injOn (small first firstMember) (small second secondMember)

/-- An entry created at a new size joins. -/
theorem concat
    (distinct : Distinct entries)
    {entry : ProcessInfo}
    (stamped : entry.Stamped)
    (fresh : entry.createdAt ∉ entries.map ProcessInfo.createdAt) :
    Distinct (entries ++ [entry]) := by
  refine ⟨?_, ?_⟩
  · intro other member
    rcases List.mem_append.mp member with old | new
    · exact distinct.stamped other old
    · rw [List.mem_singleton.mp new]
      exact stamped
  · rw [List.map_append, List.map_singleton, nodup_concat_iff]
    exact ⟨distinct.nodup, fresh⟩

/-- An entry created at a used size brings its name twice. -/
theorem not_nodup_names_concat
    (distinct : Distinct entries)
    {entry : ProcessInfo}
    (stamped : entry.Stamped)
    (used : entry.createdAt ∈ entries.map ProcessInfo.createdAt) :
    ¬((entries ++ [entry]).map ProcessInfo.name).Nodup := by
  obtain ⟨other, listed, same⟩ := List.mem_map.mp used
  rw [List.map_append, List.map_singleton, nodup_concat_iff]
  rintro ⟨-, unnamed⟩
  apply unnamed
  rw [stamped.name, ← same, ← (distinct.stamped other listed).name]
  exact List.mem_map_of_mem listed

end Distinct

namespace State

variable (state : State)

/-- The entries of the array. -/
def entries : List ProcessInfo :=
  slice state.table 0 state.size

/-- The names in the array. -/
def names : List (List UInt8) :=
  state.entries.map ProcessInfo.name

/-- The sizes of the array at the creations of the listed children. -/
def createdAt : List Nat :=
  state.entries.map ProcessInfo.createdAt

/-- The main program is between two commands: at the prompt, or done with a
command and about to look for dead children. -/
def BetweenCommands : Prop :=
  match state.place with
  | .prompt | .wait => True
  | _ => False

/-- What is known about the entries at each place. -/
def Naming : Prop :=
  match state.place with
  | .initPid _ _ | .plusReport _ | .plusIncrement _ =>
      Distinct state.entries ∧ (state.table state.size).Stamped ∧
        (state.table state.size).createdAt = state.size
  | .waitReport j | .waitShiftTest j | .waitDecrement j =>
      Distinct (state.entries.eraseIdx j)
  | .waitShift j =>
      Distinct (state.entries.eraseIdx j) ∧ j + 1 < state.size
  | _ => Distinct state.entries

end State

/-- The handler reaps only between two commands. -/
def ReapsBetween (state : State) (action : Action) : Prop :=
  (action matches .handler _ : Bool) → (state.place matches .prompt : Bool)

instance (state : State) (action : Action) :
    Decidable (ReapsBetween state action) :=
  inferInstanceAs (Decidable (_ = true → _ = true))

/-- No listed child was created at the present size when a child joins the
array. -/
def JoinsFresh (state : State) (action : Action) : Prop :=
  (action matches .run : Bool) →
    (state.place matches .plusIncrement _ : Bool) →
      state.size ∉ state.createdAt

instance (state : State) (action : Action) :
    Decidable (JoinsFresh state action) :=
  inferInstanceAs (Decidable (_ = true → _ = true → ¬_ ∈ state.createdAt))

namespace State

variable {state next : State}

@[simp] theorem length_entries (state : State) :
    state.entries.length = state.size :=
  length_slice _ _ _

/-- What a changed entry changes. -/
theorem entries_update
    (state : State)
    (index : Nat)
    (entry : ProcessInfo) :
    { state with table := Function.update state.table index entry }.entries =
      state.entries.set index entry :=
  slice_update _ index entry state.size

/-- An entry behind the last one is not listed yet. -/
theorem entries_update_size (state : State) (entry : ProcessInfo) :
    { state with
      table := Function.update state.table state.size entry }.entries =
      state.entries := by
  rw [entries_update]
  exact List.set_eq_of_length_le (by rw [length_entries])

/-- Moving an entry moves the gap. -/
theorem entries_shift
    {j : Nat}
    (inside : j + 1 < state.size) :
    (state.shift j).entries.eraseIdx (j + 1) = state.entries.eraseIdx j := by
  have moved : (state.shift j).entries =
      state.entries.set j (state.table (j + 1)) :=
    entries_update state j (state.table (j + 1))
  have bound : j + 1 < state.entries.length := by
    rw [length_entries]
    exact inside
  have entry : state.entries[j + 1] = state.table (j + 1) := by
    have found := getElem?_slice state.table 0 inside
    rw [Nat.zero_add] at found
    exact (List.getElem?_eq_some_iff.mp found).2
  rw [moved, ← entry]
  exact eraseIdx_set_succ _ bound

/-- The last entry is taken off. -/
theorem entries_decrement (positive : 0 < state.size) :
    state.decrement.entries = state.entries.dropLast := by
  change slice _ 0 (pred state.size) = _
  have last := slice_succ state.table 0 (state.size - 1)
  rw [Nat.sub_add_cancel positive] at last
  rw [pred_of_pos positive, entries, last, List.dropLast_concat]
  rfl

theorem distinct_decrement
    (positive : 0 < state.size)
    (distinct : Distinct state.entries) :
    Distinct state.decrement.entries := by
  rw [entries_decrement positive]
  exact distinct.sublist (List.dropLast_sublist _)

/-- The gap at the end is taken off. -/
theorem distinct_decrement_of_gap
    {j : Nat}
    (positive : 0 < state.size)
    (atEnd : state.size ≤ j + 1)
    (distinct : Distinct (state.entries.eraseIdx j)) :
    Distinct state.decrement.entries := by
  rw [entries_decrement positive]
  rcases Nat.lt_or_ge j state.size with inside | behind
  · have last : j = state.entries.length - 1 := by
      rw [length_entries]
      omega
    rw [last, List.eraseIdx_length_sub_one] at distinct
    exact distinct
  · rw [List.eraseIdx_of_length_le (by rw [length_entries]; exact behind)]
      at distinct
    exact distinct.sublist (List.dropLast_sublist _)

/-- The new entry is taken in. -/
theorem entries_increment (small : state.size + 1 < sizeModulus) :
    { state with size := (state.size + 1) % sizeModulus }.entries =
      state.entries ++ [state.table state.size] := by
  change slice _ 0 ((state.size + 1) % sizeModulus) = _
  rw [Nat.mod_eq_of_lt small, slice_succ, Nat.zero_add]
  rfl

/-- A round of the handler takes at most one entry away. -/
theorem entries_handle (state : State) (pid : Nat) :
    (state.handle pid).entries.Sublist state.entries := by
  unfold handle
  dsimp only
  cases found : (state.reaped pid).findProcessIndexByPid pid with
  | none => exact List.Sublist.refl _
  | some idx =>
      have inside : idx < state.size := (pids_of_found found).1
      have last := pred_of_pos (Nat.zero_lt_of_lt inside)
      have total : state.size - 1 + 1 = state.size := by omega
      have moved := slice_shiftLoop state.table
        (by omega : idx ≤ pred state.size)
        (by omega : pred state.size ≤ idx + state.size)
      rw [last, total] at moved
      change (slice (shiftLoop (pred state.size) state.size idx state.table) 0
        (pred state.size)).Sublist state.entries
      rw [last, moved]
      exact List.eraseIdx_sublist _ _

theorem entries_signalHandler (state : State) (pids : List Nat) :
    (signalHandler pids state).entries.Sublist state.entries := by
  induction pids generalizing state with
  | nil => exact List.Sublist.refl _
  | cons pid pids inductionHypothesis =>
      exact (inductionHypothesis (state.handle pid)).trans
        (entries_handle state pid)

/-! ## Steps -/

/-- The invariant of runs whose handler reaps between two commands. -/
structure Named (state : State) : Prop where
  tidy : state.Tidy
  naming : state.Naming

/-- A statement that is not interrupted goes from what is known about the
entries at its place to what is known at the next one. -/
theorem Named.run
    (named : state.Named)
    (fresh : ∀ pid, state.place = .plusIncrement pid →
      state.size ∉ state.createdAt)
    (ran : runStatement state = some next) :
    next.Naming := by
  obtain ⟨⟨sound, listing⟩, naming⟩ := named
  unfold runStatement at ran
  unfold Listing at listing
  unfold Naming at naming
  cases place : state.place <;> simp only [place] at ran listing naming
  case prompt | plusRealloc | plusFork | wait => cases ran
  case plusCheck | minusCheck | killAllCheck | killAllTest =>
      split at ran <;> cases ran <;> exact naming
  case plusAssign | plusCapacity | plusCall | minusCall | killAllCall
      | deleteRead | deleteKill | plusReport => cases ran; exact naming
  case plusAssignMoved newCapacity tmp =>
      cases ran
      have same : { state with table := tmp }.entries = state.entries := by
        apply slice_congr
        intro index _ inside
        rw [Nat.zero_add] at inside
        exact listing.2 index inside
      change Distinct { state with table := tmp }.entries
      rw [same]
      exact naming
  case initName pid index =>
      cases ran
      obtain ⟨⟨-, small⟩, rfl⟩ := listing
      have bound := sound.capacityBound
      refine ⟨?_, ?_⟩
      · change Distinct (State.entries { state with
          table := Function.update state.table state.size _ })
        rw [entries_update_size]
        exact naming
      · change (Function.update state.table state.size _ state.size).Stamped ∧
          (Function.update state.table state.size _ state.size).createdAt = _
        rw [Function.update_self]
        exact ⟨⟨rfl, Nat.lt_of_lt_of_le small bound⟩, rfl⟩
  case initPid pid index =>
      cases ran
      obtain ⟨-, rfl⟩ := listing
      obtain ⟨distinct, stamped, current⟩ := naming
      refine ⟨?_, ?_⟩
      · change Distinct (State.entries { state with
          table := Function.update state.table state.size _ })
        rw [entries_update_size]
        exact distinct
      · change (Function.update state.table state.size _ state.size).Stamped ∧
          (Function.update state.table state.size _ state.size).createdAt = _
        rw [Function.update_self]
        exact ⟨⟨stamped.name, stamped.bound⟩, current⟩
  case plusIncrement pid =>
      cases ran
      obtain ⟨distinct, stamped, current⟩ := naming
      have small := listing.1.2
      have bound := sound.capacityBound
      have far : 2 * pidLimit < sizeModulus := by decide
      have unused := fresh pid place
      rw [← current] at unused
      change Distinct { state with
        size := (state.size + 1) % sizeModulus }.entries
      rw [entries_increment (by omega)]
      exact distinct.concat stamped unused
  case deleteCheck looping index =>
      split at ran
      · unfold leaveDelete at ran
        cases looping <;> cases ran <;> exact naming
      · cases ran
        exact naming
  case deleteShiftTest looping i pid =>
      have last := pred_of_pos listing.1.size_pos
      rw [if_neg (by omega)] at ran
      cases ran
      exact naming
  case deleteDecrement looping pid =>
      have distinct := distinct_decrement listing.size_pos naming
      unfold leaveDelete at ran
      cases looping <;> cases ran <;> exact distinct
  case waitFind pid =>
      cases found : state.findProcessIndexByPid pid <;> rw [found] at ran <;>
        cases ran
      · exact naming
      · exact naming.sublist (List.eraseIdx_sublist _ _)
  case waitReport idx => cases ran; exact naming
  case waitShiftTest j =>
      have last := pred_of_pos listing.size_pos
      split at ran <;> cases ran
      · refine ⟨naming, ?_⟩
        change j + 1 < state.size
        omega
      · exact naming
  case waitShift j =>
      cases ran
      change Distinct ((state.shift j).entries.eraseIdx (j + 1))
      rw [entries_shift naming.2]
      exact naming.1
  case waitDecrement j =>
      cases ran
      exact distinct_decrement_of_gap listing.1.size_pos listing.2 naming

/-- Where the other steps start, the entries are distinct. -/
theorem Named.distinct
    {place : Place}
    (named : state.Named)
    (starts : state.place = place)
    (other : place matches .prompt | .wait | .plusFork | .plusRealloc _) :
    Distinct state.entries := by
  have naming := named.naming
  unfold Naming at naming
  rw [starts] at naming
  cases place <;> first | exact naming | cases other

theorem prompt_of_reaps
    {pids : List Nat}
    (between : ReapsBetween state (.handler pids)) :
    state.place = .prompt := by
  have atPrompt := between rfl
  cases place : state.place <;> rw [place] at atPrompt <;>
    first | rfl | cases atPrompt

theorem Named.step
    {action : Action}
    (named : state.Named)
    (between : ReapsBetween state action)
    (fresh : JoinsFresh state action)
    (stepped : step state action = some next) :
    next.Named := by
  have bearable : Bearable state action := by
    cases action with
    | handler pids =>
        intro pid _
        rw [Reapable, prompt_of_reaps between]
        trivial
    | _ => trivial
  refine ⟨named.tidy.step bearable stepped, ?_⟩
  cases action with
  | run =>
      apply named.run _ stepped
      intro pid place
      exact fresh rfl (by rw [place])
  | handler pids =>
      simp only [ProcessManager.step] at stepped
      split at stepped <;> cases stepped
      have atPrompt := prompt_of_reaps between
      unfold Naming
      rw [place_signalHandler, atPrompt]
      exact (named.distinct atPrompt rfl).sublist
        (entries_signalHandler state pids)
  | die pid =>
      simp only [ProcessManager.step] at stepped
      split at stepped <;> cases stepped
      exact named.naming
  | forked pid =>
      simp only [ProcessManager.step] at stepped
      split at stepped
      · rename_i forking
        split at stepped <;> cases stepped
        exact named.distinct forking rfl
      · cases stepped
  | waited pid =>
      simp only [ProcessManager.step] at stepped
      split at stepped
      · rename_i waiting
        split at stepped <;> cases stepped
        exact named.distinct waiting rfl
      · cases stepped
  | waitedNone =>
      simp only [ProcessManager.step] at stepped
      split at stepped
      · rename_i waiting
        split at stepped <;> cases stepped
        exact named.distinct waiting rfl
      · cases stepped
  | command command =>
      simp only [ProcessManager.step] at stepped
      split at stepped <;> cases stepped
      have distinct := named.distinct ‹_› rfl
      cases command <;> exact distinct
  | reallocInPlace | reallocMoved | reallocFailed | forkFailed =>
      simp only [ProcessManager.step] at stepped
      split at stepped <;> cases stepped
      exact named.distinct ‹_› rfl

/-- Between two commands the names are distinct. -/
theorem Named.distinct_of_between
    (named : state.Named)
    (between : state.BetweenCommands) :
    state.names.Nodup := by
  unfold BetweenCommands at between
  cases place : state.place <;> rw [place] at between <;>
    first | exact (named.distinct place rfl).nodup_names | exact between.elim

theorem joining_of_used
    {action : Action}
    (used : ¬JoinsFresh state action) :
    ∃ pid, action = .run ∧ state.place = .plusIncrement pid ∧
      state.size ∈ state.createdAt := by
  simp only [JoinsFresh, Classical.not_imp, Classical.not_not] at used
  obtain ⟨running, joining, listed⟩ := used
  have isRun : action = .run := by
    cases action <;> first | rfl | cases running
  cases place : state.place <;> rw [place] at joining <;>
    first | exact ⟨_, isRun, rfl, listed⟩ | cases joining

/-- A child that joins at the size of a listed one has its name as soon as the
command is done. -/
theorem not_distinct_of_used
    {action : Action}
    (named : state.Named)
    (used : ¬JoinsFresh state action)
    (stepped : step state action = some next) :
    ¬(next.BetweenCommands → next.names.Nodup) := by
  obtain ⟨pid, rfl, place, listed⟩ := joining_of_used used
  simp only [ProcessManager.step, runStatement, place] at stepped
  cases stepped
  intro nodup
  have listing := named.tidy.listing
  have naming := named.naming
  unfold Listing at listing
  unfold Naming at naming
  rw [place] at listing naming
  obtain ⟨distinct, stamped, current⟩ := naming
  have small := listing.1.2
  have bound := named.tidy.sound.capacityBound
  have far : 2 * pidLimit < sizeModulus := by decide
  rw [← current] at listed
  have joined : { state with
      size := (state.size + 1) % sizeModulus }.names.Nodup :=
    nodup trivial
  unfold names at joined
  rw [entries_increment (by omega)] at joined
  exact distinct.not_nodup_names_concat stamped listed joined

theorem named_start (table : Nat → ProcessInfo) : (start table).Named :=
  ⟨tidy_start table, (⟨List.forall_mem_nil _, List.nodup_nil⟩ : Distinct [])⟩

end State

/-- In a run whose handler reaps between two commands, the listed names are
distinct between any two commands exactly when no child joins the array while
one is listed that was created when the array had its present size. -/
theorem run_distinct_iff
    (table : Nat → ProcessInfo)
    (actions : List Action)
    (final : State)
    (between :
      (manager table).EveryStep ReapsBetween (start table) actions)
    (executed : (manager table).run (start table) actions = some final) :
    (manager table).EveryState
        (fun state => state.BetweenCommands → state.names.Nodup)
        (start table) actions ↔
      (manager table).EveryStep JoinsFresh (start table) actions :=
  Machine.everyState_iff_everyStep_within
    (fun state (named : State.Named state) => named.distinct_of_between)
    (fun _ _ _ named reaps fresh stepped =>
      named.step reaps fresh stepped)
    (fun _ _ _ named _ used stepped =>
      State.not_distinct_of_used named used stepped)
    (State.named_start table) between executed

/-- The first of two children dies, and a third one is created. -/
def createAfterDeath : List Action :=
  [100, 101].flatMap create ++ [.die 100, .handler [100]] ++ create 102

/-- The third child gets the name of the second. -/
theorem not_every_run_distinct :
    ¬∀ (table : Nat → ProcessInfo) (actions : List Action) (final : State),
      (manager table).EveryStep ReapsBetween (start table) actions →
        (manager table).run (start table) actions = some final →
          (manager table).EveryState
            (fun state => state.BetweenCommands → state.names.Nodup)
            (start table) actions := by
  intro every
  have executed : ∃ final,
      (manager zeroTable).run (start zeroTable) createAfterDeath =
        some final ∧
      final.BetweenCommands ∧ final.names = [childName 1, childName 1] :=
    ⟨_, rfl, trivial, rfl⟩
  obtain ⟨final, ran, between, names⟩ := executed
  have distinct := (every zeroTable createAfterDeath final
    (by decide +kernel) ran).last ran between
  rw [names] at distinct
  simp at distinct

/-- The last of three children dies, and another one is created. -/
def createAfterLastDeath : List Action :=
  [100, 101, 102].flatMap create ++ [.die 102, .handler [102]] ++ create 103

/-- It gets the name of the dead one, and the names are distinct. -/
theorem createAfterLastDeath_distinct :
    ∃ final,
      (manager zeroTable).run (start zeroTable) createAfterLastDeath =
        some final ∧
      final.names = [childName 0, childName 1, childName 2] ∧
      (manager zeroTable).EveryState
        (fun state => state.BetweenCommands → state.names.Nodup)
        (start zeroTable) createAfterLastDeath := by
  have executed : ∃ final,
      (manager zeroTable).run (start zeroTable) createAfterLastDeath =
        some final ∧
      final.names = [childName 0, childName 1, childName 2] :=
    ⟨_, rfl, rfl⟩
  obtain ⟨final, ran, names⟩ := executed
  have distinct := (run_distinct_iff zeroTable createAfterLastDeath final
    (by decide +kernel) ran).mpr (by decide +kernel)
  exact ⟨final, ran, names, distinct⟩

end ProcessManager
end OSaSP
