import OSaSP.Foundations.Observer
import OSaSP.RecordEditor.LockedWrites

/-!
# The rounds of `do_put`

A conflict replaces `orig_rec` by the record on disk, so the next round meets a
conflict only if another editor has written the record before the lock was
taken again.  An observer of the call counts its rounds and the others' writes.

The variables of the editors and the file are arbitrary when the system starts.
-/

namespace OSaSP
namespace RecordEditor

/-- Every editor is at its prompt and has locked nothing. -/
def AtRest (state : State) : Prop :=
  ∀ editor ∈ state.editors, editor.place = .prompt ∧ editor.holds = none

/-- Editors with any variables on any file. -/
def editorsAtRest : Machine State Action where
  initial := AtRest
  step := step

/-- An action that puts bytes into the file when its editor is at a write. -/
def Event.puts : Event → Bool
  | .succeed => true
  | .fail written => 0 < written
  | _ => false

/-- A write of another editor to the record takes effect. -/
def OtherWrites (id recNo : Nat) (state : State) (action : Action) : Prop :=
  action.id ≠ id ∧
    ∃ editor ∈ state.editors[action.id]?,
      editor.place = .write recNo ∧ action.event.puts = true

instance (id recNo : Nat) (state : State) (action : Action) :
    Decidable (OtherWrites id recNo state action) :=
  inferInstanceAs (Decidable (_ ∧ _))

/-- Notes about a call of `do_put`: how many rounds of its loop have begun, how
many actions it has taken, whether it has re-read the record, how often others
have written the record since the first re-read, and how often they had when
the lock was last acquired. -/
structure CallNotes where
  rounds : Nat
  actions : Nat
  reread : Bool
  writes : Nat
  writesAtLock : Nat

/-- The first round has begun. -/
def CallNotes.start : CallNotes := ⟨1, 0, false, 0, 0⟩

/-- An action of the call itself, at its place. -/
def CallNotes.own
    (notes : CallNotes)
    (place : Place)
    (event : Event) : CallNotes :=
  let acted := { notes with actions := notes.actions + 1 }
  match place, event with
  | .lock _, .succeed => { acted with writesAtLock := notes.writes }
  | .reread _, .succeed => { acted with reread := true }
  -- `continue` with `retry` set
  | .unlockRetry _, .succeed => { acted with rounds := notes.rounds + 1 }
  | _, _ => acted

/-- An action of any editor during the call of the editor `id`. -/
def CallNotes.observe
    (id recNo : Nat)
    (state : State)
    (action : Action)
    (notes : CallNotes) : CallNotes :=
  if action.id = id then
    match state.editors[id]? with
    | some editor => notes.own editor.place action.event
    | none => notes
  else if OtherWrites id recNo state action ∧ notes.reread = true then
    { notes with writes := notes.writes + 1 }
  else notes

/-- The notes about a call at the end of a run. -/
abbrev callNotes
    (id recNo : Nat)
    (entered : State)
    (actions : List Action) : CallNotes :=
  editorsAtRest.observed (CallNotes.observe id recNo) .start entered actions

/-- The editor `id` is in `do_put`. -/
def InCall (id : Nat) (state : State) : Prop :=
  ∃ editor ∈ state.editors[id]?, editor.place ≠ .prompt

instance (id : Nat) (state : State) : Decidable (InCall id state) :=
  inferInstanceAs (Decidable (∃ editor ∈ state.editors[id]?, _))

/-! ## What the others' actions change -/

theorem locked_of_rest
    {state : State}
    (reachable : editorsAtRest.Reachable state) :
    Locked state := by
  apply Machine.ReachableUnder.invariant _ _ reachable
  · intro state rest
    constructor
    · intro editor member
      rw [(rest editor member).1, (rest editor member).2]
      rfl
    · intro editor member
      unfold Editor.Checked
      rw [(rest editor member).1]
      trivial
    · intro left right leftEditor _ _ _ _ present _ held
      rw [(rest leftEditor (List.mem_of_getElem? present)).1] at held
      cases held
  · intro state action next locked _ stepped
    exact locked.step stepped

/-- An action that puts nothing leaves the file alone. -/
theorem file_of_not_puts
    {state : State}
    {id : Nat}
    {editor next : Editor}
    {event : Event}
    {file : Nat → UInt8}
    (advanced : advance state id editor event = some (next, file))
    (nothing : event.puts = false) :
    file = state.file := by
  cases moves_of_advance advanced with
  | write => cases nothing
  | writeFails recNo written =>
      obtain rfl : written = 0 := by simpa [Event.puts] using nothing
      funext index
      simp [writeBytes, Segment.overwrite]
  | _ => rfl

/-- Only a write of another editor changes the record behind one's back. -/
theorem readRecord_of_other
    {state next : State}
    {action : Action}
    {id recNo : Nat}
    (stepped : step state action = some next)
    (different : action.id ≠ id) :
    readRecord next.file (offset recNo) =
        readRecord state.file (offset recNo) ∨
      OtherWrites id recNo state action := by
  obtain ⟨editor, after, file, present, advanced, rfl⟩ :=
    step_eq_some stepped
  rcases (advance_spec advanced).writes with rfl | ⟨other, count, writing, same⟩
  · exact .inl rfl
  by_cases there : other = recNo
  · cases puts : action.event.puts with
    | false =>
        left
        change readRecord file _ = _
        rw [file_of_not_puts advanced puts]
    | true =>
        exact .inr ⟨different, editor, present, there ▸ writing, puts⟩
  · left
    change readRecord file _ = _
    rw [same, readRecord_writeBytes _ _ _ (not_overlap_offset there)]

/-- Nobody writes a record that is locked by someone else. -/
theorem Locked.not_otherWrites
    {state : State}
    {action : Action}
    {id recNo : Nat}
    {editor : Editor}
    (locked : Locked state)
    (present : state.editors[id]? = some editor)
    (held : editor.place.held = some recNo) :
    ¬OtherWrites id recNo state action := by
  rintro ⟨different, other, otherPresent, writing, _⟩
  have apart := locked.apart _ _ _ _ recNo recNo different otherPresent present
    (by rw [writing]; rfl) held
  apply apart
  unfold Overlap recordSize
  omega

/-! ## The account of a call -/

/-- How many actions a round takes at most from a place on. -/
def Place.left : Place → Nat
  | .prompt => 0
  | .query _ => 6
  | .lock _ => 5
  | .reread _ => 4
  | .comparing _ _ => 3
  | .unlockRetry _ | .write _ => 2
  | .unlockReturn _ | .unlockUpdated _ => 1

/-- Without the lock, a record that differs from `orig_rec` has been written
since the last round; with it, that write is among those before the lock. -/
def Progress
    (recNo : Nat)
    (file : Nat → UInt8)
    (editor : Editor)
    (notes : CallNotes) : Prop :=
  match editor.place with
  | .query called | .lock called =>
      called = recNo ∧
        (readRecord file (offset recNo) ≠ editor.orig →
          notes.rounds ≤ 1 + notes.writes)
  | .reread called =>
      called = recNo ∧
        (readRecord file (offset recNo) ≠ editor.orig →
          notes.rounds ≤ 1 + notes.writesAtLock)
  | .comparing called current =>
      called = recNo ∧ notes.reread = true ∧
        (current ≠ editor.orig → notes.rounds ≤ 1 + notes.writesAtLock)
  | .unlockRetry called =>
      called = recNo ∧ notes.reread = true ∧
        readRecord file (offset recNo) = editor.orig ∧
        notes.rounds ≤ 1 + notes.writesAtLock
  | .write called => called = recNo
  | .prompt | .unlockReturn _ | .unlockUpdated _ => True

/-- What the notes about a call say at every moment of it. -/
structure Counted
    (recNo : Nat)
    (file : Nat → UInt8)
    (editor : Editor)
    (notes : CallNotes) : Prop where
  actions : notes.actions + editor.place.left ≤ 5 * notes.rounds + 1
  rounds : notes.rounds ≤ 2 + notes.writesAtLock
  writes : notes.writesAtLock ≤ notes.writes
  first : notes.reread = false → notes.rounds ≤ 1
  progress : Progress recNo file editor notes

section Actions

variable {state : State} {id recNo : Nat} {editor next : Editor}
  {file : Nat → UInt8} {notes : CallNotes}

/-- An action of the caller during its call. -/
theorem Counted.own
    {event : Event}
    (counted : Counted recNo state.file editor notes)
    (checked : editor.Checked state.file)
    (busy : editor.place ≠ .prompt)
    (advanced : advance state id editor event = some (next, file)) :
    Counted recNo file next (notes.own editor.place event) := by
  obtain ⟨actions, rounds, writes, first, progress⟩ := counted
  unfold Progress at progress
  unfold Editor.Checked at checked
  cases moves_of_advance advanced with
  | getInvalid place | getFailed torn place | get _ _ _ place | put place =>
      exact absurd place busy
  | wait called place | query called place =>
      simp only [place, Place.left] at actions progress ⊢
      refine ⟨?_, rounds, writes, first, progress⟩
      simp [CallNotes.own, Place.left, Editor.goto]
      omega
  | lock called place =>
      simp only [place, Place.left] at actions progress ⊢
      obtain ⟨rfl, changed⟩ := progress
      refine ⟨?_, ?_, Nat.le_refl _, first, rfl, changed⟩
      · simp [CallNotes.own, Place.left]
        omega
      · simp [CallNotes.own]
        omega
  | reread called place =>
      simp only [place, Place.left] at actions progress ⊢
      obtain ⟨rfl, changed⟩ := progress
      refine ⟨?_, rounds, writes, ?_, rfl, rfl, changed⟩
      · simp [CallNotes.own, Place.left]
        omega
      · intro unseen
        cases unseen
  | compare called current place =>
      simp only [place, Place.left] at actions progress checked ⊢
      obtain ⟨rfl, reread, changed⟩ := progress
      unfold compareCurrent
      split
      · rename_i conflict
        refine ⟨?_, rounds, writes, first, rfl, reread, checked.1,
          changed conflict⟩
        simp [CallNotes.own, Place.left]
        omega
      · refine ⟨?_, rounds, writes, first, rfl⟩
        simp [CallNotes.own, Place.left, Editor.goto]
        omega
  | unlockRetry called place =>
      simp only [place, Place.left] at actions progress ⊢
      obtain ⟨rfl, reread, same, more⟩ := progress
      refine ⟨?_, ?_, writes, ?_, rfl, fun changed => absurd same changed⟩
      · simp [CallNotes.own, Place.left]
        omega
      · simp [CallNotes.own]
        omega
      · intro unseen
        rw [show (notes.own (.unlockRetry called) .succeed).reread =
          notes.reread from rfl, reread] at unseen
        cases unseen
  | write called place | unlockReturn called place
  | unlockUpdated called place | queryFails called _ place
  | lockFails called _ place | rereadFails called _ place
  | writeFails called _ place =>
      simp only [place, Place.left] at actions ⊢
      refine ⟨?_, rounds, writes, first, trivial⟩
      simp [CallNotes.own, Place.left, Editor.goto]
      omega

end Actions

/-- An action of another editor that leaves the record alone. -/
theorem Progress.same
    {recNo : Nat}
    {file after : Nat → UInt8}
    {editor : Editor}
    {notes : CallNotes}
    (progress : Progress recNo file editor notes)
    (same : readRecord after (offset recNo) =
      readRecord file (offset recNo)) :
    Progress recNo after editor notes := by
  unfold Progress at progress ⊢
  rw [same]
  exact progress

/-- Another editor's write of the record makes up for the round that it may
cost. -/
theorem Progress.written
    {state : State}
    {action : Action}
    {id recNo : Nat}
    {after : Nat → UInt8}
    {editor : Editor}
    {notes : CallNotes}
    (progress : Progress recNo state.file editor notes)
    (locked : Locked state)
    (present : state.editors[id]? = some editor)
    (written : OtherWrites id recNo state action)
    {more : CallNotes}
    (enough : more.rounds ≤ 1 + more.writes) :
    Progress recNo after editor more := by
  have unlocked : editor.place.held ≠ some recNo :=
    fun held => locked.not_otherWrites present held written
  unfold Progress at progress ⊢
  cases place : editor.place <;> simp only [place, Place.held] at *
  case query | lock => exact ⟨progress.1, fun _ => enough⟩
  case reread | comparing | unlockRetry =>
      exact absurd (congrArg some progress.1) unlocked
  case write => exact absurd (congrArg some progress) unlocked

/-- An action of another editor during the call. -/
theorem Counted.other
    {state next : State}
    {action : Action}
    {id recNo : Nat}
    {editor : Editor}
    {notes : CallNotes}
    (counted : Counted recNo state.file editor notes)
    (locked : Locked state)
    (present : state.editors[id]? = some editor)
    (stepped : step state action = some next)
    (different : action.id ≠ id) :
    Counted recNo next.file editor
      (notes.observe id recNo state action) := by
  obtain ⟨actions, rounds, writes, first, progress⟩ := counted
  rw [CallNotes.observe, if_neg different]
  by_cases written : OtherWrites id recNo state action
  · split
    · refine ⟨actions, rounds, Nat.le_succ_of_le writes, first, ?_⟩
      apply progress.written locked present written
      change notes.rounds ≤ 1 + (notes.writes + 1)
      omega
    · rename_i unseen
      have begun : notes.reread = false :=
        Bool.eq_false_iff.mpr fun reread => unseen ⟨written, reread⟩
      refine ⟨actions, rounds, writes, first, ?_⟩
      apply progress.written locked present written
      have := first begun
      omega
  · rw [if_neg (fun both => written both.1)]
    have same := (readRecord_of_other stepped different).resolve_right written
    exact ⟨actions, rounds, writes, first, progress.same same⟩

/-- The state and the notes during a call and at its end. -/
def Calling (id recNo : Nat) (state : State) (notes : CallNotes) : Prop :=
  Locked state ∧ ∃ editor, state.editors[id]? = some editor ∧
    Counted recNo state.file editor notes

/-- Every step of a call keeps the account. -/
theorem Calling.step
    {state next : State}
    {action : Action}
    {id recNo : Nat}
    {notes : CallNotes}
    (calling : Calling id recNo state notes)
    (inCall : InCall id state)
    (stepped : RecordEditor.step state action = some next) :
    Calling id recNo next (notes.observe id recNo state action) := by
  obtain ⟨locked, editor, present, counted⟩ := calling
  refine ⟨locked.step stepped, ?_⟩
  by_cases own : action.id = id
  · obtain ⟨_, presentBusy, busy⟩ := inCall
    obtain rfl := Option.some.inj (present.symm.trans presentBusy)
    obtain ⟨_, after, file, presentOwn, advanced, rfl⟩ := step_eq_some stepped
    rw [own] at presentOwn
    obtain rfl := Option.some.inj (present.symm.trans presentOwn)
    refine ⟨after, ?_, ?_⟩
    · rw [own]
      exact Pool.getElem?_set_present present after
    · simp only [CallNotes.observe, if_pos own, present]
      exact counted.own (locked.checked editor (List.mem_of_getElem? present))
        busy advanced
  · refine ⟨editor, ?_, counted.other locked present stepped own⟩
    obtain ⟨_, after, file, _, _, rfl⟩ := step_eq_some stepped
    rw [← present]
    exact List.getElem?_set_ne own

/-- A call that enters the loop begins with an account that is right. -/
theorem calling_start
    {state : State}
    {id recNo : Nat}
    {caller : Editor}
    (locked : Locked state)
    (present : state.editors[id]? = some caller)
    (looping : caller.place = .query recNo) :
    Calling id recNo state .start := by
  refine ⟨locked, caller, present, ?_⟩
  constructor
  · rw [looping]
    exact Nat.le_refl 6
  · exact Nat.le_succ 1
  · exact Nat.le_refl 0
  · exact fun _ => Nat.le_refl 1
  · unfold Progress
    rw [looping]
    exact ⟨rfl, fun _ => Nat.le_refl 1⟩

/-! ## Runs without an end -/

section Observed

variable {id recNo : Nat} {state : State} {action : Action}
  {notes : CallNotes}

theorem writes_own (place : Place) (event : Event) :
    (notes.own place event).writes = notes.writes := by
  unfold CallNotes.own
  split <;> rfl

theorem actions_own (place : Place) (event : Event) :
    (notes.own place event).actions = notes.actions + 1 := by
  unfold CallNotes.own
  split <;> rfl

/-- One step is at most one write. -/
theorem writes_observe_le :
    (notes.observe id recNo state action).writes ≤
      notes.writes + if OtherWrites id recNo state action then 1 else 0 := by
  unfold CallNotes.observe
  split
  · split
    · rw [writes_own]
      exact Nat.le_add_right _ _
    · exact Nat.le_add_right _ _
  split
  · rename_i written
    rw [if_pos written.1]
  · exact Nat.le_add_right _ _

/-- The actions of the caller are counted. -/
theorem actions_observe
    {caller : Editor}
    (present : state.editors[id]? = some caller) :
    (notes.observe id recNo state action).actions =
      notes.actions + if action.id = id then 1 else 0 := by
  unfold CallNotes.observe
  split
  · rw [present]
    exact actions_own caller.place action.event
  split <;> rfl

end Observed

section Infinite

variable {id recNo : Nat} (infinite : Machine.InfiniteRun editorsAtRest)

/-- The others' writes are no more than the steps until the last of them. -/
theorem writes_le_of_quiet
    {last : Nat}
    (quiet : ∀ time ≥ last,
      ¬OtherWrites id recNo (infinite.states time) (infinite.schedule time))
    (time : Nat) :
    (infinite.notes (CallNotes.observe id recNo) .start time).writes ≤
      min time last := by
  induction time with
  | zero => exact Nat.zero_le _
  | succ time inductionHypothesis =>
      have counted : (infinite.notes (CallNotes.observe id recNo) .start
          (time + 1)).writes ≤ _ := writes_observe_le
      split at counted
      · rename_i written
        have early : time < last := by
          by_contra late
          exact quiet time (Nat.le_of_not_lt late) written
        omega
      · omega

variable (recNo) in
/-- A caller that acts again and again during its call takes any number of
actions. -/
theorem exists_le_actions
    (inCall : ∀ time, InCall id (infinite.states time))
    (acts : ∀ time, ∃ later ≥ time, (infinite.schedule later).id = id)
    (bound : Nat) :
    ∃ time, bound ≤
      (infinite.notes (CallNotes.observe id recNo) .start time).actions := by
  have counted : ∀ time,
      (infinite.notes (CallNotes.observe id recNo) .start
          (time + 1)).actions =
        (infinite.notes (CallNotes.observe id recNo) .start time).actions +
          if (infinite.schedule time).id = id then 1 else 0 := by
    intro time
    obtain ⟨_, present, _⟩ := inCall time
    exact actions_observe present
  apply Machine.exists_le_of_rises
  · intro time
    rw [counted]
    exact Nat.le_add_right _ _
  · intro time
    obtain ⟨later, after, own⟩ := acts time
    refine ⟨later, after, ?_⟩
    rw [counted, if_pos own]
    exact Nat.lt_succ_self _

end Infinite

/-- Whatever the variables and the file were when the editors started, and
whatever the others do: the loop of a call of `do_put` has at most two rounds
more than the others have written the record between its first re-read and its
last lock.  So the call ends if the others write the record finitely often and
the caller is not left waiting for ever while it lasts. -/
theorem rounds_le_writes
    (before entered : State)
    (id recNo : Nat)
    (caller : Editor)
    (reachable : editorsAtRest.Reachable before)
    (called : step before ⟨id, .put⟩ = some entered)
    (present : entered.editors[id]? = some caller)
    (looping : caller.place = .query recNo) :
    (∀ actions final, editorsAtRest.run entered actions = some final →
      editorsAtRest.EveryStep (fun state _ => InCall id state) entered
        actions →
      (callNotes id recNo entered actions).rounds ≤
        2 + (callNotes id recNo entered actions).writesAtLock) ∧
    ∀ infinite : Machine.InfiniteRun editorsAtRest,
      infinite.states 0 = entered →
      (∃ last, ∀ time ≥ last, ¬OtherWrites id recNo (infinite.states time)
        (infinite.schedule time)) →
      (∀ time, InCall id (infinite.states time) →
        ∃ later ≥ time, (infinite.schedule later).id = id) →
      ∃ time, ¬InCall id (infinite.states time) := by
  have start : Calling id recNo entered .start :=
    calling_start (locked_of_rest (.step reachable trivial called)) present
      looping
  constructor
  · intro actions final executed inCall
    have calling : Calling id recNo final
        (callNotes id recNo entered actions) :=
      Machine.observed_invariant (Calling id recNo)
        (fun _ _ _ _ calling inCall stepped => calling.step inCall stepped)
        start inCall executed
    obtain ⟨_, _, _, counted⟩ := calling
    exact counted.rounds
  · intro infinite begins quiet acts
    obtain ⟨last, quiet⟩ := quiet
    by_contra never
    have inCall : ∀ time, InCall id (infinite.states time) := by
      intro time
      by_contra ended
      exact never ⟨time, ended⟩
    obtain ⟨time, many⟩ :=
      exists_le_actions recNo infinite inCall
        (fun time => acts time (inCall time)) (5 * (2 + last) + 2)
    have calling : Calling id recNo (infinite.states time)
        (infinite.notes (CallNotes.observe id recNo) .start time) :=
      infinite.invariant (Calling id recNo)
        (fun _ _ _ _ calling inCall stepped => calling.step inCall stepped)
        (begins ▸ start) inCall time
    obtain ⟨_, _, _, counted⟩ := calling
    have few := writes_le_of_quiet infinite quiet time
    have actions := counted.actions
    have rounds := counted.rounds
    have writes := counted.writes
    omega

/-- The lock query of the call fails, and the user then enters no record
number ever again. -/
def givesUp
    (entered : State)
    (id recNo : Nat)
    (caller : Editor)
    (present : entered.editors[id]? = some caller)
    (looping : caller.place = .query recNo) :
    Machine.InfiniteRun editorsAtRest where
  states
    | 0 => entered
    | time + 1 =>
        { entered with
          editors := entered.editors.set id
            { caller with
              place := .prompt
              output := caller.output ++ [.lockQueryError] ++
                List.replicate time .invalidInput } }
  schedule
    | 0 => ⟨id, .fail 0⟩
    | _ + 1 => ⟨id, .getInvalid⟩
  steps
    | 0 => by
        simp [editorsAtRest, step, present, advance, looping, Editor.say,
          Editor.goto]
    | time + 1 => by
        have there := Pool.getElem?_set_present present
        simp [editorsAtRest, step, there, advance, Editor.say,
          List.replicate_succ']

/-- A record of equal bytes. -/
def uniform (byte : UInt8) : RecordT where
  bytes := List.replicate recordSize byte
  length_eq := List.length_replicate

/-- An editor that has fetched ones and is about to save twos. -/
def lateEditor : Editor :=
  { freshEditor with
    orig := uniform 1
    work := uniform 2
    lastRecNo := some 0
    hasWork := true }

/-- An editor that has fetched zeros and is about to save threes. -/
def otherEditor : Editor :=
  { freshEditor with
    orig := uniform 0
    work := uniform 3
    lastRecNo := some 0
    hasWork := true }

/-- The late editor has entered `do_put`, with zeros on disk. -/
def lateCall : State :=
  ⟨fun _ => 0, 1, [putStart lateEditor, otherEditor]⟩

/-- A conflict, the other editor's call, and another conflict. -/
def twoConflicts : List Action :=
  List.replicate 5 ⟨0, .succeed⟩ ++ [⟨1, .put⟩] ++
    List.replicate 6 ⟨1, .succeed⟩ ++ List.replicate 5 ⟨0, .succeed⟩

set_option maxRecDepth 20000 in
/-- One write in between costs a third round, so the bound is met. -/
theorem lateCall_rounds :
    (callNotes 0 0 lateCall twoConflicts).rounds = 3 ∧
      (callNotes 0 0 lateCall twoConflicts).writesAtLock = 1 ∧
      (callNotes 0 0 lateCall twoConflicts).rounds ≤
        2 + (callNotes 0 0 lateCall twoConflicts).writesAtLock ∧
      ∃ time, ¬InCall 0 ((givesUp lateCall 0 0 (putStart lateEditor) rfl
        rfl).states time) := by
  have rest : AtRest ⟨fun _ => 0, 1, [lateEditor, otherEditor]⟩ := by
    intro editor member
    rcases List.mem_pair.mp member with rfl | rfl <;> exact ⟨rfl, rfl⟩
  obtain ⟨bounded, ends⟩ := rounds_le_writes
    ⟨fun _ => 0, 1, [lateEditor, otherEditor]⟩ lateCall 0 0
    (putStart lateEditor) (.initial rest) rfl rfl rfl
  have ran : (editorsAtRest.run lateCall twoConflicts).isSome = true := by
    decide +kernel
  obtain ⟨final, executed⟩ := Option.isSome_iff_exists.mp ran
  refine ⟨by decide +kernel, by decide +kernel,
    bounded twoConflicts final executed (by decide +kernel), ?_⟩
  apply ends _ rfl
  · refine ⟨0, fun time _ written => written.1 ?_⟩
    cases time <;> rfl
  · intro time _
    exact ⟨time, Nat.le_refl time, by cases time <;> rfl⟩

end RecordEditor
end OSaSP
