import OSaSP.RecordEditor.LockedWrites

/-!
# Edits that reach the file

After a conflict `do_put` overwrites both `orig_rec` and `work_rec` by the
record it has just read and goes round again, so that a later round writes that
record back and reports success.  The user's edit is what was written exactly
when the first re-read found no conflict, or the last one found the edit itself.
-/

namespace OSaSP
namespace RecordEditor

/-- At the head of a round of `do_put`, after re-reads that found `seen`:
nothing was read and the variables are those of the call, or there was a
conflict and both records are the last one read. -/
def Editor.Round (editor : Editor) (seen : List RecordT) : Prop :=
  seen = [] ∧ editor.orig = editor.trace.orig ∧
      editor.work = editor.trace.work ∨
    (∃ first rest, seen = first :: rest ∧ first ≠ editor.trace.orig) ∧
      seen.getLast? = some editor.orig ∧ editor.work = editor.orig

/-- What the history of a call says at each place of `do_put`. -/
def Editor.Traced (editor : Editor) : Prop :=
  match editor.place with
  | .query _ | .lock _ | .reread _ | .unlockRetry _ =>
      editor.Round editor.trace.seen
  | .comparing _ current =>
      ∃ seen, editor.trace.seen = seen ++ [current] ∧ editor.Round seen
  | .write _ =>
      ∃ seen, editor.trace.seen = seen ++ [editor.orig] ∧ editor.Round seen
  | .unlockUpdated _ =>
      editor.trace.written = some editor.work ∧
        ∃ seen, editor.trace.seen = seen ++ [editor.orig] ∧
          editor.Round seen
  | .prompt | .unlockReturn _ => True

section Actions

variable {state : State} {id : Nat} {editor next : Editor}
  {file : Nat → UInt8}

/-- A conflict starts the next round with the record just read. -/
theorem Editor.Round.conflict
    {seen : List RecordT}
    {current : RecordT}
    (round : editor.Round seen)
    (changed : current ≠ editor.orig)
    (next : Editor)
    (sameTrace : next.trace = editor.trace)
    (orig : next.orig = current)
    (work : next.work = current) :
    next.Round (seen ++ [current]) := by
  right
  refine ⟨?_, by rw [List.getLast?_concat, orig], work.trans orig.symm⟩
  rw [sameTrace]
  rcases round with ⟨rfl, origEq, -⟩ | ⟨⟨first, rest, rfl, different⟩, -⟩
  · exact ⟨current, [], rfl, origEq ▸ changed⟩
  · exact ⟨first, rest ++ [current], rfl, different⟩

/-- The comparison keeps the history. -/
theorem compareCurrent_traced
    {recNo : Nat}
    {current : RecordT}
    {seen : List RecordT}
    (seenEq : editor.trace.seen = seen ++ [current])
    (round : editor.Round seen) :
    (compareCurrent editor recNo current).Traced := by
  unfold compareCurrent
  split
  · rename_i changed
    have next := round.conflict changed
      { editor.say .conflict with
        orig := current
        work := current
        place := .unlockRetry recNo } rfl rfl rfl
    rw [← seenEq] at next
    exact next
  · rename_i same
    rw [not_not] at same
    refine ⟨seen, ?_, round⟩
    change editor.trace.seen = seen ++ [editor.orig]
    rw [← same]
    exact seenEq

/-- Nothing is said at the prompt. -/
theorem traced_of_prompt (atPrompt : editor.place = .prompt) :
    editor.Traced := by
  unfold Editor.Traced
  rw [atPrompt]
  trivial

/-- A call begins with the variables it is called with. -/
theorem putStart_traced (atPrompt : editor.place = .prompt) :
    (putStart editor).Traced := by
  unfold putStart
  split
  · exact traced_of_prompt atPrompt
  split
  · exact traced_of_prompt atPrompt
  split
  · exact .inl ⟨rfl, rfl, rfl⟩
  · exact traced_of_prompt atPrompt

/-- An action of an editor keeps its history. -/
theorem advance_traced
    {event : Event}
    (advanced : advance state id editor event = some (next, file))
    (traced : editor.Traced) :
    next.Traced := by
  cases moves_of_advance advanced with
  | getInvalid place | getFailed torn place | get _ _ _ place =>
      exact traced_of_prompt place
  | put place => exact putStart_traced place
  | wait recNo place | query recNo place | lock recNo place
  | unlockRetry recNo place =>
      simp only [Editor.Traced, place] at traced
      exact traced
  | reread recNo place =>
      simp only [Editor.Traced, place] at traced
      exact ⟨editor.trace.seen, rfl, traced⟩
  | compare recNo current place =>
      simp only [Editor.Traced, place] at traced
      obtain ⟨seen, seenEq, round⟩ := traced
      exact compareCurrent_traced seenEq round
  | write recNo place =>
      simp only [Editor.Traced, place] at traced
      exact ⟨rfl, traced⟩
  | unlockReturn | unlockUpdated | queryFails | lockFails | rereadFails
  | writeFails => trivial

/-- Only the end of a successful `do_put` reports an update. -/
theorem unlockUpdated_of_reported
    {event : Event}
    (advanced : advance state id editor event = some (next, file))
    (reported : next.output = editor.output ++ [.updated]) :
    ∃ recNo, editor.place = .unlockUpdated recNo := by
  cases moves_of_advance advanced with
  | unlockUpdated recNo place => exact ⟨recNo, place⟩
  | put place =>
      unfold putStart at reported
      split at reported
      · simp [Editor.say] at reported
      split at reported
      · simp [Editor.say] at reported
      split at reported <;> simp [Editor.say] at reported
  | compare recNo current place =>
      unfold compareCurrent at reported
      split at reported <;> simp [Editor.say, Editor.goto] at reported
  | _ => simp [Editor.say, Editor.goto, doGet] at reported

end Actions

/-- The history of every editor is right in every reachable state. -/
theorem traced_of_reachable
    {count recordCount : Nat}
    {file : Nat → UInt8}
    {state : State}
    (reachable : (editorsOn count recordCount file).Reachable state) :
    ∀ editor ∈ state.editors, editor.Traced := by
  apply Machine.ReachableUnder.invariant _ _ reachable
  · rintro state rfl editor member
    rw [List.eq_of_mem_replicate member]
    trivial
  · intro state action next traced _ stepped
    obtain ⟨editor, after, file, present, advanced, rfl⟩ :=
      step_eq_some stepped
    exact Pool.forall_mem_set traced (advance_traced advanced
      (traced editor (List.mem_of_getElem? present)))

/-- The edit survives the other editors' writes: the first re-read found the
record with which `do_put` was called, or the last one found the user's edit
already in place. -/
def PutTrace.Undisturbed (trace : PutTrace) : Prop :=
  trace.seen.head? = some trace.orig ∨
    trace.seen.getLast? = some trace.work

/-- What was written at the end of `do_put` is the user's edit exactly under
this condition. -/
theorem Editor.Traced.written_iff
    {editor : Editor}
    {recNo : Nat}
    (traced : editor.Traced)
    (place : editor.place = .unlockUpdated recNo) :
    editor.trace.written = some editor.trace.work ↔
      editor.trace.Undisturbed := by
  simp only [Editor.Traced, place] at traced
  obtain ⟨written, seen, seenEq, round⟩ := traced
  unfold PutTrace.Undisturbed
  rw [written, seenEq, Option.some.injEq, List.getLast?_concat,
    Option.some.injEq]
  rcases round with ⟨rfl, orig, work⟩ |
    ⟨⟨first, rest, rfl, different⟩, -, work⟩
  · simp [orig, work]
  · simp [different, work]

/-- For any number of editors and any order of their steps: when `do_put`
reports that the record was updated, it has written the user's edit, as it was
when `do_put` was called, exactly if its re-reads were not disturbed. -/
theorem reachable_updated_iff
    (count recordCount : Nat)
    (file : Nat → UInt8)
    (state next : State)
    (action : Action)
    (before after : Editor)
    (reachable : (editorsOn count recordCount file).Reachable state)
    (stepped : step state action = some next)
    (presentBefore : state.editors[action.id]? = some before)
    (presentAfter : next.editors[action.id]? = some after)
    (reported : after.output = before.output ++ [.updated]) :
    after.hasWork = false ∧
      (after.trace.written = some after.trace.work ↔
        after.trace.Undisturbed) := by
  obtain ⟨_, moved, file, present, advanced, rfl⟩ := step_eq_some stepped
  obtain rfl := Option.some.inj (presentBefore.symm.trans present)
  obtain rfl := Option.some.inj
    ((Pool.getElem?_set_present present moved).symm.trans presentAfter)
  have traced := traced_of_reachable reachable before
    (List.mem_of_getElem? present)
  obtain ⟨recNo, place⟩ := unlockUpdated_of_reported advanced reported
  have kept := traced.written_iff place
  cases event : action.event <;> simp [advance, event, place] at advanced
  obtain ⟨rfl, -⟩ := advanced
  exact ⟨rfl, kept⟩

/-- So many calls of one editor succeed. -/
def calls (id count : Nat) : List Action :=
  List.replicate count ⟨id, .succeed⟩

/-- The only editor at work stores the number 7, up to the last unlocking. -/
def alone : List Action :=
  [⟨0, .get 0 zeroRecord (renumber 7)⟩, ⟨0, .put⟩] ++ calls 0 5

/-- Editor 1 stores the number 9 between the fetch and the `do_put` of editor 0,
which runs into the conflict and goes round again. -/
def disturbed : List Action :=
  [⟨0, .get 0 zeroRecord (renumber 7)⟩,
    ⟨1, .get 0 zeroRecord (renumber 9)⟩, ⟨1, .put⟩] ++ calls 1 6 ++
    [⟨0, .put⟩] ++ calls 0 10

set_option maxRecDepth 20000 in
theorem alone_updated :
    ∃ state next before after,
      (editorsOn 2 1 fun _ => 0).run
          ⟨fun _ => 0, 1, List.replicate 2 freshEditor⟩ alone = some state ∧
      step state ⟨0, .succeed⟩ = some next ∧
      state.editors[0]? = some before ∧ next.editors[0]? = some after ∧
      after.output = before.output ++ [.updated] ∧
      after.trace.written = some after.trace.work := by
  have executed : ∃ state next before after,
      (editorsOn 2 1 fun _ => 0).run
          ⟨fun _ => 0, 1, List.replicate 2 freshEditor⟩ alone = some state ∧
      step state ⟨0, .succeed⟩ = some next ∧
      state.editors[0]? = some before ∧ next.editors[0]? = some after ∧
      after.output = before.output ++ [.updated] ∧
      after.trace.seen.head? = some after.trace.orig :=
    ⟨_, _, _, _, rfl, rfl, rfl, rfl, rfl, rfl⟩
  obtain ⟨state, next, before, after, ran, stepped, presentBefore,
    presentAfter, reported, undisturbed⟩ := executed
  have updated := reachable_updated_iff 2 1 (fun _ => 0) state next
    ⟨0, .succeed⟩ before after (Machine.Reachable.run (.initial rfl) ran)
    stepped presentBefore presentAfter reported
  exact ⟨state, next, before, after, ran, stepped, presentBefore,
    presentAfter, reported, updated.2.mpr (.inl undisturbed)⟩

set_option maxRecDepth 20000 in
/-- Editor 0 reports success, but what it wrote is the record of editor 1. -/
theorem not_every_edit_written :
    ¬∀ (state next : State) (action : Action) (before after : Editor),
      (editorsOn 2 1 fun _ => 0).Reachable state →
        step state action = some next →
          state.editors[action.id]? = some before →
            next.editors[action.id]? = some after →
              after.output = before.output ++ [.updated] →
                after.trace.work ≠ after.trace.orig →
                  after.trace.written = some after.trace.work := by
  intro every
  have executed : ∃ state next before after,
      (editorsOn 2 1 fun _ => 0).run
          ⟨fun _ => 0, 1, List.replicate 2 freshEditor⟩ disturbed =
        some state ∧
      step state ⟨0, .succeed⟩ = some next ∧
      state.editors[0]? = some before ∧ next.editors[0]? = some after ∧
      after.output = before.output ++ [.updated] ∧
      after.trace.written = some ((renumber 9).apply zeroRecord) ∧
      after.trace.work = (renumber 7).apply zeroRecord ∧
      after.trace.orig = zeroRecord :=
    ⟨_, _, _, _, rfl, rfl, rfl, rfl, rfl, rfl, rfl, rfl⟩
  obtain ⟨state, next, before, after, ran, stepped, presentBefore,
    presentAfter, reported, written, asked, fetched⟩ := executed
  have edited : after.trace.work ≠ after.trace.orig := by
    rw [asked, fetched]
    decide
  have kept := every state next ⟨0, .succeed⟩ before after
    (Machine.Reachable.run (.initial rfl) ran) stepped presentBefore
    presentAfter reported edited
  rw [written, asked] at kept
  exact absurd kept (by decide)

end RecordEditor
end OSaSP
