import OSaSP.ProcessManager.Handler

/-!
# The end of the program

`complete_the_program` calls `delete_all_children`, sleeps for a second and
then goes through the array to kill what is still there.  The children may die,
and the handler may run, between any two statements of it.

The deletion loop has emptied the array by then, so the last loop finds nobody.
-/

namespace OSaSP
namespace ProcessManager

open State

/-- Places of `complete_the_program`; the first is the call of
`delete_all_children`. -/
inductive CompletionPlace
  | deleting
  | sleeping
  | killTest (i : Nat)
  | killProbe (i : Nat)
  | killSend (i : Nat)
  | waiting
  | exited
  deriving DecidableEq

/-- The manager at its end, with the children that lived when the last loop
began and those that `SIGKILL` was sent to. -/
structure Completion where
  manager : State
  place : CompletionPlace
  survivors : List Nat
  killed : List Nat

/-- A statement, the result of `kill(pid, 0) == 0 || errno == EPERM`, the death
of a child, or the handler. -/
inductive CompletionAction
  | run
  | probed (there : Bool)
  | die (pid : Nat)
  | handler (pids : List Nat)

namespace Completion

/-- `q` was entered. -/
def start (manager : State) : Completion where
  manager := manager.goto .killAllCheck
  place := .deleting
  survivors := []
  killed := []

/-- The statements without an outcome to choose. -/
def runStatement (completion : Completion) : Option Completion :=
  match completion.place with
  | .deleting =>
      match completion.manager.place with
      | .wait => some { completion with place := .sleeping }
      | _ =>
          (ProcessManager.runStatement completion.manager).map fun manager =>
            { completion with manager }
  | .sleeping =>
      some { completion with
        place := .killTest 0
        survivors := completion.manager.alive }
  | .killTest i =>
      if i < completion.manager.size then
        some { completion with place := .killProbe i }
      else some { completion with place := .waiting }
  | .killProbe _ => none
  | .killSend i =>
      some { completion with
        place := .killTest (i + 1)
        killed := completion.killed ++ [(completion.manager.table i).pid] }
  | .waiting =>
      some { completion with
        manager := { completion.manager with zombies := [] }
        place := .exited }
  | .exited => none

/-- The test before `SIGKILL`; a living child is always found. -/
def probe (completion : Completion) (there : Bool) : Option Completion :=
  match completion.place with
  | .killProbe i =>
      if there then some { completion with place := .killSend i }
      else if (completion.manager.table i).pid ∈ completion.manager.alive then
        none
      else some { completion with place := .killTest (i + 1) }
  | _ => none

/-- What happens to the children meanwhile. -/
def meanwhile
    (completion : Completion)
    (action : Action) : Option Completion :=
  if completion.place = .exited then none
  else
    (ProcessManager.step completion.manager action).map fun manager =>
      { completion with manager }

/-- One step of `complete_the_program` with its children. -/
def step (completion : Completion) : CompletionAction → Option Completion
  | .run => completion.runStatement
  | .probed there => completion.probe there
  | .die pid => completion.meanwhile (.die pid)
  | .handler pids => completion.meanwhile (.handler pids)

end Completion

/-- The runs of `complete_the_program` from a state of the manager. -/
def completing (manager : State) : Machine Completion CompletionAction where
  initial completion := completion = Completion.start manager
  step := Completion.step

/-! ## The array is empty when the last loop begins -/

/-- The places inside `delete_all_children`. -/
def Place.Deleting : Place → Prop
  | .killAllCheck | .killAllTest | .killAllCall | .wait => True
  | .deleteCheck looping _ | .deleteRead looping _
  | .deleteKill looping _ _ | .deleteShiftTest looping _ _
  | .deleteShift looping _ _ | .deleteDecrement looping _ => looping = true
  | _ => False

/-- Inside `delete_all_children`, or behind it with an empty array. -/
def Emptying (state : State) : Prop :=
  state.place.Deleting ∧ (state.place = .wait → state.size = 0)

theorem Emptying.goto
    (state : State)
    {place : Place}
    (deleting : place.Deleting)
    (inside : place ≠ .wait) :
    Emptying (state.goto place) :=
  ⟨deleting, fun outside => absurd outside inside⟩

theorem Emptying.wait
    {state : State}
    (empty : state.size = 0) :
    Emptying (state.goto .wait) :=
  ⟨trivial, fun _ => empty⟩

/-- `delete_all_children` returns with an empty array only. -/
theorem Emptying.run
    {state next : State}
    (emptying : Emptying state)
    (ran : runStatement state = some next) :
    Emptying next := by
  have deleting := emptying.1
  unfold runStatement at ran
  cases place : state.place with
  | killAllCheck =>
      simp only [place] at ran
      split at ran <;> cases ran
      · exact Emptying.wait ‹_›
      · exact Emptying.goto state trivial Place.noConfusion
  | killAllTest =>
      simp only [place] at ran
      split at ran <;> cases ran
      · exact Emptying.goto state trivial Place.noConfusion
      · exact Emptying.wait (by omega)
  | killAllCall =>
      simp only [place] at ran
      cases ran
      exact Emptying.goto state rfl Place.noConfusion
  | deleteCheck looping index =>
      simp only [place] at ran
      rw [place] at deleting
      obtain rfl : looping = true := deleting
      split at ran <;> cases ran
      · exact Emptying.goto state trivial Place.noConfusion
      · exact Emptying.goto state rfl Place.noConfusion
  | deleteRead looping index =>
      simp only [place] at ran
      rw [place] at deleting
      cases ran
      exact Emptying.goto _ deleting Place.noConfusion
  | deleteKill looping index pid =>
      simp only [place] at ran
      rw [place] at deleting
      cases ran
      exact Emptying.goto _ deleting Place.noConfusion
  | deleteShiftTest looping i pid =>
      simp only [place] at ran
      rw [place] at deleting
      split at ran <;> cases ran
      · exact Emptying.goto state deleting Place.noConfusion
      · exact Emptying.goto state deleting Place.noConfusion
  | deleteShift looping i pid =>
      simp only [place] at ran
      rw [place] at deleting
      cases ran
      exact Emptying.goto _ deleting Place.noConfusion
  | deleteDecrement looping pid =>
      simp only [place] at ran
      rw [place] at deleting
      obtain rfl : looping = true := deleting
      cases ran
      exact Emptying.goto state.decrement trivial Place.noConfusion
  | wait =>
      simp only [place] at ran
      cases ran
  | _ =>
      rw [place] at deleting
      exact deleting.elim

/-- The handler stays at the place and never adds an entry. -/
theorem Emptying.handler
    {state : State}
    (emptying : Emptying state)
    (pids : List Nat) :
    Emptying (signalHandler pids state) := by
  unfold Emptying
  rw [place_signalHandler]
  refine ⟨emptying.1, ?_⟩
  intro outside
  have fewer := size_signalHandler state pids
  rw [emptying.2 outside] at fewer
  exact Nat.le_zero.mp fewer

namespace Completion

/-- No signal is sent by the last loop, and none can be. -/
structure Spares (completion : Completion) : Prop where
  emptying : Emptying completion.manager
  returned : completion.place ≠ .deleting → completion.manager.size = 0
  noProbe : ∀ i, completion.place ≠ .killProbe i
  noSend : ∀ i, completion.place ≠ .killSend i
  killed : completion.killed = []

theorem Spares.start (manager : State) : Spares (start manager) where
  emptying := Emptying.goto manager trivial Place.noConfusion
  returned inside := absurd rfl inside
  noProbe _ := CompletionPlace.noConfusion
  noSend _ := CompletionPlace.noConfusion
  killed := rfl

theorem Spares.runStatement
    {completion next : Completion}
    (spares : Spares completion)
    (ran : completion.runStatement = some next) :
    Spares next := by
  obtain ⟨emptying, returned, noProbe, noSend, killed⟩ := spares
  unfold Completion.runStatement at ran
  cases place : completion.place with
  | deleting =>
      simp only [place] at ran
      split at ran
      · rename_i outside
        cases ran
        refine ⟨emptying, ?_, ?_, ?_, killed⟩
        · intro _
          exact emptying.2 outside
        · exact fun _ => CompletionPlace.noConfusion
        · exact fun _ => CompletionPlace.noConfusion
      · obtain ⟨manager, statement, rfl⟩ := Option.map_eq_some_iff.mp ran
        refine ⟨emptying.run statement, ?_, ?_, ?_, killed⟩
        · exact fun outside => absurd rfl outside
        · exact fun _ => CompletionPlace.noConfusion
        · exact fun _ => CompletionPlace.noConfusion
  | sleeping =>
      have empty := returned (by rw [place]; exact CompletionPlace.noConfusion)
      simp only [place] at ran
      cases ran
      exact ⟨emptying, fun _ => empty, fun _ => CompletionPlace.noConfusion,
        fun _ => CompletionPlace.noConfusion, killed⟩
  | killTest i =>
      have empty := returned (by rw [place]; exact CompletionPlace.noConfusion)
      simp only [place, empty, Nat.not_lt_zero, if_false] at ran
      cases ran
      exact ⟨emptying, fun _ => empty, fun _ => CompletionPlace.noConfusion,
        fun _ => CompletionPlace.noConfusion, killed⟩
  | killProbe i => exact absurd place (noProbe i)
  | killSend i => exact absurd place (noSend i)
  | waiting =>
      have empty := returned (by rw [place]; exact CompletionPlace.noConfusion)
      simp only [place] at ran
      cases ran
      exact ⟨emptying, fun _ => empty, fun _ => CompletionPlace.noConfusion,
        fun _ => CompletionPlace.noConfusion, killed⟩
  | exited =>
      simp only [place] at ran
      cases ran

/-- Deaths and the handler change nothing of it. -/
theorem Spares.meanwhile
    {completion next : Completion}
    (spares : Spares completion)
    {action : Action}
    (kept : ∀ manager,
      ProcessManager.step completion.manager action = some manager →
        Emptying manager ∧ manager.size ≤ completion.manager.size)
    (happened : completion.meanwhile action = some next) :
    Spares next := by
  unfold Completion.meanwhile at happened
  split at happened
  · cases happened
  · obtain ⟨manager, stepped, rfl⟩ := Option.map_eq_some_iff.mp happened
    obtain ⟨emptying, fewer⟩ := kept manager stepped
    refine ⟨emptying, ?_, spares.noProbe, spares.noSend, spares.killed⟩
    intro outside
    rw [spares.returned outside] at fewer
    exact Nat.le_zero.mp fewer

theorem Spares.step
    {completion next : Completion}
    (spares : Spares completion)
    (action : CompletionAction)
    (stepped : completion.step action = some next) :
    Spares next := by
  cases action with
  | run => exact spares.runStatement stepped
  | probed there =>
      change completion.probe there = some next at stepped
      unfold probe at stepped
      split at stepped
      · exact absurd ‹_› (spares.noProbe _)
      · cases stepped
  | die pid =>
      refine spares.meanwhile ?_ stepped
      intro manager died
      simp only [ProcessManager.step] at died
      split at died <;> cases died
      exact ⟨spares.emptying, Nat.le_refl _⟩
  | handler pids =>
      refine spares.meanwhile ?_ stepped
      intro manager handled
      simp only [ProcessManager.step] at handled
      split at handled <;> cases handled
      exact ⟨spares.emptying.handler pids, size_signalHandler _ pids⟩

/-- In no run is `SIGKILL` sent to anybody. -/
theorem reachable_spares
    {manager : State}
    {completion : Completion}
    (reachable : (completing manager).Reachable completion) :
    Spares completion := by
  apply Machine.ReachableUnder.invariant _ _ reachable
  · rintro _ rfl
    exact Spares.start manager
  · intro completion action next spares _ stepped
    exact spares.step action stepped

/-! ## Every set of survivors is possible -/

section Survivors

variable {manager : State} {completion : Completion}

/-- A round of the deletion loop takes the last entry and no life. -/
theorem delete_one
    {remaining : Nat}
    (inside : completion.place = .deleting)
    (atTest : completion.manager.place = .killAllTest)
    (size : completion.manager.size = remaining + 1) :
    ∃ next,
      (completing manager).run completion (List.replicate 7 .run) =
        some next ∧
      next.place = .deleting ∧ next.manager.place = .killAllTest ∧
      next.manager.size = remaining ∧
      next.manager.alive = completion.manager.alive := by
  simp [Machine.run, List.replicate, completing, step, runStatement, inside,
    atTest, size, ProcessManager.runStatement, goto, pred, touch, decrement,
    leaveDelete]

/-- With an empty array the loop is left. -/
theorem leave_loop
    (inside : completion.place = .deleting)
    (atTest : completion.manager.place = .killAllTest)
    (size : completion.manager.size = 0) :
    (completing manager).run completion [.run, .run] =
      some { completion with
        manager := completion.manager.goto .wait
        place := .sleeping } := by
  simp [Machine.run, completing, step, runStatement, inside, atTest, size,
    ProcessManager.runStatement, goto]

theorem delete_rest
    {remaining : Nat}
    (reachable : (completing manager).Reachable completion)
    (inside : completion.place = .deleting)
    (atTest : completion.manager.place = .killAllTest)
    (size : completion.manager.size = remaining) :
    ∃ next, (completing manager).Reachable next ∧
      next.place = .sleeping ∧
      next.manager.alive = completion.manager.alive := by
  induction remaining generalizing completion with
  | zero => exact ⟨_, reachable.run (leave_loop inside atTest size), rfl, rfl⟩
  | succ remaining inductionHypothesis =>
      obtain ⟨next, ran, nextInside, nextTest, nextSize, sameAlive⟩ :=
        delete_one inside atTest size
      rw [← sameAlive]
      exact inductionHypothesis (reachable.run ran) nextInside nextTest
        nextSize

/-- The sleep is reached with every child alive. -/
theorem reaches_sleep (manager : State) :
    ∃ completion, (completing manager).Reachable completion ∧
      completion.place = .sleeping ∧
      completion.manager.alive = manager.alive := by
  have starts : (completing manager).Reachable (start manager) :=
    .initial rfl
  by_cases empty : manager.size = 0
  · have left : (completing manager).run (start manager) [.run, .run] =
        some { start manager with
          manager := (manager.goto .killAllCheck).goto .wait
          place := .sleeping } := by
      simp [Machine.run, completing, step, runStatement, start, goto,
        ProcessManager.runStatement, empty]
    exact ⟨_, starts.run left, rfl, rfl⟩
  · have entered : (completing manager).run (start manager) [.run] =
        some { start manager with
          manager := (manager.goto .killAllCheck).goto .killAllTest } := by
      simp [Machine.run, completing, step, runStatement, start, goto,
        ProcessManager.runStatement, empty]
    exact delete_rest (starts.run entered) rfl rfl rfl

/-- While the manager sleeps, any of the children may die. -/
theorem reaches_survivors
    (survives : Nat → Bool)
    {front rest : List Nat}
    (reachable : (completing manager).Reachable completion)
    (sleeping : completion.place = .sleeping)
    (alive : completion.manager.alive = front ++ rest)
    (kept : ∀ pid ∈ front, survives pid = true) :
    ∃ next, (completing manager).Reachable next ∧
      next.place = .sleeping ∧
      next.manager.alive = front ++ rest.filter survives := by
  induction rest generalizing front completion with
  | nil => exact ⟨completion, reachable, sleeping, alive⟩
  | cons pid rest inductionHypothesis =>
      cases survivor : survives pid with
      | true =>
          rw [List.filter_cons_of_pos survivor, List.append_cons]
          apply inductionHypothesis reachable sleeping
          · rw [alive, List.append_cons]
          · exact List.forall_mem_append.mpr
              ⟨kept, List.forall_mem_singleton.mpr survivor⟩
      | false =>
          have notKept : pid ∉ front := by
            intro member
            rw [kept pid member] at survivor
            cases survivor
          have remaining : completion.manager.alive.erase pid =
              front ++ rest := by
            rw [alive, List.erase_append_right _ notKept,
              List.erase_cons_head]
          have listed : pid ∈ completion.manager.alive := by
            rw [alive]
            exact List.mem_append_right _ List.mem_cons_self
          have running : completion.place ≠ .exited := by
            rw [sleeping]
            exact CompletionPlace.noConfusion
          have died : (completing manager).step completion (.die pid) =
              some { completion with
                manager := { completion.manager with
                  alive := front ++ rest
                  zombies := completion.manager.zombies ++ [pid] } } := by
            change completion.meanwhile (.die pid) = _
            rw [meanwhile, if_neg running, ProcessManager.step,
              if_pos listed, remaining]
            rfl
          rw [List.filter_cons_of_neg (by rw [survivor]; decide)]
          exact inductionHypothesis (reachable.step trivial died) sleeping
            rfl kept

/-- From the sleep on the program goes to its exit. -/
theorem reaches_exit
    (reachable : (completing manager).Reachable completion)
    (sleeping : completion.place = .sleeping) :
    ∃ final, (completing manager).Reachable final ∧
      final.place = .exited ∧
      final.survivors = completion.manager.alive := by
  have empty : completion.manager.size = 0 := by
    apply (reachable_spares reachable).returned
    rw [sleeping]
    exact CompletionPlace.noConfusion
  have ran : (completing manager).run completion [.run, .run, .run] =
      some { completion with
        manager := { completion.manager with zombies := [] }
        place := .exited
        survivors := completion.manager.alive } := by
    simp [Machine.run, completing, step, runStatement, sleeping, empty]
  exact ⟨_, reachable.run ran, rfl, rfl⟩

/-- For every array of children and every set of survivors there is a run to
the exit with just these survivors. -/
theorem reaches_exit_with
    (manager : State)
    (survives : Nat → Bool) :
    ∃ final, (completing manager).Reachable final ∧
      final.place = .exited ∧
      final.survivors = manager.alive.filter survives := by
  obtain ⟨asleep, reachable, sleeping, alive⟩ := reaches_sleep manager
  have nobody : ∀ pid ∈ ([] : List Nat), survives pid = true :=
    fun _ member => absurd member List.not_mem_nil
  obtain ⟨waiting, reachable, sleeping, left⟩ :=
    reaches_survivors survives reachable sleeping
      (alive.trans (List.nil_append manager.alive).symm) nobody
  obtain ⟨final, reachable, exited, survivors⟩ :=
    reaches_exit reachable sleeping
  exact ⟨final, reachable, exited, survivors.trans left⟩

end Survivors

/-! ## The survivors are not killed -/

/-- `SIGKILL` goes to every child of the array that survived. -/
def KillsSurvivors (manager : State) (final : Completion) : Prop :=
  ∀ pid ∈ manager.pids, pid ∈ final.survivors → pid ∈ final.killed

/-- For every array and every set of survivors: the runs of
`complete_the_program` kill the survivors of the array exactly if there are
none. -/
theorem survivors_killed_iff
    (manager : State)
    (survives : Nat → Bool) :
    (∀ final, (completing manager).Reachable final →
        final.place = .exited →
        final.survivors = manager.alive.filter survives →
        KillsSurvivors manager final) ↔
      ∀ pid ∈ manager.pids, pid ∉ manager.alive.filter survives := by
  constructor
  · intro kills pid listed survived
    obtain ⟨final, reachable, exited, survivors⟩ :=
      reaches_exit_with manager survives
    rw [← survivors] at survived
    have killed := kills final reachable exited survivors pid listed survived
    rw [(reachable_spares reachable).killed] at killed
    exact absurd killed List.not_mem_nil
  · intro none final _ _ survivors pid listed survived
    rw [survivors] at survived
    exact absurd survived (none pid listed)

/-- A manager with a single child, which is stopped and therefore keeps its
`SIGTERM` pending. -/
def stoppedChild : State where
  table _ := ⟨7, childName 0, 0⟩
  size := 1
  capacity := initialCapacity
  place := .prompt
  alive := [7]
  zombies := []
  expected := [7]
  inBounds := true
  wrapped := false

/-- The stopped child outlives the manager. -/
theorem stoppedChild_outlives :
    ∃ final,
      (completing stoppedChild).run (start stoppedChild)
          (List.replicate 13 .run) = some final ∧
        final.place = .exited ∧ final.survivors = [7] ∧
        ¬KillsSurvivors stoppedChild final := by
  refine ⟨_, rfl, rfl, rfl, ?_⟩
  intro kills
  exact absurd (kills 7 (by decide) (by decide)) (by decide)

end Completion

end ProcessManager
end OSaSP
