import OSaSP.Foundations.Machine
import OSaSP.Foundations.Pool

/-!
# How the file server stops

`main` accepts clients until `server_running` is cleared and then waits for
their threads.  A thread counts itself, so one that was created but has not run
yet is not counted; and a wait that ends with threads left over ends the whole
waiting, because `server_running` is always clear by then.

A critical section is one action.  A wait on `active_threads_cond` may end at
any moment, because of a signal, spuriously, or with the timeout; the signals
themselves therefore have no effect of their own.
-/

namespace OSaSP
namespace FileServer

/-- Places of `client_thread`. -/
inductive ClientPc
  | created
  | serving
  | closing
  | finished
  deriving DecidableEq

/-- How `main` leaves the waiting loop. -/
inductive Exit
  | drained
  | timedOut
  | abandoned
  deriving DecidableEq

/-- Places of `main`; `console` says that `select` also reported `stdin`. -/
inductive ServerPc
  | loopTest
  | select
  | accept (console : Bool)
  | create (console : Bool)
  | console
  | closeListener
  | lock
  | waiting
  | left (exit : Exit)
  | reported (exit : Exit)
  deriving DecidableEq

/-- The state that `main` and the client threads share. -/
structure ServerState where
  main : ServerPc
  serverRunning : Bool
  activeThreadsCount : Int
  clients : List ClientPc

/-- What the calls of `main` return. -/
inductive ServerEvent
  | proceed
  | interrupted
  | selectFailed
  | ready (client console : Bool)
  | acceptFailed
  | accepted
  | mallocFailed
  | createFailed
  | created
  | quit
  | unknownCommand
  | woken
  | timedOut
  deriving DecidableEq

/-- The actions of the server. -/
inductive ServerAction
  | signal
  | main (event : ServerEvent)
  | client (id : Nat)
  deriving DecidableEq

namespace ServerState

/-- The place behind the new connection in a round of the accept loop. -/
def behindClient (console : Bool) : ServerPc :=
  if console then .console else .loopTest

/-- The test of the waiting loop. -/
def testCount (state : ServerState) : ServerState :=
  { state with
    main := if 0 < state.activeThreadsCount then .waiting
      else .left .drained }

/-- What follows a wait that did not time out. -/
def afterWait (state : ServerState) : ServerState :=
  if state.serverRunning = false ∧ 0 < state.activeThreadsCount then
    { state with main := .left .abandoned }
  else state.testCount

end ServerState

open ServerState

/-- One step of `main`. -/
def serverMainStep
    (state : ServerState)
    (event : ServerEvent) : Option ServerState :=
  match state.main, event with
  | .loopTest, .proceed =>
      some { state with
        main := if state.serverRunning then .select else .closeListener }
  | .select, .interrupted => some { state with main := .loopTest }
  | .select, .selectFailed =>
      some { state with serverRunning := false, main := .closeListener }
  | .select, .ready client console =>
      some { state with
        main := if client then .accept console else behindClient console }
  | .accept _, .acceptFailed =>
      some { state with
        main := if state.serverRunning then .loopTest else .closeListener }
  | .accept console, .accepted =>
      some { state with main := .create console }
  | .create _, .mallocFailed => some { state with main := .loopTest }
  | .create console, .createFailed =>
      some { state with main := behindClient console }
  | .create console, .created =>
      some { state with
        clients := state.clients ++ [.created]
        main := behindClient console }
  | .console, .quit =>
      some { state with serverRunning := false, main := .loopTest }
  | .console, .unknownCommand => some { state with main := .loopTest }
  | .closeListener, .proceed => some { state with main := .lock }
  | .lock, .proceed => some state.testCount
  | .waiting, .woken => some state.afterWait
  | .waiting, .timedOut => some { state with main := .left .timedOut }
  | .left exit, .proceed => some { state with main := .reported exit }
  | _, _ => none

/-- One step of a client thread; its loop may end in any round. -/
def serverClientStep
    (state : ServerState)
    (id : Nat) : Option ServerState :=
  match state.clients[id]? with
  | some .created =>
      some { state with
        activeThreadsCount := state.activeThreadsCount + 1
        clients := state.clients.set id .serving }
  | some .serving =>
      some { state with clients := state.clients.set id .closing }
  | some .closing =>
      some { state with
        activeThreadsCount := state.activeThreadsCount - 1
        clients := state.clients.set id .finished }
  | some .finished | none => none

/-- The server with its signal handler. -/
def serverMachine : Machine ServerState ServerAction where
  initial state := state = ⟨.loopTest, true, 0, []⟩
  step state
    | .signal => some { state with serverRunning := false }
    | .main event => serverMainStep state event
    | .client id => serverClientStep state id

/-! ## What is counted -/

/-- Whether a thread has counted itself and not yet left. -/
def counted : ClientPc → Nat
  | .serving | .closing => 1
  | .created | .finished => 0

/-- `main` is past the accept loop. -/
def PastAccepting : ServerPc → Prop
  | .closeListener | .lock | .waiting | .left _ | .reported _ => True
  | _ => False

/-- `main` has left the waiting loop, and not with the timeout. -/
def LeftWaiting : ServerPc → Prop
  | .left exit | .reported exit => exit ≠ .timedOut
  | _ => False

/-- Once `main` has left the waiting loop without a timeout, every thread has
made its last decrement and none is counted. -/
def AllThreadsFinished (state : ServerState) : Prop :=
  LeftWaiting state.main →
    (∀ client ∈ state.clients, client = .finished) ∧
      state.activeThreadsCount = 0

/-- `main` does not come back from a wait while threads are counted, and does
not leave while a thread still has to count itself. -/
def LeavesLast (state : ServerState) : ServerAction → Prop
  | .main .woken =>
      state.activeThreadsCount = 0 ∧ .created ∉ state.clients
  | .main .proceed =>
      state.main = .lock → state.activeThreadsCount = 0 →
        .created ∉ state.clients
  | _ => True

/-- The counter counts the threads between their two critical sections, and
the accept loop ends with the flag. -/
structure Counts (state : ServerState) : Prop where
  count : state.activeThreadsCount = (Pool.total counted state.clients : Int)
  stopped : PastAccepting state.main → state.serverRunning = false

/-- The counter is right and `main` has left no thread behind. -/
structure KeepsCount (state : ServerState) : Prop extends Counts state where
  finished : AllThreadsFinished state

/-- What a step of `main` does to the counter and to leaving. -/
inductive ServerMainMove (state : ServerState) :
    ServerEvent → ServerState → Prop
  | elsewhere {event : ServerEvent} {next : ServerState} :
      next.activeThreadsCount = state.activeThreadsCount →
      (next.clients = state.clients ∨
        next.clients = state.clients ++ [.created]) →
      ¬LeftWaiting next.main →
      (PastAccepting next.main → next.serverRunning = false ∨
        PastAccepting state.main ∧
          next.serverRunning = state.serverRunning) →
      ServerMainMove state event next
  | test :
      state.main = .lock → ServerMainMove state .proceed state.testCount
  | wake :
      state.main = .waiting → ServerMainMove state .woken state.afterWait
  | report {exit : Exit} :
      state.main = .left exit →
      ServerMainMove state .proceed { state with main := .reported exit }

/-- A step that only moves `main`. -/
theorem ServerMainMove.moveTo
    {state : ServerState}
    {event : ServerEvent}
    {place : ServerPc}
    (notLeft : ¬LeftWaiting place)
    (stopped : PastAccepting place →
      state.serverRunning = false ∨ PastAccepting state.main) :
    ServerMainMove state event { state with main := place } :=
  .elsewhere rfl (.inl rfl) notLeft fun past =>
    (stopped past).imp id fun before => ⟨before, rfl⟩

/-- A test of `server_running` in the accept loop. -/
theorem ServerMainMove.testRunning
    {state : ServerState}
    {event : ServerEvent}
    {place : ServerPc}
    (notLeft : ¬LeftWaiting place)
    (accepting : ¬PastAccepting place) :
    ServerMainMove state event
      { state with
        main := if state.serverRunning then place else .closeListener } := by
  by_cases running : state.serverRunning = true
  · rw [if_pos running]
    exact .moveTo notLeft fun past => absurd past accepting
  · rw [if_neg running]
    exact .moveTo id fun _ => .inl (Bool.eq_false_iff.mpr running)

theorem not_leftWaiting_behindClient (console : Bool) :
    ¬LeftWaiting (behindClient console) := by
  cases console <;> exact id

theorem not_pastAccepting_behindClient (console : Bool) :
    ¬PastAccepting (behindClient console) := by
  cases console <;> exact id

theorem serverMainStep_move
    {state next : ServerState}
    {event : ServerEvent}
    (stepped : serverMainStep state event = some next) :
    ServerMainMove state event next := by
  cases main : state.main with
  | loopTest =>
      cases event <;> simp only [serverMainStep, main, reduceCtorEq,
        Option.some.injEq] at stepped
      case proceed => exact stepped ▸ .testRunning id id
  | select =>
      cases event <;> simp only [serverMainStep, main, reduceCtorEq,
        Option.some.injEq] at stepped
      case interrupted => exact stepped ▸ .moveTo id False.elim
      case selectFailed =>
        exact stepped ▸ .elsewhere rfl (.inl rfl) id fun _ => .inl rfl
      case ready client console =>
        subst stepped
        cases client with
        | true => exact .moveTo id False.elim
        | false =>
            exact .moveTo (not_leftWaiting_behindClient console) fun past =>
              absurd past (not_pastAccepting_behindClient console)
  | accept console =>
      cases event <;> simp only [serverMainStep, main, reduceCtorEq,
        Option.some.injEq] at stepped
      case acceptFailed => exact stepped ▸ .testRunning id id
      case accepted => exact stepped ▸ .moveTo id False.elim
  | create console =>
      cases event <;> simp only [serverMainStep, main, reduceCtorEq,
        Option.some.injEq] at stepped
      case mallocFailed => exact stepped ▸ .moveTo id False.elim
      case createFailed =>
        exact stepped ▸ .moveTo (not_leftWaiting_behindClient console)
          fun past => absurd past (not_pastAccepting_behindClient console)
      case created =>
        exact stepped ▸ .elsewhere rfl (.inr rfl)
          (not_leftWaiting_behindClient console)
          fun past => absurd past (not_pastAccepting_behindClient console)
  | console =>
      cases event <;> simp only [serverMainStep, main, reduceCtorEq,
        Option.some.injEq] at stepped
      case quit =>
        exact stepped ▸ .elsewhere rfl (.inl rfl) id False.elim
      case unknownCommand => exact stepped ▸ .moveTo id False.elim
  | closeListener =>
      cases event <;> simp only [serverMainStep, main, reduceCtorEq,
        Option.some.injEq] at stepped
      case proceed =>
        exact stepped ▸ .moveTo id fun _ => .inr (main ▸ trivial)
  | lock =>
      cases event <;> simp only [serverMainStep, main, reduceCtorEq,
        Option.some.injEq] at stepped
      case proceed => exact stepped ▸ .test main
  | waiting =>
      cases event <;> simp only [serverMainStep, main, reduceCtorEq,
        Option.some.injEq] at stepped
      case woken => exact stepped ▸ .wake main
      case timedOut =>
        exact stepped ▸ .moveTo (fun inTime => inTime rfl)
          fun _ => .inr (main ▸ trivial)
  | left exit =>
      cases event <;> simp only [serverMainStep, main, reduceCtorEq,
        Option.some.injEq] at stepped
      case proceed => exact stepped ▸ .report main
  | reported exit =>
      cases event <;> simp only [serverMainStep, main, reduceCtorEq] at stepped

/-- A wait that ends while threads are counted ends the waiting. -/
theorem afterWait_of_counted
    {state : ServerState}
    (stopped : state.serverRunning = false)
    (remain : 0 < state.activeThreadsCount) :
    state.afterWait = { state with main := .left .abandoned } :=
  if_pos ⟨stopped, remain⟩

theorem testCount_of_none
    {state : ServerState}
    (none : state.activeThreadsCount = 0) :
    state.testCount = { state with main := .left .drained } := by
  rw [testCount, none, if_neg (Int.lt_irrefl 0)]

theorem afterWait_of_none
    {state : ServerState}
    (none : state.activeThreadsCount = 0) :
    state.afterWait = { state with main := .left .drained } := by
  rw [afterWait, if_neg (fun both => by omega), testCount_of_none none]

/-! ## Runs -/

/-- What a client thread counts of itself is what it adds to the counter. -/
theorem serverClientStep_cases
    {state next : ServerState}
    {id : Nat}
    (stepped : serverClientStep state id = some next) :
    ∃ old new change,
      state.clients[id]? = some old ∧ old ≠ .finished ∧
        (counted new : Int) = counted old + change ∧
        next = { state with
          activeThreadsCount := state.activeThreadsCount + change
          clients := state.clients.set id new } := by
  cases present : state.clients[id]? with
  | none => simp only [serverClientStep, present, reduceCtorEq] at stepped
  | some old =>
      cases old <;> simp only [serverClientStep, present, reduceCtorEq,
        Option.some.injEq] at stepped
      case created =>
        exact ⟨_, .serving, 1, rfl, nofun, rfl, stepped.symm⟩
      case serving =>
        refine ⟨_, .closing, 0, rfl, nofun, rfl, ?_⟩
        rw [Int.add_zero]
        exact stepped.symm
      case closing =>
        exact ⟨_, .finished, -1, rfl, nofun, rfl, stepped.symm⟩

theorem counts_step
    {state next : ServerState}
    {action : ServerAction}
    (counts : Counts state)
    (stepped : serverMachine.step state action = some next) :
    Counts next := by
  obtain ⟨count, stopped⟩ := counts
  cases action with
  | signal =>
      cases stepped
      exact ⟨count, fun _ => rfl⟩
  | main event =>
      cases serverMainStep_move stepped with
      | elsewhere sameCount joins notLeft ends =>
          refine ⟨?_, fun past => ?_⟩
          · rw [sameCount, count]
            rcases joins with same | joined
            · rw [same]
            · rw [joined, Pool.total_append]
              rfl
          · rcases ends past with cleared | ⟨before, same⟩
            · exact cleared
            · rw [same, stopped before]
      | test place => exact ⟨count, fun _ => stopped (place ▸ trivial)⟩
      | wake place =>
          have cleared := stopped (place ▸ trivial)
          rcases Int.lt_or_le 0 state.activeThreadsCount with remain | none
          · rw [afterWait_of_counted cleared remain]
            exact ⟨count, fun _ => cleared⟩
          · rw [afterWait_of_none (by omega)]
            exact ⟨count, fun _ => cleared⟩
      | report place => exact ⟨count, fun _ => stopped (place ▸ trivial)⟩
  | client id =>
      obtain ⟨old, new, change, present, -, weighs, rfl⟩ :=
        serverClientStep_cases stepped
      have moved := Pool.total_set counted present new
      refine ⟨?_, stopped⟩
      change state.activeThreadsCount + change =
        (Pool.total counted (state.clients.set id new) : Int)
      omega

/-- Without a counted or uncounted thread all are finished. -/
theorem finished_of_none
    {state : ServerState}
    (counts : Counts state)
    (none : state.activeThreadsCount = 0)
    (noLate : .created ∉ state.clients) :
    ∀ client ∈ state.clients, client = .finished := by
  intro client member
  have weightless : counted client = 0 :=
    (Pool.total_eq_zero_iff counted state.clients).mp
      (by have count := counts.count; omega) client member
  cases client with
  | created => exact absurd member noLate
  | serving | closing => cases weightless
  | finished => rfl

theorem allThreadsFinished_step
    {state next : ServerState}
    {action : ServerAction}
    (counts : Counts state)
    (finished : AllThreadsFinished state)
    (last : LeavesLast state action)
    (stepped : serverMachine.step state action = some next) :
    AllThreadsFinished next := by
  cases action with
  | signal =>
      cases stepped
      exact finished
  | main event =>
      cases serverMainStep_move stepped with
      | elsewhere _ _ notLeft _ => exact fun left => absurd left notLeft
      | test place =>
          intro left
          by_cases none : state.activeThreadsCount = 0
          · have all := finished_of_none counts none (last place none)
            exact ⟨all, none⟩
          · have count := counts.count
            rw [testCount, if_pos (by omega)] at left
            exact left.elim
      | wake place =>
          intro _
          have all := finished_of_none counts last.1 last.2
          rw [afterWait_of_none last.1]
          exact ⟨all, last.1⟩
      | report place =>
          intro inTime
          exact finished (place ▸ inTime)
  | client id =>
      obtain ⟨old, new, change, present, unfinished, -, rfl⟩ :=
        serverClientStep_cases stepped
      intro left
      have all := (finished left).1
      exact absurd (all old (List.mem_of_getElem? present)) unfinished

theorem AllThreadsFinished.of_left
    {state : ServerState}
    {exit : Exit}
    (finished : AllThreadsFinished { state with main := .left exit })
    (inTime : exit ≠ .timedOut) :
    (∀ client ∈ state.clients, client = .finished) ∧
      state.activeThreadsCount = 0 :=
  finished inTime

theorem serverMainStep_woken
    {state next : ServerState}
    (stepped : serverMachine.step state (.main .woken) = some next) :
    state.main = .waiting ∧ next = state.afterWait := by
  change serverMainStep state .woken = some next at stepped
  cases place : state.main <;>
    simp only [serverMainStep, place, reduceCtorEq, Option.some.injEq]
      at stepped
  exact ⟨rfl, stepped.symm⟩

theorem not_allThreadsFinished_step
    {state next : ServerState}
    {action : ServerAction}
    (counts : Counts state)
    (early : ¬LeavesLast state action)
    (stepped : serverMachine.step state action = some next) :
    ¬AllThreadsFinished next := by
  cases action with
  | signal | client id => exact absurd trivial early
  | main event =>
      by_cases wakes : event = .woken
      · subst wakes
        obtain ⟨place, rfl⟩ := serverMainStep_woken stepped
        have cleared := counts.stopped (place ▸ trivial)
        have count := counts.count
        intro finished
        by_cases none : state.activeThreadsCount = 0
        · rw [afterWait_of_none none] at finished
          refine early ⟨none, fun late => ?_⟩
          exact absurd ((finished.of_left nofun).1 .created late) nofun
        · rw [afterWait_of_counted cleared (by omega)] at finished
          exact none (finished.of_left nofun).2
      · by_cases proceeds : event = .proceed
        · subst proceeds
          intro finished
          refine early fun place none late => ?_
          have tested : state.testCount = next := by
            change serverMainStep state .proceed = some next at stepped
            simpa only [serverMainStep, place, Option.some.injEq]
              using stepped
          rw [← tested, testCount_of_none none] at finished
          exact absurd ((finished.of_left nofun).1 .created late) nofun
        · refine absurd ?_ early
          cases event <;> trivial

/-- In a whole run `main` leaves the waiting loop without a timeout only when
every thread it created has finished, just when it never comes back from a
wait while threads are counted and never leaves before a thread has counted
itself. -/
theorem allThreadsFinished_iff
    (actions : List ServerAction)
    {state final : ServerState}
    (starts : serverMachine.initial state)
    (executed : serverMachine.run state actions = some final) :
    serverMachine.EveryState AllThreadsFinished state actions ↔
      serverMachine.EveryStep LeavesLast state actions := by
  have keeps : KeepsCount state := by
    rw [show state = ⟨.loopTest, true, 0, []⟩ from starts]
    exact ⟨⟨rfl, False.elim⟩, False.elim⟩
  exact Machine.everyState_iff_everyStep
    (fun _ keeps => KeepsCount.finished keeps)
    (fun _ _ _ keeps last stepped =>
      ⟨counts_step keeps.toCounts stepped,
        allThreadsFinished_step keeps.toCounts keeps.finished last stepped⟩)
    (fun _ _ _ keeps early stepped =>
      not_allThreadsFinished_step keeps.toCounts early stepped)
    keeps executed

/-- One client comes and goes, and `main` leaves the loop without a wait. -/
theorem one_client_finished :
    serverMachine.EveryState AllThreadsFinished ⟨.loopTest, true, 0, []⟩
      [.main .proceed, .main (.ready true false), .main .accepted,
        .main .created, .client 0, .client 0, .client 0, .signal,
        .main .proceed, .main .proceed, .main .proceed, .main .proceed] := by
  refine (allThreadsFinished_iff _ rfl rfl).mpr ?_
  simp [Machine.EveryStep, serverMachine, serverMainStep, serverClientStep,
    LeavesLast, testCount, behindClient]

/-- A thread that has not run yet is not waited for, and of two threads the
second is not waited for either. -/
theorem reported_before_finished :
    (∃ final,
        serverMachine.run ⟨.loopTest, true, 0, []⟩
            [.main .proceed, .main (.ready true false), .main .accepted,
              .main .created, .signal, .main .proceed, .main .proceed,
              .main .proceed, .main .proceed] = some final ∧
          final.main = .reported .drained ∧ final.clients = [.created] ∧
          ¬AllThreadsFinished final) ∧
      ∃ final,
        serverMachine.run ⟨.loopTest, true, 0, []⟩
            [.main .proceed, .main (.ready true false), .main .accepted,
              .main .created, .main .proceed, .main (.ready true true),
              .main .accepted, .main .created, .client 0, .client 1,
              .main .quit, .main .proceed, .main .proceed, .main .proceed,
              .client 0, .client 0, .main .woken, .main .proceed] =
            some final ∧
          final.main = .reported .abandoned ∧
          final.clients = [.finished, .serving] ∧
          ¬AllThreadsFinished final := by
  constructor
  · refine ⟨_, rfl, rfl, rfl, fun finished => ?_⟩
    exact absurd ((finished nofun).1 .created (.head _)) nofun
  · refine ⟨_, rfl, rfl, rfl, fun finished => ?_⟩
    exact absurd (finished nofun).2 (by decide)

end FileServer
end OSaSP
