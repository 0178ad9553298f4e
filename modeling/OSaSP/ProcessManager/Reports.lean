import OSaSP.Foundations.Machine
import OSaSP.Foundations.Mailbox
import OSaSP.Foundations.Pool

/-!
# The reports of the children

A child counts the four values that `occurrence` takes in turn.  After 101
rounds it sends `SIGUSR1` to its parent, prints its counters, sends `SIGUSR2`
and begins anew.  The handler of the parent announces both signals.  `SIGTERM`
and `SIGINT` end a child between any two of its statements, and a signal that
finds another one pending may be lost.

Whatever the order in which the children and the handler run, a child prints
the same sequence of reports, and the parent announces no report twice and none
that was not made.
-/

namespace OSaSP
namespace ProcessManager

/-! ## A child -/

/-- `pair`. -/
structure Pair where
  first : Nat
  second : Nat

/-- The counters of a child, `occurrence` and the static variable of
`update_stats`. -/
structure Stats where
  occurrence : Pair
  counter : Nat
  c00 : Nat
  c01 : Nat
  c10 : Nat
  c11 : Nat

/-- The statistics of a child that has just been started. -/
def Stats.start : Stats where
  occurrence := ⟨0, 0⟩
  counter := 0
  c00 := 0
  c01 := 0
  c10 := 0
  c11 := 0

/-- `update_stats`. -/
def Stats.updateStats (stats : Stats) : Stats :=
  { stats with
    occurrence :=
      match stats.counter with
      | 0 => ⟨0, 0⟩
      | 1 => ⟨1, 0⟩
      | 2 => ⟨0, 1⟩
      | 3 => ⟨1, 1⟩
      | _ => stats.occurrence
    counter := (stats.counter + 1) % 4 }

/-- The counter of the present occurrence is incremented. -/
def Stats.count (stats : Stats) : Stats :=
  if stats.occurrence.first = 0 ∧ stats.occurrence.second = 0 then
    { stats with c00 := stats.c00 + 1 }
  else if stats.occurrence.first = 1 ∧ stats.occurrence.second = 0 then
    { stats with c01 := stats.c01 + 1 }
  else if stats.occurrence.first = 0 ∧ stats.occurrence.second = 1 then
    { stats with c10 := stats.c10 + 1 }
  else if stats.occurrence.first = 1 ∧ stats.occurrence.second = 1 then
    { stats with c11 := stats.c11 + 1 }
  else stats

/-- The counters are set to zero. -/
def Stats.reset (stats : Stats) : Stats :=
  { stats with c00 := 0, c01 := 0, c10 := 0, c11 := 0 }

/-- The two signals of a report. -/
inductive ReportSignal
  | usr1
  | usr2
  deriving DecidableEq

/-- What a child does that can be seen from outside. -/
inductive Event
  | signal (signal : ReportSignal)
  | dashes
  | intro
  | stats (c00 c01 c10 c11 : Nat)
  | received (signo : Nat)
  deriving DecidableEq

/-- Places in the loop of a child. -/
inductive ReportPlace
  | sleep
  | sendUsr1
  | printDashes
  | printIntro
  | printStats
  | sendUsr2
  | gone
  deriving DecidableEq

/-- A child with what it has done so far. -/
structure Reporter where
  place : ReportPlace
  stats : Stats
  log : List Event

namespace Reporter

/-- A child in front of its loop. -/
def start : Reporter where
  place := .sleep
  stats := .start
  log := []

/-- The child does something and goes on at another place. -/
def act
    (child : Reporter)
    (event : Event)
    (place : ReportPlace) : Reporter :=
  { child with place := place, log := child.log ++ [event] }

/-- A round of the loop up to the test of the sum, which is taken to `size_t`
without loss. -/
def round (child : Reporter) : Reporter :=
  let stats := child.stats.updateStats.count
  { child with
    stats := stats
    place :=
      if stats.c00 + stats.c01 + stats.c10 + stats.c11 ≥ 101 then .sendUsr1
      else .sleep }

end Reporter

/-- A statement of a child, the result of its `sigqueue`, or a signal that ends
it. -/
inductive ReporterAction
  | run
  | queued (kept : Bool)
  | queueFailed
  | terminated (signo : Nat)

/-- One step of a child. -/
def Reporter.advance (child : Reporter) : ReporterAction → Option Reporter
  | .run =>
      match child.place with
      | .sleep => some child.round
      | .printDashes => some (child.act .dashes .printIntro)
      | .printIntro => some (child.act .intro .printStats)
      | .printStats =>
          some (child.act
            (.stats child.stats.c00 child.stats.c01 child.stats.c10
              child.stats.c11) .sendUsr2)
      | .sendUsr1 | .sendUsr2 | .gone => none
  | .queued _ =>
      match child.place with
      | .sendUsr1 => some (child.act (.signal .usr1) .printDashes)
      | .sendUsr2 =>
          some { child.act (.signal .usr2) .sleep with
            stats := child.stats.reset }
      | _ => none
  | .queueFailed =>
      match child.place with
      | .sendUsr1 | .sendUsr2 => some { child with place := .gone }
      | _ => none
  | .terminated signo =>
      if child.place = .gone then none
      else some (child.act (.received signo) .gone)

/-- The signal that a step sends to the parent, and whether it stays
pending. -/
def Reporter.sends
    (child : Reporter) : ReporterAction → Option (ReportSignal × Bool)
  | .queued kept =>
      match child.place with
      | .sendUsr1 => some (.usr1, kept)
      | .sendUsr2 => some (.usr2, kept)
      | _ => none
  | _ => none

/-! ## The children and their parent -/

/-- The children in the order of their creation and, for each signal, the
children that sent it, those whose signal is pending and those that the handler
has announced. -/
structure Reporting where
  children : List Reporter
  mail : ReportSignal → Mailbox Nat

/-- A child is created, a child does something, or the handler of the parent
takes a signal. -/
inductive ReportingAction
  | create
  | child (index : Nat) (action : ReporterAction)
  | handle (signal : ReportSignal)

/-- One step of the children and the handler. -/
def reportingStep
    (state : Reporting) : ReportingAction → Option Reporting
  | .create => some { state with children := state.children ++ [.start] }
  | .child index action => do
      let child ← state.children[index]?
      let next ← child.advance action
      let children := state.children.set index next
      match child.sends action with
      | none => some { state with children := children }
      | some (signal, kept) =>
          let mailbox ← (state.mail signal).send index kept
          some ⟨children, Function.update state.mail signal mailbox⟩
  | .handle signal => do
      let mailbox ← (state.mail signal).deliver
      some { state with mail := Function.update state.mail signal mailbox }

/-- The reporting from the first child on. -/
def reporting : Machine Reporting ReportingAction where
  initial state := state = ⟨[], fun _ => .empty⟩
  step := reportingStep

/-! ## The reports of one child -/

/-- How often a class has been counted after so many rounds of a report. -/
def tally (report ticks group : Nat) : Nat :=
  (ticks + 3 - (group + 4 - report % 4) % 4) / 4

/-- How often a class is counted in a whole report. -/
def share (number group : Nat) : Nat :=
  if number % 4 = group then 26 else 25

/-- What a child does for its report of this number. -/
def report (number : Nat) : List Event :=
  [.signal .usr1, .dashes, .intro,
    .stats (share number 0) (share number 1) (share number 2)
      (share number 3), .signal .usr2]

/-- The first reports. -/
def reports (count : Nat) : List Event :=
  (List.range count).flatMap report

/-- The class that a report begins with is counted once more than the
others. -/
theorem tally_eq_share
    (number : Nat)
    {group : Nat}
    (isGroup : group < 4) :
    tally number 101 group = share number group := by
  unfold tally share
  split <;> omega

theorem reports_succ (count : Nat) :
    reports (count + 1) = reports count ++ report count := by
  simp [reports, List.range_succ]

/-- The variables of a child after so many rounds of a report. -/
structure Tallied (stats : Stats) (number ticks : Nat) : Prop where
  counter : stats.counter = (101 * number + ticks) % 4
  c00 : stats.c00 = tally number ticks 0
  c01 : stats.c01 = tally number ticks 1
  c10 : stats.c10 = tally number ticks 2
  c11 : stats.c11 = tally number ticks 3

/-- The counters sum up to the rounds. -/
theorem sum_tally (number ticks : Nat) :
    tally number ticks 0 + tally number ticks 1 + tally number ticks 2 +
      tally number ticks 3 = ticks := by
  have turn : number % 4 = 0 ∨ number % 4 = 1 ∨ number % 4 = 2 ∨
      number % 4 = 3 := by omega
  unfold tally
  rcases turn with turn | turn | turn | turn <;> rw [turn] <;> omega

theorem Tallied.sum
    {stats : Stats}
    {number ticks : Nat}
    (tallied : Tallied stats number ticks) :
    stats.c00 + stats.c01 + stats.c10 + stats.c11 = ticks := by
  rw [tallied.c00, tallied.c01, tallied.c10, tallied.c11, sum_tally]

/-- A round counts the class whose turn it is. -/
theorem tally_succ
    (number ticks : Nat)
    {group : Nat}
    (isGroup : group < 4) :
    tally number (ticks + 1) group = tally number ticks group +
      if (101 * number + ticks) % 4 = group then 1 else 0 := by
  unfold tally
  split <;> omega

theorem Tallied.count
    {stats : Stats}
    {number ticks : Nat}
    (tallied : Tallied stats number ticks) :
    Tallied stats.updateStats.count number (ticks + 1) := by
  have moved : ∀ group, group < 4 → tally number (ticks + 1) group =
      tally number ticks group + if stats.counter = group then 1 else 0 := by
    intro group isGroup
    rw [tally_succ number ticks isGroup, tallied.counter]
  have turn : stats.counter < 4 := by
    rw [tallied.counter]
    exact Nat.mod_lt _ (by decide)
  have next : (stats.counter + 1) % 4 =
      (101 * number + (ticks + 1)) % 4 := by
    rw [tallied.counter]
    omega
  obtain ⟨-, c00, c01, c10, c11⟩ := tallied
  obtain ⟨occurrence, counter, _, _, _, _⟩ := stats
  dsimp only at c00 c01 c10 c11 moved turn next
  subst c00 c01 c10 c11
  match counter, turn with
  | 0, _ | 1, _ | 2, _ | 3, _ =>
      exact ⟨next, (moved 0 (by decide)).symm, (moved 1 (by decide)).symm,
        (moved 2 (by decide)).symm, (moved 3 (by decide)).symm⟩

/-- The next report begins where the last one has ended. -/
theorem Tallied.reset
    {stats : Stats}
    {number : Nat}
    (tallied : Tallied stats number 101) :
    Tallied stats.reset (number + 1) 0 := by
  have counter := tallied.counter
  constructor <;> simp only [Stats.reset, tally] <;> omega

/-- How much of a report is done at a place. -/
def ReportPlace.progress : ReportPlace → Nat
  | .sleep | .sendUsr1 | .gone => 0
  | .printDashes => 1
  | .printIntro => 2
  | .printStats => 3
  | .sendUsr2 => 4

/-- A child in its loop has made some reports and a part of the next one. -/
structure Reporter.Running
    (child : Reporter)
    (number ticks : Nat) : Prop where
  alive : child.place ≠ .gone
  log : child.log =
    reports number ++ (report number).take child.place.progress
  tallied : Tallied child.stats number ticks
  early : child.place = .sleep → ticks < 101
  late : child.place ≠ .sleep → ticks = 101

/-- A child has done nothing but reports, the last one perhaps not to its end,
and taken the signal that ended it. -/
def Reporter.Reports (child : Reporter) : Prop :=
  ∃ number front ending, child.log = front ++ ending ∧
    front <+: reports number ∧
    (ending = [] ∨ child.place = .gone ∧ ∃ signo, ending = [.received signo])

/-- A child is in its loop or has left it properly. -/
def Reporter.Sound (child : Reporter) : Prop :=
  (∃ number ticks, child.Running number ticks) ∨
    child.place = .gone ∧ child.Reports

section Child

variable {child next : Reporter} {number ticks : Nat}

theorem Reporter.running_start : Reporter.start.Running 0 0 where
  alive := nofun
  log := rfl
  tallied := ⟨rfl, rfl, rfl, rfl, rfl⟩
  early := fun _ => by omega
  late := fun moved => absurd rfl moved

theorem Reporter.Running.front (running : child.Running number ticks) :
    child.log <+: reports (number + 1) := by
  rw [running.log, reports_succ, List.prefix_append_right_inj]
  exact List.take_prefix _ _

theorem Reporter.Sound.reports (sound : child.Sound) : child.Reports := by
  rcases sound with ⟨number, ticks, running⟩ | ⟨-, reports⟩
  · exact ⟨number + 1, child.log, [], (List.append_nil _).symm, running.front,
      .inl rfl⟩
  · exact reports

/-- A round of the loop. -/
theorem Reporter.Running.round
    (running : child.Running number ticks)
    (here : child.place = .sleep) :
    child.round.Running number (ticks + 1) := by
  have tallied := running.tallied.count
  have sum := tallied.sum
  have early := running.early here
  have log := running.log
  rw [here] at log
  have place : child.round.place =
      if ticks + 1 ≥ 101 then .sendUsr1 else .sleep := by
    simp only [Reporter.round, sum]
  by_cases full : ticks + 1 ≥ 101
  · rw [if_pos full] at place
    exact ⟨by simp [place], by rw [place]; exact log, tallied,
      fun same => absurd (place.symm.trans same) (by decide),
      fun _ => by omega⟩
  · rw [if_neg full] at place
    exact ⟨by simp [place], by rw [place]; exact log, tallied,
      fun _ => by omega, fun moved => absurd place moved⟩

/-- The next part of a report. -/
theorem Reporter.Running.act
    {event : Event}
    {place : ReportPlace}
    (running : child.Running number ticks)
    (begun : child.place ≠ .sleep)
    (other : place ≠ .gone)
    (still : place ≠ .sleep)
    (goesOn : place.progress = child.place.progress + 1)
    (part : (report number)[child.place.progress]? = some event) :
    (child.act event place).Running number ticks where
  alive := other
  log := by
    change child.log ++ [event] = _ ++ (report number).take place.progress
    rw [goesOn, List.take_add_one, part, running.log, List.append_assoc]
    rfl
  tallied := running.tallied
  early := fun same => absurd same still
  late := fun _ => running.late begun

/-- The end of a report. -/
theorem Reporter.Running.finish
    (running : child.Running number ticks)
    (here : child.place = .sendUsr2) :
    Reporter.Running
      { child.act (.signal .usr2) .sleep with stats := child.stats.reset }
      (number + 1) 0 where
  alive := nofun
  log := by
    have log := running.log
    rw [here] at log
    change child.log ++ [Event.signal .usr2] = reports (number + 1) ++ []
    rw [log, reports_succ, List.append_nil, List.append_assoc]
    rfl
  tallied := by
    have late := running.late (by rw [here]; nofun)
    exact (late ▸ running.tallied).reset
  early := fun _ => by omega
  late := fun moved => absurd rfl moved

/-- A child that is ended leaves its reports behind. -/
theorem Reporter.Running.stop
    (running : child.Running number ticks)
    (signo : Nat) :
    Reporter.Sound (child.act (.received signo) .gone) :=
  .inr ⟨rfl, number + 1, child.log, [.received signo], rfl, running.front,
    .inr ⟨rfl, signo, rfl⟩⟩

/-- Every step of a child keeps to its reports. -/
theorem Reporter.Sound.advance
    {action : ReporterAction}
    (sound : child.Sound)
    (advanced : child.advance action = some next) :
    next.Sound := by
  rcases sound with ⟨number, ticks, running⟩ | ⟨gone, -⟩
  case inr =>
    cases action <;> simp [Reporter.advance, gone] at advanced
  cases action with
  | run =>
      simp only [Reporter.advance] at advanced
      split at advanced
      case h_1 here =>
        cases advanced
        exact .inl ⟨number, ticks + 1, running.round here⟩
      case h_2 here | h_3 here =>
        cases advanced
        exact .inl ⟨number, ticks, running.act (by rw [here]; nofun) nofun
          nofun (by rw [here]; rfl) (by rw [here]; rfl)⟩
      case h_4 here =>
        cases advanced
        have tallied := running.tallied
        rw [running.late (by rw [here]; nofun)] at tallied
        obtain ⟨-, c00, c01, c10, c11⟩ := tallied
        refine .inl ⟨number, ticks, running.act (by rw [here]; nofun) nofun
          nofun (by rw [here]; rfl) ?_⟩
        rw [here, c00, c01, c10, c11, tally_eq_share, tally_eq_share,
          tally_eq_share, tally_eq_share]
        · rfl
        all_goals decide
      all_goals cases advanced
  | queued kept =>
      simp only [Reporter.advance] at advanced
      split at advanced
      case h_1 here =>
        cases advanced
        exact .inl ⟨number, ticks, running.act (by rw [here]; nofun) nofun
          nofun (by rw [here]; rfl) (by rw [here]; rfl)⟩
      case h_2 here =>
        cases advanced
        exact .inl ⟨number + 1, 0, running.finish here⟩
      case h_3 => cases advanced
  | queueFailed =>
      simp only [Reporter.advance] at advanced
      split at advanced
      case h_3 => cases advanced
      all_goals
        cases advanced
        exact .inr ⟨rfl, number + 1, child.log, [],
          (List.append_nil _).symm, running.front, .inl rfl⟩
  | terminated signo =>
      simp only [Reporter.advance, running.alive, if_false] at advanced
      cases advanced
      exact running.stop signo

/-- The signals in the log are those that were sent. -/
theorem Reporter.count_advance
    {action : ReporterAction}
    (advanced : child.advance action = some next)
    (signal : ReportSignal) :
    next.log.count (.signal signal) = child.log.count (.signal signal) +
      if (child.sends action).map Prod.fst = some signal then 1 else 0 := by
  cases action with
  | run =>
      simp only [Reporter.advance] at advanced
      split at advanced <;> cases advanced <;>
        simp [Reporter.round, Reporter.act, Reporter.sends]
  | queued kept =>
      simp only [Reporter.advance] at advanced
      split at advanced
      case h_3 => cases advanced
      all_goals
        rename_i here
        cases advanced
        simp only [Reporter.act, Reporter.sends, here, Option.map_some,
          Option.some.injEq, List.count_append, List.count_singleton,
          beq_iff_eq, Event.signal.injEq]
  | queueFailed =>
      simp only [Reporter.advance] at advanced
      split at advanced <;> cases advanced <;> simp [Reporter.sends]
  | terminated signo =>
      simp only [Reporter.advance, Option.ite_none_left_eq_some] at advanced
      cases advanced.2
      simp [Reporter.act, Reporter.sends]

end Child

/-! ## All children and the parent -/

/-- Every child keeps to its reports, and the mailboxes hold what the children
sent. -/
structure Reported (state : Reporting) : Prop where
  sound : ∀ child ∈ state.children, child.Sound
  honest : ∀ signal, (state.mail signal).Honest
  matched : ∀ signal index child, state.children[index]? = some child →
    (state.mail signal).sent.count index = child.log.count (.signal signal)
  known : ∀ signal, ∀ index ∈ (state.mail signal).sent,
    index < state.children.length

/-- A new child has sent nothing. -/
theorem Reported.create
    {state : Reporting}
    (reported : Reported state) :
    Reported { state with children := state.children ++ [.start] } where
  sound := by
    intro child member
    rcases List.mem_append.mp member with old | new
    · exact reported.sound child old
    · rw [List.mem_singleton.mp new]
      exact .inl ⟨0, 0, Reporter.running_start⟩
  honest := reported.honest
  matched := by
    intro signal index child present
    by_cases old : index < state.children.length
    · rw [List.getElem?_append_left old] at present
      exact reported.matched signal index child present
    · have new : child = .start := by
        rw [List.getElem?_append_right (Nat.le_of_not_lt old),
          List.getElem?_singleton] at present
        split at present <;> cases present
        rfl
      rw [new]
      refine List.count_eq_zero.mpr fun member => ?_
      exact old (reported.known signal index member)
  known := by
    intro signal index member
    rw [List.length_append]
    exact Nat.lt_add_right 1 (reported.known signal index member)

/-- A child that has taken a step. -/
theorem Reported.child
    {state : Reporting}
    {index : Nat}
    {child next : Reporter}
    {action : ReporterAction}
    {mail : ReportSignal → Mailbox Nat}
    (reported : Reported state)
    (present : state.children[index]? = some child)
    (advanced : child.advance action = some next)
    (honest : ∀ signal, (mail signal).Honest)
    (sent : ∀ signal, (mail signal).sent = (state.mail signal).sent ++
      if (child.sends action).map Prod.fst = some signal then [index]
      else []) :
    Reported ⟨state.children.set index next, mail⟩ where
  sound := Pool.forall_mem_set reported.sound
    ((reported.sound child (List.mem_of_getElem? present)).advance advanced)
  honest := honest
  matched := by
    intro signal other party found
    rw [sent, List.count_append]
    rcases Pool.getElem?_set_cases found with ⟨here, same⟩ | ⟨away, old⟩
    · rw [here, same, reported.matched signal index child present,
        Reporter.count_advance advanced signal]
      split <;> simp
    · rw [reported.matched signal other party old]
      split
      · rw [List.count_singleton, if_neg (by simpa using away.symm)]
        rfl
      · rfl
  known := by
    intro signal other member
    rw [List.length_set]
    rw [sent, List.mem_append] at member
    rcases member with old | new
    · exact reported.known signal other old
    · split at new
      · rw [List.mem_singleton.mp new]
        exact (List.getElem?_eq_some_iff.mp present).1
      · cases new

/-- The handler of the parent sends nothing. -/
theorem Reported.handle
    {state : Reporting}
    {signal : ReportSignal}
    {mailbox : Mailbox Nat}
    (reported : Reported state)
    (delivers : (state.mail signal).deliver = some mailbox) :
    Reported { state with
      mail := Function.update state.mail signal mailbox } := by
  obtain ⟨-, -, -, sent⟩ := Mailbox.deliver_cases delivers
  have same : ∀ other, (Function.update state.mail signal mailbox other).sent =
      (state.mail other).sent :=
    (Function.forall_update_iff state.mail fun other mailbox =>
      mailbox.sent = (state.mail other).sent).mpr ⟨sent, fun _ _ => rfl⟩
  refine ⟨reported.sound, ?_, ?_, ?_⟩
  · exact (Function.forall_update_iff state.mail fun _ mailbox =>
      mailbox.Honest).mpr ⟨(reported.honest signal).deliver delivers,
        fun other _ => reported.honest other⟩
  · intro other index child present
    exact (congrArg (List.count index) (same other)).trans
      (reported.matched other index child present)
  · intro other index member
    exact reported.known other index ((same other) ▸ member)

/-- Every step keeps the reports. -/
theorem reported_step
    {state next : Reporting}
    {action : ReportingAction}
    (reported : Reported state)
    (stepped : reporting.step state action = some next) :
    Reported next := by
  change reportingStep state action = some next at stepped
  cases action with
  | create =>
      cases stepped
      exact reported.create
  | child index action =>
      simp only [reportingStep, Option.bind_eq_bind, Option.bind_eq_some_iff]
        at stepped
      obtain ⟨child, present, moved, advanced, stepped⟩ := stepped
      cases sends : child.sends action with
      | none =>
          simp only [sends] at stepped
          cases stepped
          refine reported.child present advanced reported.honest fun other => ?_
          rw [sends]
          exact (List.append_nil _).symm
      | some post =>
          obtain ⟨signal, kept⟩ := post
          simp only [sends, Option.bind_eq_some_iff] at stepped
          obtain ⟨mailbox, posts, stepped⟩ := stepped
          cases stepped
          refine reported.child present advanced ?_ ?_
          · exact (Function.forall_update_iff state.mail fun _ mailbox =>
              mailbox.Honest).mpr ⟨(reported.honest signal).send posts,
                fun other _ => reported.honest other⟩
          · rw [sends]
            refine (Function.forall_update_iff state.mail
              fun other mailbox => mailbox.sent = (state.mail other).sent ++
                if (some (signal, kept)).map Prod.fst = some other then [index]
                else []).mpr ⟨?_, fun other different => ?_⟩
            · rw [(Mailbox.send_cases posts).1]
              simp
            · rw [if_neg (by simpa using different.symm), List.append_nil]
  | handle signal =>
      simp only [reportingStep, Option.bind_eq_bind, Option.bind_eq_some_iff]
        at stepped
      obtain ⟨mailbox, delivers, stepped⟩ := stepped
      cases stepped
      exact reported.handle delivers

/-- In every state that is reached, each child has made the same sequence of
reports, in which the four classes take turns in being counted 26 times and
the others 25 times.  The announcements of the parent are, in this order, a
part of the signals that the children sent, so no child is announced more often
than it reported, and once no signal is pending the first one is announced. -/
theorem reachable_reported
    {state : Reporting}
    (reachable : reporting.Reachable state) :
    (∀ child ∈ state.children, child.Reports) ∧
    ∀ signal,
      (state.mail signal).delivered.Sublist (state.mail signal).sent ∧
      ((state.mail signal).waiting = [] →
        (state.mail signal).delivered.head? =
          (state.mail signal).sent.head?) ∧
      ∀ index child, state.children[index]? = some child →
        (state.mail signal).delivered.count index ≤
          child.log.count (.signal signal) := by
  have reported : Reported state := by
    refine Machine.ReachableUnder.invariant ?_ ?_ reachable
    · rintro _ rfl
      exact ⟨List.forall_mem_nil _, fun _ => Mailbox.honest_empty, nofun,
        nofun⟩
    · exact fun _ _ _ reported _ stepped => reported_step reported stepped
  refine ⟨fun child member => (reported.sound child member).reports,
    fun signal => ?_⟩
  have honest := reported.honest signal
  refine ⟨honest.delivered_sublist, honest.head_delivered, ?_⟩
  intro index child present
  rw [← reported.matched signal index child present]
  exact honest.count_le index

/-- Two children come to their reports, the second signal is lost, and the
second child is ended behind it. -/
def lostSignal : List ReportingAction :=
  [.create, .create] ++ List.replicate 101 (.child 0 .run) ++
    List.replicate 101 (.child 1 .run) ++
    [.child 0 (.queued true), .child 1 (.queued false), .handle .usr1,
      .child 0 .run, .child 1 (.terminated 15), .child 0 .run, .child 0 .run,
      .child 0 (.queued true)]

theorem lostSignal_reported :
    ∃ state, reporting.run ⟨[], fun _ => .empty⟩ lostSignal = some state ∧
      (state.mail .usr1).sent = [0, 1] ∧
      (state.mail .usr1).delivered = [0] ∧
      state.children.map Reporter.log =
        [report 0, [.signal .usr1, .received 15]] ∧
      ∀ child ∈ state.children, child.Reports := by
  have seen : (reporting.run ⟨[], fun _ => .empty⟩ lostSignal).map
      (fun state => ((state.mail .usr1).sent, (state.mail .usr1).delivered,
        state.children.map Reporter.log)) =
      some ([0, 1], [0], [report 0, [.signal .usr1, .received 15]]) := by
    decide +kernel
  obtain ⟨state, ran, observed⟩ := Option.map_eq_some_iff.mp seen
  simp only [Prod.mk.injEq] at observed
  obtain ⟨sent, delivered, logs⟩ := observed
  exact ⟨state, ran, sent, delivered, logs,
    (reachable_reported (.run (.initial rfl) ran)).1⟩

end ProcessManager
end OSaSP
