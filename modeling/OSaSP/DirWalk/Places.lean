import OSaSP.DirWalk.Traversal
import OSaSP.Foundations.Descent

/-!
# The places of a walk

A walk is a depth-first descent through places: objects that `lstat` has found,
and messages about those that it has not.  Which places there are depends on
the tree only.  What the program lists, what it complains about and what it
opens can be read off the visited places, until an allocation fails.
-/

namespace OSaSP
namespace DirWalk

open CString PosixTree Descent

/-! ## Places -/

/-- A place of the walk: an object that `lstat` has found, or a message. -/
inductive Stop
  | object (path : List UInt8) (location : Location) (sb : Node)
  | complaint (message : Message)

section Places

variable (tree : Tree) (opts : Options)

/-- What the loop makes of one entry. -/
def stopAt (basepath dName : List UInt8) : Stop :=
  let path := snprintf pathMax (basepath ++ slash :: dName)
  match tree.lstat path with
  | none => .complaint (.lstat path)
  | some (location, sb) => .object path location sb

/-- What the loop makes of all entries. -/
def stops (basepath : List UInt8) (listing : List (List UInt8)) : List Stop :=
  (listing.filter fun dName => ¬IsDots dName).map (stopAt tree basepath)

/-- The places that come up inside a call of `traverse_dir`. -/
def below : Stop → List Stop
  | .object path _ (.directory _) =>
      match tree.opendir path with
      | none => [.complaint (.opendir path)]
      | some (_, listing) => stops tree path listing
  | _ => []

/-- The path that a place adds to the list. -/
def Stop.listed : Stop → Option (List UInt8)
  | .object path _ sb => if isMatch path sb opts then some path else none
  | .complaint _ => none

/-- The message of a place. -/
def Stop.message : Stop → Option Message
  | .complaint message => some message
  | .object _ _ _ => none

/-- The directory that is opened at a place. -/
def Stop.opened : Stop → Option Location
  | .object path _ (.directory _) => (tree.opendir path).map Prod.fst
  | _ => none

end Places

/-! ## The program goes through the places -/

/-- Going through pending places; `descend` is the call of `traverse_dir`. -/
def runStops
    (memory : Nat → Bool)
    (opts : Options)
    (descend : List UInt8 → WalkState → Option Outcome) :
    List Stop → WalkState → Option Outcome
  | [], state => some (.returned state)
  | .complaint message :: pending, state =>
      runStops memory opts descend pending (state.report message)
  | .object path _ sb :: pending, state =>
      (examine memory opts descend path sb state).bind fun outcome =>
        outcome.andThen (runStops memory opts descend pending)

/-- The directory of a place is opened. -/
def WalkState.arrive
    (tree : Tree)
    (stop : Stop)
    (state : WalkState) : WalkState :=
  { state with entered := state.entered ++ (stop.opened tree).toList }

section Program

variable {tree : Tree} {memory : Nat → Bool} {opts : Options}
  {descend : List UInt8 → WalkState → Option Outcome}

/-- The loop goes through the places of its entries. -/
theorem readLoop_eq_runStops
    (basepath : List UInt8)
    (listing : List (List UInt8))
    (state : WalkState) :
    readLoop tree memory opts descend basepath listing state =
      runStops memory opts descend (stops tree basepath listing) state := by
  induction listing generalizing state with
  | nil => rfl
  | cons dName entries inductionHypothesis =>
      by_cases dots : IsDots dName
      · have skipped : stops tree basepath (dName :: entries) =
            stops tree basepath entries := by
          unfold stops
          rw [List.filter_cons_of_neg (by simpa using dots)]
        rw [skipped, ← inductionHypothesis, readLoop]
        exact if_pos dots
      · have kept : stops tree basepath (dName :: entries) =
            stopAt tree basepath dName :: stops tree basepath entries := by
          unfold stops
          rw [List.filter_cons_of_pos (by simpa using dots), List.map_cons]
        have loop : readLoop tree memory opts descend basepath entries =
            runStops memory opts descend (stops tree basepath entries) :=
          funext inductionHypothesis
        rw [kept, readLoop, if_neg (show ¬(_ ∨ _) from dots), loop]
        cases found : tree.lstat (snprintf pathMax (basepath ++ slash :: dName))
          with
        | none => simp only [stopAt, found, runStops]
        | some object => simp only [stopAt, found, runStops]

/-- A call of `traverse_dir` goes through the places below. -/
theorem traverseDir_succ
    (depth : Nat)
    (path : List UInt8)
    (location : Location)
    (listing : List (List UInt8))
    (state : WalkState) :
    traverseDir tree memory opts (depth + 1) path state =
      runStops memory opts (traverseDir tree memory opts depth)
        (below tree (.object path location (.directory listing)))
        (state.arrive tree (.object path location (.directory listing))) := by
  cases opened : tree.opendir path with
  | none =>
      simp only [traverseDir, below, WalkState.arrive, Stop.opened, opened,
        runStops, Option.map_none, Option.toList_none, List.append_nil]
  | some directory =>
      simp only [traverseDir, below, WalkState.arrive, Stop.opened, opened,
        Option.map_some, Option.toList_some]
      exact readLoop_eq_runStops _ _ _

/-! ## What the visited places leave -/

/-- The paths, messages and directories of the visited places are added. -/
structure Logged
    (tree : Tree)
    (opts : Options)
    (before : WalkState)
    (visited : List Stop)
    (after : WalkState) : Prop where
  listed : after.plist.contents =
    before.plist.contents ++ visited.filterMap (Stop.listed opts)
  messages : after.stderr =
    before.stderr ++ visited.filterMap Stop.message
  entered : after.entered =
    before.entered ++ visited.filterMap (Stop.opened tree)

theorem Logged.trans
    {before between after : WalkState}
    {first second : List Stop}
    (firstLogged : Logged tree opts before first between)
    (secondLogged : Logged tree opts between second after) :
    Logged tree opts before (first ++ second) after := by
  constructor
  · rw [secondLogged.listed, firstLogged.listed, List.filterMap_append,
      List.append_assoc]
  · rw [secondLogged.messages, firstLogged.messages, List.filterMap_append,
      List.append_assoc]
  · rw [secondLogged.entered, firstLogged.entered, List.filterMap_append,
      List.append_assoc]

/-- The program has gone through the places, or an allocation that it asked for
has failed on the way. -/
def Follows
    (tree : Tree)
    (memory : Nat → Bool)
    (opts : Options)
    (before : WalkState)
    (visited : List Stop) : Outcome → Prop
  | .returned after => Logged tree opts before visited after
  | .exited after =>
      (∃ request < after.allocations, memory request = false) ∧
        ∃ seen, seen <+: visited ∧
          after.entered = before.entered ++ seen.filterMap (Stop.opened tree)

theorem Logged.follows
    {before between : WalkState}
    {first second : List Stop}
    {outcome : Outcome}
    (logged : Logged tree opts before first between)
    (follows : Follows tree memory opts between second outcome) :
    Follows tree memory opts before (first ++ second) outcome := by
  cases outcome with
  | returned after => exact logged.trans follows
  | exited after =>
      obtain ⟨refused, seen, ⟨unseen, rfl⟩, entered⟩ := follows
      refine ⟨refused, first ++ seen, ⟨unseen, List.append_assoc _ _ _⟩, ?_⟩
      rw [entered, logged.entered, List.filterMap_append, List.append_assoc]

/-- One part of the program after another. -/
theorem Follows.andThen
    {before : WalkState}
    {first second : List Stop}
    {outcome : Outcome}
    {next : WalkState → Option Outcome}
    (follows : Follows tree memory opts before first outcome)
    (continues : ∀ state, ∃ after,
      next state = some after ∧ Follows tree memory opts state second after) :
    ∃ after, outcome.andThen next = some after ∧
      Follows tree memory opts before (first ++ second) after := by
  cases outcome with
  | returned state =>
      obtain ⟨after, ran, followsNext⟩ := continues state
      exact ⟨after, ran, Logged.follows follows followsNext⟩
  | exited state =>
      obtain ⟨refused, seen, before, entered⟩ := follows
      exact ⟨.exited state, rfl, refused, seen,
        before.trans (List.prefix_append _ _), entered⟩

theorem filterMap_single {α β : Type} (f : α → Option β) (item : α) :
    [item].filterMap f = (f item).toList := by
  cases found : f item <;> simp [found]

/-- Listing an object and opening it are what a visit leaves. -/
theorem logged_arrive
    {before between : WalkState}
    {path : List UInt8}
    {location : Location}
    {sb : Node}
    (contents : between.plist.contents = before.plist.contents ++
      ((Stop.object path location sb).listed opts).toList)
    (stderr : between.stderr = before.stderr)
    (entered : between.entered = before.entered) :
    Logged tree opts before [.object path location sb]
      (between.arrive tree (.object path location sb)) := by
  constructor
  · rw [filterMap_single]
    exact contents
  · rw [filterMap_single]
    exact stderr.trans (List.append_nil _).symm
  · rw [filterMap_single, ← entered]
    rfl

/-- Examining an object and then going down leaves what the object and the
places below it leave. -/
theorem examine_follows
    {path : List UInt8}
    {location : Location}
    {sb : Node}
    {inside : List Stop}
    (descends : ∀ state, ∃ after,
      (if sb.isDir then descend path state else some (.returned state)) =
          some after ∧
        Follows tree memory opts (state.arrive tree (.object path location sb))
          inside after)
    (state : WalkState) :
    ∃ after, examine memory opts descend path sb state = some after ∧
      Follows tree memory opts state (.object path location sb :: inside)
        after := by
  unfold examine
  by_cases isMatched : isMatch path sb opts = true
  · have listed : (Stop.object path location sb).listed opts = some path :=
      if_pos isMatched
    rw [if_pos isMatched]
    have adds := addPath_adds memory path state
    cases added : addPath memory path state with
    | exited after =>
        rw [added] at adds
        obtain ⟨refused, entered⟩ := adds
        exact ⟨_, rfl, refused, [], List.nil_prefix,
          entered.trans (List.append_nil _).symm⟩
    | returned between =>
        rw [added] at adds
        obtain ⟨contents, stderr, entered⟩ := adds
        obtain ⟨after, ran, follows⟩ := descends between
        have logged : Logged tree opts state [.object path location sb]
            (between.arrive tree (.object path location sb)) :=
          logged_arrive (by rw [listed]; exact contents) stderr entered
        exact ⟨after, ran, logged.follows follows⟩
  · have listed : (Stop.object path location sb).listed opts = none :=
      if_neg isMatched
    rw [if_neg isMatched]
    obtain ⟨after, ran, follows⟩ := descends state
    have logged : Logged tree opts state [.object path location sb]
        (state.arrive tree (.object path location sb)) :=
      logged_arrive (by rw [listed]; exact (List.append_nil _).symm) rfl rfl
    exact ⟨after, ran, logged.follows follows⟩

/-- The program goes through all places of a descent, however many levels there
are. -/
theorem runStops_of_visits
    {pending visited : List Stop}
    (visits : Visits (below tree) pending visited) :
    ∃ least, ∀ depth, least ≤ depth → ∀ state, ∃ after,
      runStops memory opts (traverseDir tree memory opts depth) pending state =
          some after ∧
        Follows tree memory opts state visited after := by
  induction visits with
  | nothing =>
      refine ⟨0, fun depth _ state => ⟨.returned state, rfl, ?_⟩⟩
      constructor <;> exact (List.append_nil _).symm
  | @node stop pending visitedBelow visitedAfter inside _ insideHypothesis
      restHypothesis =>
      obtain ⟨leastBelow, goesBelow⟩ := insideHypothesis
      obtain ⟨leastRest, goesOn⟩ := restHypothesis
      refine ⟨max (leastBelow + 1) leastRest, fun depth enough state => ?_⟩
      obtain ⟨depth, rfl⟩ := Nat.exists_eq_succ_of_ne_zero
        (show depth ≠ 0 by omega)
      cases stop with
      | complaint message =>
          obtain ⟨after, ran, follows⟩ :=
            goesOn (depth + 1) (by omega) (state.report message)
          have logged : Logged tree opts state [.complaint message]
              (state.report message) :=
            ⟨(List.append_nil _).symm, rfl, (List.append_nil _).symm⟩
          cases inside
          exact ⟨after, ran, logged.follows follows⟩
      | object path location sb =>
          have descends : ∀ state, ∃ after,
              (if sb.isDir then
                traverseDir tree memory opts (depth + 1) path state
              else some (.returned state)) = some after ∧
                Follows tree memory opts
                  (state.arrive tree (.object path location sb))
                  visitedBelow after := by
            intro state
            cases sb with
            | directory listing =>
                simp only [Node.isDir, if_pos]
                rw [traverseDir_succ depth path location listing]
                exact goesBelow depth (by omega) _
            | link target | regular | other =>
                cases inside
                refine ⟨.returned state, rfl, ?_⟩
                constructor <;> simp [WalkState.arrive, Stop.opened]
          obtain ⟨between, ran, follows⟩ := examine_follows descends state
          obtain ⟨after, ranAfter, followsAfter⟩ := follows.andThen
            (goesOn (depth + 1) (by omega))
          refine ⟨after, ?_, followsAfter⟩
          rw [runStops, ran]
          exact ranAfter

/-- Main goes through one place. -/
theorem collect_eq_runStops
    {startDir : List UInt8}
    {location : Location}
    {sb : Node}
    {depth : Nat}
    (found : tree.lstat startDir = some (location, sb)) :
    collect tree memory opts depth startDir =
      runStops memory opts (traverseDir tree memory opts depth)
        [.object startDir location sb] .start := by
  rw [collect, found, runStops]
  dsimp only
  cases examine memory opts (traverseDir tree memory opts depth) startDir sb
    .start with
  | none => rfl
  | some outcome => cases outcome <;> rfl

/-- Main goes through the places of the descent from the start. -/
theorem collect_of_visits
    {startDir : List UInt8}
    {location : Location}
    {sb : Node}
    {visited : List Stop}
    (found : tree.lstat startDir = some (location, sb))
    (visits : Visits (below tree) [.object startDir location sb] visited) :
    ∃ least, ∀ depth, least ≤ depth → ∃ after,
      collect tree memory opts depth startDir = some after ∧
        Follows tree memory opts .start visited after := by
  obtain ⟨least, goes⟩ := runStops_of_visits visits
  refine ⟨least, fun depth enough => ?_⟩
  obtain ⟨after, ran, follows⟩ := goes depth enough .start
  exact ⟨after, (collect_eq_runStops found).trans ran, follows⟩

/-! ## A run that ends -/

/-- With all allocations granted `add_path` returns. -/
theorem addPath_returns
    (granted : ∀ request, memory request = true)
    (path : List UInt8)
    (state : WalkState) :
    ∃ after, addPath memory path state = .returned after := by
  have adds := addPath_adds memory path state
  cases added : addPath memory path state with
  | returned after => exact ⟨after, rfl⟩
  | exited after =>
      rw [added] at adds
      obtain ⟨⟨request, -, refused⟩, -⟩ := adds
      rw [granted request] at refused
      cases refused

/-- With all allocations granted, examining an object is going down from it. -/
theorem exists_descend_of_examine
    (granted : ∀ request, memory request = true)
    {path : List UInt8}
    {sb : Node}
    {state : WalkState}
    {outcome : Outcome}
    (examined : examine memory opts descend path sb state = some outcome) :
    ∃ between,
      (if sb.isDir then descend path between
        else some (.returned between)) = some outcome := by
  unfold examine at examined
  dsimp only at examined
  split at examined
  · obtain ⟨between, added⟩ := addPath_returns granted path state
    rw [added] at examined
    exact ⟨between, examined⟩
  · exact ⟨state, examined⟩

/-- A part of the program returns only at the end of the descent from the
pending places. -/
def Completes
    (tree : Tree)
    (run : WalkState → Option Outcome)
    (pending : List Stop) : Prop :=
  ∀ state outcome, run state = some outcome →
    (∃ after, outcome = .returned after) ∧
      ∃ visited, Visits (below tree) pending visited

theorem completes_runStops
    (granted : ∀ request, memory request = true)
    (descends : ∀ path location listing,
      Completes tree (descend path)
        (below tree (.object path location (.directory listing))))
    (pending : List Stop) :
    Completes tree (runStops memory opts descend pending) pending := by
  induction pending with
  | nil =>
      intro state outcome ran
      cases ran
      exact ⟨⟨_, rfl⟩, [], .nothing⟩
  | cons stop pending inductionHypothesis =>
      intro state outcome ran
      cases stop with
      | complaint message =>
          obtain ⟨returned, visited, visits⟩ := inductionHypothesis _ _ ran
          exact ⟨returned, _, .node .nothing visits⟩
      | object path location sb =>
          rw [runStops, Option.bind_eq_some_iff] at ran
          obtain ⟨between, examined, continued⟩ := ran
          obtain ⟨state, descended⟩ :=
            exists_descend_of_examine granted examined
          have inside : (∃ after, between = .returned after) ∧
              ∃ visited, Visits (below tree)
                (below tree (.object path location sb)) visited := by
            cases sb with
            | directory listing =>
                exact descends path location listing state between descended
            | link target | regular | other =>
                cases descended
                exact ⟨⟨_, rfl⟩, [], .nothing⟩
          obtain ⟨⟨after, rfl⟩, visitedBelow, insideVisits⟩ := inside
          obtain ⟨returned, visited, visits⟩ :=
            inductionHypothesis _ _ continued
          exact ⟨returned, _, .node insideVisits visits⟩

theorem completes_traverseDir
    (granted : ∀ request, memory request = true)
    (depth : Nat)
    (path : List UInt8)
    (location : Location)
    (listing : List (List UInt8)) :
    Completes tree (traverseDir tree memory opts depth path)
      (below tree (.object path location (.directory listing))) := by
  induction depth generalizing path location listing with
  | zero =>
      intro state outcome ran
      cases ran
  | succ depth inductionHypothesis =>
      intro state outcome ran
      rw [traverseDir_succ depth path location listing] at ran
      exact completes_runStops granted inductionHypothesis _ _ _ ran

/-- If main comes to the end with all allocations granted, the descent from the
start ends. -/
theorem visits_of_collect
    {startDir : List UInt8}
    {location : Location}
    {sb : Node}
    {depth : Nat}
    {outcome : Outcome}
    (granted : ∀ request, memory request = true)
    (found : tree.lstat startDir = some (location, sb))
    (ran : collect tree memory opts depth startDir = some outcome) :
    ∃ visited, Visits (below tree) [.object startDir location sb] visited := by
  rw [collect_eq_runStops found] at ran
  exact (completes_runStops granted (completes_traverseDir granted depth) _ _ _
    ran).2

end Program

end DirWalk
end OSaSP
