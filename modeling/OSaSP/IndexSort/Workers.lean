import OSaSP.Foundations.Machine
import OSaSP.IndexSort.Merge

/-!
# The worker threads of `sort_index`

Every worker executes `worker` over the same mapped records.  The two claim
maps are only touched under the mutex, so a claim is one action; a call of
`qsort`, the merge of a pair into a temporary array and the copy back are
separate actions, between which the other workers run.  A barrier holds its
arrivals until `threads` of them are there and then lets all of them go.

`qsort` is the library's: it permutes its range into an order that the
comparison function accepts.  A failed allocation ends the whole process.
-/

namespace OSaSP
namespace IndexSort

open Segment

/-- What a call of `qsort` with `compare` does to the records of its range. -/
structure Qsort
    {Record Key : Type}
    [LinearOrder Key]
    (timeMark : Record → Key) where
  sort : List Record → List Record
  perm : ∀ records, (sort records).Perm records
  ordered : ∀ records, (sort records).Pairwise fun earlier later =>
    compare timeMark earlier later ≤ 0

/-- The part of `thread_arg_t` that is the same for all workers, less the
shared arrays. -/
structure Config where
  threads : Nat
  blocks : Nat
  records : Nat

namespace Config

variable (config : Config)

/-- `recs_per_block`. -/
def recsPerBlock : Nat := config.records / config.blocks

/-- `offset` of a block. -/
def offset (block : Nat) : Nat := block * config.recsPerBlock

/-- `count` of a block. -/
def count (block : Nat) : Nat :=
  if config.offset block + config.recsPerBlock > config.records then
    config.records - config.offset block
  else config.recsPerBlock

/-- A block boundary cut to the number of records. -/
def clamp (block : Nat) : Nat :=
  if block * config.recsPerBlock > config.records then config.records
  else block * config.recsPerBlock

/-- `left` of a merge. -/
def left (block : Nat) : Nat := block * config.recsPerBlock

/-- `n1` of a merge. -/
def n1 (step block : Nat) : Nat :=
  config.clamp (block + step) - config.left block

/-- `n2` of a merge. -/
def n2 (step block : Nat) : Nat :=
  config.clamp (block + step * 2) - config.clamp (block + step)

end Config

/-- Places of `worker`.  The five barriers are `starting`, `blocksDone`,
`beforeClear`, `cleared` and `pairsDone`. -/
inductive WorkerPc (Record : Type)
  | starting
  | claimInitial
  | sortInitial (block : Nat)
  | claimBlock
  | sortBlock (block : Nat)
  | blocksDone
  | levelTest (step : Nat)
  | beforeClear (step : Nat)
  | clear (step : Nat)
  | cleared (step : Nat)
  | claimPair (step : Nat)
  | merging (step block : Nat)
  | copying (step block : Nat) (tmp : Nat → Record)
  | pairsDone (step : Nat)
  | returned

/-- Where a barrier lets a worker go on. -/
def WorkerPc.afterBarrier {Record : Type} :
    WorkerPc Record → Option (WorkerPc Record)
  | .starting => some .claimInitial
  | .blocksDone => some (.levelTest 1)
  | .beforeClear step => some (.clear step)
  | .cleared step => some (.claimPair step)
  | .pairsDone step => some (.levelTest (step * 2))
  | _ => none

/-- A worker; `arrived` says that it waits inside the barrier at its place. -/
structure Worker (Record : Type) where
  pc : WorkerPc Record
  arrived : Bool

/-- A range of records that one worker claims. -/
inductive Job
  | sort (block : Nat)
  | merge (step block : Nat)
  deriving DecidableEq

/-- The memory that the workers share, the barrier's count, and the jobs
claimed and finished so far. -/
structure PoolState (Record : Type) where
  base : Nat → Record
  blockMap : Nat → Bool
  mergeMap : Nat → Bool
  arrived : Nat
  workers : List (Worker Record)
  exited : Bool
  claims : List Job
  finished : List Job

/-- `for (i = start; i + ahead < blocks; i += stride)` up to the first entry
that is not set. -/
def claimLoop
    (map : Nat → Bool)
    (blocks ahead stride : Nat) : Nat → Nat → Option Nat
  | 0, _ => none
  | fuel + 1, i =>
      if i + ahead < blocks then
        if map i then claimLoop map blocks ahead stride fuel (i + stride)
        else some i
      else none

namespace PoolState

variable {Record : Type}

/-- A worker goes to another place. -/
def goto
    (state : PoolState Record)
    (id : Nat)
    (pc : WorkerPc Record) : PoolState Record :=
  { state with workers := state.workers.set id ⟨pc, false⟩ }

/-- The last arrival lets every waiting worker go. -/
def release (worker : Worker Record) : Worker Record :=
  if worker.arrived then
    match worker.pc.afterBarrier with
    | some pc => ⟨pc, false⟩
    | none => worker
  else worker

/-- `pthread_barrier_wait` of one worker. -/
def barrierWait
    (threads id : Nat)
    (pc : WorkerPc Record)
    (state : PoolState Record) : PoolState Record :=
  let workers := state.workers.set id ⟨pc, true⟩
  if state.arrived + 1 = threads then
    { state with arrived := 0, workers := workers.map release }
  else { state with arrived := state.arrived + 1, workers }

/-- A worker claims a block to sort. -/
def claimBlock
    (state : PoolState Record)
    (block : Nat) : PoolState Record :=
  { state with
    blockMap := Function.update state.blockMap block true
    claims := state.claims ++ [.sort block] }

/-- A worker claims a pair to merge. -/
def claimPair
    (state : PoolState Record)
    (step block : Nat) : PoolState Record :=
  { state with
    mergeMap := Function.update state.mergeMap block true
    claims := state.claims ++ [.merge step block] }

/-- A job is done. -/
def finish (state : PoolState Record) (job : Job) : PoolState Record :=
  { state with finished := state.finished ++ [job] }

end PoolState

section Worker

variable {Record Key : Type} [LinearOrder Key] {timeMark : Record → Key}
  (qsort : Qsort timeMark) (config : Config)

/-- `qsort` on the records of a block. -/
def sortRange
    (state : PoolState Record)
    (block : Nat) : PoolState Record :=
  { state with
    base := overwrite state.base (config.offset block)
      (qsort.sort
        (slice state.base (config.offset block) (config.count block))) }

/-- The merge of a pair into the temporary array. -/
def mergePair
    (timeMark : Record → Key)
    (state : PoolState Record)
    (step block : Nat)
    (tmp : Nat → Record) : Nat → Record :=
  merge timeMark tmp
    (fun index => state.base (config.left block + index))
    (config.n1 step block)
    (fun index => state.base (config.clamp (block + step) + index))
    (config.n2 step block)

/-- The copy of the temporary array over the pair. -/
def copyPair
    (state : PoolState Record)
    (step block : Nat)
    (tmp : Nat → Record) : PoolState Record :=
  { state with
    base := overwrite state.base (config.left block)
      (slice tmp 0 (config.n1 step block + config.n2 step block)) }

/-- The body of `worker`, one action at a time; `allocation` is what `malloc`
returns. -/
def advanceWorker
    (id : Nat)
    (worker : Worker Record)
    (allocation : Option (Nat → Record))
    (state : PoolState Record) : Option (PoolState Record) :=
  if worker.arrived then none
  else
    match worker.pc with
    | .starting | .blocksDone | .beforeClear _ | .cleared _ | .pairsDone _ =>
        some (state.barrierWait config.threads id worker.pc)
    | .claimInitial =>
        if id < config.blocks ∧ state.blockMap id = false then
          some ((state.claimBlock id).goto id (.sortInitial id))
        else some (state.goto id .claimBlock)
    | .sortInitial block | .sortBlock block =>
        some (((sortRange qsort config state block).finish
          (.sort block)).goto id .claimBlock)
    | .claimBlock =>
        match claimLoop state.blockMap config.blocks 0 1 config.blocks 0 with
        | some block =>
            some ((state.claimBlock block).goto id (.sortBlock block))
        | none => some (state.goto id .blocksDone)
    | .levelTest step =>
        if step < config.blocks then some (state.goto id (.beforeClear step))
        else some (state.goto id .returned)
    | .clear step =>
        some ((if id = 0 then { state with mergeMap := fun _ => false }
          else state).goto id (.cleared step))
    | .claimPair step =>
        match claimLoop state.mergeMap config.blocks step (step * 2)
          config.blocks 0 with
        | some block =>
            some ((state.claimPair step block).goto id (.merging step block))
        | none => some (state.goto id (.pairsDone step))
    | .merging step block =>
        if 0 < config.n1 step block ∧ 0 < config.n2 step block then
          match allocation with
          | none => some { state with exited := true }
          | some tmp =>
              some (state.goto id (.copying step block
                (mergePair config timeMark state step block tmp)))
        else
          some ((state.finish (.merge step block)).goto id (.claimPair step))
    | .copying step block tmp =>
        some (((copyPair config state step block tmp).finish
          (.merge step block)).goto id (.claimPair step))
    | .returned => none

/-- One step of one worker. -/
structure PoolAction (Record : Type) where
  id : Nat
  allocation : Option (Nat → Record)

/-- One step of the pool; nothing happens after the process has exited. -/
def poolStep
    (state : PoolState Record)
    (action : PoolAction Record) : Option (PoolState Record) :=
  if state.exited then none
  else
    (state.workers[action.id]?).bind fun worker =>
      advanceWorker qsort config action.id worker action.allocation state

/-- The pool right after main created the workers over the records `base`. -/
def poolStart (base : Nat → Record) : PoolState Record where
  base := base
  blockMap := fun _ => false
  mergeMap := fun _ => false
  arrived := 0
  workers := List.replicate config.threads ⟨.starting, false⟩
  exited := false
  claims := []
  finished := []

/-- The worker threads of one window. -/
def pool (base : Nat → Record) :
    Machine (PoolState Record) (PoolAction Record) where
  initial state := state = poolStart config base
  step := poolStep qsort config

/-- Every worker has returned from `worker`. -/
def AllReturned (state : PoolState Record) : Prop :=
  ∀ worker ∈ state.workers, worker.pc matches .returned

end Worker

end IndexSort
end OSaSP
