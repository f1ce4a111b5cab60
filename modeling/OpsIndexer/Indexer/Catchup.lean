import OpsIndexer.Db.MissingRanges
import OpsIndexer.Lib.Runs

/-!
# Catch-up

`catchup.go` and the writers of `missing_block_ranges` beside it: the producer that reads ranges and queues their
blocks, the workers that store them or record them as missing again, the collector's scans and realtime's jump. An
event is one operation of one party, so a list of events is an interleaving; an event that its party cannot take
changes nothing. Nothing is pruned, and the process does not stop.
-/

namespace OpsIndexer.Indexing

open Db Lib.Keyset Lib.Runs

structure CatchupConfig where
  workers : Nat
  batchSize : Nat
  queueSize : Nat

def catchupAttempts : Nat := 5

/-- The operation a worker does next with its block: `HasBlock`, the write, `RequeueMissingBlock` after a failed write
or out of attempts, `MarkBlockProcessed`. -/
inductive Phase where
  | check
  | write
  | requeue
  | mark
  deriving DecidableEq, Repr

structure Hand where
  block : Nat
  attempt : Nat
  phase : Phase
  deriving DecidableEq, Repr

structure Catchup where
  /-- The numbers of the stored blocks. -/
  blocks : List Nat
  ranges : MissingRanges
  /-- What the producer has read and not queued yet. -/
  batch : List Nat
  workQueue : List Nat
  /-- The blocks of the busy workers. -/
  hands : List Hand
  /-- Ranges that a scan or a jump has found and not saved yet. -/
  found : List (List (Nat × Nat))

def Catchup.Idle (state : Catchup) : Prop :=
  state.batch = [] ∧ state.workQueue = [] ∧ state.hands = [] ∧ state.found = []

inductive CatchupEvent where
  /-- `GetMissingRangesBatch`, answered in the sorter's order. -/
  | poll (sorter : Sorter BlockRange.fromNumber)
  /-- The producer's send into the work queue's buffer. -/
  | queue
  /-- A send to a waiting worker. -/
  | handOver
  | take
  /-- The next operation of a busy worker. -/
  | work (worker : Nat) (outcome : Outcome)
  /-- `FindMissingBlocksInRange` of a scan. -/
  | scan (fromBlock toBlock : Nat)
  | jump (fromBlock toBlock : Nat)
  /-- `SaveMissingRanges` of what was found. -/
  | save (index : Nat) (outcome : Outcome)
  /-- Realtime stores a block. -/
  | store (number : Nat)
  /-- Realtime skips a block without receipts: `RequeueMissingBlock`. -/
  | skip (number : Nat)

/-! ## The worker -/

/-- `attempt++` in `indexBlock`: past the last attempt the block is only recorded. -/
def Hand.retry (hand : Hand) : Hand :=
  { hand with
    attempt := hand.attempt + 1
    phase := if catchupAttempts < hand.attempt + 1 then .requeue else .check }

def tryBlock (state : Catchup) (hand : Hand) (outcome : Outcome) : Catchup × Option Hand :=
  match hand.phase, outcome with
  | .check, .ok => (state, some { hand with phase := if hand.block ∈ state.blocks then .mark else .write })
  | .check, _ => (state, some hand.retry)
  | .write, .ok => ({ state with blocks := state.blocks.insert hand.block }, some { hand with phase := .mark })
  | .write, .fail => (state, some { hand with phase := .requeue })
  | .write, .lost => ({ state with blocks := state.blocks.insert hand.block }, some { hand with phase := .requeue })
  | .requeue, .ok => ({ state with ranges := requeueMissingBlock state.ranges hand.block }, none)
  | .requeue, .fail => (state, some hand.retry)
  | .requeue, .lost => ({ state with ranges := requeueMissingBlock state.ranges hand.block }, some hand.retry)
  -- an error of `MarkBlockProcessed` is not looked at
  | .mark, .fail => (state, none)
  | .mark, _ => ({ state with ranges := deleteMissingRangeByBlock state.ranges hand.block }, none)

def replaceHand (hands : List Hand) (worker : Nat) : Option Hand → List Hand
  | some hand => hands.set worker hand
  | none => hands.eraseIdx worker

/-! ## Steps -/

def catchupStep (config : CatchupConfig) (state : Catchup) : CatchupEvent → Catchup
  | .poll sorter =>
    let batchSize := if config.batchSize = 0 then 100 else config.batchSize
    if state.batch = [] then
      { state with batch := (getMissingRangesBatch sorter 0 batchSize state.ranges).flatMap BlockRange.numbers }
    else state
  | .queue =>
    match state.batch with
    | blockNum :: rest =>
      if state.workQueue.length < config.queueSize then
        { state with batch := rest, workQueue := state.workQueue ++ [blockNum] }
      else state
    | [] => state
  | .handOver =>
    match state.batch with
    | blockNum :: rest =>
      if state.workQueue = [] ∧ state.hands.length < config.workers then
        { state with batch := rest, hands := state.hands ++ [⟨blockNum, 1, .check⟩] }
      else state
    | [] => state
  | .take =>
    match state.workQueue with
    | blockNum :: rest =>
      if state.hands.length < config.workers then
        { state with workQueue := rest, hands := state.hands ++ [⟨blockNum, 1, .check⟩] }
      else state
    | [] => state
  | .work worker outcome =>
    match state.hands[worker]? with
    | some hand =>
      let (next, kept) := tryBlock state hand outcome
      { next with hands := replaceHand state.hands worker kept }
    | none => state
  | .scan fromBlock toBlock =>
    { state with found := state.found ++ [findMissingBlocksInRange state.blocks 0 fromBlock toBlock] }
  | .jump fromBlock toBlock => { state with found := state.found ++ [[(fromBlock, toBlock)]] }
  | .save index outcome =>
    match state.found[index]? with
    | some ranges =>
      { state with
        found := state.found.eraseIdx index
        ranges := if outcome.applied then saveMissingRanges state.ranges ranges else state.ranges }
    | none => state
  | .store number => { state with blocks := state.blocks.insert number }
  | .skip number => { state with ranges := requeueMissingBlock state.ranges number }

def Catchup.InFlight (state : Catchup) (number : Nat) : Prop :=
  number ∈ state.batch ∨ number ∈ state.workQueue ∨ ∃ hand ∈ state.hands, hand.block = number

instance (state : Catchup) (number : Nat) : Decidable (state.InFlight number) :=
  inferInstanceAs (Decidable (_ ∨ _ ∨ ∃ hand ∈ state.hands, hand.block = number))

def Catchup.Kept (state : Catchup) (number : Nat) : Prop :=
  number ∈ state.blocks ∨ state.ranges.Covers number ∨ state.InFlight number

instance (state : Catchup) (number : Nat) : Decidable (state.Kept number) :=
  inferInstanceAs (Decidable (_ ∨ _ ∨ _))

end OpsIndexer.Indexing
