import OpsIndexer.Indexer.StandardMode

/-!
# Realtime

`realtime.go`: the jump to the head, the reorg check and its revert, the check after a revert that failed, and the head
loops as realtime runs them. Catch-up commits its own writes beside all of it; what it commits before a step of realtime
is given with the step. Block numbers are `uint64`, so sums and differences are taken modulo `2 ^ 64`. Requests for
single blocks are left out.
-/

namespace OpsIndexer.Indexing

open Eth Db Lib.Runs

/-! ## The store and its history -/

/-- What is done to the store: realtime stores a block, catch-up stores one, a range is recorded as missing. A block
that a receipt skip records counts once the skip succeeds. -/
inductive StoreOp where
  | stored (number : Nat)
  | filled (number : Nat)
  | saved (fromNumber toNumber : Nat)
  deriving DecidableEq, Repr

/-- Covered by a row saved after the last time the number was stored, in a history with the newest first. -/
def Recorded (number : Nat) : List StoreOp → Prop
  | [] => False
  | .stored other :: rest => other ≠ number ∧ Recorded number rest
  | .filled other :: rest => other ≠ number ∧ Recorded number rest
  | .saved fromNumber toNumber :: rest => (fromNumber ≤ number ∧ number ≤ toNumber) ∨ Recorded number rest

instance decidableRecorded (number : Nat) : (history : List StoreOp) → Decidable (Recorded number history)
  | [] => isFalse id
  | .stored other :: rest =>
    have := decidableRecorded number rest
    inferInstanceAs (Decidable (other ≠ number ∧ Recorded number rest))
  | .filled other :: rest =>
    have := decidableRecorded number rest
    inferInstanceAs (Decidable (other ≠ number ∧ Recorded number rest))
  | .saved fromNumber toNumber :: rest =>
    have := decidableRecorded number rest
    inferInstanceAs (Decidable ((fromNumber ≤ number ∧ number ≤ toNumber) ∨ Recorded number rest))

structure Watched where
  store : HeadStore
  history : List StoreOp

inductive CatchupWrite where
  | block (block : HeadBlock)
  | ranges (ranges : MissingRanges)

namespace Watched

def catchup (watched : Watched) : CatchupWrite → Watched
  | .block block => ⟨watched.store.addBlock block, .filled block.number :: watched.history⟩
  | .ranges ranges => { watched with store := { watched.store with ranges := ranges } }

def beside (watched : Watched) (writes : List CatchupWrite) : Watched :=
  writes.foldl catchup watched

/-- `SaveMissingRanges` of one range. The columns are `BIGINT`, and a row's ends are in order. -/
def saveMissingRange (watched : Watched) (ends : Nat × Nat) (outcome : Outcome) : Watched × Bool :=
  if ends.1 ≤ ends.2 ∧ ends.2 < 2 ^ 63 ∧ outcome.applied then
    ({ store := { watched.store with ranges := saveMissingRanges watched.store.ranges [ends] }
       history := .saved ends.1 ends.2 :: watched.history }, outcome == .ok)
  else (watched, false)

end Watched

/-! ## The reorg check -/

structure WatchedReorg extends ReorgAnswers where
  /-- What catch-up commits before the block is read. -/
  catchup : Nat → List CatchupWrite

structure WatchedRevert extends RevertAnswers where
  /-- What catch-up commits before the block is deleted. -/
  catchup : Nat → List CatchupWrite

def maxReorgDepth : Nat := 128

namespace Watched

def compareBlock (blockNumber : Nat) (answers : WatchedReorg) (state : Watched × Nat × Bool) (depth : Nat) :
    (Watched × Nat × Bool) × Bool :=
  let watched := state.1.beside (answers.catchup (blockNumber - depth))
  let compared := Indexing.compareBlock watched.store blockNumber answers.toReorgAnswers state.2 depth
  ((watched, compared.1), compared.2)

def detectReorg (watched : Watched) (blockNumber : Nat) (answers : WatchedReorg) : Watched × Nat × Bool :=
  foldUntil (compareBlock blockNumber answers) (watched, 0, true) (List.range (min maxReorgCheck blockNumber))

def revertBlock (answers : WatchedRevert) (state : Watched × Bool) (blockNum : Nat) : (Watched × Bool) × Bool :=
  let watched := state.1.beside (answers.catchup blockNum)
  let reverted := Indexing.revertBlock answers.deletes (watched.store, state.2) blockNum
  (({ watched with store := reverted.1.1 }, reverted.1.2), reverted.2)

/-- Realtime's `handleReorg`, with whether it succeeded. More than `maxReorgDepth` blocks are a chain reset. -/
def handleReorg (watched : Watched) (fromBlock : Nat) (answers : WatchedRevert) : Watched × Bool :=
  let lastIndexed := watched.store.getLatestBlockNumber
  if !answers.latest then (watched, false)
  else if fromBlock < lastIndexed ∧ maxReorgDepth < lastIndexed - fromBlock then (watched, false)
  else
    foldUntil (revertBlock answers) (watched, true)
      (List.range' fromBlock (lastIndexed + 1 - fromBlock)).reverse

end Watched

/-! ## The indexer -/

structure RealtimeConfig where
  confirmationBlocks : UInt64
  realtimeMaxBehind : UInt64
  commitPipelineDepth : Nat
  deriving DecidableEq, Repr

structure Realtime extends Watched where
  lastProcessedBlock : Nat
  behind : Nat := 0
  lastSafe : Nat := 0
  receipts : ReceiptSkip := {}
  /-- The fork point of a revert that returned an error, 0 when there is none. -/
  failedRevertFrom : Nat := 0
  revertPending : Bool := false

structure JumpAnswers where
  reorg : WatchedReorg
  /-- What catch-up commits before the range is saved. -/
  catchup : List CatchupWrite
  save : Outcome

/-- `anchor` as realtime's batches use it: their start block is 0, and `cursorMayBeUnstored` is set. -/
def realtimeAnchor (store : HeadStore) (lastIndexed : Nat) (receipts : ReceiptSkip) (readable : Bool) : Anchor :=
  if lastIndexed = 0 then ⟨0, 0, false, true⟩
  else if !readable then ⟨lastIndexed, 0, false, false⟩
  else
    match store.getBlock lastIndexed with
    | some block => ⟨lastIndexed, block.hash, false, true⟩
    | none =>
      if receipts.skipped = lastIndexed ∧ receipts.skippedHash ≠ 0 then ⟨lastIndexed, receipts.skippedHash, true, true⟩
      else ⟨lastIndexed, 0, false, true⟩

structure BatchAnswers where
  /-- Whether the block at the cursor can be read. -/
  cursor : Bool
  node : Nat → NodeAnswer
  loop : LoopAnswers
  /-- What catch-up commits before the turn at the block, and before the last drain. -/
  catchup : Nat → List CatchupWrite
  last : List CatchupWrite

structure UpToAnswers where
  /-- What catch-up commits before the call. -/
  catchup : List CatchupWrite
  /-- Whether `HighestBlockAtOrBelow` answers. -/
  below : Bool
  reorg : WatchedReorg
  revert : WatchedRevert
  batch : BatchAnswers

structure Batch where
  pipeline : Pipeline
  history : List StoreOp

namespace Batch

def watched (batch : Batch) : Watched :=
  ⟨batch.pipeline.store, batch.history⟩

def beside (batch : Batch) (writes : List CatchupWrite) : Batch :=
  let watched := batch.watched.beside writes
  { pipeline := { batch.pipeline with store := watched.store }, history := watched.history }

def landingOp : Nat × Landing → Option StoreOp
  | (number, .committed) => some (.stored number)
  | (_, .kept) => none
  | (number, .skipped) => some (.saved number number)

def enter (pipeline : Pipeline) (history : List StoreOp) : Batch where
  pipeline := { pipeline with log := [] }
  history := (pipeline.log.filterMap landingOp).reverse ++ history

def turn (commitPipelineDepth : Nat) (answers : BatchAnswers) (state : Batch) (block : FetchedBlock) : Batch × Bool :=
  let batch := state.beside (answers.catchup block.number)
  if 1 < commitPipelineDepth then
    let turned := indexPipelinedBlock commitPipelineDepth answers.loop batch.pipeline block
    (enter turned.1 batch.history, turned.2)
  else
    let turned := indexPrefetchedBlock answers.loop batch.pipeline.toLoop block
    (enter { batch.pipeline with toLoop := turned.1 } batch.history, turned.2)

def close (answers : BatchAnswers) (state : Batch) : Batch :=
  let batch := state.beside answers.last
  enter ((batch.pipeline.drain answers.loop).1.revertStale answers.loop) batch.history

end Batch

namespace Realtime

def jumpIfFarBehind (config : RealtimeConfig) (state : Realtime) (safeBlock : Nat) (answers : JumpAnswers) : Realtime :=
  let lastProcessed := state.lastProcessedBlock
  let state := { state with
    lastSafe := safeBlock
    behind := if lastProcessed < safeBlock then safeBlock - lastProcessed else state.behind }
  let limit := config.realtimeMaxBehind.toNat
  if limit = 0 ∨ safeBlock ≤ (lastProcessed + limit) % 2 ^ 64 ∨ state.revertPending then state
  else
    let (watched, depth, answered) :=
      if 0 < lastProcessed then state.toWatched.detectReorg lastProcessed answers.reorg else (state.toWatched, 0, true)
    if !answered ∨ 0 < depth then { state with toWatched := watched }
    else
      let skipped := ((lastProcessed + 1) % 2 ^ 64, safeBlock - 1)
      match (watched.beside answers.catchup).saveMissingRange skipped answers.save with
      | (watched, false) => { state with toWatched := watched }
      | (watched, true) => { state with toWatched := watched, lastProcessedBlock := safeBlock - 1 }

def resumeAfterFailedRevert (state : Realtime) (readable : Bool) : Realtime × Bool :=
  if state.failedRevertFrom = 0 then (state, true)
  else if !readable then (state, false)
  else
    let cursor := state.lastProcessedBlock
    let resume :=
      match state.store.highestBlockAtOrBelow cursor with
      | some below => if state.failedRevertFrom - 1 < below.number then below.number else state.failedRevertFrom - 1
      | none => state.failedRevertFrom - 1
    ({ state with
      lastProcessedBlock := if resume < cursor then resume else cursor
      failedRevertFrom := 0 }, true)

def indexBatch (config : RealtimeConfig) (state : Realtime) (safeBlock : Nat) (answers : BatchAnswers) : Realtime :=
  let receipts := state.receipts.dropAbove state.lastProcessedBlock
  let anchored := realtimeAnchor state.store state.lastProcessedBlock receipts answers.cursor
  if !anchored.ok ∨ safeBlock ≤ anchored.fromBlock then
    { state with receipts := receipts, lastProcessedBlock := anchored.fromBlock }
  else
    let start : Batch :=
      { pipeline :=
          { store := state.store, receipts := receipts, lastIndexed := anchored.fromBlock, prevHash := anchored.hash,
            remembered := anchored.remembered }
        history := state.history }
    let looped := foldUntil (Batch.turn config.commitPipelineDepth answers) start
      (prefetchBlocks answers.node (anchored.fromBlock + 1) safeBlock)
    let ended := looped.close answers
    { state with
      toWatched := ended.watched
      receipts := ended.pipeline.receipts
      lastProcessedBlock := ended.pipeline.lastIndexed
      behind :=
        if ended.pipeline.lastIndexed = state.lastProcessedBlock then state.behind
        else safeBlock - ended.pipeline.lastIndexed }

def indexUpTo (config : RealtimeConfig) (state : Realtime) (safeBlock : Nat) (answers : UpToAnswers) : Realtime :=
  match { state with toWatched := state.toWatched.beside answers.catchup }.resumeAfterFailedRevert answers.below with
  | (state, false) => state
  | (state, true) =>
    if safeBlock ≤ state.lastProcessedBlock then state
    else if 0 < state.lastProcessedBlock then
      match state.toWatched.detectReorg state.lastProcessedBlock answers.reorg with
      | (watched, _, false) => { state with toWatched := watched }
      | (watched, depth, true) =>
        if 0 < depth then
          match watched.handleReorg (state.lastProcessedBlock + 1 - depth) answers.revert with
          | (watched, false) =>
            { state with
              toWatched := watched
              revertPending := true
              failedRevertFrom := state.lastProcessedBlock + 1 - depth }
          | (watched, true) =>
            { state with
              toWatched := watched
              revertPending := false
              lastProcessedBlock := state.lastProcessedBlock - depth }
        else { state with toWatched := watched, revertPending := false }.indexBatch config safeBlock answers.batch
    else state.indexBatch config safeBlock answers.batch

end Realtime

/-! ## Heads -/

structure HeadAnswers where
  jump : JumpAnswers
  upTo : UpToAnswers

def safeBlock (config : RealtimeConfig) (latestBlock : UInt64) : Nat :=
  (latestBlock - config.confirmationBlocks).toNat

def Realtime.advance (config : RealtimeConfig) (state : Realtime) (safeBlock : Nat) (answers : HeadAnswers) : Realtime :=
  (state.jumpIfFarBehind config safeBlock answers.jump).indexUpTo config safeBlock answers.upTo

inductive RealtimeEvent where
  | safe (safeBlock : Nat) (answers : HeadAnswers)
  | catchup (write : CatchupWrite)

def realtimeStep (config : RealtimeConfig) (state : Realtime) : RealtimeEvent → Realtime
  | .safe safeBlock answers => state.advance config safeBlock answers
  | .catchup write => { state with toWatched := state.toWatched.catchup write }

end OpsIndexer.Indexing
