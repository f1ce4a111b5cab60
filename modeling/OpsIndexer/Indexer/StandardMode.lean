import OpsIndexer.Indexer.PipelinedCommit

/-!
# Standard mode

`standardTick` and `retryMissing`: the reorg check below the cursor, the revert of what it finds, the loops of the head,
and the retries of the blocks that were recorded as missing. One reading of the clock stands for those of a pass.
-/

namespace OpsIndexer.Indexing

open Eth Db Lib.Keyset Lib.Runs

structure StandardConfig where
  startBlock : Nat
  commitPipelineDepth : Nat
  missingRetryInterval : Nat
  deriving DecidableEq, Repr

structure MissingAttempt where
  failures : Nat
  nextTry : Nat
  deriving DecidableEq, Repr

structure Standard where
  store : HeadStore
  lastIndexed : Nat
  receipts : ReceiptSkip
  missingRetryAt : Nat
  /-- By the first block that is not filled. -/
  missingBackoff : List (Nat × MissingAttempt) := []

/-! ## The tick -/

structure ReorgAnswers where
  stored : Nat → Bool
  chain : Nat → Option Hash

def maxReorgCheck : Nat := 10

def compareBlock (store : HeadStore) (blockNumber : Nat) (answers : ReorgAnswers) (found : Nat × Bool) (depth : Nat) :
    (Nat × Bool) × Bool :=
  let checkBlock := blockNumber - depth
  if answers.stored checkBlock then
    match store.getBlock checkBlock, answers.chain checkBlock with
    | none, _ => (found, true)
    | some _, none => ((found.1, false), false)
    | some storedBlock, some chainHash =>
      if storedBlock.hash = chainHash then (found, true) else ((depth + 1, true), true)
  else ((found.1, false), false)

def detectReorg (store : HeadStore) (blockNumber : Nat) (answers : ReorgAnswers) : Nat × Bool :=
  foldUntil (compareBlock store blockNumber answers) (0, true) (List.range (min maxReorgCheck blockNumber))

structure TickAnswers where
  reorg : ReorgAnswers
  revert : RevertAnswers
  index : IndexAnswers

def indexHead (config : StandardConfig) (state : Standard) (latest : Nat) (answers : IndexAnswers) : Standard :=
  let loop :=
    if 1 < config.commitPipelineDepth then
      (indexPipelined config.startBlock state.store state.lastIndexed latest config.commitPipelineDepth state.receipts
        answers).toLoop
    else indexPrefetched config.startBlock state.store state.lastIndexed latest state.receipts answers
  { state with store := loop.store, lastIndexed := loop.lastIndexed, receipts := loop.receipts }

def standardTick (config : StandardConfig) (state : Standard) (latest : Nat) (answers : TickAnswers) : Standard :=
  if 0 < state.lastIndexed then
    match detectReorg state.store state.lastIndexed answers.reorg with
    | (_, false) => state
    | (reorgDepth, true) =>
      if 0 < reorgDepth then
        match handleReorg state.store (state.lastIndexed - reorgDepth + 1) answers.revert with
        | (store, false) => { state with store := store }
        | (store, true) =>
          indexHead config { state with store := store, lastIndexed := state.lastIndexed - reorgDepth } latest
            answers.index
      else indexHead config state latest answers.index
  else indexHead config state latest answers.index

/-! ## Retries -/

def missingRetryBlocks : Nat := 20

structure RetryAnswers where
  has : Bool
  node : NodeAnswer
  below : Bool
  above : Bool
  write : WriteOutcome

def fitsBetween (store : HeadStore) (number : Nat) (raw : RawHead) : Bool :=
  (number = 0 || (store.getBlock (number - 1)).all fun below => below.hash = raw.parentHash) &&
    (store.getBlock (number + 1)).all fun above => above.parentHash = raw.hash

def retryMissingBlock (store : HeadStore) (number : Nat) (answers : RetryAnswers) : HeadStore × Bool :=
  if !answers.has then (store, false)
  else if store.Stored number then (store, true)
  else
    match fetchBlockAndReceipts number answers.node with
    | .ready _ raw =>
      if (number = 0 ∨ answers.below) ∧ answers.above ∧ fitsBetween store number raw then
        match store.insertBlock (raw.toBlock number) answers.write with
        | (next, none) => (next, true)
        | (next, some _) => (next, false)
      else (store, false)
    | _ => (store, false)

structure RangePass where
  store : HeadStore
  next : Nat
  budget : Nat
  failed : Bool := false

def retryNumber (answers : Nat → RetryAnswers) (pass : RangePass) (number : Nat) : RangePass × Bool :=
  match retryMissingBlock pass.store number (answers number) with
  | (store, true) => ({ pass with store := store, next := number + 1, budget := pass.budget - 1 }, true)
  | (store, false) => ({ pass with store := store, budget := pass.budget - 1, failed := true }, false)

def retryRange (store : HeadStore) (range : BlockRange) (lastIndexed budget : Nat) (answers : Nat → RetryAnswers) :
    RangePass :=
  foldUntil (retryNumber answers) { store := store, next := range.fromNumber, budget := budget }
    ((List.range' range.fromNumber (min range.toNumber lastIndexed + 1 - range.fromNumber)).take budget)

def pausedMissing (missingBackoff : List (Nat × MissingAttempt)) (now : Nat) : List Nat :=
  (missingBackoff.filter fun entry => now < entry.2.nextTry).map Prod.fst

def dropBackoff (missingBackoff : List (Nat × MissingAttempt)) (block : Nat) : List (Nat × MissingAttempt) :=
  missingBackoff.filter fun entry => entry.1 ≠ block

def backOffMissing (config : StandardConfig) (missingBackoff : List (Nat × MissingAttempt)) (fromBlock block now : Nat) :
    List (Nat × MissingAttempt) :=
  let failures := ((missingBackoff.find? fun entry => entry.1 = fromBlock).elim 0 fun entry => entry.2.failures) + 1
  (block, ⟨failures, now + config.missingRetryInterval * 2 ^ min (failures - 1) 6⟩) ::
    dropBackoff (dropBackoff missingBackoff fromBlock) block

structure PassAnswers where
  now : Nat
  /-- Whether the ranges can be read, and their order. -/
  ranges : Bool
  sorter : Sorter fun row : BlockRange => OrderDual.toDual row.fromNumber
  /-- By the range's id and the block's number, since ranges may overlap. -/
  blocks : Nat → Nat → RetryAnswers
  advances : Nat → Outcome

structure RetryPass extends Standard where
  budget : Nat

def retryMissingRange (config : StandardConfig) (answers : PassAnswers) (pass : RetryPass) (range : BlockRange) :
    RetryPass × Bool :=
  if pass.lastIndexed < range.fromNumber ∨ pass.budget = 0 then (pass, false)
  else
    let tried := retryRange pass.store range pass.lastIndexed pass.budget (answers.blocks range.id)
    let backoff :=
      if tried.failed then backOffMissing config pass.missingBackoff range.fromNumber tried.next answers.now
      else dropBackoff pass.missingBackoff range.fromNumber
    let advanced :=
      if tried.next ≠ range.fromNumber ∧ (answers.advances range.id).applied then
        { tried.store with ranges := advanceMissingRange tried.store.ranges range tried.next }
      else tried.store
    ({ pass with store := advanced, missingBackoff := backoff, budget := tried.budget }, true)

def retryMissing (config : StandardConfig) (state : Standard) (answers : PassAnswers) : Standard :=
  if !state.receipts.recorded ∨ answers.now < state.missingRetryAt then state
  else
    let state := { state with missingRetryAt := answers.now + config.missingRetryInterval }
    let paused := pausedMissing state.missingBackoff answers.now
    if !answers.ranges then state
    else
      let ranges := getLowestMissingRanges answers.sorter state.store.prunedThrough missingRetryBlocks paused
        state.store.ranges
      if ranges = [] ∧ paused = [] then
        { state with receipts := { state.receipts with recorded := false }, missingBackoff := [] }
      else
        (foldUntil (retryMissingRange config answers) { toStandard := state, budget := missingRetryBlocks }
          ranges).toStandard

/-! ## Runs -/

inductive StandardEvent where
  | tick (latest : Nat) (answers : TickAnswers)
  | retry (answers : PassAnswers)

def standardStep (config : StandardConfig) (state : Standard) : StandardEvent → Standard
  | .tick latest answers => standardTick config state latest answers
  | .retry answers => retryMissing config state answers

end OpsIndexer.Indexing
