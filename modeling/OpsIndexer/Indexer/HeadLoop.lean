import OpsIndexer.Indexer.HeadStore
import OpsIndexer.Lib.Runs

/-!
# The head loops

`prefetch.go` and `receipt_skip.go` as standard mode runs them: the anchor a tick starts after, the sequential loop
and the pipelined one. What the node and the store answer during one call is given with it, by block number, since a
call asks for a number at most once. No block requests are served in between, and sync status is left out.
-/

namespace OpsIndexer.Indexing

open Eth Db Lib.Runs

/-! ## Fetched blocks -/

structure RawHead where
  hash : Hash
  parentHash : Hash
  transactions : Nat
  deriving DecidableEq, Repr

/-- A reply without a number counts as none. -/
structure NodeAnswer where
  block : Option RawHead
  receipts : Bool
  deriving DecidableEq, Repr

/-- `fetchedBlock`: without a block, with one but without its receipts (`errReceiptsUnavailable`), or with both. -/
inductive FetchedBlock where
  | unread (number : Nat)
  | noReceipts (number : Nat) (raw : RawHead)
  | ready (number : Nat) (raw : RawHead)
  deriving DecidableEq, Repr

def FetchedBlock.number : FetchedBlock → Nat
  | .unread number => number
  | .noReceipts number _ => number
  | .ready number _ => number

def FetchedBlock.raw : FetchedBlock → Option RawHead
  | .unread _ => none
  | .noReceipts _ raw => some raw
  | .ready _ raw => some raw

def fetchBlockAndReceipts (number : Nat) (answer : NodeAnswer) : FetchedBlock :=
  match answer.block with
  | none => .unread number
  | some raw =>
    if raw.hash = 0 then .unread number
    else if raw.transactions = 0 ∨ answer.receipts then .ready number raw
    else .noReceipts number raw

@[simp] theorem fetchBlockAndReceipts_number (number : Nat) (answer : NodeAnswer) :
    (fetchBlockAndReceipts number answer).number = number := by
  rw [fetchBlockAndReceipts]
  split
  · rfl
  · split
    · rfl
    · split <;> rfl

def RawHead.toBlock (raw : RawHead) (number : Nat) : HeadBlock where
  number := number
  hash := raw.hash
  parentHash := raw.parentHash

def prefetchBlocks (answers : Nat → NodeAnswer) (fromBlock toBlock : Nat) : List FetchedBlock :=
  (List.range' fromBlock (toBlock + 1 - fromBlock)).map fun number => fetchBlockAndReceipts number (answers number)

/-! ## Skipped blocks -/

def maxReceiptAttempts : Nat := 10

structure ReceiptSkip where
  block : Nat := 0
  attempts : Nat := 0
  skipped : Nat := 0
  skippedHash : Hash := 0
  recorded : Bool := false
  deriving DecidableEq, Repr

def ReceiptSkip.counted (receipts : ReceiptSkip) (blockNum : Nat) : ReceiptSkip :=
  if receipts.block = blockNum then { receipts with attempts := receipts.attempts + 1 }
  else { receipts with block := blockNum, attempts := 1 }

def ReceiptSkip.skip (receipts : ReceiptSkip) (store : HeadStore) (blockNum : Nat) (requeue : Outcome) :
    ReceiptSkip × HeadStore × Bool :=
  let counted := receipts.counted blockNum
  if counted.attempts < maxReceiptAttempts then (counted, store, false)
  else
    let recorded :=
      if requeue.applied then { store with ranges := requeueMissingBlock store.ranges blockNum } else store
    if requeue = .ok then ({ counted with attempts := 0, recorded := true }, recorded, true)
    else (counted, recorded, false)

def ReceiptSkip.dropAbove (receipts : ReceiptSkip) (lastIndexed : Nat) : ReceiptSkip :=
  if lastIndexed < receipts.skipped then { receipts with skipped := 0, skippedHash := 0 } else receipts

def recheckSkipped (receipts : ReceiptSkip) (answer : Option Hash) : ReceiptSkip :=
  if answer = some receipts.skippedHash then receipts else { receipts with skipped := 0, skippedHash := 0 }

/-! ## The anchor -/

structure Anchor where
  fromBlock : Nat
  hash : Hash
  remembered : Bool
  ok : Bool
  deriving DecidableEq, Repr

structure AnchorReads where
  cursor : Bool
  below : Bool
  pruned : Bool
  deriving DecidableEq, Repr

def indexingFloor (startBlock prunedThrough : Nat) : Nat :=
  let floor := if 0 < prunedThrough ∧ startBlock < prunedThrough + 1 then prunedThrough + 1 else startBlock
  floor - 1

def anchor (startBlock : Nat) (store : HeadStore) (lastIndexed : Nat) (receipts : ReceiptSkip) (reads : AnchorReads) :
    Anchor :=
  if lastIndexed = 0 ∧ startBlock = 0 then ⟨0, 0, false, true⟩
  else if 0 < lastIndexed ∧ !reads.cursor then ⟨lastIndexed, 0, false, false⟩
  else
    match if 0 < lastIndexed then store.getBlock lastIndexed else none with
    | some block => ⟨lastIndexed, block.hash, false, true⟩
    | none =>
      if 0 < lastIndexed ∧ receipts.skipped = lastIndexed ∧ receipts.skippedHash ≠ 0 then
        ⟨lastIndexed, receipts.skippedHash, true, true⟩
      else if !reads.below then ⟨lastIndexed, 0, false, false⟩
      else
        match store.highestBlockAtOrBelow lastIndexed with
        | some below => ⟨below.number, below.hash, false, true⟩
        | none =>
          if reads.pruned then ⟨indexingFloor startBlock store.prunedThrough, 0, false, true⟩
          else ⟨lastIndexed, 0, false, false⟩

/-! ## Reverts -/

structure RevertAnswers where
  latest : Bool
  deletes : Nat → Outcome

def revertBlock (deletes : Nat → Outcome) (state : HeadStore × Bool) (blockNum : Nat) : (HeadStore × Bool) × Bool :=
  let store := if (deletes blockNum).applied then state.1.deleteBlock blockNum else state.1
  ((store, deletes blockNum == .ok), deletes blockNum == .ok)

def handleReorg (store : HeadStore) (fromBlock : Nat) (answers : RevertAnswers) : HeadStore × Bool :=
  if answers.latest then
    foldUntil (revertBlock answers.deletes) (store, true)
      (List.range' fromBlock (store.getLatestBlockNumber + 1 - fromBlock)).reverse
  else (store, false)

def revertStaleBlock (store : HeadStore) (failure : HeadError) (answers : RevertAnswers) : HeadStore :=
  match failure with
  | .differs number => (handleReorg store number answers).1
  | .other => store

/-! ## The sequential loop -/

inductive Landing where
  | committed
  | kept
  | skipped
  deriving DecidableEq, Repr

structure LoopAnswers where
  writes : Nat → WriteOutcome
  requeues : Nat → Outcome
  /-- `RawBlockHash` of the skipped block. -/
  skippedHash : Option Hash
  revert : RevertAnswers

structure Loop where
  store : HeadStore
  receipts : ReceiptSkip
  lastIndexed : Nat
  prevHash : Hash
  remembered : Bool
  /-- What became of the blocks, in order. -/
  log : List (Nat × Landing) := []

/-- The block was read before a reorg: it does not extend the block before it. -/
def breaksChain (prevHash : Hash) (block : FetchedBlock) : Bool :=
  block.raw.any fun raw => prevHash ≠ 0 && raw.parentHash ≠ prevHash

def Loop.skip (loop : Loop) (number : Nat) (raw : RawHead) (requeue : Outcome) : Loop × Bool :=
  match loop.receipts.skip loop.store number requeue with
  | (receipts, store, true) =>
    ({ loop with
      store := store
      receipts := { receipts with skipped := number, skippedHash := raw.hash }
      lastIndexed := number
      prevHash := raw.hash
      log := loop.log ++ [(number, .skipped)] }, true)
  | (receipts, store, false) => ({ loop with store := store, receipts := receipts }, false)

def landing (block : HeadBlock) (write : HeadWrite) (ends : Outcome) : List (Nat × Landing) :=
  match write with
  | .stored => [(block.number, .kept)]
  | .opened _ => if ends.applied then [(block.number, .committed)] else []

def Loop.write (loop : Loop) (block : HeadBlock) (outcome : WriteOutcome) : Loop × Option HeadError :=
  match loop.store.beginBlockData block outcome.begins with
  | .error failure => (loop, some failure)
  | .ok write =>
    let log := loop.log ++ landing block write outcome.ends
    match loop.store.finish write outcome.ends with
    | (store, true) => ({ loop with store := store, lastIndexed := block.number, log := log }, none)
    | (store, false) => ({ loop with store := store, log := log }, some .other)

def indexPrefetchedBlock (answers : LoopAnswers) (loop : Loop) (block : FetchedBlock) : Loop × Bool :=
  if breaksChain loop.prevHash block then
    ({ loop with
      receipts := if loop.remembered then recheckSkipped loop.receipts answers.skippedHash else loop.receipts }, false)
  else
    let loop := { loop with remembered := false }
    match block with
    | .unread _ => (loop, false)
    | .noReceipts number raw => loop.skip number raw (answers.requeues number)
    | .ready number raw =>
      match loop.write (raw.toBlock number) (answers.writes number) with
      | (next, none) => ({ next with prevHash := raw.hash }, true)
      | (next, some failure) => ({ next with store := revertStaleBlock next.store failure answers.revert }, false)

structure IndexAnswers where
  reads : AnchorReads
  node : Nat → NodeAnswer
  loop : LoopAnswers

def startLoop (startBlock : Nat) (store : HeadStore) (lastIndexed : Nat) (receipts : ReceiptSkip)
    (reads : AnchorReads) : Loop :=
  let receipts := receipts.dropAbove lastIndexed
  let anchored := anchor startBlock store lastIndexed receipts reads
  { store := store
    receipts := receipts
    lastIndexed := anchored.fromBlock
    prevHash := anchored.hash
    remembered := anchored.remembered }

def tickBlocks (startBlock : Nat) (store : HeadStore) (lastIndexed latest : Nat) (receipts : ReceiptSkip)
    (answers : IndexAnswers) : List FetchedBlock :=
  let anchored := anchor startBlock store lastIndexed (receipts.dropAbove lastIndexed) answers.reads
  if !anchored.ok ∨ latest ≤ anchored.fromBlock then []
  else prefetchBlocks answers.node (anchored.fromBlock + 1) latest

def indexPrefetched (startBlock : Nat) (store : HeadStore) (lastIndexed latest : Nat) (receipts : ReceiptSkip)
    (answers : IndexAnswers) : Loop :=
  foldUntil (indexPrefetchedBlock answers.loop) (startLoop startBlock store lastIndexed receipts answers.reads)
    (tickBlocks startBlock store lastIndexed latest receipts answers)

/-! ## The pipelined loop -/

structure InFlight where
  block : HeadBlock
  begun : Except HeadError HeadWrite

inductive Ending where
  | finished
  | rolledBack
  deriving DecidableEq, Repr

structure Pipeline extends Loop where
  queue : List InFlight := []
  stale : Option HeadError := none
  /-- The block transactions that were opened, and how each ended. -/
  opened : List Nat := []
  ended : List (Nat × Ending) := []

def Pipeline.abort (pipeline : Pipeline) : Pipeline :=
  { pipeline with
    queue := []
    ended := pipeline.ended ++ (pipeline.queue.filter fun flight => flight.begun.toBool).map fun flight =>
      (flight.block.number, .rolledBack) }

def Pipeline.finishOldest (answers : LoopAnswers) (pipeline : Pipeline) : Pipeline × Bool :=
  match pipeline.queue with
  | [] => (pipeline, true)
  | flight :: rest =>
    match flight.begun with
    | .error failure => ({ pipeline with queue := rest, stale := some failure }, false)
    | .ok write =>
      let ends := (answers.writes flight.block.number).ends
      let pipeline := { pipeline with
        queue := rest
        log := pipeline.log ++ landing flight.block write ends
        ended := pipeline.ended ++ [(flight.block.number, Ending.finished)] }
      match pipeline.store.finish write ends with
      | (store, true) => ({ pipeline with store := store, lastIndexed := flight.block.number }, true)
      | (store, false) => ({ pipeline with store := store }, false)

def Pipeline.drainCount (answers : LoopAnswers) : Nat → Pipeline → Pipeline × Bool
  | 0, pipeline => (pipeline, true)
  | count + 1, pipeline =>
    match pipeline.finishOldest answers with
    | (next, true) => drainCount answers count next
    | (next, false) => (next.abort, false)

def Pipeline.drain (answers : LoopAnswers) (pipeline : Pipeline) : Pipeline × Bool :=
  Pipeline.drainCount answers pipeline.queue.length pipeline

def Pipeline.begin (pipeline : Pipeline) (block : HeadBlock) (begins : Bool) : Pipeline :=
  let begun := pipeline.store.beginBlockData block begins
  { pipeline with
    queue := pipeline.queue ++ [⟨block, begun⟩]
    opened := if begun.toBool then pipeline.opened ++ [block.number] else pipeline.opened }

def indexPipelinedBlock (depth : Nat) (answers : LoopAnswers) (pipeline : Pipeline) (block : FetchedBlock) :
    Pipeline × Bool :=
  if breaksChain pipeline.prevHash block then
    ({ pipeline with
      receipts :=
        if pipeline.remembered then recheckSkipped pipeline.receipts answers.skippedHash else pipeline.receipts },
      false)
  else
    let pipeline := { pipeline with remembered := false }
    match block with
    | .unread _ => (pipeline, false)
    | .noReceipts number raw =>
      match pipeline.drain answers with
      | (pipeline, false) => (pipeline, false)
      | (pipeline, true) =>
        let (loop, moved) := pipeline.toLoop.skip number raw (answers.requeues number)
        ({ pipeline with toLoop := loop }, moved)
    | .ready number raw =>
      let pipeline := { pipeline with prevHash := raw.hash }
      if raw.transactions = 0 then
        match pipeline.drain answers with
        | (pipeline, false) => (pipeline, false)
        | (pipeline, true) =>
          match pipeline.toLoop.write (raw.toBlock number) (answers.writes number) with
          | (loop, none) => ({ pipeline with toLoop := loop }, true)
          | (loop, some failure) => ({ pipeline with toLoop := loop, stale := some failure }, false)
      else
        let pipeline := pipeline.begin (raw.toBlock number) (answers.writes number).begins
        if depth ≤ pipeline.queue.length then
          match pipeline.finishOldest answers with
          | (pipeline, true) => (pipeline, true)
          | (pipeline, false) => (pipeline.abort, false)
        else (pipeline, true)

def Pipeline.revertStale (answers : LoopAnswers) (pipeline : Pipeline) : Pipeline :=
  match pipeline.stale with
  | none => pipeline
  | some failure => { pipeline with store := revertStaleBlock pipeline.store failure answers.revert }

/-- A return out of the loop leaves nothing to drain. -/
def indexPipelined (startBlock : Nat) (store : HeadStore) (lastIndexed latest depth : Nat) (receipts : ReceiptSkip)
    (answers : IndexAnswers) : Pipeline :=
  let start : Pipeline := { toLoop := startLoop startBlock store lastIndexed receipts answers.reads }
  let looped := foldUntil (indexPipelinedBlock depth answers.loop) start
    (tickBlocks startBlock store lastIndexed latest receipts answers)
  (looped.drain answers.loop).1.revertStale answers.loop

end OpsIndexer.Indexing
