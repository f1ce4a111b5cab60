import OpsIndexer.Db.BalanceFence
import OpsIndexer.Indexer.BalanceWorker

/-!
# Balance work from a block's commit to its history row

The processes of one indexer around the balance tables: catch-up workers and the head loop commit blocks and queue their
balance work afterwards, a revert holds the pool's epoch gate, the pool folds and reads, its workers flush, and
`rereadBalances` claims requests and queues them at the stored head. Database work is the transactions of the reorg
fence, one statement at a time.
-/

namespace OpsIndexer.Indexing

open Eth OpsIndexer.Types Db

structure BalanceFlow where
  system : BalanceSystem := { db := {} }
  /-- The reorg epoch the pool stamps on new work. -/
  epoch : Nat := 0
  /-- The revert that holds the epoch gate for writing. -/
  epochGate : Option Nat := none
  /-- What each `QueueWorkBatchWait` call in progress has still to queue. -/
  queueing : List (List BalanceWork) := []
  /-- Requests handed out, the stored head not read yet. -/
  claimed : List (List BalanceReread) := []
  /-- Work in the queue, the dedup window or between the two. -/
  works : List BalanceWork := []
  workers : List WorkerState := []

inductive FlowEvent where
  | writeBlock (partitionOf : Nat → Nat) (data : BlockData) (keys : List (Address × Address))
  | queueNext (call : Nat)
  | giveUp (call : Nat)
  | beginRevert (number : Nat)
  | holdEpoch (i : Nat)
  | releaseEpoch (cancelled : Bool)
  | beginClaim (limit : Nat)
  | readHead (claim : Nat)
  | advance (i : Nat) (skipped : List BalanceKey)
  | commit (i : Nat)
  | rollback (i : Nat)
  | fold (first second : BalanceWork)
  | receive (worker : Nat) (work : BalanceWork) (drained : List BalanceWork) (node : NodeAnswers)
  | tick (worker : Nat)
  | flush (worker batch : Nat)
  | restart

namespace BalanceFlow

/-- `afterCommit`: the block's balance work is queued once its write has returned. -/
def writeBlock (flow : BalanceFlow) (partitionOf : Nat → Nat) (data : BlockData) (keys : List (Address × Address)) :
    BalanceFlow :=
  match data.block, insertBlockDataBatchBalances partitionOf data flow.system.db with
  | some block, .ok next =>
    { flow with
      system := { flow.system with db := next }
      queueing := flow.queueing ++ [keys.map fun key => ⟨key.1, key.2, block.number, 0⟩] }
  | _, _ => flow

def queueNext (flow : BalanceFlow) (call : Nat) : BalanceFlow :=
  match flow.queueing[call]? with
  | some (work :: rest) =>
    if work.epoch = 0 then
      if flow.epochGate.isSome then flow
      else
        { flow with
          queueing := flow.queueing.set call rest
          works := flow.works ++ [{ work with epoch := flow.epoch }] }
    else { flow with queueing := flow.queueing.set call rest, works := flow.works ++ [work] }
  | _ => flow

/-- `holdBalanceEpoch`, as the `locked` callback of a revert. -/
def holdEpoch (flow : BalanceFlow) (i : Nat) : BalanceFlow :=
  match flow.epochGate, flow.system.txs[i]? with
  | none, some (.revert _ .begun) => { flow with epochGate := some i }
  | _, _ => flow

/-- The release after the revert's transaction has ended: the pool moves to the epoch it reads, unless the context was
cancelled before it could. -/
def releaseEpoch (flow : BalanceFlow) (cancelled : Bool) : BalanceFlow :=
  let released : BalanceFlow :=
    { flow with
      epochGate := none
      epoch := if cancelled then flow.epoch else max flow.epoch flow.system.db.balanceReorgEpoch }
  match flow.epochGate.bind fun i => flow.system.txs[i]? with
  | some .committed => released
  | some .rolledBack => released
  | _ => flow

def latestBlockNumber (store : Store) : Nat :=
  (store.blocks.argmax Block.number).elim 0 Block.number

def readHead (flow : BalanceFlow) (claim : Nat) : BalanceFlow :=
  match flow.claimed[claim]? with
  | some requests =>
    { flow with
      claimed := flow.claimed.set claim []
      queueing := flow.queueing ++ [requests.map fun request =>
        ⟨hexToAddress request.address, hexToAddress request.token, latestBlockNumber flow.system.db.store,
          request.epoch⟩] }
  | none => flow

def advance (tbcLockKey : BalanceKey → Int) (flow : BalanceFlow) (i : Nat) (skipped : List BalanceKey) : BalanceFlow :=
  match flow.system.txs[i]? with
  | some (.revert _ .begun) =>
    if flow.epochGate = some i then { flow with system := flow.system.advance tbcLockKey i skipped } else flow
  | _ => { flow with system := flow.system.advance tbcLockKey i skipped }

def commit (keccak256 : Bytes → Hash) (flow : BalanceFlow) (i : Nat) : BalanceFlow :=
  { flow with
    system := flow.system.commit keccak256 i
    claimed := match flow.system.txs[i]? with
      | some (.claim _ (.handed _ claimed)) => flow.claimed ++ [claimed]
      | _ => flow.claimed }

def fold (flow : BalanceFlow) (first second : BalanceWork) : BalanceFlow :=
  if [first, second].Subperm flow.works ∧ second.key = first.key then
    { flow with works := folded first second :: flow.works.diff [first, second] }
  else flow

def receive (keccak256 : Bytes → Hash) (readerBatch : Nat) (flow : BalanceFlow) (worker : Nat) (work : BalanceWork)
    (drained : List BalanceWork) (node : NodeAnswers) : BalanceFlow :=
  match flow.workers[worker]? with
  | some state =>
    if (work :: drained).Subperm flow.works ∧ drained.length ≤ readerBatch - 1 then
      { flow with
        works := flow.works.diff (work :: drained)
        workers := flow.workers.set worker (workerStep keccak256 readerBatch state (.receive work drained node)) }
    else flow
  | none => flow

def tick (keccak256 : Bytes → Hash) (readerBatch : Nat) (flow : BalanceFlow) (worker : Nat) : BalanceFlow :=
  match flow.workers[worker]? with
  | some state => { flow with workers := flow.workers.set worker (workerStep keccak256 readerBatch state .tick) }
  | none => flow

def flush (flow : BalanceFlow) (worker batch : Nat) : BalanceFlow :=
  match (flow.workers[worker]?).bind fun state => state.flushed[batch]? with
  | some (row :: rows) =>
    { flow with system := { flow.system with txs := flow.system.txs ++ [.flush (row :: rows) .begun] } }
  | _ => flow

/-- The process ends: what was in memory is lost, what was not committed is rolled back, and the pool starts at the
stored epoch. -/
def restart (flow : BalanceFlow) : BalanceFlow where
  system := { flow.system with txs := [] }
  epoch := flow.system.db.balanceReorgEpoch
  workers := flow.workers.map fun _ => {}

def step (keccak256 : Bytes → Hash) (tbcLockKey : BalanceKey → Int) (readerBatch : Nat) (flow : BalanceFlow) :
    FlowEvent → BalanceFlow
  | .writeBlock partitionOf data keys => flow.writeBlock partitionOf data keys
  | .queueNext call => flow.queueNext call
  | .giveUp call => { flow with queueing := flow.queueing.set call [] }
  | .beginRevert number =>
    { flow with system := { flow.system with txs := flow.system.txs ++ [.revert number .begun] } }
  | .holdEpoch i => flow.holdEpoch i
  | .releaseEpoch cancelled => flow.releaseEpoch cancelled
  | .beginClaim limit =>
    { flow with system := { flow.system with txs := flow.system.txs ++ [.claim limit .begun] } }
  | .readHead claim => flow.readHead claim
  | .advance i skipped => flow.advance tbcLockKey i skipped
  | .commit i => flow.commit keccak256 i
  | .rollback i =>
    match flow.system.txs[i]? with
    | some .committed => flow
    | _ => { flow with system := flow.system.set i .rolledBack }
  | .fold first second => flow.fold first second
  | .receive worker work drained node => flow.receive keccak256 readerBatch worker work drained node
  | .tick worker => flow.tick keccak256 readerBatch worker
  | .flush worker batch => flow.flush worker batch
  | .restart => flow.restart

end BalanceFlow

end OpsIndexer.Indexing
