import OpsIndexer.Db.PartitionSteps

/-!
# Reverts, closing and pruning on one history

`daily_stats_invalidate` of migration 037 with the revert that calls it, the closer on the partitions' own bounds, the
cut of the legacy range, and the system of these with block writes and retention. Every block that has ever been stored
is remembered beside the tables. How far the daily fold has come and which ranges are missing is left open.
-/

namespace OpsIndexer.Db

open Eth OpsIndexer.Types

/-! ## Reverts -/

/-- `daily_stats_invalidate`; nothing where it refuses a day that is partly pruned. -/
def History.dailyStatsInvalidate (history : History) (number : Nat) : Option History :=
  match history.dailyWatermark with
  | none => some history
  | some last =>
    if last < number then some history
    else
      match history.blocks.find? fun block => block.number = number with
      | none => some history
      | some block =>
        let day := dayStart block.timestamp
        if day ≤ history.prunedThroughTs then none
        else some { history with
          dailyWatermark :=
            ((history.blocks.filter fun row => day ≤ row.timestamp).map (·.number)).min?.map fun first =>
              (first : Int) - 1 }

def History.deleteBlock (history : History) (keccak256 : Bytes → Hash) (number : Nat) : Option History :=
  (history.dailyStatsInvalidate number).map fun next =>
    { next with ledger := next.ledger.deleteBlock keccak256 number }

/-! ## The closer and the cut -/

def History.bounds (history : History) : List Nat :=
  history.ranges.filterMap (·.lo) ++ history.ranges.filterMap (·.hi)

def History.closeSpan (history : History) (config : LedgerConfig) : Option History :=
  if config.spanBlocks = 0 then none
  else
    let span := history.ledger.ledgerNextSpan config history.bounds
    (history.ledger.ledgerCloseSpan span.1 span.2 history.missing).map fun ledger => { history with ledger := ledger }

/-- `history_cut_finish`: the legacy range is bounded, where no block is in the way, and the first partition above it
created. -/
def History.historyCutFinish (history : History) (cutAt size : Nat) : Option History :=
  if (∃ range ∈ history.ranges, range.lo = none ∧ range.hi = none) ∧ ∀ block ∈ history.blocks, block.number < cutAt then
    { history with ranges := updateRange none (fun range => { range with hi := some cutAt }) history.ranges }.historyPartitionCreate
      cutAt (cutAt + size)
  else none

/-! ## The system -/

inductive PruneEvent where
  | insertBlock (block : Block) (partitionOf : Nat → Nat)
  | insertBlockDataBatch (data : BlockData) (partitionOf : Nat → Nat)
  | deleteBlock (number : Nat)
  | closeSpan
  | compact (n : Int)
  | markChecked (lo : Nat) (state : CheckState)
  | fold (watermark : Option Int)
  | noteMissing (ranges : List (Nat × Nat))
  | cutFinish (cutAt size : Nat)
  | retain (event : RetainingEvent)

def PruneEvent.change (keccak256 : Bytes → Hash) (config : LedgerConfig) (history : History) :
    PruneEvent → Option History
  | .insertBlock block partitionOf =>
    (history.ledger.insertBlock partitionOf block).toOption.map fun ledger => { history with ledger := ledger }
  | .insertBlockDataBatch data partitionOf =>
    (history.ledger.insertBlockDataBatch partitionOf data).toOption.map fun ledger => { history with ledger := ledger }
  | .deleteBlock number => history.deleteBlock keccak256 number
  | .closeSpan => history.closeSpan config
  | .compact n => some { history with ledger := history.ledger.ledgerCompact n }
  | .markChecked lo state => some { history with ledger := history.ledger.markChecked lo state }
  | .fold watermark => some { history with dailyWatermark := watermark }
  | .noteMissing ranges => some { history with missing := ranges }
  | .cutFinish cutAt size => history.historyCutFinish cutAt size
  | .retain _ => none

structure Pruning where
  retaining : Retaining := { history := {} }
  ever : List Block := []

def Pruning.history (state : Pruning) : History :=
  state.retaining.history

def Retaining.own (state : Retaining) : RetainingEvent → Retaining
  | .others _ => state
  | event => state.step event

/-- A row that no partition takes fails its transaction, and no transaction but the wipe's runs during a wipe. -/
def Retaining.transact (state : Retaining) : Option History → Retaining
  | none => state
  | some next => if state.wiping.isNone ∧ next.Routed then { state with history := next } else state

def Pruning.step (keccak256 : Bytes → Hash) (config : LedgerConfig) (state : Pruning) (event : PruneEvent) : Pruning :=
  let next :=
    match event with
    | .retain event => state.retaining.own event
    | event => state.retaining.transact (event.change keccak256 config state.history)
  { retaining := next, ever := state.ever ++ next.history.blocks }

end OpsIndexer.Db
