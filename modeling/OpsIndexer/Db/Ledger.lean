import OpsIndexer.Db.SpanTotals

/-!
# The ledger, retention and what they count

Migrations 014, 019, 024, 026, 028 and 030: closed spans with their totals, the span the stats backfill has open in the
stage tables, the prune watermark, and the two recounts over them. A span's rows are kept with the span, as the foreign
keys of `ledger_chain`, `ledger_token` and `ledger_address` keep them. Of `prune_advance` only the checks on the ledger
are here; the others can only refuse.
-/

namespace OpsIndexer.Db

open Eth OpsIndexer.Types Lib.Table Lib.Tally

inductive SpanSource where
  | rows
  | node
  | merged
  deriving DecidableEq, Repr

inductive CheckState where
  | unchecked
  | ok
  | drift
  | repaired
  | quarantined
  deriving DecidableEq, Repr

structure LedgerSpan where
  lo : Nat
  hi : Nat
  source : SpanSource
  checkState : CheckState := .unchecked
  rows : SpanTotals

structure StatsBackfill where
  target : Nat
  through : Int := -1
  spanLo : Option Nat := none

structure Ledger where
  store : Store := {}
  spans : List LedgerSpan := []
  stage : AList (fun _ : Nat => SpanTotals) := ∅
  prunedThrough : Nat := 0
  backfill : Option StatsBackfill := none
  detaching : List (Nat × Nat) := []

structure LedgerConfig where
  spanBlocks : Nat
  firstBlock : Nat

def pruneFloorGap : Nat := 12800

def Ledger.historyFrom (ledger : Ledger) : Nat :=
  Db.historyFrom ledger.prunedThrough

def Ledger.lastHi (ledger : Ledger) : Option Nat :=
  (ledger.spans.map (·.hi)).max?

def Ledger.closedThrough (ledger : Ledger) : Nat :=
  ledger.lastHi.getD 0

def Ledger.openSpan (ledger : Ledger) : Option Nat :=
  ledger.backfill.bind (·.spanLo)

def Ledger.staged (ledger : Ledger) : SpanTotals :=
  (ledger.openSpan.bind ledger.stage.lookup).getD {}

def Ledger.prunedSpans (ledger : Ledger) : List LedgerSpan :=
  ledger.spans.filter fun span => span.hi ≤ ledger.historyFrom

/-! ## The two recounts -/

def ledgerSum (spans : List LedgerSpan) (counter : LedgerCounter) : Int :=
  (spans.map fun span => span.rows.count counter).sum

def historyRows (store : Store) (first : Nat) : LedgerCounter → Nat
  | .blocks => (store.blocks.filter fun row => first ≤ row.number).length
  | .transactions => (store.transactions.filter fun row => first ≤ row.blockNumber).length
  | .transfers => (store.tokenTransfers.filter fun row => first ≤ row.blockNumber).length
  | .token address =>
    (transfersOf (store.tokenTransfers.filter fun row => first ≤ row.blockNumber) address).length

def Ledger.pruneOffset (ledger : Ledger) (counter : LedgerCounter) : Int :=
  ledgerSum ledger.prunedSpans counter + ledger.staged.count counter

def Ledger.expected (ledger : Ledger) (counter : LedgerCounter) : Int :=
  ledgerSum ledger.spans counter + ledger.staged.count counter +
    historyRows ledger.store ledger.closedThrough counter

def Ledger.tokenCounted (ledger : Ledger) (transfers : List TransferRow) (token : String) : Int × Int :=
  let retained := transfersOf (transfers.filter fun row => ledger.historyFrom ≤ row.blockNumber) token
  let pruned := ledger.prunedSpans.map fun span => deltaOf span.rows.tokens token
  let staged := deltaOf ledger.staged.tokens token
  (retained.length + (pruned.map (·.transferDelta)).sum + staged.transferDelta,
    netSupply retained + (pruned.map (·.supplyDelta)).sum + staged.supplyDelta)

def Ledger.running (ledger : Ledger) : List (LedgerCounter × Int) :=
  [(.blocks, ledger.store.counter .blocksTotal), (.transactions, ledger.store.counter .transactionsTotal),
    (.transfers, ledger.store.counter .transfersTotal)] ++
    ledger.store.tokens.map fun row => (.token row.address, row.transferCount)

/-! ## Closing, pruning, compacting -/

def Ledger.ledgerNextSpan (ledger : Ledger) (config : LedgerConfig) (bounds : List Nat) : Nat × Nat :=
  let lo := max (ledger.lastHi.getD config.firstBlock) ledger.historyFrom
  let grid := (lo / config.spanBlocks + 1) * config.spanBlocks
  (lo, ((bounds.filter fun bound => lo < bound).min?).elim grid (min grid))

/-- `ledger_close_span`: the new ledger, or nothing where it raises or returns false. A span of no width meets the
table's check. -/
def Ledger.ledgerCloseSpan (ledger : Ledger) (lo hi : Nat) (missing : List (Nat × Nat)) : Option Ledger :=
  if lo = max (ledger.lastHi.getD lo) ledger.historyFrom ∧ lo < hi then
    match (ledger.store.blocks.map (·.number)).max? with
    | none => none
    | some head =>
      if head < hi - 1 + pruneFloorGap then none
      else if missing.any (fun range => range.1 < hi && lo ≤ range.2) then none
      else if (ledger.store.blocks.filter fun row => max lo 1 ≤ row.number && row.number < hi).length ≠
          hi - max lo 1 then none
      else some { ledger with
        spans := ledger.spans ++ [⟨lo, hi, .rows, .unchecked, ledgerStageFromRows ledger.store lo hi⟩]
        stage := ledger.stage.erase lo }
  else none

def Ledger.pruneAdvance (ledger : Ledger) (lo hi : Nat) : Option Ledger :=
  if ledger.spans.any (fun span => span.hi = hi) then
    some { ledger with
      prunedThrough := max ledger.prunedThrough (hi - 1)
      detaching := ledger.detaching ++ [(lo, hi)] }
  else none

def dropRows (store : Store) (lo hi : Nat) : Store :=
  { store with
    blocks := store.blocks.filter fun row => !inSpan lo hi row.number
    transactions := store.transactions.filter fun row => !inSpan lo hi row.blockNumber
    logs := store.logs.filter fun row => !inSpan lo hi row.blockNumber
    tokenTransfers := store.tokenTransfers.filter fun row => !inSpan lo hi row.blockNumber
    internalTransactions := store.internalTransactions.filter fun row => !inSpan lo hi row.blockNumber }

local instance lawfulBEqRange : LawfulBEq (Nat × Nat) :=
  inferInstance

def Ledger.dropRange (ledger : Ledger) (lo hi : Nat) : Option Ledger :=
  if (lo, hi) ∈ ledger.detaching then some { ledger with store := dropRows ledger.store lo hi } else none

def LedgerSpan.mergeable (historyFrom : Nat) (span : LedgerSpan) : Bool :=
  (span.checkState = .ok || span.checkState = .repaired) && span.source ≠ .merged && span.hi ≤ historyFrom

/-- The bounds of the first run of `n` spans, in block order, that are mergeable and leave no gap. -/
def compactRun (historyFrom n : Nat) : List LedgerSpan → Option (Nat × Nat)
  | [] => none
  | span :: rest =>
    let window := (span :: rest).take n
    match window.getLast? with
    | none => none
    | some last =>
      if window.all (LedgerSpan.mergeable historyFrom) ∧ window.length = n ∧
          (last.hi : Int) - span.lo = (window.map fun span => (span.hi : Int) - span.lo).sum then
        some (span.lo, last.hi)
      else compactRun historyFrom n rest

def mergedRows (spans : List LedgerSpan) : SpanTotals :=
  spans.foldl (fun totals span => totals.add span.rows) {}

/-- `ledger_compact`. With fewer than two spans asked for, or no run of them, nothing happens. -/
def Ledger.ledgerCompact (ledger : Ledger) (n : Int) : Ledger :=
  if n < 2 then ledger
  else
    match compactRun ledger.historyFrom n.toNat
        (ledger.spans.insertionSort fun first second => first.lo ≤ second.lo) with
    | none => ledger
    | some (lo, hi) =>
      let run := ledger.spans.filter fun span => inSpan lo hi span.lo
      { ledger with
        spans := (ledger.spans.filter fun span => !inSpan lo hi span.lo) ++
          [⟨lo, hi, .merged, .unchecked, mergedRows run⟩] }

def Ledger.markChecked (ledger : Ledger) (lo : Nat) (state : CheckState) : Ledger :=
  { ledger with
    spans := ledger.spans.map fun span => if span.lo = lo then { span with checkState := state } else span }

def initStatsBackfill (target : Nat) : Ledger :=
  { prunedThrough := target, backfill := some { target := target } }

end OpsIndexer.Db
