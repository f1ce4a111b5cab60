import OpsIndexer.Db.Ledger

/-!
# Writes over a ledger

The block write, the revert and the stats backfill's batch, with pruned spans and an open backfill span. A token row
created by one of them is seeded with `token_counted`. A batch's daily statistics and balance keys are left out.
-/

namespace OpsIndexer.Db

open Eth OpsIndexer.Types Lib.Table

/-! ## Seeds from the ledger -/

def seedTokenFrom (counted : Int × Int) (row : TokenRow) : TokenRow :=
  { row with
    transferCount := counted.1
    totalSupply := if row.tokenType = .erc20 then some (clampSupply counted.2) else row.totalSupply }

def seedTokensFrom (counted : String → Int × Int) (seeds : List String) (tokens : List TokenRow) : List TokenRow :=
  updateKeys (·.address) (seeds.map fun address => (address, seedTokenFrom (counted address))) tokens

def remainingDeltas (shared : SharedRows) (seeds : List String) : TokenDeltas :=
  if shared.seedCountsOwnRows then seeds.foldl (fun deltas address => deltas.erase address) shared.tokenDeltas
  else shared.tokenDeltas

def writeSharedRowsFrom (counted : String → Int × Int) (shared : SharedRows) (tx : Store) :
    Except WriteError Store := do
  let next ← writeSharedRows shared tx
  let upserted := upsertTokens shared.data tx.tokens
  .ok { next with
    tokens := applyDeltas (remainingDeltas shared upserted.2) (seedTokensFrom counted upserted.2 upserted.1) }

def Ledger.insertBlockDataBatch (partitionOf : Nat → Nat) (data : BlockData) (ledger : Ledger) :
    Except WriteError Ledger := do
  match ← beginBlockData partitionOf data ledger.store with
  | .stored => .ok ledger
  | .opened write =>
    let store ← writeSharedRowsFrom (ledger.tokenCounted write.tx.tokenTransfers)
      { data := write.data, blocks := write.deltaBlocks, txs := write.deltaTxs, transfers := write.deltaTransfers,
        tokenDeltas := write.tokenDeltas, seedCountsOwnRows := true } write.tx
    .ok { ledger with store := store }

def Ledger.insertBlock (partitionOf : Nat → Nat) (block : Block) (ledger : Ledger) : Except WriteError Ledger := do
  let store ← Db.insertBlock partitionOf block ledger.store
  .ok { ledger with store := store }

/-! ## The revert -/

/-- Where an address with no row left was last seen: the newest closed span that holds it, and the open span. -/
def Ledger.lastSeen (ledger : Ledger) (address : String) : Option Nat :=
  let spans := (ledger.spans.insertionSort fun first second => second.lo ≤ first.lo).filterMap fun span =>
    (span.rows.addresses.lookup address).map (·.lastSeen)
  (spans.head?.toList ++ ((ledger.staged.addresses.lookup address).map (·.lastSeen)).toList).max?

def Ledger.revertAddressStats (ledger : Ledger) (number : Nat) (row : AddressStatsRow) : Option AddressStatsRow :=
  (Db.revertAddressStats ledger.store number row).map fun reverted =>
    let touched := (ledgerAddressContributions ledger.store number (number + 1)).any fun contribution =>
      contribution.address = row.address
    if touched ∧ (seenElsewhere ledger.store number row.address).isEmpty ∧ number ≤ row.lastSeen then
      { reverted with lastSeen := (ledger.lastSeen row.address).getD row.lastSeen }
    else reverted

def Ledger.deleteBlock (keccak256 : Bytes → Hash) (number : Nat) (ledger : Ledger) : Ledger :=
  { ledger with
    store :=
      { Db.deleteBlock keccak256 number ledger.store with
        addressStats := ledger.store.addressStats.filterMap (ledger.revertAddressStats number) } }

/-! ## The stats backfill -/

structure BatchSpan where
  lo : Nat
  hi : Nat
  totals : SpanTotals

structure TokenSeen where
  block : Nat
  tx : String
  deriving DecidableEq, Repr

structure BackfillBatch where
  first : Nat
  past : Nat
  shared : BlockData := {}
  contracts : List Contract := []
  spans : List BatchSpan := []
  tokenFirstSeen : AList (fun _ : String => TokenSeen) := ∅

def spanOf (spanBlocks target number : Nat) : Nat × Nat :=
  (number - number % spanBlocks, min (number - number % spanBlocks + spanBlocks) (target + 1))

/-- The block's totals join its span's; a span met first is added. Blocks come in ascending order, so the spans are in
the order of their starts. -/
def addToSpan (spanBlocks target number : Nat) (data : BlockData) (spans : List BatchSpan) :
    Except WriteError (List BatchSpan) :=
  let bounds := spanOf spanBlocks target number
  match spans.find? fun span => span.lo = bounds.1 with
  | none => do
    let totals ← ({} : SpanTotals).addBlock data
    .ok (spans ++ [⟨bounds.1, bounds.2, totals⟩])
  | some span => do
    let totals ← span.totals.addBlock data
    .ok (updateKey (·.lo) bounds.1 (fun span => { span with totals := totals }) spans)

def mergeAddressDelta (merged : AList fun _ : String => AddressStatsDelta)
    (entry : Sigma fun _ : String => AddressStatsDelta) : AList fun _ : String => AddressStatsDelta :=
  let delta := entry.2
  let held := (merged.lookup entry.1).getD { address := entry.1, blockNumber := delta.blockNumber }
  merged.insert entry.1
    { held with
      txCountDelta := held.txCountDelta + delta.txCountDelta
      internalTxCountDelta := held.internalTxCountDelta + delta.internalTxCountDelta
      tokenTransferDelta := held.tokenTransferDelta + delta.tokenTransferDelta
      sentDelta := held.sentDelta + delta.sentDelta
      isContract := held.isContract || delta.isContract
      blockNumber := min held.blockNumber delta.blockNumber
      lastBlock := max held.lastBlock delta.blockNumber }

def noteTokenSeen (seen : AList fun _ : String => TokenSeen) (transfer : TokenTransfer) :
    AList fun _ : String => TokenSeen :=
  match seen.lookup (lower transfer.tokenAddress) with
  | some _ => seen
  | none => seen.insert (lower transfer.tokenAddress) ⟨transfer.blockNumber, transfer.txHash⟩

def mergeShared (batch : BackfillBatch) (data : BlockData) : BackfillBatch :=
  { batch with
    shared := { batch.shared with
      tokens := batch.shared.tokens ++ data.tokens
      nftTokens := batch.shared.nftTokens ++ data.nftTokens
      addressStats := data.addressStats.entries.foldl mergeAddressDelta batch.shared.addressStats }
    contracts := batch.contracts ++ data.contracts
    tokenFirstSeen := data.transfers.foldl noteTokenSeen batch.tokenFirstSeen }

def addBlock (spanBlocks target : Nat) (batch : BackfillBatch) (entry : BlockData × Nat) :
    Except WriteError BackfillBatch := do
  let spans ← addToSpan spanBlocks target entry.2 entry.1 batch.spans
  .ok { mergeShared batch entry.1 with spans := spans }

def backfillBatch (spanBlocks target first : Nat) (blocks : List BlockData) : Except WriteError BackfillBatch :=
  (blocks.zipIdx first).foldlM (addBlock spanBlocks target) { first := first, past := first + blocks.length }

def lowerTokenCreation (seen : AList fun _ : String => TokenSeen) (tokens : List TokenRow) : List TokenRow :=
  tokens.map fun row =>
    match seen.lookup row.address with
    | none => row
    | some seen =>
      if seen.block < row.blockNumber then { row with blockNumber := seen.block, creationTx := some seen.tx } else row

structure Staging where
  spans : List LedgerSpan
  stage : AList fun _ : Nat => SpanTotals
  spanLo : Option Nat

def stageSpan (past : Nat) (staging : Staging) (span : BatchSpan) : Staging :=
  let totals := ((staging.stage.lookup span.lo).getD {}).add span.totals
  if span.hi ≤ past then
    { staging with
      spans := staging.spans ++ [⟨span.lo, span.hi, .node, .unchecked, totals⟩]
      stage := staging.stage.erase span.lo }
  else { staging with stage := staging.stage.insert span.lo totals, spanLo := some span.lo }

def batchTotals (spans : List BatchSpan) : SpanTotals :=
  spans.foldl (fun totals span => totals.add span.totals) {}

def Ledger.commitBackfillBatch (ledger : Ledger) (batch : BackfillBatch) : Option Ledger := do
  let state ← ledger.backfill
  if state.through + 1 ≠ batch.first ∨ (state.target : Int) < batch.past - 1 then none
  else
    let totals := batchTotals batch.spans
    let store ← (writeSharedRowsFrom (ledger.tokenCounted ledger.store.tokenTransfers)
      { data := batch.shared, blocks := totals.blocks, txs := totals.transactions, transfers := totals.transfers,
        tokenDeltas := totals.tokens, seedCountsOwnRows := false }
      { ledger.store with contracts := insertContracts batch.contracts ledger.store.contracts }).toOption
    let staging := batch.spans.foldl (stageSpan batch.past) ⟨ledger.spans, ledger.stage, none⟩
    some { ledger with
      store := { store with tokens := lowerTokenCreation batch.tokenFirstSeen store.tokens }
      spans := staging.spans
      stage := staging.stage
      backfill := some { state with through := batch.past - 1, spanLo := staging.spanLo } }

def Ledger.backfillStep (ledger : Ledger) (config : LedgerConfig) (block : BlockData) (rest : List BlockData) :
    Option Ledger := do
  let state ← ledger.backfill
  if config.spanBlocks = 0 then none
  else
    let batch ← (backfillBatch config.spanBlocks state.target (state.through + 1).toNat (block :: rest)).toOption
    ledger.commitBackfillBatch batch

end OpsIndexer.Db
