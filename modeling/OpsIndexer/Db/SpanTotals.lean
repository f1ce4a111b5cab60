import OpsIndexer.Db.Counters
import OpsIndexer.Lib.Tally

/-!
# What a span of blocks adds up to

`internal/db/span_totals.go` and `ledger_stage_from_rows`: the chain, token and address totals of a span, summed from
the blocks' own data as they are built or counted in one pass over the rows they left. The ledger and the stage tables
hold one entry for each token and address, so a span's rows are one record.
-/

namespace OpsIndexer.Db

open Eth OpsIndexer.Types Lib.Table Lib.Tally List

structure SpanAddress where
  txs : Nat
  sent : Nat
  internal : Nat
  transfers : Nat
  firstSeen : Nat
  lastSeen : Nat
  deriving DecidableEq, Repr

structure SpanTotals where
  blocks : Nat := 0
  transactions : Nat := 0
  transfers : Nat := 0
  tokens : TokenDeltas := ∅
  addresses : AList (fun _ : String => SpanAddress) := ∅

def addSpanAddress (addresses : AList fun _ : String => SpanAddress) (entry : Sigma fun _ : String => AddressStatsDelta) :
    AList fun _ : String => SpanAddress :=
  let delta := entry.2
  let held := (addresses.lookup entry.1).getD ⟨0, 0, 0, 0, delta.blockNumber, delta.blockNumber⟩
  addresses.insert entry.1
    { txs := held.txs + delta.txCountDelta
      sent := held.sent + delta.sentDelta
      internal := held.internal + delta.internalTxCountDelta
      transfers := held.transfers + delta.tokenTransferDelta
      firstSeen := min held.firstSeen delta.blockNumber
      lastSeen := max held.lastSeen delta.blockNumber }

/-- `AddBlock`. The transfers are collected as a block write collects those that landed. -/
def SpanTotals.addBlock (totals : SpanTotals) (data : BlockData) : Except WriteError SpanTotals := do
  let tokens ← data.transfers.foldlM addTransfer totals.tokens
  .ok
    { blocks := totals.blocks + (if data.block.isSome then 1 else 0)
      transactions := totals.transactions + data.transactions.length
      transfers := totals.transfers + data.transfers.length
      tokens := tokens
      addresses := data.addressStats.entries.foldl addSpanAddress totals.addresses }

/-! ## Sums of spans -/

def mergeSpanAddress (first second : Option SpanAddress) : SpanAddress :=
  match first, second with
  | none, none => ⟨0, 0, 0, 0, 0, 0⟩
  | some held, none => held
  | none, some held => held
  | some held, some other =>
    ⟨held.txs + other.txs, held.sent + other.sent, held.internal + other.internal, held.transfers + other.transfers,
      min held.firstSeen other.firstSeen, max held.lastSeen other.lastSeen⟩

def SpanTotals.add (first second : SpanTotals) : SpanTotals where
  blocks := first.blocks + second.blocks
  transactions := first.transactions + second.transactions
  transfers := first.transfers + second.transfers
  tokens := groupBy (first.tokens.keys ++ second.tokens.keys) fun token =>
    { transferDelta := (deltaOf first.tokens token).transferDelta + (deltaOf second.tokens token).transferDelta
      supplyDelta := (deltaOf first.tokens token).supplyDelta + (deltaOf second.tokens token).supplyDelta }
  addresses := groupBy (first.addresses.keys ++ second.addresses.keys) fun address =>
    mergeSpanAddress (first.addresses.lookup address) (second.addresses.lookup address)

/-! ## Counted from the rows -/

structure StageRow where
  address : String
  txs : Nat
  sent : Nat
  internal : Nat
  transfers : Nat
  block : Nat
  deriving DecidableEq, Repr

/-- `array_agg(DISTINCT p.address)` over a transaction's transfers, the zero address left out. -/
def participants (transfers : List TransferRow) (hash : String) : List String :=
  (((transfers.filter fun row => row.txHash = hash).flatMap fun row => [row.fromAddress, row.toAddress]).filter
    fun address => address ≠ zeroAddress).dedup

/-- A transaction counts once for its sender, its recipient and each participant of its transfers. -/
def stageTransaction (transfers : List TransferRow) (row : TransactionRow) : List StageRow :=
  ⟨row.fromAddress, 1, if 0 ≤ row.txType ∧ row.txType ≤ 4 then 1 else 0, 0, 0, row.blockNumber⟩ ::
    ((row.toAddress.toList.filter fun address => address ≠ row.fromAddress).map fun address =>
      ⟨address, 1, 0, 0, 0, row.blockNumber⟩) ++
    (((participants transfers row.hash).filter fun address =>
      address ≠ row.fromAddress ∧ some address ≠ row.toAddress).map fun address =>
        ⟨address, 1, 0, 0, 0, row.blockNumber⟩)

def stageTransfer (row : TransferRow) : List StageRow :=
  (if row.fromAddress ≠ zeroAddress then [⟨row.fromAddress, 0, 0, 0, 1, row.blockNumber⟩] else []) ++
    (if row.toAddress ≠ zeroAddress ∧ row.toAddress ≠ row.fromAddress then
      [⟨row.toAddress, 0, 0, 0, 1, row.blockNumber⟩] else [])

def stageInternal (row : InternalTransaction) : List StageRow :=
  ⟨row.fromAddress, 0, 0, 1, 0, row.blockNumber⟩ ::
    (row.toAddress.toList.filter fun address => address ≠ row.fromAddress).map fun address =>
      ⟨address, 0, 0, 1, 0, row.blockNumber⟩

def stageContract (row : Contract) : List StageRow :=
  [⟨row.address, 0, 0, 0, 0, row.blockNumber⟩]

def spanTransfers (store : Store) (lo hi : Nat) : List TransferRow :=
  store.tokenTransfers.filter fun row => inSpan lo hi row.blockNumber

def stageRows (store : Store) (lo hi : Nat) : List StageRow :=
  (store.transactions.filter fun row => inSpan lo hi row.blockNumber).flatMap
      (stageTransaction (spanTransfers store lo hi)) ++
    (spanTransfers store lo hi).flatMap stageTransfer ++
    (store.internalTransactions.filter fun row => inSpan lo hi row.blockNumber).flatMap stageInternal ++
    (store.contracts.filter fun row => inSpan lo hi row.blockNumber).flatMap stageContract

def stageAddress (rows : List StageRow) (address : String) : SpanAddress :=
  let own := rows.filter fun row => row.address = address
  { txs := (own.map (·.txs)).sum
    sent := (own.map (·.sent)).sum
    internal := (own.map (·.internal)).sum
    transfers := (own.map (·.transfers)).sum
    firstSeen := ((own.map (·.block)).min?).getD 0
    lastSeen := ((own.map (·.block)).max?).getD 0 }

def ledgerStageFromRows (store : Store) (lo hi : Nat) : SpanTotals where
  blocks := (store.blocks.filter fun row => inSpan lo hi row.number).length
  transactions := (store.transactions.filter fun row => inSpan lo hi row.blockNumber).length
  transfers := (spanTransfers store lo hi).length
  tokens := groupBy ((spanTransfers store lo hi).map (·.tokenAddress)) fun token =>
    { transferDelta := (transfersOf (spanTransfers store lo hi) token).length
      supplyDelta := netSupply (transfersOf (spanTransfers store lo hi) token) }
  addresses := groupBy ((stageRows store lo hi).map (·.address)) (stageAddress (stageRows store lo hi))

/-! ## Counters and what they count -/

inductive CountedRow where
  | block
  | transaction
  | transfer (token : String)
  deriving DecidableEq, Repr

inductive LedgerCounter where
  | blocks
  | transactions
  | transfers
  | token (address : String)
  deriving DecidableEq, Repr

def LedgerCounter.counts : LedgerCounter → CountedRow → Bool
  | .blocks, .block => true
  | .transactions, .transaction => true
  | .transfers, .transfer _ => true
  | .token address, .transfer moved => moved = address
  | _, _ => false

def SpanTotals.count (totals : SpanTotals) : LedgerCounter → Int
  | .blocks => totals.blocks
  | .transactions => totals.transactions
  | .transfers => totals.transfers
  | .token address => (deltaOf totals.tokens address).transferDelta

def rowItems (blocks : List Block) (transactions : List TransactionRow) (transfers : List TransferRow) :
    List (Nat × CountedRow) :=
  blocks.map (fun row => (row.number, .block)) ++ transactions.map (fun row => (row.blockNumber, .transaction)) ++
    transfers.map (fun row => (row.blockNumber, .transfer row.tokenAddress))

def storeItems (store : Store) : List (Nat × CountedRow) :=
  rowItems store.blocks store.transactions store.tokenTransfers

def blockItems (number : Nat) (data : BlockData) : List (Nat × CountedRow) :=
  data.block.toList.map (fun _ => (number, .block)) ++ data.transactions.map (fun _ => (number, .transaction)) ++
    data.transfers.map (fun transfer => (number, .transfer (lower transfer.tokenAddress)))

theorem count_empty (counter : LedgerCounter) : ({} : SpanTotals).count counter = 0 := by
  cases counter <;> rfl

/-! ### The counts of the three ways to a span's totals -/

theorem count_add (first second : SpanTotals) (counter : LedgerCounter) :
    (first.add second).count counter = first.count counter + second.count counter := by
  cases counter with
  | blocks => exact Nat.cast_add _ _
  | transactions => exact Nat.cast_add _ _
  | transfers => exact Nat.cast_add _ _
  | token address =>
    have grouped : deltaOf (first.add second).tokens address =
        if address ∈ first.tokens.keys ++ second.tokens.keys then
          { transferDelta := (deltaOf first.tokens address).transferDelta + (deltaOf second.tokens address).transferDelta
            supplyDelta := (deltaOf first.tokens address).supplyDelta + (deltaOf second.tokens address).supplyDelta }
        else {} := by
      rw [deltaOf, SpanTotals.add, lookup_groupBy]
      split <;> rfl
    simp only [SpanTotals.count, grouped]
    split
    · rfl
    · next absent =>
      rw [mem_append, not_or] at absent
      have missing (deltas : TokenDeltas) (out : address ∉ deltas.keys) : deltaOf deltas address = {} := by
        rw [deltaOf, AList.lookup_eq_none.mpr out, Option.getD_none]
      rw [missing _ absent.1, missing _ absent.2]
      rfl

theorem count_foldl_add {α : Type} (totals : α → SpanTotals) (parts : List α) (counter : LedgerCounter) :
    (parts.foldl (fun (sum : SpanTotals) part => sum.add (totals part)) {}).count counter =
      (parts.map fun part => (totals part).count counter).sum := by
  have run (start : SpanTotals) : (parts.foldl (fun (sum : SpanTotals) part => sum.add (totals part)) start).count counter =
      start.count counter + (parts.map fun part => (totals part).count counter).sum := by
    induction parts generalizing start with
    | nil => simp
    | cons part rest ih =>
      rw [foldl_cons, ih, count_add, map_cons, sum_cons]
      omega
  rw [run, count_empty, zero_add]

theorem foldlM_addTransfer_count (transfers : List TokenTransfer) (deltas next : TokenDeltas) (token : String)
    (done : transfers.foldlM addTransfer deltas = .ok next) :
    (deltaOf next token).transferDelta = (deltaOf deltas token).transferDelta +
      (transfers.filter fun transfer => lower transfer.tokenAddress = token).length := by
  induction transfers generalizing deltas with
  | nil =>
    cases done
    simp
  | cons transfer rest ih =>
    rw [foldlM_cons] at done
    obtain ⟨middle, first, others⟩ := bind_eq_ok.mp done
    obtain ⟨supply, _, rfl⟩ := addTransfer_ok first
    have step := ih _ others
    by_cases own : lower transfer.tokenAddress = token
    · subst own
      rw [deltaOf_insert_self] at step
      rw [step, filter_cons_of_pos (by simp), length_cons]
      push_cast
      omega
    · rw [deltaOf_insert_ne _ _ _ _ (Ne.symm own)] at step
      rw [step, filter_cons_of_neg (by simpa using own)]

theorem addBlock_count {totals next : SpanTotals} {data : BlockData} (number : Nat)
    (done : totals.addBlock data = .ok next) (counter : LedgerCounter) :
    next.count counter = totals.count counter + tally counter.counts anywhere (blockItems number data) := by
  unfold SpanTotals.addBlock at done
  obtain ⟨tokens, collected, done⟩ := bind_eq_ok.mp done
  cases done
  simp only [blockItems, tally_append, tally_map _ _ (fun _ => number)]
  cases counter with
  | blocks => cases data.block <;> simp [SpanTotals.count, LedgerCounter.counts, anywhere]
  | transactions => simp [SpanTotals.count, LedgerCounter.counts, anywhere]
  | transfers => simp [SpanTotals.count, LedgerCounter.counts, anywhere]
  | token address =>
    have moved := foldlM_addTransfer_count data.transfers totals.tokens tokens address collected
    simp [SpanTotals.count, LedgerCounter.counts, anywhere, moved]

theorem ledgerStageFromRows_count (store : Store) (lo hi : Nat) (counter : LedgerCounter) :
    (ledgerStageFromRows store lo hi).count counter = tally counter.counts (within (lo, hi)) (storeItems store) := by
  have same : within (lo, hi) = inSpan lo hi := rfl
  simp only [storeItems, rowItems, tally_append, tally_map, same]
  cases counter with
  | blocks => simp [SpanTotals.count, ledgerStageFromRows, LedgerCounter.counts]
  | transactions => simp [SpanTotals.count, ledgerStageFromRows, LedgerCounter.counts]
  | transfers => simp [SpanTotals.count, ledgerStageFromRows, LedgerCounter.counts, spanTransfers]
  | token address =>
    have own : transfersOf (spanTransfers store lo hi) address =
        store.tokenTransfers.filter fun row => inSpan lo hi row.blockNumber && decide (row.tokenAddress = address) := by
      rw [transfersOf, spanTransfers, filter_filter]
      congr 1
      funext row
      exact Bool.and_comm _ _
    have grouped : (deltaOf (ledgerStageFromRows store lo hi).tokens address).transferDelta =
        ((transfersOf (spanTransfers store lo hi) address).length : Int) := by
      rw [deltaOf, ledgerStageFromRows, lookup_groupBy]
      split
      · rfl
      · next absent =>
        have none : transfersOf (spanTransfers store lo hi) address = [] := by
          rw [transfersOf, filter_eq_nil_iff]
          intro row member named
          exact absent (mem_map.mpr ⟨row, member, by simpa using named⟩)
        rw [none]
        rfl
    simp only [SpanTotals.count, grouped, own]
    simp [LedgerCounter.counts]

end OpsIndexer.Db
