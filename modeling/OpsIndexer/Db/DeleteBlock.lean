import OpsIndexer.Db.SharedRows

/-!
# Reverting a block

`DeleteBlockLocked` with what it calls, and `ledger_address_contributions`, which says what a span's rows add to an
address. Every counter is taken back from the rows that are about to go, and the rows go last. With no closed ledger
span, the newest closed span's `last_seen` is always absent.
-/

namespace OpsIndexer.Db

open Eth OpsIndexer.Types Lib.Table

/-! ## What a span's rows contribute to an address -/

structure Contribution where
  address : String
  tx : Option String
  block : Nat
  sent : Nat
  internal : Nat
  transfers : Nat
  deriving DecidableEq, Repr

def inSpan (lo hi block : Nat) : Bool :=
  lo ≤ block && block < hi

def transactionContributions (row : TransactionRow) : List Contribution :=
  ⟨row.fromAddress, some row.hash, row.blockNumber, if 0 ≤ row.txType ∧ row.txType ≤ 4 then 1 else 0, 0, 0⟩ ::
    row.toAddress.toList.map fun address => ⟨address, some row.hash, row.blockNumber, 0, 0, 0⟩

def transferContributions (row : TransferRow) : List Contribution :=
  (if row.fromAddress ≠ zeroAddress then
    [⟨row.fromAddress, some row.txHash, row.blockNumber, 0, 0, 1⟩] else []) ++
  (if row.toAddress ≠ zeroAddress ∧ row.toAddress ≠ row.fromAddress then
    [⟨row.toAddress, some row.txHash, row.blockNumber, 0, 0, 1⟩] else [])

def internalContributions (row : InternalTransaction) : List Contribution :=
  ⟨row.fromAddress, none, row.blockNumber, 0, 1, 0⟩ ::
    (row.toAddress.toList.filter fun address => address ≠ row.fromAddress).map fun address =>
      ⟨address, none, row.blockNumber, 0, 1, 0⟩

def contractContributions (row : Contract) : List Contribution :=
  [⟨row.address, none, row.blockNumber, 0, 0, 0⟩]

def ledgerAddressContributions (store : Store) (lo hi : Nat) : List Contribution :=
  (store.transactions.filter fun row => inSpan lo hi row.blockNumber).flatMap transactionContributions ++
  (store.tokenTransfers.filter fun row => inSpan lo hi row.blockNumber).flatMap transferContributions ++
  (store.internalTransactions.filter fun row => inSpan lo hi row.blockNumber).flatMap internalContributions ++
  (store.contracts.filter fun row => inSpan lo hi row.blockNumber).flatMap contractContributions

structure AddressTotals where
  txs : Nat
  sent : Nat
  internal : Nat
  transfers : Nat
  deriving DecidableEq, Repr

def addressTotals (contributions : List Contribution) (address : String) : AddressTotals :=
  let rows := contributions.filter fun row => row.address = address
  { txs := (rows.filterMap (·.tx)).dedup.length
    sent := (rows.map (·.sent)).sum
    internal := (rows.map (·.internal)).sum
    transfers := (rows.map (·.transfers)).sum }

/-! ## The revert, table by table -/

def revertToken (doomed : List TransferRow) (row : TokenRow) : TokenRow :=
  { row with
    transferCount := max (row.transferCount - doomed.length) 0
    totalSupply :=
      if row.tokenType = .erc20 then some (clampSupply (row.totalSupply.getD 0 - netSupply doomed))
      else row.totalSupply }

def revertTokens (doomed : List TransferRow) (tokens : List TokenRow) : List TokenRow :=
  updateKeys (·.address)
    ((doomed.map (·.tokenAddress)).dedup.map fun token => (token, revertToken (transfersOf doomed token))) tokens

/-- `ORDER BY block_number DESC, log_index DESC LIMIT 1`. -/
def latestTransfer (rows : List TransferRow) : Option TransferRow :=
  rows.foldl (fun best row => match best with
    | none => some row
    | some best =>
      if best.blockNumber < row.blockNumber ∨ best.blockNumber = row.blockNumber ∧ best.logIndex < row.logIndex
      then some row else some best) none

/-- `ORDER BY log_index LIMIT 1`. -/
def earliestTransfer (rows : List TransferRow) : Option TransferRow :=
  rows.foldl (fun best row => match best with
    | none => some row
    | some best => if row.logIndex < best.logIndex then some row else some best) none

/-- One row of `nft_tokens` at or above the block: back to its latest transfer in another block, or, with none, to
the sender of its first transfer in the block; a token minted in the block loses its row. -/
def revertNFTToken (keccak256 : Bytes → Hash) (transfers : List TransferRow) (number : Nat) (row : NFTTokenRow) :
    Option NFTTokenRow :=
  if (number : Int) ≤ row.blockNumber then
    let moves := transfers.filter fun transfer =>
      transfer.tokenAddress = lower row.tokenAddress && transfer.tokenId = some row.tokenId &&
        transfer.tokenType = .erc721
    match latestTransfer (moves.filter fun transfer => transfer.blockNumber ≠ number) with
    | some transfer =>
      some { row with
        owner := Address.hex keccak256 (hexToAddress transfer.toAddress), blockNumber := transfer.blockNumber }
    | none =>
      match earliestTransfer (moves.filter fun transfer => transfer.blockNumber = number) with
      | none => some { row with blockNumber := (number : Int) - 1 }
      | some transfer =>
        if transfer.fromAddress = zeroAddress then none
        else some { row with
          owner := Address.hex keccak256 (hexToAddress transfer.fromAddress), blockNumber := (number : Int) - 1 }
  else some row

def seenElsewhere (store : Store) (number : Nat) (address : String) : List Nat :=
  ((store.transactions.filter fun row => row.fromAddress = address || row.toAddress = some address).map
      (·.blockNumber) ++
    (store.tokenTransfers.filter fun row =>
      address ≠ zeroAddress && (row.fromAddress = address || row.toAddress = address)).map (·.blockNumber) ++
    (store.internalTransactions.filter fun row =>
      row.fromAddress = address || row.toAddress = some address).map (·.blockNumber) ++
    (store.contracts.filter fun row => row.address = address).map (·.blockNumber)).filter fun block => block ≠ number

def subtractAddressStats (store : Store) (number : Nat) (totals : AddressTotals) (row : AddressStatsRow) :
    AddressStatsRow :=
  let seen := seenElsewhere store number row.address
  { row with
    txCount := max (row.txCount - totals.txs) 0
    sentCount := max (row.sentCount - totals.sent) 0
    internalTxCount := max (row.internalTxCount - totals.internal) 0
    tokenTransferCount := max (row.tokenTransferCount - totals.transfers) 0
    firstSeen := if number ≤ row.firstSeen then seen.min?.getD row.firstSeen else row.firstSeen
    lastSeen := if number ≤ row.lastSeen then seen.max?.getD row.lastSeen else row.lastSeen
    isContract :=
      if store.contracts.any (fun contract => contract.address = row.address && contract.blockNumber = number) then
        store.contracts.any fun contract => contract.address = row.address && contract.blockNumber ≠ number
      else row.isContract }

def revertAddressStats (store : Store) (number : Nat) (row : AddressStatsRow) : Option AddressStatsRow :=
  let contributions := ledgerAddressContributions store number (number + 1)
  if contributions.any (fun contribution => contribution.address = row.address) then
    if (seenElsewhere store number row.address).isEmpty && number ≤ row.firstSeen then none
    else some (subtractAddressStats store number (addressTotals contributions row.address) row)
  else some row

/-- `SET count = GREATEST(count + EXCLUDED.count, 0)`; a row that is not there is inserted as it is. -/
def revertCounter (counters : ChainCounters) (entry : CounterName × Int) : ChainCounters :=
  counters.insert entry.1 (match counters.lookup entry.1 with
    | some count => max (count + entry.2) 0
    | none => entry.2)

def revertCounters (counters : ChainCounters) (blocks txs transfers forgotten : Nat) : ChainCounters :=
  if blocks ≠ 0 ∨ txs ≠ 0 ∨ transfers ≠ 0 ∨ forgotten ≠ 0 then
    [(.blocksTotal, -(blocks : Int)), (.transactionsTotal, -(txs : Int)), (.transfersTotal, -(transfers : Int)),
      (.addressesTotal, -(forgotten : Int))].foldl revertCounter counters
  else counters

def deleteBlock (keccak256 : Bytes → Hash) (number : Nat) (store : Store) : Store :=
  let doomed := store.tokenTransfers.filter fun row => row.blockNumber = number
  let addressStats := store.addressStats.filterMap (revertAddressStats store number)
  let forgotten := store.addressStats.length - addressStats.length
  let revertedTxs := (store.transactions.filter fun row => row.blockNumber = number).length
  let revertedBlocks := if store.blocks.any (fun row => row.number = number) then 1 else 0
  { blocks := store.blocks.filter fun row => row.number ≠ number
    transactions := store.transactions.filter fun row => row.blockNumber ≠ number
    logs := store.logs.filter fun row => row.blockNumber ≠ number
    tokenTransfers := store.tokenTransfers.filter fun row => row.blockNumber ≠ number
    internalTransactions := store.internalTransactions.filter fun row => row.blockNumber ≠ number
    contracts := store.contracts.filter fun row => row.blockNumber ≠ number
    tokens := revertTokens doomed store.tokens
    nftTokens := store.nftTokens.filterMap (revertNFTToken keccak256 store.tokenTransfers number)
    addressStats := addressStats
    chainCounters :=
      revertCounters (addCounter store.chainCounters (.addressStatsReverts, 1)) revertedBlocks revertedTxs
        doomed.length forgotten }

end OpsIndexer.Db
