import OpsIndexer.Db.Store

/-!
# Writing a block

`internal/db/batch.go` and `InsertBlock`. A write is two transactions' worth of statements in one: `beginBlockData`
puts in the rows the block owns, `finish` the rows blocks share, and only a finished write is kept. Statements that a
source batch sends in sorted order touch one row each, so here they run in the order of the list.
-/

namespace OpsIndexer.Db

open Eth OpsIndexer.Types Lib.Table

structure AddressStatsDelta where
  address : String
  txCountDelta : Nat := 0
  internalTxCountDelta : Nat := 0
  tokenTransferDelta : Nat := 0
  sentDelta : Nat := 0
  isContract : Bool := false
  lastBlock : Nat := 0
  blockNumber : Nat
  deriving DecidableEq, Repr

structure BlockData where
  block : Option Block := none
  transactions : List Transaction := []
  logs : List Log := []
  transfers : List TokenTransfer := []
  contracts : List Contract := []
  tokens : List Token := []
  nftTokens : List NFTToken := []
  internalTransactions : List InternalTransaction := []
  addressStats : AList (fun _ : String => AddressStatsDelta) := ∅
  skipAddressStats : Bool := false

structure TokenStatsDelta where
  transferDelta : Int := 0
  supplyDelta : Int := 0
  deriving DecidableEq, Repr

abbrev TokenDeltas := AList (fun _ : String => TokenStatsDelta)

structure OpenWrite where
  tx : Store
  data : BlockData
  deltaBlocks : Nat
  deltaTxs : Nat
  deltaTransfers : Nat
  tokenDeltas : TokenDeltas

inductive BlockWrite where
  | stored
  | opened (write : OpenWrite)

def refuseUnless (column : Column) (accepted : Bool) : Except WriteError Unit :=
  if accepted then .ok () else .error (.outOfDomain column)

def checkRow (cells : List (Column × Bool)) : Except WriteError Unit :=
  cells.forM fun cell => refuseUnless cell.1 cell.2

/-! ## The rows a block owns -/

def checkBlock (block : Block) : Except WriteError Unit :=
  checkRow
    [(.blocksNumber, bigint block.number), (.blocksTimestamp, bigint block.timestamp),
      (.blocksGasUsed, bigint block.gasUsed), (.blocksGasLimit, bigint block.gasLimit),
      (.blocksBaseFeePerGas, block.baseFeePerGas.all bigint),
      (.blocksTransactionCount, integer block.transactionCount), (.blocksSize, bigint block.size)]

def blockConflicts (partitionOf : Nat → Nat) (written row : Block) : Bool :=
  row.number = written.number ||
    (row.hash = written.hash && partitionOf row.number = partitionOf written.number)

def storedBlockDiffers (store : Store) (block : Block) : Except WriteError Unit :=
  match store.blocks.find? (fun row => row.number = block.number) with
  | none => .ok ()
  | some row =>
    if lower row.hash = lower block.hash then .ok ()
    else .error (.storedBlockDiffers block.number row.hash block.hash)

def isEmptyCalldata (input : String) : Bool :=
  input = "" || input = "0x" || input = "0X"

def hasMethodSelector (input : String) : Bool :=
  10 ≤ input.length

def categoryCoinTransfer : Nat := 1
def categoryContractCreation : Nat := 2
def categoryContractCall : Nat := 4
def categoryTokenTransfer : Nat := 8

def computeTxCategories (tx : Transaction) (hasTokenTransfer : Bool) : Nat :=
  (if tx.value ≠ .decimal 0 && isEmptyCalldata tx.inputData then categoryCoinTransfer else 0) |||
  (if tx.toAddress.isNone && tx.status = 1 then categoryContractCreation else 0) |||
  (if tx.toAddress.isSome && hasMethodSelector tx.inputData then categoryContractCall else 0) |||
  (if hasTokenTransfer then categoryTokenTransfer else 0)

def transactionRow (data : BlockData) (tx : Transaction) : TransactionRow where
  hash := tx.hash
  blockNumber := tx.blockNumber
  blockTimestamp := data.block.map (·.timestamp)
  txIndex := tx.txIndex
  fromAddress := lower tx.fromAddress
  toAddress := tx.toAddress.map lower
  value := (numeric78 tx.value).getD 0
  gasUsed := tx.gasUsed
  gasPrice := tx.gasPrice
  gasLimit := tx.gasLimit
  maxFeePerGas := tx.maxFeePerGas
  maxPriorityFeePerGas := tx.maxPriorityFeePerGas
  nonce := tx.nonce
  txType := tx.txType
  inputData := tx.inputData
  status := tx.status
  error := tx.error
  categories := computeTxCategories tx (data.transfers.any fun transfer => transfer.txHash = tx.hash)

def checkTransaction (tx : Transaction) : Except WriteError Unit :=
  checkRow
    [(.transactionsBlockNumber, bigint tx.blockNumber), (.transactionsTxIndex, integer tx.txIndex),
      (.transactionsValue, (numeric78 tx.value).isSome), (.transactionsGasUsed, bigint tx.gasUsed),
      (.transactionsGasPrice, bigint tx.gasPrice), (.transactionsGasLimit, tx.gasLimit.all bigint),
      (.transactionsMaxFeePerGas, tx.maxFeePerGas.all bigint),
      (.transactionsMaxPriorityFeePerGas, tx.maxPriorityFeePerGas.all bigint),
      (.transactionsNonce, tx.nonce.all bigint), (.transactionsTxType, smallint tx.txType),
      (.transactionsStatus, smallint tx.status)]

def transactionConflicts (partitionOf : Nat → Nat) (written row : TransactionRow) : Bool :=
  row.hash = written.hash && partitionOf row.blockNumber = partitionOf written.blockNumber

def logRow (log : Log) : Log :=
  { log with address := lower log.address }

def checkLog (log : Log) : Except WriteError Unit :=
  checkRow
    [(.logsLogIndex, integer log.logIndex), (.logsBlockNumber, bigint log.blockNumber),
      (.logsTimestamp, log.timestamp.all bigint)]

def logConflicts (written row : Log) : Bool :=
  row.blockNumber = written.blockNumber && row.logIndex = written.logIndex

def transferRow (transfer : TokenTransfer) : TransferRow where
  txHash := transfer.txHash
  logIndex := transfer.logIndex
  tokenAddress := lower transfer.tokenAddress
  fromAddress := lower transfer.fromAddress
  toAddress := lower transfer.toAddress
  value := (numeric78 transfer.value).getD 0
  blockNumber := transfer.blockNumber
  timestamp := transfer.timestamp
  transferType := transfer.transferType
  tokenType := transfer.tokenType
  tokenId := transfer.tokenId
  isInternal := transfer.isInternal

def checkTransfer (transfer : TokenTransfer) : Except WriteError Unit :=
  checkRow
    [(.tokenTransfersLogIndex, integer transfer.logIndex), (.tokenTransfersValue, (numeric78 transfer.value).isSome),
      (.tokenTransfersBlockNumber, bigint transfer.blockNumber),
      (.tokenTransfersTimestamp, transfer.timestamp.all bigint),
      (.tokenTransfersTokenId, transfer.tokenId.all fun id => id < 10 ^ 78)]

def transferConflicts (written row : TransferRow) : Bool :=
  row.blockNumber = written.blockNumber && row.logIndex = written.logIndex

def internalRow (frame : InternalTransaction) : InternalTransaction :=
  { frame with fromAddress := lower frame.fromAddress, toAddress := frame.toAddress.map lower }

/-- The index of the two addresses has the block number beside them. -/
def checkInternal (entry : List Bytes → Nat) (frame : InternalTransaction) : Except WriteError Unit :=
  checkRow
    [(.internalTransactionsBlockNumber, bigint frame.blockNumber),
      (.internalTransactionsFromAddress, withoutNul frame.fromAddress),
      (.internalTransactionsToAddress, frame.toAddress.all withoutNul),
      (.internalTransactionsValue, (numeric78 frame.value).isSome),
      (.internalTransactionsGas, frame.gas.all bigint), (.internalTransactionsGasUsed, frame.gasUsed.all bigint),
      (.internalTransactionsInput, frame.input.all withoutNul),
      (.internalTransactionsOutput, frame.output.all withoutNul),
      (.internalTransactionsError, frame.error.all withoutNul),
      (.internalTransactionsTimestamp, frame.timestamp.all bigint),
      (.internalTransactionsTraceKey, fitsIndex entry [utf8 frame.txHash, utf8 frame.traceAddress] 0),
      (.internalTransactionsFromIndex, fitsIndex entry [utf8 (lower frame.fromAddress)] 8),
      (.internalTransactionsToIndex, frame.toAddress.all fun address => fitsIndex entry [utf8 (lower address)] 8)]

def internalConflicts (partitionOf : Nat → Nat) (written row : InternalTransaction) : Bool :=
  row.txHash = written.txHash && row.traceAddress = written.traceAddress &&
    partitionOf row.blockNumber = partitionOf written.blockNumber

structure LogKey where
  block : Nat
  index : Nat
  txHash : String
  deriving DecidableEq, Repr

def checkLogConflicts (table : String) (stored conflicts : List LogKey) : Except WriteError Unit :=
  conflicts.forM fun conflict =>
    match stored.find? (fun key => key.block = conflict.block && key.index = conflict.index) with
    | none => .ok ()
    | some key =>
      if lower key.txHash = lower conflict.txHash then .ok ()
      else .error (.logIndexPerTransaction table conflict.block conflict.index key.txHash conflict.txHash)

/-- The signed supply a landed transfer adds to its token's delta. A text `SetString` refuses fails the write. -/
def transferSupply (transfer : TokenTransfer) : Except WriteError Int :=
  if transfer.tokenType = .erc20 then
    match transfer.value with
    | .text _ => .error (.invalidValue transfer.txHash transfer.logIndex)
    | .decimal value =>
      .ok ((if lower transfer.fromAddress = zeroAddress then value else 0) -
        (if lower transfer.toAddress = zeroAddress then value else 0))
  else .ok 0

def addTransfer (deltas : TokenDeltas) (transfer : TokenTransfer) : Except WriteError TokenDeltas := do
  let token := lower transfer.tokenAddress
  let delta := (deltas.lookup token).getD {}
  let supply ← transferSupply transfer
  .ok (deltas.insert token
    { transferDelta := delta.transferDelta + 1, supplyDelta := delta.supplyDelta + supply })

def writeOwnRows (partitionOf : Nat → Nat) (data : BlockData) (deltaBlocks : Nat) (tx : Store) :
    Except WriteError OpenWrite := do
  data.transactions.forM checkTransaction
  let newTransactions :=
    landed (transactionRow data) (transactionConflicts partitionOf) data.transactions tx.transactions
  data.logs.forM checkLog
  let logs := insertAll logRow logConflicts data.logs tx.logs
  checkLogConflicts "logs" (logs.map fun row => ⟨row.blockNumber, row.logIndex, row.txHash⟩)
    ((refused logRow logConflicts data.logs tx.logs).map fun row => ⟨row.blockNumber, row.logIndex, row.txHash⟩)
  data.transfers.forM checkTransfer
  let newTransfers := landed transferRow transferConflicts data.transfers tx.tokenTransfers
  let tokenDeltas ← newTransfers.foldlM addTransfer ∅
  let transfers := insertAll transferRow transferConflicts data.transfers tx.tokenTransfers
  checkLogConflicts "token_transfers" (transfers.map fun row => ⟨row.blockNumber, row.logIndex, row.txHash⟩)
    ((refused transferRow transferConflicts data.transfers tx.tokenTransfers).map fun row =>
      ⟨row.blockNumber, row.logIndex, row.txHash⟩)
  data.internalTransactions.forM (checkInternal tx.indexEntry)
  .ok
    { tx := { tx with
        transactions :=
          insertAll (transactionRow data) (transactionConflicts partitionOf) data.transactions tx.transactions
        logs := logs
        tokenTransfers := transfers
        internalTransactions :=
          insertAll internalRow (internalConflicts partitionOf) data.internalTransactions
            tx.internalTransactions }
      data := data
      deltaBlocks := deltaBlocks
      deltaTxs := newTransactions.length
      deltaTransfers := newTransfers.length
      tokenDeltas := tokenDeltas }

def beginBlockData (partitionOf : Nat → Nat) (data : BlockData) (store : Store) :
    Except WriteError BlockWrite :=
  match data.block with
  | none => (writeOwnRows partitionOf data 0 store).map .opened
  | some block => do
    checkBlock block
    if store.blocks.any (blockConflicts partitionOf block) then
      storedBlockDiffers store block
      .ok .stored
    else
      (writeOwnRows partitionOf data 1 { store with blocks := store.blocks ++ [block] }).map .opened

end OpsIndexer.Db
