import OpsIndexer.Rpc.RawBlock

/-!
# Receipts from a node that can switch forks

`internal/rpc/rpc.go`: a block's receipts come by number, by a filter of its logs, or one by one. Every call is
answered from some fork's block. The hash of that block is kept beside each receipt and log as the node sends it; the
client reads it nowhere.
-/

namespace OpsIndexer.Rpc

open Eth

structure NodeLog where
  txHash : Hash
  blockHash : Hash
  log : ReceiptLog
  deriving DecidableEq, Repr

/-- A receipt; one put together from logs has no block of its own. -/
structure NodeReceipt where
  txHash : Hash
  blockHash : Option Hash
  status : Nat
  gasUsed : Nat := 0
  contractAddress : Address := 0
  logs : List NodeLog := []
  deriving DecidableEq, Repr

def NodeReceipt.receipt (receipt : NodeReceipt) : Receipt where
  status := receipt.status
  gasUsed := receipt.gasUsed
  contractAddress := receipt.contractAddress
  logs := receipt.logs.map (·.log)

structure ForkBlock where
  raw : RawBlock
  receipts : List NodeReceipt
  own : ∀ receipt ∈ receipts, receipt.blockHash = some raw.hash ∧
    ∀ log ∈ receipt.logs, log.blockHash = raw.hash ∧ log.txHash = receipt.txHash

def ForkBlock.logs (block : ForkBlock) : List NodeLog :=
  block.receipts.flatMap (·.logs)

/-- `eth_getBlockReceipts`: its errors are told apart by their text. -/
inductive BlockReceipts where
  | receipts (block : ForkBlock)
  | null
  | notSupported
  | fails

structure TxReceipt where
  block : ForkBlock
  receipt : NodeReceipt
  listed : receipt ∈ block.receipts

structure FetchAnswers where
  block : Option ForkBlock
  blockReceipts : BlockReceipts
  filterLogs : Option ForkBlock
  transactionReceipt : Hash → Option TxReceipt

/-- The receipts by hash: of several for one hash the last stays. -/
def receiptsByHash (receipts : List NodeReceipt) (hash : Hash) : Option NodeReceipt :=
  receipts.reverse.find? fun receipt => receipt.txHash = hash

/-- Log-only receipts: the status is assumed and the gas is zero. -/
def fetchLogsAsReceipts (logs : List NodeLog) (hash : Hash) : Option NodeReceipt :=
  if logs.any (fun log => log.txHash = hash) then
    some { txHash := hash, blockHash := none, status := 1, logs := logs.filter fun log => log.txHash = hash }
  else none

def fetchReceiptsBatch (txHashes : List Hash) (answers : FetchAnswers) : Option (Hash → Option NodeReceipt) :=
  if txHashes.isEmpty then some fun _ => none
  else
    match answers.blockReceipts with
    | .receipts block =>
      if txHashes.all fun hash => (receiptsByHash block.receipts hash).isSome then some (receiptsByHash block.receipts)
      else none
    | .null => none
    | .fails => answers.filterLogs.map fun block => fetchLogsAsReceipts block.logs
    | .notSupported =>
      if txHashes.all fun hash => (answers.transactionReceipt hash).isSome then
        some fun hash => if hash ∈ txHashes then (answers.transactionReceipt hash).map (·.receipt) else none
      else none

/-! ## Where a receipt comes from -/

variable {hash : Hash} {receipt : NodeReceipt} {logs : List NodeLog}

end OpsIndexer.Rpc
