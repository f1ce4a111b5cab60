import OpsIndexer.Indexer.BlockRows
import OpsIndexer.Indexer.HeadLoop
import OpsIndexer.Rpc.Receipts

/-!
# Receipts of another fork

`fetchBlockAndReceipts` asks for a block and then for its receipts, each by number. A receipt is accepted by its
transaction's hash alone, so one of another fork's block is taken for the block's own; and where only the logs can be
had, the status and the gas of a transaction are assumed.
-/

namespace OpsIndexer.Indexing.Forks

open Eth OpsIndexer.Types Db Rpc Lib.Fold List

structure Fetched where
  raw : RawBlock
  receipts : Hash → Option NodeReceipt

def fetchBlockAndReceipts (indexer : Indexer) (answers : FetchAnswers) : Option Fetched :=
  (answers.block.filter fun block => block.raw.found).bind fun block =>
    if block.raw.transactions.isEmpty then some ⟨block.raw, fun _ => none⟩
    else (fetchReceiptsBatch (receiptTxHashes indexer block.raw) answers).map fun receipts => ⟨block.raw, receipts⟩

def rawHead (raw : RawBlock) : RawHead where
  hash := raw.hash
  parentHash := raw.parentHash
  transactions := raw.transactions.length

/-- What the head loops see of the answers. -/
def headAnswer (indexer : Indexer) (answers : FetchAnswers) : NodeAnswer where
  block := (answers.block.filter fun block => block.raw.number.isSome).map fun block => rawHead block.raw
  receipts := answers.block.any fun block => (fetchReceiptsBatch (receiptTxHashes indexer block.raw) answers).isSome

/-- A block is ready for the head loops exactly when it is fetched here. -/
theorem fetchBlockAndReceipts_ready_iff (indexer : Indexer) (answers : FetchAnswers) (number : Nat) (raw : RawHead) :
    Indexing.fetchBlockAndReceipts number (headAnswer indexer answers) = .ready number raw ↔
      ∃ fetched, fetchBlockAndReceipts indexer answers = some fetched ∧ rawHead fetched.raw = raw := by
  unfold Indexing.fetchBlockAndReceipts fetchBlockAndReceipts headAnswer
  cases answers.block with
  | none => simp
  | some block =>
    cases given : block.raw.number with
    | none => simp [given, RawBlock.found, Option.filter_some]
    | some height =>
      by_cases zero : block.raw.hash = 0#256
      · simp [given, zero, RawBlock.found, rawHead, Option.filter_some]
      · by_cases empty : block.raw.transactions = []
        · simp [given, zero, empty, RawBlock.found, rawHead, Option.filter_some]
        · cases fetched : fetchReceiptsBatch (receiptTxHashes indexer block.raw) answers <;>
            simp [given, zero, empty, fetched, RawBlock.found, rawHead, Option.filter_some]

section Ways

variable (indexer : Indexer) (raw : RawBlock)

end Ways

/-! ## The whole fetch -/

variable {fetched : Fetched}

end OpsIndexer.Indexing.Forks
