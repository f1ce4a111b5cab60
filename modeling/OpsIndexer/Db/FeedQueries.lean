import OpsIndexer.Db.Store
import OpsIndexer.Lib.Keyset

/-!
# The feed queries

The listing queries of `internal/db/queries.go` and `op_deposits.go`. An `ORDER BY` leaves rows of one key in any
order, so each query takes the sorter of its execution, and a query with several ordered parts takes one for each.
-/

namespace OpsIndexer.Db

open Eth OpsIndexer.Types Lib.Keyset

def txKey (row : TransactionRow) : Nat ×ₗ Nat :=
  toLex (row.blockNumber, row.txIndex)

def transferKey (row : TransferRow) : Nat ×ₗ Nat :=
  toLex (row.blockNumber, row.logIndex)

/-! ## The main feed -/

def listedTransactions (hiddenTxTypes : List Int) (store : Store) : List TransactionRow :=
  store.transactions.filter fun row => !hiddenTxTypes.contains row.txType

def getTransactionsWithCategories (hiddenTxTypes : List Int) (sorter : Sorter txKey) (limit : Nat)
    (beforeBlock : Option Nat) (store : Store) : List TransactionRow :=
  (sorter.sort ((listedTransactions hiddenTxTypes store).filter fun row =>
    beforeBlock.all fun block => row.blockNumber < block)).take limit

/-! ## Deposits -/

structure OPDeposit where
  l2TxHash : String
  l1BlockNumber : Nat
  l1BlockTimestamp : Option Nat := none
  l1TxHash : String := ""
  l1TxOrigin : String := ""
  deriving DecidableEq, Repr

/-- The optional filters of `ListOPDeposits`; a recipient stands for the origin when no sender is given. -/
structure DepositFilter where
  fromAddress : Option String := none
  toAddress : Option String := none
  l1From : Option Nat := none
  l1To : Option Nat := none

def matchingDeposits (filter : DepositFilter) (deposits : List OPDeposit) : List OPDeposit :=
  deposits.filter fun row =>
    ((filter.fromAddress.or filter.toAddress).all fun origin => row.l1TxOrigin = origin) &&
      (filter.l1From.all fun block => block ≤ row.l1BlockNumber) &&
      (filter.l1To.all fun block => row.l1BlockNumber < block)

/-- `afterL1Block` is 0 for the first page. -/
def listOPDeposits (filter : DepositFilter) (sorter : Sorter OPDeposit.l1BlockNumber) (afterL1Block limit : Nat)
    (deposits : List OPDeposit) : List OPDeposit :=
  (sorter.sort ((matchingDeposits filter deposits).filter fun row =>
    afterL1Block = 0 || row.l1BlockNumber < afterL1Block)).take limit

/-! ## Address feeds -/

/-- `Index` set is a cursor's row; otherwise the bound is a whole block, the block itself included or not. -/
structure AddressFeedBound where
  block : Nat
  index : Option Nat := none
  inclusive : Bool := false
  deriving DecidableEq, Repr

def AddressFeedBound.rowBound (bound : AddressFeedBound) : Nat × Nat :=
  match bound.index with
  | some index => (bound.block, index)
  | none => if bound.inclusive then ((bound.block + 1) % 2 ^ 64, 0) else (bound.block, 0)

/-- The row-value comparison `(block_number, idx) < ($2, $3)`, true when no bound is given. -/
def belowBound (before : Option AddressFeedBound) (key : Nat ×ₗ Nat) : Bool :=
  before.all fun bound => key < toLex bound.rowBound

def transferNames (address : String) (row : TransferRow) : Bool :=
  row.fromAddress = address || row.toAddress = address

structure Candidate where
  hash : String
  position : Nat ×ₗ Nat
  deriving DecidableEq

structure AddressSorters where
  sent : Sorter txKey
  received : Sorter txKey
  candidates : Sorter Candidate.position
  moved : Sorter txKey
  merged : Sorter txKey

def transferCandidates (store : Store) (address : String) (before : Option AddressFeedBound) : List Candidate :=
  ((store.tokenTransfers.filter (transferNames address)).flatMap fun transfer =>
    (store.transactions.filter fun row => row.hash = transfer.txHash && belowBound before (txKey row)).map fun row =>
      ⟨row.hash, txKey row⟩).dedup

def getTransactionsByAddress (sorters : AddressSorters) (address : String) (limit : Nat)
    (before : Option AddressFeedBound) (store : Store) : List TransactionRow :=
  let addr := lower address
  let rows := store.transactions.filter fun row => belowBound before (txKey row)
  let sent := (sorters.sent.sort (rows.filter fun row => row.fromAddress = addr)).take limit
  let received := (sorters.received.sort (rows.filter fun row => row.toAddress = some addr)).take limit
  let candidates := (sorters.candidates.sort (transferCandidates store addr before)).take limit
  let moved := (sorters.moved.sort (rows.filter fun row => candidates.any fun found => found.hash = row.hash)).take limit
  (sorters.merged.sort (sent ++ received ++ moved).dedup).take limit

def getTransfersByAddress (sorter : Sorter transferKey) (address : String) (limit : Nat)
    (before : Option AddressFeedBound) (store : Store) : List TransferRow :=
  let addr := lower address
  (sorter.sort (store.tokenTransfers.filter fun row =>
    transferNames addr row && belowBound before (transferKey row))).take limit

end OpsIndexer.Db
