import OpsIndexer.Opdeposits.Hash
import OpsIndexer.Db.DeleteBlock
import OpsIndexer.Lib.Runs

/-!
# The deposit fetcher

`internal/opdeposits/fetcher.go` over `op_deposits`. Progress is the newest stored row: a poll starts after its L1
block, or, with no row, at the configured block, or, with none configured, at the safe head. The node serves one
chain; what fails in a poll is part of the poll. An L1 block number is below `2 ^ 63`, so no sum of them wraps.
-/

namespace OpsIndexer.Opdeposits

open Eth OpsIndexer.Types Db Lib.Table Lib.Runs

structure L1Log where
  address : Address
  topics : List Hash
  data : Bytes
  blockNumber : Nat
  blockHash : Hash
  txHash : Hash
  index : Nat
  counted : data.length < 2 ^ 63

structure OPDeposit where
  l2TxHash : String
  l1BlockNumber : Nat
  l1BlockTimestamp : Option Nat
  l1TxHash : String
  l1TxOrigin : String
  deriving DecidableEq, Repr

structure FetcherConfig where
  optimismPortalAddress : Address
  transactionDepositedTopic : Hash
  batchSize : Nat
  startBlock : Nat
  confirmationBlocks : Nat
  batched : 1 ≤ batchSize

/-! ## One log -/

def computeSourceHash (keccak256 : Bytes → Hash) (l1BlockHash : Hash) (logIndex : Nat) : Hash :=
  let innerHash := keccak256 (hashBytes l1BlockHash ++ Lib.Rlp.fixed 32 (logIndex % 2 ^ 64))
  keccak256 (hashBytes 0 ++ hashBytes innerHash)

structure OpaqueData where
  mint : Option Int
  value : Option Int
  gasLimit : UInt64
  isCreation : Bool
  data : Bytes

def parseOpaqueData (opaqueData : Bytes) : OpaqueData :=
  if opaqueData.length < 73 then ⟨none, none, 0, false, []⟩
  else
    { mint := some (setBytes (opaqueData.take 32))
      value := some (setBytes ((opaqueData.drop 32).take 32))
      gasLimit := UInt64.ofNat (setBytes ((opaqueData.drop 64).take 8))
      isCreation := decide (opaqueData[72]? = some 1)
      data := opaqueData.drop 73 }

/-- The bytes argument of the event: absent when the loop goes on to the next log, and no answer at all when it panics.
The sums wrap as `uint64` does. -/
def opaqueDataOf (data : Bytes) : Option (Option Bytes) :=
  if data.length < 64 then some none
  else
    let offset := setBytes (data.take 32) % 2 ^ 64
    if data.length < (offset + 32) % 2 ^ 64 then some none
    else
      (slice data offset ((offset + 32) % 2 ^ 64)).bind fun word =>
        let length := setBytes word % 2 ^ 64
        if data.length < (offset + 32 + length) % 2 ^ 64 then some none
        else (slice data ((offset + 32) % 2 ^ 64) ((offset + 32 + length) % 2 ^ 64)).map some

def depositFields (keccak256 : Bytes → Hash) (log : L1Log) (opaqueData : Bytes) : DepositTxFields :=
  let parsed := parseOpaqueData opaqueData
  { sourceHash := computeSourceHash keccak256 log.blockHash log.index
    fromAddress := Hash.toAddress (log.topics[1]?.getD 0)
    toAddress := if parsed.isCreation then none else some (Hash.toAddress (log.topics[2]?.getD 0))
    mint := parsed.mint
    value := parsed.value
    gas := parsed.gasLimit
    isSystemTx := false
    data := parsed.data }

def depositOf (keccak256 : Bytes → Hash) (headerTime : Nat → Option Nat) (log : L1Log) : Option (Option OPDeposit) :=
  if log.topics.length < 4 then some none
  else
    (opaqueDataOf log.data).map fun opaqueData =>
      opaqueData.bind fun opaqueData =>
        match computeL2DepositTxHash keccak256 (depositFields keccak256 log opaqueData) with
        | .error _ => none
        | .ok l2TxHash =>
          some
            { l2TxHash := Hash.hex l2TxHash
              l1BlockNumber := log.blockNumber
              l1BlockTimestamp := headerTime log.blockNumber
              l1TxHash := Hash.hex log.txHash
              l1TxOrigin := Address.hex keccak256 (Hash.toAddress (log.topics[1]?.getD 0)) }

/-! ## One poll -/

structure L1Chain where
  logs : Nat → List L1Log
  numbered : ∀ number, ∀ log ∈ logs number, log.blockNumber = number

def filterLogs (cfg : FetcherConfig) (chain : L1Chain) (fromBlock toBlock : Nat) : List L1Log :=
  ((List.range' fromBlock (toBlock + 1 - fromBlock)).flatMap chain.logs).filter fun log =>
    log.address = cfg.optimismPortalAddress && log.topics.head? = some cfg.transactionDepositedTopic

def fetchDepositEvents (keccak256 : Bytes → Hash) (cfg : FetcherConfig) (chain : L1Chain) (headerTime : Nat → Option Nat)
    (fromBlock toBlock : Nat) : Option (List OPDeposit) :=
  ((filterLogs cfg chain fromBlock toBlock).mapM (depositOf keccak256 headerTime)).map fun deposits => deposits.reduceOption

def depositConflicts (written row : OPDeposit) : Bool :=
  row.l2TxHash = written.l2TxHash

def insertOPDepositsBatch (deposits : List OPDeposit) (table : List OPDeposit) : List OPDeposit :=
  insertAll id depositConflicts deposits table

def getLastIndexedL1Block (table : List OPDeposit) : Nat :=
  (table.map (·.l1BlockNumber)).max?.getD 0

inductive BatchOutcome where
  | done
  | filterLogsFails
  | insertFails
  | insertUnacknowledged
  deriving DecidableEq, Repr

/-- What the database and the node answer to one poll; after the listed batches nothing fails. -/
structure PollAnswers where
  lastIndexed : Bool := true
  startHead : Option Nat := none
  l1Head : Option Nat
  headerTime : Nat → Option Nat := fun _ => none
  batches : List BatchOutcome := []

def getStartBlock (cfg : FetcherConfig) (answers : PollAnswers) (table : List OPDeposit) : Option Nat :=
  if answers.lastIndexed then
    if 0 < getLastIndexedL1Block table then some (getLastIndexedL1Block table + 1)
    else if 0 < cfg.startBlock then some cfg.startBlock
    else answers.startHead.map fun l1Head =>
      if cfg.confirmationBlocks < l1Head then l1Head - cfg.confirmationBlocks else 0
  else none

def pollBatches (keccak256 : Bytes → Hash) (cfg : FetcherConfig) (chain : L1Chain) (headerTime : Nat → Option Nat)
    (safeHead : Nat) : Nat → Nat → List BatchOutcome → List OPDeposit → List OPDeposit × Bool
  | 0, _, _, table => (table, true)
  | turns + 1, batchStart, outcomes, table =>
    if batchStart ≤ safeHead then
      let batchEnd := min (batchStart + cfg.batchSize - 1) safeHead
      let outcome := outcomes.headD .done
      let again := pollBatches keccak256 cfg chain headerTime safeHead turns (batchStart + cfg.batchSize) outcomes.tail
      if outcome = .filterLogsFails then (table, false)
      else
        match fetchDepositEvents keccak256 cfg chain headerTime batchStart batchEnd with
        | none => (table, false)
        | some [] => again table
        | some deposits =>
          match outcome with
          | .insertFails => (table, false)
          | .insertUnacknowledged => (insertOPDepositsBatch deposits table, false)
          | _ => again (insertOPDepositsBatch deposits table)
    else (table, true)

structure PollResult where
  table : List OPDeposit
  fromBlock : Option Nat
  ok : Bool

def safeHeadOf (cfg : FetcherConfig) (answers : PollAnswers) : Option Nat :=
  answers.l1Head.bind fun l1Head =>
    if cfg.confirmationBlocks < l1Head then some (l1Head - cfg.confirmationBlocks) else none

def poll (keccak256 : Bytes → Hash) (cfg : FetcherConfig) (chain : L1Chain) (answers : PollAnswers)
    (table : List OPDeposit) : PollResult :=
  match getStartBlock cfg answers table with
  | none => ⟨table, none, false⟩
  | some fromBlock =>
    match safeHeadOf cfg answers with
    | none => ⟨table, some fromBlock, answers.l1Head.isSome⟩
    | some safeHead =>
      let (after, ok) := pollBatches keccak256 cfg chain answers.headerTime safeHead (safeHead + 1 - fromBlock)
        fromBlock answers.batches table
      ⟨after, some fromBlock, ok⟩

/-! ## Runs -/

inductive DepositEvent where
  | writeBlock (partitionOf : Nat → Nat) (data : BlockData)
  | deleteBlock (number : Nat)
  | poll (answers : PollAnswers)

structure DepositSystem where
  store : Store := {}
  opDeposits : List OPDeposit := []
  firstStart : Option Nat := none

def revertsDeposit (store : Store) (number : Nat) (row : OPDeposit) : Bool :=
  store.transactions.any fun tx => tx.blockNumber = number && tx.hash = row.l2TxHash

def DepositSystem.step (keccak256 : Bytes → Hash) (cfg : FetcherConfig) (chain : L1Chain) (system : DepositSystem) :
    DepositEvent → DepositSystem
  | .writeBlock partitionOf data =>
    match insertBlockDataBatch partitionOf data system.store with
    | .ok next => { system with store := next }
    | .error _ => system
  | .deleteBlock number =>
    { system with
      store := deleteBlock keccak256 number system.store
      opDeposits := system.opDeposits.filter fun row => !revertsDeposit system.store number row }
  | .poll answers =>
    let result := poll keccak256 cfg chain answers system.opDeposits
    { system with
      opDeposits := result.table
      firstStart := system.firstStart.or result.fromBlock }

end OpsIndexer.Opdeposits
