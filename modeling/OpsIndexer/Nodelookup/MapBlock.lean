import OpsIndexer.Db.TransactionQueries
import OpsIndexer.Indexer.TransferLogs

/-!
# A block read from the node

`internal/nodelookup/map.go`: the block and the transactions served for a pruned block, made from the node's reply
without a store.
-/

namespace OpsIndexer.Nodelookup

open Eth OpsIndexer.Types Db Rpc Indexing Lib.Table List

/-- `byHash`: of the replies that hold a receipt, the last one for a hash. -/
def byHash (receipts : List (Option (Hash × Receipt))) (hash : Hash) : Option Receipt :=
  receipts.reverse.findSome? fun reply => reply.bind fun entry => if entry.1 = hash then some entry.2 else none

def receiptContract (receipt : Option Receipt) : Option String :=
  receipt.bind fun receipt =>
    if receipt.contractAddress ≠ 0 then some (Address.key receipt.contractAddress) else none

/-- Any log whose first topic is the signature: the number of topics is not looked at. -/
def hasTransfer (receipt : Option Receipt) : Bool :=
  ((receipt.map (·.logs)).getD []).any fun log => log.topics.head? = some transferTopic

def mappedTransaction (keccak256 : Bytes → Hash) (rawTx : RawTransaction) (receipt : Option Receipt)
    (number idx : Nat) : Transaction where
  hash := Hash.hex rawTx.hash
  blockNumber := number
  txIndex := idx
  fromAddress := lower (Address.hex keccak256 rawTx.fromAddress)
  toAddress := rawTx.toAddress.map fun address => lower (Address.hex keccak256 address)
  contractAddress := if rawTx.toAddress.isNone then receiptContract receipt else none
  value := .decimal (rawTx.value.getD 0)
  gasUsed := (receipt.map (·.gasUsed)).getD rawTx.gas
  gasPrice := (rawTx.gasPrice.map uint64).getD 0
  gasLimit := some rawTx.gas
  maxFeePerGas := rawTx.maxFeePerGas.map uint64
  maxPriorityFeePerGas := rawTx.maxPriorityFeePerGas.map uint64
  nonce := some (rawTx.nonce.getD 0)
  txType := rawTxType rawTx
  inputData := bytes2Hex rawTx.input
  status := (receipt.map fun receipt => (receipt.status : Int).bmod (2 ^ 64)).getD 1
  error :=
    match receipt with
    | none => none
    | some receipt => if receipt.status = 0 then some "transaction reverted" else none

def mapTransaction (keccak256 : Bytes → Hash) (rawTx : RawTransaction) (receipt : Option Receipt)
    (number timestamp idx : Nat) : ServedTransaction :=
  let tx := mappedTransaction keccak256 rawTx receipt number idx
  { hash := tx.hash
    blockNumber := tx.blockNumber
    blockTimestamp := some timestamp
    txIndex := tx.txIndex
    fromAddress := tx.fromAddress
    toAddress := tx.toAddress
    contractAddress := tx.contractAddress
    value := rawTx.value.getD 0
    gasUsed := tx.gasUsed
    gasPrice := tx.gasPrice
    gasLimit := tx.gasLimit
    maxFeePerGas := tx.maxFeePerGas
    maxPriorityFeePerGas := tx.maxPriorityFeePerGas
    nonce := tx.nonce
    txType := tx.txType
    inputData := tx.inputData
    status := tx.status
    error := tx.error
    txCategories := txCategoryNames tx (hasTransfer receipt) }

structure MappedBlock where
  block : Block
  txs : List ServedTransaction
  deriving DecidableEq, Repr

def mapBlock (keccak256 : Bytes → Hash) (raw : RawBlock) (receipts : List (Option (Hash × Receipt))) :
    MappedBlock where
  block :=
    { number := raw.numberU64
      hash := Hash.hex raw.hash
      parentHash := Hash.hex raw.parentHash
      timestamp := raw.timestamp
      gasUsed := raw.gasUsed
      gasLimit := raw.gasLimit
      baseFeePerGas := raw.baseFeeU64
      transactionCount := raw.transactions.length
      size := raw.size
      difficulty := raw.difficultyString
      totalDifficulty := raw.totalDifficultyString
      nonce := raw.nonceHex
      miner := Address.hex keccak256 raw.miner
      extraData := bytes2Hex raw.extraData
      stateRoot := Hash.hex raw.stateRoot
      transactionsRoot := Hash.hex raw.transactionsRoot
      receiptsRoot := Hash.hex raw.receiptsRoot }
  txs := raw.transactions.zipIdx.map fun entry =>
    mapTransaction keccak256 entry.1 (byHash receipts entry.1.hash) raw.numberU64 raw.timestamp entry.2

/-! ## Agreement with the store -/

def deployments (indexer : Indexer) (raw : RawBlock) (receipts : Hash → Option Receipt) : List Contract :=
  raw.transactions.filterMap (creationOf indexer raw receipts) ++
    (internalCreations (framesOf indexer raw)).filterMap (frameCreation indexer raw)

def deployedBy (indexer : Indexer) (raw : RawBlock) (receipts : Hash → Option Receipt) (address : String) :
    Option String :=
  ((deployments indexer raw receipts).find? fun contract => lower contract.address = address).map (·.creationTx)

structure ReadsAlike (indexer : Indexer) (raw : RawBlock) (receipts : List (Option (Hash × Receipt)))
    (store : Store) : Prop where
  block : store.blocks = [(mapBlock indexer.keccak256 raw receipts).block]
  transactions : ∀ tx ∈ (mapBlock indexer.keccak256 raw receipts).txs,
    getTransactionWithCategories store tx.hash = [tx]

/-- Of a transaction that is no deposit, a log under the Transfer signature comes with one of at least three topics;
and what a creation deploys first in the block is what its receipt names, no more and no less. -/
structure Plain (indexer : Indexer) (raw : RawBlock) (receipts : Hash → Option Receipt) : Prop where
  hashes : (raw.transactions.map (·.hash)).Nodup
  transfers : ∀ tx ∈ raw.transactions, rawTxType tx ≠ txTypeDeposit →
    (∃ log ∈ logsOf receipts tx, log.topics.head? = some transferTopic) →
      ∃ log ∈ logsOf receipts tx, log.topics.head? = some transferTopic ∧ 3 ≤ log.topics.length
  creations : ∀ tx ∈ raw.transactions, tx.toAddress = none →
    ∀ address, deployedBy indexer raw receipts address = some (Hash.hex tx.hash) ↔
      receiptContract (receipts tx.hash) = some address

theorem computeTxCategories_mapped (indexer : Indexer) (number idx : Nat) (receipt : Option Receipt)
    (tx : RawTransaction) (flag : Bool) :
    computeTxCategories (transactionOf indexer number receipt idx tx) flag =
      computeTxCategories (mappedTransaction indexer.keccak256 tx receipt number idx) flag := by
  simp [computeTxCategories, transactionOf, mappedTransaction]

variable {tx : RawTransaction} {data : BlockData} {contracts : List Contract}

/-- The stored row reads as the mapped transaction up to its contract, unless the two saw different transfers. -/
theorem servedRow_eq_mapped {indexer : Indexer} {raw : RawBlock} {receipt : Option Receipt} {idx : Nat}
    (named : data.block = some (blockOf indexer raw))
    (checked : checkTransaction (transactionOf indexer raw.numberU64 receipt idx tx) = .ok ()) :
    servedRow (transactionRow data (transactionOf indexer raw.numberU64 receipt idx tx))
        (mapTransaction indexer.keccak256 tx receipt raw.numberU64 raw.timestamp idx).contractAddress =
      mapTransaction indexer.keccak256 tx receipt raw.numberU64 raw.timestamp idx ↔
    rawTxType tx = txTypeDeposit ∨
      (data.transfers.any fun transfer => transfer.txHash = Hash.hex tx.hash) = hasTransfer receipt := by
  have value := numeric78_decimal (checkTransaction_value checked)
  have kind : (mappedTransaction indexer.keccak256 tx receipt raw.numberU64 idx).txType = rawTxType tx := by
    simp only [mappedTransaction]
  have failed : (transactionOf indexer raw.numberU64 receipt idx tx).error =
      (mappedTransaction indexer.keccak256 tx receipt raw.numberU64 idx).error := by
    cases receipt <;> rfl
  rw [← kind, ← txCategoryNames_inj, txCategoryNames, ← computeTxCategories_mapped]
  simp only [servedRow, transactionRow, mapTransaction, ServedTransaction.mk.injEq, named, failed, true_and]
  simp only [transactionOf, mappedTransaction, blockOf, value, Option.map_some, Option.map_map, Function.comp_def,
    lower_addressHex, Option.getD_some, true_and]
  exact Iff.rfl

theorem any_transfers_iff {indexer : Indexer} {raw : RawBlock} {receipts : Hash → Option Receipt}
    (transfers : data.transfers =
      raw.transactions.flatMap fun tx => (logsOf receipts tx).filterMap (transferOf indexer raw tx))
    (member : tx ∈ raw.transactions) :
    (data.transfers.any fun transfer => transfer.txHash = Hash.hex tx.hash) = true ↔
      ∃ log ∈ logsOf receipts tx, isTransferLog log = true := by
  simp only [any_eq_true, transfers, mem_flatMap, mem_filterMap, decide_eq_true_eq]
  constructor
  · rintro ⟨transfer, ⟨other, _, log, listed, decoded⟩, same⟩
    obtain ⟨found, decoder, rfl⟩ := Option.map_eq_some_iff.mp decoded
    have hash : other.hash = tx.hash := Hash.hex_injective _ _ same
    have logs : logsOf receipts other = logsOf receipts tx := by rw [logsOf, logsOf, hash]
    refine ⟨log, logs ▸ listed, ?_⟩
    rw [← decodeTransfer_isSome, decoder, Option.isSome_some]
  · rintro ⟨log, listed, kind⟩
    rw [← decodeTransfer_isSome] at kind
    obtain ⟨found, decoder⟩ := Option.isSome_iff_exists.mp kind
    exact ⟨_, ⟨tx, member, log, listed, by rw [transferOf, decoder]; rfl⟩, rfl⟩

theorem hasTransfer_iff (receipts : Hash → Option Receipt) (tx : RawTransaction) :
    hasTransfer (receipts tx.hash) = true ↔ ∃ log ∈ logsOf receipts tx, log.topics.head? = some transferTopic := by
  simp [hasTransfer, logsOf]

theorem any_transfers_eq_hasTransfer {indexer : Indexer} {raw : RawBlock} {receipts : Hash → Option Receipt}
    (transfers : data.transfers =
      raw.transactions.flatMap fun tx => (logsOf receipts tx).filterMap (transferOf indexer raw tx))
    (member : tx ∈ raw.transactions) :
    (data.transfers.any fun transfer => transfer.txHash = Hash.hex tx.hash) = hasTransfer (receipts tx.hash) ↔
      ((∃ log ∈ logsOf receipts tx, log.topics.head? = some transferTopic) →
        ∃ log ∈ logsOf receipts tx, log.topics.head? = some transferTopic ∧ 3 ≤ log.topics.length) := by
  have full (log : ReceiptLog) :
      isTransferLog log = true ↔ log.topics.head? = some transferTopic ∧ 3 ≤ log.topics.length := by
    simp [isTransferLog]
  rw [Bool.eq_iff_iff, any_transfers_iff transfers member, hasTransfer_iff]
  simp only [full]
  constructor
  · exact fun same => same.mpr
  · intro enough
    refine ⟨?_, enough⟩
    rintro ⟨log, listed, signature, _⟩
    exact ⟨log, listed, signature⟩

/-! ## Contracts -/

theorem eq_toList_iff {α : Type} {found : List α} {expected : Option α} (distinct : found.Nodup) :
    found = expected.toList ↔ ∀ item, item ∈ found ↔ expected = some item := by
  cases expected with
  | none => simp [eq_nil_iff_forall_not_mem]
  | some only =>
    rw [Option.toList_some, ← perm_singleton, perm_ext_iff_of_nodup distinct (nodup_singleton _)]
    simp only [mem_singleton, Option.some.injEq, eq_comm]

theorem mem_createdBy_iff {indexer : Indexer} {raw : RawBlock} {receipts : Hash → Option Receipt}
    (stored : contracts = insertContracts (deployments indexer raw receipts) []) (row : TransactionRow)
    (creation : row.toAddress = none) (address : String) :
    address ∈ (createdBy contracts row).map (·.address) ↔
      deployedBy indexer raw receipts address = some row.hash := by
  rw [insertContracts, insertAll_insertAll_nil contractRow contractConflicts_iff, insertAll_eq, nil_append] at stored
  simp only [createdBy, creation, Option.isNone_none, and_true, deployedBy, mem_map, mem_filter, stored,
    mem_landed_iff contractRow contractConflicts_iff, Option.map_eq_some_iff, decide_eq_true_eq]
  constructor
  · rintro ⟨_, ⟨⟨contract, ⟨_, first⟩, rfl⟩, creator⟩, rfl⟩
    exact ⟨contract, first, creator⟩
  · rintro ⟨contract, first, creator⟩
    have own := List.find?_some first
    simp only [decide_eq_true_eq] at own
    refine ⟨contractRow contract, ⟨⟨contract, ⟨?_, ?_⟩, rfl⟩, creator⟩, own⟩
    · intro row member
      cases member
    · rw [← first, ← own]
      rfl

theorem createdBy_addresses_nodup {indexer : Indexer} {raw : RawBlock} {receipts : Hash → Option Receipt}
    (stored : contracts = insertContracts (deployments indexer raw receipts) []) (row : TransactionRow) :
    ((createdBy contracts row).map (·.address)).Nodup := by
  have distinct : (contracts.map (·.address)).Nodup := by
    rw [stored, insertContracts, insertAll_eq, nil_append, map_map]
    exact landed_keys_nodup id contractConflicts_iff _ []
  exact distinct.sublist (filter_sublist.map _)

/-! ## The stored block -/

section Stored

variable {partitionOf : Nat → Nat} {indexer : Indexer} {raw : RawBlock} {receipts : List (Option (Hash × Receipt))}
  {built : BuiltBlock} {next : Store}

def storedEntry (indexer : Indexer) (raw : RawBlock) (receipts : List (Option (Hash × Receipt))) (data : BlockData)
    (entry : RawTransaction × Nat) : TransactionRow :=
  transactionRow data (transactionOf indexer raw.numberU64 (byHash receipts entry.1.hash) entry.2 entry.1)

def mappedEntry (indexer : Indexer) (raw : RawBlock) (receipts : List (Option (Hash × Receipt)))
    (entry : RawTransaction × Nat) : ServedTransaction :=
  mapTransaction indexer.keccak256 entry.1 (byHash receipts entry.1.hash) raw.numberU64 raw.timestamp entry.2

variable {entry : RawTransaction × Nat}

/-- One transaction's join gives the mapped transaction exactly when the two saw the same transfers and creations. -/
theorem joinContracts_eq_mapped (done : buildBlock indexer raw (byHash receipts) = some built)
    (stored : Inserted partitionOf built.data (blockOf indexer raw) {} next)
    (listed : entry ∈ raw.transactions.zipIdx) :
    joinContracts next.contracts (storedEntry indexer raw receipts built.data entry) =
        [mappedEntry indexer raw receipts entry] ↔
      (rawTxType entry.1 ≠ txTypeDeposit →
        (∃ log ∈ logsOf (byHash receipts) entry.1, log.topics.head? = some transferTopic) →
          ∃ log ∈ logsOf (byHash receipts) entry.1,
            log.topics.head? = some transferTopic ∧ 3 ≤ log.topics.length) ∧
        (entry.1.toAddress = none → ∀ address,
          deployedBy indexer raw (byHash receipts) address = some (Hash.hex entry.1.hash) ↔
            receiptContract (byHash receipts entry.1.hash) = some address) := by
  obtain ⟨named, transactions, transfers, _, contracts, _⟩ := buildBlock_rows done
  have member : entry.1 ∈ raw.transactions := by
    obtain ⟨_, _, same⟩ := mem_zipIdx listed
    rw [same]
    exact getElem_mem _
  have checked := stored.checked (transactionOf indexer raw.numberU64 (byHash receipts entry.1.hash) entry.2 entry.1)
    (by rw [transactions]; exact mem_map.mpr ⟨entry, listed, rfl⟩)
  rw [joinContracts_eq_singleton, mappedEntry, storedEntry, servedRow_eq_mapped named checked,
    any_transfers_eq_hasTransfer transfers member]
  refine and_congr or_iff_not_imp_left ?_
  have rows : next.contracts = insertContracts (deployments indexer raw (byHash receipts)) [] := by
    rw [stored.contracts, contracts]
    rfl
  rw [eq_toList_iff (createdBy_addresses_nodup rows _)]
  cases recipient : entry.1.toAddress with
  | none =>
    have created := mem_createdBy_iff rows (storedEntry indexer raw receipts built.data entry)
      (by simp [storedEntry, transactionRow, transactionOf, recipient])
    simp only [storedEntry] at created
    simp only [created, mapTransaction, mappedTransaction, recipient, Option.isNone_none, if_true, forall_const]
    rfl
  | some address =>
    simp [createdBy, transactionRow, transactionOf, mapTransaction, mappedTransaction, recipient]

theorem getTransactionWithCategories_entry (done : buildBlock indexer raw (byHash receipts) = some built)
    (stored : Inserted partitionOf built.data (blockOf indexer raw) {} next)
    (distinct : (raw.transactions.map (·.hash)).Nodup) (listed : entry ∈ raw.transactions.zipIdx) :
    getTransactionWithCategories next (Hash.hex entry.1.hash) =
      joinContracts next.contracts (storedEntry indexer raw receipts built.data entry) := by
  obtain ⟨_, transactions, _⟩ := buildBlock_rows done
  have hashes : ((raw.transactions.zipIdx.map (storedEntry indexer raw receipts built.data)).map (·.hash)).Nodup := by
    have texts := distinct.map Hash.hex_injective
    rw [map_map, ← zipIdx_map_fst 0 raw.transactions, map_map] at texts
    rwa [map_map]
  have table : next.transactions = raw.transactions.zipIdx.map (storedEntry indexer raw receipts built.data) := by
    rw [stored.transactions, insertAll_eq, landed_eq_self, nil_append, transactions, map_map]
    · rfl
    · intro tx _ row member
      cases member
    · rw [transactions, pairwise_map]
      refine (pairwise_map.mp (pairwise_map.mp hashes)).imp ?_
      intro first second apart
      rw [← Bool.not_eq_true, transactionConflicts_iff]
      exact fun same => apart (Prod.mk.inj same).1
  have own : (next.transactions.filter fun row => row.hash = Hash.hex entry.1.hash) =
      [storedEntry indexer raw receipts built.data entry] := by
    rw [table]
    exact filter_key_eq_singleton hashes (mem_map.mpr ⟨entry, listed, rfl⟩)
  rw [getTransactionWithCategories, own, flatMap_singleton]

/-- Where each query gives its own mapped transaction, two transactions of one hash would have one index. -/
theorem hashes_nodup_of_readsAlike (alike : ReadsAlike indexer raw receipts next) :
    (raw.transactions.map (·.hash)).Nodup := by
  have positions : ((mapBlock indexer.keccak256 raw receipts).txs.map (·.txIndex)) =
      List.range' 0 raw.transactions.length := by
    rw [mapBlock, map_map, ← zipIdx_map_snd 0 raw.transactions]
    rfl
  have distinct : (mapBlock indexer.keccak256 raw receipts).txs.Nodup :=
    List.Nodup.of_map (·.txIndex) (positions ▸ nodup_range')
  have hashes : ((mapBlock indexer.keccak256 raw receipts).txs.map (·.hash)).Nodup := by
    refine distinct.map_on ?_
    intro first firstListed second secondListed same
    have firstRow := alike.transactions first firstListed
    rw [same, alike.transactions second secondListed] at firstRow
    exact (singleton_inj.mp firstRow).symm
  refine List.Nodup.of_map Hash.hex ?_
  rw [map_map, ← zipIdx_map_fst 0 raw.transactions, map_map]
  rwa [mapBlock, map_map] at hashes

end Stored

/-- A block stored in an empty store is served as the node's reply maps it exactly when it is plain. -/
theorem readsAlike_iff_plain {partitionOf : Nat → Nat} {indexer : Indexer} {raw : RawBlock}
    {receipts : List (Option (Hash × Receipt))} {built : BuiltBlock} {next : Store}
    (done : buildBlock indexer raw (byHash receipts) = some built)
    (written : insertBlockDataBatch partitionOf built.data {} = .ok next) :
    ReadsAlike indexer raw receipts next ↔ Plain indexer raw (byHash receipts) := by
  have stored := insertBlockDataBatch_inserted (buildBlock_rows done).1 rfl written
  have entries : ∀ tx ∈ raw.transactions, ∃ entry ∈ raw.transactions.zipIdx, entry.1 = tx := by
    intro tx member
    rw [← zipIdx_map_fst 0 raw.transactions] at member
    exact mem_map.mp member
  constructor
  · intro alike
    have hashes := hashes_nodup_of_readsAlike alike
    have agreed (entry : RawTransaction × Nat) (listed : entry ∈ raw.transactions.zipIdx) :=
      (joinContracts_eq_mapped done stored listed).mp
        ((getTransactionWithCategories_entry done stored hashes listed).symm.trans
          (alike.transactions _ (mem_map.mpr ⟨entry, listed, rfl⟩)))
    refine ⟨hashes, ?_, ?_⟩
    · intro tx member
      obtain ⟨entry, listed, rfl⟩ := entries tx member
      exact (agreed entry listed).1
    · intro tx member
      obtain ⟨entry, listed, rfl⟩ := entries tx member
      exact (agreed entry listed).2
  · intro plain
    refine ⟨stored.blocks, ?_⟩
    intro tx member
    obtain ⟨entry, listed, rfl⟩ := mem_map.mp member
    have inside : entry.1 ∈ raw.transactions := by
      rw [← zipIdx_map_fst 0 raw.transactions]
      exact mem_map.mpr ⟨entry, listed, rfl⟩
    exact (getTransactionWithCategories_entry done stored plain.hashes listed).trans
      ((joinContracts_eq_mapped done stored listed).mpr
        ⟨plain.transfers entry.1 inside, plain.creations entry.1 inside⟩)

/-! ## Two replies -/

def lookupNode (frames : List InternalTransaction) : Indexer :=
  { plainNode with
    tracingSupported := true
    getCode := fun _ => some [0xfe]
    fetchTraces := fun _ _ _ => some frames }

def lookupBlock : RawBlock where
  number := some 7
  hash := 70
  parentHash := 60
  transactions :=
    [{ hash := 1, fromAddress := 0xa, toAddress := some 0xb }, { hash := 2, fromAddress := 0xa, toAddress := none }]

def lookupReceipts (topics : List Hash) : List (Option (Hash × Receipt)) :=
  [some (1, { status := 1, logs := [{ address := 0xb, topics := topics, data := [5], index := 0 }] }), none,
    some (2, { status := 1, contractAddress := 0xd })]

def constructorFrame : InternalTransaction :=
  internalTransaction (Hash.hex 2) 7 0 [0]
    { type := "CREATE", fromAddress := Address.key 0xd, toAddress := Address.key 0xe }

def lookupBuilt (frames : List InternalTransaction) (topics : List Hash) : Option BuiltBlock :=
  buildBlock (lookupNode frames) lookupBlock (byHash (lookupReceipts topics))

def plainBuilt : BuiltBlock :=
  (lookupBuilt [] [transferTopic, 0xa, 0xc]).get (by decide +kernel)

def constructedBuilt : BuiltBlock :=
  (lookupBuilt [constructorFrame] [transferTopic]).get (by decide +kernel)

theorem readsAlike_iff_plain_transfer :
    ReadsAlike (lookupNode []) lookupBlock (lookupReceipts [transferTopic, 0xa, 0xc])
        (afterWrite plainBuilt.data {}) ∧
      Plain (lookupNode []) lookupBlock (byHash (lookupReceipts [transferTopic, 0xa, 0xc])) := by
  have built : buildBlock (lookupNode []) lookupBlock (byHash (lookupReceipts [transferTopic, 0xa, 0xc])) =
      some plainBuilt := (Option.some_get _).symm
  have alike : ReadsAlike (lookupNode []) lookupBlock (lookupReceipts [transferTopic, 0xa, 0xc])
      (afterWrite plainBuilt.data {}) := ⟨by decide +kernel, by decide +kernel⟩
  exact ⟨alike, (readsAlike_iff_plain built (afterWrite_ok (by decide +kernel))).mp alike⟩

/-- A Transfer log of one topic makes a token transfer for the node and none for the store, and a creation whose
constructor creates another contract has two rows. -/
theorem constructed_reads_differently :
    buildBlock (lookupNode [constructorFrame]) lookupBlock (byHash (lookupReceipts [transferTopic])) =
        some constructedBuilt ∧
      insertBlockDataBatch (fun _ => 0) constructedBuilt.data {} = .ok (afterWrite constructedBuilt.data {}) ∧
      ¬ReadsAlike (lookupNode [constructorFrame]) lookupBlock (lookupReceipts [transferTopic])
        (afterWrite constructedBuilt.data {}) ∧
      (mapBlock (fun _ => 0) lookupBlock (lookupReceipts [transferTopic])).txs.map
        (fun tx => (tx.contractAddress, tx.txCategories)) =
          [(none, [.tokenTransfer]), (some (Address.key 0xd), [.contractCreation])] ∧
      (getTransactionWithCategories (afterWrite constructedBuilt.data {}) (Hash.hex 1)).map
        (fun tx => (tx.contractAddress, tx.txCategories)) = [(none, [])] ∧
      (getTransactionWithCategories (afterWrite constructedBuilt.data {}) (Hash.hex 2)).map
        (fun tx => (tx.contractAddress, tx.txCategories)) =
          [(some (Address.key 0xd), [.contractCreation]), (some (Address.key 0xe), [.contractCreation])] := by
  refine ⟨(Option.some_get _).symm, afterWrite_ok (by decide +kernel), ?_, by decide +kernel, by decide +kernel,
    by decide +kernel⟩
  intro alike
  have served := alike.transactions
  revert served
  decide +kernel

end OpsIndexer.Nodelookup
