import OpsIndexer.Nodelookup.MapBlock

/-!
# Method ids and the contract-call category

`mapTransaction` of `grpcserver` reads the method id off the stored input, and `computeTxCategories` and migration 003
take the length of the same text. Each of them expects a prefix `0x`, which `buildBlock` does not write.
-/

namespace OpsIndexer.Grpcserver

open Eth OpsIndexer.Types Db Rpc Indexing Nodelookup List
  Lib.Table

/-! ## What is served -/

inductive TransactionStatus where
  | unspecified
  | success
  | failed
  deriving DecidableEq, Repr

inductive TransactionCategory where
  | coinTransfer
  | contractCreation
  | contractCall
  | tokenTransfer
  deriving DecidableEq, Repr

/-- The fields of the message that are read from the transaction; big integers that are not set are empty. -/
structure ProtoTransaction where
  hash : String
  blockNumber : Nat
  blockTimestamp : Option Nat
  transactionIndex : Nat
  fromAddress : String
  toAddress : String
  value : Int
  gasUsed : Nat
  gasPrice : Nat
  maxFeePerGas : Option Nat
  maxPriorityFeePerGas : Option Nat
  nonce : Nat
  input : String
  methodId : String
  status : TransactionStatus
  txType : Nat
  contractAddress : String
  categories : List TransactionCategory
  deriving DecidableEq, Repr

def mapTxStatus (status : Int) : TransactionStatus :=
  if status = 1 then .success else if status = 0 then .failed else .unspecified

def mapTxCategories (categories : List TxCategory) : List TransactionCategory :=
  categories.filterMap fun
    | .coinTransfer => some .coinTransfer
    | .contractCreation => some .contractCreation
    | .contractCall => some .contractCall
    | .tokenTransfer => some .tokenTransfer
    | .systemTransaction => none

def mapTransaction (tx : ServedTransaction) : ProtoTransaction where
  hash := tx.hash
  blockNumber := tx.blockNumber
  blockTimestamp := tx.blockTimestamp
  transactionIndex := tx.txIndex % 2 ^ 32
  fromAddress := tx.fromAddress
  toAddress := tx.toAddress.getD ""
  value := tx.value
  gasUsed := tx.gasUsed
  gasPrice := tx.gasPrice
  maxFeePerGas := tx.maxFeePerGas
  maxPriorityFeePerGas := tx.maxPriorityFeePerGas
  nonce := tx.nonce.getD 0
  input := tx.inputData
  methodId := if 10 ≤ tx.inputData.length then String.ofList (tx.inputData.toList.take 10) else ""
  status := mapTxStatus tx.status
  txType := (tx.txType % 2 ^ 32).toNat
  contractAddress := tx.contractAddress.getD ""
  categories := mapTxCategories tx.txCategories

/-! ## Migration 003 -/

def categoryBits (coin creation call token : Bool) : Nat :=
  (if coin then categoryCoinTransfer else 0) ||| (if creation then categoryContractCreation else 0) |||
    (if call then categoryContractCall else 0) ||| (if token then categoryTokenTransfer else 0)

def migrationCategories (tokenTransfers : List TransferRow) (row : TransactionRow) : Nat :=
  categoryBits (0 < row.value && (row.inputData = "" || row.inputData = "0x")) (row.toAddress.isNone && row.status = 1)
    (row.toAddress.isSome && 10 ≤ row.inputData.length)
    (tokenTransfers.any fun transfer => transfer.txHash = row.hash)

theorem computeTxCategories_eq_bits (tx : Transaction) (hasTokenTransfer : Bool) :
    computeTxCategories tx hasTokenTransfer =
      categoryBits (tx.value ≠ .decimal 0 && isEmptyCalldata tx.inputData) (tx.toAddress.isNone && tx.status = 1)
        (tx.toAddress.isSome && hasMethodSelector tx.inputData) hasTokenTransfer :=
  rfl

theorem categoryBits_call (coin creation call token : Bool) :
    categoryBits coin creation call token &&& categoryContractCall ≠ 0 ↔ call = true := by
  revert coin creation call token
  decide

theorem categoryBits_inj (coin coin' creation call token token' : Bool) :
    categoryBits coin creation call token = categoryBits coin' creation call token' ↔ coin = coin' ∧ token = token' := by
  revert coin coin' creation call token token'
  decide

/-! ## Input texts -/

variable {bytes : Bytes}

theorem bytes2Hex_eq_empty : bytes2Hex bytes = "" ↔ bytes = [] := by
  apply Iff.intro
  · intro empty
    have length := length_bytes2Hex bytes
    rw [empty] at length
    exact length_eq_zero_iff.mp (by simpa using length.symm)
  · rintro rfl
    rfl

theorem bytes2Hex_ne_prefixed {text : String} (prefixed : 'x' ∈ text.toList ∨ 'X' ∈ text.toList) :
    bytes2Hex bytes ≠ text := by
  rintro rfl
  rcases prefixed with lower | upper
  · exact (digit_ne_x lower).1 rfl
  · exact (digit_ne_x upper).2 rfl

theorem isEmptyCalldata_bytes2Hex (bytes : Bytes) : isEmptyCalldata (bytes2Hex bytes) = decide (bytes = []) := by
  have lower : bytes2Hex bytes ≠ "0x" := bytes2Hex_ne_prefixed (.inl (by decide))
  have upper : bytes2Hex bytes ≠ "0X" := bytes2Hex_ne_prefixed (.inr (by decide))
  simp [isEmptyCalldata, lower, upper, bytes2Hex_eq_empty]

theorem methodId_bytes2Hex (tx : ServedTransaction) (input : tx.inputData = bytes2Hex bytes) :
    (mapTransaction tx).methodId = (if 4 ≤ bytes.length then "0x" ++ bytes2Hex (bytes.take 4) else "") ↔
      bytes.length < 4 := by
  have length := length_bytes2Hex bytes
  simp only [mapTransaction, input, length]
  by_cases short : bytes.length < 4
  · rw [if_neg (by omega), if_neg (by omega)]
    exact iff_of_true rfl short
  · rw [if_pos (not_lt.mp short)]
    refine iff_of_false ?_ short
    have marked : 'x' ∈ ("0x" ++ bytes2Hex (bytes.take 4)).toList := by
      rw [String.toList_append]
      exact mem_append_left _ (by decide)
    split
    · intro same
      rw [← same, String.toList_ofList] at marked
      exact (digit_ne_x (mem_of_mem_take marked)).1 rfl
    · intro same
      rw [← same] at marked
      exact absurd marked (by decide)

/-! ## Stored transactions -/

section

variable {partitionOf : Nat → Nat} {indexer : Indexer} {raw : RawBlock} {receipts : Hash → Option Receipt}
  {built : BuiltBlock} {store next : Store}

theorem insertBlockDataBatch_transferConflicts {data : BlockData} {block : Block}
    (named : data.block = some block) (absent : store.blocks.any (blockConflicts partitionOf block) = false)
    (done : insertBlockDataBatch partitionOf data store = .ok next) :
    checkLogConflicts "token_transfers" (next.tokenTransfers.map fun row => ⟨row.blockNumber, row.logIndex, row.txHash⟩)
      ((refused transferRow transferConflicts data.transfers store.tokenTransfers).map fun row =>
        ⟨row.blockNumber, row.logIndex, row.txHash⟩) = .ok () := by
  have table := (insertBlockDataBatch_inserted named absent done).transfers
  obtain ⟨opened, own, _⟩ := insertBlockDataBatch_opened named absent done
  simp only [writeOwnRows, bind_eq_ok] at own
  obtain ⟨_, _, _, _, _, _, _, _, _, _, _, checked, _⟩ := own
  rw [table]
  exact checked

def CanonicalTransfers (store : Store) : Prop :=
  ∀ row ∈ store.tokenTransfers, lower row.txHash = row.txHash

theorem lower_built_txHash (done : buildBlock indexer raw receipts = some built) :
    ∀ transfer ∈ built.data.transfers, lower transfer.txHash = transfer.txHash := by
  obtain ⟨_, _, transfers, _⟩ := buildBlock_rows done
  intro transfer member
  rw [transfers, mem_flatMap] at member
  obtain ⟨tx, _, listed⟩ := member
  obtain ⟨log, _, decoded⟩ := mem_filterMap.mp listed
  obtain ⟨_, _, rfl⟩ := Option.map_eq_some_iff.mp decoded
  exact lower_hashHex tx.hash

theorem CanonicalTransfers.write (canonical : CanonicalTransfers store)
    (done : buildBlock indexer raw receipts = some built)
    (stored : insertBlockDataBatch partitionOf built.data store = .ok next) : CanonicalTransfers next := by
  obtain ⟨named, _, _, _⟩ := buildBlock_rows done
  cases absent : store.blocks.any (blockConflicts partitionOf (blockOf indexer raw)) with
  | true =>
    rw [insertBlockDataBatch_taken named absent stored]
    exact canonical
  | false =>
    intro row member
    rw [(insertBlockDataBatch_inserted named absent stored).transfers, insertAll_eq, mem_append] at member
    rcases member with old | new
    · exact canonical row old
    · obtain ⟨transfer, there, rfl⟩ := mem_map.mp new
      exact lower_built_txHash done transfer (mem_of_mem_landed there)

theorem transfer_stored_iff (done : buildBlock indexer raw receipts = some built)
    (absent : store.blocks.any (blockConflicts partitionOf (blockOf indexer raw)) = false)
    (stored : insertBlockDataBatch partitionOf built.data store = .ok next) (canonical : CanonicalTransfers store)
    (hash : Hash) :
    (∃ row ∈ next.tokenTransfers, row.txHash = Hash.hex hash) ↔
      (∃ row ∈ store.tokenTransfers, row.txHash = Hash.hex hash) ∨
        ∃ transfer ∈ built.data.transfers, transfer.txHash = Hash.hex hash := by
  obtain ⟨named, _, _, _⟩ := buildBlock_rows done
  have table := (insertBlockDataBatch_inserted named absent stored).transfers
  have own := lower_built_txHash done
  have lowered := canonical.write done stored
  apply Iff.intro
  · rintro ⟨row, member, same⟩
    rw [table, insertAll_eq, mem_append] at member
    rcases member with old | new
    · exact .inl ⟨row, old, same⟩
    · obtain ⟨transfer, there, rfl⟩ := mem_map.mp new
      exact .inr ⟨transfer, mem_of_mem_landed there, same⟩
  · rintro (⟨row, member, same⟩ | ⟨transfer, member, same⟩)
    · refine ⟨row, ?_, same⟩
      rw [table, insertAll_eq]
      exact mem_append_left _ member
    · have split : transfer ∈ landed transferRow transferConflicts built.data.transfers store.tokenTransfers ∨
          transfer ∈ refused transferRow transferConflicts built.data.transfers store.tokenTransfers :=
        landed_or_refused member
      rcases split with there | met
      · refine ⟨transferRow transfer, ?_, same⟩
        rw [table, insertAll_eq]
        exact mem_append_right _ (mem_map_of_mem there)
      · -- The row it met passed the check: it is of the same transaction.
        have checked := forM_eq_ok.mp (insertBlockDataBatch_transferConflicts named absent stored)
          ⟨transfer.blockNumber, transfer.logIndex, transfer.txHash⟩ (mem_map.mpr ⟨transfer, met, rfl⟩)
        obtain ⟨row, there, conflict⟩ := exists_conflict_of_refused met
        rw [← table] at there
        rw [transferConflicts, Bool.and_eq_true, decide_eq_true_eq, decide_eq_true_eq] at conflict
        cases found : (next.tokenTransfers.map fun row => (⟨row.blockNumber, row.logIndex, row.txHash⟩ : LogKey)).find?
            (fun key => key.block = transfer.blockNumber && key.index = transfer.logIndex) with
        | none =>
          have missed := List.find?_eq_none.mp found _ (mem_map_of_mem there)
          exact absurd (by simpa [transferRow] using conflict) missed
        | some key =>
          rw [found] at checked
          obtain ⟨other, known, rfl⟩ := mem_map.mp (mem_of_find?_eq_some found)
          refine ⟨other, known, ?_⟩
          simp only at checked
          split at checked
          · next equal =>
            rwa [lowered other known, own transfer member, same] at equal
          · cases checked

def builtRow (indexer : Indexer) (raw : RawBlock) (receipts : Hash → Option Receipt) (data : BlockData)
    (entry : RawTransaction × Nat) : TransactionRow :=
  transactionRow data (transactionOf indexer raw.numberU64 (receipts entry.1.hash) entry.2 entry.1)

structure SelectsMethod (tx : RawTransaction) (row : TransactionRow) (contract : Option String) (store : Store) : Prop where
  category : row.categories &&& categoryContractCall ≠ 0 ↔ tx.toAddress.isSome ∧ 4 ≤ tx.input.length
  methodId : (mapTransaction (servedRow row contract)).methodId =
    if 4 ≤ tx.input.length then "0x" ++ bytes2Hex (tx.input.take 4) else ""
  migration : migrationCategories store.tokenTransfers row = row.categories

structure Unselected (receipts : Hash → Option Receipt) (store : Store) (tx : RawTransaction) : Prop where
  short : tx.input.length < 4
  value : tx.value.getD 0 < 0 → tx.input ≠ []
  transfers : (∃ row ∈ store.tokenTransfers, row.txHash = Hash.hex tx.hash) →
    ∃ log ∈ logsOf receipts tx, isTransferLog log = true

theorem builtRow_category (data : BlockData) (entry : RawTransaction × Nat) :
    (builtRow indexer raw receipts data entry).categories &&& categoryContractCall ≠ 0 ↔
      entry.1.toAddress.isSome ∧ 5 ≤ entry.1.input.length := by
  simp only [builtRow, transactionRow, computeTxCategories_eq_bits, categoryBits_call, Bool.and_eq_true]
  simp only [transactionOf, Option.isSome_map, hasMethodSelector, length_bytes2Hex, decide_eq_true_eq]
  apply and_congr_right
  intro _
  omega

/-- The two computations differ where a value below zero comes without input, and where one sees a transfer and the
other does not. -/
theorem builtRow_migration (data : BlockData) (entry : RawTransaction × Nat) (transfers : List TransferRow)
    (checked : checkTransaction (transactionOf indexer raw.numberU64 (receipts entry.1.hash) entry.2 entry.1) = .ok ()) :
    migrationCategories transfers (builtRow indexer raw receipts data entry) =
        (builtRow indexer raw receipts data entry).categories ↔
      (entry.1.value.getD 0 < 0 → entry.1.input ≠ []) ∧
        ((∃ row ∈ transfers, row.txHash = Hash.hex entry.1.hash) ↔
          ∃ transfer ∈ data.transfers, transfer.txHash = Hash.hex entry.1.hash) := by
  have fits : numeric78 (.decimal (entry.1.value.getD 0)) = some (entry.1.value.getD 0) :=
    numeric78_decimal (checkTransaction_value checked)
  have coin : (0 < entry.1.value.getD 0 && (bytes2Hex entry.1.input = "" || bytes2Hex entry.1.input = "0x")) =
      (JSONString.decimal (entry.1.value.getD 0) ≠ .decimal 0 && isEmptyCalldata (bytes2Hex entry.1.input)) ↔
        (entry.1.value.getD 0 < 0 → entry.1.input ≠ []) := by
    have unprefixed : bytes2Hex entry.1.input ≠ "0x" := bytes2Hex_ne_prefixed (.inl (by decide))
    rw [isEmptyCalldata_bytes2Hex, Bool.eq_iff_iff]
    simp only [Bool.and_eq_true, Bool.or_eq_true, decide_eq_true_eq, unprefixed, or_false, bytes2Hex_eq_empty, ne_eq,
      JSONString.decimal.injEq]
    by_cases empty : entry.1.input = []
    · simp only [empty, and_true, not_true_eq_false, imp_false]
      omega
    · simp only [empty, and_false, not_false_eq_true, implies_true]
  have token : (transfers.any fun transfer => transfer.txHash = Hash.hex entry.1.hash) =
      (data.transfers.any fun transfer => transfer.txHash = Hash.hex entry.1.hash) ↔
        ((∃ row ∈ transfers, row.txHash = Hash.hex entry.1.hash) ↔
          ∃ transfer ∈ data.transfers, transfer.txHash = Hash.hex entry.1.hash) := by
    rw [Bool.eq_iff_iff]
    simp only [any_eq_true, decide_eq_true_eq]
  rw [← coin, ← token, ← categoryBits_inj _ _ (entry.1.toAddress.isNone && (transactionOf indexer raw.numberU64
    (receipts entry.1.hash) entry.2 entry.1).status = 1) (entry.1.toAddress.isSome &&
    10 ≤ (bytes2Hex entry.1.input).length)]
  simp only [migrationCategories, builtRow, transactionRow, computeTxCategories_eq_bits, transactionOf, fits, Option.getD_some,
    Option.isNone_map, Option.isSome_map, hasMethodSelector]
  rfl

/-- A transaction that a block write stores is served with its selector exactly when it has none, and the rest holds:
with four bytes the category and the method id are missing, and with more the method id is five bytes without `0x`. -/
theorem method_ids_iff_unselected (done : buildBlock indexer raw receipts = some built)
    (stored : insertBlockDataBatch partitionOf built.data store = .ok next) (canonical : CanonicalTransfers store)
    {entry : RawTransaction × Nat} (listed : entry ∈ raw.transactions.zipIdx)
    (new : builtRow indexer raw receipts built.data entry ∈ next.transactions)
    (unstored : builtRow indexer raw receipts built.data entry ∉ store.transactions) (contract : Option String) :
    SelectsMethod entry.1 (builtRow indexer raw receipts built.data entry) contract next ↔
      Unselected receipts store entry.1 := by
  obtain ⟨named, transactions, transfers, _⟩ := buildBlock_rows done
  have absent : store.blocks.any (blockConflicts partitionOf (blockOf indexer raw)) = false := by
    rw [Bool.eq_false_iff]
    intro taken
    rw [insertBlockDataBatch_taken named taken stored] at new
    exact unstored new
  have member : entry.1 ∈ raw.transactions := by
    obtain ⟨_, _, same⟩ := mem_zipIdx listed
    rw [same]
    exact getElem_mem _
  have checked := (insertBlockDataBatch_inserted named absent stored).checked
    (transactionOf indexer raw.numberU64 (receipts entry.1.hash) entry.2 entry.1)
    (by rw [transactions]; exact mem_map.mpr ⟨entry, listed, rfl⟩)
  have own := any_transfers_iff transfers member
  simp only [any_eq_true, decide_eq_true_eq] at own
  have input : (servedRow (builtRow indexer raw receipts built.data entry) contract).inputData =
      bytes2Hex entry.1.input := rfl
  have method := methodId_bytes2Hex _ input
  have migrated := builtRow_migration built.data entry next.tokenTransfers checked
  rw [transfer_stored_iff done absent stored canonical, own] at migrated
  apply Iff.intro
  · intro selects
    obtain ⟨value, seen⟩ := migrated.mp selects.migration
    exact ⟨method.mp selects.methodId, value, fun before => seen.mp (.inl before)⟩
  · intro unselected
    apply SelectsMethod.mk
    · rw [builtRow_category]
      have short := unselected.short
      apply and_congr_right
      intro _
      omega
    · exact method.mpr unselected.short
    · apply migrated.mpr
      refine ⟨unselected.value, ?_⟩
      apply Iff.intro
      · rintro (before | inBlock)
        · exact unselected.transfers before
        · exact inBlock
      · exact .inr

end

/-! ## Inputs around the thresholds -/

def callReceipts : Hash → Option Receipt := fun _ => some { status := 1 }

def callBuilt (input : Bytes) : Option BuiltBlock :=
  buildBlock (lookupNode []) (callBlock input) callReceipts

def callRow (input : Bytes) (data : BlockData) : TransactionRow :=
  builtRow (lookupNode []) (callBlock input) callReceipts data (plainCall input, 0)

def threeBytes : BuiltBlock := (callBuilt [0xa9, 0x05, 0x9c]).get (by decide +kernel)

def fourBytes : BuiltBlock := (callBuilt [0xa9, 0x05, 0x9c, 0xbb]).get (by decide +kernel)

def fiveBytes : BuiltBlock := (callBuilt [0xa9, 0x05, 0x9c, 0xbb, 0x01]).get (by decide +kernel)

theorem method_ids_iff_unselected_three :
    SelectsMethod (plainCall [0xa9, 0x05, 0x9c]) (callRow [0xa9, 0x05, 0x9c] threeBytes.data) none
      (afterWrite threeBytes.data {}) := by
  have built : buildBlock (lookupNode []) (callBlock [0xa9, 0x05, 0x9c]) callReceipts = some threeBytes :=
    (Option.some_get _).symm
  have written : insertBlockDataBatch (fun _ => 0) threeBytes.data {} = .ok (afterWrite threeBytes.data {}) :=
    afterWrite_ok (by decide +kernel)
  have canonical : CanonicalTransfers {} := by
    intro row member
    cases member
  have listed : (plainCall [0xa9, 0x05, 0x9c], 0) ∈ (callBlock [0xa9, 0x05, 0x9c]).transactions.zipIdx := by decide
  have unselected : Unselected callReceipts {} (plainCall [0xa9, 0x05, 0x9c]) := by
    refine ⟨by decide, by decide, ?_⟩
    rintro ⟨row, member, _⟩
    cases member
  exact (method_ids_iff_unselected built written canonical listed (by decide +kernel) (by decide +kernel) none).mpr
    unselected

/-- Of four bytes no category and no method id are made, of five a method id without `0x` and with a byte too many. -/
theorem selector_of_four_bytes_missed :
    buildBlock (lookupNode []) (callBlock [0xa9, 0x05, 0x9c, 0xbb]) callReceipts = some fourBytes ∧
      insertBlockDataBatch (fun _ => 0) fourBytes.data {} = .ok (afterWrite fourBytes.data {}) ∧
      (afterWrite fourBytes.data {}).transactions = [callRow [0xa9, 0x05, 0x9c, 0xbb] fourBytes.data] ∧
      (callRow [0xa9, 0x05, 0x9c, 0xbb] fourBytes.data).categories &&& categoryContractCall = 0 ∧
      (mapTransaction (servedRow (callRow [0xa9, 0x05, 0x9c, 0xbb] fourBytes.data) none)).methodId = "" ∧
      buildBlock (lookupNode []) (callBlock [0xa9, 0x05, 0x9c, 0xbb, 0x01]) callReceipts = some fiveBytes ∧
      insertBlockDataBatch (fun _ => 0) fiveBytes.data {} = .ok (afterWrite fiveBytes.data {}) ∧
      (afterWrite fiveBytes.data {}).transactions = [callRow [0xa9, 0x05, 0x9c, 0xbb, 0x01] fiveBytes.data] ∧
      (mapTransaction (servedRow (callRow [0xa9, 0x05, 0x9c, 0xbb, 0x01] fiveBytes.data) none)).methodId =
        "a9059cbb01" := by
  refine ⟨(Option.some_get _).symm, afterWrite_ok (by decide +kernel), by decide +kernel, by decide +kernel,
    by decide +kernel, (Option.some_get _).symm, afterWrite_ok (by decide +kernel), by decide +kernel,
    by decide +kernel⟩

end OpsIndexer.Grpcserver
