import OpsIndexer.Db.CompleteBlock

/-!
# Transactions as the API serves them

`GetTransactionWithCategories`: a transaction's row, its categories from the stored bits, and the contract it created
by a join on the contracts table.
-/

namespace OpsIndexer.Db

open Eth OpsIndexer.Types Lib.Table List

inductive TxCategory where
  | systemTransaction
  | contractCreation
  | contractCall
  | coinTransfer
  | tokenTransfer
  deriving DecidableEq, Repr

structure ServedTransaction where
  hash : String
  blockNumber : Nat
  blockTimestamp : Option Nat
  txIndex : Nat
  fromAddress : String
  toAddress : Option String
  contractAddress : Option String
  value : Int
  gasUsed : Nat
  gasPrice : Nat
  gasLimit : Option Nat
  maxFeePerGas : Option Nat
  maxPriorityFeePerGas : Option Nat
  nonce : Option Nat
  txType : Int
  inputData : String
  status : Int
  error : Option String
  txCategories : List TxCategory
  deriving DecidableEq, Repr

def txTypeDeposit : Int := 126

def buildCategoriesFromBits (txType : Int) (bits : Nat) : List TxCategory :=
  if txType = txTypeDeposit then [.systemTransaction]
  else
    (if bits &&& categoryContractCreation ≠ 0 then [.contractCreation] else []) ++
    (if bits &&& categoryContractCall ≠ 0 then [.contractCall] else []) ++
    (if bits &&& categoryCoinTransfer ≠ 0 then [.coinTransfer] else []) ++
    (if bits &&& categoryTokenTransfer ≠ 0 then [.tokenTransfer] else [])

def txCategoryNames (tx : Transaction) (hasTokenTransfer : Bool) : List TxCategory :=
  buildCategoriesFromBits tx.txType (computeTxCategories tx hasTokenTransfer)

def servedRow (row : TransactionRow) (contractAddress : Option String) : ServedTransaction where
  hash := row.hash
  blockNumber := row.blockNumber
  blockTimestamp := row.blockTimestamp
  txIndex := row.txIndex
  fromAddress := row.fromAddress
  toAddress := row.toAddress
  contractAddress := contractAddress
  value := row.value
  gasUsed := row.gasUsed
  gasPrice := row.gasPrice
  gasLimit := row.gasLimit
  maxFeePerGas := row.maxFeePerGas
  maxPriorityFeePerGas := row.maxPriorityFeePerGas
  nonce := row.nonce
  txType := row.txType
  inputData := row.inputData
  status := row.status
  error := row.error
  txCategories := buildCategoriesFromBits row.txType row.categories

/-- `contracts c ON c.creation_tx = t.hash AND t.to_address IS NULL`. -/
def createdBy (contracts : List Contract) (row : TransactionRow) : List Contract :=
  contracts.filter fun contract => contract.creationTx = row.hash ∧ row.toAddress.isNone

/-- `LEFT JOIN`: one row for each match, and one without a contract when there is none. -/
def joinContracts (contracts : List Contract) (row : TransactionRow) : List ServedTransaction :=
  match createdBy contracts row with
  | [] => [servedRow row none]
  | created => created.map fun contract => servedRow row (some contract.address)

/-- Every row of the query, of which `QueryRow` takes one. -/
def getTransactionWithCategories (store : Store) (hash : String) : List ServedTransaction :=
  (store.transactions.filter fun row => row.hash = hash).flatMap (joinContracts store.contracts)

/-! ## Categories -/

theorem computeTxCategories_tokenTransfer (tx : Transaction) (hasTokenTransfer : Bool) :
    computeTxCategories tx hasTokenTransfer &&& categoryTokenTransfer ≠ 0 ↔ hasTokenTransfer = true := by
  unfold computeTxCategories
  cases hasTokenTransfer with
  | false =>
    rw [if_neg Bool.false_ne_true]
    split_ifs <;> decide
  | true =>
    rw [if_pos rfl]
    split_ifs <;> decide

theorem tokenTransfer_mem_categories {txType : Int} {bits : Nat} (ordinary : txType ≠ txTypeDeposit) :
    TxCategory.tokenTransfer ∈ buildCategoriesFromBits txType bits ↔ bits &&& categoryTokenTransfer ≠ 0 := by
  rw [buildCategoriesFromBits, if_neg ordinary]
  split_ifs <;> simp_all

theorem txCategoryNames_inj (tx : Transaction) (first second : Bool) :
    txCategoryNames tx first = txCategoryNames tx second ↔ tx.txType = txTypeDeposit ∨ first = second := by
  constructor
  · intro same
    by_cases deposit : tx.txType = txTypeDeposit
    · exact .inl deposit
    · right
      have seen (flag : Bool) : TxCategory.tokenTransfer ∈ txCategoryNames tx flag ↔ flag = true := by
        rw [txCategoryNames, tokenTransfer_mem_categories deposit, computeTxCategories_tokenTransfer]
      rw [Bool.eq_iff_iff, ← seen first, ← seen second, same]
  · rintro (deposit | rfl)
    · simp only [txCategoryNames, buildCategoriesFromBits, if_pos deposit]
    · rfl

/-! ## The join -/

theorem joinContracts_eq_singleton {contracts : List Contract} {row : TransactionRow} {served : ServedTransaction} :
    joinContracts contracts row = [served] ↔
      servedRow row served.contractAddress = served ∧
        (createdBy contracts row).map (·.address) = served.contractAddress.toList := by
  rw [joinContracts]
  cases createdBy contracts row with
  | nil =>
    constructor
    · intro same
      cases same
      exact ⟨rfl, rfl⟩
    · rintro ⟨same, none⟩
      cases address : served.contractAddress with
      | none =>
        rw [address] at same
        rw [same]
      | some contract =>
        rw [address] at none
        cases none
  | cons contract rest =>
    constructor
    · intro same
      change List.map _ (contract :: rest) = _ at same
      rw [map_cons, List.cons.injEq, map_eq_nil_iff] at same
      obtain ⟨rfl, rfl⟩ := same
      exact ⟨rfl, rfl⟩
    · rintro ⟨same, addresses⟩
      cases address : served.contractAddress with
      | none =>
        rw [address] at addresses
        cases addresses
      | some other =>
        rw [address, Option.toList_some, map_cons, List.cons.injEq, map_eq_nil_iff] at addresses
        obtain ⟨rfl, rfl⟩ := addresses
        rw [address] at same
        simp only [map_cons, map_nil, same]

end OpsIndexer.Db
