import OpsIndexer.Db.StoredRows

/-!
# A committed block and its entries

Every insert of a block's rows leaves a row that is there already. A log or transfer that met the row of another
transaction refuses the write; any other entry that met a row is left out, and the block commits without it.
-/

namespace OpsIndexer.Db

open Eth OpsIndexer.Types Lib.Table

structure Complete (data : BlockData) (block : Block) (store : Store) : Prop where
  transactions : ∀ tx ∈ data.transactions,
    transactionRow data tx ∈ store.transactions ∧ (transactionRow data tx).blockNumber = block.number
  logs : ∀ log ∈ data.logs, logRow log ∈ store.logs ∧ (logRow log).blockNumber = block.number
  transfers : ∀ transfer ∈ data.transfers,
    transferRow transfer ∈ store.tokenTransfers ∧ (transferRow transfer).blockNumber = block.number
  frames : ∀ frame ∈ data.internalTransactions,
    internalRow frame ∈ store.internalTransactions ∧ (internalRow frame).blockNumber = block.number

structure Undisputed (partitionOf : Nat → Nat) (data : BlockData) (block : Block) (store : Store) : Prop where
  transactions : Admitted (transactionRow data) (transactionConflicts partitionOf) data.transactions store.transactions
  logs : Admitted logRow logConflicts data.logs store.logs
  transfers : Admitted transferRow transferConflicts data.transfers store.tokenTransfers
  frames :
    Admitted internalRow (internalConflicts partitionOf) data.internalTransactions store.internalTransactions
  numbered : (∀ tx ∈ data.transactions, tx.blockNumber = block.number) ∧
    (∀ log ∈ data.logs, log.blockNumber = block.number) ∧
    (∀ transfer ∈ data.transfers, transfer.blockNumber = block.number) ∧
    ∀ frame ∈ data.internalTransactions, frame.blockNumber = block.number

/-! ## Keys -/

theorem transactionConflicts_iff (partitionOf : Nat → Nat) (written row : TransactionRow) :
    transactionConflicts partitionOf written row = true ↔
      (row.hash, partitionOf row.blockNumber) = (written.hash, partitionOf written.blockNumber) := by
  simp [transactionConflicts]

theorem logConflicts_iff (written row : Log) :
    logConflicts written row = true ↔ (row.blockNumber, row.logIndex) = (written.blockNumber, written.logIndex) := by
  simp [logConflicts]

theorem transferConflicts_iff (written row : TransferRow) :
    transferConflicts written row = true ↔
      (row.blockNumber, row.logIndex) = (written.blockNumber, written.logIndex) := by
  simp [transferConflicts]

theorem internalConflicts_iff (partitionOf : Nat → Nat) (written row : InternalTransaction) :
    internalConflicts partitionOf written row = true ↔
      (row.txHash, row.traceAddress, partitionOf row.blockNumber) =
        (written.txHash, written.traceAddress, partitionOf written.blockNumber) := by
  simp [internalConflicts, and_assoc]

/-! ## Commits -/

structure Inserted (partitionOf : Nat → Nat) (data : BlockData) (block : Block) (store next : Store) : Prop where
  checked : ∀ tx ∈ data.transactions, checkTransaction tx = .ok ()
  blocks : next.blocks = store.blocks ++ [block]
  transactions : next.transactions =
    insertAll (transactionRow data) (transactionConflicts partitionOf) data.transactions store.transactions
  logs : next.logs = insertAll logRow logConflicts data.logs store.logs
  transfers : next.tokenTransfers = insertAll transferRow transferConflicts data.transfers store.tokenTransfers
  frames : next.internalTransactions =
    insertAll internalRow (internalConflicts partitionOf) data.internalTransactions store.internalTransactions
  contracts : next.contracts = insertContracts data.contracts store.contracts
  nftTokens : next.nftTokens = data.nftTokens.foldl upsertNFTToken store.nftTokens

variable {partitionOf : Nat → Nat} {data : BlockData} {block : Block} {store next : Store}

theorem insertBlockDataBatch_inserted (named : data.block = some block)
    (absent : store.blocks.any (blockConflicts partitionOf block) = false)
    (done : insertBlockDataBatch partitionOf data store = .ok next) : Inserted partitionOf data block store next := by
  obtain ⟨opened, own, finished⟩ := insertBlockDataBatch_opened named absent done
  simp only [writeOwnRows, bind_eq_ok, Except.ok.injEq] at own
  obtain ⟨_, checked, _, _, _, _, _, _, _, _, _, _, _, _, rfl⟩ := own
  simp only [finish, writeSharedRows, bind_eq_ok, Except.ok.injEq] at finished
  obtain ⟨_, _, _, _, rfl⟩ := finished
  exact ⟨forM_eq_ok.mp checked, rfl, rfl, rfl, rfl, rfl, rfl, rfl⟩

theorem insertBlockDataBatch_taken (named : data.block = some block)
    (taken : store.blocks.any (blockConflicts partitionOf block) = true)
    (done : insertBlockDataBatch partitionOf data store = .ok next) : next = store := by
  unfold insertBlockDataBatch beginBlockData at done
  rw [named] at done
  obtain ⟨write, begun, finished⟩ := bind_eq_ok.mp done
  obtain ⟨_, _, begun⟩ := bind_eq_ok.mp begun
  rw [if_pos taken] at begun
  obtain ⟨_, _, begun⟩ := bind_eq_ok.mp begun
  rw [← Except.ok.inj begun] at finished
  exact (Except.ok.inj finished).symm

theorem insertBlockDataBatch_blocks (named : data.block = some block)
    (done : insertBlockDataBatch partitionOf data store = .ok next) :
    next.blocks = store.blocks ++ [block] ∨
      (store.blocks.any (blockConflicts partitionOf block) = true ∧ next = store) := by
  cases absent : store.blocks.any (blockConflicts partitionOf block) with
  | false => exact .inl (insertBlockDataBatch_inserted named absent done).blocks
  | true => exact .inr ⟨rfl, insertBlockDataBatch_taken named absent done⟩

theorem insertBlockDataBatch_checked (named : data.block = some block)
    (absent : store.blocks.any (blockConflicts partitionOf block) = false)
    (done : insertBlockDataBatch partitionOf data store = .ok next) :
    ∀ transfer ∈ data.transfers, checkTransfer transfer = .ok () := by
  obtain ⟨opened, own, _⟩ := insertBlockDataBatch_opened named absent done
  simp only [writeOwnRows, bind_eq_ok] at own
  obtain ⟨_, _, _, _, _, _, _, checked, _⟩ := own
  exact forM_eq_ok.mp checked

/-- A new block that commits is complete exactly when its entries are undisputed. -/
theorem committed_complete_iff {partitionOf : Nat → Nat} {data : BlockData} {block : Block} {store next : Store}
    (named : data.block = some block) (absent : store.blocks.any (blockConflicts partitionOf block) = false)
    (done : insertBlockDataBatch partitionOf data store = .ok next) :
    Complete data block next ↔ Undisputed partitionOf data block store := by
  obtain ⟨_, _, transactions, logs, transfers, frames, _⟩ := insertBlockDataBatch_inserted named absent done
  have transactionsIff := insertAll_complete_iff (transactionRow data) (transactionConflicts_iff partitionOf)
    data.transactions store.transactions
  have logsIff := insertAll_complete_iff logRow logConflicts_iff data.logs store.logs
  have transfersIff := insertAll_complete_iff transferRow transferConflicts_iff data.transfers store.tokenTransfers
  have framesIff := insertAll_complete_iff internalRow (internalConflicts_iff partitionOf) data.internalTransactions
    store.internalTransactions
  rw [← transactions] at transactionsIff
  rw [← logs] at logsIff
  rw [← transfers] at transfersIff
  rw [← frames] at framesIff
  constructor
  · intro complete
    exact
      { transactions := transactionsIff.mp fun tx member => (complete.transactions tx member).1
        logs := logsIff.mp fun log member => (complete.logs log member).1
        transfers := transfersIff.mp fun transfer member => (complete.transfers transfer member).1
        frames := framesIff.mp fun frame member => (complete.frames frame member).1
        numbered := ⟨fun tx member => (complete.transactions tx member).2,
          fun log member => (complete.logs log member).2, fun transfer member => (complete.transfers transfer member).2,
          fun frame member => (complete.frames frame member).2⟩ }
  · intro undisputed
    obtain ⟨txNumber, logNumber, transferNumber, frameNumber⟩ := undisputed.numbered
    exact
      { transactions := fun tx member => ⟨transactionsIff.mpr undisputed.transactions tx member, txNumber tx member⟩
        logs := fun log member => ⟨logsIff.mpr undisputed.logs log member, logNumber log member⟩
        transfers := fun transfer member =>
          ⟨transfersIff.mpr undisputed.transfers transfer member, transferNumber transfer member⟩
        frames := fun frame member => ⟨framesIff.mpr undisputed.frames frame member, frameNumber frame member⟩ }

/-! ## A transaction under two blocks -/

def includedTx (block : Nat) : Transaction where
  hash := "0x01"
  blockNumber := block
  txIndex := 0
  fromAddress := "0x0a"
  toAddress := some "0x0b"

def includedBlock (number : Nat) : Block where
  number := number
  hash := if number = 4 then "0x04" else "0x05"
  parentHash := "0x03"

def includedData (number : Nat) : BlockData where
  block := some (includedBlock number)
  transactions := [includedTx number]
  addressStats := (∅ : AList fun _ : String => AddressStatsDelta).insert "0x0a"
    { address := "0x0a", txCountDelta := 1, sentDelta := 1, blockNumber := number }

def afterWrite (data : BlockData) (store : Store) : Store :=
  match insertBlockDataBatch (fun _ => 0) data store with
  | .ok next => next
  | .error _ => store

theorem afterWrite_ok (accepted : (insertBlockDataBatch (fun _ => 0) data store).isOk = true) :
    insertBlockDataBatch (fun _ => 0) data store = .ok (afterWrite data store) := by
  unfold afterWrite
  cases result : insertBlockDataBatch (fun _ => 0) data store with
  | ok next => rfl
  | error failure => simp [result, Except.isOk, Except.toBool] at accepted

theorem committed_complete_iff_firstBlock :
    Complete (includedData 5) (includedBlock 5) (afterWrite (includedData 5) {}) ↔
      Undisputed (fun _ => 0) (includedData 5) (includedBlock 5) {} :=
  committed_complete_iff rfl rfl (afterWrite_ok (by decide +kernel))

/-- Block 5 of a fork the chain has left holds the transaction. Block 4 of the new fork, which includes it too, is
committed as new without it, and its sender is counted for both. -/
theorem included_twice_dropped :
    insertBlockDataBatch (fun _ => 0) (includedData 4) (afterWrite (includedData 5) {}) =
        .ok (afterWrite (includedData 4) (afterWrite (includedData 5) {})) ∧
      (afterWrite (includedData 5) {}).blocks.any (blockConflicts (fun _ => 0) (includedBlock 4)) = false ∧
      ¬Complete (includedData 4) (includedBlock 4) (afterWrite (includedData 4) (afterWrite (includedData 5) {})) ∧
      (afterWrite (includedData 4) (afterWrite (includedData 5) {})).addressStats.map
        (fun row => (row.address, row.txCount, row.sentCount)) = [("0x0a", 2, 2)] := by
  refine ⟨afterWrite_ok (by decide +kernel), by decide +kernel, ?_, by decide +kernel⟩
  intro complete
  have stored := (complete.transactions (includedTx 4) (by decide)).1
  revert stored
  decide +kernel

end OpsIndexer.Db
