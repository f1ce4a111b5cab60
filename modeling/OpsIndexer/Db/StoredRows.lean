import OpsIndexer.Db.Counters
import OpsIndexer.Db.DeleteBlock

/-!
# The rows a block stores

What a batch leaves in each table when the store does not hold its block yet: all of the block's own rows, and the
contracts at addresses the table lacks.
-/

namespace OpsIndexer.Db

open Eth OpsIndexer.Types Lib.Table List

variable {partitionOf : Nat → Nat} {data : BlockData} {tx next store : Store} {block : Block}

theorem writeOwnRows_tables {deltaBlocks : Nat} {write : OpenWrite}
    (done : writeOwnRows partitionOf data deltaBlocks tx = .ok write) :
    write.data = data ∧
      write.tx.transactions = tx.transactions ++
        (landed (transactionRow data) (transactionConflicts partitionOf) data.transactions tx.transactions).map
          (transactionRow data) ∧
      write.tx.tokenTransfers = tx.tokenTransfers ++
        (landed transferRow transferConflicts data.transfers tx.tokenTransfers).map transferRow ∧
      write.tx.internalTransactions = tx.internalTransactions ++
        (landed internalRow (internalConflicts partitionOf) data.internalTransactions tx.internalTransactions).map
          internalRow ∧
      write.tx.contracts = tx.contracts := by
  simp only [writeOwnRows, bind_eq_ok, Except.ok.injEq] at done
  obtain ⟨_, _, _, _, _, _, _, _, _, _, _, _, _, _, rfl⟩ := done
  exact ⟨rfl, insertAll_eq _ _ _ _, insertAll_eq _ _ _ _, insertAll_eq _ _ _ _, rfl⟩

theorem writeSharedRows_tables {shared : SharedRows} (done : writeSharedRows shared tx = .ok next) :
    next.transactions = tx.transactions ∧ next.tokenTransfers = tx.tokenTransfers ∧
      next.internalTransactions = tx.internalTransactions ∧
      next.contracts = insertContracts shared.data.contracts tx.contracts := by
  simp only [writeSharedRows, bind_eq_ok, Except.ok.injEq] at done
  obtain ⟨_, _, _, _, rfl⟩ := done
  exact ⟨rfl, rfl, rfl, rfl⟩

theorem insertBlockDataBatch_opened (named : data.block = some block)
    (absent : store.blocks.any (blockConflicts partitionOf block) = false)
    (done : insertBlockDataBatch partitionOf data store = .ok next) :
    ∃ opened, writeOwnRows partitionOf data 1 { store with blocks := store.blocks ++ [block] } = .ok opened ∧
      finish store (.opened opened) = .ok next := by
  unfold insertBlockDataBatch beginBlockData at done
  obtain ⟨write, begun, finished⟩ := bind_eq_ok.mp done
  simp only [named] at begun
  obtain ⟨_, _, begun⟩ := bind_eq_ok.mp begun
  rw [absent] at begun
  simp only [Bool.false_eq_true, if_false] at begun
  cases own : writeOwnRows partitionOf data 1 { store with blocks := store.blocks ++ [block] } with
  | error failure => simp [own, Except.map] at begun
  | ok opened =>
    simp only [own, Except.map, Except.ok.injEq] at begun
    subst begun
    exact ⟨opened, rfl, finished⟩

structure Unstored (partitionOf : Nat → Nat) (data : BlockData) (block : Block) (store : Store) : Prop where
  absent : store.blocks.any (blockConflicts partitionOf block) = false
  transactions : ∀ row ∈ store.transactions, row.blockNumber ≠ block.number ∧
    ∀ tx ∈ data.transactions, transactionConflicts partitionOf (transactionRow data tx) row = false
  transfers : ∀ row ∈ store.tokenTransfers, row.blockNumber ≠ block.number
  internal : ∀ row ∈ store.internalTransactions, row.blockNumber ≠ block.number ∧
    ∀ frame ∈ data.internalTransactions, internalConflicts partitionOf (internalRow frame) row = false
  contracts : ∀ row ∈ store.contracts, row.blockNumber ≠ block.number

structure OneBlock (data : BlockData) (block : Block) : Prop where
  named : data.block = some block
  transactions : ∀ tx ∈ data.transactions, tx.blockNumber = block.number
  hashes : (data.transactions.map (·.hash)).Nodup
  transfers : ∀ transfer ∈ data.transfers, transfer.blockNumber = block.number
  logIndexes : (data.transfers.map (·.logIndex)).Nodup
  internal : ∀ frame ∈ data.internalTransactions, frame.blockNumber = block.number
  frames : (data.internalTransactions.map fun frame => (frame.txHash, frame.traceAddress)).Nodup
  contracts : ∀ contract ∈ data.contracts, contract.blockNumber = block.number

def newContracts (contracts table : List Contract) : List Contract :=
  landed id contractConflicts (insertAll contractRow contractConflicts contracts []) table

theorem insertContracts_eq (contracts table : List Contract) :
    insertContracts contracts table = table ++ newContracts contracts table := by
  unfold insertContracts newContracts
  rw [insertAll_eq, map_id]

theorem contractConflicts_iff (written row : Contract) :
    contractConflicts written row = true ↔ row.address = written.address := by
  simp [contractConflicts]

theorem newContracts_number {contracts table : List Contract} {number : Nat}
    (numbered : ∀ contract ∈ contracts, contract.blockNumber = number) (row : Contract)
    (member : row ∈ newContracts contracts table) : row.blockNumber = number := by
  have first := mem_of_mem_landed member
  rw [insertAll_eq, nil_append] at first
  obtain ⟨contract, stored, rfl⟩ := mem_map.mp first
  exact numbered contract (mem_of_mem_landed stored)

theorem exists_newContracts (contracts table : List Contract) (address : String) :
    (∃ row ∈ newContracts contracts table, row.address = address) ↔
      (∃ contract ∈ contracts, lower contract.address = address) ∧ ∀ row ∈ table, row.address ≠ address := by
  have first : (∃ row ∈ insertAll contractRow contractConflicts contracts [], row.address = address) ↔
      ∃ contract ∈ contracts, lower contract.address = address := by
    rw [insertAll_eq, nil_append]
    have kept := exists_landed_key contractRow contractConflicts_iff address contracts []
    simp only [not_mem_nil, false_imp_iff, implies_true, and_true] at kept
    simp only [mem_map, exists_exists_and_eq_and]
    exact kept
  have landed := exists_landed_key id contractConflicts_iff address
    (insertAll contractRow contractConflicts contracts []) table
  simp only [id_eq] at landed
  unfold newContracts
  rw [landed, first]

theorem insertBlockDataBatch_tables (one : OneBlock data block) (unstored : Unstored partitionOf data block store)
    (done : insertBlockDataBatch partitionOf data store = .ok next) :
    next.transactions = store.transactions ++ data.transactions.map (transactionRow data) ∧
      next.tokenTransfers = store.tokenTransfers ++ data.transfers.map transferRow ∧
      next.internalTransactions = store.internalTransactions ++ data.internalTransactions.map internalRow ∧
      next.contracts = store.contracts ++ newContracts data.contracts store.contracts := by
  have transactions : landed (transactionRow data) (transactionConflicts partitionOf) data.transactions
      store.transactions = data.transactions := by
    apply landed_eq_self
    · intro tx member row stored
      exact (unstored.transactions row stored).2 tx member
    · refine (pairwise_map.mp one.hashes).imp ?_
      intro first second differ
      simp [transactionConflicts, transactionRow, differ]
  have transfers : landed transferRow transferConflicts data.transfers store.tokenTransfers = data.transfers := by
    apply landed_eq_self
    · intro transfer member row stored
      have other := unstored.transfers row stored
      simp [transferConflicts, transferRow, one.transfers transfer member, other]
    · refine (pairwise_map.mp one.logIndexes).imp ?_
      intro first second differ
      simp [transferConflicts, transferRow, differ]
  have internal : landed internalRow (internalConflicts partitionOf) data.internalTransactions
      store.internalTransactions = data.internalTransactions := by
    apply landed_eq_self
    · intro frame member row stored
      exact (unstored.internal row stored).2 frame member
    · refine (pairwise_map.mp one.frames).imp ?_
      intro first second differ
      by_cases sameHash : first.txHash = second.txHash
      · have differPath : first.traceAddress ≠ second.traceAddress := by
          intro samePath
          exact differ (Prod.ext sameHash samePath)
        simp [internalConflicts, internalRow, differPath]
      · simp [internalConflicts, internalRow, sameHash]
  obtain ⟨opened, own, finished⟩ := insertBlockDataBatch_opened one.named unstored.absent done
  obtain ⟨sameData, ownTxs, ownTransfers, ownInternal, ownContracts⟩ := writeOwnRows_tables own
  obtain ⟨sameTxs, sameTransfers, sameInternal, contracts⟩ := writeSharedRows_tables finished
  refine ⟨?_, ?_, ?_, ?_⟩
  · rw [sameTxs, ownTxs, transactions]
  · rw [sameTransfers, ownTransfers, transfers]
  · rw [sameInternal, ownInternal, internal]
  · rw [contracts, ownContracts, insertContracts_eq, sameData]

private theorem filter_span {α : Type} (number : α → Nat) (block : Nat) (old new : List α)
    (before : ∀ row ∈ old, number row ≠ block) (own : ∀ row ∈ new, number row = block) :
    ((old ++ new).filter fun row => inSpan block (block + 1) (number row)) = new := by
  rw [filter_append, filter_eq_nil_iff.mpr, nil_append, filter_eq_self.mpr]
  · intro row member
    simp [inSpan, own row member]
  · intro row member
    have other := before row member
    simp only [inSpan, Bool.and_eq_true, decide_eq_true_eq, not_and]
    omega

def batchContributions (data : BlockData) (known : List Contract) : List Contribution :=
  (data.transactions.map (transactionRow data)).flatMap transactionContributions ++
  (data.transfers.map transferRow).flatMap transferContributions ++
  (data.internalTransactions.map internalRow).flatMap internalContributions ++
  (newContracts data.contracts known).flatMap contractContributions

theorem ledgerAddressContributions_batch (one : OneBlock data block)
    (unstored : Unstored partitionOf data block store) (done : insertBlockDataBatch partitionOf data store = .ok next) :
    ledgerAddressContributions next block.number (block.number + 1) = batchContributions data store.contracts := by
  obtain ⟨transactions, transfers, internal, contracts⟩ := insertBlockDataBatch_tables one unstored done
  unfold ledgerAddressContributions batchContributions
  rw [transactions, transfers, internal, contracts]
  rw [filter_span TransactionRow.blockNumber, filter_span TransferRow.blockNumber,
    filter_span InternalTransaction.blockNumber, filter_span Contract.blockNumber]
  · exact unstored.contracts
  · exact newContracts_number one.contracts
  · exact fun row stored => (unstored.internal row stored).1
  · intro row member
    obtain ⟨frame, stored, rfl⟩ := mem_map.mp member
    exact one.internal frame stored
  · exact unstored.transfers
  · intro row member
    obtain ⟨transfer, stored, rfl⟩ := mem_map.mp member
    exact one.transfers transfer stored
  · exact fun row stored => (unstored.transactions row stored).1
  · intro row member
    obtain ⟨tx, stored, rfl⟩ := mem_map.mp member
    exact one.transactions tx stored

end OpsIndexer.Db
