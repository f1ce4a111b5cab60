import OpsIndexer.Db.CompleteBlock
import OpsIndexer.Db.CounterRuns

/-!
# A revert undoes its write

No history table refers to the blocks it belongs to since the foreign keys were dropped. The writes and the reverts
keep every row beside its block, so a revert finds by the number all that a write has left.
-/

namespace OpsIndexer.Db

open Eth OpsIndexer.Types Lib.Table List

def Store.rowNumbers (store : Store) : List Nat :=
  store.transactions.map (·.blockNumber) ++ store.logs.map (·.blockNumber) ++
    store.tokenTransfers.map (·.blockNumber) ++ store.internalTransactions.map (·.blockNumber) ++
    store.contracts.map (·.blockNumber)

def BlockData.rowNumbers (data : BlockData) : List Nat :=
  data.transactions.map (·.blockNumber) ++ data.logs.map (·.blockNumber) ++ data.transfers.map (·.blockNumber) ++
    data.internalTransactions.map (·.blockNumber) ++ data.contracts.map (·.blockNumber)

def StoreOp.OwnRows : StoreOp → Prop
  | .insertBlockDataBatch data => ∃ block, data.block = some block ∧ ∀ number ∈ data.rowNumbers, number = block.number
  | _ => True

def Store.Owned (store : Store) : Prop :=
  store.rowNumbers ⊆ store.blocks.map (·.number)

section

variable {partitionOf : Nat → Nat} {data : BlockData} {block : Block} {store next : Store} {number : Nat}

theorem insertContracts_appended (contracts table : List Contract)
    (own : ∀ other ∈ contracts.map (·.blockNumber), other = number) :
    Appended (·.blockNumber) number table (insertContracts contracts table) := by
  refine insertAll_appended Contract.blockNumber Contract.blockNumber (fun _ => rfl) contractConflicts _ table ?_
  intro other member
  have batch : Appended Contract.blockNumber number [] (insertAll contractRow contractConflicts contracts []) :=
    insertAll_appended _ _ (fun _ => rfl) contractConflicts contracts [] own
  exact (batch.mem_keys member).resolve_left (not_mem_nil)

structure Extended (store next : Store) (number : Nat) : Prop where
  transactions : Appended (·.blockNumber) number store.transactions next.transactions
  logs : Appended (·.blockNumber) number store.logs next.logs
  transfers : Appended (·.blockNumber) number store.tokenTransfers next.tokenTransfers
  frames : Appended (·.blockNumber) number store.internalTransactions next.internalTransactions
  contracts : Appended (·.blockNumber) number store.contracts next.contracts

theorem insertBlockDataBatch_extended (named : data.block = some block)
    (own : ∀ other ∈ data.rowNumbers, other = block.number)
    (absent : store.blocks.any (blockConflicts partitionOf block) = false)
    (done : insertBlockDataBatch partitionOf data store = .ok next) : Extended store next block.number := by
  obtain ⟨_, _, transactions, logs, transfers, frames, contracts, _⟩ := insertBlockDataBatch_inserted named absent done
  simp only [BlockData.rowNumbers, mem_append, or_imp, forall_and] at own
  obtain ⟨⟨⟨⟨ownTransactions, ownLogs⟩, ownTransfers⟩, ownFrames⟩, ownContracts⟩ := own
  exact
    { transactions := transactions ▸ insertAll_appended _ _ (fun _ => rfl) _ _ _ ownTransactions
      logs := logs ▸ insertAll_appended _ _ (fun _ => rfl) _ _ _ ownLogs
      transfers := transfers ▸ insertAll_appended _ _ (fun _ => rfl) _ _ _ ownTransfers
      frames := frames ▸ insertAll_appended _ _ (fun _ => rfl) _ _ _ ownFrames
      contracts := contracts ▸ insertContracts_appended _ _ ownContracts }

theorem Extended.rowNumbers (extended : Extended store next number) (other : Nat) (member : other ∈ next.rowNumbers) :
    other ∈ store.rowNumbers ∨ other = number := by
  obtain ⟨transactions, logs, transfers, frames, contracts⟩ := extended
  simp only [Store.rowNumbers, mem_append] at member ⊢
  grind [Appended.mem_keys]

variable (keccak256 : Bytes → Hash)

theorem deleteBlock_rowNumbers :
    (deleteBlock keccak256 number store).rowNumbers = store.rowNumbers.filter (· ≠ number) := by
  simp [Store.rowNumbers, deleteBlock, filter_map, Function.comp_def]

theorem insertBlock_owned (owned : store.Owned) (done : insertBlock partitionOf block store = .ok next) :
    next.Owned := by
  obtain rfl | ⟨_, rfl⟩ := insertBlock_cases done
  · exact owned
  · intro other member
    have kept := owned member
    simp only [map_append, mem_append]
    exact .inl kept

theorem insertBlockDataBatch_owned (owned : store.Owned) (named : data.block = some block)
    (own : ∀ other ∈ data.rowNumbers, other = block.number)
    (done : insertBlockDataBatch partitionOf data store = .ok next) : next.Owned := by
  cases absent : store.blocks.any (blockConflicts partitionOf block) with
  | true => exact insertBlockDataBatch_taken named absent done ▸ owned
  | false =>
    intro other member
    rw [(insertBlockDataBatch_inserted named absent done).blocks, map_append, mem_append]
    rcases (insertBlockDataBatch_extended named own absent done).rowNumbers other member with kept | new
    · exact .inl (owned kept)
    · exact .inr (by simp [new])

theorem deleteBlock_owned (owned : store.Owned) :
    (deleteBlock keccak256 number store).Owned := by
  intro other member
  rw [deleteBlock_rowNumbers, mem_filter] at member
  obtain ⟨block, stored, rfl⟩ := mem_map.mp (owned member.1)
  exact mem_map_of_mem (mem_filter.mpr ⟨stored, member.2⟩)

theorem Attempt.run_owned (attempt : Attempt) (own : attempt.op.OwnRows)
    (owned : store.Owned) : (attempt.run keccak256 store).Owned := by
  obtain same | applied := attempt.run_cases keccak256 store
  · rwa [same]
  · cases named : attempt.op with
    | insertBlock block => exact insertBlock_owned owned (named ▸ applied)
    | insertBlockDataBatch data =>
      rw [named] at own applied
      obtain ⟨block, given, rows⟩ := own
      exact insertBlockDataBatch_owned owned given rows applied
    | deleteBlock number =>
      rw [named] at applied
      exact Except.ok.inj applied ▸ deleteBlock_owned keccak256 owned

theorem foldl_owned (attempts : List Attempt) (own : ∀ attempt ∈ attempts, attempt.op.OwnRows)
    (owned : store.Owned) :
    (attempts.foldl (Attempt.run keccak256) store).Owned := by
  induction attempts generalizing store with
  | nil => exact owned
  | cons attempt rest ih =>
    exact ih (fun later member => own later (mem_cons_of_mem _ member))
      (attempt.run_owned keccak256 (own attempt mem_cons_self) owned)

end

/-- Whatever was written, refused, rolled back and reverted before, each row of the five tables has its block beside
it. -/
theorem rows_beside_block (keccak256 : Bytes → Hash) (attempts : List Attempt)
    (own : ∀ attempt ∈ attempts, attempt.op.OwnRows) :
    ∀ number ∈ (runStore keccak256 attempts).rowNumbers,
      ∃ block ∈ (runStore keccak256 attempts).blocks, block.number = number := by
  intro number member
  have owned : (runStore keccak256 attempts).Owned := foldl_owned keccak256 attempts own (nil_subset _)
  exact mem_map.mp (owned member)

theorem lateTokenRun_ownRows : ∀ attempt ∈ lateTokenRun, attempt.op.OwnRows := by
  simp [lateTokenRun, mintAttempt, StoreOp.OwnRows, BlockData.rowNumbers]

theorem rows_beside_block_reverted :
    (runStore (fun _ => 0) lateTokenRun).rowNumbers = [1] ∧
      ∃ block ∈ (runStore (fun _ => 0) lateTokenRun).blocks, block.number = 1 := by
  have rows : (runStore (fun _ => 0) lateTokenRun).rowNumbers = [1] := by decide +kernel
  refine ⟨rows, rows_beside_block _ lateTokenRun lateTokenRun_ownRows 1 ?_⟩
  rw [rows]
  exact mem_singleton_self 1

/-- What a revert of the block gives back: every row of the six tables, in its place, and the counts over them. -/
structure Undone (store back : Store) : Prop where
  blocks : back.blocks = store.blocks
  transactions : back.transactions = store.transactions
  logs : back.logs = store.logs
  transfers : back.tokenTransfers = store.tokenTransfers
  frames : back.internalTransactions = store.internalTransactions
  contracts : back.contracts = store.contracts
  counters : ∀ name ∈ [CounterName.blocksTotal, .transactionsTotal, .transfersTotal],
    back.counter name = store.counter name
  tokens : ∀ old ∈ store.tokens, ∃ row ∈ back.tokens, row.address = old.address ∧
    row.transferCount = old.transferCount

section

variable {partitionOf : Nat → Nat} {data : BlockData} {store next : Store}

theorem upsertTokens_addresses (data : BlockData) (tokens : List TokenRow) :
    tokens.map (·.address) ⊆ (upsertTokens data tokens).1.map (·.address) := by
  have run (rest : List Token) (tables : List TokenRow × List String)
      (kept : tokens.map (·.address) ⊆ tables.1.map (·.address)) :
      tokens.map (·.address) ⊆ (rest.foldl upsertToken tables).1.map (·.address) := by
    induction rest generalizing tables with
    | nil => exact kept
    | cons token rest ih =>
      apply ih
      unfold upsertToken
      split
      · dsimp only
        rwa [keys_updateKey]
        exact fun _ => rfl
      · rw [map_append]
        exact subset_append_of_subset_left _ kept
  exact run data.tokens (tokens, []) (List.Subset.refl _)

theorem insertBlockDataBatch_addresses (done : insertBlockDataBatch partitionOf data store = .ok next) :
    store.tokens.map (·.address) ⊆ next.tokens.map (·.address) := by
  rcases insertBlockDataBatch_cases done with same | ⟨_, write, _, own, _, finished⟩
  · exact same ▸ List.Subset.refl _
  · rw [writeSharedRows_tokens rfl finished, applyDeltas, keys_updateKeys, seedTokens, keys_updateKeys]
    · exact own.tokens ▸ upsertTokens_addresses _ _
    · exact fun _ _ => rfl
    · exact fun _ _ => rfl

theorem deleteBlock_addresses (keccak256 : Bytes → Hash) (number : Nat) :
    (deleteBlock keccak256 number store).tokens.map (·.address) = store.tokens.map (·.address) := by
  simp only [deleteBlock, revertTokens]
  rw [keys_updateKeys]
  exact fun _ _ => rfl

end

/-- A revert of the block just written, in a store that any run has left, is as if the block had not been written. -/
theorem revert_undoes_write (keccak256 : Bytes → Hash) (attempts : List Attempt)
    (runRows : ∀ attempt ∈ attempts, attempt.op.OwnRows) {partitionOf : Nat → Nat} {data : BlockData} {block : Block}
    {next : Store} (named : data.block = some block) (own : ∀ other ∈ data.rowNumbers, other = block.number)
    (absent : (runStore keccak256 attempts).blocks.any (blockConflicts partitionOf block) = false)
    (done : insertBlockDataBatch partitionOf data (runStore keccak256 attempts) = .ok next) :
    Undone (runStore keccak256 attempts) (deleteBlock keccak256 block.number next) := by
  have owned : (runStore keccak256 attempts).Owned := foldl_owned keccak256 attempts runRows (nil_subset _)
  have counted : Counted (runStore keccak256 attempts) := foldl_counted keccak256 attempts {} Counted.empty
  generalize runStore keccak256 attempts = store at absent done owned counted ⊢
  obtain ⟨transactions, logs, transfers, frames, contracts⟩ := insertBlockDataBatch_extended named own absent done
  have back := deleteBlock_counted keccak256 block.number next (insertBlockDataBatch_counted counted done)
  -- No stored block has the number, so no stored row has it either.
  have unstored : block.number ∉ store.blocks.map (·.number) := by
    intro member
    obtain ⟨row, stored, same⟩ := mem_map.mp member
    simpa [blockConflicts, same] using any_eq_false.mp absent row stored
  have fresh : block.number ∉ store.rowNumbers := fun member => unstored (owned member)
  simp only [Store.rowNumbers, mem_append, not_or] at fresh
  obtain ⟨⟨⟨⟨freshTransactions, freshLogs⟩, freshTransfers⟩, freshFrames⟩, freshContracts⟩ := fresh
  have blocks : Appended (·.number) block.number store.blocks next.blocks :=
    ⟨[block], (insertBlockDataBatch_inserted named absent done).blocks, by simp⟩
  have sameBlocks := blocks.filter_ne unstored
  have sameTransactions := transactions.filter_ne freshTransactions
  have sameTransfers := transfers.filter_ne freshTransfers
  refine ⟨sameBlocks, sameTransactions, logs.filter_ne freshLogs, sameTransfers, frames.filter_ne freshFrames,
    contracts.filter_ne freshContracts, ?_, ?_⟩
  · intro name member
    simp only [mem_cons, not_mem_nil, or_false] at member
    obtain rfl | rfl | rfl := member
    · rw [back.blocks, counted.blocks]
      exact congrArg (fun rows => (rows.length : Int)) sameBlocks
    · rw [back.transactions, counted.transactions]
      exact congrArg (fun rows => (rows.length : Int)) sameTransactions
    · rw [back.transfers, counted.transfers]
      exact congrArg (fun rows => (rows.length : Int)) sameTransfers
  · intro old stored
    have kept := insertBlockDataBatch_addresses done (mem_map_of_mem stored)
    rw [← deleteBlock_addresses keccak256 block.number] at kept
    obtain ⟨row, member, same⟩ := mem_map.mp kept
    refine ⟨row, member, same, ?_⟩
    rw [counted.tokens old stored, ← same, back.tokens row member]
    exact congrArg (fun rows => ((transfersOf rows row.address).length : Int)) sameTransfers

/-- A block with a transaction is written over one with a transfer, and reverted. -/
theorem revert_undoes_write_included :
    (afterWrite (includedData 5) (runStore (fun _ => 0) lateTokenRun)).rowNumbers = [5, 1] ∧
      Undone (runStore (fun _ => 0) lateTokenRun)
        (deleteBlock (fun _ => 0) 5 (afterWrite (includedData 5) (runStore (fun _ => 0) lateTokenRun))) :=
  ⟨by decide +kernel, revert_undoes_write _ lateTokenRun lateTokenRun_ownRows
    (rfl : (includedData 5).block = some (includedBlock 5))
    (by decide) (by decide +kernel) (afterWrite_ok (by decide +kernel))⟩

/-- A write that was kept, and its acknowledgement lost, is kept again and changes nothing. -/
theorem rewrite_changes_nothing {partitionOf : Nat → Nat} {data : BlockData} {block : Block} {store next : Store}
    (named : data.block = some block) (done : insertBlockDataBatch partitionOf data store = .ok next) :
    insertBlockDataBatch partitionOf data next = .ok next := by
  cases absent : store.blocks.any (blockConflicts partitionOf block) with
  | true =>
    obtain rfl := insertBlockDataBatch_taken named absent done
    exact done
  | false =>
    obtain ⟨_, blocks, _⟩ := insertBlockDataBatch_inserted named absent done
    have taken : next.blocks.any (blockConflicts partitionOf block) = true := by
      simp [blocks, blockConflicts]
    have own : next.blocks.find? (fun row => row.number = block.number) = some block := by
      rw [blocks, List.find?_append, List.find?_eq_none.mpr]
      · simp
      · intro row stored
        have other := any_eq_false.mp absent row stored
        simp only [blockConflicts] at other
        grind
    unfold insertBlockDataBatch beginBlockData at done ⊢
    rw [named] at done ⊢
    obtain ⟨write, begun, _⟩ := bind_eq_ok.mp done
    obtain ⟨_, accepted, _⟩ := bind_eq_ok.mp begun
    simp only [accepted, taken, storedBlockDiffers, own, bind, Except.bind, if_true]
    rfl

theorem rewrite_changes_nothing_included :
    (afterWrite (includedData 5) {}).rowNumbers = [5] ∧
      insertBlockDataBatch (fun _ => 0) (includedData 5) (afterWrite (includedData 5) {}) =
        .ok (afterWrite (includedData 5) {}) :=
  ⟨by decide +kernel, rewrite_changes_nothing rfl (afterWrite_ok (by decide +kernel))⟩

end OpsIndexer.Db
