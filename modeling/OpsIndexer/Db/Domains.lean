import OpsIndexer.Db.Counters

/-!
# Values and the domains of their columns

One value outside its column's domain refuses the whole transaction. A batch without one is refused only for a row
it conflicts with: another block under its number, or a log index another transaction has. The rows of contracts and
address statistics hold hex texts, counts and values of rows written before them.
-/

namespace OpsIndexer.Db

open Eth OpsIndexer.Types Lib.Table

structure InDomain (entry : List Bytes → Nat) (data : BlockData) : Prop where
  block : ∀ block ∈ data.block, checkBlock block = .ok ()
  transactions : ∀ tx ∈ data.transactions, checkTransaction tx = .ok ()
  logs : ∀ log ∈ data.logs, checkLog log = .ok ()
  transfers : ∀ transfer ∈ data.transfers, checkTransfer transfer = .ok ()
  frames : ∀ frame ∈ data.internalTransactions, checkInternal entry frame = .ok ()
  tokens : ∀ token ∈ data.tokens, checkToken entry token = .ok ()
  nftTokens : ∀ nft ∈ data.nftTokens, checkNFTToken nft = .ok ()

def WriteError.ofValue : WriteError → Bool
  | .outOfDomain _ => true
  | .invalidValue _ _ => true
  | .storedBlockDiffers _ _ _ => false
  | .logIndexPerTransaction _ _ _ _ _ => false

variable {failure : WriteError} {partitionOf : Nat → Nat} {data : BlockData} {store : Store}

theorem checkLogConflicts_error {table : String} {stored conflicts : List LogKey}
    (failed : checkLogConflicts table stored conflicts = .error failure) : WriteError.ofValue failure = false := by
  obtain ⟨conflict, _, refused⟩ := forM_eq_error failed
  split at refused
  · cases refused
  · split at refused
    · cases refused
    · rw [← Except.error.inj refused]
      rfl

theorem foldlM_addTransfer_decimal {transfers : List TokenTransfer} {deltas : TokenDeltas}
    (decimal : ∀ transfer ∈ transfers, ∃ value, transfer.value = .decimal value)
    (failed : transfers.foldlM addTransfer deltas = .error failure) : False := by
  induction transfers generalizing deltas with
  | nil => cases failed
  | cons transfer rest ih =>
    rw [List.foldlM_cons, bind_eq_error] at failed
    rcases failed with refused | ⟨next, _, later⟩
    · obtain ⟨value, same⟩ := decimal transfer List.mem_cons_self
      unfold addTransfer transferSupply at refused
      simp only [same] at refused
      split at refused <;> cases refused
    · exact ih (fun other member => decimal other (List.mem_cons_of_mem _ member)) later

theorem forM_check_error {α : Type} {check : α → Except WriteError Unit} {rows : List α}
    (inside : ∀ row ∈ rows, check row = .ok ()) (failed : rows.forM check = .error failure) : False := by
  obtain ⟨row, member, refused⟩ := forM_eq_error failed
  rw [inside row member] at refused
  cases refused

theorem writeOwnRows_error {deltaBlocks : Nat} {tx : Store} (inside : InDomain tx.indexEntry data)
    (decimal : ∀ transfer ∈ data.transfers, ∃ value, transfer.value = .decimal value)
    (failed : writeOwnRows partitionOf data deltaBlocks tx = .error failure) : WriteError.ofValue failure = false := by
  unfold writeOwnRows at failed
  rcases bind_eq_error.mp failed with refused | ⟨_, _, failed⟩
  · exact (forM_check_error inside.transactions refused).elim
  rcases bind_eq_error.mp failed with refused | ⟨_, _, failed⟩
  · exact (forM_check_error inside.logs refused).elim
  rcases bind_eq_error.mp failed with refused | ⟨_, _, failed⟩
  · exact checkLogConflicts_error refused
  rcases bind_eq_error.mp failed with refused | ⟨_, _, failed⟩
  · exact (forM_check_error inside.transfers refused).elim
  rcases bind_eq_error.mp failed with refused | ⟨_, _, failed⟩
  · exact (foldlM_addTransfer_decimal (fun transfer member => decimal transfer (mem_of_mem_landed member)) refused).elim
  rcases bind_eq_error.mp failed with refused | ⟨_, _, failed⟩
  · exact checkLogConflicts_error refused
  rcases bind_eq_error.mp failed with refused | ⟨_, _, failed⟩
  · exact (forM_check_error inside.frames refused).elim
  cases failed

theorem storedBlockDiffers_error {block : Block} (failed : storedBlockDiffers store block = .error failure) :
    WriteError.ofValue failure = false := by
  unfold storedBlockDiffers at failed
  split at failed
  · cases failed
  · split at failed
    · cases failed
    · rw [← Except.error.inj failed]
      rfl

private theorem map_opened {write : Except WriteError OpenWrite} {result : Except WriteError BlockWrite}
    (same : write.map BlockWrite.opened = result) :
    (∃ failure, write = .error failure ∧ result = .error failure) ∨
      ∃ own, write = .ok own ∧ result = .ok (.opened own) := by
  cases write with
  | error failure => exact .inl ⟨failure, rfl, same.symm⟩
  | ok own => exact .inr ⟨own, rfl, same.symm⟩

theorem beginBlockData_result (partitionOf : Nat → Nat) (store : Store) (inside : InDomain store.indexEntry data)
    (decimal : ∀ transfer ∈ data.transfers, ∃ value, transfer.value = .decimal value) :
    (∃ failure, beginBlockData partitionOf data store = .error failure ∧ WriteError.ofValue failure = false) ∨
      beginBlockData partitionOf data store = .ok .stored ∨
      ∃ own, beginBlockData partitionOf data store = .ok (.opened own) ∧ own.data = data ∧
        own.tx.indexEntry = store.indexEntry := by
  have written (deltaBlocks : Nat) (blocks : List Block) (result : Except WriteError BlockWrite)
      (same : (writeOwnRows partitionOf data deltaBlocks { store with blocks := blocks }).map BlockWrite.opened = result) :
      (∃ failure, result = .error failure ∧ WriteError.ofValue failure = false) ∨ result = .ok .stored ∨
        ∃ own, result = .ok (.opened own) ∧ own.data = data ∧ own.tx.indexEntry = store.indexEntry := by
    rcases map_opened same with ⟨failure, refused, rfl⟩ | ⟨own, done, rfl⟩
    · exact .inl ⟨failure, rfl, writeOwnRows_error (by exact inside) decimal refused⟩
    · have rows := (writeOwnRows_ok done).1
      exact .inr (.inr ⟨own, rfl, rows.data, rows.indexEntry⟩)
  unfold beginBlockData
  cases named : data.block with
  | none => exact written 0 store.blocks _ rfl
  | some block =>
    have accepted : checkBlock block = .ok () := inside.block block (by rw [named]; rfl)
    simp only [accepted, bind, Except.bind]
    split
    · cases differs : storedBlockDiffers store block with
      | error failure => exact .inl ⟨failure, rfl, storedBlockDiffers_error differs⟩
      | ok _ => exact .inr (.inl rfl)
    · exact written 1 _ _ rfl

theorem insertBlockDataBatch_error (inside : InDomain store.indexEntry data)
    (decimal : ∀ transfer ∈ data.transfers, ∃ value, transfer.value = .decimal value)
    (failed : insertBlockDataBatch partitionOf data store = .error failure) : WriteError.ofValue failure = false := by
  unfold insertBlockDataBatch at failed
  rcases beginBlockData_result partitionOf store inside decimal with
    ⟨other, refused, conflict⟩ | stored | ⟨own, opened, same, entry⟩
  · rw [refused] at failed
    rw [← Except.error.inj failed]
    exact conflict
  · rw [stored] at failed
    cases failed
  · rw [opened] at failed
    change finish store (.opened own) = .error failure at failed
    unfold finish writeSharedRows at failed
    simp only [same, entry] at failed
    rcases bind_eq_error.mp failed with refused | ⟨_, _, failed⟩
    · exact (forM_check_error inside.tokens refused).elim
    rcases bind_eq_error.mp failed with refused | ⟨_, _, failed⟩
    · exact (forM_check_error inside.nftTokens refused).elim
    cases failed

end OpsIndexer.Db
