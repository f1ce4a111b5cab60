import OpsIndexer.Db.LedgerBooks
import OpsIndexer.Db.StoredRows

/-!
# Steps that keep the ledger sound

Block writes past the closed prefix and the watermark, reverts outside the closed spans, closing, pruning, dropping and
compacting.
-/

namespace OpsIndexer.Db

open Eth OpsIndexer.Types Lib.Table Lib.Tally Lib.Recount List

/-! ## Counted rows of tables that grow and shrink -/

theorem tally_rowItems (blocks : List Block) (transactions : List TransactionRow) (transfers : List TransferRow) :
    (tally LedgerCounter.blocks.counts anywhere (rowItems blocks transactions transfers) = blocks.length ∧
      tally LedgerCounter.transactions.counts anywhere (rowItems blocks transactions transfers) =
        transactions.length ∧
      tally LedgerCounter.transfers.counts anywhere (rowItems blocks transactions transfers) = transfers.length) ∧
    ∀ token, tally (LedgerCounter.token token).counts anywhere (rowItems blocks transactions transfers) =
      (transfersOf transfers token).length := by
  simp only [rowItems, tally_append, tally_map]
  simp [LedgerCounter.counts, anywhere, transfersOf]

theorem rowItems_append (blocks moreBlocks : List Block) (transactions moreTransactions : List TransactionRow)
    (transfers moreTransfers : List TransferRow) :
    (rowItems (blocks ++ moreBlocks) (transactions ++ moreTransactions) (transfers ++ moreTransfers)).Perm
      (rowItems blocks transactions transfers ++ rowItems moreBlocks moreTransactions moreTransfers) := by
  simp only [rowItems, map_append, ← Multiset.coe_eq_coe, ← Multiset.coe_add]
  abel

theorem rowItems_filter (keep : Nat → Bool) (blocks : List Block) (transactions : List TransactionRow)
    (transfers : List TransferRow) :
    (rowItems blocks transactions transfers).Perm
      (rowItems (blocks.filter fun row => keep row.number) (transactions.filter fun row => keep row.blockNumber)
          (transfers.filter fun row => keep row.blockNumber) ++
        rowItems (blocks.filter fun row => !keep row.number) (transactions.filter fun row => !keep row.blockNumber)
          (transfers.filter fun row => !keep row.blockNumber)) := by
  refine List.Perm.trans ?_ (rowItems_append _ _ _ _ _ _)
  refine List.Perm.append (List.Perm.append ?_ ?_) ?_
  · exact ((filter_append_perm (fun row : Block => keep row.number) blocks).map _).symm
  · exact ((filter_append_perm (fun row : TransactionRow => keep row.blockNumber) transactions).map _).symm
  · exact ((filter_append_perm (fun row : TransferRow => keep row.blockNumber) transfers).map _).symm

theorem mem_rowItems (holds : Nat → Prop) {blocks : List Block} {transactions : List TransactionRow}
    {transfers : List TransferRow} (blockRows : ∀ row ∈ blocks, holds row.number)
    (transactionRows : ∀ row ∈ transactions, holds row.blockNumber)
    (transferRows : ∀ row ∈ transfers, holds row.blockNumber) :
    ∀ item ∈ rowItems blocks transactions transfers, holds item.1 := by
  intro item member
  simp only [rowItems, mem_append, mem_map] at member
  rcases member with (⟨row, listed, rfl⟩ | ⟨row, listed, rfl⟩) | ⟨row, listed, rfl⟩
  · exact blockRows row listed
  · exact transactionRows row listed
  · exact transferRows row listed

/-! ## Token rows seeded from the ledger -/

theorem seedTokensFrom_eq (counted : String → Int × Int) (seeds : List String) (tokens : List TokenRow)
    (distinct : seeds.Nodup) :
    seedTokensFrom counted seeds tokens =
      tokens.map fun row => if row.address ∈ seeds then seedTokenFrom (counted row.address) row else row := by
  rw [seedTokensFrom, updateKeys_eq]
  · apply map_congr_left
    intro row _
    rw [lookup_map_keys seeds fun address => seedTokenFrom (counted address)]
    split <;> rfl
  · simpa [map_map, Function.comp_def] using distinct
  · intro change member row
    obtain ⟨address, _, rfl⟩ := mem_map.mp member
    rfl

variable {counted : String → Int × Int} {shared : SharedRows} {tx next : Store}

theorem writeSharedRowsFrom_ok (done : writeSharedRowsFrom counted shared tx = .ok next) :
    next.blocks = tx.blocks ∧ next.transactions = tx.transactions ∧ next.tokenTransfers = tx.tokenTransfers ∧
      next.counter .blocksTotal = tx.counter .blocksTotal + shared.blocks ∧
      next.counter .transactionsTotal = tx.counter .transactionsTotal + shared.txs ∧
      next.counter .transfersTotal = tx.counter .transfersTotal + shared.transfers := by
  unfold writeSharedRowsFrom at done
  obtain ⟨written, first, done⟩ := bind_eq_ok.mp done
  cases done
  have kept := writeSharedRows_ok first
  exact kept

theorem writeSharedRowsFrom_transferCount (done : writeSharedRowsFrom counted shared tx = .ok next)
    (after : String → Int) (seeded : ∀ token, (counted token).1 +
      (if shared.seedCountsOwnRows then 0 else (deltaOf shared.tokenDeltas token).transferDelta) = after token)
    (moved : ∀ row ∈ tx.tokens,
      row.transferCount + (deltaOf shared.tokenDeltas row.address).transferDelta = after row.address) :
    ∀ row ∈ next.tokens, row.transferCount = after row.address := by
  unfold writeSharedRowsFrom at done
  obtain ⟨written, first, done⟩ := bind_eq_ok.mp done
  cases done
  have holds := upsertTokens_upserted shared.data tx.tokens
  intro row member
  rw [applyDeltas_eq, seedTokensFrom_eq _ _ _ holds.distinct, map_map] at member
  obtain ⟨source, found, rfl⟩ := mem_map.mp member
  have applied (delta : Option TokenStatsDelta) (old : TokenRow) :
      ((delta.map applyDelta).getD id old).address = old.address ∧
        ((delta.map applyDelta).getD id old).transferCount =
          old.transferCount + (delta.getD {}).transferDelta := by
    cases delta <;> simp [applyDelta]
  simp only [Function.comp_apply]
  rw [(applied _ _).1, (applied _ _).2]
  by_cases new : source.address ∈ (upsertTokens shared.data tx.tokens).2
  · rw [if_pos new]
    have total := seeded source.address
    show (counted source.address).1 + _ = after source.address
    rw [← total]
    congr 1
    show ((remainingDeltas shared _).lookup source.address |>.getD {}).transferDelta = _
    unfold remainingDeltas
    cases shared.seedCountsOwnRows with
    | true => rw [if_pos rfl, if_pos rfl, lookup_foldl_erase, if_pos new, Option.getD_none]
    | false => rw [if_neg Bool.false_ne_true, if_neg Bool.false_ne_true, deltaOf]
  · rw [if_neg new]
    obtain ⟨old, oldMember, address, count, _⟩ := (holds.origin source found).resolve_left new
    have total := moved old oldMember
    rw [← address, ← total, count]
    congr 2
    show ((remainingDeltas shared _).lookup old.address).getD {} = _
    unfold remainingDeltas
    cases shared.seedCountsOwnRows with
    | true => rw [if_pos rfl, lookup_foldl_erase, if_neg (address ▸ new), deltaOf]
    | false => rw [if_neg Bool.false_ne_true, deltaOf]

/-! ## Block writes and reverts -/

theorem running_iff (ledger : Ledger) (total : LedgerCounter → Int) :
    (∀ entry ∈ ledger.running, entry.2 = total entry.1) ↔
      ledger.store.counter .blocksTotal = total .blocks ∧
      ledger.store.counter .transactionsTotal = total .transactions ∧
      ledger.store.counter .transfersTotal = total .transfers ∧
      ∀ row ∈ ledger.store.tokens, row.transferCount = total (.token row.address) := by
  simp [Ledger.running, or_imp, forall_and]

def writeNumbers (data : BlockData) : List Nat :=
  data.block.toList.map (·.number) ++ data.transactions.map (·.blockNumber) ++ data.transfers.map (·.blockNumber)

def PastLedger (config : LedgerConfig) (ledger : Ledger) (number : Nat) : Prop :=
  ledger.closedThrough ≤ number ∧ ledger.historyFrom ≤ number ∧ config.firstBlock ≤ number

section Writes

variable {config : LedgerConfig} {ledger : Ledger} {gone : List (Nat × CountedRow)}

theorem Sound.grow (sound : Sound config ledger gone) {store : Store} (blocks : List Block)
    (transactions : List TransactionRow) (transfers : List TransferRow)
    (sameBlocks : store.blocks = ledger.store.blocks ++ blocks)
    (sameTransactions : store.transactions = ledger.store.transactions ++ transactions)
    (sameTransfers : store.tokenTransfers = ledger.store.tokenTransfers ++ transfers)
    (numbers : (store.blocks.map (·.number)).Nodup)
    (past : ∀ item ∈ rowItems blocks transactions transfers, PastLedger config ledger item.1)
    (blockTotal : store.counter .blocksTotal = ledger.store.counter .blocksTotal + blocks.length)
    (transactionTotal : store.counter .transactionsTotal =
      ledger.store.counter .transactionsTotal + transactions.length)
    (transferTotal : store.counter .transfersTotal = ledger.store.counter .transfersTotal + transfers.length)
    (tokens : ∀ row ∈ store.tokens, row.transferCount =
      ledger.total gone (.token row.address) + (transfersOf transfers row.address).length) :
    Sound config { ledger with store := store } gone := by
  have grown : (storeItems store).Perm (storeItems ledger.store ++ rowItems blocks transactions transfers) := by
    rw [storeItems, sameBlocks, sameTransactions, sameTransfers]
    exact rowItems_append _ _ _ _ _ _
  have total (counter : LedgerCounter) : ({ ledger with store := store } : Ledger).total gone counter =
      ledger.total gone counter + tally counter.counts anywhere (rowItems blocks transactions transfers) := by
    rw [Ledger.total, Ledger.total, tally_append, tally_append, tally_perm _ _ grown, tally_append]
    push_cast
    omega
  have before := (running_iff ledger (ledger.total gone)).mp sound.running
  have fresh := tally_rowItems blocks transactions transfers
  refine ⟨?_, ?_, numbers, ?_, sound.detached, ?_⟩
  · refine sound.balanced.keep grown ?_
    intro item member
    have bound := past item member
    exact ⟨ledger.closedThrough_eq ▸ bound.1, bound.2.1⟩
  · refine (running_iff _ _).mpr ⟨?_, ?_, ?_, ?_⟩
    · rw [total, fresh.1.1, ← before.1]
      exact blockTotal
    · rw [total, fresh.1.2.1, ← before.2.1]
      exact transactionTotal
    · rw [total, fresh.1.2.2, ← before.2.2.1]
      exact transferTotal
    · intro row member
      rw [total, fresh.2]
      exact tokens row member
  · intro item member
    rcases mem_append.mp (grown.mem_iff.mp member) with old | new
    · exact sound.first item old
    · exact (past item new).2.2
  · intro state running
    have placed := sound.backfill state running
    exact ⟨placed.started, placed.bounded, placed.pruned, placed.spanLo, placed.stage, placed.placed⟩

variable {partitionOf : Nat → Nat} {next : Ledger}

theorem Sound.insertBlock (sound : Sound config ledger gone) {block : Block}
    (done : ledger.insertBlock partitionOf block = .ok next) (past : PastLedger config ledger block.number) :
    Sound config next gone := by
  unfold Ledger.insertBlock at done
  obtain ⟨store, written, done⟩ := bind_eq_ok.mp done
  cases done
  rcases insertBlock_cases written with same | ⟨free, rfl⟩
  · subst same
    exact sound
  · have moved (name : CounterName) :
        counterOf (addCounter ledger.store.chainCounters (.blocksTotal, 1)) name =
          if name = .blocksTotal then ledger.store.counter name + 1 else ledger.store.counter name :=
      counterOf_addCounter _ _ _ _
    have before := (running_iff ledger (ledger.total gone)).mp sound.running
    refine sound.grow [block] [] [] rfl (append_nil _).symm (append_nil _).symm
      (numbers_append sound.numbers free) ?_ ?_ ?_ ?_ ?_
    · exact mem_rowItems (PastLedger config ledger) (by simpa using past) (by simp) (by simp)
    · exact (moved .blocksTotal).trans (by simp)
    · exact (moved .transactionsTotal).trans (by simp)
    · exact (moved .transfersTotal).trans (by simp)
    · intro row member
      rw [before.2.2.2 row member]
      simp [transfersOf]

theorem Sound.insertBlockDataBatch (sound : Sound config ledger gone) {data : BlockData}
    (done : ledger.insertBlockDataBatch partitionOf data = .ok next)
    (past : ∀ number ∈ writeNumbers data, PastLedger config ledger number) : Sound config next gone := by
  unfold Ledger.insertBlockDataBatch at done
  obtain ⟨write, begun, done⟩ := bind_eq_ok.mp done
  rcases beginBlockData_cases begun with stored | ⟨opened, rfl, free, own⟩
  · subst stored
    simp only [Except.ok.injEq] at done
    exact done ▸ sound
  · obtain ⟨store, finished, done⟩ := bind_eq_ok.mp done
    cases done
    obtain ⟨rows, blockCount⟩ := writeOwnRows_ok own
    obtain ⟨_, ownTransactions, ownTransfers, _⟩ := writeOwnRows_tables own
    obtain ⟨sameBlocks, sameTransactions, sameTransfers, blockTotal, transactionTotal, transferTotal⟩ :=
      writeSharedRowsFrom_ok finished
    obtain ⟨newRows, transactionTable, transactionCount⟩ := rows.transactions
    obtain ⟨landed, transferTable, transferCount, checked, collected⟩ := rows.transfers
    have rowsEq := append_cancel_left (transactionTable.symm.trans ownTransactions)
    have landedEq := append_cancel_left (transferTable.symm.trans ownTransfers)
    have before (name : CounterName) : opened.tx.counter name = ledger.store.counter name := by
      simp only [Store.counter, rows.counters]
    have delta (token : String) : (deltaOf opened.tokenDeltas token).transferDelta =
        ((transfersOf (landed.map transferRow) token).length : Int) := by
      have moved := (foldlM_addTransfer landed ∅ _ token checked collected).1
      simpa [deltaOf] using moved
    -- What the seed reads is the retained rows of the ledger with the write's own rows in.
    have seedTotal (token : String) : (ledger.tokenCounted opened.tx.tokenTransfers token).1 =
        ledger.total gone (.token token) + (transfersOf (landed.map transferRow) token).length := by
      rw [tokenCounted_fst ledger opened.tx, ← retained_eq sound.balanced]
      have above : (landed.map transferRow).filter (fun row => ledger.historyFrom ≤ row.blockNumber) =
          landed.map transferRow := by
        rw [filter_eq_self]
        intro row member
        rw [landedEq] at member
        obtain ⟨transfer, listed, rfl⟩ := mem_map.mp member
        have number : transfer.blockNumber ∈ writeNumbers data :=
          mem_append_right _ (mem_map_of_mem (mem_of_mem_landed listed))
        exact decide_eq_true (past _ number).2.1
      have split : historyRows opened.tx ledger.historyFrom (.token token) =
          historyRows ledger.store ledger.historyFrom (.token token) +
            (transfersOf (landed.map transferRow) token).length := by
        simp only [historyRows, transferTable, filter_append, transfersOf_append, length_append, above]
      rw [split]
      push_cast
      omega
    have running := (running_iff ledger (ledger.total gone)).mp sound.running
    refine sound.grow data.block.toList newRows (landed.map transferRow) (sameBlocks.trans rows.blocks)
      (sameTransactions.trans transactionTable) (sameTransfers.trans transferTable) ?_ ?_ ?_ ?_ ?_ ?_
    · rw [sameBlocks, rows.blocks]
      cases named : data.block with
      | none => simpa using sound.numbers
      | some block => exact numbers_append sound.numbers (free block named)
    · apply mem_rowItems (PastLedger config ledger)
      · intro block member
        exact past _ (mem_append_left _ (mem_append_left _ (mem_map_of_mem member)))
      · intro row member
        rw [rowsEq] at member
        obtain ⟨tx, listed, rfl⟩ := mem_map.mp member
        exact past _ (mem_append_left _ (mem_append_right _
          (mem_map_of_mem (mem_of_mem_landed listed))))
      · intro row member
        rw [landedEq] at member
        obtain ⟨transfer, listed, rfl⟩ := mem_map.mp member
        exact past _ (mem_append_right _ (mem_map_of_mem (mem_of_mem_landed listed)))
    · rw [blockTotal, before, blockCount]
    · rw [transactionTotal, before, transactionCount]
    · rw [transferTotal, before, length_map, transferCount]
    · apply writeSharedRowsFrom_transferCount finished fun token =>
        ledger.total gone (.token token) + (transfersOf (landed.map transferRow) token).length
      · intro token
        rw [if_pos rfl, add_zero]
        exact seedTotal token
      · intro row member
        rw [rows.tokens] at member
        rw [running.2.2.2 row member, delta]

theorem Sound.deleteBlock (sound : Sound config ledger gone) (keccak256 : Bytes → Hash) (number : Nat)
    (free : ∀ span ∈ ledger.spans, ¬ (span.lo ≤ number ∧ number < span.hi)) :
    Sound config (ledger.deleteBlock keccak256 number) gone := by
  have shrunk := rowItems_filter (fun position => decide (position ≠ number)) ledger.store.blocks
    ledger.store.transactions ledger.store.tokenTransfers
  simp only [ne_eq, decide_not, Bool.not_not] at shrunk
  generalize keptItems : rowItems (ledger.store.blocks.filter fun row => !decide (row.number = number))
    (ledger.store.transactions.filter fun row => !decide (row.blockNumber = number))
    (ledger.store.tokenTransfers.filter fun row => !decide (row.blockNumber = number)) = kept at shrunk
  generalize removedItems : rowItems (ledger.store.blocks.filter fun row => decide (row.number = number))
    (ledger.store.transactions.filter fun row => decide (row.blockNumber = number))
    (ledger.store.tokenTransfers.filter fun row => decide (row.blockNumber = number)) = removed at shrunk
  have items : storeItems (ledger.deleteBlock keccak256 number).store = kept := by
    rw [← keptItems]
    simp [storeItems, Ledger.deleteBlock, Db.deleteBlock]
  have removedAt : ∀ item ∈ removed, item.1 = number := by
    rw [← removedItems]
    apply mem_rowItems (· = number) <;> simp
  have total (counter : LedgerCounter) : ledger.total gone counter =
      (ledger.deleteBlock keccak256 number).total gone counter + tally counter.counts anywhere removed := by
    rw [Ledger.total, Ledger.total, items, tally_append, tally_append]
    have same : tally counter.counts anywhere (storeItems ledger.store) = _ := tally_perm _ _ shrunk
    rw [same, tally_append]
    push_cast
    omega
  have nonneg (counter : LedgerCounter) : 0 ≤ (ledger.deleteBlock keccak256 number).total gone counter :=
    Int.natCast_nonneg _
  have gones := tally_rowItems (ledger.store.blocks.filter fun row => decide (row.number = number))
    (ledger.store.transactions.filter fun row => decide (row.blockNumber = number))
    (ledger.store.tokenTransfers.filter fun row => decide (row.blockNumber = number))
  rw [removedItems] at gones
  have before := (running_iff ledger (ledger.total gone)).mp sound.running
  have blockTotal := total .blocks
  have transactionTotal := total .transactions
  have transferTotal := total .transfers
  rw [gones.1.1] at blockTotal
  rw [gones.1.2.1] at transactionTotal
  rw [gones.1.2.2] at transferTotal
  have blocksLeft := nonneg .blocks
  have transactionsLeft := nonneg .transactions
  have transfersLeft := nonneg .transfers
  obtain ⟨movedBlocks, movedTransactions, movedTransfers⟩ := deleteBlock_counter_sub keccak256 number ledger.store
    sound.numbers (by rw [before.1]; omega) (by rw [before.2.1]; omega) (by rw [before.2.2.1]; omega)
  refine ⟨?_, ?_, ?_, ?_, sound.detached, ?_⟩
  · have balanced := sound.balanced.revert shrunk fun item member => by
      rw [← Bool.not_eq_true, covered_iff]
      rintro ⟨span, listed, inside⟩
      obtain ⟨stored, storedMember, rfl⟩ := mem_map.mp listed
      exact free stored storedMember (removedAt item member ▸ inside)
    rw [← items] at balanced
    exact balanced
  · refine (running_iff _ _).mpr ⟨?_, ?_, ?_, ?_⟩
    · have moved : (ledger.deleteBlock keccak256 number).store.counter .blocksTotal = _ := movedBlocks
      omega
    · have moved : (ledger.deleteBlock keccak256 number).store.counter .transactionsTotal = _ := movedTransactions
      omega
    · have moved : (ledger.deleteBlock keccak256 number).store.counter .transfersTotal = _ := movedTransfers
      omega
    · intro row member
      have listed : row ∈ revertTokens (ledger.store.tokenTransfers.filter fun row => row.blockNumber = number)
        ledger.store.tokens := member
      rw [revertTokens_eq] at listed
      obtain ⟨old, found, rfl⟩ := mem_map.mp listed
      have tokenTotal := total (.token old.address)
      rw [gones.2] at tokenTotal
      have left := nonneg (.token old.address)
      have count := before.2.2.2 old found
      split
      · simp only [revertToken]
        omega
      · next untouched =>
        have none : transfersOf (ledger.store.tokenTransfers.filter fun row => row.blockNumber = number)
            old.address = [] := by
          rw [transfersOf, filter_eq_nil_iff]
          intro transfer transferMember same
          exact untouched (mem_map.mpr ⟨transfer, transferMember, by simpa using same⟩)
        rw [none, length_nil] at tokenTotal
        omega
  · exact sound.numbers.sublist (List.Sublist.map _ filter_sublist)
  · intro item member
    rw [items] at member
    exact sound.first item (shrunk.mem_iff.mpr (mem_append_left _ member))
  · intro state running
    have placed := sound.backfill state running
    exact ⟨placed.started, placed.bounded, placed.pruned, placed.spanLo, placed.stage, placed.placed⟩

end Writes

end OpsIndexer.Db
