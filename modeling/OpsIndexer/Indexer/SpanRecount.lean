import OpsIndexer.Db.CompleteBlock
import OpsIndexer.Indexer.SpanGroups

/-!
# A span recounted from the node

A span whose rows are pruned is recounted from blocks built again, `AddBlock` by `AddBlock`; one whose rows are there
is recounted from them.
-/

namespace OpsIndexer.Indexing

open Eth OpsIndexer.Types Db Rpc Lib.Table List

/-! ## The blocks -/

structure NodeBlock where
  indexer : Indexer
  raw : RawBlock
  receipts : Hash → Option Receipt
  built : BuiltBlock
  done : buildBlock indexer raw receipts = some built
  distinct : Distinct indexer raw receipts

def NodeBlock.row (block : NodeBlock) : Block :=
  blockOf block.indexer block.raw

theorem NodeBlock.oneBlock (block : NodeBlock) : OneBlock block.built.data block.row :=
  buildBlock_oneBlock block.done block.distinct

/-- A later block of the same chain. No receipt of it creates a contract where the earlier block lists one. -/
structure Precedes (first second : NodeBlock) : Prop where
  number : first.raw.numberU64 < second.raw.numberU64
  hash : first.raw.hash ≠ second.raw.hash
  hashes : ∀ tx ∈ first.raw.transactions, ∀ other ∈ second.raw.transactions, tx.hash ≠ other.hash
  frames : ∀ frame ∈ framesOf first.indexer first.raw, ∀ other ∈ framesOf second.indexer second.raw,
    (frame.txHash, frame.traceAddress) ≠ (other.txHash, other.traceAddress)
  creations : ∀ contract ∈ first.built.data.contracts, ∀ tx ∈ second.raw.transactions,
    ¬ createsAt second.indexer second.raw second.receipts (lower contract.address) tx

def writeBlocks (partitionOf : Nat → Nat) (blocks : List NodeBlock) (store : Store) : Except WriteError Store :=
  blocks.foldlM (fun store block => insertBlockDataBatch partitionOf block.built.data store) store

def recountBlocks (blocks : List NodeBlock) (totals : SpanTotals) : Except WriteError SpanTotals :=
  blocks.foldlM (fun (totals : SpanTotals) block => totals.addBlock block.built.data) totals

/-! ## What one block leaves for the next -/

section

variable {partitionOf : Nat → Nat} {store next : Store} {lo hi : Nat} {block : NodeBlock}

structure Unheld (partitionOf : Nat → Nat) (lo hi : Nat) (store : Store) (block : NodeBlock) : Prop where
  unstored : Unstored partitionOf block.built.data block.row store
  hashes : ∀ row ∈ store.transactions, inSpan lo hi row.blockNumber → ∀ tx ∈ block.raw.transactions,
    row.hash ≠ Hash.hex tx.hash
  creations : ∀ row ∈ store.contracts, ∀ tx ∈ block.raw.transactions,
    ¬ createsAt block.indexer block.raw block.receipts row.address tx

theorem NodeBlock.mem_transactions {block : NodeBlock} {tx : Transaction} (member : tx ∈ block.built.data.transactions) :
    ∃ mined ∈ block.raw.transactions, tx.hash = Hash.hex mined.hash := by
  rw [(buildBlock_rows block.done).2.1] at member
  obtain ⟨entry, indexed, rfl⟩ := mem_map.mp member
  exact ⟨entry.1, fst_mem_of_mem_zipIdx indexed, rfl⟩

theorem NodeBlock.exists_transaction {block : NodeBlock} {mined : RawTransaction}
    (member : mined ∈ block.raw.transactions) :
    ∃ tx ∈ block.built.data.transactions, tx.hash = Hash.hex mined.hash := by
  rw [(buildBlock_rows block.done).2.1]
  obtain ⟨index, found⟩ := mem_iff_getElem?.mp member
  have entered : (mined, index) ∈ block.raw.transactions.zipIdx := mem_zipIdx_iff_getElem?.mpr found
  exact ⟨_, mem_map_of_mem entered, rfl⟩

theorem NodeBlock.mem_transfers {block : NodeBlock} {transfer : TokenTransfer}
    (member : transfer ∈ block.built.data.transfers) :
    ∃ mined ∈ block.raw.transactions, transfer.txHash = Hash.hex mined.hash ∧
      ∃ supply, transferSupply transfer = .ok supply := by
  rw [(buildBlock_rows block.done).2.2.1] at member
  obtain ⟨mined, listed, own⟩ := mem_flatMap.mp member
  obtain ⟨log, _, same⟩ := mem_filterMap.mp own
  obtain ⟨decoded, _, rfl⟩ := Option.map_eq_some_iff.mp same
  refine ⟨mined, listed, rfl, ?_⟩
  unfold transferSupply tokenTransferOf
  dsimp only
  split
  · exact ⟨_, rfl⟩
  · exact ⟨0, rfl⟩

theorem Unheld.precedes {first : NodeBlock} (unheld : Unheld partitionOf lo hi store block)
    (before : Precedes first block) (free : Unstored partitionOf first.built.data first.row store)
    (written : insertBlockDataBatch partitionOf first.built.data store = .ok next) :
    Unheld partitionOf lo hi next block := by
  have one := first.oneBlock
  obtain ⟨transactions, transfers, internal, contracts⟩ := insertBlockDataBatch_tables one free written
  have blocks := (insertBlockDataBatch_inserted one.named free.absent written).blocks
  have number : first.row.number ≠ block.row.number := Nat.ne_of_lt before.number
  refine ⟨⟨?_, ?_, ?_, ?_, ?_⟩, ?_, ?_⟩
  · have differ : blockConflicts partitionOf block.row first.row = false := by
      have hashes : Hash.hex first.raw.hash ≠ Hash.hex block.raw.hash := fun same => before.hash ((Hash.hex_inj _ _).mp same)
      simp only [blockConflicts, number, decide_false, Bool.false_or, Bool.and_eq_false_imp, decide_eq_true_eq]
      intro same
      exact absurd same hashes
    rw [blocks, any_append, unheld.unstored.absent, any_cons, differ]
    rfl
  · rw [transactions]
    intro row member
    rcases mem_append.mp member with old | new
    · exact unheld.unstored.transactions row old
    · obtain ⟨tx, listed, rfl⟩ := mem_map.mp new
      obtain ⟨mined, ahead, own⟩ := first.mem_transactions listed
      refine ⟨fun same => number ((one.transactions tx listed).symm.trans same), ?_⟩
      intro other later
      obtain ⟨otherMined, behind, otherOwn⟩ := block.mem_transactions later
      have differ : tx.hash ≠ other.hash := by
        rw [own, otherOwn]
        exact fun same => before.hashes mined ahead otherMined behind ((Hash.hex_inj _ _).mp same)
      simp [transactionConflicts, transactionRow, differ]
  · rw [transfers]
    intro row member
    rcases mem_append.mp member with old | new
    · exact unheld.unstored.transfers row old
    · obtain ⟨transfer, listed, rfl⟩ := mem_map.mp new
      exact fun same => number ((one.transfers transfer listed).symm.trans same)
  · rw [internal]
    intro row member
    rcases mem_append.mp member with old | new
    · exact unheld.unstored.internal row old
    · obtain ⟨frame, listed, rfl⟩ := mem_map.mp new
      refine ⟨fun same => number ((one.internal frame listed).symm.trans same), ?_⟩
      intro other later
      rw [(buildBlock_rows first.done).2.2.2.1] at listed
      rw [(buildBlock_rows block.done).2.2.2.1] at later
      have differ := before.frames frame listed other later
      rw [ne_eq, Prod.mk.injEq, not_and] at differ
      refine Bool.eq_false_iff.mpr fun met => ?_
      rw [internalConflicts_iff] at met
      simp only [internalRow, Prod.mk.injEq] at met
      exact differ met.1 met.2.1
  · rw [contracts]
    intro row member
    rcases mem_append.mp member with old | new
    · exact unheld.unstored.contracts row old
    · exact fun same => number ((newContracts_number one.contracts row new).symm.trans same)
  · rw [transactions]
    intro row member inside tx mined
    rcases mem_append.mp member with old | new
    · exact unheld.hashes row old inside tx mined
    · obtain ⟨own, listed, rfl⟩ := mem_map.mp new
      obtain ⟨ahead, earlier, same⟩ := first.mem_transactions listed
      intro equal
      exact before.hashes ahead earlier tx mined ((Hash.hex_inj _ _).mp (same.symm.trans equal))
  · rw [contracts]
    intro row member tx mined
    rcases mem_append.mp member with old | new
    · exact unheld.creations row old tx mined
    · obtain ⟨⟨contract, listed, same⟩, _⟩ := (exists_newContracts _ _ row.address).mp ⟨row, new, rfl⟩
      rw [← same]
      exact before.creations contract listed tx mined

/-! ## One block joins the totals -/

structure Recounts (totals : SpanTotals) (store : Store) (lo hi : Nat) : Prop where
  blocks : totals.blocks = (store.blocks.filter fun row => inSpan lo hi row.number).length
  transactions : totals.transactions = (store.transactions.filter fun row => inSpan lo hi row.blockNumber).length
  transfers : totals.transfers = (spanTransfers store lo hi).length
  tokens : ∀ token, totals.tokens.lookup token = (tokenGroups (spanTransfers store lo hi)).lookup token
  addresses : ∀ address, totals.addresses.lookup address =
    (contributionGroups (ledgerAddressContributions store lo hi)).lookup address
  own : OwnTransactions store lo hi

theorem filter_inside {α : Type} (number : α → Nat) (position : Nat) (inside : inSpan lo hi position) (old new : List α)
    (numbered : ∀ row ∈ new, number row = position) :
    ((old ++ new).filter fun row => inSpan lo hi (number row)) =
      (old.filter fun row => inSpan lo hi (number row)) ++ new := by
  have kept : (new.filter fun row => inSpan lo hi (number row)) = new := by
    rw [filter_eq_self]
    intro row member
    rw [numbered row member]
    exact inside
  rw [filter_append, kept]

structure Grown (store next : Store) (block : NodeBlock) (lo hi : Nat) : Prop where
  blocks : (next.blocks.filter fun row => inSpan lo hi row.number) =
    (store.blocks.filter fun row => inSpan lo hi row.number) ++ [block.row]
  transactions : (next.transactions.filter fun row => inSpan lo hi row.blockNumber) =
    (store.transactions.filter fun row => inSpan lo hi row.blockNumber) ++
      block.built.data.transactions.map (transactionRow block.built.data)
  transfers : spanTransfers next lo hi = spanTransfers store lo hi ++ block.built.data.transfers.map transferRow
  contributions : (ledgerAddressContributions next lo hi).Perm
    (ledgerAddressContributions store lo hi ++ batchContributions block.built.data store.contracts)

theorem insertBlockDataBatch_grown (free : Unstored partitionOf block.built.data block.row store)
    (inside : inSpan lo hi block.raw.numberU64)
    (written : insertBlockDataBatch partitionOf block.built.data store = .ok next) : Grown store next block lo hi := by
  have one := block.oneBlock
  have blocks := (insertBlockDataBatch_inserted one.named free.absent written).blocks
  obtain ⟨transactions, transfers, internal, contracts⟩ := insertBlockDataBatch_tables one free written
  have ownTransactions : (next.transactions.filter fun row => inSpan lo hi row.blockNumber) =
      (store.transactions.filter fun row => inSpan lo hi row.blockNumber) ++
        block.built.data.transactions.map (transactionRow block.built.data) := by
    rw [transactions]
    apply filter_inside TransactionRow.blockNumber _ inside
    intro row member
    obtain ⟨tx, stored, rfl⟩ := mem_map.mp member
    exact one.transactions tx stored
  have ownTransfers : (next.tokenTransfers.filter fun row => inSpan lo hi row.blockNumber) =
      (store.tokenTransfers.filter fun row => inSpan lo hi row.blockNumber) ++
        block.built.data.transfers.map transferRow := by
    rw [transfers]
    apply filter_inside TransferRow.blockNumber _ inside
    intro row member
    obtain ⟨transfer, stored, rfl⟩ := mem_map.mp member
    exact one.transfers transfer stored
  have ownInternal : (next.internalTransactions.filter fun row => inSpan lo hi row.blockNumber) =
      (store.internalTransactions.filter fun row => inSpan lo hi row.blockNumber) ++
        block.built.data.internalTransactions.map internalRow := by
    rw [internal]
    apply filter_inside InternalTransaction.blockNumber _ inside
    intro row member
    obtain ⟨frame, stored, rfl⟩ := mem_map.mp member
    exact one.internal frame stored
  have ownContracts : (next.contracts.filter fun row => inSpan lo hi row.blockNumber) =
      (store.contracts.filter fun row => inSpan lo hi row.blockNumber) ++
        newContracts block.built.data.contracts store.contracts := by
    rw [contracts]
    exact filter_inside Contract.blockNumber _ inside _ _ (newContracts_number one.contracts)
  refine ⟨?_, ownTransactions, ownTransfers, ?_⟩
  · rw [blocks]
    apply filter_inside Block.number _ inside
    intro row member
    rw [mem_singleton] at member
    rw [member]
    rfl
  · unfold ledgerAddressContributions batchContributions
    rw [ownTransactions, ownTransfers, ownInternal, ownContracts]
    simp only [flatMap_append, ← Multiset.coe_eq_coe, ← Multiset.coe_add]
    abel

theorem OwnTransactions.grown (own : OwnTransactions store lo hi) (unheld : Unheld partitionOf lo hi store block)
    (grown : Grown store next block lo hi) : OwnTransactions next lo hi := by
  have one := block.oneBlock
  have intoTable (row : TransactionRow) (member : row ∈ (store.transactions.filter fun row =>
      inSpan lo hi row.blockNumber) ++ block.built.data.transactions.map (transactionRow block.built.data)) :
      row ∈ next.transactions := by
    rw [← grown.transactions] at member
    exact mem_of_mem_filter member
  constructor
  · rw [grown.transactions, map_append]
    refine List.Nodup.append own.hashes ?_ ?_
    · rw [map_map]
      exact one.hashes
    · intro hash before after
      obtain ⟨row, member, rfl⟩ := mem_map.mp before
      obtain ⟨_, new, same⟩ := mem_map.mp after
      obtain ⟨tx, listed, rfl⟩ := mem_map.mp new
      obtain ⟨mined, given, hex⟩ := block.mem_transactions listed
      obtain ⟨stored, inside⟩ := mem_filter.mp member
      exact unheld.hashes row stored inside mined given (same.symm.trans hex)
  · rw [grown.transfers]
    intro transfer member
    rcases mem_append.mp member with old | new
    · obtain ⟨row, stored, hash⟩ := own.exists_row old
      exact ⟨row, intoTable row (mem_append_left _ stored), hash.symm, own.block_eq stored old hash⟩
    · obtain ⟨moved, listed, rfl⟩ := mem_map.mp new
      obtain ⟨mined, given, hex, _⟩ := block.mem_transfers listed
      obtain ⟨tx, made, same⟩ := NodeBlock.exists_transaction given
      refine ⟨transactionRow block.built.data tx, intoTable _ ?_, same.trans hex.symm, ?_⟩
      · exact mem_append_right _ (mem_map_of_mem made)
      · exact (one.transactions tx made).trans (one.transfers moved listed).symm

theorem contributors_disjoint (own : OwnTransactions store lo hi) (unheld : Unheld partitionOf lo hi store block)
    (key : String) :
    Disjoint (contributors key (ledgerAddressContributions store lo hi))
      (contributors key (batchContributions block.built.data store.contracts)) := by
  rw [Finset.disjoint_left]
  intro hash before after
  obtain ⟨row, member, _, same⟩ := (mem_contributors_iff own key hash).mp before
  obtain ⟨stored, inside⟩ := mem_filter.mp member
  rw [mem_contributors, exists_batchContribution block.done] at after
  rcases after with ⟨tx, mined, _, hex⟩ | ⟨_, impossible⟩
  · exact unheld.hashes row stored inside tx mined (same.trans (Option.some.inj hex).symm)
  · cases impossible

variable {totals : SpanTotals}

theorem Recounts.addBlock (recounts : Recounts totals store lo hi) (unheld : Unheld partitionOf lo hi store block)
    (inside : inSpan lo hi block.raw.numberU64)
    (written : insertBlockDataBatch partitionOf block.built.data store = .ok next) :
    ∃ added, totals.addBlock block.built.data = .ok added ∧ Recounts added next lo hi := by
  have one := block.oneBlock
  have grown := insertBlockDataBatch_grown unheld.unstored inside written
  obtain ⟨tokens, collected, groups⟩ := foldlM_addTransfer_groups block.built.data.transfers recounts.tokens
    (insertBlockDataBatch_checked one.named unheld.unstored.absent written)
    fun transfer member => by
      obtain ⟨_, _, _, supplied⟩ := block.mem_transfers member
      exact supplied
  refine ⟨_, by rw [SpanTotals.addBlock, collected]; rfl, ?_, ?_, ?_, ?_, ?_, recounts.own.grown unheld grown⟩
  · rw [grown.blocks, length_append, one.named, recounts.blocks]
    rfl
  · rw [grown.transactions, length_append, length_map, recounts.transactions]
  · rw [grown.transfers, length_append, length_map, recounts.transfers]
  · rw [grown.transfers]
    exact groups
  · intro key
    have unknown : ∀ tx ∈ block.raw.transactions, createsAt block.indexer block.raw block.receipts key tx →
        ∀ row ∈ store.contracts, row.address ≠ key := by
      intro tx mined creates row held same
      subst same
      exact unheld.creations row held tx mined creates
    rw [contributionGroups_perm grown.contributions, contributionGroups_append (contributors_disjoint recounts.own unheld key),
      batch_groups block.done block.distinct unknown, ← recounts.addresses key]
    exact lookup_foldl_addSpanAddress _ _ key block.built.data.addressStats.nodupKeys

theorem recountBlocks_run (blocks : List NodeBlock) (chain : blocks.Pairwise Precedes)
    (inside : ∀ block ∈ blocks, inSpan lo hi block.raw.numberU64)
    (unheld : ∀ block ∈ blocks, Unheld partitionOf lo hi store block) (recounts : Recounts totals store lo hi)
    (written : writeBlocks partitionOf blocks store = .ok next) :
    ∃ added, recountBlocks blocks totals = .ok added ∧ Recounts added next lo hi := by
  unfold writeBlocks recountBlocks at *
  induction blocks generalizing totals store with
  | nil =>
    cases written
    exact ⟨totals, rfl, recounts⟩
  | cons block rest ih =>
    rw [pairwise_cons] at chain
    rw [foldlM_cons] at written
    obtain ⟨middle, first, others⟩ := bind_eq_ok.mp written
    have free := unheld block mem_cons_self
    obtain ⟨added, counted, kept⟩ := recounts.addBlock free (inside block mem_cons_self) first
    have later : ∀ other ∈ rest, Unheld partitionOf lo hi middle other := by
      intro other member
      exact (unheld other (mem_cons_of_mem _ member)).precedes (chain.1 other member) free.unstored first
    obtain ⟨final, run, recounted⟩ := ih chain.2 (fun other member => inside other (mem_cons_of_mem _ member))
      later kept others
    refine ⟨final, ?_, recounted⟩
    rw [foldlM_cons, counted]
    exact run

end

/-! ## The definitions of a span's totals -/

structure Vacant (store : Store) (lo hi : Nat) : Prop where
  blocks : ∀ row ∈ store.blocks, inSpan lo hi row.number = false
  transactions : ∀ row ∈ store.transactions, inSpan lo hi row.blockNumber = false
  transfers : ∀ row ∈ store.tokenTransfers, inSpan lo hi row.blockNumber = false
  internal : ∀ row ∈ store.internalTransactions, inSpan lo hi row.blockNumber = false
  contracts : ∀ row ∈ store.contracts, inSpan lo hi row.blockNumber = false

/-- Equal chain, token and address rows; the order of a map's entries is not part of them. -/
structure SameTotals (first second : SpanTotals) : Prop where
  blocks : first.blocks = second.blocks
  transactions : first.transactions = second.transactions
  transfers : first.transfers = second.transfers
  tokens : ∀ token, first.tokens.lookup token = second.tokens.lookup token
  addresses : ∀ address, first.addresses.lookup address = second.addresses.lookup address

theorem Vacant.recounts {store : Store} {lo hi : Nat} (vacant : Vacant store lo hi) : Recounts {} store lo hi := by
  have none {α : Type} (rows : List α) (inside : α → Bool) (outside : ∀ row ∈ rows, inside row = false) :
      rows.filter inside = [] := by
    rw [filter_eq_nil_iff]
    intro row member
    rw [outside row member]
    exact Bool.false_ne_true
  have transactions := none _ _ vacant.transactions
  have transfers : spanTransfers store lo hi = [] := none _ _ vacant.transfers
  have contributions : ledgerAddressContributions store lo hi = [] := by
    unfold ledgerAddressContributions
    rw [transactions, none _ _ vacant.transfers, none _ _ vacant.internal, none _ _ vacant.contracts]
    rfl
  refine ⟨?_, ?_, ?_, ?_, ?_, ?_, ?_⟩
  · rw [none _ _ vacant.blocks]
    rfl
  · rw [transactions]
    rfl
  · rw [transfers]
    rfl
  · rw [transfers]
    exact fun _ => rfl
  · rw [contributions]
    exact fun _ => rfl
  · rw [transactions]
    exact nodup_nil
  · rw [transfers]
    intro transfer member
    cases member

theorem Recounts.sameTotals {totals : SpanTotals} {store : Store} {lo hi : Nat} (recounts : Recounts totals store lo hi) :
    SameTotals totals (ledgerStageFromRows store lo hi) where
  blocks := recounts.blocks
  transactions := recounts.transactions
  transfers := recounts.transfers
  tokens := recounts.tokens
  addresses := fun address => (recounts.addresses address).trans (ledgerStageFromRows_addresses recounts.own address).symm

/-- The rows staged in one pass are the groups of the contributions, wherever the interval holds each transaction
once; and the blocks of a chain, written where nothing of theirs was, add up to the rows staged over what they left. -/
theorem spanTotals_agree :
    (∀ (store : Store) (lo hi : Nat), OwnTransactions store lo hi → ∀ address,
      (ledgerStageFromRows store lo hi).addresses.lookup address =
        (contributionGroups (ledgerAddressContributions store lo hi)).lookup address) ∧
    ∀ (partitionOf : Nat → Nat) (store next : Store) (lo hi : Nat) (blocks : List NodeBlock),
      blocks.Pairwise Precedes → (∀ block ∈ blocks, inSpan lo hi block.raw.numberU64) → Vacant store lo hi →
      (∀ block ∈ blocks, Unstored partitionOf block.built.data block.row store) →
      (∀ block ∈ blocks, ∀ contract ∈ block.built.data.contracts, ∀ row ∈ store.contracts,
        row.address ≠ lower contract.address) →
      writeBlocks partitionOf blocks store = .ok next →
      ∃ totals, recountBlocks blocks {} = .ok totals ∧ SameTotals totals (ledgerStageFromRows next lo hi) := by
  refine ⟨fun store lo hi own => ledgerStageFromRows_addresses own, ?_⟩
  intro partitionOf store next lo hi blocks chain inside vacant unstored unknown written
  have unheld : ∀ block ∈ blocks, Unheld partitionOf lo hi store block := by
    intro block member
    refine ⟨unstored block member, ?_, ?_⟩
    · intro row stored within
      rw [vacant.transactions row stored] at within
      cases within
    · intro row held tx mined creates
      obtain ⟨contract, created, same⟩ := creates
      have listed : contract ∈ block.built.data.contracts := by
        rw [(buildBlock_rows block.done).2.2.2.2.1]
        exact mem_append_left _ (mem_filterMap.mpr ⟨tx, mined, created⟩)
      exact unknown block member contract listed row held same
  obtain ⟨totals, counted, recounts⟩ := recountBlocks_run blocks chain inside unheld vacant.recounts written
  exact ⟨totals, counted, recounts.sameTotals⟩

/-! ## Two blocks -/

def firstNode : NodeBlock where
  indexer := tracingNode
  raw := creationBlock
  receipts := creationReceipts
  built := creationBuilt
  done := by rw [creationBuilt, Option.some_get]
  distinct := creationBuilt_distinct

def laterBlock (recipient : Option Address) : RawBlock where
  number := some 8
  hash := 80
  parentHash := 70
  transactions := [{ hash := 3, fromAddress := 0xb, toAddress := recipient }]

def laterReceipts (_ : Hash) : Option Receipt :=
  some { status := 1, contractAddress := 0xd
         logs := [{ address := 0xc, topics := [transferTopic, 0, 0xb], data := [9], index := 0 }] }

def untracedNode : Indexer :=
  { tracingNode with tracingSupported := false }

def laterNode : NodeBlock where
  indexer := untracedNode
  raw := laterBlock (some 0xa)
  receipts := laterReceipts
  built := (buildBlock untracedNode (laterBlock (some 0xa)) laterReceipts).get (by decide +kernel)
  done := by rw [Option.some_get]
  distinct := ⟨by decide +kernel, by decide +kernel, by decide +kernel, by decide +kernel⟩

def redeployNode : NodeBlock where
  indexer := untracedNode
  raw := laterBlock none
  receipts := laterReceipts
  built := (buildBlock untracedNode (laterBlock none) laterReceipts).get (by decide +kernel)
  done := by rw [Option.some_get]
  distinct := ⟨by decide +kernel, by decide +kernel, by decide +kernel, by decide +kernel⟩

def writtenStore (blocks : List NodeBlock) : Store :=
  match writeBlocks id blocks {} with
  | .ok next => next
  | .error _ => {}

theorem writtenStore_written (blocks : List NodeBlock) (accepted : (writeBlocks id blocks {}).isOk = true) :
    writeBlocks id blocks {} = .ok (writtenStore blocks) := by
  unfold writtenStore
  cases written : writeBlocks id blocks {} with
  | ok next => rfl
  | error failure => simp [written, Except.isOk, Except.toBool] at accepted

theorem firstNode_precedes : Precedes firstNode laterNode where
  number := by decide +kernel
  hash := by decide +kernel
  hashes := by decide +kernel
  frames := by decide +kernel
  creations := by
    intro contract _ tx mined creates
    obtain ⟨created, found, _⟩ := creates
    have calls : ∀ tx ∈ laterNode.raw.transactions, creationOf laterNode.indexer laterNode.raw laterNode.receipts tx = none := by
      decide +kernel
    rw [calls tx mined] at found
    cases found

theorem spanTotals_agree_twoBlocks :
    (ledgerStageFromRows (writtenStore [firstNode, laterNode]) 7 9).addresses.lookup (Address.key 0xb) =
        some ⟨2, 1, 1, 1, 7, 8⟩ ∧
      (ledgerStageFromRows (writtenStore [firstNode, laterNode]) 7 9).addresses.lookup (Address.key 0xb) =
        (contributionGroups (ledgerAddressContributions (writtenStore [firstNode, laterNode]) 7 9)).lookup (Address.key 0xb) ∧
      ∃ totals, recountBlocks [firstNode, laterNode] {} = .ok totals ∧
        SameTotals totals (ledgerStageFromRows (writtenStore [firstNode, laterNode]) 7 9) := by
  refine ⟨by decide +kernel, ?_, ?_⟩
  · exact spanTotals_agree.1 _ 7 9 ⟨by decide +kernel, by decide +kernel⟩ _
  · apply spanTotals_agree.2 id {} _ 7 9 [firstNode, laterNode]
    · simp [firstNode_precedes]
    · decide +kernel
    · exact ⟨by simp, by simp, by simp, by simp, by simp⟩
    · intro block _
      exact ⟨rfl, by simp, by simp, by simp, by simp⟩
    · simp
    · exact writtenStore_written _ (by decide +kernel)

def twiceStored : Store where
  transactions := (creationBuilt.data.transactions.take 1).flatMap fun tx =>
    [7, 17].map fun number => transactionRow creationBuilt.data { tx with blockNumber := number }

/-- A hash stored twice counts twice in the pass and once in the query. A receipt that creates where an earlier block
did moves the address's last block, and the rows do not show it. -/
theorem spanTotals_disagree :
    ((ledgerStageFromRows twiceStored 7 18).addresses.lookup (Address.key 0xa) = some ⟨2, 2, 0, 0, 7, 17⟩ ∧
      (contributionGroups (ledgerAddressContributions twiceStored 7 18)).lookup (Address.key 0xa) =
        some ⟨1, 2, 0, 0, 7, 17⟩) ∧
    writeBlocks id [firstNode, redeployNode] {} = .ok (writtenStore [firstNode, redeployNode]) ∧
      ((recountBlocks [firstNode, redeployNode] {}).toOption.bind fun totals => totals.addresses.lookup (Address.key 0xd)) =
        some ⟨0, 0, 0, 0, 7, 8⟩ ∧
      (ledgerStageFromRows (writtenStore [firstNode, redeployNode]) 7 9).addresses.lookup (Address.key 0xd) =
        some ⟨0, 0, 0, 0, 7, 7⟩ :=
  ⟨⟨by decide +kernel, by decide +kernel⟩, writtenStore_written _ (by decide +kernel), by decide +kernel,
    by decide +kernel⟩

end OpsIndexer.Indexing
