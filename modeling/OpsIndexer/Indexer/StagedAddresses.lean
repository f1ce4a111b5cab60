import OpsIndexer.Db.SpanTotals
import OpsIndexer.Indexer.AddressStatsLedger

/-!
# The staged address rows and the contributions

`ledger_stage_from_rows` counts an address's transactions in one pass, one row for each transaction it takes part in;
`ledger_address_contributions` lists every mention and the query over it counts distinct hashes.
-/

namespace OpsIndexer.Indexing

open Eth OpsIndexer.Types Db Lib.Table List

/-! ## The query over the contributions -/

def contributionAddress (rows : List Contribution) (address : String) : SpanAddress :=
  let totals := addressTotals rows address
  let blocks := (rows.filter fun row => row.address = address).map (·.block)
  { txs := totals.txs
    sent := totals.sent
    internal := totals.internal
    transfers := totals.transfers
    firstSeen := blocks.min?.getD 0
    lastSeen := blocks.max?.getD 0 }

def contributionGroups (rows : List Contribution) : AList fun _ : String => SpanAddress :=
  groupBy (rows.map (·.address)) (contributionAddress rows)

/-! ## The sums -/

def staged (key : String) (row : StageRow) : Tally :=
  if row.address = key then (row.sent, row.internal, row.transfers, row.txs) else 0

def stageWeight (key : String) (rows : List StageRow) : Tally :=
  (rows.map (staged key)).sum

theorem stageWeight_append (key : String) (first second : List StageRow) :
    stageWeight key (first ++ second) = stageWeight key first + stageWeight key second := by
  unfold stageWeight
  rw [map_append, sum_append]

theorem stageWeight_flatMap {α : Type} (key : String) (inputs : List α) (rows : α → List StageRow) :
    stageWeight key (inputs.flatMap rows) = (inputs.map fun input => stageWeight key (rows input)).sum := by
  induction inputs with
  | nil => rfl
  | cons input rest ih => rw [flatMap_cons, stageWeight_append, ih, map_cons, sum_cons]

theorem stageWeight_eq (key : String) (rows : List StageRow) :
    stageWeight key rows = ((stageAddress rows key).sent, (stageAddress rows key).internal,
      (stageAddress rows key).transfers, (stageAddress rows key).txs) := by
  unfold stageWeight stageAddress
  induction rows with
  | nil => rfl
  | cons row rest ih =>
    rw [map_cons, sum_cons, ih]
    by_cases own : row.address = key
    · simp [staged, own]
    · simp [staged, own]

theorem stageWeight_each (key : String) (block : Nat) (addresses : List String) (distinct : addresses.Nodup) :
    stageWeight key (addresses.map fun address => ⟨address, 1, 0, 0, 0, block⟩) =
      if key ∈ addresses then (0, 0, 0, 1) else 0 := by
  induction addresses with
  | nil => rfl
  | cons address rest ih =>
    rw [nodup_cons] at distinct
    have step := ih distinct.2
    unfold stageWeight at step ⊢
    rw [map_cons, map_cons, sum_cons, step]
    by_cases own : address = key
    · subst own
      simp [staged, distinct.1]
    · simp [staged, own, Ne.symm own]

def TakesPart (transfers : List TransferRow) (key : String) (row : TransactionRow) : Prop :=
  key = row.fromAddress ∨ some key = row.toAddress ∨ key ∈ participants transfers row.hash

instance decidableTakesPart (transfers : List TransferRow) (key : String) (row : TransactionRow) :
    Decidable (TakesPart transfers key row) :=
  inferInstanceAs (Decidable (_ ∨ _ ∨ _))

theorem stageTransaction_weight (transfers : List TransferRow) (key : String) (row : TransactionRow) :
    stageWeight key (stageTransaction transfers row) =
      weight key (transactionContributions row) + (0, 0, 0, if TakesPart transfers key row then 1 else 0) := by
  have toNodup : (row.toAddress.toList.filter fun address => address ≠ row.fromAddress).Nodup := by
    cases row.toAddress with
    | none => simp
    | some address => exact (nodup_singleton address).filter _
  have partNodup : ((participants transfers row.hash).filter fun address =>
      address ≠ row.fromAddress ∧ some address ≠ row.toAddress).Nodup := (nodup_dedup _).filter _
  have sender : stageWeight key [⟨row.fromAddress, 1, if 0 ≤ row.txType ∧ row.txType ≤ 4 then 1 else 0, 0, 0, row.blockNumber⟩] =
      if key = row.fromAddress then (if 0 ≤ row.txType ∧ row.txType ≤ 4 then 1 else 0, 0, 0, 1) else 0 := by
    simp [stageWeight, staged, eq_comm]
  have contributions : weight key (transactionContributions row) =
      if key = row.fromAddress then (if 0 ≤ row.txType ∧ row.txType ≤ 4 then 1 else 0, 0, 0, 0) else 0 := by
    unfold weight transactionContributions
    have recipient : ((row.toAddress.toList.map fun address =>
        (⟨address, some row.hash, row.blockNumber, 0, 0, 0⟩ : Contribution)).map (contributed key)).sum = 0 := by
      cases row.toAddress <;> simp [contributed]
    rw [map_cons, sum_cons, recipient, add_zero]
    simp [contributed, eq_comm]
  have cut : stageTransaction transfers row =
      [⟨row.fromAddress, 1, if 0 ≤ row.txType ∧ row.txType ≤ 4 then 1 else 0, 0, 0, row.blockNumber⟩] ++
        ((row.toAddress.toList.filter fun address => address ≠ row.fromAddress).map fun address =>
          ⟨address, 1, 0, 0, 0, row.blockNumber⟩) ++
        (((participants transfers row.hash).filter fun address =>
          address ≠ row.fromAddress ∧ some address ≠ row.toAddress).map fun address =>
            ⟨address, 1, 0, 0, 0, row.blockNumber⟩) := rfl
  rw [cut, stageWeight_append, stageWeight_append, sender, stageWeight_each _ _ _ toNodup,
    stageWeight_each _ _ _ partNodup, contributions]
  simp only [mem_filter, Option.mem_toList, decide_eq_true_eq, TakesPart]
  -- the three parts of the pass are disjoint, so at most one of them counts
  by_cases isSender : key = row.fromAddress
  · simp [isSender]
  · by_cases isRecipient : row.toAddress = some key
    · simp [isSender, isRecipient]
    · by_cases isParty : key ∈ participants transfers row.hash
      · simp [isSender, isRecipient, isParty, Ne.symm isRecipient]
      · simp only [isSender, isRecipient, isParty, Ne.symm isRecipient, false_and, or_self, if_false, add_zero]
        rfl

theorem stageTransfer_weight (key : String) (row : TransferRow) :
    stageWeight key (stageTransfer row) = weight key (transferContributions row) := by
  unfold stageWeight weight stageTransfer transferContributions
  rw [map_append, map_append, sum_append, sum_append]
  congr 1
  · split
    · simp [staged, contributed]
    · rfl
  · split
    · simp [staged, contributed]
    · rfl

theorem stageInternal_weight (key : String) (row : InternalTransaction) :
    stageWeight key (stageInternal row) = weight key (internalContributions row) := by
  unfold stageWeight weight stageInternal internalContributions
  rw [map_cons, map_cons, map_map, map_map]
  rfl

theorem stageContract_weight (key : String) (row : Contract) :
    stageWeight key (stageContract row) = weight key (contractContributions row) := rfl

/-- The pass adds up to the contributions' sums, and counts each transaction the address takes part in once. -/
theorem stageRows_weight (store : Store) (lo hi : Nat) (key : String) :
    stageWeight key (stageRows store lo hi) = weight key (ledgerAddressContributions store lo hi) +
      (0, 0, 0, ((store.transactions.filter fun row => inSpan lo hi row.blockNumber).filter fun row =>
        TakesPart (spanTransfers store lo hi) key row).length) := by
  have counted (rows : List TransactionRow) :
      (rows.map fun row => ((0, 0, 0, if TakesPart (spanTransfers store lo hi) key row then 1 else 0) : Tally)).sum =
        (0, 0, 0, (rows.filter fun row => TakesPart (spanTransfers store lo hi) key row).length) := by
    induction rows with
    | nil => rfl
    | cons row rest ih =>
      rw [map_cons, sum_cons, ih]
      by_cases part : TakesPart (spanTransfers store lo hi) key row
      · simp [part, add_comm]
      · simp [part]
  unfold stageRows ledgerAddressContributions
  simp only [stageWeight_append, weight_append, stageWeight_flatMap, weight_flatMap, stageTransaction_weight,
    stageTransfer_weight, stageInternal_weight, stageContract_weight, sum_map_add, counted]
  unfold spanTransfers
  abel

/-! ## Where an address is seen -/

def stageSeen (rows : List StageRow) : List (String × Nat) :=
  rows.map fun row => (row.address, row.block)

def contributionSeen (rows : List Contribution) : List (String × Nat) :=
  rows.map fun row => (row.address, row.block)

def Mentions (key : String) (row : TransferRow) : Prop :=
  key ≠ zeroAddress ∧ (key = row.fromAddress ∨ key = row.toAddress)

theorem mem_participants (transfers : List TransferRow) (hash key : String) :
    key ∈ participants transfers hash ↔ ∃ row ∈ transfers, row.txHash = hash ∧ Mentions key row := by
  unfold participants Mentions
  simp only [mem_dedup, mem_filter, mem_flatMap, mem_cons, not_mem_nil, or_false,
    decide_eq_true_eq]
  constructor
  · intro found
    obtain ⟨⟨row, ⟨member, same⟩, party⟩, real⟩ := found
    exact ⟨row, member, same, real, party⟩
  · intro found
    obtain ⟨row, member, same, real, party⟩ := found
    exact ⟨⟨row, ⟨member, same⟩, party⟩, real⟩

theorem stageTransfer_seen (row : TransferRow) :
    stageSeen (stageTransfer row) = contributionSeen (transferContributions row) := by
  unfold stageSeen contributionSeen stageTransfer transferContributions
  rw [map_append, map_append]
  congr 1
  · split <;> rfl
  · split <;> rfl

theorem stageInternal_seen (row : InternalTransaction) :
    stageSeen (stageInternal row) = contributionSeen (internalContributions row) := by
  unfold stageSeen contributionSeen stageInternal internalContributions
  rw [map_cons, map_cons, map_map, map_map]
  rfl

theorem mem_stageTransaction_seen (transfers : List TransferRow) (row : TransactionRow) (key : String) (block : Nat) :
    (key, block) ∈ stageSeen (stageTransaction transfers row) ↔ TakesPart transfers key row ∧ row.blockNumber = block := by
  unfold stageSeen stageTransaction TakesPart
  simp only [map_append, map_cons, map_map, mem_append, mem_cons, mem_map, mem_filter,
    Function.comp_apply, Prod.mk.injEq, Option.mem_toList, decide_eq_true_eq]
  constructor
  · intro found
    rcases found with (⟨same, number⟩ | ⟨address, ⟨recipient, _⟩, rfl, number⟩) | ⟨address, ⟨party, _⟩, rfl, number⟩
    · exact ⟨.inl same, number.symm⟩
    · exact ⟨.inr (.inl recipient.symm), number⟩
    · exact ⟨.inr (.inr party), number⟩
  · intro found
    obtain ⟨part, number⟩ := found
    by_cases sender : key = row.fromAddress
    · exact .inl (.inl ⟨sender, number.symm⟩)
    · by_cases recipient : some key = row.toAddress
      · exact .inl (.inr ⟨key, ⟨recipient.symm, sender⟩, rfl, number⟩)
      · rcases part with same | same | party
        · exact absurd same sender
        · exact absurd same recipient
        · exact .inr ⟨key, ⟨party, sender, recipient⟩, rfl, number⟩

theorem exists_transactionContributions (row : TransactionRow) (key : String) (tx : Option String) (block : Nat) :
    (∃ found ∈ transactionContributions row, found.address = key ∧ found.tx = tx ∧ found.block = block) ↔
      (key = row.fromAddress ∨ some key = row.toAddress) ∧ some row.hash = tx ∧ row.blockNumber = block := by
  unfold transactionContributions
  constructor
  · intro named
    obtain ⟨found, member, own, hash, number⟩ := named
    rw [mem_cons, mem_map] at member
    rcases member with rfl | ⟨address, recipient, rfl⟩
    · exact ⟨.inl own.symm, hash, number⟩
    · have target : some key = row.toAddress := by
        rw [← own]
        exact (Option.mem_toList.mp recipient).symm
      exact ⟨.inr target, hash, number⟩
  · intro named
    obtain ⟨party, hash, number⟩ := named
    rcases party with sender | recipient
    · exact ⟨_, mem_cons_self, sender.symm, hash, number⟩
    · have member : key ∈ row.toAddress.toList := Option.mem_toList.mpr recipient.symm
      exact ⟨_, mem_cons_of_mem _ (mem_map_of_mem member), rfl, hash, number⟩

theorem exists_transferContributions (row : TransferRow) (key : String) (tx : Option String) (block : Nat) :
    (∃ found ∈ transferContributions row, found.address = key ∧ found.tx = tx ∧ found.block = block) ↔
      Mentions key row ∧ some row.txHash = tx ∧ row.blockNumber = block := by
  unfold transferContributions Mentions
  constructor
  · intro named
    obtain ⟨found, member, rfl, rfl, rfl⟩ := named
    rw [mem_append] at member
    rcases member with sender | recipient
    · split at sender
      · next real =>
        rw [mem_singleton] at sender
        subst sender
        exact ⟨⟨real, .inl rfl⟩, rfl, rfl⟩
      · cases sender
    · split at recipient
      · next real =>
        rw [mem_singleton] at recipient
        subst recipient
        exact ⟨⟨real.1, .inr rfl⟩, rfl, rfl⟩
      · cases recipient
  · intro named
    obtain ⟨⟨real, party⟩, hash, number⟩ := named
    by_cases sender : key = row.fromAddress
    · subst sender
      rw [if_pos real]
      exact ⟨_, mem_append_left _ mem_cons_self, rfl, hash, number⟩
    · have recipient : key = row.toAddress := party.resolve_left sender
      subst recipient
      rw [if_pos (show row.toAddress ≠ zeroAddress ∧ row.toAddress ≠ row.fromAddress from ⟨real, sender⟩)]
      exact ⟨_, mem_append_right _ mem_cons_self, rfl, hash, number⟩

/-! ## The two aggregations -/

section

variable {store : Store} {lo hi : Nat}

structure OwnTransactions (store : Store) (lo hi : Nat) : Prop where
  hashes : ((store.transactions.filter fun row => inSpan lo hi row.blockNumber).map (·.hash)).Nodup
  transfers : ∀ transfer ∈ spanTransfers store lo hi, ∃ row ∈ store.transactions,
    row.hash = transfer.txHash ∧ row.blockNumber = transfer.blockNumber

variable {transfer : TransferRow}

/-- A transfer's transaction is the interval's one row of its hash. -/
theorem OwnTransactions.block_eq (own : OwnTransactions store lo hi) {row : TransactionRow}
    (member : row ∈ store.transactions.filter fun row => inSpan lo hi row.blockNumber)
    (moved : transfer ∈ spanTransfers store lo hi) (same : transfer.txHash = row.hash) :
    row.blockNumber = transfer.blockNumber := by
  obtain ⟨other, stored, hash, number⟩ := own.transfers transfer moved
  have inside : inSpan lo hi other.blockNumber := by
    rw [number]
    exact (mem_filter.mp moved).2
  have listed : other ∈ store.transactions.filter fun row => inSpan lo hi row.blockNumber :=
    mem_filter.mpr ⟨stored, inside⟩
  have one : other = row := inj_on_of_nodup_map own.hashes listed member (hash.trans same)
  rw [← one]
  exact number

theorem OwnTransactions.exists_row (own : OwnTransactions store lo hi) (moved : transfer ∈ spanTransfers store lo hi) :
    ∃ row ∈ store.transactions.filter fun row => inSpan lo hi row.blockNumber, transfer.txHash = row.hash := by
  obtain ⟨row, stored, hash, number⟩ := own.transfers transfer moved
  have inside : inSpan lo hi row.blockNumber := by
    rw [number]
    exact (mem_filter.mp moved).2
  exact ⟨row, mem_filter.mpr ⟨stored, inside⟩, hash.symm⟩

/-- The hashes counted for an address are those of the interval's transactions it takes part in. -/
theorem mem_contributors_iff (own : OwnTransactions store lo hi) (key hash : String) :
    hash ∈ contributors key (ledgerAddressContributions store lo hi) ↔
      ∃ row ∈ store.transactions.filter fun row => inSpan lo hi row.blockNumber,
        TakesPart (spanTransfers store lo hi) key row ∧ row.hash = hash := by
  rw [mem_contributors]
  unfold ledgerAddressContributions
  constructor
  · intro found
    obtain ⟨contribution, member, named, counted⟩ := found
    simp only [mem_append, mem_flatMap] at member
    rcases member with ((⟨row, stored, listed⟩ | ⟨transfer, moved, listed⟩) | ⟨frame, _, listed⟩) | ⟨contract, _, listed⟩
    · have party := (exists_transactionContributions row key _ _).mp ⟨contribution, listed, named, rfl, rfl⟩
      refine ⟨row, stored, ?_, Option.some.inj (party.2.1.trans counted)⟩
      exact party.1.elim .inl fun recipient => .inr (.inl recipient)
    · have party := (exists_transferContributions transfer key _ _).mp ⟨contribution, listed, named, rfl, rfl⟩
      obtain ⟨row, stored, same⟩ := own.exists_row moved
      have mentioned : key ∈ participants (spanTransfers store lo hi) row.hash :=
        (mem_participants _ _ _).mpr ⟨transfer, moved, same, party.1⟩
      exact ⟨row, stored, .inr (.inr mentioned), same.symm.trans (Option.some.inj (party.2.1.trans counted))⟩
    · unfold internalContributions at listed
      rw [mem_cons, mem_map] at listed
      rcases listed with rfl | ⟨address, _, rfl⟩
      · cases counted
      · cases counted
    · rw [contractContributions, mem_singleton] at listed
      subst listed
      cases counted
  · intro found
    obtain ⟨row, stored, part, rfl⟩ := found
    have byParty (party : key = row.fromAddress ∨ some key = row.toAddress) :
        ∃ contribution ∈ ledgerAddressContributions store lo hi, contribution.address = key ∧ contribution.tx = some row.hash := by
      obtain ⟨contribution, listed, named, hash, _⟩ :=
        (exists_transactionContributions row key _ _).mpr ⟨party, rfl, rfl⟩
      refine ⟨contribution, ?_, named, hash⟩
      simp only [ledgerAddressContributions, mem_append, mem_flatMap]
      exact .inl (.inl (.inl ⟨row, stored, listed⟩))
    rcases part with sender | recipient | mentioned
    · exact byParty (.inl sender)
    · exact byParty (.inr recipient)
    · obtain ⟨transfer, moved, same, mentions⟩ := (mem_participants _ _ _).mp mentioned
      obtain ⟨contribution, listed, named, hash, _⟩ :=
        (exists_transferContributions transfer key _ _).mpr ⟨mentions, rfl, rfl⟩
      refine ⟨contribution, ?_, named, hash.trans (congrArg some same)⟩
      simp only [mem_append, mem_flatMap]
      exact .inl (.inl (.inr ⟨transfer, moved, listed⟩))

theorem card_contributors_eq (own : OwnTransactions store lo hi) (key : String) :
    (contributors key (ledgerAddressContributions store lo hi)).card =
      ((store.transactions.filter fun row => inSpan lo hi row.blockNumber).filter fun row =>
        TakesPart (spanTransfers store lo hi) key row).length := by
  have listed : contributors key (ledgerAddressContributions store lo hi) =
      (((store.transactions.filter fun row => inSpan lo hi row.blockNumber).filter fun row =>
        TakesPart (spanTransfers store lo hi) key row).map (·.hash)).toFinset := by
    ext hash
    rw [mem_contributors_iff own, mem_toFinset, mem_map]
    simp only [mem_filter (p := fun row => decide (TakesPart _ _ row)), decide_eq_true_eq, and_assoc]
  have distinct := own.hashes.sublist (filter_sublist
    (p := fun row => TakesPart (spanTransfers store lo hi) key row).map (·.hash))
  rw [listed, toFinset_card_of_nodup distinct, length_map]

theorem mem_contributionSeen (rows : List Contribution) (key : String) (block : Nat) :
    (key, block) ∈ contributionSeen rows ↔ ∃ row ∈ rows, row.address = key ∧ row.block = block := by
  unfold contributionSeen
  simp only [mem_map, Prod.mk.injEq]

theorem mem_seen_iff (own : OwnTransactions store lo hi) (key : String) (block : Nat) :
    (key, block) ∈ stageSeen (stageRows store lo hi) ↔
      (key, block) ∈ contributionSeen (ledgerAddressContributions store lo hi) := by
  have others : stageSeen (stageRows store lo hi) =
      (store.transactions.filter fun row => inSpan lo hi row.blockNumber).flatMap
          (fun row => stageSeen (stageTransaction (spanTransfers store lo hi) row)) ++
        contributionSeen ((spanTransfers store lo hi).flatMap transferContributions) ++
        contributionSeen ((store.internalTransactions.filter fun row => inSpan lo hi row.blockNumber).flatMap
          internalContributions) ++
        contributionSeen ((store.contracts.filter fun row => inSpan lo hi row.blockNumber).flatMap
          contractContributions) := by
    have transfers (row : TransferRow) := stageTransfer_seen row
    have frames (row : InternalTransaction) := stageInternal_seen row
    unfold stageSeen contributionSeen at *
    unfold stageRows
    simp only [map_append, map_flatMap, transfers, frames]
    rfl
  have same : contributionSeen (ledgerAddressContributions store lo hi) =
      contributionSeen ((store.transactions.filter fun row => inSpan lo hi row.blockNumber).flatMap
          transactionContributions) ++
        contributionSeen ((spanTransfers store lo hi).flatMap transferContributions) ++
        contributionSeen ((store.internalTransactions.filter fun row => inSpan lo hi row.blockNumber).flatMap
          internalContributions) ++
        contributionSeen ((store.contracts.filter fun row => inSpan lo hi row.blockNumber).flatMap
          contractContributions) := by
    unfold ledgerAddressContributions contributionSeen
    simp only [map_append]
    rfl
  rw [others, same]
  simp only [mem_append, or_assoc]
  have byParty (row : TransactionRow)
      (stored : row ∈ store.transactions.filter fun row => inSpan lo hi row.blockNumber)
      (party : key = row.fromAddress ∨ some key = row.toAddress) (number : row.blockNumber = block) :
      (key, block) ∈ contributionSeen ((store.transactions.filter fun row => inSpan lo hi row.blockNumber).flatMap
        transactionContributions) := by
    obtain ⟨found, listed, named, _, seen⟩ := (exists_transactionContributions row key _ _).mpr ⟨party, rfl, number⟩
    exact (mem_contributionSeen _ _ _).mpr ⟨found, mem_flatMap.mpr ⟨row, stored, listed⟩, named, seen⟩
  constructor
  · intro seen
    rcases seen with byTransaction | rest
    · obtain ⟨row, stored, listed⟩ := mem_flatMap.mp byTransaction
      obtain ⟨part, number⟩ := (mem_stageTransaction_seen _ _ _ _).mp listed
      rcases part with sender | recipient | mentioned
      · exact .inl (byParty row stored (.inl sender) number)
      · exact .inl (byParty row stored (.inr recipient) number)
      · obtain ⟨transfer, moved, hash, mentions⟩ := (mem_participants _ _ _).mp mentioned
        have there := (own.block_eq stored moved hash).symm.trans number
        obtain ⟨found, listed, named, _, seen⟩ :=
          (exists_transferContributions transfer key _ _).mpr ⟨mentions, rfl, there⟩
        refine .inr (.inl ?_)
        exact (mem_contributionSeen _ _ _).mpr ⟨found, mem_flatMap.mpr ⟨transfer, moved, listed⟩, named, seen⟩
    · exact .inr rest
  · intro seen
    rcases seen with byTransaction | rest
    · obtain ⟨found, member, named, number⟩ := (mem_contributionSeen _ _ _).mp byTransaction
      obtain ⟨row, stored, listed⟩ := mem_flatMap.mp member
      obtain ⟨party, _, here⟩ := (exists_transactionContributions row key _ _).mp ⟨found, listed, named, rfl, number⟩
      refine .inl (mem_flatMap.mpr ⟨row, stored, (mem_stageTransaction_seen _ _ _ _).mpr ⟨?_, here⟩⟩)
      exact party.elim .inl fun recipient => .inr (.inl recipient)
    · exact .inr rest

theorem ledgerStageFromRows_addresses (own : OwnTransactions store lo hi) (key : String) :
    (ledgerStageFromRows store lo hi).addresses.lookup key =
      (contributionGroups (ledgerAddressContributions store lo hi)).lookup key := by
  have seen (block : Nat) := mem_seen_iff own key block
  have sums := stageRows_weight store lo hi key
  rw [stageWeight_eq, weight_eq, ← card_contributors_eq own, ← txs_eq] at sums
  simp only [Prod.mk_add_mk, add_zero, zero_add, Prod.mk.injEq] at sums
  have blocks (block : Nat) :
      block ∈ ((stageRows store lo hi).filter fun row => row.address = key).map (·.block) ↔
        block ∈ ((ledgerAddressContributions store lo hi).filter fun row => row.address = key).map (·.block) := by
    have here := seen block
    unfold stageSeen contributionSeen at here
    simp only [mem_map, Prod.mk.injEq, mem_filter, decide_eq_true_eq, and_assoc] at here ⊢
    exact here
  have named : key ∈ (stageRows store lo hi).map (·.address) ↔
      key ∈ (ledgerAddressContributions store lo hi).map (·.address) := by
    unfold stageSeen contributionSeen at seen
    simp only [mem_map, Prod.mk.injEq] at seen ⊢
    constructor
    · intro found
      obtain ⟨row, member, address⟩ := found
      obtain ⟨other, listed, same, _⟩ := (seen row.block).mp ⟨row, member, address, rfl⟩
      exact ⟨other, listed, same⟩
    · intro found
      obtain ⟨row, member, address⟩ := found
      obtain ⟨other, listed, same, _⟩ := (seen row.block).mpr ⟨row, member, address, rfl⟩
      exact ⟨other, listed, same⟩
  have group : stageAddress (stageRows store lo hi) key = contributionAddress (ledgerAddressContributions store lo hi) key := by
    obtain ⟨sent, internal, transfers, txs⟩ := sums
    have first := congrArg (·.getD 0) (min?_congr blocks)
    have last := congrArg (·.getD 0) (max?_congr blocks)
    simp only [stageAddress, contributionAddress, SpanAddress.mk.injEq]
    exact ⟨txs, sent, internal, transfers, first, last⟩
  unfold ledgerStageFromRows contributionGroups
  dsimp only
  rw [lookup_groupBy, lookup_groupBy, group]
  simp only [named]

end

end OpsIndexer.Indexing
