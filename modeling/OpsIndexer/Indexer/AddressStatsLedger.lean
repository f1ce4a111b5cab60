import OpsIndexer.Db.StoredRows
import OpsIndexer.Indexer.AddressTotals

/-!
# Address statistics and the ledger

Two definitions of what a block adds to an address: the map `buildBlock` fills as it reads the block, and
`ledger_address_contributions` over the rows the block stores.
-/

namespace OpsIndexer.Indexing

open Eth OpsIndexer.Types Db Rpc List

/-! ## The view's aggregation -/

def contributed (key : String) (row : Contribution) : Tally :=
  if row.address = key then (row.sent, row.internal, row.transfers, 0) else 0

def weight (key : String) (rows : List Contribution) : Tally :=
  (rows.map (contributed key)).sum

theorem weight_append (key : String) (first second : List Contribution) :
    weight key (first ++ second) = weight key first + weight key second := by
  unfold weight
  rw [map_append, sum_append]

theorem weight_flatMap {α : Type} (key : String) (inputs : List α) (rows : α → List Contribution) :
    weight key (inputs.flatMap rows) = (inputs.map fun input => weight key (rows input)).sum := by
  induction inputs with
  | nil => rfl
  | cons input rest ih => rw [flatMap_cons, weight_append, ih, map_cons, sum_cons]

theorem weight_eq (key : String) (rows : List Contribution) :
    weight key rows =
      ((addressTotals rows key).sent, (addressTotals rows key).internal, (addressTotals rows key).transfers, 0) := by
  unfold weight addressTotals
  induction rows with
  | nil => rfl
  | cons row rest ih =>
    rw [map_cons, sum_cons, ih]
    by_cases own : row.address = key
    · simp [contributed, own]
    · simp [contributed, own]

def contributors (key : String) (rows : List Contribution) : Finset String :=
  ((rows.filter fun row => row.address = key).filterMap (·.tx)).toFinset

theorem txs_eq (key : String) (rows : List Contribution) :
    (addressTotals rows key).txs = (contributors key rows).card := by
  unfold addressTotals contributors
  rw [card_toFinset]

theorem mem_contributors (key hash : String) (rows : List Contribution) :
    hash ∈ contributors key rows ↔ ∃ row ∈ rows, row.address = key ∧ row.tx = some hash := by
  unfold contributors
  simp only [mem_toFinset, mem_filterMap, mem_filter, decide_eq_true_eq, and_assoc]

/-! ## Row by row -/

theorem key_eq_zeroAddress (address : Address) : Address.key address = zeroAddress ↔ address = 0 := by
  have zero : Address.key 0 = zeroAddress := by decide +kernel
  rw [← zero, Address.key_inj]

theorem transactionContributions_of (indexer : Indexer) (raw : RawBlock) (receipts : Hash → Option Receipt)
    (data : BlockData) (index : Nat) (tx : RawTransaction) (key : String) :
    weight key (transactionContributions
        (transactionRow data (transactionOf indexer raw.numberU64 (receipts tx.hash) index tx))) = partyGain key tx ∧
      ∀ hash, (∃ row ∈ transactionContributions
          (transactionRow data (transactionOf indexer raw.numberU64 (receipts tx.hash) index tx)),
        row.address = key ∧ row.tx = hash) ↔ isParty tx key ∧ some (Hash.hex tx.hash) = hash := by
  unfold transactionContributions partyGain isParty weight contributed transactionRow transactionOf bumpsNonce
  dsimp only
  generalize rawTxType tx = txType
  cases tx.toAddress with
  | none =>
    constructor
    · by_cases own : Address.key tx.fromAddress = key
      · simp [own]
      · simp [own, Ne.symm own]
    · intro hash
      simp [eq_comm]
  | some address =>
    constructor
    · by_cases own : Address.key tx.fromAddress = key
      · by_cases recipient : Address.key address = key <;> simp [own, recipient]
      · by_cases recipient : Address.key address = key <;> simp [own, Ne.symm own, recipient]
    · intro hash
      simp [eq_comm, or_and_right, exists_or]

private theorem weight_if (key : String) (holds : Prop) [Decidable holds] (row : Contribution) :
    weight key (if holds then [row] else []) =
      if holds ∧ key = row.address then (row.sent, row.internal, row.transfers, 0) else 0 := by
  unfold weight contributed
  by_cases held : holds <;> simp [held, eq_comm]

private theorem exists_if (holds : Prop) [Decidable holds] (row : Contribution) (found : Contribution → Prop) :
    (∃ other ∈ (if holds then [row] else []), found other) ↔ holds ∧ found row := by
  by_cases held : holds <;> simp [held]

theorem transferContributions_of (indexer : Indexer) (raw : RawBlock) (tx : RawTransaction) (log : ReceiptLog)
    (decoded : DecodedTransfer) (key : String) :
    weight key (transferContributions (transferRow (tokenTransferOf indexer raw (Hash.hex tx.hash) log decoded))) =
        transferGain key decoded ∧
      ∀ hash, (∃ row ∈ transferContributions
          (transferRow (tokenTransferOf indexer raw (Hash.hex tx.hash) log decoded)),
        row.address = key ∧ row.tx = hash) ↔ participates decoded key ∧ some (Hash.hex tx.hash) = hash := by
  unfold transferContributions transferGain participates transferRow tokenTransferOf
  simp only [lower_addressHex, ne_eq, key_eq_zeroAddress, Address.key_inj]
  constructor
  · rw [weight_append, weight_if, weight_if]
    simp only [and_assoc]
  · intro hash
    have whose (address : Address) : Address.key address = key ↔ key = Address.key address := eq_comm
    simp only [mem_append, or_and_right, exists_or, exists_if, whose, and_assoc]
    by_cases same : decoded.toAddr = decoded.fromAddr
    · simp only [same, not_true, false_and, and_false, or_false, or_self]
    · simp only [same, not_false_eq_true, true_and]

theorem internalContributions_of (frame : InternalTransaction) (key : String) :
    weight key (internalContributions (internalRow frame)) = frameGain key frame ∧
      ∀ hash, (∃ row ∈ internalContributions (internalRow frame), row.address = key ∧ row.tx = hash) ↔
        isFrameParty frame key ∧ hash = none := by
  unfold internalContributions frameGain isFrameParty weight contributed internalRow
  cases frame.toAddress with
  | none =>
    constructor
    · simp [eq_comm]
    · intro hash
      simp [eq_comm]
  | some address =>
    by_cases same : lower address = lower frame.fromAddress
    · constructor
      · simp [same, eq_comm]
      · intro hash
        simp [same, eq_comm]
    · constructor
      · simp [same, eq_comm]
      · intro hash
        simp [same, eq_comm, or_and_right, exists_or]

/-! ## The whole block -/

section

variable {indexer : Indexer} {raw : RawBlock} {receipts : Hash → Option Receipt} {built : BuiltBlock}

/-- What the node sends of one block: no hash, log index or frame twice, and frames of this block. -/
structure Distinct (indexer : Indexer) (raw : RawBlock) (receipts : Hash → Option Receipt) : Prop where
  hashes : (raw.transactions.map (·.hash)).Nodup
  logIndexes : ((raw.transactions.flatMap (logsOf receipts)).map (·.index)).Nodup
  frames : ((framesOf indexer raw).map fun frame => (frame.txHash, frame.traceAddress)).Nodup
  frameBlocks : ∀ frame ∈ framesOf indexer raw, frame.blockNumber = raw.numberU64

variable {contract : Contract} {frame : InternalTransaction}

theorem creationOf_number {tx : RawTransaction} (created : creationOf indexer raw receipts tx = some contract) :
    contract.blockNumber = raw.numberU64 := by
  unfold creationOf at created
  cases named : createdAddress (receipts tx.hash) tx with
  | none => simp [named] at created
  | some address =>
    simp only [named] at created
    cases read : contractCode indexer address raw.numberU64 with
    | none => simp [read] at created
    | some code =>
      cases code with
      | nil => simp [read] at created
      | cons byte rest =>
        simp only [read, Option.some.injEq] at created
        rw [← created]
        rfl

theorem frameCreation_some (created : frameCreation indexer raw frame = some contract) :
    contract.blockNumber = raw.numberU64 ∧ contract.address = lower (frame.toAddress.getD "") := by
  unfold frameCreation contractFromCreation at created
  obtain ⟨code, _, same⟩ := Option.map_eq_some_iff.mp created
  rw [← same]
  exact ⟨rfl, rfl⟩

theorem logIndex_sublist (indexer : Indexer) (raw : RawBlock) (tx : RawTransaction) (logs : List ReceiptLog) :
    ((logs.filterMap (transferOf indexer raw tx)).map (·.logIndex)).Sublist (logs.map (·.index)) := by
  induction logs with
  | nil => simp
  | cons log rest ih =>
    cases decoded : decodeTransfer log with
    | none => simpa [transferOf, decoded] using ih.cons log.index
    | some transfer => simpa [transferOf, decoded, tokenTransferOf] using ih.cons_cons log.index

section

variable (done : buildBlock indexer raw receipts = some built)

include done

theorem buildBlock_oneBlock (distinct : Distinct indexer raw receipts) : OneBlock built.data (blockOf indexer raw) := by
  obtain ⟨block, transactions, transfers, internal, contracts, _⟩ := buildBlock_rows done
  refine ⟨block, ?_, ?_, ?_, ?_, ?_, ?_, ?_⟩
  · rw [transactions]
    intro tx member
    obtain ⟨entry, _, rfl⟩ := mem_map.mp member
    rfl
  · rw [transactions, map_map]
    have hashes : ((fun tx : Transaction => tx.hash) ∘ fun entry : RawTransaction × Nat =>
        transactionOf indexer raw.numberU64 (receipts entry.1.hash) entry.2 entry.1) =
        Hash.hex ∘ (fun tx : RawTransaction => tx.hash) ∘ Prod.fst := rfl
    rw [hashes, ← map_map, ← map_map, zipIdx_map_fst]
    exact distinct.hashes.map Hash.hex_injective
  · rw [transfers]
    intro transfer member
    obtain ⟨tx, _, member⟩ := mem_flatMap.mp member
    obtain ⟨log, _, same⟩ := mem_filterMap.mp member
    obtain ⟨decoded, _, rfl⟩ := Option.map_eq_some_iff.mp same
    rfl
  · rw [transfers]
    refine distinct.logIndexes.sublist ?_
    rw [map_flatMap, map_flatMap]
    apply List.Sublist.flatMap_right
    intro tx _
    exact logIndex_sublist indexer raw tx (logsOf receipts tx)
  · rw [internal]
    exact distinct.frameBlocks
  · rw [internal]
    exact distinct.frames
  · rw [contracts]
    intro contract member
    rcases mem_append.mp member with byReceipt | byFrame
    · obtain ⟨tx, _, created⟩ := mem_filterMap.mp byReceipt
      exact creationOf_number created
    · obtain ⟨frame, _, created⟩ := mem_filterMap.mp byFrame
      exact (frameCreation_some created).1

omit done in
private theorem weight_transfers (indexer : Indexer) (raw : RawBlock) (tx : RawTransaction) (key : String)
    (logs : List ReceiptLog) :
    (((logs.filterMap (transferOf indexer raw tx)).map transferRow).map fun row =>
      weight key (transferContributions row)).sum = (logs.map (logGain key)).sum := by
  induction logs with
  | nil => rfl
  | cons log rest ih =>
    cases decoded : decodeTransfer log with
    | none => simpa [transferOf, logGain, decoded] using ih
    | some transfer =>
      have first : transferOf indexer raw tx log = some (tokenTransferOf indexer raw (Hash.hex tx.hash) log transfer) := by
        rw [transferOf, decoded, Option.map_some]
      have gain : logGain key log = transferGain key transfer := by rw [logGain, decoded, Option.map_some, Option.getD_some]
      rw [filterMap_cons_some first, map_cons, map_cons, sum_cons, ih, map_cons, sum_cons,
        gain, (transferContributions_of indexer raw tx log transfer key).1]

omit done in
private theorem weight_contracts (key : String) (contracts : List Contract) :
    weight key (contracts.flatMap contractContributions) = 0 := by
  rw [weight_flatMap]
  apply sum_eq_zero
  intro gain member
  obtain ⟨contract, _, rfl⟩ := mem_map.mp member
  simp only [weight, contractContributions, contributed, map_cons, map_nil, sum_cons, sum_nil,
    add_zero]
  split <;> rfl

variable (known : List Contract)

theorem weight_batch (key : String) :
    weight key (batchContributions built.data known) =
      (raw.transactions.map (txGain receipts key)).sum + ((framesOf indexer raw).map (frameGain key)).sum := by
  obtain ⟨_, transactions, transfers, internal, _, _⟩ := buildBlock_rows done
  have byTransaction : weight key ((built.data.transactions.map (transactionRow built.data)).flatMap
      transactionContributions) = (raw.transactions.map (partyGain key)).sum := by
    rw [weight_flatMap, transactions, map_map, map_map]
    conv_rhs => rw [← zipIdx_map_fst 0 raw.transactions, map_map]
    congr 1
    apply map_congr_left
    intro entry _
    rw [Function.comp_apply, Function.comp_apply, Function.comp_apply]
    exact (transactionContributions_of indexer raw receipts built.data entry.2 entry.1 key).1
  have byTransfer : weight key ((built.data.transfers.map transferRow).flatMap transferContributions) =
      (raw.transactions.map fun tx => ((logsOf receipts tx).map (logGain key)).sum).sum := by
    rw [transfers, map_flatMap, flatMap_assoc, weight_flatMap]
    congr 1
    apply map_congr_left
    intro tx _
    rw [weight_flatMap]
    exact weight_transfers indexer raw tx key (logsOf receipts tx)
  have byFrame : weight key ((built.data.internalTransactions.map internalRow).flatMap internalContributions) =
      ((framesOf indexer raw).map (frameGain key)).sum := by
    rw [weight_flatMap, internal, map_map]
    congr 1
    apply map_congr_left
    intro frame _
    rw [Function.comp_apply]
    exact (internalContributions_of frame key).1
  unfold batchContributions
  rw [weight_append, weight_append, weight_append, byTransaction, byTransfer, byFrame, weight_contracts, add_zero,
    ← sum_map_add]
  rfl

omit done in
private theorem exists_flatMap_map {α β : Type} (inputs : List α) (toRow : α → β) (rows : β → List Contribution)
    (found : Contribution → Prop) :
    (∃ row ∈ (inputs.map toRow).flatMap rows, found row) ↔ ∃ input ∈ inputs, ∃ row ∈ rows (toRow input), found row := by
  constructor
  · intro member
    obtain ⟨row, member, holds⟩ := member
    obtain ⟨own, produced, listed⟩ := mem_flatMap.mp member
    obtain ⟨input, given, rfl⟩ := mem_map.mp produced
    exact ⟨input, given, row, listed, holds⟩
  · intro member
    obtain ⟨input, member, row, listed, holds⟩ := member
    exact ⟨row, mem_flatMap.mpr ⟨toRow input, mem_map_of_mem member, listed⟩, holds⟩

theorem exists_transactionContribution (key : String) (hash : Option String) :
    (∃ row ∈ (built.data.transactions.map (transactionRow built.data)).flatMap transactionContributions,
        row.address = key ∧ row.tx = hash) ↔
      ∃ tx ∈ raw.transactions, isParty tx key ∧ some (Hash.hex tx.hash) = hash := by
  have rows (entry : RawTransaction × Nat) :=
    (transactionContributions_of indexer raw receipts built.data entry.2 entry.1 key).2 hash
  rw [exists_flatMap_map, (buildBlock_rows done).2.1]
  constructor
  · intro member
    obtain ⟨tx, stored, listed⟩ := member
    obtain ⟨entry, indexed, rfl⟩ := mem_map.mp stored
    exact ⟨entry.1, fst_mem_of_mem_zipIdx indexed, (rows entry).mp listed⟩
  · intro member
    obtain ⟨tx, member, party⟩ := member
    obtain ⟨index, found⟩ := mem_iff_getElem?.mp member
    have entered : (tx, index) ∈ raw.transactions.zipIdx := mem_zipIdx_iff_getElem?.mpr found
    exact ⟨_, mem_map_of_mem entered, (rows (tx, index)).mpr party⟩

theorem exists_transferContribution (key : String) (hash : Option String) :
    (∃ row ∈ (built.data.transfers.map transferRow).flatMap transferContributions,
        row.address = key ∧ row.tx = hash) ↔
      ∃ tx ∈ raw.transactions, (∃ log ∈ logsOf receipts tx, logTouches key log) ∧
        some (Hash.hex tx.hash) = hash := by
  rw [exists_flatMap_map, (buildBlock_rows done).2.2.1]
  constructor
  · intro member
    obtain ⟨transfer, stored, listed⟩ := member
    obtain ⟨tx, mined, own⟩ := mem_flatMap.mp stored
    obtain ⟨log, logged, same⟩ := mem_filterMap.mp own
    obtain ⟨decoded, found, rfl⟩ := Option.map_eq_some_iff.mp same
    have party := ((transferContributions_of indexer raw tx log decoded key).2 hash).mp listed
    exact ⟨tx, mined, ⟨log, logged, decoded, found, party.1⟩, party.2⟩
  · intro member
    obtain ⟨tx, member, ⟨log, logged, decoded, found, party⟩, same⟩ := member
    have own : transferOf indexer raw tx log = some (tokenTransferOf indexer raw (Hash.hex tx.hash) log decoded) := by
      rw [transferOf, found, Option.map_some]
    exact ⟨_, mem_flatMap.mpr ⟨tx, member, mem_filterMap.mpr ⟨log, logged, own⟩⟩,
      ((transferContributions_of indexer raw tx log decoded key).2 hash).mpr ⟨party, same⟩⟩

omit done in
private theorem exists_contractContribution (contracts : List Contract) (key : String) (hash : Option String) :
    (∃ row ∈ contracts.flatMap contractContributions, row.address = key ∧ row.tx = hash) ↔
      (∃ contract ∈ contracts, contract.address = key) ∧ hash = none := by
  simp only [contractContributions, mem_flatMap, mem_singleton]
  constructor
  · intro found
    obtain ⟨row, ⟨contract, member, rfl⟩, own, rfl⟩ := found
    exact ⟨⟨contract, member, own⟩, rfl⟩
  · intro found
    obtain ⟨⟨contract, member, own⟩, rfl⟩ := found
    exact ⟨_, ⟨contract, member, rfl⟩, own, rfl⟩

theorem exists_batchContribution (key : String) (hash : Option String) :
    (∃ row ∈ batchContributions built.data known, row.address = key ∧ row.tx = hash) ↔
      (∃ tx ∈ raw.transactions, touches receipts key tx ∧ some (Hash.hex tx.hash) = hash) ∨
        ((∃ frame ∈ framesOf indexer raw, isFrameParty frame key) ∨
          ∃ row ∈ newContracts built.data.contracts known, row.address = key) ∧ hash = none := by
  have byFrame : (∃ row ∈ (built.data.internalTransactions.map internalRow).flatMap internalContributions,
      row.address = key ∧ row.tx = hash) ↔
      (∃ frame ∈ framesOf indexer raw, isFrameParty frame key) ∧ hash = none := by
    rw [exists_flatMap_map, (buildBlock_rows done).2.2.2.1]
    have rows (frame : InternalTransaction) := (internalContributions_of frame key).2 hash
    simp only [rows]
    simp only [← and_assoc, exists_and_right]
  have byTx : (∃ tx ∈ raw.transactions, touches receipts key tx ∧ some (Hash.hex tx.hash) = hash) ↔
      (∃ tx ∈ raw.transactions, isParty tx key ∧ some (Hash.hex tx.hash) = hash) ∨
        ∃ tx ∈ raw.transactions, (∃ log ∈ logsOf receipts tx, logTouches key log) ∧
          some (Hash.hex tx.hash) = hash := by
    simp only [touches, or_and_right, and_or_left, exists_or]
  unfold batchContributions
  simp only [mem_append, or_and_right, exists_or, exists_transactionContribution done, exists_transferContribution done, byFrame,
    exists_contractContribution, byTx, or_assoc]

omit done in
theorem frameCreatesAt_isFrameParty {key : String} (member : frame ∈ internalCreations (framesOf indexer raw))
    (creates : frameCreatesAt indexer raw key frame) :
    frame ∈ framesOf indexer raw ∧ isFrameParty frame key := by
  obtain ⟨contract, created, rfl⟩ := creates
  obtain ⟨listed, effective⟩ := mem_filter.mp member
  refine ⟨listed, .inr ?_⟩
  rw [(frameCreation_some created).2, lower_lower]
  simp only [isCreation, Bool.and_eq_true] at effective
  obtain ⟨address, found⟩ := Option.isSome_iff_exists.mp effective.1.1.1.2
  exact ⟨address, found, by rw [found, Option.getD_some]⟩

omit done in
/-- The addresses `buildBlock` enters: those its transactions, transfers and frames name and those of the contracts
its receipts create. -/
theorem named_block (indexer : Indexer) (raw : RawBlock) (receipts : Hash → Option Receipt) (key : String) :
    named (recordFrames indexer raw.numberU64 (framesOf indexer raw) (recordTransactions indexer raw receipts)).counts
        key ↔
      (∃ tx ∈ raw.transactions, touches receipts key tx) ∨ (∃ frame ∈ framesOf indexer raw, isFrameParty frame key) ∨
        ∃ tx ∈ raw.transactions, createsAt indexer raw receipts key tx := by
  rw [(recordFrames_counts _ _ _ _ _).2, (recordTransactions_counts indexer raw receipts key).1]
  simp only [and_or_left, exists_or]
  constructor
  · intro entered
    rcases entered with ((touched | created) | party) | ⟨frame, member, creates⟩
    · exact .inl touched
    · exact .inr (.inr created)
    · exact .inr (.inl party)
    · exact .inr (.inl ⟨frame, frameCreatesAt_isFrameParty member creates⟩)
  · intro entered
    rcases entered with touched | party | created
    · exact .inl (.inl (.inl touched))
    · exact .inl (.inr party)
    · exact .inl (.inl (.inr created))

theorem exists_batchContribution_iff (key : String) :
    (∃ row ∈ batchContributions built.data known, row.address = key) ↔
      (∃ tx ∈ raw.transactions, touches receipts key tx) ∨ (∃ frame ∈ framesOf indexer raw, isFrameParty frame key) ∨
        (∃ tx ∈ raw.transactions, createsAt indexer raw receipts key tx) ∧ ∀ row ∈ known, row.address ≠ key := by
  have created (contract : Contract) (member : contract ∈ built.data.contracts)
      (own : lower contract.address = key) : (∃ tx ∈ raw.transactions, createsAt indexer raw receipts key tx) ∨
        ∃ frame ∈ framesOf indexer raw, isFrameParty frame key := by
    rw [(buildBlock_rows done).2.2.2.2.1] at member
    rcases mem_append.mp member with byReceipt | byFrame
    · obtain ⟨tx, mined, creates⟩ := mem_filterMap.mp byReceipt
      exact .inl ⟨tx, mined, contract, creates, own.symm⟩
    · obtain ⟨frame, effective, creates⟩ := mem_filterMap.mp byFrame
      exact .inr ⟨frame, frameCreatesAt_isFrameParty effective ⟨contract, creates, own.symm⟩⟩
  constructor
  · intro named
    obtain ⟨row, member, own⟩ := named
    rcases (exists_batchContribution done known key row.tx).mp ⟨row, member, own, rfl⟩ with
      ⟨tx, mined, touched, _⟩ | ⟨party | new, _⟩
    · exact .inl ⟨tx, mined, touched⟩
    · exact .inr (.inl party)
    · obtain ⟨⟨contract, listed, same⟩, absent⟩ := (exists_newContracts _ _ key).mp new
      rcases created contract listed same with byReceipt | party
      · exact .inr (.inr ⟨byReceipt, absent⟩)
      · exact .inr (.inl party)
  · intro named
    have contribution (hash : Option String) (found : ∃ row ∈ batchContributions built.data known,
        row.address = key ∧ row.tx = hash) : ∃ row ∈ batchContributions built.data known, row.address = key := by
      obtain ⟨row, member, own, _⟩ := found
      exact ⟨row, member, own⟩
    rcases named with ⟨tx, mined, touched⟩ | party | ⟨⟨tx, mined, contract, creates, own⟩, absent⟩
    · exact contribution _ ((exists_batchContribution done known key _).mpr (.inl ⟨tx, mined, touched, rfl⟩))
    · exact contribution none ((exists_batchContribution done known key none).mpr (.inr ⟨.inl party, rfl⟩))
    · have listed : contract ∈ built.data.contracts := by
        rw [(buildBlock_rows done).2.2.2.2.1]
        exact mem_append_left _ (mem_filterMap.mpr ⟨tx, mined, creates⟩)
      have new := (exists_newContracts built.data.contracts known key).mpr ⟨⟨contract, listed, own.symm⟩, absent⟩
      exact contribution none ((exists_batchContribution done known key none).mpr (.inr ⟨.inr new, rfl⟩))

theorem card_contributors (distinct : Distinct indexer raw receipts) (known : List Contract) (key : String)
    (indexes : Finset Nat) (counted : ∀ index, index ∈ indexes ↔
      ∃ tx, raw.transactions[index]? = some tx ∧ touches receipts key tx) :
    (contributors key (batchContributions built.data known)).card = indexes.card := by
  have hashAt (index : Nat) (tx : RawTransaction) (found : raw.transactions[index]? = some tx) :
      ((raw.transactions[index]?).map fun tx => Hash.hex tx.hash).getD "" = Hash.hex tx.hash := by
    rw [found, Option.map_some, Option.getD_some]
  have image : contributors key (batchContributions built.data known) =
      indexes.image fun index => ((raw.transactions[index]?).map fun tx => Hash.hex tx.hash).getD "" := by
    ext hash
    rw [mem_contributors, exists_batchContribution done, Finset.mem_image]
    constructor
    · intro found
      rcases found with ⟨tx, mined, touched, same⟩ | ⟨_, absurd⟩
      · obtain ⟨index, found⟩ := mem_iff_getElem?.mp mined
        exact ⟨index, (counted index).mpr ⟨tx, found, touched⟩, (hashAt index tx found).trans (Option.some.inj same)⟩
      · cases absurd
    · intro found
      obtain ⟨index, member, same⟩ := found
      obtain ⟨tx, found, touched⟩ := (counted index).mp member
      rw [hashAt index tx found] at same
      exact .inl ⟨tx, mem_of_getElem? found, touched, congrArg some same⟩
  rw [image]
  apply Finset.card_image_of_injOn
  intro first firstMember second secondMember same
  obtain ⟨firstTx, firstFound, _⟩ := (counted first).mp firstMember
  obtain ⟨secondTx, secondFound, _⟩ := (counted second).mp secondMember
  dsimp only at same
  rw [hashAt first firstTx firstFound, hashAt second secondTx secondFound, Hash.hex_inj] at same
  have hashes : (raw.transactions.map (·.hash))[first]? = (raw.transactions.map (·.hash))[second]? := by
    rw [List.getElem?_map, List.getElem?_map, firstFound, secondFound, Option.map_some, Option.map_some, same]
  have inside : first < (raw.transactions.map (·.hash)).length := by
    rw [length_map]
    exact (List.getElem?_eq_some_iff.mp firstFound).1
  exact (List.getElem?_inj inside distinct.hashes).mp hashes

/-! ## The two definitions agree -/

def deltaTotals (delta : AddressStatsDelta) : AddressTotals where
  txs := delta.txCountDelta
  sent := delta.sentDelta
  internal := delta.internalTxCountDelta
  transfers := delta.tokenTransferDelta

def entryTotals (stats : AList fun _ : String => AddressStatsDelta) (address : String) : AddressTotals :=
  ((stats.lookup address).map deltaTotals).getD ⟨0, 0, 0, 0⟩

omit done in
theorem entryTotals_eq (counts : AddressCounts) (address : String) (totals : AddressTotals)
    (same : tallyOf counts address = (totals.sent, totals.internal, totals.transfers, totals.txs)) :
    entryTotals counts.stats address = totals := by
  unfold tallyOf at same
  unfold entryTotals
  cases found : counts.stats.lookup address with
  | none =>
    rw [found] at same
    cases totals
    simp only [Option.map_none, Option.getD_none, Prod.ext_iff, Prod.fst_zero, Prod.snd_zero] at same ⊢
    simp [← same.1, ← same.2.1, ← same.2.2.1, ← same.2.2.2]
  | some delta =>
    rw [found] at same
    cases totals
    simp only [Option.map_some, Option.getD_some, tally, Prod.mk.injEq] at same ⊢
    simp [deltaTotals, same]

/-- An address's entry is the group of the contributions of the rows the block stores. -/
theorem entryTotals_batch (distinct : Distinct indexer raw receipts) (known : List Contract) (address : String) :
    entryTotals built.data.addressStats address = addressTotals (batchContributions built.data known) address := by
  obtain ⟨indexes, counted, total⟩ := (recordTransactions_counts indexer raw receipts address).2
  have sums := weight_batch done known address
  rw [weight_eq] at sums
  rw [(buildBlock_rows done).2.2.2.2.2]
  apply entryTotals_eq
  rw [(recordFrames_counts _ _ _ _ _).1, total, add_right_comm, ← sums, txs_eq,
    card_contributors done distinct known address indexes counted]
  simp only [Prod.mk_add_mk, add_zero, zero_add]

/-- An entry stands for each address the contributions name, and for a contract created where one is known. -/
theorem addressStats_isSome (address : String) :
    (built.data.addressStats.lookup address).isSome ↔
      (∃ row ∈ batchContributions built.data known, row.address = address) ∨
        (∃ tx ∈ raw.transactions, createsAt indexer raw receipts address tx) ∧
          ∃ row ∈ known, row.address = address := by
  have entered := named_block indexer raw receipts address
  unfold named at entered
  rw [(buildBlock_rows done).2.2.2.2.2, entered, exists_batchContribution_iff done]
  by_cases held : ∃ row ∈ known, row.address = address
  · have taken : ¬ ∀ row ∈ known, row.address ≠ address := by
      obtain ⟨row, member, own⟩ := held
      exact fun absent => absent row member own
    simp only [held, taken, and_false, or_false, and_true, or_assoc]
  · have absent : ∀ row ∈ known, row.address ≠ address := by
      intro row member own
      exact held ⟨row, member, own⟩
    simp only [held, and_false, or_false, iff_true_intro absent, and_true]

end

/-- For every address, `buildBlock`'s entry holds the ledger's aggregation over the rows the block stores. An entry
stands for each address the ledger names, and besides for a contract a receipt creates where the table has one. -/
theorem addressStats_eq_ledger {partitionOf : Nat → Nat} {store next : Store}
    (done : buildBlock indexer raw receipts = some built) (distinct : Distinct indexer raw receipts)
    (unstored : Unstored partitionOf built.data (blockOf indexer raw) store)
    (written : insertBlockDataBatch partitionOf built.data store = .ok next) (address : String) :
    entryTotals built.data.addressStats address =
        addressTotals (ledgerAddressContributions next raw.numberU64 (raw.numberU64 + 1)) address ∧
      ((built.data.addressStats.lookup address).isSome ↔
        (∃ row ∈ ledgerAddressContributions next raw.numberU64 (raw.numberU64 + 1), row.address = address) ∨
          (∃ tx ∈ raw.transactions, createsAt indexer raw receipts address tx) ∧
            ∃ row ∈ store.contracts, row.address = address) := by
  have one := buildBlock_oneBlock done distinct
  have rows := ledgerAddressContributions_batch one unstored written
  have number : (blockOf indexer raw).number = raw.numberU64 := rfl
  rw [number] at rows
  rw [rows]
  exact ⟨entryTotals_batch done distinct store.contracts address, addressStats_isSome done store.contracts address⟩

end

/-! ## A block with a creation -/

def tracingNode : Indexer :=
  { plainNode with
    tracingSupported := true
    getCode := fun _ => some [0xfe]
    fetchTraces := fun _ number timestamp => some
      [internalTransaction (Hash.hex 1) number timestamp [0]
        { type := "CALL", fromAddress := Address.key 0xb, toAddress := Address.key 0xa }] }

def creationBlock : RawBlock where
  number := some 7
  hash := 70
  parentHash := 60
  transactions :=
    [{ hash := 1, fromAddress := 0xa, toAddress := some 0xb }, { hash := 2, fromAddress := 0xa, toAddress := none }]

def creationReceipts (hash : Hash) : Option Receipt :=
  if hash = 1 then
    some { status := 1, logs := [{ address := 0xc, topics := [transferTopic, 0xa, 0xa], data := [5], index := 0 }] }
  else some { status := 1, contractAddress := 0xd }

def creationBuilt : BuiltBlock :=
  (buildBlock tracingNode creationBlock creationReceipts).get (by decide +kernel)

def creationStore (store : Store) : Store :=
  match insertBlockDataBatch id creationBuilt.data store with
  | .ok next => next
  | .error _ => store

def redeployed : Store where
  contracts :=
    [{ address := Address.key 0xd, bytecode := "0x", bytecodeHash := none, creator := zeroAddress, creationTx := "0x"
       blockNumber := 3 }]

theorem creationBuilt_distinct : Distinct tracingNode creationBlock creationReceipts :=
  ⟨by decide +kernel, by decide +kernel, by decide +kernel, by decide +kernel⟩

theorem creationStore_written (store : Store)
    (accepted : (insertBlockDataBatch id creationBuilt.data store).isOk = true) :
    insertBlockDataBatch id creationBuilt.data store = .ok (creationStore store) := by
  unfold creationStore
  cases written : insertBlockDataBatch id creationBuilt.data store with
  | ok next => rfl
  | error failure => simp [written, Except.isOk, Except.toBool] at accepted

theorem addressStats_eq_ledger_creation :
    entryTotals creationBuilt.data.addressStats (Address.key 0xa) = ⟨2, 2, 1, 1⟩ ∧
      entryTotals creationBuilt.data.addressStats (Address.key 0xa) =
        addressTotals (ledgerAddressContributions (creationStore {}) 7 8) (Address.key 0xa) := by
  have built : buildBlock tracingNode creationBlock creationReceipts = some creationBuilt := by
    rw [creationBuilt, Option.some_get]
  have unstored : Unstored id creationBuilt.data (blockOf tracingNode creationBlock) {} :=
    ⟨rfl, by simp, by simp, by simp, by simp⟩
  have written := creationStore_written {} (by decide +kernel)
  exact ⟨by decide +kernel, (addressStats_eq_ledger built creationBuilt_distinct unstored written _).1⟩

/-- A block that lists a transaction twice: its sender is counted for both, and the table keeps one row. -/
theorem repeated_hash_counted_twice :
    (buildBlock plainNode { callBlock [] with transactions := List.replicate 2 (plainCall []) } fun _ => none).map
      (fun built =>
      (entryTotals built.data.addressStats (Address.key 0xa),
        (insertBlockDataBatch id built.data {}).toOption.map fun next =>
          addressTotals (ledgerAddressContributions next 7 8) (Address.key 0xa))) =
      some (⟨2, 2, 0, 0⟩, some ⟨1, 1, 0, 0⟩) := by
  decide +kernel

/-- The created contract's address has an entry, and no contribution of the block names it. -/
theorem redeployed_entry_unnamed :
    Distinct tracingNode creationBlock creationReceipts ∧
      Unstored id creationBuilt.data (blockOf tracingNode creationBlock) redeployed ∧
      insertBlockDataBatch id creationBuilt.data redeployed = .ok (creationStore redeployed) ∧
      (creationBuilt.data.addressStats.lookup (Address.key 0xd)).isSome ∧
      ¬ ∃ row ∈ ledgerAddressContributions (creationStore redeployed) 7 8, row.address = Address.key 0xd := by
  have unstored : Unstored id creationBuilt.data (blockOf tracingNode creationBlock) redeployed :=
    ⟨rfl, by simp [redeployed], by simp [redeployed], by simp [redeployed], by decide +kernel⟩
  exact ⟨creationBuilt_distinct, unstored, creationStore_written redeployed (by decide +kernel), by decide +kernel,
    by decide +kernel⟩

end OpsIndexer.Indexing
