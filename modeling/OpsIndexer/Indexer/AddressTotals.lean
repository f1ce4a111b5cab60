import OpsIndexer.Indexer.BlockRows

/-!
# What a block adds to an address

The address statistics of a built block, address by address: which parts of the block name the address, the sum of
what each adds to its counts, and the set of transactions that touch it.
-/

namespace OpsIndexer.Indexing

open Eth OpsIndexer.Types Db Rpc Lib.Fold List

/-! ## The parts -/

def isParty (tx : RawTransaction) (key : String) : Prop :=
  key = Address.key tx.fromAddress ∨ ∃ address, tx.toAddress = some address ∧ key = Address.key address

def partyGain (key : String) (tx : RawTransaction) : Tally :=
  if key = Address.key tx.fromAddress then (if bumpsNonce (rawTxType tx) then 1 else 0, 0, 0, 0) else 0

def participates (decoded : DecodedTransfer) (key : String) : Prop :=
  decoded.fromAddr ≠ 0 ∧ key = Address.key decoded.fromAddr ∨ decoded.toAddr ≠ 0 ∧ key = Address.key decoded.toAddr

def transferGain (key : String) (decoded : DecodedTransfer) : Tally :=
  (if decoded.fromAddr ≠ 0 ∧ key = Address.key decoded.fromAddr then (0, 0, 1, 0) else 0) +
    if decoded.toAddr ≠ 0 ∧ decoded.toAddr ≠ decoded.fromAddr ∧ key = Address.key decoded.toAddr then (0, 0, 1, 0)
    else 0

def logGain (key : String) (log : ReceiptLog) : Tally :=
  ((decodeTransfer log).map (transferGain key)).getD 0

def logTouches (key : String) (log : ReceiptLog) : Prop :=
  ∃ decoded, decodeTransfer log = some decoded ∧ participates decoded key

def touches (receipts : Hash → Option Receipt) (key : String) (tx : RawTransaction) : Prop :=
  isParty tx key ∨ ∃ log ∈ logsOf receipts tx, logTouches key log

def isFrameParty (frame : InternalTransaction) (key : String) : Prop :=
  key = lower frame.fromAddress ∨ ∃ address, frame.toAddress = some address ∧ key = lower address

def frameGain (key : String) (frame : InternalTransaction) : Tally :=
  (if key = lower frame.fromAddress then (0, 1, 0, 0) else 0) +
    if ∃ address ∈ frame.toAddress, lower address ≠ lower frame.fromAddress ∧ key = lower address then (0, 1, 0, 0)
    else 0

/-! ## One step -/

theorem touchParties_counts (indexer : Indexer) (blockNumber index : Nat) (cache : List String) (tx : RawTransaction)
    (counts : AddressCounts) (key : String) :
    tallyOf (touchParties indexer blockNumber index cache tx counts) key = tallyOf counts key + partyGain key tx ∧
      (named (touchParties indexer blockNumber index cache tx counts) key ↔ named counts key ∨ isParty tx key) ∧
      ∀ other, other ∈ txsOf (touchParties indexer blockNumber index cache tx counts) key ↔
        other ∈ txsOf counts key ∨ isParty tx key ∧ other = index := by
  have gains (gain : Nat) (delta : AddressStatsDelta) :
      tally { delta with sentDelta := delta.sentDelta + gain } = tally delta + (gain, 0, 0, 0) := rfl
  have sender := gains (if bumpsNonce (rawTxType tx) then 1 else 0)
  unfold touchParties isParty partyGain
  cases tx.toAddress with
  | none =>
    refine ⟨?_, ?_, ?_⟩
    · simp [tallyOf_touchAddressTx _ _ _ _ _ _ _ sender]
    · simp [named_touchAddressTx]
    · intro other
      simp [mem_txsOf_touchAddressTx]
  | some address =>
    have recipient (delta : AddressStatsDelta) :
        tally { delta with isContract := delta.isContract || cache.contains (Address.key address) } =
          tally delta + 0 := rfl
    refine ⟨?_, ?_, ?_⟩
    · rw [tallyOf_touchAddressTx _ _ _ _ _ _ _ recipient, tallyOf_touchAddressTx _ _ _ _ _ _ _ sender]
      simp
    · simp [named_touchAddressTx, or_assoc]
    · intro other
      simp only [mem_txsOf_touchAddressTx, lower_addressHex, Option.some.injEq, exists_eq_left']
      rw [or_assoc, ← or_and_right]

theorem countTransferParticipant_counts (keccak256 : Bytes → Hash) (counts : AddressCounts) (address : Address)
    (index blockNumber : Nat) (key : String) :
    tallyOf (countTransferParticipant keccak256 counts address index blockNumber) key =
        tallyOf counts key + (if address ≠ 0 ∧ key = Address.key address then (0, 0, 1, 0) else 0) ∧
      (named (countTransferParticipant keccak256 counts address index blockNumber) key ↔
        named counts key ∨ address ≠ 0 ∧ key = Address.key address) ∧
      ∀ other, other ∈ txsOf (countTransferParticipant keccak256 counts address index blockNumber) key ↔
        other ∈ txsOf counts key ∨ (address ≠ 0 ∧ key = Address.key address) ∧ other = index := by
  have gains (delta : AddressStatsDelta) :
      tally { delta with tokenTransferDelta := delta.tokenTransferDelta + 1 } = tally delta + (0, 0, 1, 0) := rfl
  unfold countTransferParticipant
  by_cases zero : address = 0
  · simp [zero]
  · rw [if_neg zero]
    refine ⟨?_, ?_, ?_⟩
    · rw [tallyOf_touchAddressTx _ _ _ _ _ _ _ gains]
      simp only [lower_addressHex, ne_eq, zero, not_false_eq_true, true_and]
    · simp only [named_touchAddressTx, lower_addressHex, ne_eq, zero, not_false_eq_true, true_and]
    · intro other
      simp only [mem_txsOf_touchAddressTx, lower_addressHex, ne_eq, zero, not_false_eq_true, true_and]

theorem countParticipants_counts (indexer : Indexer) (index : Nat) (raw : RawBlock) (decoded : DecodedTransfer)
    (counts : AddressCounts) (key : String) :
    tallyOf (countParticipants indexer index raw decoded counts) key = tallyOf counts key + transferGain key decoded ∧
      (named (countParticipants indexer index raw decoded counts) key ↔ named counts key ∨ participates decoded key) ∧
      ∀ other, other ∈ txsOf (countParticipants indexer index raw decoded counts) key ↔
        other ∈ txsOf counts key ∨ participates decoded key ∧ other = index := by
  have first := countTransferParticipant_counts indexer.keccak256 counts decoded.fromAddr index raw.numberU64 key
  unfold countParticipants transferGain participates
  by_cases same : decoded.toAddr = decoded.fromAddr
  · simp only [same, if_true]
    refine ⟨?_, ?_, ?_⟩
    · simpa using first.1
    · simpa using first.2.1
    · simpa using first.2.2
  · simp only [same, if_false]
    have second := countTransferParticipant_counts indexer.keccak256
      (countTransferParticipant indexer.keccak256 counts decoded.fromAddr index raw.numberU64) decoded.toAddr index
      raw.numberU64 key
    refine ⟨?_, ?_, ?_⟩
    · rw [second.1, first.1, add_assoc]
      simp [same]
    · rw [second.2.1, first.2.1, or_assoc]
    · intro other
      rw [second.2.2, first.2.2, or_assoc, or_and_right]

theorem recordLog_counts (indexer : Indexer) (raw : RawBlock) (index : Nat) (txHash : String) (key : String)
    (state : Building) (log : ReceiptLog) :
    tallyOf (recordLog indexer raw index txHash state log).counts key = tallyOf state.counts key + logGain key log ∧
      (named (recordLog indexer raw index txHash state log).counts key ↔
        named state.counts key ∨ logTouches key log) ∧
      ∀ other, other ∈ txsOf (recordLog indexer raw index txHash state log).counts key ↔
        other ∈ txsOf state.counts key ∨ logTouches key log ∧ other = index := by
  rw [(recordLog_rows indexer raw index txHash state log).2.2.2.1]
  unfold logGain logTouches
  cases decodeTransfer log with
  | none => simp
  | some decoded =>
    have counted := countParticipants_counts indexer index raw decoded state.counts key
    simpa using counted

def createsAt (indexer : Indexer) (raw : RawBlock) (receipts : Hash → Option Receipt) (key : String)
    (tx : RawTransaction) : Prop :=
  ∃ contract, creationOf indexer raw receipts tx = some contract ∧ key = lower contract.address

private theorem flagged (delta : AddressStatsDelta) : tally (flagContract delta) = tally delta + 0 := rfl

theorem recordCreation_counts (indexer : Indexer) (raw : RawBlock) (receipts : Hash → Option Receipt)
    (tx : RawTransaction) (state : Building) (key : String) :
    tallyOf (recordCreation indexer raw.numberU64 (receipts tx.hash) tx state).counts key = tallyOf state.counts key ∧
      (named (recordCreation indexer raw.numberU64 (receipts tx.hash) tx state).counts key ↔
        named state.counts key ∨ createsAt indexer raw receipts key tx) ∧
      txsOf (recordCreation indexer raw.numberU64 (receipts tx.hash) tx state).counts key = txsOf state.counts key := by
  unfold recordCreation createsAt creationOf
  cases createdAddress (receipts tx.hash) tx with
  | none => simp
  | some address =>
    dsimp only
    cases contractCode indexer address raw.numberU64 with
    | none => simp
    | some code =>
      cases code with
      | nil => simp
      | cons byte rest =>
        refine ⟨?_, ?_, rfl⟩
        · rw [tallyOf_addressDelta _ _ _ _ _ _ flagged]
          simp
        · simp [named_addressDelta, createdContract]

def txGain (receipts : Hash → Option Receipt) (key : String) (tx : RawTransaction) : Tally :=
  partyGain key tx + ((logsOf receipts tx).map (logGain key)).sum

theorem recordTransaction_counts (indexer : Indexer) (raw : RawBlock) (receipts : Hash → Option Receipt)
    (key : String) (state : Building) (entry : RawTransaction × Nat) :
    tallyOf (recordTransaction indexer raw receipts state entry).counts key =
        tallyOf state.counts key + txGain receipts key entry.1 ∧
      (named (recordTransaction indexer raw receipts state entry).counts key ↔
        named state.counts key ∨ (touches receipts key entry.1 ∨ createsAt indexer raw receipts key entry.1)) ∧
      ∀ other, other ∈ txsOf (recordTransaction indexer raw receipts state entry).counts key ↔
        other ∈ txsOf state.counts key ∨ touches receipts key entry.1 ∧ other = entry.2 := by
  obtain ⟨tx, index⟩ := entry
  have parties := touchParties_counts indexer raw.numberU64 index state.contractCache tx state.counts key
  have created := recordCreation_counts indexer raw receipts tx
    { state with
      transactions := state.transactions ++ [transactionOf indexer raw.numberU64 (receipts tx.hash) index tx]
      counts := touchParties indexer raw.numberU64 index state.contractCache tx state.counts } key
  have step := recordLog_counts indexer raw index (Hash.hex tx.hash) key
  unfold recordTransaction
  dsimp only
  refine ⟨?_, ?_, ?_⟩
  · rw [foldl_add (fun state : Building => tallyOf state.counts key) _ (logGain key)
      (fun state log => (step state log).1)]
    rw [created.1, parties.1, txGain, add_assoc]
    rfl
  · rw [foldl_or (fun state : Building => named state.counts key) _ (logTouches key)
      (fun state log => (step state log).2.1)]
    rw [created.2.1, parties.2.1, or_right_comm, or_assoc, or_assoc]
    exact or_congr_right or_assoc.symm
  · intro other
    rw [foldl_or (fun state : Building => other ∈ txsOf state.counts key) _ (fun log => logTouches key log ∧ other = index)
      (fun state log => (step state log).2.2 other)]
    rw [created.2.2, parties.2.2]
    unfold touches logsOf
    constructor
    · intro found
      rcases found with (old | party) | ⟨log, member, touched⟩
      · exact .inl old
      · exact .inr ⟨.inl party.1, party.2⟩
      · exact .inr ⟨.inr ⟨log, member, touched.1⟩, touched.2⟩
    · intro found
      rcases found with old | ⟨party | ⟨log, member, touched⟩, same⟩
      · exact .inl (.inl old)
      · exact .inl (.inr ⟨party, same⟩)
      · exact .inr ⟨log, member, touched, same⟩

theorem tallyOf_addTxCounts (counts : AddressCounts) (key : String)
    (entered : (txsOf counts key).Nonempty → named counts key) :
    tallyOf (addTxCounts counts) key = tallyOf counts key + (0, 0, 0, (txsOf counts key).card) := by
  unfold named at entered
  unfold tallyOf
  rw [lookup_addTxCounts]
  cases found : counts.stats.lookup key with
  | none =>
    have untouched : txsOf counts key = ∅ := by
      by_contra touched
      have entry := entered (Finset.nonempty_iff_ne_empty.mpr touched)
      simp [found] at entry
    simp [untouched]
    rfl
  | some delta => rfl

private theorem exists_zipIdx {α : Type} (inputs : List α) (holds : α → Prop) :
    (∃ entry ∈ inputs.zipIdx, holds entry.1) ↔ ∃ input ∈ inputs, holds input := by
  conv_rhs => rw [← zipIdx_map_fst 0 inputs]
  simp only [mem_map, exists_exists_and_eq_and]

private theorem map_zipIdx {α β : Type} (inputs : List α) (value : α → β) :
    (inputs.zipIdx.map fun entry => value entry.1) = inputs.map value := by
  conv_rhs => rw [← zipIdx_map_fst 0 inputs, map_map]
  rfl

theorem recordTransactions_counts (indexer : Indexer) (raw : RawBlock) (receipts : Hash → Option Receipt)
    (key : String) :
    (named (recordTransactions indexer raw receipts).counts key ↔
        ∃ tx ∈ raw.transactions, touches receipts key tx ∨ createsAt indexer raw receipts key tx) ∧
      ∃ indexes : Finset Nat,
        (∀ index, index ∈ indexes ↔ ∃ tx, raw.transactions[index]? = some tx ∧ touches receipts key tx) ∧
        tallyOf (recordTransactions indexer raw receipts).counts key =
          (raw.transactions.map (txGain receipts key)).sum + (0, 0, 0, indexes.card) := by
  have step := recordTransaction_counts indexer raw receipts key
  have sum := foldl_add (fun state : Building => tallyOf state.counts key) (recordTransaction indexer raw receipts)
    (fun entry => txGain receipts key entry.1) (fun state entry => (step state entry).1) raw.transactions.zipIdx
    { contractCache := indexer.contractCache }
  have names := foldl_or (fun state : Building => named state.counts key) (recordTransaction indexer raw receipts)
    (fun entry => touches receipts key entry.1 ∨ createsAt indexer raw receipts key entry.1)
    (fun state entry => (step state entry).2.1) raw.transactions.zipIdx { contractCache := indexer.contractCache }
  have indexes (other : Nat) := foldl_or (fun state : Building => other ∈ txsOf state.counts key)
    (recordTransaction indexer raw receipts) (fun entry => touches receipts key entry.1 ∧ other = entry.2)
    (fun state entry => (step state entry).2.2 other) raw.transactions.zipIdx
    { contractCache := indexer.contractCache }
  unfold recordTransactions
  generalize raw.transactions.zipIdx.foldl (recordTransaction indexer raw receipts)
    { contractCache := indexer.contractCache } = state at sum names indexes ⊢
  have everyIndex (other : Nat) : other ∈ txsOf state.counts key ↔
      ∃ tx, raw.transactions[other]? = some tx ∧ touches receipts key tx := by
    rw [indexes other]
    simp only [txsOf, AList.lookup_empty, Option.getD_none, Finset.notMem_empty, false_or]
    constructor
    · intro found
      obtain ⟨⟨tx, index⟩, member, touched, rfl⟩ := found
      exact ⟨tx, mem_zipIdx_iff_getElem?.mp member, touched⟩
    · intro found
      obtain ⟨tx, member, touched⟩ := found
      exact ⟨(tx, other), mem_zipIdx_iff_getElem?.mpr member, touched, rfl⟩
  refine ⟨?_, txsOf state.counts key, everyIndex, ?_⟩
  · unfold named
    rw [lookup_addTxCounts, Option.isSome_map]
    refine names.trans ?_
    have unnamed : ¬ named ({} : AddressCounts) key := by simp [named]
    rw [or_iff_right unnamed]
    exact exists_zipIdx raw.transactions fun tx => touches receipts key tx ∨ createsAt indexer raw receipts key tx
  · rw [tallyOf_addTxCounts state.counts key ?_, sum]
    · rw [map_zipIdx raw.transactions (txGain receipts key)]
      have untallied : tallyOf ({} : AddressCounts) key = 0 := rfl
      rw [untallied, zero_add]
    · intro touched
      obtain ⟨index, member⟩ := touched
      obtain ⟨tx, found, touching⟩ := (everyIndex index).mp member
      exact names.mpr (.inr ⟨(tx, index), mem_zipIdx_iff_getElem?.mpr found, .inl touching⟩)

/-! ## The frames -/

theorem countFrame_counts (blockNumber : Nat) (key : String) (counts : AddressCounts) (frame : InternalTransaction) :
    tallyOf (countFrame blockNumber counts frame) key = tallyOf counts key + frameGain key frame ∧
      (named (countFrame blockNumber counts frame) key ↔ named counts key ∨ isFrameParty frame key) := by
  have gains (delta : AddressStatsDelta) : tally (countInternal delta) = tally delta + (0, 1, 0, 0) := rfl
  unfold countFrame frameGain isFrameParty
  cases frame.toAddress with
  | none =>
    constructor
    · simp [tallyOf_addressDelta _ _ _ _ _ _ gains]
    · simp [named_addressDelta]
  | some address =>
    by_cases same : lower address = lower frame.fromAddress
    · constructor
      · simp [same, tallyOf_addressDelta _ _ _ _ _ _ gains]
      · simp [same, named_addressDelta]
    · constructor
      · simp [same, tallyOf_addressDelta _ _ _ _ _ _ gains, add_assoc]
      · simp [same, named_addressDelta, or_assoc]

def frameCreatesAt (indexer : Indexer) (raw : RawBlock) (key : String) (frame : InternalTransaction) : Prop :=
  ∃ contract, frameCreation indexer raw frame = some contract ∧ key = lower contract.address

theorem recordFrameCreation_counts (indexer : Indexer) (raw : RawBlock) (key : String) (state : Building)
    (frame : InternalTransaction) :
    tallyOf (recordFrameCreation indexer raw.numberU64 state frame).counts key = tallyOf state.counts key ∧
      (named (recordFrameCreation indexer raw.numberU64 state frame).counts key ↔
        named state.counts key ∨ frameCreatesAt indexer raw key frame) := by
  rw [(recordFrameCreation_rows indexer raw state frame).2.2.2.2]
  unfold frameCreatesAt
  cases frameCreation indexer raw frame with
  | none => simp
  | some contract =>
    constructor
    · simp [tallyOf_addressDelta _ _ _ _ _ _ flagged]
    · simp [named_addressDelta]

theorem recordFrames_counts (indexer : Indexer) (raw : RawBlock) (frames : List InternalTransaction)
    (state : Building) (key : String) :
    tallyOf (recordFrames indexer raw.numberU64 frames state).counts key =
        tallyOf state.counts key + (frames.map (frameGain key)).sum ∧
      (named (recordFrames indexer raw.numberU64 frames state).counts key ↔
        (named state.counts key ∨ ∃ frame ∈ frames, isFrameParty frame key) ∨
          ∃ frame ∈ internalCreations frames, frameCreatesAt indexer raw key frame) := by
  have created := recordFrameCreation_counts indexer raw key
  have counted := countFrame_counts raw.numberU64 key
  unfold recordFrames
  constructor
  · rw [foldl_keep (fun state : Building => tallyOf state.counts key) _ (fun state frame => (created state frame).1)]
    exact foldl_add (fun counts => tallyOf counts key) (countFrame raw.numberU64) (frameGain key)
      (fun counts frame => (counted counts frame).1) frames state.counts
  · rw [foldl_or (fun state : Building => named state.counts key) _ (frameCreatesAt indexer raw key)
      (fun state frame => (created state frame).2)]
    exact or_congr_left (foldl_or (fun counts => named counts key) (countFrame raw.numberU64)
      (fun frame => isFrameParty frame key) (fun counts frame => (counted counts frame).2) frames state.counts)

end OpsIndexer.Indexing
