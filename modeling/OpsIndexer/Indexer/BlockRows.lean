import OpsIndexer.Indexer.BuildBlock
import OpsIndexer.Lib.Fold

/-!
# The rows of a built block

`buildBlock`'s loop read one accumulator at a time: each list it fills is a function of the raw block, the receipts
and the traces, and the address statistics gain from each transaction, log and frame separately.
-/

namespace OpsIndexer.Indexing

open Eth OpsIndexer.Types Db Rpc Lib.Fold List

def logsOf (receipts : Hash → Option Receipt) (tx : RawTransaction) : List ReceiptLog :=
  ((receipts tx.hash).map (·.logs)).getD []

def transferOf (indexer : Indexer) (raw : RawBlock) (tx : RawTransaction) (log : ReceiptLog) :
    Option TokenTransfer :=
  (decodeTransfer log).map (tokenTransferOf indexer raw (Hash.hex tx.hash) log)

def creationOf (indexer : Indexer) (raw : RawBlock) (receipts : Hash → Option Receipt) (tx : RawTransaction) :
    Option Contract :=
  match createdAddress (receipts tx.hash) tx with
  | none => none
  | some address =>
    match contractCode indexer address raw.numberU64 with
    | none => none
    | some [] => none
    | some code => some (createdContract indexer raw.numberU64 tx address code)

/-! ## One step of the loop -/

theorem recordTransfer_rows (indexer : Indexer) (raw : RawBlock) (index : Nat) (txHash : String)
    (log : ReceiptLog) (decoded : DecodedTransfer) (state : Building) :
    (recordTransfer indexer raw index txHash log decoded state).transactions = state.transactions ∧
      (recordTransfer indexer raw index txHash log decoded state).contracts = state.contracts ∧
      (recordTransfer indexer raw index txHash log decoded state).transfers =
        state.transfers ++ [tokenTransferOf indexer raw txHash log decoded] ∧
      (recordTransfer indexer raw index txHash log decoded state).counts =
        countParticipants indexer index raw decoded state.counts ∧
      (recordTransfer indexer raw index txHash log decoded state).internalTransactions =
        state.internalTransactions := by
  unfold recordTransfer queueToken recordBalanceWork recordNFT
  dsimp only
  repeat' split
  all_goals exact ⟨rfl, rfl, rfl, rfl, rfl⟩

theorem recordLog_rows (indexer : Indexer) (raw : RawBlock) (index : Nat) (txHash : String) (state : Building)
    (log : ReceiptLog) :
    (recordLog indexer raw index txHash state log).transactions = state.transactions ∧
      (recordLog indexer raw index txHash state log).contracts = state.contracts ∧
      (recordLog indexer raw index txHash state log).transfers =
        state.transfers ++ ((decodeTransfer log).map (tokenTransferOf indexer raw txHash log)).toList ∧
      (recordLog indexer raw index txHash state log).counts =
        (((decodeTransfer log).map (countParticipants indexer index raw)).getD id) state.counts ∧
      (recordLog indexer raw index txHash state log).internalTransactions = state.internalTransactions := by
  unfold recordLog
  cases decodeTransfer log with
  | none => simp
  | some decoded =>
    exact recordTransfer_rows indexer raw index txHash log decoded
      { state with logs := state.logs ++ [logOf indexer raw txHash log] }

theorem foldl_recordLog_transactions (indexer : Indexer) (raw : RawBlock) (index : Nat) (txHash : String)
    (logs : List ReceiptLog) (state : Building) :
    (logs.foldl (recordLog indexer raw index txHash) state).transactions = state.transactions :=
  foldl_keep (·.transactions) _ (fun state log => (recordLog_rows indexer raw index txHash state log).1) logs state

theorem foldl_recordLog_contracts (indexer : Indexer) (raw : RawBlock) (index : Nat) (txHash : String)
    (logs : List ReceiptLog) (state : Building) :
    (logs.foldl (recordLog indexer raw index txHash) state).contracts = state.contracts :=
  foldl_keep (·.contracts) _ (fun state log => (recordLog_rows indexer raw index txHash state log).2.1) logs state

theorem foldl_recordLog_transfers (indexer : Indexer) (raw : RawBlock) (index : Nat) (txHash : String)
    (logs : List ReceiptLog) (state : Building) :
    (logs.foldl (recordLog indexer raw index txHash) state).transfers = state.transfers ++
      logs.flatMap fun log => ((decodeTransfer log).map (tokenTransferOf indexer raw txHash log)).toList :=
  foldl_append (·.transfers) _ _ (fun state log => (recordLog_rows indexer raw index txHash state log).2.2.1) logs state

theorem foldl_recordLog_internal (indexer : Indexer) (raw : RawBlock) (index : Nat) (txHash : String)
    (logs : List ReceiptLog) (state : Building) :
    (logs.foldl (recordLog indexer raw index txHash) state).internalTransactions = state.internalTransactions :=
  foldl_keep (·.internalTransactions) _ (fun state log => (recordLog_rows indexer raw index txHash state log).2.2.2.2)
    logs state

theorem recordCreation_rows (indexer : Indexer) (raw : RawBlock) (receipts : Hash → Option Receipt)
    (tx : RawTransaction) (state : Building) :
    (recordCreation indexer raw.numberU64 (receipts tx.hash) tx state).transactions = state.transactions ∧
      (recordCreation indexer raw.numberU64 (receipts tx.hash) tx state).transfers = state.transfers ∧
      (recordCreation indexer raw.numberU64 (receipts tx.hash) tx state).contracts =
        state.contracts ++ (creationOf indexer raw receipts tx).toList ∧
      (recordCreation indexer raw.numberU64 (receipts tx.hash) tx state).internalTransactions =
        state.internalTransactions := by
  unfold recordCreation creationOf
  cases createdAddress (receipts tx.hash) tx with
  | none => simp
  | some address =>
    dsimp only
    cases contractCode indexer address raw.numberU64 with
    | none => simp
    | some code => cases code <;> simp

theorem recordTransaction_rows (indexer : Indexer) (raw : RawBlock) (receipts : Hash → Option Receipt)
    (state : Building) (entry : RawTransaction × Nat) :
    (recordTransaction indexer raw receipts state entry).transactions =
        state.transactions ++ [transactionOf indexer raw.numberU64 (receipts entry.1.hash) entry.2 entry.1] ∧
      (recordTransaction indexer raw receipts state entry).transfers =
        state.transfers ++ (logsOf receipts entry.1).filterMap (transferOf indexer raw entry.1) ∧
      (recordTransaction indexer raw receipts state entry).contracts =
        state.contracts ++ (creationOf indexer raw receipts entry.1).toList ∧
      (recordTransaction indexer raw receipts state entry).internalTransactions = state.internalTransactions := by
  obtain ⟨tx, index⟩ := entry
  unfold recordTransaction
  simp only [foldl_recordLog_transactions, foldl_recordLog_transfers, foldl_recordLog_contracts,
    foldl_recordLog_internal]
  have created := recordCreation_rows indexer raw receipts tx
    { state with
      transactions := state.transactions ++ [transactionOf indexer raw.numberU64 (receipts tx.hash) index tx]
      counts := touchParties indexer raw.numberU64 index state.contractCache tx state.counts }
  rw [created.1, created.2.1, created.2.2.1, created.2.2.2]
  refine ⟨rfl, ?_, rfl, rfl⟩
  rw [filterMap_eq_flatMap_toList]
  rfl

/-! ## The whole block -/

private theorem flatMap_zipIdx {α β : Type} (inputs : List α) (rows : α → List β) :
    (inputs.zipIdx.flatMap fun entry => rows entry.1) = inputs.flatMap rows := by
  conv_rhs => rw [← zipIdx_map_fst 0 inputs, flatMap_map]

theorem recordTransactions_transactions (indexer : Indexer) (raw : RawBlock) (receipts : Hash → Option Receipt) :
    (recordTransactions indexer raw receipts).transactions = raw.transactions.zipIdx.map fun entry =>
      transactionOf indexer raw.numberU64 (receipts entry.1.hash) entry.2 entry.1 := by
  have run := foldl_append (·.transactions) (recordTransaction indexer raw receipts) _
    (fun state entry => (recordTransaction_rows indexer raw receipts state entry).1) raw.transactions.zipIdx
    { contractCache := indexer.contractCache }
  rw [← map_eq_flatMap] at run
  exact run

theorem recordTransactions_transfers (indexer : Indexer) (raw : RawBlock) (receipts : Hash → Option Receipt) :
    (recordTransactions indexer raw receipts).transfers =
      raw.transactions.flatMap fun tx => (logsOf receipts tx).filterMap (transferOf indexer raw tx) := by
  have run := foldl_append (·.transfers) (recordTransaction indexer raw receipts) _
    (fun state entry => (recordTransaction_rows indexer raw receipts state entry).2.1) raw.transactions.zipIdx
    { contractCache := indexer.contractCache }
  rw [flatMap_zipIdx raw.transactions fun tx => (logsOf receipts tx).filterMap (transferOf indexer raw tx)] at run
  exact run

theorem recordTransactions_contracts (indexer : Indexer) (raw : RawBlock) (receipts : Hash → Option Receipt) :
    (recordTransactions indexer raw receipts).contracts =
      raw.transactions.filterMap (creationOf indexer raw receipts) := by
  have run := foldl_append (·.contracts) (recordTransaction indexer raw receipts) _
    (fun state entry => (recordTransaction_rows indexer raw receipts state entry).2.2.1) raw.transactions.zipIdx
    { contractCache := indexer.contractCache }
  rw [flatMap_zipIdx raw.transactions fun tx => (creationOf indexer raw receipts tx).toList,
    ← filterMap_eq_flatMap_toList] at run
  exact run

theorem recordTransactions_internal (indexer : Indexer) (raw : RawBlock) (receipts : Hash → Option Receipt) :
    (recordTransactions indexer raw receipts).internalTransactions = [] :=
  foldl_keep (·.internalTransactions) (recordTransaction indexer raw receipts)
    (fun state entry => (recordTransaction_rows indexer raw receipts state entry).2.2.2) raw.transactions.zipIdx
    { contractCache := indexer.contractCache }

def framesOf (indexer : Indexer) (raw : RawBlock) : List InternalTransaction :=
  if indexer.tracingSupported && !(receiptTxHashes indexer raw).isEmpty then
    (indexer.fetchTraces (receiptTxHashes indexer raw) raw.numberU64 raw.timestamp).getD []
  else []

def frameCreation (indexer : Indexer) (raw : RawBlock) (frame : InternalTransaction) : Option Contract :=
  contractFromCreation (fun address => contractCode indexer address raw.numberU64) frame raw.numberU64

theorem recordFrameCreation_rows (indexer : Indexer) (raw : RawBlock) (state : Building)
    (frame : InternalTransaction) :
    (recordFrameCreation indexer raw.numberU64 state frame).transactions = state.transactions ∧
      (recordFrameCreation indexer raw.numberU64 state frame).transfers = state.transfers ∧
      (recordFrameCreation indexer raw.numberU64 state frame).internalTransactions = state.internalTransactions ∧
      (recordFrameCreation indexer raw.numberU64 state frame).contracts =
        state.contracts ++ (frameCreation indexer raw frame).toList ∧
      (recordFrameCreation indexer raw.numberU64 state frame).counts =
        ((frameCreation indexer raw frame).map fun contract =>
          addressDelta state.counts contract.address raw.numberU64 flagContract).getD state.counts := by
  unfold recordFrameCreation frameCreation
  dsimp only
  cases contractFromCreation (fun address => contractCode indexer address raw.numberU64) frame raw.numberU64 <;>
    simp

theorem recordTraces_eq (indexer : Indexer) (raw : RawBlock) (receipts : Hash → Option Receipt) :
    (recordTraces indexer raw (recordTransactions indexer raw receipts)).1 =
      recordFrames indexer raw.numberU64 (framesOf indexer raw) (recordTransactions indexer raw receipts) := by
  have none : recordFrames indexer raw.numberU64 [] (recordTransactions indexer raw receipts) =
      recordTransactions indexer raw receipts := by
    have empty := recordTransactions_internal indexer raw receipts
    generalize recordTransactions indexer raw receipts = state at empty ⊢
    obtain ⟨_, _, _, _, _, frames, _, _, _, _, _, _⟩ := state
    subst empty
    rfl
  unfold recordTraces framesOf
  dsimp only
  split
  · cases indexer.fetchTraces (receiptTxHashes indexer raw) raw.numberU64 raw.timestamp with
    | none => exact none.symm
    | some frames => rfl
  · exact none.symm

theorem recordFrames_rows (indexer : Indexer) (raw : RawBlock) (frames : List InternalTransaction)
    (state : Building) :
    (recordFrames indexer raw.numberU64 frames state).transactions = state.transactions ∧
      (recordFrames indexer raw.numberU64 frames state).transfers = state.transfers ∧
      (recordFrames indexer raw.numberU64 frames state).internalTransactions = frames ∧
      (recordFrames indexer raw.numberU64 frames state).contracts =
        state.contracts ++ (internalCreations frames).filterMap (frameCreation indexer raw) := by
  unfold recordFrames
  refine ⟨?_, ?_, ?_, ?_⟩
  · exact foldl_keep (·.transactions) _ (fun state frame => (recordFrameCreation_rows indexer raw state frame).1) _ _
  · exact foldl_keep (·.transfers) _ (fun state frame => (recordFrameCreation_rows indexer raw state frame).2.1) _ _
  · exact foldl_keep (·.internalTransactions) _
      (fun state frame => (recordFrameCreation_rows indexer raw state frame).2.2.1) _ _
  · rw [filterMap_eq_flatMap_toList]
    exact foldl_append (·.contracts) _ _
      (fun state frame => (recordFrameCreation_rows indexer raw state frame).2.2.2.1) _ _

variable {indexer : Indexer} {raw : RawBlock} {receipts : Hash → Option Receipt} {built : BuiltBlock}

theorem buildBlock_rows (done : buildBlock indexer raw receipts = some built) :
    built.data.block = some (blockOf indexer raw) ∧
      built.data.transactions = (raw.transactions.zipIdx.map fun entry =>
        transactionOf indexer raw.numberU64 (receipts entry.1.hash) entry.2 entry.1) ∧
      built.data.transfers =
        (raw.transactions.flatMap fun tx => (logsOf receipts tx).filterMap (transferOf indexer raw tx)) ∧
      built.data.internalTransactions = framesOf indexer raw ∧
      built.data.contracts = raw.transactions.filterMap (creationOf indexer raw receipts) ++
        (internalCreations (framesOf indexer raw)).filterMap (frameCreation indexer raw) ∧
      built.data.addressStats = (recordFrames indexer raw.numberU64 (framesOf indexer raw)
        (recordTransactions indexer raw receipts)).counts.stats := by
  have rows := recordFrames_rows indexer raw (framesOf indexer raw) (recordTransactions indexer raw receipts)
  rw [recordTransactions_transactions, recordTransactions_transfers, recordTransactions_contracts] at rows
  unfold buildBlock at done
  dsimp only at done
  rw [recordTraces_eq] at done
  obtain ⟨tokens, _, done⟩ := Option.bind_eq_some_iff.mp done
  obtain ⟨nfts, _, done⟩ := Option.bind_eq_some_iff.mp done
  cases done
  exact ⟨rfl, rows.1, rows.2.1, rows.2.2.1, rows.2.2.2, rfl⟩

/-! ## The logs -/

theorem recordLog_logs (indexer : Indexer) (raw : RawBlock) (index : Nat) (txHash : String) (state : Building)
    (log : ReceiptLog) :
    (recordLog indexer raw index txHash state log).logs = state.logs ++ [logOf indexer raw txHash log] := by
  unfold recordLog recordTransfer queueToken recordBalanceWork recordNFT
  dsimp only
  repeat' split
  all_goals rfl

theorem recordCreation_logs (indexer : Indexer) (blockNumber : Nat) (receipt : Option Receipt) (tx : RawTransaction)
    (state : Building) : (recordCreation indexer blockNumber receipt tx state).logs = state.logs := by
  unfold recordCreation
  repeat' split
  all_goals rfl

theorem recordTransaction_logs (indexer : Indexer) (raw : RawBlock) (receipts : Hash → Option Receipt)
    (state : Building) (entry : RawTransaction × Nat) :
    (recordTransaction indexer raw receipts state entry).logs =
      state.logs ++ (logsOf receipts entry.1).map (logOf indexer raw (Hash.hex entry.1.hash)) := by
  unfold recordTransaction
  dsimp only
  have run := foldl_append Building.logs _ _ (recordLog_logs indexer raw entry.2 (Hash.hex entry.1.hash))
  rw [run, recordCreation_logs, ← map_eq_flatMap]
  rfl

theorem recordTransactions_logs (indexer : Indexer) (raw : RawBlock) (receipts : Hash → Option Receipt) :
    (recordTransactions indexer raw receipts).logs =
      raw.transactions.flatMap fun tx => (logsOf receipts tx).map (logOf indexer raw (Hash.hex tx.hash)) := by
  have run := foldl_append (·.logs) (recordTransaction indexer raw receipts) _
    (recordTransaction_logs indexer raw receipts) raw.transactions.zipIdx { contractCache := indexer.contractCache }
  rw [flatMap_zipIdx raw.transactions fun tx => (logsOf receipts tx).map (logOf indexer raw (Hash.hex tx.hash))] at run
  exact run

theorem recordFrames_logs (indexer : Indexer) (blockNumber : Nat) (frames : List InternalTransaction)
    (state : Building) : (recordFrames indexer blockNumber frames state).logs = state.logs := by
  have keeps : ∀ state frame, (recordFrameCreation indexer blockNumber state frame).logs = state.logs := by
    intro state frame
    unfold recordFrameCreation
    dsimp only
    split <;> rfl
  exact foldl_keep Building.logs _ keeps _ _

theorem buildBlock_logs (done : buildBlock indexer raw receipts = some built) :
    built.data.logs =
      raw.transactions.flatMap fun tx => (logsOf receipts tx).map (logOf indexer raw (Hash.hex tx.hash)) := by
  unfold buildBlock at done
  dsimp only at done
  rw [recordTraces_eq] at done
  obtain ⟨tokens, _, done⟩ := Option.bind_eq_some_iff.mp done
  obtain ⟨nfts, _, done⟩ := Option.bind_eq_some_iff.mp done
  cases done
  exact (recordFrames_logs indexer raw.numberU64 _ _).trans (recordTransactions_logs indexer raw receipts)

end OpsIndexer.Indexing
