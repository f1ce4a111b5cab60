import OpsIndexer.Indexer.BalanceWorker

/-!
# The values balance reads write

Three readers decode a token's reply. The batched reader and the stats backfill cut a word of 32 bytes; the worker's
single read and the rereads without workers take the whole reply as the number. A word is below `NUMERIC(78,0)`'s
bound, a longer reply is below it exactly when it is not overlong.
-/

namespace OpsIndexer.Indexing

open Eth OpsIndexer.Types Db Lib.Table List

/-! ## Replies as numbers -/

def replyHead (data : Bytes) : Nat :=
  setBytes (data.take (data.length - 32))

def replyWord (data : Bytes) : Nat :=
  setBytes (data.drop (data.length - 32))

/-- A reply with so much before its last word that no `NUMERIC(78,0)` holds the whole. -/
def Overlong (data : Bytes) : Prop :=
  8 < replyHead data ∨ (replyHead data = 8 ∧ 10 ^ 78 - 8 * 2 ^ 256 ≤ replyWord data)

theorem setBytes_lt_iff (data : Bytes) (word : 32 ≤ data.length) : setBytes data < 10 ^ 78 ↔ ¬ Overlong data := by
  have whole : setBytes data = replyHead data * 2 ^ 256 + replyWord data := by
    have parts := setBytes_append (data.take (data.length - 32)) (data.drop (data.length - 32))
    rw [take_append_drop, length_drop, Nat.sub_sub_self word] at parts
    exact parts
  have low : replyWord data < 2 ^ 256 := by
    have bound := setBytes_lt (data.drop (data.length - 32))
    rw [length_drop, Nat.sub_sub_self word] at bound
    exact bound
  rw [whole, Overlong]
  omega

theorem setBytes_word_lt (word : Bytes) (short : word.length ≤ 32) : setBytes word < 10 ^ 78 :=
  calc
    setBytes word < 256 ^ word.length := setBytes_lt word
    _ ≤ 256 ^ 32 := Nat.pow_le_pow_right (by decide) short
    _ < 10 ^ 78 := by decide

/-! ## The rows of each reader -/

def Fits (row : Balance) : Prop :=
  ∃ value : Nat, row.balance = .decimal value ∧ value < 10 ^ 78

theorem Fits.isSome {row : Balance} (fits : Fits row) : (numeric78 row.balance).isSome := by
  obtain ⟨value, balance, bound⟩ := fits
  rw [balance, numeric78, Int.natAbs_natCast, if_pos bound]
  rfl

theorem fits_decimal_iff (row : Balance) (value : Nat) (balance : row.balance = .decimal value) :
    Fits row ↔ value < 10 ^ 78 := by
  constructor
  · rintro ⟨other, same, bound⟩
    rw [balance, JSONString.decimal.injEq, Int.natCast_inj] at same
    exact same ▸ bound
  · exact fun bound => ⟨value, balance, bound⟩

def Bounded (reply : Except CallError Bytes) : Prop :=
  ∀ data, reply = .ok data → ¬ Overlong data

theorem not_overlong_of_short (data : Bytes) (short : data.length < 32) : ¬ Overlong data := by
  have head : replyHead data = 0 := by
    rw [replyHead, Nat.sub_eq_zero_of_le short.le, take_zero]
    rfl
  rw [Overlong, head]
  omega

theorem fetchBalance_fits_iff (keccak256 : Bytes → Hash) (node : NodeAnswers) (work : BalanceWork) :
    (∀ row, fetchBalance keccak256 node work = some row → Fits row) ↔
      Bounded (node.callContract work.tokenAddress work.address) := by
  unfold fetchBalance Bounded
  cases node.callContract work.tokenAddress work.address with
  | error failure => simp
  | ok data =>
    by_cases short : data.length < 32
    · simp [short, not_overlong_of_short data short]
    · have bounded := setBytes_lt_iff data (Nat.not_lt.mp short)
      rw [← fits_decimal_iff (balanceOf keccak256 work (setBytes data)) (setBytes data) rfl] at bounded
      simp [short, bounded]

theorem readerWord_lt {res : Bytes} {off : Int} {value : Nat} (read : readerWord res off = .ok value) :
    value < 10 ^ 78 := by
  unfold readerWord at read
  split_ifs at read
  rw [← Except.ok.inj read]
  exact setBytes_word_lt _ (by simp)

theorem balancesOf_lt {reply : Except CallError Bytes} {n : Nat} {values : List (Nat × Bool)}
    (read : balancesOf reply n = .ok values) : ∀ entry ∈ values, entry.1 < 10 ^ 78 := by
  unfold balancesOf at read
  cases reply with
  | error failure => cases read
  | ok res =>
    obtain ⟨outOff, _, read⟩ := bind_eq_ok.mp read
    obtain ⟨okOff, _, read⟩ := bind_eq_ok.mp read
    apply mapM_forall (fun entry : Nat × Bool => entry.1 < 10 ^ 78) read
    intro i entry step
    obtain ⟨value, word, step⟩ := bind_eq_ok.mp step
    obtain ⟨flag, _, step⟩ := bind_eq_ok.mp step
    rw [← Except.ok.inj step]
    exact readerWord_lt word

theorem readerBalances_fit (keccak256 : Bytes → Hash) (round : ReaderWorks) (token : Address) (hs : List Address)
    (values : List (Nat × Bool)) (bounded : ∀ entry ∈ values, entry.1 < 10 ^ 78) :
    ∀ row ∈ readerBalances keccak256 round token hs values, Fits row := by
  intro row member
  obtain ⟨entry, paired, made⟩ := mem_filterMap.mp member
  have bound := bounded entry.2 (of_mem_zip paired).2
  split at made
  · obtain ⟨work, _, made⟩ := Option.map_eq_some_iff.mp made
    rw [← made]
    exact ⟨entry.2.1, rfl, bound⟩
  · cases made

theorem readerFetch_forall {keccak256 : Bytes → Hash} {node : NodeAnswers} {round : ReaderWorks} {rows : List Balance}
    (good : Balance → Prop) (fetched : readerFetch keccak256 node round = some rows)
    (each : ∀ token hs values, balancesOf (node.callWithCodeOverride token hs) hs.length = .ok values →
      ∀ row ∈ readerBalances keccak256 round token hs values, good row) : ∀ row ∈ rows, good row := by
  unfold readerFetch at fetched
  revert fetched
  generalize round.tokens = tokens
  -- The rows of the tokens read so far are good.
  have fit : ∀ row ∈ ([] : List Balance), good row := by simp
  generalize ([] : List Balance) = out at fit
  induction tokens generalizing out with
  | nil =>
    intro done
    rwa [← Option.some.inj done]
  | cons token rest ih =>
    intro done
    rw [foldlM_cons] at done
    obtain ⟨next, step, done⟩ := Option.bind_eq_some_iff.mp done
    refine ih next ?_ done
    dsimp only at step
    split at step
    · cases step
    · rwa [← Option.some.inj step]
    · next values read =>
      rw [← Option.some.inj step]
      intro row member
      rcases mem_append.mp member with before | now
      · exact fit row before
      · exact each token _ values read row now

theorem readerFetch_fits (keccak256 : Bytes → Hash) (node : NodeAnswers) (round : ReaderWorks) (rows : List Balance)
    (fetched : readerFetch keccak256 node round = some rows) : ∀ row ∈ rows, Fits row := by
  apply readerFetch_forall Fits fetched
  intro token hs values read
  exact readerBalances_fit keccak256 round token hs values (balancesOf_lt read)

/-! ## A worker's batches -/

def WorkerState.rows (state : WorkerState) : List Balance :=
  state.flushed.flatten ++ state.batch

@[simp] theorem WorkerState.rows_flush (state : WorkerState) : state.flush.rows = state.rows := by
  unfold WorkerState.flush
  split
  · rfl
  · simp [WorkerState.rows]

@[simp] theorem WorkerState.rows_add (state : WorkerState) (rows : List Balance) :
    (state.add rows).rows = state.rows ++ rows := by
  unfold WorkerState.add
  dsimp only
  split
  · rw [WorkerState.rows_flush]
    simp [WorkerState.rows]
  · simp [WorkerState.rows]

theorem WorkerState.flush_batch (state : WorkerState) : state.flush.batch = [] := by
  unfold WorkerState.flush
  split
  · next empty => exact isEmpty_iff.mp empty
  · rfl

def directRows (keccak256 : Bytes → Hash) : WorkerEvent → List Balance
  | .tick => []
  | .receive work _ node => if work.address = 0 then [] else (fetchBalance keccak256 node work).toList

theorem workerStep_direct (keccak256 : Bytes → Hash) (readerBatch : Nat) (direct : readerBatch ≤ 1)
    (state : WorkerState) (running : state.crashed = false) (event : WorkerEvent) :
    (workerStep keccak256 readerBatch state event).rows = state.rows ++ directRows keccak256 event ∧
      (workerStep keccak256 readerBatch state event).crashed = false := by
  have flushing (state : WorkerState) : state.flush.crashed = state.crashed := by
    unfold WorkerState.flush
    split <;> rfl
  cases event with
  | tick => simp [workerStep, running, directRows, flushing]
  | receive work drained node =>
    simp only [workerStep, directRows]
    rw [if_neg (by simp [running])]
    by_cases zero : work.address = 0
    · simp [zero, running]
    · rw [if_neg zero, if_neg zero, if_neg (Nat.not_lt.mpr direct)]
      cases fetchBalance keccak256 node work with
      | none => simp [running]
      | some row =>
        refine ⟨by simp, ?_⟩
        simp only [WorkerState.add]
        split
        · rw [flushing, running]
        · exact running

theorem worker_direct (keccak256 : Bytes → Hash) (readerBatch : Nat) (direct : readerBatch ≤ 1)
    (events : List WorkerEvent) :
    (worker keccak256 readerBatch events).flatten = events.flatMap (directRows keccak256) := by
  have run (state : WorkerState) (running : state.crashed = false) :
      (events.foldl (workerStep keccak256 readerBatch) state).rows = state.rows ++ events.flatMap (directRows keccak256) ∧
        (events.foldl (workerStep keccak256 readerBatch) state).crashed = false := by
    induction events generalizing state with
    | nil => simp [running]
    | cons event rest ih =>
      obtain ⟨rows, alive⟩ := workerStep_direct keccak256 readerBatch direct state running event
      obtain ⟨later, ends⟩ := ih _ alive
      rw [foldl_cons, later, rows, flatMap_cons, append_assoc]
      exact ⟨rfl, ends⟩
  obtain ⟨rows, alive⟩ := run {} rfl
  have ended := WorkerState.rows_flush (events.foldl (workerStep keccak256 readerBatch) {})
  rw [WorkerState.rows, WorkerState.flush_batch, append_nil, rows] at ended
  simp only [worker, alive, Bool.false_eq_true, if_false, ended]
  rfl

theorem worker_reader_fits (keccak256 : Bytes → Hash) (readerBatch : Nat) (batched : 1 < readerBatch)
    (events : List WorkerEvent) : ∀ batch ∈ worker keccak256 readerBatch events, ∀ row ∈ batch, Fits row := by
  have step (state : WorkerState) (event : WorkerEvent) (fit : ∀ row ∈ state.rows, Fits row) :
      ∀ row ∈ (workerStep keccak256 readerBatch state event).rows, Fits row := by
    cases event with
    | tick =>
      simp only [workerStep]
      split
      · exact fit
      · rwa [WorkerState.rows_flush]
    | receive work drained node =>
      simp only [workerStep, if_pos batched]
      split
      · exact fit
      · split
        · exact fit
        · split
          · exact fit
          · next rows fetched =>
            rw [WorkerState.rows_add]
            intro row member
            rcases mem_append.mp member with before | now
            · exact fit row before
            · exact readerFetch_fits keccak256 node _ rows fetched row now
  have every : ∀ row ∈ (events.foldl (workerStep keccak256 readerBatch) {}).rows, Fits row :=
    List.foldlRecOn (motive := fun state : WorkerState => ∀ row ∈ state.rows, Fits row) events _
      (by simp [WorkerState.rows]) fun state fit event _ => step state event fit
  intro batch member row inside
  apply every
  unfold worker at member
  dsimp only at member
  split at member
  · exact mem_append_left _ (mem_flatten.mpr ⟨batch, member, inside⟩)
  · rw [← WorkerState.rows_flush]
    exact mem_append_left _ (mem_flatten.mpr ⟨batch, member, inside⟩)

/-! ## What is written -/

def Writable (insert : List Balance → BalanceStore → Except BalanceError BalanceStore) (batch : List Balance) : Prop :=
  (∀ row ∈ batch, Fits row) ∧ ∀ db, ∃ next, insert batch db = .ok next

theorem writable_iff (history : Bool) (batch : List Balance) :
    Writable (insertBalances history) batch ↔ ∀ row ∈ batch, Fits row := by
  constructor
  · exact And.left
  · intro fit
    exact ⟨fit, fun db => insertBalances_isOk history batch db fun row member => (fit row member).isSome⟩

theorem rereadBalances_fit_iff (head : Nat) (claimed : List BalanceReread) (node : NodeAnswers) :
    (∀ row ∈ rereadBalances head claimed node, Fits row) ↔
      ∀ request ∈ claimed,
        Bounded (node.callContract (hexToAddress request.token) (hexToAddress request.address)) := by
  unfold rereadBalances
  rw [forall_mem_filterMap]
  apply forall₂_congr
  intro request _
  unfold Bounded
  cases node.callContract (hexToAddress request.token) (hexToAddress request.address) with
  | error failure => simp
  | ok data =>
    by_cases short : data.length < 32
    · simp [short, not_overlong_of_short data short]
    · have bounded := setBytes_lt_iff data (Nat.not_lt.mp short)
      rw [← fits_decimal_iff ⟨request.address, request.token, head, .decimal (setBytes data), request.epoch⟩
        (setBytes data) rfl] at bounded
      simp [short, bounded]

theorem readBalances_fit (keys : List BackfillBalanceKey) (node : NodeAnswers) :
    ∀ row ∈ (readBalances keys node).2, Fits row := by
  intro row member
  obtain ⟨key, _, made⟩ := mem_filterMap.mp member
  cases reply : node.callContract (hexToAddress key.token) (hexToAddress key.address) with
  | error failure => simp [reply] at made
  | ok out =>
    simp only [reply] at made
    split at made
    · cases made
    · rw [← Option.some.inj made]
      exact ⟨_, rfl, setBytes_word_lt _ (by simp)⟩

theorem worker_fits_iff (keccak256 : Bytes → Hash) (readerBatch : Nat) (events : List WorkerEvent) :
    (∀ batch ∈ worker keccak256 readerBatch events, ∀ row ∈ batch, Fits row) ↔
      (readerBatch ≤ 1 → ∀ work drained node, .receive work drained node ∈ events → work.address ≠ 0 →
        Bounded (node.callContract work.tokenAddress work.address)) := by
  by_cases direct : readerBatch ≤ 1
  · have flat : (∀ batch ∈ worker keccak256 readerBatch events, ∀ row ∈ batch, Fits row) ↔
        ∀ event ∈ events, ∀ row ∈ directRows keccak256 event, Fits row := by
      rw [← forall_mem_flatten, worker_direct keccak256 readerBatch direct events, forall_mem_flatMap]
    rw [flat]
    simp only [direct, true_implies]
    constructor
    · intro fit work drained node received nonzero
      apply (fetchBalance_fits_iff keccak256 node work).mp
      intro row fetched
      apply fit _ received
      rw [directRows, if_neg nonzero, Option.mem_toList]
      exact fetched
    · intro bounded event received row made
      cases event with
      | tick => cases made
      | receive work drained node =>
        by_cases zero : work.address = 0
        · simp [directRows, zero] at made
        · rw [directRows, if_neg zero, Option.mem_toList] at made
          exact (fetchBalance_fits_iff keccak256 node work).mpr (bounded work drained node received zero) row made
  · have batched := worker_reader_fits keccak256 readerBatch (Nat.not_le.mp direct) events
    simp only [direct, false_implies, iff_true]
    exact batched

/-- Everything the three readers write is below the bound of its column, and no batch of theirs makes its write
fail, exactly when no reply taken whole is overlong. -/
theorem balanceReads_writable_iff (keccak256 : Bytes → Hash) (readerBatch : Nat) (events : List WorkerEvent) (head : Nat)
    (claimed : List BalanceReread) (again : NodeAnswers) (keys : List BackfillBalanceKey) (old : NodeAnswers) :
    ((∀ batch ∈ worker keccak256 readerBatch events, Writable insertBalancesBatch batch) ∧
      Writable insertBalancesBatch (rereadBalances head claimed again) ∧
      Writable insertCurrentBalances (readBalances keys old).2) ↔
    ((readerBatch ≤ 1 → ∀ work drained node, .receive work drained node ∈ events → work.address ≠ 0 →
        Bounded (node.callContract work.tokenAddress work.address)) ∧
      ∀ request ∈ claimed,
        Bounded (again.callContract (hexToAddress request.token) (hexToAddress request.address))) := by
  have batches : (∀ batch ∈ worker keccak256 readerBatch events, Writable insertBalancesBatch batch) ↔
      ∀ batch ∈ worker keccak256 readerBatch events, ∀ row ∈ batch, Fits row :=
    forall₂_congr fun batch _ => writable_iff true batch
  rw [batches, worker_fits_iff, ← rereadBalances_fit_iff head claimed again]
  constructor
  · rintro ⟨workers, rereads, _⟩
    exact ⟨workers, (writable_iff true _).mp rereads⟩
  · rintro ⟨workers, rereads⟩
    exact ⟨workers, (writable_iff true _).mpr rereads, (writable_iff false _).mpr (readBalances_fit keys old)⟩

def twoWordNode : NodeAnswers where
  callContract := fun token _ =>
    if token = 1 then .ok (List.replicate 31 0 ++ [9] ++ List.replicate 32 0)
    else .ok (List.replicate 31 0 ++ [5])
  callWithCodeOverride := fun _ _ => .error .transport

/-- A worker without the batched reader puts both tokens' balances in one batch; the two words of the first make the
write fail, and with it the second token's balance is lost. -/
theorem twoWordReply_dropsBatch :
    let batch := [balanceOf (fun _ => 0) ⟨7, 1, 10, 0⟩ (9 * 2 ^ 256), balanceOf (fun _ => 0) ⟨7, 2, 10, 0⟩ 5]
    worker (fun _ => 0) 1 [.receive ⟨7, 1, 10, 0⟩ [] twoWordNode, .receive ⟨7, 2, 10, 0⟩ [] twoWordNode] = [batch] ∧
      ¬ Writable insertBalancesBatch batch ∧
      (flushBatch (fun _ => false) batch {}).tokenBalancesCurrent.keys = [] ∧
      (flushBatch (fun _ => false) (batch.drop 1) {}).tokenBalancesCurrent.keys =
        [⟨Address.key 2, Address.key 7⟩] := by
  refine ⟨by decide +kernel, ?_, by decide +kernel, by decide +kernel⟩
  intro writable
  obtain ⟨next, written⟩ := writable.2 {}
  have refused : (insertBalancesBatch [balanceOf (fun _ => 0) ⟨7, 1, 10, 0⟩ (9 * 2 ^ 256),
      balanceOf (fun _ => 0) ⟨7, 2, 10, 0⟩ 5] {}).isOk = false := by decide +kernel
  rw [written] at refused
  cases refused

end OpsIndexer.Indexing
