import OpsIndexer.Indexer.BalanceFlow
import OpsIndexer.Indexer.BalanceReads
import OpsIndexer.Db.CompleteBlock
import OpsIndexer.Lib.Runs

/-!
# History rows of stored blocks

A read carries a block and an epoch. It is covered while the block is stored or a later revert has made its epoch too
low for a flush. Work that has no epoch yet gets the pool's current one, so it must not outlive its block: the history
keeps to the stored blocks in every run whose reverts find no such work of their block.
-/

namespace OpsIndexer.Indexing

open Eth OpsIndexer.Types Db Lib.Keyed Lib.Locks Lib.Runs List

def Stored (store : Store) (number : Nat) : Prop :=
  ∃ block ∈ store.blocks, block.number = number

instance decidableStored (store : Store) (number : Nat) : Decidable (Stored store number) :=
  inferInstanceAs (Decidable (∃ block ∈ store.blocks, block.number = number))

/-- The step is not one of those that let a read outlive its block: a revert that commits while work of its block waits
for a stamp, a head read with nothing stored, or a block whose hash another block number has. -/
def queuedFirst (flow : BalanceFlow) : FlowEvent → Bool
  | .commit i =>
    match flow.system.txs[i]? with
    | some (.revert number (.epochTaken _ _)) =>
      flow.queueing.all fun works => works.all fun work => work.epoch ≠ 0 || work.blockNumber ≠ number
    | _ => true
  | .readHead _ => !flow.system.db.store.blocks.isEmpty
  | .writeBlock _ data _ =>
    flow.system.db.store.blocks.all fun row => data.block.all fun block =>
      row.hash ≠ block.hash || row.number = block.number
  | _ => true

/-! ## Covered reads -/

def Covered (store : Store) (dated block epoch : Nat) : Prop :=
  epoch ≤ dated ∧ (Stored store block ∨ epoch < dated)

variable {store next : Store} {block epoch : Nat}

theorem Covered.mono {dated later : Nat} (covered : Covered store dated block epoch) (bound : dated ≤ later)
    (kept : Stored store block → Stored next block) : Covered next later block epoch := by
  refine ⟨covered.1.trans bound, ?_⟩
  rcases covered.2 with stored | before
  · exact .inl (kept stored)
  · exact .inr (before.trans_le bound)

theorem Covered.outdated {dated : Nat} (covered : Covered store dated block epoch) :
    Covered next (dated + 1) block epoch :=
  ⟨covered.1.trans (Nat.le_succ _), .inr (Nat.lt_succ_of_le covered.1)⟩

def BalanceWork.Fit (good : Nat → Nat → Prop) (work : BalanceWork) : Prop :=
  good work.blockNumber work.epoch

theorem folded_fit {good : Nat → Nat → Prop} {a b : BalanceWork} (first : a.Fit good) (second : b.Fit good) :
    (folded a b).Fit good := by
  unfold folded
  split
  · exact second
  · split
    · exact first
    · next notLess notGreater =>
      have same : a.epoch = b.epoch := by omega
      rcases Nat.le_total a.blockNumber b.blockNumber with le | ge
      · have top : max a.blockNumber b.blockNumber = b.blockNumber := max_eq_right le
        simp only [BalanceWork.Fit, top, same]
        exact second
      · have top : max a.blockNumber b.blockNumber = a.blockNumber := max_eq_left ge
        simp only [BalanceWork.Fit, top]
        exact first

/-! ## The rows of a read -/

section

variable {keccak256 : Bytes → Hash} {good : Nat → Nat → Prop}

def RowFit (good : Nat → Nat → Prop) (row : Balance) : Prop :=
  good row.blockNumber row.epoch

variable {work first : BalanceWork} {readerBatch : Nat} {node : NodeAnswers} {drained : List BalanceWork}
  {state : WorkerState}

theorem readerTake_fit {round : ReaderWorks} (fit : ∀ key work, round.works.lookup key = some work → work.Fit good)
    (own : work.Fit good) :
    ∀ key other, (readerTake round work).works.lookup key = some other → other.Fit good := by
  intro key other found
  unfold readerTake at found
  split at found
  · exact fit key other found
  · split at found
    · next previous known =>
      rw [lookup_insert_ite] at found
      split at found
      · rw [← Option.some.inj found]
        exact folded_fit (fit _ _ known) own
      · exact fit key other found
    · rw [lookup_insert_ite] at found
      split at found
      · rw [← Option.some.inj found]
        exact own
      · exact fit key other found

theorem readerFirst_fit (own : first.Fit good) :
    ∀ key work, (readerFirst first).works.lookup key = some work → work.Fit good := by
  intro key work found
  rw [readerFirst, lookup_singleton_ite] at found
  split at found
  · rw [← Option.some.inj found]
    exact own
  · cases found

theorem fetchReader_fit {rows : List Balance} (own : first.Fit good) (others : ∀ work ∈ drained, work.Fit good)
    (fetched : fetchReader keccak256 readerBatch node first drained = some rows) : ∀ row ∈ rows, RowFit good row := by
  have round : ∀ key work, ((drained.take (readerBatch - 1)).foldl readerTake (readerFirst first)).works.lookup key =
      some work → work.Fit good := by
    refine List.foldlRecOn (drained.take (readerBatch - 1)) readerTake
      (motive := fun round : ReaderWorks => ∀ key work, round.works.lookup key = some work → work.Fit good)
      (readerFirst_fit own) ?_
    intro state fit work member
    exact readerTake_fit fit (others work (mem_of_mem_take member))
  apply readerFetch_forall (RowFit good) fetched
  intro token hs values _ row member
  obtain ⟨entry, _, made⟩ := mem_filterMap.mp member
  split at made
  · obtain ⟨work, found, rfl⟩ := Option.map_eq_some_iff.mp made
    exact round _ work found
  · cases made

theorem workerStep_fit (before : ∀ row ∈ state.rows, RowFit good row) (own : work.Fit good)
    (others : ∀ other ∈ drained, other.Fit good) :
    ∀ row ∈ (workerStep keccak256 readerBatch state (.receive work drained node)).rows, RowFit good row := by
  have adding (rows : List Balance) (fit : ∀ row ∈ rows, RowFit good row) :
      ∀ row ∈ (state.add rows).rows, RowFit good row := by
    rw [WorkerState.rows_add]
    intro row member
    rcases mem_append.mp member with old | new
    · exact before row old
    · exact fit row new
  simp only [workerStep]
  split
  · exact before
  · split
    · exact before
    · split
      · split
        · exact before
        · next rows fetched => exact adding rows (fetchReader_fit own others fetched)
      · split
        · exact before
        · next row fetched =>
          apply adding
          intro other member
          rw [mem_singleton.mp member]
          unfold fetchBalance at fetched
          split at fetched
          · cases fetched
          · split at fetched
            · cases fetched
            · rw [← Option.some.inj fetched]
              exact own

theorem workerTick_fit (before : ∀ row ∈ state.rows, RowFit good row) :
    ∀ row ∈ (workerStep keccak256 readerBatch state .tick).rows, RowFit good row := by
  simp only [workerStep]
  split
  · exact before
  · rwa [WorkerState.rows_flush]

end

/-! ## The state of a run -/

def Ended (dated epoch : Nat) : Prop :=
  0 < epoch ∧ epoch ≤ dated

def TxFit (store : Store) (dated sequence : Nat) (gate : Option Nat) (i : Nat) : BalanceTx → Prop
  | .flush balances _ => ∀ row ∈ balances, RowFit (Covered store dated) row
  | .revert _ .begun => True
  | .revert _ (.epochTaken _ _) => gate = some i ∧ sequence = dated + 1
  | .revert _ _ => gate = some i
  | .claim _ (.handed _ claimed) => ∀ request ∈ claimed, Ended dated request.epoch
  | _ => True

structure Settled (dated : Nat) (flow : BalanceFlow) : Prop where
  locked : EpochLocked flow.system
  txs : ∀ (i : Nat) tx, flow.system.txs[i]? = some tx →
    TxFit flow.system.db.store dated flow.system.db.balanceReorgEpoch flow.epochGate i tx
  sequence : flow.system.db.balanceReorgEpoch = dated ∨ ∃ (i : Nat) (number : Nat) (keys : List BalanceKey)
    (epoch : Nat), flow.system.txs[i]? = some (.revert number (.epochTaken keys epoch))
  pool : flow.epoch ≤ dated
  unstamped : ∀ call ∈ flow.queueing, ∀ work ∈ call, work.epoch = 0 → Stored flow.system.db.store work.blockNumber
  stamped : ∀ call ∈ flow.queueing, ∀ work ∈ call, work.epoch ≠ 0 → work.Fit (Covered flow.system.db.store dated)
  works : ∀ work ∈ flow.works, work.Fit (Covered flow.system.db.store dated)
  batches : ∀ worker ∈ flow.workers, ∀ row ∈ worker.rows, RowFit (Covered flow.system.db.store dated) row
  requests : ∀ key row, flow.system.db.balanceRereads.lookup key = some row → Ended dated row.epoch
  claimed : ∀ requests ∈ flow.claimed, ∀ request ∈ requests, Ended dated request.epoch
  history : ∀ key number, (flow.system.db.balances.lookup (key, number)).isSome → Stored flow.system.db.store number

theorem Settled.start (workers : Nat) : Settled 0 { workers := List.replicate workers {} } where
  locked := (Fenced.start {}).locked
  txs := fun i tx found => by simp at found
  sequence := .inl rfl
  pool := le_rfl
  unstamped := fun call member => by simp at member
  stamped := fun call member => by simp at member
  works := fun work member => by simp at member
  batches := by
    intro worker member row inside
    rw [eq_of_mem_replicate member] at inside
    simp [WorkerState.rows] at inside
  requests := fun key row found => by cases found
  claimed := fun requests member => by simp at member
  history := fun key number found => by cases found

section

variable {dated : Nat} {flow : BalanceFlow}

variable {store : Store} {i number : Nat} {tx old new : BalanceTx} {next : BalanceSystem} {keccak256 : Bytes → Hash}

theorem TxFit.mono {next : Store} {later sequence moved : Nat} {gate : Option Nat}
    (fit : TxFit store dated sequence gate i tx) (bound : dated ≤ later)
    (covered : ∀ block epoch, Covered store dated block epoch → Covered next later block epoch)
    (taking : tx.revertLock = .exclusive → sequence = dated + 1 → moved = later + 1) :
    TxFit next later moved gate i tx := by
  cases tx with
  | flush balances phase => exact fun row member => covered _ _ (fit row member)
  | revert number phase =>
    cases phase with
    | begun => trivial
    | exclusive => exact fit
    | keysRead keys => exact fit
    | epochTaken keys epoch => exact ⟨fit.1, taking rfl fit.2⟩
  | claim limit phase =>
    cases phase with
    | handed dropped claimed => exact fun request member => ⟨(fit request member).1, (fit request member).2.trans bound⟩
    | _ => trivial
  | committed => trivial
  | rolledBack => trivial

variable (settled : Settled dated flow)

include settled

theorem Settled.sequence_of_shared (found : flow.system.txs[i]? = some tx) (shared : tx.revertLock = .shared) :
    flow.system.db.balanceReorgEpoch = dated := by
  rcases settled.sequence with same | ⟨j, number, keys, epoch, taken⟩
  · exact same
  · have apart : i ≠ j := by
      intro same
      rw [same, taken] at found
      cases found
      cases shared
    have free := settled.locked.locks.alone taken rfl apart found
    rw [shared] at free
    cases free

theorem Settled.begin (free : tx.revertLock = .free)
    (fit : TxFit flow.system.db.store dated flow.system.db.balanceReorgEpoch flow.epochGate flow.system.txs.length tx) :
    Settled dated { flow with system := { flow.system with txs := flow.system.txs ++ [tx] } } :=
  { settled with
    locked := settled.locked.begin free
    txs := by
      intro i other found
      rcases getElem?_concat_cases found with before | ⟨rfl, rfl⟩
      · exact settled.txs i other before
      · exact fit
    sequence := by
      rcases settled.sequence with same | ⟨i, number, keys, epoch, found⟩
      · exact .inl same
      · refine .inr ⟨i, number, keys, epoch, ?_⟩
        have within : i < flow.system.txs.length := (List.getElem?_eq_some_iff.mp found).1
        rw [List.getElem?_append_left within]
        exact found }

/-! ## Blocks and queues -/

theorem Settled.grow {next : BalanceStore} (sequence : next.balanceReorgEpoch = flow.system.db.balanceReorgEpoch)
    (balances : next.balances = flow.system.db.balances)
    (rereads : next.balanceRereads = flow.system.db.balanceRereads)
    (grown : ∀ number, Stored flow.system.db.store number → Stored next.store number) :
    Settled dated { flow with system := { flow.system with db := next } } := by
  have covered : ∀ block epoch, Covered flow.system.db.store dated block epoch → Covered next.store dated block epoch :=
    fun block epoch before => before.mono le_rfl (grown block)
  exact
    { locked := settled.locked.tables sequence
      txs := fun i tx found => (settled.txs i tx found).mono le_rfl covered fun _ same => sequence.trans same
      sequence := settled.sequence.imp_left sequence.trans
      pool := settled.pool
      unstamped := fun call member work inside unset => grown _ (settled.unstamped call member work inside unset)
      stamped := fun call member work inside set => covered _ _ (settled.stamped call member work inside set)
      works := fun work member => covered _ _ (settled.works work member)
      batches := fun worker member row inside => covered _ _ (settled.batches worker member row inside)
      requests := fun key row found => settled.requests key row (rereads ▸ found)
      claimed := settled.claimed
      history := fun key number found => grown number (settled.history key number (balances ▸ found)) }

theorem Settled.queue {queueing : List (List BalanceWork)} (each : ∀ call ∈ queueing, ∀ work ∈ call,
      (work.epoch = 0 → Stored flow.system.db.store work.blockNumber) ∧
        (work.epoch ≠ 0 → work.Fit (Covered flow.system.db.store dated))) :
    Settled dated { flow with queueing := queueing } :=
  { settled with
    unstamped := fun call member work inside => (each call member work inside).1
    stamped := fun call member work inside => (each call member work inside).2 }

theorem Settled.writeBlock {partitionOf : Nat → Nat} {data : BlockData} {keys : List (Address × Address)}
    (allowed : queuedFirst flow (.writeBlock partitionOf data keys) = true) :
    Settled dated (flow.writeBlock partitionOf data keys) := by
  unfold BalanceFlow.writeBlock
  split
  · next block next named written =>
    obtain ⟨inserted, balances, rereads, sequence⟩ := insertBlockDataBatchBalances_ok written
    have blocks := insertBlockDataBatch_blocks named inserted
    have grown : ∀ number, Stored flow.system.db.store number → Stored next.store number := by
      rintro number ⟨row, member, same⟩
      rcases blocks with added | ⟨_, unchanged⟩
      · exact ⟨row, by rw [added]; exact mem_append_left _ member, same⟩
      · exact ⟨row, unchanged ▸ member, same⟩
    have own : Stored next.store block.number := by
      rcases blocks with added | ⟨conflict, unchanged⟩
      · exact ⟨block, by rw [added]; simp, rfl⟩
      · -- What is in the way has the number, since it does not have the hash under another one.
        obtain ⟨row, member, conflicts⟩ := any_eq_true.mp conflict
        refine ⟨row, unchanged ▸ member, ?_⟩
        have distinct := all_eq_true.mp allowed row member
        rw [named, Option.all_some] at distinct
        simp only [blockConflicts, Bool.or_eq_true, Bool.and_eq_true, decide_eq_true_eq] at conflicts distinct
        rcases conflicts with same | ⟨hash, _⟩
        · exact same
        · exact distinct.resolve_left fun differ => differ hash
    have settled := settled.grow sequence balances rereads grown
    refine settled.queue ?_
    intro call member work inside
    rcases mem_append.mp member with before | now
    · exact ⟨settled.unstamped call before work inside, settled.stamped call before work inside⟩
    · rw [mem_singleton.mp now] at inside
      obtain ⟨key, _, rfl⟩ := mem_map.mp inside
      exact ⟨fun _ => own, fun set => absurd rfl set⟩
  · exact settled

theorem Settled.dequeue {call : Nat} {works rest : List BalanceWork} (found : flow.queueing[call]? = some works)
    (remaining : rest ⊆ works) : Settled dated { flow with queueing := flow.queueing.set call rest } := by
  refine settled.queue ?_
  intro other member work inside
  rcases mem_or_eq_of_mem_set member with before | rfl
  · exact ⟨settled.unstamped other before work inside, settled.stamped other before work inside⟩
  · have listed := mem_of_getElem? found
    exact ⟨settled.unstamped works listed work (remaining inside), settled.stamped works listed work (remaining inside)⟩

theorem Settled.addWork {work : BalanceWork} (fit : work.Fit (Covered flow.system.db.store dated)) :
    Settled dated { flow with works := flow.works ++ [work] } :=
  { settled with
    works := by
      intro other member
      rcases mem_append.mp member with before | now
      · exact settled.works other before
      · rw [mem_singleton.mp now]
        exact fit }

theorem Settled.queueNext (call : Nat) : Settled dated (flow.queueNext call) := by
  unfold BalanceFlow.queueNext
  split
  · next work rest found =>
    have listed := mem_of_getElem? found
    have less := settled.dequeue found (subset_cons_self work rest)
    split
    · next unset =>
      split
      · exact settled
      · exact less.addWork ⟨settled.pool, .inl (settled.unstamped _ listed work mem_cons_self unset)⟩
    · next set => exact less.addWork (settled.stamped _ listed work mem_cons_self set)
  · exact settled

theorem Settled.giveUp (call : Nat) : Settled dated { flow with queueing := flow.queueing.set call [] } := by
  cases found : flow.queueing[call]? with
  | none =>
    rw [set_eq_of_length_le (List.getElem?_eq_none_iff.mp found)]
    exact settled
  | some works => exact settled.dequeue found (nil_subset works)

omit settled in
theorem latestBlockNumber_stored (some : store.blocks ≠ []) :
    Stored store (BalanceFlow.latestBlockNumber store) := by
  unfold BalanceFlow.latestBlockNumber
  cases highest : store.blocks.argmax Block.number with
  | none => exact absurd (argmax_eq_none.mp highest) some
  | some block => exact ⟨block, argmax_mem highest, rfl⟩

theorem Settled.readHead {claim : Nat} (allowed : queuedFirst flow (.readHead claim) = true) :
    Settled dated (flow.readHead claim) := by
  unfold BalanceFlow.readHead
  split
  · next requests found =>
    have some : flow.system.db.store.blocks ≠ [] := by simpa [queuedFirst] using allowed
    have known := settled.claimed requests (mem_of_getElem? found)
    have settled : Settled dated { flow with claimed := flow.claimed.set claim [] } :=
      { settled with
        claimed := by
          intro other member
          rcases mem_or_eq_of_mem_set member with before | rfl
          · exact settled.claimed other before
          · simp }
    refine settled.queue ?_
    intro call member work inside
    rcases mem_append.mp member with before | now
    · exact ⟨settled.unstamped call before work inside, settled.stamped call before work inside⟩
    · rw [mem_singleton.mp now] at inside
      obtain ⟨request, member, rfl⟩ := mem_map.mp inside
      have stored := latestBlockNumber_stored some
      exact ⟨fun _ => stored, fun _ => ⟨(known request member).2, .inl stored⟩⟩
  · exact settled

/-! ## The epoch gate -/

theorem Settled.gated {phase : RevertPhase} (found : flow.system.txs[i]? = some (.revert number phase))
    (going : phase ≠ .begun) : flow.epochGate = some i := by
  have fit := settled.txs i _ found
  cases phase with
  | begun => exact absurd rfl going
  | exclusive => exact fit
  | keysRead keys => exact fit
  | epochTaken keys epoch => exact fit.1

theorem Settled.regate (gate : Option Nat)
    (idle : ∀ (i number : Nat) phase, flow.system.txs[i]? = some (.revert number phase) → phase = .begun) :
    Settled dated { flow with epochGate := gate } :=
  { settled with
    txs := by
      intro i tx found
      have fit := settled.txs i tx found
      cases tx with
      | revert number phase =>
        cases idle i number phase found
        trivial
      | claim limit phase => cases phase <;> exact fit
      | _ => exact fit }

theorem Settled.holdEpoch (i : Nat) : Settled dated (flow.holdEpoch i) := by
  unfold BalanceFlow.holdEpoch
  split
  · next none _ =>
    apply settled.regate
    intro j number phase found
    by_contra going
    rw [settled.gated found going] at none
    cases none
  · exact settled

theorem Settled.releaseEpoch (cancelled : Bool) : Settled dated (flow.releaseEpoch cancelled) := by
  have released {i : Nat} {tx : BalanceTx} (held : flow.epochGate = some i) (found : flow.system.txs[i]? = some tx)
      (ended : ∀ number phase, tx ≠ .revert number phase) : Settled dated { flow with
        epochGate := none
        epoch := if cancelled then flow.epoch else max flow.epoch flow.system.db.balanceReorgEpoch } := by
    have idle : ∀ (j number : Nat) phase, flow.system.txs[j]? = some (.revert number phase) → phase = .begun := by
      intro j number phase there
      by_contra going
      have holder := settled.gated there going
      rw [held, Option.some.injEq] at holder
      rw [← holder, found] at there
      exact ended number phase (Option.some.inj there)
    refine { settled.regate none idle with pool := ?_ }
    rcases settled.sequence with same | ⟨j, number, keys, epoch, taken⟩
    · dsimp only
      split
      · exact settled.pool
      · exact max_le settled.pool same.le
    · cases idle j number _ taken
  unfold BalanceFlow.releaseEpoch
  dsimp only
  split
  · next found =>
    obtain ⟨i, held, there⟩ := Option.bind_eq_some_iff.mp found
    exact released held there fun _ _ => by simp
  · next found =>
    obtain ⟨i, held, there⟩ := Option.bind_eq_some_iff.mp found
    exact released held there fun _ _ => by simp
  · exact settled

/-! ## Transactions -/

theorem Settled.statement (found : flow.system.txs[i]? = some old) (statement : old.Statement flow.system.db new)
    (gate : ∀ number, old = .revert number .begun → flow.epochGate = some i) :
    TxFit flow.system.db.store dated flow.system.db.balanceReorgEpoch flow.epochGate i new := by
  have fit := settled.txs i old found
  cases statement with
  | flushShared balances => exact fit
  | flushKeyed balances => exact fit
  | flushLatest balances => exact fit
  | flushSorted balances latest => exact fit
  | revertExclusive number => exact gate number rfl
  | revertKeys number => exact fit
  | claimShared limit => trivial
  | claimExpired limit => trivial
  | claimHanded limit dropped locked =>
    intro request member
    obtain ⟨key, row, present, epoch⟩ := mem_claimRereads member
    obtain ⟨positive, bound⟩ := settled.requests key row present
    rw [epoch, settled.sequence_of_shared found rfl, max_eq_right bound]
    exact ⟨positive.trans_le bound, le_rfl⟩

theorem Settled.advances (advances : flow.system.Advances i next)
    (gate : ∀ number, flow.system.txs[i]? = some (.revert number .begun) → flow.epochGate = some i) :
    Settled dated { flow with system := next } := by
  have locked := settled.locked.advance advances
  cases advances with
  | waits => exact settled
  | goes found statement lock =>
    exact
      { settled with
        locked := locked
        txs := by
          intro j other there
          rcases getElem?_set_cases there with ⟨rfl, rfl⟩ | ⟨_, before⟩
          · exact settled.statement found statement fun number same => gate number (same ▸ found)
          · exact settled.txs j other before
        sequence := by
          rcases settled.sequence with same | ⟨j, number, keys, epoch, taken⟩
          · exact .inl same
          · have apart : i ≠ j := by
              intro same
              rw [same, taken] at found
              cases found
              cases statement
            exact .inr ⟨j, number, keys, epoch, (List.getElem?_set_ne apart).trans taken⟩ }
  | takesEpoch found =>
    have same : flow.system.db.balanceReorgEpoch = dated := by
      rcases settled.sequence with same | ⟨j, number, keys, epoch, taken⟩
      · exact same
      · have apart : j ≠ i := by
          intro same
          rw [same, found] at taken
          cases taken
        have free := settled.locked.locks.alone found rfl apart taken
        cases free
    have within := (List.getElem?_eq_some_iff.mp found).1
    exact
      { settled with
        locked := locked
        txs := by
          intro j other there
          rcases getElem?_set_cases there with ⟨rfl, rfl⟩ | ⟨apart, before⟩
          · exact ⟨settled.txs j _ found, congrArg (· + 1) same⟩
          · refine (settled.txs j other before).mono le_rfl (fun _ _ covered => covered) ?_
            intro exclusive
            rw [settled.locked.locks.alone found rfl apart before] at exclusive
            cases exclusive
        sequence := .inr ⟨i, _, _, _, List.getElem?_set_self within⟩ }

theorem Settled.advance (tbcLockKey : BalanceKey → Int) (i : Nat) (skipped : List BalanceKey) :
    Settled dated (flow.advance tbcLockKey i skipped) := by
  have advances := flow.system.advance_advances tbcLockKey i skipped
  unfold BalanceFlow.advance
  split
  · split
    · next held => exact settled.advances advances fun _ _ => held
    · exact settled
  · next other =>
    refine settled.advances advances ?_
    intro number found
    exact absurd found (other number)

theorem Settled.endRevert {epoch : Nat} {keys : List BalanceKey}
    (found : flow.system.txs[i]? = some (.revert number (.epochTaken keys epoch)))
    (txs : next.txs = flow.system.txs.set i new) (ended : new = .committed ∨ new = .rolledBack)
    (locked : EpochLocked next) (sequence : next.db.balanceReorgEpoch = flow.system.db.balanceReorgEpoch)
    (unstamped : ∀ call ∈ flow.queueing, ∀ work ∈ call, work.epoch = 0 → Stored next.db.store work.blockNumber)
    (requests : ∀ key row, next.db.balanceRereads.lookup key = some row → Ended (dated + 1) row.epoch)
    (history : ∀ key number, (next.db.balances.lookup (key, number)).isSome → Stored next.db.store number) :
    Settled (dated + 1) { flow with system := next } := by
  have taken : flow.system.db.balanceReorgEpoch = dated + 1 := (settled.txs i _ found).2
  exact
    { locked := locked
      txs := by
        intro j other there
        rw [txs] at there
        rcases getElem?_set_cases there with ⟨rfl, rfl⟩ | ⟨apart, before⟩
        · rcases ended with rfl | rfl <;> trivial
        · refine (settled.txs j other before).mono (Nat.le_succ dated) (fun _ _ covered => covered.outdated) ?_
          intro exclusive
          rw [settled.locked.locks.alone found rfl apart before] at exclusive
          cases exclusive
      sequence := .inl (sequence.trans taken)
      pool := settled.pool.trans (Nat.le_succ dated)
      unstamped := unstamped
      stamped := fun call member work inside set => (settled.stamped call member work inside set).outdated
      works := fun work member => (settled.works work member).outdated
      batches := fun worker member row inside => (settled.batches worker member row inside).outdated
      requests := requests
      claimed := fun list member request inside => (settled.claimed list member request inside).imp_right
        fun bound => bound.trans (Nat.le_succ dated)
      history := history }

theorem Settled.endTx (found : flow.system.txs[i]? = some old)
    (idle : ∀ number keys epoch, old ≠ .revert number (.epochTaken keys epoch))
    (txs : next.txs = flow.system.txs.set i new) (ended : new = .committed ∨ new = .rolledBack)
    (locked : EpochLocked next) (sequence : next.db.balanceReorgEpoch = flow.system.db.balanceReorgEpoch)
    (store : next.db.store = flow.system.db.store)
    (requests : ∀ key row, next.db.balanceRereads.lookup key = some row → Ended dated row.epoch)
    (history : ∀ key number, (next.db.balances.lookup (key, number)).isSome → Stored flow.system.db.store number) :
    Settled dated { flow with system := next } := by
  exact
    { locked := locked
      txs := by
        intro j other there
        rw [txs] at there
        dsimp only
        rw [store, sequence]
        rcases getElem?_set_cases there with ⟨rfl, rfl⟩ | ⟨_, before⟩
        · rcases ended with rfl | rfl <;> trivial
        · exact settled.txs j other before
      sequence := by
        rcases settled.sequence with same | ⟨j, number, keys, epoch, taken⟩
        · exact .inl (sequence.trans same)
        · have apart : i ≠ j := by
            intro same
            rw [same, taken] at found
            exact idle number keys epoch (Option.some.inj found).symm
          refine .inr ⟨j, number, keys, epoch, ?_⟩
          rw [txs, List.getElem?_set_ne apart]
          exact taken
      pool := settled.pool
      unstamped := by
        dsimp only
        rw [store]
        exact settled.unstamped
      stamped := by
        dsimp only
        rw [store]
        exact settled.stamped
      works := by
        dsimp only
        rw [store]
        exact settled.works
      batches := by
        dsimp only
        rw [store]
        exact settled.batches
      requests := requests
      claimed := settled.claimed
      history := by
        dsimp only
        rw [store]
        exact history }

omit settled in
theorem stored_deleteBlock {other : Nat} :
    Stored (deleteBlock keccak256 number store) other ↔ Stored store other ∧ other ≠ number := by
  simp only [Stored, deleteBlock, mem_filter, decide_eq_true_eq]
  constructor
  · rintro ⟨block, ⟨member, apart⟩, rfl⟩
    exact ⟨⟨block, member, rfl⟩, apart⟩
  · rintro ⟨⟨block, member, rfl⟩, apart⟩
    exact ⟨block, ⟨member, apart⟩, rfl⟩

theorem Settled.commits (commits : flow.system.Commits keccak256 i next)
    (queued : ∀ number keys epoch, flow.system.txs[i]? = some (.revert number (.epochTaken keys epoch)) →
      ∀ call ∈ flow.queueing, ∀ work ∈ call, work.epoch = 0 → work.blockNumber ≠ number) :
    ∃ later, dated ≤ later ∧ Settled later { flow with system := next } := by
  have locked := settled.locked.commit commits
  cases commits with
  | waits => exact ⟨dated, le_rfl, settled⟩
  | fails found =>
    exact ⟨dated, le_rfl, settled.endTx found (fun _ _ _ => by simp) rfl (.inr rfl) locked rfl rfl settled.requests
      settled.history⟩
  | flushes found written =>
    obtain ⟨latest, _, positive, kept, _⟩ := settled.locked.sorted found
    have same := settled.sequence_of_shared found rfl
    refine ⟨dated, le_rfl, settled.endTx found (fun _ _ _ => by simp) rfl (.inl rfl) locked (writeReads_epoch written).1
      (writeReads_store written) ?_ ?_⟩
    · refine writeReads_requests (Ended dated) written ?_ settled.requests
      intro key member
      exact ⟨positive key member, (latest.trans same).le⟩
    · intro key number present
      rcases (writeReads_flushed written).history (key, number) with unchanged | ⟨row, member, keyed, _⟩
      · exact settled.history key number (unchanged ▸ present)
      · -- A row of the flush passed the fence, so its block is stored.
        obtain ⟨listed, epoch⟩ := kept row member
        have covered : Covered flow.system.db.store dated row.blockNumber row.epoch := settled.txs i _ found row listed
        have own : row.blockNumber = number := congrArg Prod.snd keyed
        rw [own] at covered
        exact covered.2.resolve_right fun before => absurd (before.trans_le (same ▸ epoch)) (lt_irrefl _)
  | @reverts number epoch keys found =>
    have taken : flow.system.db.balanceReorgEpoch = dated + 1 := (settled.txs i _ found).2
    have latest : epoch = flow.system.db.balanceReorgEpoch := settled.locked.epochs i _ found
    refine ⟨dated + 1, Nat.le_succ dated, settled.endRevert found rfl (.inl rfl) locked rfl ?_ ?_ ?_⟩
    · intro call member work inside unset
      exact stored_deleteBlock.mpr
        ⟨settled.unstamped call member work inside unset, queued number keys epoch found call member work inside unset⟩
    · refine recordBalanceRereads_epoch (Ended (dated + 1)) ?_ ?_
      · rw [latest, taken]
        exact ⟨Nat.succ_pos dated, le_rfl⟩
      · intro key row present
        exact (settled.requests key row present).imp_right fun bound => bound.trans (Nat.le_succ dated)
    · intro key other present
      have cut : (keep flow.system.db.balances fun key => key.2 ≠ number).lookup (key, other) = _ := lookup_keep _ _ _
      have remains : ((keep flow.system.db.balances fun key => key.2 ≠ number).lookup (key, other)).isSome := present
      rw [cut] at remains
      split at remains
      · next apart => exact stored_deleteBlock.mpr ⟨settled.history key other remains, by simpa using apart⟩
      · cases remains
  | claims found =>
    refine ⟨dated, le_rfl, settled.endTx found (fun _ _ _ => by simp) rfl (.inl rfl) locked rfl rfl ?_ settled.history⟩
    exact countAttempts_epoch (Ended dated) (closeRereads_epoch (Ended dated) settled.requests)

theorem Settled.commit (keccak256 : Bytes → Hash) (allowed : queuedFirst flow (.commit i) = true) :
    ∃ later, Settled later (flow.commit keccak256 i) := by
  obtain ⟨later, bound, moved⟩ := settled.commits (flow.system.commit_commits keccak256 i) (by
    intro number keys epoch found call member work inside unset
    simp only [queuedFirst, found] at allowed
    have each := all_eq_true.mp (all_eq_true.mp allowed call member) work inside
    simpa [unset] using each)
  have weaker {epoch : Nat} (known : Ended dated epoch) : Ended later epoch :=
    known.imp_right fun before => before.trans bound
  refine ⟨later, { moved with claimed := ?_ }⟩
  intro requests member request inside
  dsimp only [BalanceFlow.commit] at member
  split at member
  · next found =>
    rcases mem_append.mp member with before | now
    · exact weaker (settled.claimed requests before request inside)
    · rw [mem_singleton.mp now] at inside
      exact weaker (settled.txs i _ found request inside)
  · exact weaker (settled.claimed requests member request inside)

theorem Settled.rollback (i : Nat) : ∃ later, Settled later { flow with system := flow.system.set i .rolledBack } := by
  have locked := settled.locked.rollback i
  cases found : flow.system.txs[i]? with
  | none =>
    have same : flow.system.txs.set i .rolledBack = flow.system.txs :=
      set_eq_of_length_le (List.getElem?_eq_none_iff.mp found)
    rw [BalanceSystem.set, same]
    exact ⟨dated, settled⟩
  | some old =>
    by_cases taken : ∃ number keys epoch, old = .revert number (.epochTaken keys epoch)
    · obtain ⟨number, keys, epoch, rfl⟩ := taken
      refine ⟨dated + 1, settled.endRevert found rfl (.inr rfl) locked rfl settled.unstamped ?_ settled.history⟩
      intro key row present
      exact (settled.requests key row present).imp_right fun bound => bound.trans (Nat.le_succ dated)
    · have idle : ∀ number keys epoch, old ≠ .revert number (.epochTaken keys epoch) :=
        fun number keys epoch same => taken ⟨number, keys, epoch, same⟩
      exact ⟨dated, settled.endTx found idle rfl (.inr rfl) locked rfl rfl settled.requests settled.history⟩

/-! ## The pool -/

theorem Settled.fold (first second : BalanceWork) : Settled dated (flow.fold first second) := by
  unfold BalanceFlow.fold
  split
  · next there =>
    have inside := there.1.subset
    refine { settled with works := ?_ }
    intro work member
    rcases mem_cons.mp member with rfl | rest
    · exact folded_fit (settled.works first (inside (by simp))) (settled.works second (inside (by simp)))
    · exact settled.works work ((diff_subset _ _) rest)
  · exact settled

theorem Settled.setWorker (worker : Nat) {state : WorkerState}
    (fit : ∀ row ∈ state.rows, RowFit (Covered flow.system.db.store dated) row) :
    Settled dated { flow with workers := flow.workers.set worker state } :=
  { settled with
    batches := by
      intro other member
      rcases mem_or_eq_of_mem_set member with before | rfl
      · exact settled.batches other before
      · exact fit }

theorem Settled.receive (keccak256 : Bytes → Hash) (readerBatch worker : Nat) (work : BalanceWork)
    (drained : List BalanceWork) (node : NodeAnswers) :
    Settled dated (flow.receive keccak256 readerBatch worker work drained node) := by
  unfold BalanceFlow.receive
  split
  · next state found =>
    split
    · next there =>
      have inside := there.1.subset
      have rows : ∀ row ∈ (workerStep keccak256 readerBatch state (.receive work drained node)).rows,
          RowFit (Covered flow.system.db.store dated) row :=
        workerStep_fit (settled.batches state (mem_of_getElem? found)) (settled.works work (inside mem_cons_self))
          fun other member => settled.works other (inside (mem_cons_of_mem _ member))
      exact { settled.setWorker worker rows with works := fun other member => settled.works other ((diff_subset _ _) member) }
    · exact settled
  · exact settled

theorem Settled.tick (keccak256 : Bytes → Hash) (readerBatch worker : Nat) :
    Settled dated (flow.tick keccak256 readerBatch worker) := by
  unfold BalanceFlow.tick
  split
  · next state found => exact settled.setWorker worker (workerTick_fit (settled.batches state (mem_of_getElem? found)))
  · exact settled

theorem Settled.flush (worker batch : Nat) : Settled dated (flow.flush worker batch) := by
  unfold BalanceFlow.flush
  split
  · next row rows found =>
    obtain ⟨state, there, handed⟩ := Option.bind_eq_some_iff.mp found
    refine settled.begin rfl ?_
    intro other member
    apply settled.batches state (mem_of_getElem? there)
    exact mem_append_left _ (mem_flatten.mpr ⟨_, mem_of_getElem? handed, member⟩)
  · exact settled

theorem Settled.restart : ∃ later, Settled later flow.restart := by
  have bound : dated ≤ flow.system.db.balanceReorgEpoch := by
    rcases settled.sequence with same | ⟨i, number, keys, epoch, taken⟩
    · exact same.ge
    · have opened := (settled.txs i _ taken).2
      omega
  refine ⟨flow.system.db.balanceReorgEpoch,
    { locked := ⟨fun i j first second _ found => by simp [BalanceFlow.restart] at found,
        fun i tx found => by simp [BalanceFlow.restart] at found⟩
      txs := fun i tx found => by simp [BalanceFlow.restart] at found
      sequence := .inl rfl
      pool := le_rfl
      unstamped := fun call member => by simp [BalanceFlow.restart] at member
      stamped := fun call member => by simp [BalanceFlow.restart] at member
      works := fun work member => by simp [BalanceFlow.restart] at member
      batches := ?_
      requests := fun key row found => (settled.requests key row found).imp_right fun before => before.trans bound
      claimed := fun requests member => by simp [BalanceFlow.restart] at member
      history := settled.history }⟩
  intro worker member row inside
  obtain ⟨_, _, rfl⟩ := mem_map.mp member
  simp [WorkerState.rows] at inside

theorem Settled.step (keccak256 : Bytes → Hash) (tbcLockKey : BalanceKey → Int) (readerBatch : Nat)
    (event : FlowEvent) (allowed : queuedFirst flow event = true) :
    ∃ later, Settled later (flow.step keccak256 tbcLockKey readerBatch event) := by
  cases event with
  | writeBlock partitionOf data keys => exact ⟨dated, settled.writeBlock allowed⟩
  | queueNext call => exact ⟨dated, settled.queueNext call⟩
  | giveUp call => exact ⟨dated, settled.giveUp call⟩
  | beginRevert number => exact ⟨dated, settled.begin rfl trivial⟩
  | holdEpoch i => exact ⟨dated, settled.holdEpoch i⟩
  | releaseEpoch cancelled => exact ⟨dated, settled.releaseEpoch cancelled⟩
  | beginClaim limit => exact ⟨dated, settled.begin rfl trivial⟩
  | readHead claim => exact ⟨dated, settled.readHead allowed⟩
  | advance i skipped => exact ⟨dated, settled.advance tbcLockKey i skipped⟩
  | commit i => exact settled.commit keccak256 allowed
  | rollback i =>
    rw [BalanceFlow.step]
    split
    · exact ⟨dated, settled⟩
    · exact settled.rollback i
  | fold first second => exact ⟨dated, settled.fold first second⟩
  | receive worker work drained node => exact ⟨dated, settled.receive keccak256 readerBatch worker work drained node⟩
  | tick worker => exact ⟨dated, settled.tick keccak256 readerBatch worker⟩
  | flush worker batch => exact ⟨dated, settled.flush worker batch⟩
  | restart => exact settled.restart

end

/-- In every run whose steps are all allowed, a history row's block is stored. -/
theorem balances_keep_to_storedBlocks (keccak256 : Bytes → Hash) (tbcLockKey : BalanceKey → Int)
    (readerBatch workers : Nat) (events : List FlowEvent)
    (admits : Admits (BalanceFlow.step keccak256 tbcLockKey readerBatch) { workers := List.replicate workers {} }
      (fun flow event => queuedFirst flow event = true) events) (key : BalanceKey) (number : Nat) :
    let flow := run (BalanceFlow.step keccak256 tbcLockKey readerBatch) { workers := List.replicate workers {} } events
    (flow.system.db.balances.lookup (key, number)).isSome → Stored flow.system.db.store number := by
  intro flow present
  obtain ⟨dated, settled⟩ := admits.invariant (fun flow => ∃ dated, Settled dated flow) ⟨0, Settled.start workers⟩
    (fun _ event held allowed => held.elim fun _ settled => settled.step keccak256 tbcLockKey readerBatch event allowed)
    prefix_rfl
  exact settled.history key number present

/-! ## Runs -/

def emptyBlock (number : Nat) : BlockData where
  block := some { number := number, hash := toString number, parentHash := toString (number - 1) }

def sevens : NodeAnswers where
  callContract := fun _ _ => .ok (List.replicate 31 0 ++ [7])
  callWithCodeOverride := fun _ _ => .error .transport

def through (i statements : Nat) : List FlowEvent :=
  List.replicate statements (.advance i []) ++ [.commit i]

def holderKey : BalanceKey :=
  ⟨"0x000000000000000000000000000000000000000b", "0x000000000000000000000000000000000000000a"⟩

def queuedLate : List FlowEvent :=
  [.writeBlock (fun _ => 0) (emptyBlock 1) [(10, 11)], .beginRevert 1, .holdEpoch 0] ++ through 0 3 ++
    [.releaseEpoch false, .queueNext 0, .receive 0 ⟨10, 11, 1, 1⟩ [] sevens, .tick 0, .flush 0 0] ++ through 1 4

def rereadEmpty : List FlowEvent :=
  [.writeBlock (fun _ => 0) (emptyBlock 1) [(10, 11)], .queueNext 0, .receive 0 ⟨10, 11, 1, 0⟩ [] sevens, .tick 0,
    .flush 0 0] ++ through 0 4 ++ [.beginRevert 1, .holdEpoch 1] ++ through 1 3 ++ [.releaseEpoch false, .beginClaim 10] ++
    through 2 3 ++ [.readHead 0, .queueNext 1, .receive 0 ⟨10, 11, 0, 1⟩ [] sevens, .tick 0, .flush 0 1] ++ through 3 4

def Orphaned (flow : BalanceFlow) (number : Nat) : Prop :=
  (∀ tx ∈ flow.system.txs, tx.revertLock = .free) ∧ flow.epochGate = none ∧
    flow.system.db.balances.lookup (holderKey, number) = some 7 ∧ ¬ Stored flow.system.db.store number

instance decidableOrphaned (flow : BalanceFlow) (number : Nat) : Decidable (Orphaned flow number) :=
  inferInstanceAs (Decidable (_ ∧ _ ∧ _ ∧ _))

theorem queuedLate_orphans :
    Orphaned (run (BalanceFlow.step (fun _ => 0) (fun _ => 0) 1) { workers := [{}] } queuedLate) 1 ∧
      Orphaned (run (BalanceFlow.step (fun _ => 0) (fun _ => 0) 1) { workers := [{}] } rereadEmpty) 0 := by
  decide +kernel

def queuedInTime : List FlowEvent :=
  [.writeBlock (fun _ => 0) (emptyBlock 1) [(10, 11)], .writeBlock (fun _ => 0) (emptyBlock 2) [(12, 11)], .queueNext 0,
    .queueNext 1, .receive 0 ⟨10, 11, 1, 0⟩ [] sevens, .tick 0, .flush 0 0] ++ through 0 4 ++
    [.beginRevert 2, .holdEpoch 1] ++ through 1 3 ++ [.releaseEpoch false]

theorem balances_keep_to_storedBlocks_inTime :
    let flow := run (BalanceFlow.step (fun _ => 0) (fun _ => 0) 1) { workers := List.replicate 1 {} } queuedInTime
    (flow.system.db.balances.lookup (holderKey, 1)).isSome ∧ Stored flow.system.db.store 1 ∧
      ¬ Stored flow.system.db.store 2 := by
  refine ⟨by decide +kernel, ?_, by decide +kernel⟩
  exact balances_keep_to_storedBlocks (fun _ => 0) (fun _ => 0) 1 1 queuedInTime (by decide +kernel) holderKey 1
    (by decide +kernel)

end OpsIndexer.Indexing
