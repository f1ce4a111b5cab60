import OpsIndexer.Indexer.HeadLoop

/-!
# What a turn of the head loop does

A revert takes stored blocks from the top only. A turn at a block touches the store at that block's number or takes
blocks from there up; it moves the cursor only to a block it has stored or recorded, and which extends the block before.
-/

namespace OpsIndexer.Indexing

open Eth Db Lib.Runs

def HeadStore.Kept (store : HeadStore) (number : Nat) : Prop :=
  store.Stored number ∨ store.ranges.Covers number

instance HeadStore.decidableKept (store : HeadStore) (number : Nat) : Decidable (store.Kept number) :=
  inferInstanceAs (Decidable (_ ∨ _))

def HeadStore.requeue (store : HeadStore) (number : Nat) : HeadStore :=
  { store with ranges := requeueMissingBlock store.ranges number }

/-! ## Reverts -/

structure HeadStore.CutAt (store next : HeadStore) (cut : Nat) : Prop where
  mem : ∀ block, block ∈ next.blocks ↔ block ∈ store.blocks ∧ block.number < cut
  ranges : next.ranges = store.ranges
  pruned : next.prunedThrough = store.prunedThrough

namespace HeadStore.CutAt

variable {store next : HeadStore} {cut : Nat}

variable {number : Nat}

theorem stored (left : store.CutAt next cut) : next.Stored number ↔ store.Stored number ∧ number < cut := by
  constructor
  · rintro ⟨block, member, rfl⟩
    obtain ⟨stored, below⟩ := (left.mem block).mp member
    exact ⟨⟨block, stored, rfl⟩, below⟩
  · rintro ⟨⟨block, member, rfl⟩, below⟩
    exact ⟨block, (left.mem block).mpr ⟨member, below⟩, rfl⟩

theorem kept (left : store.CutAt next cut) (before : store.Kept number) (below : number < cut) :
    next.Kept number := by
  rcases before with stored | recorded
  · exact .inl (left.stored.mpr ⟨stored, below⟩)
  · exact .inr (left.ranges ▸ recorded)

theorem of_above (above : ∀ number, store.Stored number → number < cut) : store.CutAt store cut where
  mem := fun block => ⟨fun member => ⟨member, above block.number ⟨block, member, rfl⟩⟩, And.left⟩
  ranges := rfl
  pruned := rfl

theorem deleteBlock (left : store.CutAt next (cut + 1)) : store.CutAt (next.deleteBlock cut) cut where
  mem := by
    intro block
    simp only [HeadStore.deleteBlock, List.mem_filter, left.mem, decide_eq_true_eq, and_assoc]
    exact and_congr_right fun _ => by omega
  ranges := left.ranges
  pruned := left.pruned

end HeadStore.CutAt

/-- How a revert from `fromBlock` ends. When it fails, nothing is gone or a delete of a block up to the cut has failed. -/
structure Reverted (store : HeadStore) (fromBlock : Nat) (deletes : Nat → Outcome) (ended : HeadStore × Bool)
    (cut : Nat) : Prop where
  above : fromBlock ≤ cut
  left : store.CutAt ended.1 cut
  done : ended.2 = true → cut = fromBlock
  failed : ended.2 = false →
    (∀ number, store.Stored number → number < cut) ∨ ∃ number, fromBlock ≤ number ∧ number ≤ cut ∧ deletes number ≠ .ok

theorem handleReorg_reverted (store : HeadStore) (fromBlock : Nat) (answers : RevertAnswers) :
    ∃ cut, Reverted store fromBlock answers.deletes (handleReorg store fromBlock answers) cut := by
  have above : ∀ number, store.Stored number →
      number < fromBlock + (store.getLatestBlockNumber + 1 - fromBlock) := by
    intro number stored
    have latest := stored.le_latest
    omega
  rw [handleReorg]
  split
  · refine foldUntil_induction
      (fun rest state => state.2 = true ∧
        ∃ count, rest = (List.range' fromBlock count).reverse ∧ store.CutAt state.1 (fromBlock + count))
      (fun ended => ∃ cut, Reverted store fromBlock answers.deletes ended cut) ?_ ?_ ?_ _ _
      ⟨rfl, _, rfl, .of_above above⟩
    · rintro number rest state ⟨_, count, numbers, left⟩ more
      cases count with
      | zero => cases numbers
      | succ count =>
        rw [List.range'_concat, List.reverse_concat, List.cons.injEq] at numbers
        simp only [Nat.one_mul] at numbers
        obtain ⟨rfl, rfl⟩ := numbers
        have done : answers.deletes (fromBlock + count) = .ok := by simpa [revertBlock] using more
        refine ⟨by simp [revertBlock, done], count, rfl, ?_⟩
        simpa [revertBlock, done, Outcome.applied] using left.deleteBlock
    · rintro number rest state ⟨_, count, numbers, left⟩ stop
      cases count with
      | zero => cases numbers
      | succ count =>
        rw [List.range'_concat, List.reverse_concat, List.cons.injEq] at numbers
        simp only [Nat.one_mul] at numbers
        obtain ⟨rfl, rfl⟩ := numbers
        cases outcome : answers.deletes (fromBlock + count) with
        | ok => simp [revertBlock, outcome] at stop
        | fail =>
          refine ⟨fromBlock + (count + 1), Nat.le_add_right _ _, ?_, by simp [revertBlock, outcome], fun _ => .inr ?_⟩
          · simpa [revertBlock, outcome, Outcome.applied] using left
          · exact ⟨fromBlock + count, Nat.le_add_right _ _, by omega, by simp [outcome]⟩
        | lost =>
          refine ⟨fromBlock + count, Nat.le_add_right _ _, ?_, by simp [revertBlock, outcome], fun _ => .inr ?_⟩
          · simpa [revertBlock, outcome, Outcome.applied] using left.deleteBlock
          · exact ⟨fromBlock + count, Nat.le_add_right _ _, le_rfl, by simp [outcome]⟩
    · rintro state ⟨ok, count, numbers, left⟩
      have none : count = 0 := by simpa using numbers.symm
      rw [none] at left
      exact ⟨fromBlock, le_rfl, left, fun _ => rfl, by simp [ok]⟩
  · exact ⟨_, Nat.le_add_right _ _, .of_above above, by simp, fun _ => .inl above⟩

/-! ## Turns -/

inductive Touched (store : HeadStore) (block : FetchedBlock) : HeadStore → Prop
  | same : Touched store block store
  | recorded : Touched store block (store.requeue block.number)
  | added {raw : RawHead} (served : block.raw = some raw) (fresh : ¬store.Stored block.number) :
      Touched store block (store.addBlock (raw.toBlock block.number))
  | reverted {next : HeadStore} {cut : Nat} (above : block.number ≤ cut) (left : store.CutAt next cut) :
      Touched store block next

namespace Touched

variable {store next : HeadStore} {block : FetchedBlock}

variable {number : Nat}

theorem kept (touched : Touched store block next) (before : store.Kept number) (below : number < block.number) :
    next.Kept number := by
  cases touched with
  | same => exact before
  | recorded => exact before.imp_right fun covered => covers_requeueMissingBlock.mpr (.inl covered)
  | added served fresh =>
    refine before.imp (fun stored => HeadStore.stored_addBlock.mpr (.inl stored)) fun covered => ?_
    rwa [HeadStore.ranges_addBlock]
  | reverted above left => exact left.kept before (below.trans_le above)

theorem of_mem (touched : Touched store block next) {row : HeadBlock} (member : row ∈ next.blocks) :
    row ∈ store.blocks ∨ ∃ raw, block.raw = some raw ∧ row = raw.toBlock block.number := by
  cases touched with
  | same => exact .inl member
  | recorded => exact .inl member
  | added served fresh =>
    rcases (HeadStore.mem_addBlock fresh).mp member with stored | new
    · exact .inl stored
    · exact .inr ⟨_, served, new⟩
  | reverted above left => exact .inl ((left.mem row).mp member).1

theorem pruned (touched : Touched store block next) : next.prunedThrough = store.prunedThrough := by
  cases touched with
  | same => rfl
  | recorded => rfl
  | added served fresh => rw [HeadStore.prunedThrough_addBlock]
  | reverted above left => exact left.pruned

theorem covers (touched : Touched store block next) (covered : next.ranges.Covers number) :
    store.ranges.Covers number ∨ number = block.number := by
  cases touched with
  | same => exact .inl covered
  | recorded => exact covers_requeueMissingBlock.mp covered
  | added served fresh => exact .inl (HeadStore.ranges_addBlock _ _ ▸ covered)
  | reverted above left => exact .inl (left.ranges ▸ covered)

end Touched

structure Halts (loop : Loop) (block : FetchedBlock) (next : Loop) : Prop where
  store : Touched loop.store block next.store
  cursor : next.lastIndexed = loop.lastIndexed
  skipped : next.receipts.skippedHash ≠ 0 → next.receipts.skipped = loop.receipts.skipped ∧ loop.receipts.skippedHash ≠ 0

inductive Passes (loop : Loop) (block : FetchedBlock) (raw : RawHead) (next : Loop) : Prop
  | stored (receipts : next.receipts = loop.receipts)
      (row : ∃ row ∈ next.store.blocks, row.number = block.number ∧ row.hash = raw.hash)
  | recorded (unavailable : block = .noReceipts block.number raw)
      (attempts : maxReceiptAttempts ≤ (loop.receipts.counted block.number).attempts)
      (receipts : next.receipts =
        { loop.receipts.counted block.number with
          attempts := 0, recorded := true, skipped := block.number, skippedHash := raw.hash })
      (store : next.store = loop.store.requeue block.number)

structure Moves (loop : Loop) (block : FetchedBlock) (raw : RawHead) (next : Loop) : Prop where
  served : block.raw = some raw
  chained : loop.prevHash = 0 ∨ raw.parentHash = loop.prevHash
  store : Touched loop.store block next.store
  cursor : next.lastIndexed = block.number
  prevHash : next.prevHash = raw.hash
  passes : Passes loop block raw next

variable {failure : Option HeadError} {raw : RawHead}

theorem write_inserts {loop next : Loop} {block : HeadBlock} {outcome : WriteOutcome}
    (written : loop.write block outcome = (next, failure)) :
    loop.store.Inserts block next.store failure ∧ next.receipts = loop.receipts ∧
      next.lastIndexed = if failure = none then block.number else loop.lastIndexed := by
  have inserts := loop.store.insertBlock_inserts block outcome
  rw [Loop.write] at written
  rw [HeadStore.insertBlock] at inserts
  cases begun : loop.store.beginBlockData block outcome.begins with
  | error refused =>
    rw [begun] at written inserts
    cases written
    exact ⟨inserts, rfl, rfl⟩
  | ok write =>
    simp only [begun] at written inserts
    cases finished : loop.store.finish write outcome.ends with
    | mk store done =>
      rw [finished] at written inserts
      cases done <;> cases written <;> exact ⟨inserts, rfl, rfl⟩

theorem HeadStore.Inserts.touched {store next : HeadStore} {block : FetchedBlock}
    (inserts : store.Inserts (raw.toBlock block.number) next failure) (served : block.raw = some raw) :
    Touched store block next := by
  rcases inserts.cases with rfl | ⟨fresh, rfl⟩
  · exact .same
  · exact .added served fresh

theorem revertStaleBlock_touched {store next : HeadStore} {block : FetchedBlock} {failure : HeadError}
    (inserts : store.Inserts (raw.toBlock block.number) next (some failure)) (served : block.raw = some raw)
    (answers : RevertAnswers) : Touched store block (revertStaleBlock next failure answers) := by
  cases failure with
  | other => exact inserts.touched served
  | differs number =>
    obtain ⟨rfl, rfl⟩ := inserts.differs number rfl
    obtain ⟨cut, reverted⟩ := handleReorg_reverted next block.number answers
    exact .reverted reverted.above reverted.left

theorem chained_of_breaksChain {prevHash : Hash} {block : FetchedBlock} (served : block.raw = some raw)
    (chained : breaksChain prevHash block = false) : prevHash = 0 ∨ raw.parentHash = prevHash := by
  rw [or_iff_not_imp_left]
  simpa [breaksChain, served] using chained

theorem skip_cases (receipts : ReceiptSkip) (store : HeadStore) (number : Nat) (outcome : Outcome) :
    (∃ next, (next = store ∨ next = store.requeue number) ∧
        receipts.skip store number outcome = (receipts.counted number, next, false)) ∨
      maxReceiptAttempts ≤ (receipts.counted number).attempts ∧
        receipts.skip store number outcome =
          ({ receipts.counted number with attempts := 0, recorded := true }, store.requeue number, true) := by
  rw [ReceiptSkip.skip]
  split
  · exact .inl ⟨store, .inl rfl, rfl⟩
  · next enough =>
    cases outcome with
    | ok => exact .inr ⟨not_lt.mp enough, rfl⟩
    | fail => exact .inl ⟨store, .inl rfl, rfl⟩
    | lost => exact .inl ⟨_, .inr rfl, rfl⟩

theorem counted_skipped (receipts : ReceiptSkip) (number : Nat) :
    (receipts.counted number).skipped = receipts.skipped ∧
      (receipts.counted number).skippedHash = receipts.skippedHash := by
  rw [ReceiptSkip.counted]
  split <;> exact ⟨rfl, rfl⟩

section

variable {answers : LoopAnswers} {loop : Loop} {block : FetchedBlock}

theorem indexPrefetchedBlock_halts (stop : (indexPrefetchedBlock answers loop block).2 = false) :
    Halts loop block (indexPrefetchedBlock answers loop block).1 := by
  rw [indexPrefetchedBlock] at stop ⊢
  split
  · refine ⟨.same, rfl, ?_⟩
    simp only [recheckSkipped]
    split
    · split
      · exact fun known => ⟨rfl, known⟩
      · intro known
        exact absurd rfl known
    · exact fun known => ⟨rfl, known⟩
  · next chained =>
    rw [if_neg chained] at stop
    cases block with
    | unread number => exact ⟨.same, rfl, fun known => ⟨rfl, known⟩⟩
    | noReceipts number raw =>
      simp only [Loop.skip] at stop ⊢
      rcases skip_cases loop.receipts loop.store number (answers.requeues number) with
        ⟨next, touched, skipped⟩ | ⟨_, skipped⟩
      · simp only [skipped]
        refine ⟨?_, rfl, ?_⟩
        · rcases touched with rfl | rfl
          · exact .same
          · exact .recorded
        · intro known
          obtain ⟨same, hash⟩ := counted_skipped loop.receipts number
          exact ⟨same, hash ▸ known⟩
      · simp [skipped] at stop
    | ready number raw =>
      cases written : Loop.write { loop with remembered := false } (raw.toBlock number) (answers.writes number) with
      | mk next failure =>
        obtain ⟨inserts, receipts, cursor⟩ := write_inserts written
        simp only [written] at stop ⊢
        cases failure with
        | none => cases stop
        | some failure =>
          refine ⟨revertStaleBlock_touched inserts rfl answers.revert, cursor, ?_⟩
          intro known
          rw [receipts] at known
          exact ⟨congrArg ReceiptSkip.skipped receipts, known⟩

theorem indexPrefetchedBlock_moves (more : (indexPrefetchedBlock answers loop block).2 = true) :
    ∃ raw, Moves loop block raw (indexPrefetchedBlock answers loop block).1 := by
  rw [indexPrefetchedBlock] at more ⊢
  split at more
  · cases more
  · next chained =>
    rw [if_neg chained]
    rw [Bool.not_eq_true] at chained
    cases block with
    | unread number => cases more
    | noReceipts number raw =>
      simp only [Loop.skip] at more ⊢
      rcases skip_cases loop.receipts loop.store number (answers.requeues number) with
        ⟨next, touched, skipped⟩ | ⟨enough, skipped⟩
      · simp [skipped] at more
      · simp only [skipped]
        exact ⟨raw, rfl, chained_of_breaksChain rfl chained, .recorded, rfl, rfl, .recorded rfl enough rfl rfl⟩
    | ready number raw =>
      cases written : Loop.write { loop with remembered := false } (raw.toBlock number) (answers.writes number) with
      | mk next failure =>
        obtain ⟨inserts, receipts, cursor⟩ := write_inserts written
        simp only [written] at more ⊢
        cases failure with
        | some failure => cases more
        | none =>
          exact ⟨raw, rfl, chained_of_breaksChain rfl chained, inserts.touched rfl, cursor, rfl,
            .stored receipts (inserts.done rfl)⟩

end

end OpsIndexer.Indexing
