import OpsIndexer.Indexer.HeadTurns
import OpsIndexer.Indexer.StandardMode

/-!
# Steps of standard mode

What a tick and a retry pass come to, for the invariants over runs: where `anchor` starts, what the reorg check found,
which loop the tick ran and from where, and the single writes a pass is made of.
-/

namespace OpsIndexer.Indexing

open Eth Db Lib.Keyset Lib.Runs List

/-! ## The anchor -/

def AnchorReads.answered : AnchorReads := ⟨true, true, true⟩

inductive Anchored (startBlock : Nat) (store : HeadStore) (lastIndexed : Nat) (receipts : ReceiptSkip) :
    Nat → Hash → Prop
  | floor {fromBlock : Nat}
      (low : fromBlock = indexingFloor startBlock store.prunedThrough ∨ fromBlock = 0 ∧ startBlock = 0)
      (none : ∀ number ≤ lastIndexed, store.Stored number → number ≤ fromBlock)
      (cursor : receipts.skipped = lastIndexed → receipts.skippedHash ≠ 0 → lastIndexed = 0) :
      Anchored startBlock store lastIndexed receipts fromBlock 0
  | stored {block : HeadBlock} (member : block ∈ store.blocks) (below : block.number ≤ lastIndexed)
      (highest : ∀ number ≤ lastIndexed, store.Stored number → number ≤ block.number)
      (cursor : receipts.skipped = lastIndexed → receipts.skippedHash ≠ 0 → block.number = lastIndexed) :
      Anchored startBlock store lastIndexed receipts block.number block.hash
  | remembered (absent : ¬store.Stored lastIndexed) (skipped : receipts.skipped = lastIndexed)
      (hash : receipts.skippedHash ≠ 0) :
      Anchored startBlock store lastIndexed receipts lastIndexed receipts.skippedHash

theorem anchor_anchored (startBlock : Nat) (store : HeadStore) (lastIndexed : Nat) (receipts : ReceiptSkip) :
    Anchored startBlock store lastIndexed receipts
      (anchor startBlock store lastIndexed receipts .answered).fromBlock
      (anchor startBlock store lastIndexed receipts .answered).hash := by
  by_cases origin : lastIndexed = 0 ∧ startBlock = 0
  · simp only [anchor, if_pos origin]
    exact .floor (.inr ⟨rfl, origin.2⟩) (fun number below _ => origin.1 ▸ below) fun _ _ => origin.1
  · simp only [anchor, if_neg origin, AnchorReads.answered, Bool.not_true, Bool.false_eq_true, and_false, if_false]
    split
    · next block found =>
      split at found
      · obtain ⟨member, rfl⟩ := HeadStore.getBlock_eq_some.mp found
        exact .stored member le_rfl (fun number below _ => below) fun _ _ => rfl
      · cases found
    · next missing =>
      split
      · next remembered =>
        rw [if_pos remembered.1] at missing
        exact .remembered (HeadStore.getBlock_eq_none.mp missing) remembered.2.1 remembered.2.2
      · next forgotten =>
        have zero : receipts.skipped = lastIndexed → receipts.skippedHash ≠ 0 → lastIndexed = 0 := by
          intro skipped hash
          by_contra positive
          exact forgotten ⟨Nat.pos_of_ne_zero positive, skipped, hash⟩
        split
        · next block found =>
          obtain ⟨member, below, highest⟩ := HeadStore.highestBlockAtOrBelow_eq_some found
          refine .stored member below highest ?_
          intro skipped hash
          have atZero := zero skipped hash
          omega
        · next empty =>
          refine .floor (.inl rfl) ?_ zero
          intro number below stored
          exact absurd stored (HeadStore.highestBlockAtOrBelow_eq_none.mp empty number below)

theorem anchor_reads (startBlock : Nat) (store : HeadStore) (lastIndexed : Nat) (receipts : ReceiptSkip)
    (reads : AnchorReads) :
    anchor startBlock store lastIndexed receipts reads = anchor startBlock store lastIndexed receipts .answered ∨
      anchor startBlock store lastIndexed receipts reads = ⟨lastIndexed, 0, false, false⟩ := by
  simp only [anchor, AnchorReads.answered]
  split
  · exact .inl rfl
  · by_cases unread : 0 < lastIndexed ∧ (!reads.cursor) = true
    · exact .inr (if_pos unread)
    · have answered : ¬(0 < lastIndexed ∧ (!true) = true) := by simp
      rw [if_neg unread, if_neg answered]
      generalize (if 0 < lastIndexed then store.getBlock lastIndexed else none) = found
      cases found with
      | some block => exact .inl rfl
      | none =>
        simp only
        split
        · exact .inl rfl
        · cases reads.below with
          | false => exact .inr rfl
          | true =>
            cases store.highestBlockAtOrBelow lastIndexed with
            | some block => exact .inl rfl
            | none =>
              cases reads.pruned with
              | false => exact .inr rfl
              | true => exact .inl rfl

section

variable {startBlock : Nat} {store : HeadStore} {lastIndexed : Nat} {receipts : ReceiptSkip} {fromBlock : Nat} {hash : Hash}

theorem Anchored.stored_le (anchored : Anchored startBlock store lastIndexed receipts fromBlock hash) {number : Nat}
    (stored : store.Stored number) (below : number ≤ lastIndexed) : number ≤ fromBlock := by
  cases anchored with
  | floor low none cursor => exact none number below stored
  | stored member low highest cursor => exact highest number below stored
  | remembered absent skipped known => exact below

end

/-! ## The tick -/

def Mismatch (store : HeadStore) (blockNumber depth : Nat) : Prop :=
  depth = 0 ∨ depth ≤ blockNumber ∧ store.Stored (blockNumber - depth + 1)

theorem compareBlock_mismatch {store : HeadStore} {blockNumber depth : Nat} {answers : ReorgAnswers}
    {found : Nat × Bool} (inside : depth < blockNumber) (before : Mismatch store blockNumber found.1) :
    Mismatch store blockNumber (compareBlock store blockNumber answers found depth).1.1 := by
  rw [compareBlock]
  split
  · split
    · exact before
    · exact before
    · next block hash stored chain =>
      split
      · exact before
      · obtain ⟨member, number⟩ := HeadStore.getBlock_eq_some.mp stored
        refine .inr ⟨inside, block, member, ?_⟩
        simp only
        omega
  · exact before

theorem detectReorg_mismatch (store : HeadStore) (blockNumber : Nat) (answers : ReorgAnswers) :
    Mismatch store blockNumber (detectReorg store blockNumber answers).1 := by
  refine foldUntil_induction
    (fun (rest : List Nat) (found : Nat × Bool) =>
      (∀ depth ∈ rest, depth < blockNumber) ∧ Mismatch store blockNumber found.1)
    (fun found => Mismatch store blockNumber found.1) ?_ ?_ ?_ _ _ ⟨?_, .inl rfl⟩
  · rintro depth rest found ⟨inside, before⟩ _
    rw [forall_mem_cons] at inside
    exact ⟨inside.2, compareBlock_mismatch inside.1 before⟩
  · rintro depth rest found ⟨inside, before⟩ _
    exact compareBlock_mismatch (inside depth mem_cons_self) before
  · exact fun found running => running.2
  · intro depth member
    exact (mem_range.mp member).trans_le (min_le_right _ _)

inductive TickStart (state : Standard) : Standard → Prop
  | same : TickStart state state
  | reverted {store : HeadStore} {fromBlock : Nat} (stored : state.store.Stored fromBlock) (positive : 0 < fromBlock)
      (below : fromBlock ≤ state.lastIndexed) (left : state.store.CutAt store fromBlock) :
      TickStart state { state with store := store, lastIndexed := fromBlock - 1 }

theorem standardTick_cases (config : StandardConfig) (state : Standard) (latest : Nat) (answers : TickAnswers) :
    standardTick config state latest answers = state ∨
      (∃ store fromBlock cut, standardTick config state latest answers = { state with store := store } ∧
        0 < fromBlock ∧ fromBlock ≤ state.lastIndexed ∧
        Reverted state.store fromBlock answers.revert.deletes (store, false) cut) ∨
      ∃ start, TickStart state start ∧
        standardTick config state latest answers = indexHead config start latest answers.index := by
  rw [standardTick]
  split
  · cases found : detectReorg state.store state.lastIndexed answers.reorg with
    | mk reorgDepth read =>
      cases read with
      | false => exact .inl rfl
      | true =>
        simp only
        split
        · next positive =>
          have mismatch := detectReorg_mismatch state.store state.lastIndexed answers.reorg
          rw [found] at mismatch
          obtain ⟨deep, stored⟩ := mismatch.resolve_left positive.ne'
          obtain ⟨cut, reverted⟩ := handleReorg_reverted state.store (state.lastIndexed - reorgDepth + 1) answers.revert
          cases ended : handleReorg state.store (state.lastIndexed - reorgDepth + 1) answers.revert with
          | mk store done =>
            rw [ended] at reverted
            cases done with
            | false => exact .inr (.inl ⟨store, _, cut, rfl, Nat.succ_pos _, by omega, reverted⟩)
            | true =>
              have left := reverted.left
              rw [reverted.done rfl] at left
              exact .inr (.inr ⟨_, .reverted stored (Nat.succ_pos _) (by omega) left, rfl⟩)
        · exact .inr (.inr ⟨state, .same, rfl⟩)
  · exact .inr (.inr ⟨state, .same, rfl⟩)

theorem indexHead_eq (config : StandardConfig) (state : Standard) (latest : Nat) (answers : IndexAnswers) :
    indexHead config state latest answers =
      let loop := indexPrefetched config.startBlock state.store state.lastIndexed latest state.receipts answers
      { state with store := loop.store, lastIndexed := loop.lastIndexed, receipts := loop.receipts } := by
  rw [indexHead]
  split
  · have same := (indexPipelined_closes config.startBlock state.store state.lastIndexed latest
      config.commitPipelineDepth state.receipts answers).1
    simp only [Loop.result, Prod.mk.injEq] at same
    simp only [same]
  · rfl

/-! ## The loop of a tick -/

def fetched (node : Nat → NodeAnswer) (first count : Nat) : List FetchedBlock :=
  (List.range' first count).map fun number => fetchBlockAndReceipts number (node number)

/-- The rule for the head loop: what its turns keep, at the block after the cursor, holds where it ends. -/
theorem foldUntil_fetched {answers : LoopAnswers} {node : Nat → NodeAnswer} (holds ended : Loop → Prop)
    (moves : ∀ loop raw next, holds loop →
      Moves loop (fetchBlockAndReceipts (loop.lastIndexed + 1) (node (loop.lastIndexed + 1))) raw next → holds next)
    (halts : ∀ loop next, holds loop →
      Halts loop (fetchBlockAndReceipts (loop.lastIndexed + 1) (node (loop.lastIndexed + 1))) next → ended next)
    (done : ∀ loop, holds loop → ended loop) (count : Nat) {loop : Loop} (start : holds loop) :
    ended (foldUntil (indexPrefetchedBlock answers) loop (fetched node (loop.lastIndexed + 1) count)) := by
  refine foldUntil_induction
    (fun rest loop => holds loop ∧ ∃ count, rest = fetched node (loop.lastIndexed + 1) count) ended ?_ ?_ ?_ _ _
    ⟨start, count, rfl⟩
  · rintro block rest loop ⟨held, count, blocks⟩ more
    cases count with
    | zero => cases blocks
    | succ count =>
      rw [fetched, List.range'_succ, map_cons, List.cons.injEq] at blocks
      obtain ⟨rfl, rfl⟩ := blocks
      obtain ⟨raw, moved⟩ := indexPrefetchedBlock_moves more
      refine ⟨moves loop raw _ held moved, count, ?_⟩
      rw [moved.cursor, fetchBlockAndReceipts_number, fetched]
  · rintro block rest loop ⟨held, count, blocks⟩ stop
    cases count with
    | zero => cases blocks
    | succ count =>
      rw [fetched, List.range'_succ, map_cons, List.cons.injEq] at blocks
      obtain ⟨rfl, rfl⟩ := blocks
      exact halts loop _ held (indexPrefetchedBlock_halts stop)
  · exact fun loop running => done loop running.1

/-- A call whose anchor cannot be read changes nothing but the remembered hash; any other runs the loop from where it
is anchored. -/
theorem indexPrefetched_cases (startBlock : Nat) (store : HeadStore) (lastIndexed latest : Nat) (receipts : ReceiptSkip)
    (answers : IndexAnswers) :
    (∃ loop : Loop, indexPrefetched startBlock store lastIndexed latest receipts answers = loop ∧
        loop.store = store ∧ loop.lastIndexed = lastIndexed ∧ loop.receipts = receipts.dropAbove lastIndexed) ∨
      ∃ (loop : Loop) (count : Nat),
        indexPrefetched startBlock store lastIndexed latest receipts answers =
            foldUntil (indexPrefetchedBlock answers.loop) loop (fetched answers.node (loop.lastIndexed + 1) count) ∧
          loop.store = store ∧ loop.receipts = receipts.dropAbove lastIndexed ∧
          loop.lastIndexed =
            (anchor startBlock store lastIndexed (receipts.dropAbove lastIndexed) .answered).fromBlock ∧
          Anchored startBlock store lastIndexed (receipts.dropAbove lastIndexed) loop.lastIndexed loop.prevHash := by
  have anchored := anchor_anchored startBlock store lastIndexed (receipts.dropAbove lastIndexed)
  rw [indexPrefetched, tickBlocks]
  rcases anchor_reads startBlock store lastIndexed (receipts.dropAbove lastIndexed) answers.reads with same | unread
  · right
    simp only [startLoop, same]
    split
    · exact ⟨_, 0, rfl, rfl, rfl, rfl, anchored⟩
    · exact ⟨_, _, rfl, rfl, rfl, rfl, anchored⟩
  · left
    simp only [startLoop, unread]
    exact ⟨_, rfl, rfl, rfl, rfl⟩

/-! ## The retry pass -/

inductive PassStep (answers : PassAnswers) (lastIndexed : Nat) : HeadStore → HeadStore → Prop
  | fill {store : HeadStore} {number id : Nat} {raw : RawHead} (below : number ≤ lastIndexed)
      (recorded : store.ranges.Covers number) (fresh : ¬store.Stored number)
      (served : fetchBlockAndReceipts number (answers.blocks id number).node = .ready number raw)
      (fits : fitsBetween store number raw = true) :
      PassStep answers lastIndexed store (store.addBlock (raw.toBlock number))
  | advance {store : HeadStore} {range : BlockRange} {next : Nat} (row : range ∈ store.ranges.rows)
      (moved : range.fromNumber < next)
      (filled : ∀ number, range.fromNumber ≤ number → number < next → store.Stored number) :
      PassStep answers lastIndexed store
        { store with ranges := advanceMissingRange store.ranges range next }

section

variable {answers : PassAnswers} {lastIndexed : Nat}

variable {number : Nat} {store : HeadStore} {range : BlockRange}

theorem fetchBlockAndReceipts_ready {served : Nat} {answer : NodeAnswer} {raw : RawHead}
    (ready : fetchBlockAndReceipts number answer = .ready served raw) : served = number := by
  have same := fetchBlockAndReceipts_number number answer
  rw [ready] at same
  exact same

variable (answers) in
theorem retryMissingBlock_steps (id : Nat) (below : number ≤ lastIndexed) (recorded : store.ranges.Covers number) :
    ((retryMissingBlock store number (answers.blocks id number)).1 = store ∨
        PassStep answers lastIndexed store (retryMissingBlock store number (answers.blocks id number)).1) ∧
      (retryMissingBlock store number (answers.blocks id number)).1.ranges = store.ranges ∧
      ((retryMissingBlock store number (answers.blocks id number)).2 = true →
        (retryMissingBlock store number (answers.blocks id number)).1.Stored number) := by
  rw [retryMissingBlock]
  split
  · exact ⟨.inl rfl, rfl, by simp⟩
  · split
    · next stored => exact ⟨.inl rfl, rfl, fun _ => stored⟩
    · next fresh =>
      split
      · next served raw ready =>
        cases fetchBlockAndReceipts_ready ready
        split
        · next checks =>
          have inserts := store.insertBlock_inserts (raw.toBlock number) (answers.blocks id number).write
          cases written : store.insertBlock (raw.toBlock number) (answers.blocks id number).write with
          | mk next failure =>
            rw [written] at inserts
            have touched : next = store ∨ next = store.addBlock (raw.toBlock number) :=
              inserts.cases.imp_right And.right
            have step : next = store ∨ PassStep answers lastIndexed store next := by
              refine touched.imp_right fun added => ?_
              rw [added]
              exact .fill below recorded fresh ready checks.2.2
            have ranges : next.ranges = store.ranges := by
              rcases touched with same | added
              · rw [same]
              · rw [added, HeadStore.ranges_addBlock]
            cases failure with
            | none =>
              refine ⟨step, ranges, fun _ => ?_⟩
              obtain ⟨row, member, same, _⟩ := inserts.done rfl
              exact ⟨row, member, same⟩
            | some failure => exact ⟨step, ranges, by simp⟩
        · exact ⟨.inl rfl, rfl, by simp⟩
      · exact ⟨.inl rfl, rfl, by simp⟩

structure RangePass.Along (answers : PassAnswers) (lastIndexed : Nat) (store : HeadStore) (range : BlockRange)
    (pass : RangePass) : Prop where
  steps : Relation.ReflTransGen (PassStep answers lastIndexed) store pass.store
  ranges : pass.store.ranges = store.ranges
  above : range.fromNumber ≤ pass.next
  filled : ∀ number, range.fromNumber ≤ number → number < pass.next → pass.store.Stored number

theorem PassStep.stored {next : HeadStore} (step : PassStep answers lastIndexed store next)
    (stored : store.Stored number) : next.Stored number := by
  cases step with
  | fill below recorded fresh served fits => exact HeadStore.stored_addBlock.mpr (.inl stored)
  | advance row moved filled => exact stored

theorem retryNumber_along {pass : RangePass} (along : pass.Along answers lastIndexed store range)
    (row : range ∈ store.ranges.rows) (next : number = pass.next) (inside : number ≤ range.toNumber)
    (below : number ≤ lastIndexed) :
    (retryNumber (answers.blocks range.id) pass number).1.Along answers lastIndexed store range ∧
      ((retryNumber (answers.blocks range.id) pass number).2 = true →
        (retryNumber (answers.blocks range.id) pass number).1.next = number + 1) := by
  have recorded : pass.store.ranges.Covers number := by
    rw [along.ranges]
    exact ⟨range, row, next ▸ along.above, inside⟩
  obtain ⟨changed, ranges, found⟩ := retryMissingBlock_steps answers range.id below recorded
  have steps : Relation.ReflTransGen (PassStep answers lastIndexed) store
      (retryMissingBlock pass.store number (answers.blocks range.id number)).1 := by
    rcases changed with same | step
    · rw [same]
      exact along.steps
    · exact along.steps.tail step
  have older : ∀ other, pass.store.Stored other →
      (retryMissingBlock pass.store number (answers.blocks range.id number)).1.Stored other := by
    intro other stored
    rcases changed with same | step
    · rwa [same]
    · exact step.stored stored
  rw [retryNumber]
  cases tried : retryMissingBlock pass.store number (answers.blocks range.id number) with
  | mk after done =>
    rw [tried] at ranges steps older found
    cases done with
    | false =>
      refine ⟨⟨steps, ranges.trans along.ranges, along.above, ?_⟩, by simp⟩
      exact fun other first last => older other (along.filled other first last)
    | true =>
      refine ⟨⟨steps, ranges.trans along.ranges, along.above.trans (next ▸ Nat.le_succ number), ?_⟩, fun _ => rfl⟩
      intro other first last
      rcases Nat.lt_succ_iff_lt_or_eq.mp last with before | rfl
      · exact older other (along.filled other first (next ▸ before))
      · exact found rfl

variable (answers lastIndexed) in
theorem retryRange_along (row : range ∈ store.ranges.rows) (budget : Nat) :
    (retryRange store range lastIndexed budget (answers.blocks range.id)).Along answers lastIndexed store range := by
  refine foldUntil_induction
    (fun (rest : List Nat) (pass : RangePass) => pass.Along answers lastIndexed store range ∧
      ∃ count, rest = List.range' pass.next count ∧
        (0 < count → pass.next + count ≤ min range.toNumber lastIndexed + 1))
    (fun pass => pass.Along answers lastIndexed store range) ?_ ?_ ?_ _ _ ⟨?_, ?_⟩
  · rintro number rest pass ⟨along, count, numbers, inside⟩ more
    cases count with
    | zero => cases numbers
    | succ count =>
      rw [List.range'_succ, List.cons.injEq] at numbers
      obtain ⟨rfl, rfl⟩ := numbers
      have bound := inside (Nat.succ_pos count)
      obtain ⟨after, moved⟩ := retryNumber_along along row rfl (by omega) (by omega)
      refine ⟨after, count, by rw [moved more], ?_⟩
      rw [moved more]
      omega
  · rintro number rest pass ⟨along, count, numbers, inside⟩ _
    cases count with
    | zero => cases numbers
    | succ count =>
      rw [List.range'_succ, List.cons.injEq] at numbers
      obtain ⟨rfl, rfl⟩ := numbers
      have bound := inside (Nat.succ_pos count)
      exact (retryNumber_along along row rfl (by omega) (by omega)).1
  · exact fun pass running => running.1
  · exact ⟨.refl, rfl, le_rfl, fun number first last => absurd first (not_le.mpr last)⟩
  · refine ⟨min budget (min range.toNumber lastIndexed + 1 - range.fromNumber), ?_, ?_⟩
    · exact ext_getElem (by simp) (by simp)
    · simp only
      omega

structure RetryPass.Along (answers : PassAnswers) (start : Standard) (rest : List BlockRange) (pass : RetryPass) :
    Prop where
  steps : Relation.ReflTransGen (PassStep answers start.lastIndexed) start.store pass.store
  cursor : pass.lastIndexed = start.lastIndexed
  receipts : pass.receipts = start.receipts
  rows : ∀ range ∈ rest, range ∈ pass.store.ranges.rows
  distinct : (rest.map BlockRange.id).Nodup

theorem retryMissingRange_along (config : StandardConfig) {start : Standard} {pass : RetryPass}
    {rest : List BlockRange} (along : pass.Along answers start (range :: rest)) :
    (retryMissingRange config answers pass range).1.Along answers start rest := by
  have row := along.rows range mem_cons_self
  obtain ⟨ahead, distinct⟩ := nodup_cons.mp along.distinct
  rw [retryMissingRange]
  split
  · exact ⟨along.steps, along.cursor, along.receipts, fun other member => along.rows other (mem_cons_of_mem _ member),
      distinct⟩
  · have tried := retryRange_along answers pass.lastIndexed row pass.budget
    have others : ∀ other ∈ rest, other ∈ pass.store.ranges.rows ∧ other.id ≠ range.id := by
      intro other member
      refine ⟨along.rows other (mem_cons_of_mem _ member), ?_⟩
      intro same
      exact ahead (same ▸ mem_map_of_mem member)
    have steps : Relation.ReflTransGen (PassStep answers start.lastIndexed) start.store
        (retryRange pass.store range pass.lastIndexed pass.budget (answers.blocks range.id)).store := by
      refine along.steps.trans ?_
      rw [← along.cursor]
      exact tried.steps
    simp only
    split
    · next moved =>
      refine ⟨steps.tail (.advance ?_ (lt_of_le_of_ne tried.above (Ne.symm moved.1)) tried.filled), along.cursor,
        along.receipts, ?_, distinct⟩
      · rw [tried.ranges]
        exact row
      · intro other member
        obtain ⟨stored, differs⟩ := others other member
        exact MissingRanges.mem_rows_advanceMissingRange (by rw [tried.ranges]; exact stored) differs
    · refine ⟨steps, along.cursor, along.receipts, ?_, distinct⟩
      intro other member
      simp only [tried.ranges]
      exact (others other member).1

/-- A pass that is not due changes nothing. One that is writes step by step, and leaves the cursor and the remembered
block. -/
theorem retryMissing_cases (config : StandardConfig) (state : Standard) (answers : PassAnswers)
    (nothingPruned : state.store.prunedThrough = 0) :
    retryMissing config state answers = state ∨
      state.receipts.recorded = true ∧ state.missingRetryAt ≤ answers.now ∧
        Relation.ReflTransGen (PassStep answers state.lastIndexed) state.store
          (retryMissing config state answers).store ∧
        (retryMissing config state answers).lastIndexed = state.lastIndexed ∧
        ∃ recorded, (retryMissing config state answers).receipts = { state.receipts with recorded := recorded } := by
  rw [retryMissing]
  split
  · exact .inl rfl
  · next due =>
    rw [not_or, Bool.not_eq_true', Bool.not_eq_false, not_lt] at due
    refine .inr ⟨due.1, due.2, ?_⟩
    simp only
    split
    · exact ⟨.refl, rfl, _, rfl⟩
    · split
      · exact ⟨.refl, rfl, false, rfl⟩
      · rw [nothingPruned]
        obtain ⟨rows, distinct⟩ := getLowestMissingRanges_rows answers.sorter missingRetryBlocks
          (pausedMissing state.missingBackoff answers.now) state.store.ranges
        have along : RetryPass.Along answers state [] (foldUntil (retryMissingRange config answers)
            { state with
              missingRetryAt := answers.now + config.missingRetryInterval
              budget := missingRetryBlocks }
            (getLowestMissingRanges answers.sorter 0 missingRetryBlocks
              (pausedMissing state.missingBackoff answers.now) state.store.ranges)) := by
          refine foldUntil_induction (fun rest (pass : RetryPass) => pass.Along answers state rest)
            (fun pass => pass.Along answers state []) ?_ ?_ ?_ _ _ ⟨.refl, rfl, rfl, rows, distinct⟩
          · exact fun range rest pass along _ => retryMissingRange_along config along
          · intro range rest pass along _
            have after := retryMissingRange_along config along
            exact ⟨after.steps, after.cursor, after.receipts, by simp, by simp⟩
          · exact fun pass along => along
        exact ⟨along.steps, along.cursor, _, along.receipts⟩

end

end OpsIndexer.Indexing
