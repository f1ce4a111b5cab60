import OpsIndexer.Indexer.StandardCoverage

/-!
# Standard mode stores no broken link

Every path that moves the cursor past a block, or stores one beside others, holds its hashes against the blocks next to
it, with one exception: a block without receipts is moved past on its hash, whatever is stored at its number. What a
lost acknowledgement left there, on another fork, is then below the cursor and beside the next block.
-/

namespace OpsIndexer.Indexing

open Eth Db Lib.Runs

def HeadStore.Linked (store : HeadStore) (cursor : Nat) : Prop :=
  ∀ block ∈ store.blocks, ∀ above ∈ store.blocks, above.number = block.number + 1 → above.number ≤ cursor →
    above.parentHash = block.hash

/-- A block's hash determines its parent's. -/
def Chained (parentOf : Hash → Hash) (node : NodeAnswer) : Prop :=
  ∀ raw, node.block = some raw → raw.parentHash = parentOf raw.hash

def Unmixed (store : HeadStore) (receipts : ReceiptSkip) (node : Nat → NodeAnswer) (above : Nat) : Prop :=
  ∀ number raw, above < number → fetchBlockAndReceipts number (node number) = .noReceipts number raw →
    maxReceiptAttempts ≤ (receipts.counted number).attempts →
      ∀ block ∈ store.blocks, block.number = number → block.hash = raw.hash

def OneFork (parentOf : Hash → Hash) (state : Standard) : StandardEvent → Prop
  | .tick _ answers => (∀ number, Chained parentOf (answers.index.node number)) ∧
      Unmixed state.store state.receipts answers.index.node 0
  | .retry answers => ∀ id number, Chained parentOf (answers.blocks id number).node

/-! ## Stores of one chain -/

structure HeadStore.Served (startBlock : Nat) (parentOf : Hash → Hash) (store : HeadStore) : Prop where
  parents : ∀ block ∈ store.blocks, block.parentHash = parentOf block.hash
  hashes : ∀ block ∈ store.blocks, block.hash ≠ 0
  stored : ∀ block ∈ store.blocks, indexingFloor startBlock 0 < block.number
  recorded : ∀ number, store.ranges.Covers number → indexingFloor startBlock 0 < number
  pruned : store.prunedThrough = 0

section

variable {startBlock : Nat} {parentOf : Hash → Hash} {store next : HeadStore} {cursor : Nat}

theorem HeadStore.Linked.mono (linked : store.Linked cursor) {lower : Nat} (below : lower ≤ cursor)
    (fewer : ∀ block ∈ next.blocks, block ∈ store.blocks) : next.Linked lower := by
  intro block member above aboveMember follows atMost
  exact linked block (fewer block member) above (fewer above aboveMember) follows (atMost.trans below)

theorem HeadStore.Served.cut (served : store.Served startBlock parentOf) {cut : Nat} (left : store.CutAt next cut) :
    next.Served startBlock parentOf where
  parents := fun block member => served.parents block ((left.mem block).mp member).1
  hashes := fun block member => served.hashes block ((left.mem block).mp member).1
  stored := fun block member => served.stored block ((left.mem block).mp member).1
  recorded := fun number covered => served.recorded number (left.ranges ▸ covered)
  pruned := left.pruned.trans served.pruned

variable {number : Nat} {node : NodeAnswer}

theorem block_of_raw {raw : RawHead} (served : (fetchBlockAndReceipts number node).raw = some raw) :
    node.block = some raw ∧ raw.hash ≠ 0 := by
  rw [fetchBlockAndReceipts] at served
  cases block : node.block with
  | none =>
    rw [block] at served
    cases served
  | some head =>
    simp only [block] at served
    split at served
    · cases served
    · next known =>
      split at served <;> exact ⟨served, Option.some.inj served ▸ known⟩

theorem Touched.served (touched : Touched store (fetchBlockAndReceipts number node) next)
    (served : store.Served startBlock parentOf) (chained : Chained parentOf node)
    (above : indexingFloor startBlock 0 < number) :
    next.Served startBlock parentOf where
  parents := by
    intro block member
    rcases touched.of_mem member with old | ⟨raw, source, rfl⟩
    · exact served.parents block old
    · exact chained raw (block_of_raw source).1
  hashes := by
    intro block member
    rcases touched.of_mem member with old | ⟨raw, source, rfl⟩
    · exact served.hashes block old
    · exact (block_of_raw source).2
  stored := by
    intro block member
    rcases touched.of_mem member with old | ⟨raw, source, rfl⟩
    · exact served.stored block old
    · simpa [RawHead.toBlock] using above
  recorded := by
    intro covered member
    rcases touched.covers member with old | rfl
    · exact served.recorded covered old
    · simpa using above
  pruned := touched.pruned.trans served.pruned

end

/-! ## The loop -/

structure Loop.OnChain (startBlock : Nat) (parentOf : Hash → Hash) (node : Nat → NodeAnswer) (loop : Loop) : Prop where
  served : loop.store.Served startBlock parentOf
  linked : loop.store.Linked loop.lastIndexed
  cursor : ∀ block ∈ loop.store.blocks, block.number = loop.lastIndexed → block.hash = loop.prevHash
  floor : indexingFloor startBlock 0 ≤ loop.lastIndexed
  skipped : loop.receipts.skippedHash ≠ 0 → indexingFloor startBlock 0 < loop.receipts.skipped
  unmixed : Unmixed loop.store loop.receipts node loop.lastIndexed

structure Loop.Ended (startBlock : Nat) (parentOf : Hash → Hash) (loop : Loop) : Prop where
  served : loop.store.Served startBlock parentOf
  linked : loop.store.Linked loop.lastIndexed
  skipped : loop.receipts.skippedHash ≠ 0 → indexingFloor startBlock 0 < loop.receipts.skipped

section

variable {startBlock : Nat} {parentOf : Hash → Hash} {node : Nat → NodeAnswer} {loop next : Loop} {raw : RawHead}

theorem counted_block (receipts : ReceiptSkip) (number : Nat) : (receipts.counted number).block = number := by
  rw [ReceiptSkip.counted]
  split
  · next same => exact same
  · rfl

variable {receipts : ReceiptSkip} {number : Nat} {store : HeadStore} {block : HeadBlock}

theorem counted_attempts_other (other : receipts.block ≠ number) :
    (receipts.counted number).attempts = 1 := by
  rw [ReceiptSkip.counted, if_neg other]

theorem Touched.old {after : HeadStore} {answer : NodeAnswer}
    (touched : Touched store (fetchBlockAndReceipts number answer) after) (member : block ∈ after.blocks)
    (other : block.number ≠ number) : block ∈ store.blocks := by
  rcases touched.of_mem member with old | ⟨raw, source, rfl⟩
  · exact old
  · exact absurd (fetchBlockAndReceipts_number number answer) other

theorem Loop.OnChain.halts (onChain : loop.OnChain startBlock parentOf node)
    (chained : ∀ number, Chained parentOf (node number))
    (halts : Halts loop (fetchBlockAndReceipts (loop.lastIndexed + 1) (node (loop.lastIndexed + 1))) next) :
    next.Ended startBlock parentOf where
  served := halts.store.served onChain.served (chained _) (Nat.lt_succ_of_le onChain.floor)
  linked := by
    intro block member above aboveMember follows atMost
    rw [halts.cursor] at atMost
    exact onChain.linked block (halts.store.old member (by omega)) above (halts.store.old aboveMember (by omega))
      follows atMost
  skipped := by
    intro known
    obtain ⟨same, before⟩ := halts.skipped known
    exact same ▸ onChain.skipped before

theorem Loop.OnChain.moved_hash (onChain : loop.OnChain startBlock parentOf node)
    (moves : Moves loop (fetchBlockAndReceipts (loop.lastIndexed + 1) (node (loop.lastIndexed + 1))) raw next)
    (member : block ∈ next.store.blocks) (here : block.number = loop.lastIndexed + 1) :
    block.hash = raw.hash := by
  cases moves.passes with
  | stored receipts row =>
    obtain ⟨row, stored, same, hash⟩ := row
    rw [fetchBlockAndReceipts_number] at same
    rw [List.inj_on_of_nodup_map next.store.keyed member stored (here.trans same.symm), hash]
  | recorded unavailable attempts receipts store =>
    rw [fetchBlockAndReceipts_number] at unavailable attempts
    rw [store] at member
    exact onChain.unmixed _ raw (Nat.lt_succ_self _) unavailable attempts block member here

theorem Loop.OnChain.moves (onChain : loop.OnChain startBlock parentOf node)
    (chained : ∀ number, Chained parentOf (node number))
    (moves : Moves loop (fetchBlockAndReceipts (loop.lastIndexed + 1) (node (loop.lastIndexed + 1))) raw next) :
    next.OnChain startBlock parentOf node := by
  have cursor : next.lastIndexed = loop.lastIndexed + 1 := by rw [moves.cursor, fetchBlockAndReceipts_number]
  have served := moves.store.served onChain.served (chained _) (Nat.lt_succ_of_le onChain.floor)
  refine ⟨served, ?_, ?_, cursor ▸ Nat.le_succ_of_le onChain.floor, ?_, ?_⟩
  · intro block member above aboveMember follows atMost
    have blockOld := moves.store.old member (by omega)
    by_cases top : above.number = loop.lastIndexed + 1
    · -- the new link: the block below has the hash that the served block was held against
      have below : block.hash = loop.prevHash := onChain.cursor block blockOld (by omega)
      have known : loop.prevHash ≠ 0 := below ▸ onChain.served.hashes block blockOld
      rw [served.parents above aboveMember, onChain.moved_hash moves aboveMember top, below,
        ← moves.chained.resolve_left known, chained _ raw (block_of_raw moves.served).1]
    · exact onChain.linked block blockOld above (moves.store.old aboveMember top) follows (by omega)
  · intro block member here
    rw [moves.prevHash]
    exact onChain.moved_hash moves member (here.trans cursor)
  · intro known
    cases moves.passes with
    | stored receipts row =>
      rw [receipts] at known ⊢
      exact onChain.skipped known
    | recorded unavailable attempts receipts store =>
      rw [receipts, fetchBlockAndReceipts_number]
      exact Nat.lt_succ_of_le onChain.floor
  · intro number head above unavailable attempts block member same
    rw [cursor] at above
    have old := moves.store.old member (by omega)
    cases moves.passes with
    | stored receipts row =>
      rw [receipts] at attempts
      exact onChain.unmixed number head (by omega) unavailable attempts block old same
    | recorded _ _ receipts store =>
      -- the attempts start again at the next block
      rw [receipts, fetchBlockAndReceipts_number, counted_attempts_other (by rw [counted_block]; omega)] at attempts
      exact absurd attempts (by decide)

theorem Anchored.onChain {lastIndexed : Nat}
    (anchored : Anchored startBlock store lastIndexed receipts loop.lastIndexed loop.prevHash)
    (served : store.Served startBlock parentOf) (linked : store.Linked lastIndexed)
    (skipped : receipts.skippedHash ≠ 0 → indexingFloor startBlock 0 < receipts.skipped)
    (unmixed : Unmixed store receipts node 0) (sameStore : loop.store = store)
    (sameReceipts : loop.receipts = receipts) :
    loop.OnChain startBlock parentOf node := by
  subst sameStore sameReceipts
  have rest : Unmixed loop.store loop.receipts node loop.lastIndexed :=
    fun number raw above => unmixed number raw ((Nat.zero_le _).trans_lt above)
  generalize hash : loop.prevHash = prevHash at anchored
  generalize first : loop.lastIndexed = fromBlock at anchored
  cases anchored with
  | floor low none cursor =>
    have same : fromBlock = indexingFloor startBlock 0 := by
      rcases low with same | ⟨zero, origin⟩
      · rw [same, served.pruned]
      · rw [zero, origin]
        rfl
    refine ⟨served, ?_, ?_, by omega, skipped, rest⟩
    · intro block member above aboveMember follows atMost
      have higher := served.stored above aboveMember
      omega
    · intro block member here
      have higher := served.stored block member
      omega
  | @stored block member below highest cursor =>
    have higher := served.stored block member
    refine ⟨served, linked.mono (by omega) fun _ same => same, ?_, by omega, skipped, rest⟩
    intro other otherMember here
    rw [hash, List.inj_on_of_nodup_map loop.store.keyed otherMember member (here.trans first)]
  | remembered absent known remembered =>
    have higher := skipped remembered
    refine ⟨served, linked.mono first.le fun _ same => same, ?_, by omega, skipped, rest⟩
    intro block member here
    exact absurd ⟨block, member, here.trans first⟩ absent

end

/-! ## Steps -/

structure Standard.OnChain (config : StandardConfig) (parentOf : Hash → Hash) (state : Standard) : Prop where
  served : state.store.Served config.startBlock parentOf
  linked : state.store.Linked state.lastIndexed
  skipped : state.receipts.skippedHash ≠ 0 → indexingFloor config.startBlock 0 < state.receipts.skipped

section

variable {config : StandardConfig} {parentOf : Hash → Hash} {state : Standard}

theorem dropAbove_counted (receipts : ReceiptSkip) (lastIndexed number : Nat) :
    ((receipts.dropAbove lastIndexed).counted number).attempts = (receipts.counted number).attempts := by
  rw [ReceiptSkip.dropAbove]
  split
  · simp only [ReceiptSkip.counted]
    split <;> rfl
  · rfl

variable {lastIndexed number : Nat} {store next : HeadStore} {raw : RawHead} {answers : PassAnswers}

theorem dropAbove_skipped {receipts : ReceiptSkip} (known : (receipts.dropAbove lastIndexed).skippedHash ≠ 0) :
    receipts.dropAbove lastIndexed = receipts := by
  rw [ReceiptSkip.dropAbove] at known ⊢
  split
  · next high =>
    rw [if_pos high] at known
    exact absurd rfl known
  · rfl

theorem Standard.OnChain.start {start : Standard} (onChain : state.OnChain config parentOf)
    (starts : TickStart state start) :
    start.OnChain config parentOf ∧ start.receipts = state.receipts ∧
      ∀ block ∈ start.store.blocks, block ∈ state.store.blocks := by
  cases starts with
  | same => exact ⟨onChain, rfl, fun _ member => member⟩
  | @reverted store fromBlock stored positive below left =>
    have fewer : ∀ block ∈ store.blocks, block ∈ state.store.blocks := fun block member => ((left.mem block).mp member).1
    exact ⟨⟨onChain.served.cut left, onChain.linked.mono (by simp only; omega) fewer, onChain.skipped⟩, rfl, fewer⟩

theorem Standard.OnChain.indexHead (onChain : state.OnChain config parentOf) (latest : Nat) {answers : IndexAnswers}
    (chained : ∀ number, Chained parentOf (answers.node number))
    (unmixed : Unmixed state.store state.receipts answers.node 0) :
    (indexHead config state latest answers).OnChain config parentOf := by
  rw [indexHead_eq]
  have skipped : (state.receipts.dropAbove state.lastIndexed).skippedHash ≠ 0 →
      indexingFloor config.startBlock 0 < (state.receipts.dropAbove state.lastIndexed).skipped := by
    intro known
    have same := dropAbove_skipped known
    rw [same] at known ⊢
    exact onChain.skipped known
  rcases indexPrefetched_cases config.startBlock state.store state.lastIndexed latest state.receipts answers with
    ⟨loop, ended, store, cursor, receipts⟩ | ⟨loop, count, ended, store, receipts, _, anchored⟩
  · simp only [ended, store, cursor, receipts]
    exact ⟨onChain.served, onChain.linked, skipped⟩
  · have counted : Unmixed state.store (state.receipts.dropAbove state.lastIndexed) answers.node 0 := by
      intro number raw above unavailable attempts
      rw [dropAbove_counted] at attempts
      exact unmixed number raw above unavailable attempts
    have first := anchored.onChain onChain.served onChain.linked skipped counted store receipts
    have last : Loop.Ended config.startBlock parentOf (foldUntil (indexPrefetchedBlock answers.loop) loop
        (fetched answers.node (loop.lastIndexed + 1) count)) := by
      refine foldUntil_fetched (fun loop => loop.OnChain config.startBlock parentOf answers.node)
        (fun loop => loop.Ended config.startBlock parentOf) ?_ ?_ ?_ count first
      · exact fun loop raw next held moves => held.moves chained moves
      · exact fun loop next held halts => held.halts chained halts
      · exact fun loop held => ⟨held.served, held.linked, held.skipped⟩
    rw [← ended] at last
    exact ⟨last.served, last.linked, last.skipped⟩

theorem Standard.OnChain.tick (onChain : state.OnChain config parentOf) (latest : Nat) (answers : TickAnswers)
    (oneFork : OneFork parentOf state (.tick latest answers)) :
    (standardTick config state latest answers).OnChain config parentOf := by
  rcases standardTick_cases config state latest answers with
    same | ⟨store, fromBlock, cut, same, positive, below, reverted⟩ | ⟨start, starts, same⟩
  · rw [same]
    exact onChain
  · rw [same]
    have left := reverted.left
    exact ⟨onChain.served.cut left, onChain.linked.mono le_rfl fun block member => ((left.mem block).mp member).1,
      onChain.skipped⟩
  · rw [same]
    obtain ⟨first, receipts, fewer⟩ := onChain.start starts
    refine first.indexHead latest oneFork.1 ?_
    intro number raw above unavailable attempts block member here
    exact oneFork.2 number raw above unavailable (receipts ▸ attempts) block (fewer block member) here

theorem fitsBetween_below (fits : fitsBetween store number raw = true) {below : HeadBlock}
    (member : below ∈ store.blocks) (next : number = below.number + 1) :
    raw.parentHash = below.hash := by
  have found : store.getBlock (number - 1) = some below := HeadStore.getBlock_eq_some.mpr ⟨member, by omega⟩
  simp only [fitsBetween, found, Option.all_some, Bool.and_eq_true, Bool.or_eq_true, decide_eq_true_eq] at fits
  rcases fits.1 with zero | same
  · omega
  · exact same.symm

theorem fitsBetween_above (fits : fitsBetween store number raw = true) {above : HeadBlock}
    (member : above ∈ store.blocks) (next : above.number = number + 1) :
    above.parentHash = raw.hash := by
  have found : store.getBlock (number + 1) = some above := HeadStore.getBlock_eq_some.mpr ⟨member, next⟩
  simp only [fitsBetween, found, Option.all_some, Bool.and_eq_true, decide_eq_true_eq] at fits
  exact fits.2

theorem PassStep.onChain (step : PassStep answers lastIndexed store next)
    (chained : ∀ id number, Chained parentOf (answers.blocks id number).node)
    (served : store.Served config.startBlock parentOf) (linked : store.Linked lastIndexed) :
    next.Served config.startBlock parentOf ∧ next.Linked lastIndexed := by
  cases step with
  | advance row moved filled =>
    refine ⟨⟨served.parents, served.hashes, served.stored, ?_, served.pruned⟩, linked⟩
    exact fun number covered =>
      served.recorded number (MissingRanges.covers_of_advanceMissingRange row moved.le covered)
  | @fill number id raw below recorded fresh source fits =>
    have higher := served.recorded number recorded
    obtain ⟨given, hash⟩ := block_of_raw (by rw [source]; rfl)
    have parent := chained id number raw given
    have added (block : HeadBlock) : block ∈ (store.addBlock (raw.toBlock number)).blocks ↔
        block ∈ store.blocks ∨ block = raw.toBlock number := HeadStore.mem_addBlock fresh
    refine ⟨⟨?_, ?_, ?_, ?_, ?_⟩, ?_⟩
    · intro block member
      rcases (added block).mp member with old | rfl
      · exact served.parents block old
      · exact parent
    · intro block member
      rcases (added block).mp member with old | rfl
      · exact served.hashes block old
      · exact hash
    · intro block member
      rcases (added block).mp member with old | rfl
      · exact served.stored block old
      · exact higher
    · intro other covered
      rw [HeadStore.ranges_addBlock] at covered
      exact served.recorded other covered
    · rw [HeadStore.prunedThrough_addBlock]
      exact served.pruned
    · intro block member above aboveMember follows atMost
      rcases (added block).mp member with blockOld | rfl
      · rcases (added above).mp aboveMember with aboveOld | rfl
        · exact linked block blockOld above aboveOld follows atMost
        · exact fitsBetween_below fits blockOld follows
      · rcases (added above).mp aboveMember with aboveOld | rfl
        · exact fitsBetween_above fits aboveOld follows
        · exact absurd follows (Nat.succ_ne_self _).symm

theorem onChain_of_steps (steps : Relation.ReflTransGen (PassStep answers lastIndexed) store next)
    (chained : ∀ id number, Chained parentOf (answers.blocks id number).node)
    (served : store.Served config.startBlock parentOf) (linked : store.Linked lastIndexed) :
    next.Served config.startBlock parentOf ∧ next.Linked lastIndexed := by
  induction steps with
  | refl => exact ⟨served, linked⟩
  | tail _ step ih => exact step.onChain chained ih.1 ih.2

theorem Standard.OnChain.retry (onChain : state.OnChain config parentOf) (answers : PassAnswers)
    (oneFork : OneFork parentOf state (.retry answers)) :
    (retryMissing config state answers).OnChain config parentOf := by
  rcases retryMissing_cases config state answers onChain.served.pruned with
    same | ⟨_, _, steps, cursor, flag, receipts⟩
  · rw [same]
    exact onChain
  · have after := onChain_of_steps steps oneFork onChain.served onChain.linked
    refine ⟨after.1, cursor ▸ after.2, ?_⟩
    rw [receipts]
    exact onChain.skipped

/-! ## Runs -/

/-- From an empty store, in a run whose skipped blocks are the stored ones where blocks are stored, every stored block
at or below the cursor extends the stored block below it. -/
theorem standardMode_linked (config : StandardConfig) (parentOf : Hash → Hash) (lastIndexed : Nat) (recorded : Bool)
    (missingRetryAt : Nat) (events : List StandardEvent)
    (oneFork : Admits (standardStep config) ⟨.empty, lastIndexed, { recorded := recorded }, missingRetryAt, []⟩
      (OneFork parentOf) events) {past : List StandardEvent} (reached : past <+: events) :
    let state := run (standardStep config) ⟨.empty, lastIndexed, { recorded := recorded }, missingRetryAt, []⟩ past
    state.store.Linked state.lastIndexed := by
  have invariant := oneFork.invariant (fun state => state.OnChain config parentOf) ?_ ?_ reached
  · exact invariant.linked
  · refine ⟨⟨by simp [HeadStore.empty], by simp [HeadStore.empty], by simp [HeadStore.empty], ?_, rfl⟩, ?_, ?_⟩
    · rintro number ⟨row, member, _⟩
      cases member
    · intro block member
      cases member
    · intro known
      exact absurd rfl known
  · intro state event onChain allowed
    cases event with
    | tick latest answers => exact onChain.tick latest answers allowed
    | retry answers => exact onChain.retry answers allowed

end

theorem standardMode_linked_twoBlocks :
    let state := run (standardStep singleFork) ⟨.empty, 0, { recorded := true }, 10, []⟩
      [servedTick 2 (servedChain 1 2 0) .ok .ok]
    state.store.Linked state.lastIndexed := by
  refine standardMode_linked singleFork (fun hash => hash - 1) 0 true 10 _ ?_ List.prefix_rfl
  refine admits_cons ⟨?_, ?_⟩ (admits_nil _)
  · intro number raw served
    by_cases inside : number ≤ 2
    · interval_cases number <;> cases served <;> decide
    · simp [servedChain, inside] at served
  · intro number raw _ _ _ block member
    cases member

/-- The write of block 1 commits and its acknowledgement is lost. The chain then has another block 1, without receipts;
once it is recorded the loop moves past it, and stores the rest of that chain on the block of the other fork, in one
tick past the depth of the reorg check. -/
def mixedRun : List StandardEvent :=
  servedTick 1 (servedChain 1 1 0) .lost .ok :: List.replicate 9 (servedTick 1 (servedChain 101 12 2) .ok .ok) ++
    List.replicate 2 (servedTick 12 (servedChain 101 12 2) .ok .ok)

theorem mixedRun_not_linked :
    ¬(run (standardStep singleFork) freshStandard mixedRun).store.Linked
      (run (standardStep singleFork) freshStandard mixedRun).lastIndexed := by
  intro linked
  have link := linked ⟨1, 2, 1⟩ (by decide +kernel) ⟨2, 103, 102⟩ (by decide +kernel) (by decide) (by decide +kernel)
  revert link
  decide

end OpsIndexer.Indexing
