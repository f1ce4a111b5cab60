import OpsIndexer.Indexer.StandardSteps

/-!
# Standard mode skips no block silently

Whatever the node and the store answer, the blocks up to where the next tick starts are stored or recorded as missing,
with two exceptions. A revert that takes blocks and then fails leaves the cursor, and where the cursor is a block that
was skipped the remembered hash stands for blocks that are gone. A retry pass that runs while blocks are gone below a
recorded one stores that one above them.
-/

namespace OpsIndexer.Indexing

open Eth Db Lib.Runs

def Standard.fromBlock (config : StandardConfig) (state : Standard) : Nat :=
  (anchor config.startBlock state.store state.lastIndexed (state.receipts.dropAbove state.lastIndexed)
    .answered).fromBlock

def HeadStore.KeptTo (store : HeadStore) (startBlock last : Nat) : Prop :=
  ∀ number, indexingFloor startBlock store.prunedThrough < number → number ≤ last → store.Kept number

def Standard.Covered (config : StandardConfig) (state : Standard) : Prop :=
  state.store.KeptTo config.startBlock (state.fromBlock config)

def Standard.Remembers (state : Standard) : Prop :=
  state.receipts.skipped = state.lastIndexed ∧ state.receipts.skippedHash ≠ 0

/-- At a remembered block no delete at or below the cursor fails, and a retry pass runs only while nothing is gone
below the recorded blocks it may store. -/
def Careful (config : StandardConfig) (state : Standard) : StandardEvent → Prop
  | .tick _ answers => state.Remembers → ∀ number ≤ state.lastIndexed, answers.revert.deletes number = .ok
  | .retry answers => state.receipts.recorded = true → state.missingRetryAt ≤ answers.now →
      ∀ recorded ≤ state.lastIndexed, state.store.ranges.Covers recorded →
        ∀ number, indexingFloor config.startBlock state.store.prunedThrough < number → number < recorded →
          state.store.Kept number

/-! ## Where a tick starts -/

theorem dropAbove_remembers {receipts : ReceiptSkip} {lastIndexed : Nat}
    (skipped : (receipts.dropAbove lastIndexed).skipped = lastIndexed)
    (hash : (receipts.dropAbove lastIndexed).skippedHash ≠ 0) :
    receipts.skipped = lastIndexed ∧ receipts.skippedHash ≠ 0 := by
  rw [ReceiptSkip.dropAbove] at skipped hash
  split at hash
  · exact absurd rfl hash
  · next low =>
    rw [if_neg low] at skipped
    exact ⟨skipped, hash⟩

section

variable {config : StandardConfig} {state : Standard}

theorem Standard.anchored (config : StandardConfig) (state : Standard) :
    ∃ hash, Anchored config.startBlock state.store state.lastIndexed (state.receipts.dropAbove state.lastIndexed)
      (state.fromBlock config) hash :=
  ⟨_, anchor_anchored config.startBlock state.store state.lastIndexed (state.receipts.dropAbove state.lastIndexed)⟩

theorem Standard.stored_le_fromBlock (config : StandardConfig) {number : Nat} (stored : state.store.Stored number)
    (below : number ≤ state.lastIndexed) : number ≤ state.fromBlock config := by
  obtain ⟨hash, anchored⟩ := state.anchored config
  exact anchored.stored_le stored below

theorem Standard.fromBlock_cases (config : StandardConfig) (state : Standard) :
    state.fromBlock config ≤ indexingFloor config.startBlock state.store.prunedThrough ∨
      state.fromBlock config ≤ state.lastIndexed ∧
        (state.store.Stored (state.fromBlock config) ∨ state.fromBlock config = state.lastIndexed ∧ state.Remembers) := by
  obtain ⟨hash, anchored⟩ := state.anchored config
  generalize state.fromBlock config = fromBlock at anchored ⊢
  cases anchored with
  | floor low none cursor =>
    left
    rcases low with rfl | ⟨rfl, _⟩
    · exact le_rfl
    · exact Nat.zero_le _
  | stored member below highest cursor => exact .inr ⟨below, .inl ⟨_, member, rfl⟩⟩
  | remembered absent skipped known => exact .inr ⟨le_rfl, .inr ⟨rfl, dropAbove_remembers skipped known⟩⟩

theorem Standard.Remembers.fromBlock (config : StandardConfig) (remembers : state.Remembers) (positive : 0 < state.lastIndexed) :
    state.fromBlock config = state.lastIndexed := by
  have kept : state.receipts.dropAbove state.lastIndexed = state.receipts :=
    if_neg (not_lt.mpr remembers.1.le)
  obtain ⟨hash, anchored⟩ := state.anchored config
  rw [kept] at anchored
  generalize state.fromBlock config = fromBlock at anchored ⊢
  cases anchored with
  | floor low none cursor => exact absurd (cursor remembers.1 remembers.2) positive.ne'
  | stored member below highest cursor => exact cursor remembers.1 remembers.2
  | remembered absent skipped known => rfl

/-! ## Ticks -/

theorem Standard.covered_of_cursor (kept : state.store.KeptTo config.startBlock state.lastIndexed) :
    state.Covered config := by
  intro number above below
  rcases state.fromBlock_cases config with low | ⟨low, _⟩
  · exact absurd (below.trans low) (not_le.mpr above)
  · exact kept number above (below.trans low)

variable {store : HeadStore} {answers : PassAnswers} {lastIndexed : Nat}

/-- A failed revert leaves the blocks below its cut, and the next tick starts at or below the highest of them. -/
theorem Standard.Covered.revertFailed {fromBlock cut : Nat} {deletes : Nat → Outcome} (covered : state.Covered config)
    (positive : 0 < state.lastIndexed) (reverted : Reverted state.store fromBlock deletes (store, false) cut)
    (careful : state.Remembers → ∀ number ≤ state.lastIndexed, deletes number = .ok) :
    { state with store := store : Standard }.Covered config := by
  intro number above below
  have left := reverted.left
  rw [left.pruned] at above
  rcases Standard.fromBlock_cases config { state with store := store } with low | ⟨low, stored | ⟨same, remembers⟩⟩
  · rw [left.pruned] at low
    exact absurd (below.trans low) (not_le.mpr above)
  · obtain ⟨before, uncut⟩ := left.stored.mp stored
    have reach := Standard.stored_le_fromBlock config before low
    exact left.kept (covered number above (below.trans reach)) (below.trans_lt uncut)
  · have here : Standard.Remembers state := remembers
    have reach := here.fromBlock config positive
    have kept := covered number above (reach ▸ same ▸ below)
    have inside : number ≤ state.lastIndexed := same ▸ below
    rcases reverted.failed rfl with whole | ⟨failed, _, atMost, refused⟩
    · rcases kept with stored | recorded
      · exact left.kept (.inl stored) (whole number stored)
      · exact .inr (left.ranges ▸ recorded)
    · -- the delete that failed is one above the cursor
      have high : state.lastIndexed < failed := by
        by_contra low
        exact refused (careful here failed (not_lt.mp low))
      exact left.kept kept (by omega)

theorem Standard.Covered.start {start : Standard} (covered : state.Covered config) (starts : TickStart state start) :
    start.Covered config ∧ start.store.prunedThrough = state.store.prunedThrough := by
  cases starts with
  | same => exact ⟨covered, rfl⟩
  | @reverted store fromBlock stored positive below left =>
    refine ⟨?_, left.pruned⟩
    intro number above atMost
    rw [left.pruned] at above
    have inside : number < fromBlock := by
      rcases Standard.fromBlock_cases config { state with store := store, lastIndexed := fromBlock - 1 } with low | low
      · rw [left.pruned] at low
        exact absurd (atMost.trans low) (not_le.mpr above)
      · have reach := atMost.trans low.1
        simp only at reach
        omega
    have reach := Standard.stored_le_fromBlock config stored below
    exact left.kept (covered number above (inside.le.trans reach)) inside

section

variable {startBlock : Nat} {loop next : Loop} {block : FetchedBlock}

theorem Halts.keptTo (halts : Halts loop block next) (after : block.number = loop.lastIndexed + 1)
    (kept : loop.store.KeptTo startBlock loop.lastIndexed) : next.store.KeptTo startBlock next.lastIndexed := by
  intro number above below
  rw [halts.store.pruned] at above
  rw [halts.cursor] at below
  exact halts.store.kept (kept number above below) (by omega)

theorem Moves.keptTo {raw : RawHead} (moves : Moves loop block raw next) (after : block.number = loop.lastIndexed + 1)
    (kept : loop.store.KeptTo startBlock loop.lastIndexed) : next.store.KeptTo startBlock next.lastIndexed := by
  intro number above below
  rw [moves.store.pruned] at above
  rw [moves.cursor] at below
  rcases Nat.lt_or_eq_of_le below with lower | rfl
  · exact moves.store.kept (kept number above (by omega)) lower
  · cases moves.passes with
    | stored receipts row =>
      obtain ⟨row, member, same, _⟩ := row
      exact .inl ⟨row, member, same⟩
    | recorded unavailable attempts receipts store =>
      rw [store]
      exact .inr (covers_requeueMissingBlock.mpr (.inr rfl))

end

/-- The loop stores or records every block it moves the cursor to, and takes blocks from above the cursor only. -/
theorem Standard.Covered.indexHead (covered : state.Covered config) (latest : Nat) (answers : IndexAnswers) :
    (indexHead config state latest answers).Covered config ∧
      (indexHead config state latest answers).store.prunedThrough = state.store.prunedThrough := by
  rw [indexHead_eq]
  rcases indexPrefetched_cases config.startBlock state.store state.lastIndexed latest state.receipts answers with
    ⟨loop, ended, store, cursor, receipts⟩ | ⟨loop, count, ended, store, receipts, cursor, anchored⟩
  · simp only [ended, store, cursor, receipts, and_true]
    have twice : (state.receipts.dropAbove state.lastIndexed).dropAbove state.lastIndexed =
        state.receipts.dropAbove state.lastIndexed := by
      simp only [ReceiptSkip.dropAbove]
      split <;> simp_all
    simpa only [Standard.Covered, Standard.fromBlock, twice] using covered
  · let holds (loop : Loop) : Prop :=
      loop.store.prunedThrough = state.store.prunedThrough ∧ loop.store.KeptTo config.startBlock loop.lastIndexed
    have first : holds loop := ⟨by rw [store], by rw [store, cursor]; exact covered⟩
    have last : holds (foldUntil (indexPrefetchedBlock answers.loop) loop
        (fetched answers.node (loop.lastIndexed + 1) count)) := by
      refine foldUntil_fetched holds holds ?_ ?_ (fun _ held => held) count first
      · intro loop raw next held moves
        exact ⟨moves.store.pruned.trans held.1, moves.keptTo (by simp) held.2⟩
      · intro loop next held halts
        exact ⟨halts.store.pruned.trans held.1, halts.keptTo (by simp) held.2⟩
    rw [← ended] at last
    exact ⟨Standard.covered_of_cursor last.2, last.1⟩

theorem Standard.Covered.tick (covered : state.Covered config) (latest : Nat) (answers : TickAnswers)
    (careful : Careful config state (.tick latest answers)) :
    (standardTick config state latest answers).Covered config ∧
      (standardTick config state latest answers).store.prunedThrough = state.store.prunedThrough := by
  rcases standardTick_cases config state latest answers with
    same | ⟨store, fromBlock, cut, same, positive, below, reverted⟩ | ⟨start, starts, same⟩
  · rw [same]
    exact ⟨covered, rfl⟩
  · rw [same]
    exact ⟨covered.revertFailed (positive.trans_le below) reverted careful, reverted.left.pruned⟩
  · rw [same]
    obtain ⟨first, pruned⟩ := covered.start starts
    obtain ⟨last, kept⟩ := first.indexHead latest answers.index
    exact ⟨last, kept.trans pruned⟩

/-! ## Retries -/

structure Filled (lastIndexed : Nat) (store next : HeadStore) : Prop where
  kept : ∀ number, store.Kept number → next.Kept number
  recorded : ∀ number, next.ranges.Covers number → store.ranges.Covers number
  stored : ∀ number, next.Stored number → store.Stored number ∨ number ≤ lastIndexed ∧ store.ranges.Covers number
  pruned : next.prunedThrough = store.prunedThrough

theorem PassStep.filled {next : HeadStore} (step : PassStep answers lastIndexed store next) :
    Filled lastIndexed store next := by
  cases step with
  | fill below recorded fresh served fits =>
    refine ⟨?_, ?_, ?_, HeadStore.prunedThrough_addBlock _ _⟩
    · intro number kept
      exact kept.imp (fun stored => HeadStore.stored_addBlock.mpr (.inl stored)) (by simp)
    · intro number covered
      rwa [HeadStore.ranges_addBlock] at covered
    · intro number stored
      refine (HeadStore.stored_addBlock.mp stored).imp_right ?_
      rintro rfl
      exact ⟨below, recorded⟩
  | advance row moved filled =>
    refine ⟨?_, ?_, fun number stored => .inl stored, rfl⟩
    · rintro number (stored | covered)
      · exact .inl stored
      · rcases MissingRanges.covers_advanceMissingRange row moved covered with still | ⟨first, last⟩
        · exact .inr still
        · exact .inl (filled number first last)
    · exact fun number covered => MissingRanges.covers_of_advanceMissingRange row moved.le covered

theorem filled_of_steps {next : HeadStore} (steps : Relation.ReflTransGen (PassStep answers lastIndexed) store next) :
    Filled lastIndexed store next := by
  induction steps with
  | refl => exact ⟨fun _ kept => kept, fun _ covered => covered, fun _ stored => .inl stored, rfl⟩
  | tail _ step ih =>
    have filled := step.filled
    refine ⟨fun number kept => filled.kept number (ih.kept number kept),
      fun number covered => ih.recorded number (filled.recorded number covered), ?_, filled.pruned.trans ih.pruned⟩
    intro number stored
    rcases filled.stored number stored with before | ⟨below, covered⟩
    · exact ih.stored number before
    · exact .inr ⟨below, ih.recorded number covered⟩

theorem Standard.Covered.retry (covered : state.Covered config) (nothingPruned : state.store.prunedThrough = 0)
    (answers : PassAnswers) (careful : Careful config state (.retry answers)) :
    (retryMissing config state answers).Covered config ∧
      (retryMissing config state answers).store.prunedThrough = state.store.prunedThrough := by
  rcases retryMissing_cases config state answers nothingPruned with
    same | ⟨recorded, due, steps, cursor, flag, receipts⟩
  · rw [same]
    exact ⟨covered, rfl⟩
  · have filled := filled_of_steps steps
    refine ⟨?_, filled.pruned⟩
    intro number above below
    rw [filled.pruned] at above
    apply filled.kept
    rcases Standard.fromBlock_cases config (retryMissing config state answers) with
      low | ⟨low, stored | ⟨same, remembers⟩⟩
    · rw [filled.pruned] at low
      exact absurd (below.trans low) (not_le.mpr above)
    · rcases filled.stored _ stored with before | ⟨atMost, covers⟩
      · have reach := Standard.stored_le_fromBlock config before (cursor ▸ low)
        exact covered number above (below.trans reach)
      · rcases Nat.lt_or_eq_of_le below with lower | rfl
        · exact careful recorded due _ atMost covers number above lower
        · exact .inr covers
    · have here : state.Remembers := by
        rw [Standard.Remembers, receipts, cursor] at remembers
        exact remembers
      rw [same, cursor] at below
      have reach := here.fromBlock config (by omega)
      exact covered number above (reach ▸ below)

/-! ## Runs -/

/-- In a run whose steps are careful no block is skipped silently, in any state it reaches. -/
theorem standardMode_covered (config : StandardConfig) (start : Standard) (events : List StandardEvent)
    (nothingPruned : start.store.prunedThrough = 0) (covered : start.Covered config)
    (careful : Admits (standardStep config) start (Careful config) events) {past : List StandardEvent}
    (reached : past <+: events) : (run (standardStep config) start past).Covered config := by
  have invariant := careful.invariant (fun state => state.Covered config ∧ state.store.prunedThrough = 0)
    ⟨covered, nothingPruned⟩ ?_ reached
  · exact invariant.1
  · rintro state event ⟨covered, nothingPruned⟩ allowed
    cases event with
    | tick latest answers =>
      obtain ⟨after, pruned⟩ := covered.tick latest answers allowed
      exact ⟨after, pruned.trans nothingPruned⟩
    | retry answers =>
      obtain ⟨after, pruned⟩ := covered.retry nothingPruned answers allowed
      exact ⟨after, pruned.trans nothingPruned⟩

end

instance (state : Standard) : Decidable state.Remembers :=
  inferInstanceAs (Decidable (_ ∧ _))

def freshStandard : Standard where
  store := HeadStore.empty
  lastIndexed := 0
  receipts := { recorded := true }
  missingRetryAt := 10

def servedTick (latest : Nat) (node : Nat → NodeAnswer) (writes : Outcome) (deletes : Outcome) : StandardEvent :=
  .tick latest
    { reorg := ⟨fun _ => true, fun number => (node number).block.map RawHead.hash⟩
      revert := ⟨true, fun _ => deletes⟩
      index :=
        { reads := .answered
          node := node
          loop := ⟨fun _ => ⟨true, writes⟩, fun _ => .ok, none, true, fun _ => deletes⟩ } }

def servedChain (offset height receipts : Nat) (number : Nat) : NodeAnswer where
  block := if number ≤ height then some ⟨.ofNat 256 (number + offset), .ofNat 256 (number + offset - 1), 1⟩ else none
  receipts := receipts ≤ number

def singleFork : StandardConfig := ⟨1, 1, 10⟩

theorem standardMode_covered_afterLostRevert :
    (run (standardStep singleFork) freshStandard
      [servedTick 1 (servedChain 1 1 0) .ok .ok, servedTick 2 (servedChain 11 2 0) .ok .lost]).Covered singleFork := by
  refine standardMode_covered singleFork freshStandard _ rfl ?_ ?_ List.prefix_rfl
  · intro number above below
    exact absurd (below.trans (by decide)) (not_le.mpr above)
  · refine admits_cons ?_ (admits_cons ?_ (admits_nil _))
    · intro remembers
      exact absurd remembers (by decide)
    · intro remembers
      exact absurd remembers (by decide +kernel)

/-- Block 2 has no receipts until it is recorded and skipped. The chain then shows another block 1, whose revert
commits and reports an error, and goes back: block 3 is stored on the remembered hash of block 2, and block 1 is
neither stored nor recorded. -/
def forgottenRun : List StandardEvent :=
  servedTick 1 (servedChain 1 1 0) .ok .ok :: List.replicate 10 (servedTick 2 (servedChain 1 2 3) .ok .ok) ++
    [servedTick 2 (servedChain 11 2 0) .ok .lost, servedTick 3 (servedChain 1 3 0) .ok .ok]

theorem forgottenRun_not_covered :
    freshStandard.Covered singleFork ∧
      ¬(run (standardStep singleFork) freshStandard forgottenRun).Covered singleFork := by
  constructor
  · intro number above below
    exact absurd (below.trans (by decide)) (not_le.mpr above)
  · intro covered
    have kept := covered 1 (by decide +kernel) (by decide +kernel)
    revert kept
    decide +kernel

end OpsIndexer.Indexing
