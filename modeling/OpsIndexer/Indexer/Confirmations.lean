import OpsIndexer.Indexer.RealtimeCoverage

/-!
# The confirmation distance

What a head makes realtime store, record and skip is at or below the head less the confirmation blocks, when there are
that many. Below that the subtraction wraps, and the safe block is far above the head.
-/

namespace OpsIndexer.Indexing

open Eth Db Lib.Runs List

def Watched.since (before after : Watched) : List StoreOp :=
  after.history.take (after.history.length - before.history.length)

theorem Watched.since_eq {before after : Watched} {ops : List StoreOp} (history : after.history = ops ++ before.history) :
    before.since after = ops := by
  rw [Watched.since, history, length_append, Nat.add_sub_cancel, take_left']
  rfl

/-! ## What is done -/

def Watched.Grows (allowed : StoreOp → Prop) (before after : Watched) : Prop :=
  ∃ ops, after.history = ops ++ before.history ∧ ∀ op ∈ ops, allowed op

namespace Watched.Grows

variable {allowed : StoreOp → Prop}

theorem refl (watched : Watched) : Watched.Grows allowed watched watched :=
  ⟨[], rfl, fun _ member => absurd member not_mem_nil⟩

variable {before after : Watched}

theorem of_eq (same : after.history = before.history) : Watched.Grows allowed before after :=
  ⟨[], same, fun _ member => absurd member not_mem_nil⟩

theorem cons {op : StoreOp} (history : after.history = op :: before.history) (fits : allowed op) :
    Watched.Grows allowed before after :=
  ⟨[op], history, fun _ member => mem_singleton.mp member ▸ fits⟩

theorem trans {first second third : Watched} (earlier : Watched.Grows allowed first second)
    (later : Watched.Grows allowed second third) : Watched.Grows allowed first third := by
  obtain ⟨older, before, fits⟩ := earlier
  obtain ⟨newer, after, also⟩ := later
  refine ⟨newer ++ older, by rw [after, before, append_assoc], ?_⟩
  intro op member
  rcases mem_append.mp member with new | old
  · exact also op new
  · exact fits op old

theorem since (grows : Watched.Grows allowed before after) :
    ∀ op ∈ before.since after, allowed op := by
  obtain ⟨ops, history, fits⟩ := grows
  rw [Watched.since_eq history]
  exact fits

theorem beside (watched : Watched) (filled : ∀ number, allowed (.filled number)) (writes : List CatchupWrite) :
    Watched.Grows allowed watched (watched.beside writes) := by
  induction writes generalizing watched with
  | nil => exact refl watched
  | cons write rest ih =>
    have first : Watched.Grows allowed watched (watched.catchup write) := by
      cases write with
      | block block => exact cons rfl (filled block.number)
      | ranges ranges => exact of_eq rfl
    exact first.trans (ih _)

end Watched.Grows

def StoreOp.Within (limit : Nat) : StoreOp → Prop
  | .stored number => number ≤ limit
  | .filled _ => True
  | .saved _ _ => True

variable {limit : Nat} {first last : Seen} {config : RealtimeConfig} {latestBlock : UInt64}

theorem Change.grows (change : Change limit first last) :
    Watched.Grows (StoreOp.Within limit) first.watched last.watched := by
  cases change with
  | beside watched cursor write => exact Watched.Grows.beside watched (fun _ => trivial) [write]
  | stores watched cursor block within => exact .cons rfl within
  | reaches watched cursor within stored => exact .refl watched
  | records watched cursor within => exact .cons rfl trivial
  | requeues watched cursor number => exact .of_eq rfl
  | reverts watched cursor next above left => exact .of_eq rfl
  | deletes watched cursor above => exact .of_eq rfl
  | lowers watched below => exact .refl watched

theorem Changes.grows (changes : Changes limit first last) :
    Watched.Grows (StoreOp.Within limit) first.watched last.watched := by
  induction changes with
  | refl => exact .refl _
  | tail _ change ih => exact ih.trans change.grows

theorem Realtime.indexUpTo_grows (config : RealtimeConfig) (state : Realtime) (limit : Nat) (answers : UpToAnswers) :
    Watched.Grows (StoreOp.Within limit) state.toWatched (state.indexUpTo config limit answers).toWatched := by
  have beside : Watched.Grows (StoreOp.Within limit) state.toWatched (state.toWatched.beside answers.catchup) :=
    .beside state.toWatched (fun _ => trivial) answers.catchup
  rcases state.indexUpTo_cases config limit answers with ⟨same, _⟩ | ⟨cursor, _, _, _, indexes⟩
  · rw [same]
    exact beside
  · refine beside.trans ?_
    cases indexes with
    | chain changes _ => exact changes.grows
    | failed writes depth positive shallow reverted _ _ _ =>
      have below : cursor - depth < cursor + 1 - depth := by
        simp only at shallow
        omega
      have deleted : Changes limit _ _ := Watched.handleReorg_changes
        ((state.toWatched.beside answers.catchup).beside writes) below answers.revert
      have grows := deleted.grows
      rw [reverted] at grows
      exact (Watched.Grows.beside _ (fun _ => trivial) writes).trans grows

def StoreOp.Below (limit : Nat) : StoreOp → Prop
  | .stored _ => False
  | .filled _ => True
  | .saved _ toNumber => toNumber < limit

theorem Realtime.jumpIfFarBehind_grows (config : RealtimeConfig) (state : Realtime) (limit : Nat) (answers : JumpAnswers) :
    Watched.Grows (StoreOp.Below limit) state.toWatched (state.jumpIfFarBehind config limit answers).toWatched ∧
      ((state.jumpIfFarBehind config limit answers).lastProcessedBlock = state.lastProcessedBlock ∨
        (state.jumpIfFarBehind config limit answers).lastProcessedBlock < limit) := by
  obtain ⟨_, _, writes, cases⟩ := state.jumpIfFarBehind_cases config limit answers
  have beside : Watched.Grows (StoreOp.Below limit) state.toWatched (state.toWatched.beside writes) :=
    .beside state.toWatched (fun _ => trivial) writes
  rcases cases with ⟨same, cursor⟩ | ⟨fromNumber, jumps⟩
  · rw [same]
    exact ⟨beside, .inl cursor⟩
  · have ends : limit - 1 < limit := Nat.sub_one_lt_of_lt jumps.positive
    refine ⟨beside.trans (.cons jumps.history ends), ?_⟩
    rcases jumps.cursor with same | jumped
    · exact .inl same
    · exact .inr (jumped ▸ ends)

/-! ## Heads -/

/-- What a head `h` may do with `c` confirmation blocks: `indexUpTo` stores no block above `h - c`, none at all where
`h < c`, and moves the cursor nowhere then; `jumpIfFarBehind` records no range and sets no cursor above `h - c`. -/
structure Confirmed (config : RealtimeConfig) (latestBlock : UInt64) (state : Realtime) (answers : HeadAnswers) :
    Prop where
  stores : ∀ number,
    .stored number ∈ (state.jumpIfFarBehind config (safeBlock config latestBlock) answers.jump).toWatched.since
      (state.advance config (safeBlock config latestBlock) answers).toWatched →
    number + config.confirmationBlocks.toNat ≤ latestBlock.toNat
  stays : latestBlock < config.confirmationBlocks →
    (state.advance config (safeBlock config latestBlock) answers).lastProcessedBlock = state.lastProcessedBlock
  records : ∀ fromNumber toNumber,
    .saved fromNumber toNumber ∈ state.toWatched.since
      (state.jumpIfFarBehind config (safeBlock config latestBlock) answers.jump).toWatched →
    toNumber + config.confirmationBlocks.toNat ≤ latestBlock.toNat
  jumps : (state.jumpIfFarBehind config (safeBlock config latestBlock) answers.jump).lastProcessedBlock ≠
      state.lastProcessedBlock →
    (state.jumpIfFarBehind config (safeBlock config latestBlock) answers.jump).lastProcessedBlock +
      config.confirmationBlocks.toNat ≤ latestBlock.toNat

theorem safeBlock_add (enough : config.confirmationBlocks ≤ latestBlock) :
    safeBlock config latestBlock + config.confirmationBlocks.toNat = latestBlock.toNat := by
  rw [safeBlock, UInt64.toNat_sub_of_le _ _ enough]
  exact Nat.sub_add_cancel (UInt64.le_iff_toNat_le.mp enough)

theorem Confirmed.of_le (enough : config.confirmationBlocks ≤ latestBlock) (state : Realtime) (answers : HeadAnswers) :
    Confirmed config latestBlock state answers := by
  have safe := safeBlock_add enough
  obtain ⟨jumped, cursor⟩ := state.jumpIfFarBehind_grows config (safeBlock config latestBlock) answers.jump
  have indexed := Realtime.indexUpTo_grows config
    (state.jumpIfFarBehind config (safeBlock config latestBlock) answers.jump) (safeBlock config latestBlock) answers.upTo
  apply Confirmed.mk
  · intro number member
    have within : number ≤ safeBlock config latestBlock := indexed.since _ member
    omega
  · intro few
    exact absurd enough (UInt64.not_le.mpr few)
  · intro fromNumber toNumber member
    have below : toNumber < safeBlock config latestBlock := jumped.since _ member
    omega
  · intro moved
    have below := cursor.resolve_left moved
    omega

/-! ## Heads below the confirmation distance -/

theorem safeBlock_pos (few : latestBlock < config.confirmationBlocks) :
    0 < safeBlock config latestBlock := by
  rw [safeBlock, UInt64.toNat_sub]
  have less := UInt64.lt_iff_toNat_lt.mp few
  have bound := config.confirmationBlocks.toNat_lt
  rw [Nat.mod_eq_of_lt] <;> omega

def grownNode : HeadAnswers :=
  { aloneAt 1 .ok with jump := { (aloneAt 1 .ok).jump with save := .fail } }

theorem jump_unsaved (config : RealtimeConfig) (limit : Nat) :
    ∃ behind, (freshRealtime 0).jumpIfFarBehind config limit grownNode.jump =
      { freshRealtime 0 with behind := behind, lastSafe := limit } := by
  refine ⟨if 0 < limit then limit else 0, ?_⟩
  rw [Realtime.jumpIfFarBehind]
  simp only
  split
  · rfl
  · simp [freshRealtime, grownNode, Watched.saveMissingRange, Outcome.applied, aloneAt, Watched.beside]

def batchAt (blocks : List Nat) : Batch where
  pipeline :=
    { store := blocks.foldl (fun store number => store.addBlock (chainBlock number (BitVec.ofNat 256 number))) HeadStore.empty
      receipts := {}
      lastIndexed := blocks.length
      prevHash := BitVec.ofNat 256 blocks.length
      remembered := false }
  history := blocks.map StoreOp.stored

theorem turn_first (depth : Nat) :
    Batch.turn depth grownNode.upTo.batch (batchAt []) (.ready 1 ⟨1, 0, 0⟩) = (batchAt [1], true) := by
  rw [Batch.turn]
  split <;> rfl

theorem turn_second (depth : Nat) :
    Batch.turn depth grownNode.upTo.batch (batchAt [1]) (.unread 2) = (batchAt [1], false) := by
  rw [Batch.turn]
  split <;> rfl

theorem loop_first (depth limit : Nat) :
    foldUntil (Batch.turn depth grownNode.upTo.batch) (batchAt [])
      (prefetchBlocks grownNode.upTo.batch.node 1 (limit + 1)) = batchAt [1] := by
  have blocks : prefetchBlocks grownNode.upTo.batch.node 1 (limit + 1) =
      .ready 1 ⟨1, 0, 0⟩ :: (List.range' 2 limit).map fun number =>
        fetchBlockAndReceipts number (grownNode.upTo.batch.node number) := by
    rw [prefetchBlocks, Nat.add_sub_cancel, List.range'_succ, map_cons]
    rfl
  rw [blocks, foldUntil, turn_first]
  cases limit with
  | zero => rfl
  | succ limit =>
    rw [List.range'_succ, map_cons]
    have second : fetchBlockAndReceipts 2 (grownNode.upTo.batch.node 2) = .unread 2 := rfl
    simp only [if_true, foldUntil, second, turn_second, Bool.false_eq_true, if_false]

theorem advance_wrapped (config : RealtimeConfig) (limit : Nat) :
    ((freshRealtime 0).advance config (limit + 1) grownNode).history = [.stored 1] ∧
      ((freshRealtime 0).advance config (limit + 1) grownNode).lastProcessedBlock = 1 := by
  obtain ⟨behind, jumped⟩ := jump_unsaved config (limit + 1)
  have batch : ∀ state : Realtime, state = { freshRealtime 0 with behind := behind, lastSafe := limit + 1 } →
      (state.indexBatch config (limit + 1) grownNode.upTo.batch).history = [.stored 1] ∧
        (state.indexBatch config (limit + 1) grownNode.upTo.batch).lastProcessedBlock = 1 := by
    rintro state rfl
    have looped := loop_first config.commitPipelineDepth limit
    have closed := congrArg (Batch.close grownNode.upTo.batch) looped
    rw [Realtime.indexBatch]
    split
    · next stuck =>
      rcases stuck with unread | none
      · cases unread
      · cases none
    · exact ⟨congrArg Batch.history closed, congrArg (fun batch => batch.pipeline.lastIndexed) closed⟩
  rw [Realtime.advance, jumped, Realtime.indexUpTo]
  exact batch _ rfl

/-- Every head keeps the confirmation distance, whatever the cursor and the jump limit, exactly when it has as many
blocks below it as confirmations are asked for. -/
theorem confirmation_distance_kept (config : RealtimeConfig) (latestBlock : UInt64) :
    (∀ state answers, Confirmed config latestBlock state answers) ↔ config.confirmationBlocks ≤ latestBlock := by
  apply Iff.intro
  · intro confirmed
    by_contra few
    have positive := safeBlock_pos (UInt64.not_le.mp few)
    obtain ⟨limit, same⟩ := Nat.exists_eq_add_one_of_ne_zero positive.ne'
    have stays := (confirmed (freshRealtime 0) grownNode).stays (UInt64.not_le.mp few)
    rw [same, (advance_wrapped config limit).2] at stays
    cases stays
  · exact Confirmed.of_le

/-- With one confirmation block and the head at block 0 the safe block is `2 ^ 64 - 1`, and block 1 is stored as soon as
the node has it. -/
theorem genesis_head_unconfirmed :
    safeBlock ⟨1, 1000, 1⟩ 0 = 2 ^ 64 - 1 ∧ .stored 1 ∈ (freshRealtime 0).toWatched.since
        ((freshRealtime 0).advance ⟨1, 1000, 1⟩ (safeBlock ⟨1, 1000, 1⟩ 0) grownNode).toWatched ∧
      ¬Confirmed ⟨1, 1000, 1⟩ 0 (freshRealtime 0) grownNode := by
  have wrapped := advance_wrapped ⟨1, 1000, 1⟩ (2 ^ 64 - 2)
  have safe : safeBlock ⟨1, 1000, 1⟩ 0 = 2 ^ 64 - 2 + 1 := by decide
  rw [safe]
  refine ⟨by decide, ?_, ?_⟩
  · rw [Watched.since, wrapped.1]
    decide
  · intro confirmed
    have stays := confirmed.stays (by decide)
    rw [safe, wrapped.2] at stays
    cases stays

end OpsIndexer.Indexing
