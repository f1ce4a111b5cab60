import OpsIndexer.Indexer.RealtimeTurns

/-!
# What a safe head makes realtime do

The jump, the check after a failed revert, and `indexUpTo`, each said in terms of the changes of a batch.
-/

namespace OpsIndexer.Indexing

open Eth Db Lib.Runs List

/-! ## The reorg check -/

theorem Watched.beside_append (watched : Watched) (first second : List CatchupWrite) :
    watched.beside (first ++ second) = (watched.beside first).beside second :=
  foldl_append

theorem Watched.detectReorg_beside (watched : Watched) (blockNumber : Nat) (answers : WatchedReorg) :
    (∃ writes, (watched.detectReorg blockNumber answers).1 = watched.beside writes) ∧
      (watched.detectReorg blockNumber answers).2.1 ≤ blockNumber := by
  have step (state : Watched × Nat × Bool) (depth : Nat)
      (known : (∃ writes, state.1 = watched.beside writes) ∧ state.2.1 ≤ blockNumber) (below : depth < blockNumber) :
      (∃ writes, (Watched.compareBlock blockNumber answers state depth).1.1 = watched.beside writes) ∧
        (Watched.compareBlock blockNumber answers state depth).1.2.1 ≤ blockNumber := by
    obtain ⟨⟨writes, same⟩, shallow⟩ := known
    apply And.intro
    · refine ⟨writes ++ answers.catchup (blockNumber - depth), ?_⟩
      rw [Watched.beside_append, ← same]
      rfl
    · simp only [Watched.compareBlock, Indexing.compareBlock]
      split
      · split
        · exact shallow
        · exact shallow
        · split
          · exact shallow
          · exact below
      · exact shallow
  refine foldUntil_induction
    (fun rest (state : Watched × Nat × Bool) =>
      ((∃ writes, state.1 = watched.beside writes) ∧ state.2.1 ≤ blockNumber) ∧ ∀ depth ∈ rest, depth < blockNumber)
    (fun state => (∃ writes, state.1 = watched.beside writes) ∧ state.2.1 ≤ blockNumber) ?_ ?_ ?_ _ _
    ⟨⟨⟨[], rfl⟩, Nat.zero_le _⟩, ?_⟩
  · intro depth rest state known _
    exact ⟨step state depth known.1 (known.2 depth mem_cons_self),
      fun deeper member => known.2 deeper (mem_cons_of_mem _ member)⟩
  · intro depth rest state known _
    exact step state depth known.1 (known.2 depth mem_cons_self)
  · intro state known
    exact known.1
  · intro depth member
    exact (mem_range.mp member).trans_le (min_le_right _ _)

/-! ## The revert -/

theorem Watched.handleReorg_changes {limit cursor fromBlock : Nat} (watched : Watched) (above : cursor < fromBlock)
    (answers : WatchedRevert) : Changes limit ⟨watched, cursor⟩ ⟨(watched.handleReorg fromBlock answers).1, cursor⟩ := by
  have step (state : Watched × Bool) (number : Nat) (higher : cursor < number) :
      Changes limit ⟨state.1, cursor⟩ ⟨(Watched.revertBlock answers state number).1.1, cursor⟩ := by
    have before : Changes limit ⟨state.1, cursor⟩ ⟨state.1.beside (answers.catchup number), cursor⟩ :=
      Watched.beside_changes state.1 cursor (answers.catchup number)
    simp only [Watched.revertBlock, Indexing.revertBlock]
    split
    · exact before.tail (Change.deletes _ _ higher)
    · exact before
  rw [Watched.handleReorg]
  split
  · exact Changes.refl _
  · split
    · exact Changes.refl _
    · refine foldUntil_induction
        (fun rest (state : Watched × Bool) =>
          Changes limit ⟨watched, cursor⟩ ⟨state.1, cursor⟩ ∧ ∀ number ∈ rest, cursor < number)
        (fun state => Changes limit ⟨watched, cursor⟩ ⟨state.1, cursor⟩) ?_ ?_ ?_ _ _ ⟨Changes.refl _, ?_⟩
      · intro number rest state known _
        exact ⟨known.1.trans (step state number (known.2 number mem_cons_self)),
          fun other member => known.2 other (mem_cons_of_mem _ member)⟩
      · intro number rest state known _
        exact known.1.trans (step state number (known.2 number mem_cons_self))
      · intro state known
        exact known.1
      · intro number member
        rw [mem_reverse, mem_range'_1] at member
        exact above.trans_le member.1

/-! ## The jump -/

structure Jumps (state : Realtime) (safeBlock : Nat) (next : Realtime) (writes : List CatchupWrite) (fromNumber : Nat) :
    Prop where
  settled : state.revertPending = false
  positive : 0 < safeBlock
  start : fromNumber ≤ state.lastProcessedBlock + 1
  history : next.history = .saved fromNumber (safeBlock - 1) :: (state.toWatched.beside writes).history
  blocks : ∀ number, next.store.Stored number ↔ (state.toWatched.beside writes).store.Stored number
  cursor : next.lastProcessedBlock = state.lastProcessedBlock ∨ next.lastProcessedBlock = safeBlock - 1

theorem Realtime.jumpIfFarBehind_cases (config : RealtimeConfig) (state : Realtime) (safeBlock : Nat)
    (answers : JumpAnswers) :
    (state.jumpIfFarBehind config safeBlock answers).failedRevertFrom = state.failedRevertFrom ∧
      (state.jumpIfFarBehind config safeBlock answers).revertPending = state.revertPending ∧
      ∃ writes,
        (state.jumpIfFarBehind config safeBlock answers).toWatched = state.toWatched.beside writes ∧
            (state.jumpIfFarBehind config safeBlock answers).lastProcessedBlock = state.lastProcessedBlock ∨
          ∃ fromNumber, Jumps state safeBlock (state.jumpIfFarBehind config safeBlock answers) writes fromNumber := by
  rw [Realtime.jumpIfFarBehind]
  simp only
  split
  · exact ⟨rfl, rfl, [], .inl ⟨rfl, rfl⟩⟩
  · next far =>
    rw [not_or, not_or, not_le, Bool.not_eq_true] at far
    obtain ⟨_, behind, settled⟩ := far
    -- The check is made above block 0 only.
    have checked : ∃ writes depth answered, (if 0 < state.lastProcessedBlock then
          state.toWatched.detectReorg state.lastProcessedBlock answers.reorg else (state.toWatched, 0, true)) =
        (state.toWatched.beside writes, depth, answered) := by
      split
      · obtain ⟨⟨writes, same⟩, _⟩ := state.toWatched.detectReorg_beside state.lastProcessedBlock answers.reorg
        exact ⟨writes, _, _, Prod.ext same rfl⟩
      · exact ⟨[], 0, true, rfl⟩
    obtain ⟨writes, depth, answered, checked⟩ := checked
    simp only [checked]
    split
    · exact ⟨rfl, rfl, writes, .inl ⟨rfl, rfl⟩⟩
    · rw [← Watched.beside_append, Watched.saveMissingRange]
      by_cases valid : (state.lastProcessedBlock + 1) % 2 ^ 64 ≤ safeBlock - 1 ∧ safeBlock - 1 < 2 ^ 63 ∧
          answers.save.applied
      · have start : (state.lastProcessedBlock + 1) % 2 ^ 64 ≤ state.lastProcessedBlock + 1 := Nat.mod_le _ _
        have positive : 0 < safeBlock := Nat.zero_lt_of_lt behind
        rw [if_pos valid]
        cases saved : answers.save == .ok with
        | false =>
          exact ⟨rfl, rfl, _, .inr ⟨_, settled, positive, start, rfl, fun _ => Iff.rfl, .inl rfl⟩⟩
        | true =>
          exact ⟨rfl, rfl, _, .inr ⟨_, settled, positive, start, rfl, fun _ => Iff.rfl, .inr rfl⟩⟩
      · rw [if_neg valid]
        exact ⟨rfl, rfl, _, .inl ⟨rfl, rfl⟩⟩

/-! ## The check after a failed revert -/

/-- Where the cursor stands once the store was read: below the fork, or at a stored block. -/
theorem Realtime.resumeAfterFailedRevert_cases (state : Realtime) (readable : Bool) :
    state.resumeAfterFailedRevert readable = (state, false) ∧ state.failedRevertFrom ≠ 0 ∨
      ∃ cursor ≤ state.lastProcessedBlock,
        state.resumeAfterFailedRevert readable =
            ({ state with lastProcessedBlock := cursor, failedRevertFrom := 0 }, true) ∧
          (state.failedRevertFrom = 0 → cursor = state.lastProcessedBlock) ∧
          (state.failedRevertFrom ≠ 0 → cursor < state.failedRevertFrom ∨ state.store.Stored cursor) := by
  rw [Realtime.resumeAfterFailedRevert]
  split
  · next none =>
    refine .inr ⟨state.lastProcessedBlock, le_rfl, ?_, fun _ => rfl, fun failed => absurd none failed⟩
    rw [← none]
  · next failed =>
    split
    · exact .inl ⟨rfl, failed⟩
    · right
      have before : state.failedRevertFrom - 1 < state.failedRevertFrom := Nat.sub_one_lt failed
      cases found : state.store.highestBlockAtOrBelow state.lastProcessedBlock with
      | none =>
        simp only [found]
        refine ⟨_, ?_, rfl, fun none => absurd none failed, fun _ => .inl ?_⟩
        · split <;> omega
        · split <;> omega
      | some below =>
        obtain ⟨member, lower, _⟩ := HeadStore.highestBlockAtOrBelow_eq_some found
        have stored : state.store.Stored below.number := ⟨below, member, rfl⟩
        simp only [found]
        by_cases higher : state.failedRevertFrom - 1 < below.number
        · rw [if_pos higher]
          have reached : (if below.number < state.lastProcessedBlock then below.number else state.lastProcessedBlock) =
              below.number := by
            split <;> omega
          rw [reached]
          exact ⟨below.number, lower, rfl, fun none => absurd none failed, fun _ => .inr stored⟩
        · rw [if_neg higher]
          refine ⟨_, ?_, rfl, fun none => absurd none failed, fun _ => .inl ?_⟩
          · split <;> omega
          · split <;> omega

/-! ## `indexUpTo` -/

inductive Indexes (limit : Nat) (answers : UpToAnswers) (state next : Realtime) : Prop
  | chain (changes : Changes limit state.seen next.seen) (clean : next.failedRevertFrom = state.failedRevertFrom)
  | failed (writes : List CatchupWrite) (depth : Nat) (positive : 0 < depth) (shallow : depth ≤ state.lastProcessedBlock)
      (reverted : (state.toWatched.beside writes).handleReorg (state.lastProcessedBlock + 1 - depth) answers.revert =
        (next.toWatched, false))
      (cursor : next.lastProcessedBlock = state.lastProcessedBlock)
      (fork : next.failedRevertFrom = state.lastProcessedBlock + 1 - depth) (pending : next.revertPending = true)

theorem Realtime.indexUpTo_cases (config : RealtimeConfig) (state : Realtime) (limit : Nat) (answers : UpToAnswers) :
    (state.indexUpTo config limit answers = { state with toWatched := state.toWatched.beside answers.catchup } ∧
        state.failedRevertFrom ≠ 0) ∨
      ∃ cursor ≤ state.lastProcessedBlock,
        (state.failedRevertFrom = 0 → cursor = state.lastProcessedBlock) ∧
          (state.failedRevertFrom ≠ 0 →
            cursor < state.failedRevertFrom ∨ (state.toWatched.beside answers.catchup).store.Stored cursor) ∧
          Indexes limit answers
            { state with
              toWatched := state.toWatched.beside answers.catchup
              lastProcessedBlock := cursor
              failedRevertFrom := 0 } (state.indexUpTo config limit answers) := by
  rw [Realtime.indexUpTo]
  rcases Realtime.resumeAfterFailedRevert_cases { state with toWatched := state.toWatched.beside answers.catchup }
      answers.below with ⟨unread, failed⟩ | ⟨cursor, lower, resumed, same, left⟩
  · rw [unread]
    exact .inl ⟨rfl, failed⟩
  · rw [resumed]
    refine .inr ⟨cursor, lower, same, left, ?_⟩
    simp only
    split
    · exact .chain (Changes.refl _) rfl
    · split
      · obtain ⟨⟨writes, beside⟩, shallow⟩ :=
          (state.toWatched.beside answers.catchup).detectReorg_beside cursor answers.reorg
        have checked : Changes limit ⟨state.toWatched.beside answers.catchup, cursor⟩
            ⟨(state.toWatched.beside answers.catchup).beside writes, cursor⟩ :=
          Watched.beside_changes _ cursor writes
        cases found : (state.toWatched.beside answers.catchup).detectReorg cursor answers.reorg with
        | mk watched rest =>
          obtain ⟨depth, answered⟩ := rest
          rw [found] at beside shallow
          simp only at beside shallow
          subst beside
          cases answered with
          | false => exact .chain checked rfl
          | true =>
            simp only
            split
            · next positive =>
              cases reverted : Watched.handleReorg ((state.toWatched.beside answers.catchup).beside writes)
                  (cursor + 1 - depth) answers.revert with
              | mk left done =>
                cases done with
                | false => exact .failed writes depth positive shallow reverted rfl rfl rfl
                | true =>
                  have lowered := checked.tail (Change.lowers _ (Nat.sub_le cursor depth))
                  have below : cursor - depth < cursor + 1 - depth := by omega
                  have deleted : Changes limit _ _ := Watched.handleReorg_changes
                    ((state.toWatched.beside answers.catchup).beside writes) below answers.revert
                  rw [reverted] at deleted
                  exact .chain (lowered.trans deleted) rfl
            · have batch := Realtime.indexBatch_changes limit config
                { state with
                  toWatched := (state.toWatched.beside answers.catchup).beside writes
                  lastProcessedBlock := cursor
                  failedRevertFrom := 0
                  revertPending := false } answers.batch
              exact .chain (checked.trans batch.1) batch.2.1
      · have batch := Realtime.indexBatch_changes limit config
          { state with
            toWatched := state.toWatched.beside answers.catchup
            lastProcessedBlock := cursor
            failedRevertFrom := 0 } answers.batch
        exact .chain batch.1 batch.2.1

end OpsIndexer.Indexing
