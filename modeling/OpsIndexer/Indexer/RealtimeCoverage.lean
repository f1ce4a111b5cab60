import OpsIndexer.Indexer.RealtimeSteps

/-!
# No block is lost below realtime's cursor

Every block between the start block and the cursor is stored, or was recorded as missing after it was last stored. A
revert that fails leaves deleted blocks below the cursor; the check of the next tick moves the cursor below them, as
long as catch-up has stored none above them in the meantime.
-/

namespace OpsIndexer.Indexing

open Eth Db Lib.Runs List

/-! ## Covered blocks -/

def Watched.Accounts (watched : Watched) (number : Nat) : Prop :=
  watched.store.Stored number ∨ Recorded number watched.history

def Seen.Covered (startBlock : Nat) (seen : Seen) : Prop :=
  ∀ number, startBlock < number → number ≤ seen.cursor → seen.watched.Accounts number

namespace Watched.Accounts

variable {watched : Watched} {number : Nat}

theorem stores (accounts : watched.Accounts number) (block : HeadBlock) {op : StoreOp}
    (op_stores : op = .stored block.number ∨ op = .filled block.number) :
    Watched.Accounts ⟨watched.store.addBlock block, op :: watched.history⟩ number := by
  by_cases same : block.number = number
  · exact .inl (HeadStore.stored_addBlock.mpr (.inr same.symm))
  · rcases accounts with stored | recorded
    · exact .inl (HeadStore.stored_addBlock.mpr (.inl stored))
    · rcases op_stores with rfl | rfl <;> exact .inr ⟨same, recorded⟩

theorem catchup (accounts : watched.Accounts number) (write : CatchupWrite) :
    (watched.catchup write).Accounts number := by
  cases write with
  | block block => exact accounts.stores block (.inr rfl)
  | ranges ranges => exact accounts

theorem beside (accounts : watched.Accounts number) (writes : List CatchupWrite) :
    (watched.beside writes).Accounts number := by
  induction writes generalizing watched with
  | nil => exact accounts
  | cons write rest ih => exact ih (accounts.catchup write)

theorem deleteBlock (accounts : watched.Accounts number) {deleted : Nat} (other : number ≠ deleted) :
    Watched.Accounts { watched with store := watched.store.deleteBlock deleted } number := by
  rcases accounts with stored | recorded
  · exact .inl (HeadStore.stored_deleteBlock.mpr ⟨stored, other⟩)
  · exact .inr recorded

end Watched.Accounts

variable {limit startBlock fork cursor : Nat} {first last : Seen} {writes : List CatchupWrite} {answers : WatchedRevert}
  {state next : Realtime}

theorem Change.covered (change : Change limit first last) (covered : first.Covered startBlock) :
    last.Covered startBlock := by
  intro number above below
  cases change with
  | beside watched cursor write => exact (covered number above below).catchup write
  | stores watched cursor block within => exact (covered number above below).stores block (.inl rfl)
  | reaches watched cursor within stored =>
    by_cases reached : number = cursor + 1
    · exact .inl (reached ▸ stored)
    · exact covered number above (Nat.le_of_lt_succ (lt_of_le_of_ne below reached))
  | records watched cursor within =>
    by_cases reached : number = cursor + 1
    · exact .inr (.inl ⟨reached.ge, reached.le⟩)
    · rcases covered number above (Nat.le_of_lt_succ (lt_of_le_of_ne below reached)) with stored | recorded
      · exact .inl stored
      · exact .inr (.inr recorded)
  | requeues watched cursor number => exact covered _ above below
  | reverts watched cursor next higher left =>
    rcases covered number above below with stored | recorded
    · exact .inl (left.stored.mpr ⟨stored, below.trans_lt higher⟩)
    · exact .inr recorded
  | deletes watched cursor higher =>
    exact (covered number above below).deleteBlock (below.trans_lt higher).ne
  | lowers watched lower => exact covered number above (le_trans below lower)

theorem Changes.covered (changes : Changes limit first last) (covered : first.Covered startBlock) :
    last.Covered startBlock := by
  induction changes with
  | refl => exact covered
  | tail _ change ih => exact change.covered ih

/-! ## A revert that fails -/

/-- Catch-up stores no block above the one that is being deleted. -/
def WatchedRevert.Apart (answers : WatchedRevert) : Prop :=
  ∀ blockNum block, .block block ∈ answers.catchup blockNum → block.number ≤ blockNum

/-- What a failed revert from `fork` leaves below the cursor: nothing is stored from a block on, at or above the fork,
and below it every block is covered. -/
def Watched.Broken (startBlock fork cursor : Nat) (watched : Watched) : Prop :=
  ∃ cut, fork ≤ cut ∧ (∀ number, startBlock < number → number ≤ cursor → number < cut → watched.Accounts number) ∧
    ∀ number, cut ≤ number → number ≤ cursor → ¬watched.store.Stored number

theorem Watched.stored_of_beside {watched : Watched} {number : Nat}
    (stored : (watched.beside writes).store.Stored number) :
    watched.store.Stored number ∨ ∃ block, .block block ∈ writes ∧ block.number = number := by
  induction writes generalizing watched with
  | nil => exact .inl stored
  | cons write rest ih =>
    rcases ih stored with known | ⟨block, member, same⟩
    · cases write with
      | ranges ranges => exact .inl known
      | block block =>
        rcases HeadStore.stored_addBlock.mp known with before | new
        · exact .inl before
        · exact .inr ⟨block, mem_cons_self, new.symm⟩
    · exact .inr ⟨block, mem_cons_of_mem _ member, same⟩

theorem Watched.Broken.beside {watched : Watched} (broken : watched.Broken startBlock fork cursor)
    (outside : ∀ block, .block block ∈ writes → block.number < fork ∨ cursor < block.number) :
    (watched.beside writes).Broken startBlock fork cursor := by
  obtain ⟨cut, above, covered, gone⟩ := broken
  refine ⟨cut, above, fun number higher lower below => (covered number higher lower below).beside writes, ?_⟩
  intro number higher lower stored
  rcases Watched.stored_of_beside stored with before | ⟨block, member, rfl⟩
  · exact gone number higher lower before
  · rcases outside block member with under | over_
    · omega
    · omega

structure Watched.Cut (startBlock cursor cut : Nat) (watched : Watched) : Prop where
  accounts : ∀ number, startBlock < number → number ≤ cursor → number < cut → watched.Accounts number
  gone : ∀ number, cut ≤ number → ¬watched.store.Stored number

theorem Watched.Cut.broken {cut : Nat} {watched : Watched} (left : watched.Cut startBlock cursor cut)
    (above : fork ≤ cut) : watched.Broken startBlock fork cursor :=
  ⟨cut, above, left.accounts, fun number higher _ => left.gone number higher⟩

theorem Watched.Cut.beside {number : Nat} {watched : Watched} (left : watched.Cut startBlock cursor (number + 1))
    (apart : ∀ block, .block block ∈ writes → block.number ≤ number) :
    (watched.beside writes).Cut startBlock cursor (number + 1) where
  accounts := fun other higher lower below => (left.accounts other higher lower below).beside writes
  gone := by
    intro other higher stored
    rcases Watched.stored_of_beside stored with before | ⟨block, member, rfl⟩
    · exact left.gone other higher before
    · exact absurd (apart block member) (not_le.mpr higher)

theorem Watched.Cut.deleteBlock {number : Nat} {watched : Watched} (left : watched.Cut startBlock cursor (number + 1)) :
    Watched.Cut startBlock cursor number { watched with store := watched.store.deleteBlock number } where
  accounts := fun other higher lower below =>
    (left.accounts other higher lower (Nat.lt_succ_of_lt below)).deleteBlock below.ne
  gone := by
    intro other higher stored
    obtain ⟨before, different⟩ := HeadStore.stored_deleteBlock.mp stored
    exact left.gone other (lt_of_le_of_ne higher (Ne.symm different)) before

theorem Watched.Cut.revertBlock {number : Nat} {state : Watched × Bool}
    (left : state.1.Cut startBlock cursor (number + 1)) (apart : answers.Apart) :
    ((Watched.revertBlock answers state number).2 = true →
        (Watched.revertBlock answers state number).1.2 = true ∧
          (Watched.revertBlock answers state number).1.1.Cut startBlock cursor number) ∧
      ((Watched.revertBlock answers state number).2 = false →
        ∃ cut ≥ number, (Watched.revertBlock answers state number).1.1.Cut startBlock cursor cut) := by
  have beside := left.beside (apart number)
  have deleted := beside.deleteBlock
  cases outcome : answers.deletes number with
  | ok =>
    simp only [Watched.revertBlock, Indexing.revertBlock, outcome]
    exact ⟨fun _ => ⟨rfl, deleted⟩, by simp⟩
  | fail =>
    simp only [Watched.revertBlock, Indexing.revertBlock, outcome]
    exact ⟨by simp, fun _ => ⟨number + 1, Nat.le_succ number, beside⟩⟩
  | lost =>
    simp only [Watched.revertBlock, Indexing.revertBlock, outcome]
    exact ⟨by simp, fun _ => ⟨number, le_rfl, deleted⟩⟩

theorem Watched.handleReorg_broken {watched : Watched} (covered : Seen.Covered startBlock ⟨watched, cursor⟩)
    (within : fork ≤ cursor) (apart : answers.Apart) (failed : (watched.handleReorg fork answers).2 = false) :
    (watched.handleReorg fork answers).1.Broken startBlock fork cursor := by
  have untouched : watched.Broken startBlock fork cursor :=
    ⟨cursor + 1, Nat.le_succ_of_le within, fun number above below _ => covered number above below,
      fun number above below => absurd above (by omega)⟩
  have start : watched.Cut startBlock cursor (fork + (watched.store.getLatestBlockNumber + 1 - fork)) := by
    refine ⟨fun number above below _ => covered number above below, ?_⟩
    intro number above stored
    have latest := stored.le_latest
    omega
  rw [Watched.handleReorg] at failed ⊢
  split
  · exact untouched
  · next readable =>
    rw [if_neg readable] at failed
    split
    · exact untouched
    · next near =>
      rw [if_neg near] at failed
      revert failed
      -- What is left of the list goes down to the fork, and no block above it is stored any more.
      refine foldUntil_induction
        (fun rest (state : Watched × Bool) => state.2 = true ∧ ∃ count, rest = (List.range' fork count).reverse ∧
          state.1.Cut startBlock cursor (fork + count))
        (fun state => state.2 = false → state.1.Broken startBlock fork cursor) ?_ ?_ ?_ _ _ ⟨rfl, _, rfl, start⟩
      · rintro number rest state ⟨_, count, numbers, left⟩ more
        cases count with
        | zero => cases numbers
        | succ count =>
          rw [List.range'_concat, reverse_concat, List.cons.injEq, Nat.one_mul] at numbers
          obtain ⟨rfl, rfl⟩ := numbers
          obtain ⟨running, deleted⟩ := (left.revertBlock apart).1 more
          exact ⟨running, count, rfl, deleted⟩
      · rintro number rest state ⟨_, count, numbers, left⟩ stop _
        cases count with
        | zero => cases numbers
        | succ count =>
          rw [List.range'_concat, reverse_concat, List.cons.injEq, Nat.one_mul] at numbers
          obtain ⟨rfl, rfl⟩ := numbers
          obtain ⟨cut, above, broken⟩ := (left.revertBlock apart).2 stop
          exact broken.broken ((Nat.le_add_right fork count).trans above)
      · rintro state ⟨running, _⟩ failed
        cases running.symm.trans failed

/-! ## Runs -/

def Realtime.Leaves (state : Realtime) (write : CatchupWrite) : Prop :=
  state.failedRevertFrom ≠ 0 → ∀ block, write = .block block →
    block.number < state.failedRevertFrom ∨ state.lastProcessedBlock < block.number

/-- Catch-up stores no block above one that a revert is deleting, and none between the fork of a revert that failed and
the cursor before the next call has read what it left. -/
def Heeded (state : Realtime) : RealtimeEvent → Prop
  | .safe _ answers => answers.upTo.revert.Apart ∧ ∀ write ∈ answers.upTo.catchup, state.Leaves write
  | .catchup write => state.Leaves write

structure Realtime.Sound (startBlock : Nat) (state : Realtime) : Prop where
  covered : state.failedRevertFrom = 0 → state.seen.Covered startBlock
  broken : state.failedRevertFrom ≠ 0 → state.revertPending = true ∧
    state.toWatched.Broken startBlock state.failedRevertFrom state.lastProcessedBlock

theorem Realtime.jumpIfFarBehind_pending (pending : state.revertPending = true) (config : RealtimeConfig)
    (safeBlock : Nat) (answers : JumpAnswers) :
    (state.jumpIfFarBehind config safeBlock answers).toWatched = state.toWatched ∧
      (state.jumpIfFarBehind config safeBlock answers).lastProcessedBlock = state.lastProcessedBlock := by
  rw [Realtime.jumpIfFarBehind]
  simp only [pending, or_true, if_true, and_self]

theorem Jumps.covered {safeBlock fromNumber : Nat} (jumps : Jumps state safeBlock next writes fromNumber)
    (covered : state.seen.Covered startBlock) :
    next.seen.Covered startBlock := by
  intro number above below
  have kept (lower : number ≤ state.lastProcessedBlock) : next.toWatched.Accounts number := by
    rcases (covered number above lower).beside writes with stored | recorded
    · exact .inl ((jumps.blocks number).mpr stored)
    · refine .inr ?_
      rw [jumps.history]
      exact .inr recorded
  by_cases lower : number ≤ state.lastProcessedBlock
  · exact kept lower
  · have start := jumps.start
    rcases jumps.cursor with same | jumped
    · exact absurd (below.trans_eq same) lower
    · refine .inr ?_
      rw [Realtime.seen, jumps.history]
      exact .inl ⟨by omega, below.trans_eq jumped⟩

theorem Realtime.Sound.jump (sound : state.Sound startBlock) (config : RealtimeConfig) (safeBlock : Nat)
    (answers : JumpAnswers) :
    (state.jumpIfFarBehind config safeBlock answers).Sound startBlock := by
  obtain ⟨failed, pending, writes, cases⟩ := state.jumpIfFarBehind_cases config safeBlock answers
  apply Realtime.Sound.mk
  · intro none
    rw [failed] at none
    have covered := sound.covered none
    rcases cases with ⟨beside, cursor⟩ | ⟨fromNumber, jumps⟩
    · intro number above below
      have before := (covered number above (below.trans_eq cursor)).beside writes
      rw [Realtime.seen, beside]
      exact before
    · exact jumps.covered covered
  · intro some
    rw [failed] at some
    obtain ⟨was, broken⟩ := sound.broken some
    obtain ⟨watched, cursor⟩ := Realtime.jumpIfFarBehind_pending was config safeBlock answers
    rw [failed, pending, watched, cursor]
    exact ⟨was, broken⟩

theorem Realtime.Sound.catchup (sound : state.Sound startBlock) (leaves : ∀ write ∈ writes, state.Leaves write) :
    Realtime.Sound startBlock { state with toWatched := state.toWatched.beside writes } where
  covered := fun none number above below => (sound.covered none number above below).beside writes
  broken := by
    intro some
    obtain ⟨pending, broken⟩ := sound.broken some
    exact ⟨pending, broken.beside fun block member => leaves _ member some block rfl⟩

theorem Indexes.sound {answers : UpToAnswers} (indexes : Indexes limit answers state next)
    (covered : state.seen.Covered startBlock) (clean : state.failedRevertFrom = 0) (apart : answers.revert.Apart) :
    next.Sound startBlock := by
  cases indexes with
  | chain changes same =>
    exact ⟨fun _ => changes.covered covered, fun some => absurd (same.trans clean) some⟩
  | failed writes depth positive shallow reverted cursor fork pending =>
    have checked : Seen.Covered startBlock ⟨state.toWatched.beside writes, state.lastProcessedBlock⟩ :=
      fun number above below => (covered number above below).beside writes
    have within : state.lastProcessedBlock + 1 - depth ≤ state.lastProcessedBlock := by omega
    have broken := Watched.handleReorg_broken checked within apart (congrArg Prod.snd reverted)
    rw [reverted] at broken
    refine ⟨fun none => ?_, fun _ => ⟨pending, ?_⟩⟩
    · omega
    · rw [fork, cursor]
      exact broken

theorem Watched.Broken.resumed {last : Nat} {watched : Watched} (broken : watched.Broken startBlock fork last)
    (lower : cursor ≤ last) (left : cursor < fork ∨ watched.store.Stored cursor) :
    Seen.Covered startBlock ⟨watched, cursor⟩ := by
  obtain ⟨cut, above, accounts, gone⟩ := broken
  have before : cursor < cut := by
    rcases left with below | stored
    · exact below.trans_le above
    · by_contra reached
      exact gone cursor (not_lt.mp reached) lower stored
  intro number higher below
  exact accounts number higher (le_trans below lower) (lt_of_le_of_lt below before)

theorem Realtime.Sound.indexUpTo (sound : state.Sound startBlock) (config : RealtimeConfig) (safeBlock : Nat)
    {answers : UpToAnswers} (apart : answers.revert.Apart) (leaves : ∀ write ∈ answers.catchup, state.Leaves write) :
    (state.indexUpTo config safeBlock answers).Sound startBlock := by
  have beside := sound.catchup leaves
  rcases state.indexUpTo_cases config safeBlock answers with ⟨same, _⟩ | ⟨cursor, lower, kept, left, indexes⟩
  · rw [same]
    exact beside
  · apply indexes.sound _ rfl apart
    by_cases failed : state.failedRevertFrom = 0
    · rw [kept failed]
      exact beside.covered failed
    · exact (beside.broken failed).2.resumed lower (left failed)

theorem Realtime.Sound.step (sound : state.Sound startBlock) (config : RealtimeConfig) (event : RealtimeEvent)
    (heeded : Heeded state event) :
    (realtimeStep config state event).Sound startBlock := by
  cases event with
  | safe safeBlock answers =>
    obtain ⟨apart, leaves⟩ := heeded
    have jumped := sound.jump config safeBlock answers.jump
    apply jumped.indexUpTo config safeBlock apart
    -- Where a revert is unchecked nothing jumps, so the cursor is the one the writes keep away from.
    intro write member failed
    obtain ⟨same, _, _⟩ := state.jumpIfFarBehind_cases config safeBlock answers.jump
    rw [same] at failed ⊢
    rw [(Realtime.jumpIfFarBehind_pending (sound.broken failed).1 config safeBlock answers.jump).2]
    exact leaves write member failed
  | catchup write =>
    have single : ∀ other ∈ [write], state.Leaves other := by
      intro other member
      rw [mem_singleton.mp member]
      exact heeded
    exact sound.catchup single

/-- In every run in which catch-up keeps away from what a revert deletes: wherever no failed revert is unchecked, every
block above the start block and up to the cursor is stored, or was recorded as missing after it was last stored. -/
theorem realtime_loses_no_block (config : RealtimeConfig) (start : Realtime) (events : List RealtimeEvent)
    (clean : start.failedRevertFrom = 0) (heeded : Admits (realtimeStep config) start Heeded events) :
    ∀ past, past <+: events → (run (realtimeStep config) start past).failedRevertFrom = 0 →
      ∀ number, start.lastProcessedBlock < number →
        number ≤ (run (realtimeStep config) start past).lastProcessedBlock →
        (run (realtimeStep config) start past).store.Stored number ∨
          Recorded number (run (realtimeStep config) start past).history := by
  intro past reached none number above below
  have first : start.Sound start.lastProcessedBlock :=
    ⟨fun _ number above below => absurd below (not_le.mpr above), fun failed => absurd clean failed⟩
  have sound := heeded.invariant (Realtime.Sound start.lastProcessedBlock) first
    (fun state event sound heeds => sound.step config event heeds) reached
  exact sound.covered none number above below

/-! ## A block that is lost -/

def aloneAt (height : Nat) (deletes : Outcome) : HeadAnswers where
  jump := { reorg := ⟨⟨fun _ => true, fun number => some (BitVec.ofNat 256 number)⟩, fun _ => []⟩, catchup := [], save := .ok }
  upTo :=
    { catchup := []
      below := true
      reorg := ⟨⟨fun _ => true, fun number => some (BitVec.ofNat 256 number)⟩, fun _ => []⟩
      revert := ⟨⟨true, fun _ => deletes⟩, fun _ => []⟩
      batch :=
        { cursor := true
          node := fun number => ⟨if number ≤ height then
            some ⟨BitVec.ofNat 256 number, BitVec.ofNat 256 (number - 1), 0⟩ else none, true⟩
          loop := ⟨fun _ => ⟨true, .ok⟩, fun _ => .ok, none, ⟨true, fun _ => .ok⟩⟩
          catchup := fun _ => []
          last := [] } }

def chainBlock (number : Nat) (hash : Hash) : HeadBlock :=
  ⟨number, hash, BitVec.ofNat 256 (number - 1)⟩

def freshRealtime (startBlock : Nat) : Realtime where
  store := HeadStore.empty
  history := []
  lastProcessedBlock := startBlock

def jumpOfThree : RealtimeConfig := ⟨1, 2, 1⟩

/-- Realtime jumps to block 3, catch-up stores 1 and a stale 2, and the delete of 2 is done but reports an error. -/
def lostDelete : List RealtimeEvent :=
  [.safe 4 (aloneAt 3 .ok), .catchup (.block (chainBlock 1 1)), .catchup (.block (chainBlock 2 9)),
    .safe 4 (aloneAt 3 .lost)]

theorem realtime_loses_no_block_afterLostDelete :
    Admits (realtimeStep jumpOfThree) (freshRealtime 0) Heeded (lostDelete ++ [.safe 4 (aloneAt 4 .ok)]) ∧
      (run (realtimeStep jumpOfThree) (freshRealtime 0)
        (lostDelete ++ [.safe 4 (aloneAt 4 .ok)])).lastProcessedBlock = 4 ∧
      ((run (realtimeStep jumpOfThree) (freshRealtime 0) (lostDelete ++ [.safe 4 (aloneAt 4 .ok)])).store.Stored 2 ∨
        Recorded 2 (run (realtimeStep jumpOfThree) (freshRealtime 0)
          (lostDelete ++ [.safe 4 (aloneAt 4 .ok)])).history) := by
  have heeded : Admits (realtimeStep jumpOfThree) (freshRealtime 0) Heeded
      (lostDelete ++ [.safe 4 (aloneAt 4 .ok)]) := by
    have quiet (state : Realtime) (height : Nat) (deletes : Outcome) : Heeded state (.safe 4 (aloneAt height deletes)) :=
      ⟨fun _ _ member => absurd member not_mem_nil, fun _ member => absurd member not_mem_nil⟩
    refine admits_cons (quiet _ _ _) (admits_cons ?_ (admits_cons ?_ (admits_cons (quiet _ _ _)
      (admits_cons (quiet _ _ _) (admits_nil _)))))
    · exact fun failed => absurd (by decide +kernel) failed
    · exact fun failed => absurd (by decide +kernel) failed
  refine ⟨heeded, by decide +kernel, ?_⟩
  exact realtime_loses_no_block jumpOfThree (freshRealtime 0) _ rfl heeded _ prefix_rfl (by decide +kernel) 2
    (by decide) (by decide +kernel)

/-- Catch-up stores block 3 before the check: the check finds the cursor stored, and block 2 is neither stored nor
recorded since it last was. -/
theorem block_two_lost :
    let events := lostDelete ++ [.catchup (.block (chainBlock 3 3)), .safe 4 (aloneAt 4 .ok)]
    let ended := run (realtimeStep jumpOfThree) (freshRealtime 0) events
    ended.failedRevertFrom = 0 ∧ ended.lastProcessedBlock = 4 ∧ ¬ended.store.Stored 2 ∧ ¬Recorded 2 ended.history := by
  decide +kernel

end OpsIndexer.Indexing
