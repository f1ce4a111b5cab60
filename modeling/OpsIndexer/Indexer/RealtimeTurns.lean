import OpsIndexer.Indexer.HeadTurns
import OpsIndexer.Indexer.Realtime

/-!
# What realtime's batches do

Both head loops act on the store, its history and the cursor through a few changes: a block is stored, the cursor moves
to the next block, the next block is recorded as missing, or blocks above the cursor are reverted. A batch is a chain
of such changes and of catch-up's writes between them.
-/

namespace OpsIndexer.Indexing

open Eth Db Lib.Runs List

structure Seen where
  watched : Watched
  cursor : Nat

inductive Change (limit : Nat) : Seen → Seen → Prop
  | beside (watched : Watched) (cursor : Nat) (write : CatchupWrite) :
      Change limit ⟨watched, cursor⟩ ⟨watched.catchup write, cursor⟩
  | stores (watched : Watched) (cursor : Nat) (block : HeadBlock) (within : block.number ≤ limit) :
      Change limit ⟨watched, cursor⟩
        ⟨⟨watched.store.addBlock block, .stored block.number :: watched.history⟩, cursor⟩
  | reaches (watched : Watched) (cursor : Nat) (within : cursor + 1 ≤ limit)
      (stored : watched.store.Stored (cursor + 1)) : Change limit ⟨watched, cursor⟩ ⟨watched, cursor + 1⟩
  | records (watched : Watched) (cursor : Nat) (within : cursor + 1 ≤ limit) :
      Change limit ⟨watched, cursor⟩
        ⟨⟨watched.store.requeue (cursor + 1), .saved (cursor + 1) (cursor + 1) :: watched.history⟩, cursor + 1⟩
  | requeues (watched : Watched) (cursor number : Nat) :
      Change limit ⟨watched, cursor⟩ ⟨{ watched with store := watched.store.requeue number }, cursor⟩
  | reverts (watched : Watched) (cursor : Nat) (next : HeadStore) {cut : Nat} (above : cursor < cut)
      (left : watched.store.CutAt next cut) :
      Change limit ⟨watched, cursor⟩ ⟨{ watched with store := next }, cursor⟩
  | deletes (watched : Watched) (cursor : Nat) {number : Nat} (above : cursor < number) :
      Change limit ⟨watched, cursor⟩ ⟨{ watched with store := watched.store.deleteBlock number }, cursor⟩
  | lowers (watched : Watched) {cursor lower : Nat} (below : lower ≤ cursor) :
      Change limit ⟨watched, cursor⟩ ⟨watched, lower⟩

def Changes (limit : Nat) : Seen → Seen → Prop :=
  Relation.ReflTransGen (Change limit)

theorem Changes.refl {limit : Nat} (seen : Seen) : Changes limit seen seen :=
  Relation.ReflTransGen.refl

theorem Change.chain {limit : Nat} {first last : Seen} (change : Change limit first last) : Changes limit first last :=
  Relation.ReflTransGen.single change

def Loop.seen (loop : Loop) (history : List StoreOp) : Seen :=
  ⟨⟨loop.store, (loop.log.filterMap Batch.landingOp).reverse ++ history⟩, loop.lastIndexed⟩

def Batch.seen (batch : Batch) : Seen :=
  batch.pipeline.toLoop.seen batch.history

theorem Batch.seen_enter (pipeline : Pipeline) (history : List StoreOp) :
    (Batch.enter pipeline history).seen = pipeline.toLoop.seen history := by
  simp [Batch.enter, Batch.seen, Loop.seen]

/-! ## Begun writes -/

structure InFlight.Fits (flight : InFlight) (store : HeadStore) : Prop where
  stored : flight.begun = .ok .stored → store.Stored flight.block.number
  opened : ∀ block, flight.begun = .ok (.opened block) → block = flight.block
  differs : ∀ number, flight.begun = .error (.differs number) → number = flight.block.number

theorem beginBlockData_fits (store : HeadStore) (block : HeadBlock) (begins : Bool) :
    InFlight.Fits ⟨block, store.beginBlockData block begins⟩ store := by
  rw [HeadStore.beginBlockData]
  cases begins with
  | false => exact ⟨by simp, by simp, by simp⟩
  | true =>
    cases found : store.getBlock block.number with
    | none => exact ⟨by simp, by simp, by simp⟩
    | some row =>
      have there : store.Stored block.number := ⟨row, HeadStore.getBlock_eq_some.mp found⟩
      by_cases same : row.hash = block.hash
      · simp only [if_true, if_pos same]
        exact ⟨fun _ => there, by simp, by simp⟩
      · simp only [if_true, if_neg same]
        exact ⟨by simp, by simp, fun number known => by cases known; rfl⟩

theorem InFlight.Fits.mono {flight : InFlight} {store next : HeadStore} (fits : flight.Fits store)
    (grows : ∀ number, store.Stored number → next.Stored number) : flight.Fits next where
  stored := fun begun => grows _ (fits.stored begun)
  opened := fits.opened
  differs := fits.differs

variable {number next : Nat} {pipeline : Pipeline} {block : FetchedBlock}

section

variable {limit : Nat} (history : List StoreOp)

/-! ## Writes and skips -/

theorem finish_changes {loop next : Loop} {block : HeadBlock} {write : HeadWrite} (ends : Outcome)
    (number : block.number = loop.lastIndexed + 1) (within : block.number ≤ limit)
    (stored : write = .stored → loop.store.Stored block.number) (opened : ∀ other, write = .opened other → other = block)
    (store : next.store = (loop.store.finish write ends).1) (log : next.log = loop.log ++ landing block write ends)
    (cursor : next.lastIndexed = if (loop.store.finish write ends).2 then block.number else loop.lastIndexed) :
    Changes limit (loop.seen history) (next.seen history) := by
  simp only [Loop.seen, store, log, cursor]
  cases write with
  | stored =>
    simp only [HeadStore.finish, landing, if_true, filterMap_append, number, filterMap_cons, filterMap_nil,
      Batch.landingOp, append_nil]
    apply Change.chain
    apply Change.reaches
    · exact number ▸ within
    · exact number ▸ stored rfl
  | opened other =>
    rw [opened other rfl]
    have added : Change limit (loop.seen history)
        ⟨⟨loop.store.addBlock block, .stored block.number :: (loop.seen history).watched.history⟩, loop.lastIndexed⟩ :=
      Change.stores (loop.seen history).watched loop.lastIndexed block within
    cases ends with
    | fail =>
      simp only [HeadStore.finish, landing, Outcome.applied, bne_self_eq_false, Bool.false_eq_true, if_false,
        append_nil]
      exact Changes.refl _
    | lost =>
      simpa [HeadStore.finish, landing, Outcome.applied, Batch.landingOp, Loop.seen] using added.chain
    | ok =>
      have there : (loop.store.addBlock block).Stored (loop.lastIndexed + 1) :=
        HeadStore.stored_addBlock.mpr (.inr number.symm)
      have moved : Changes limit _ _ := added.chain.tail (Change.reaches _ _ (number ▸ within) there)
      simpa [HeadStore.finish, landing, Outcome.applied, Batch.landingOp, number, Loop.seen] using moved

theorem write_changes {loop next : Loop} {block : HeadBlock} {outcome : WriteOutcome} {failure : Option HeadError}
    (written : loop.write block outcome = (next, failure)) (number : block.number = loop.lastIndexed + 1)
    (within : block.number ≤ limit) : Changes limit (loop.seen history) (next.seen history) := by
  have fits := beginBlockData_fits loop.store block outcome.begins
  rw [Loop.write] at written
  cases begun : loop.store.beginBlockData block outcome.begins with
  | error refused =>
    rw [begun] at written
    cases written
    exact Changes.refl _
  | ok write =>
    simp only [begun] at written fits
    have stored : write = .stored → loop.store.Stored block.number := fun same => fits.stored (same ▸ rfl)
    have opened : ∀ other, write = .opened other → other = block := fun other same => fits.opened other (same ▸ rfl)
    cases finished : loop.store.finish write outcome.ends with
    | mk store done =>
      rw [finished] at written
      cases done <;> cases written <;>
        exact finish_changes history outcome.ends number within stored opened (by rw [finished]) rfl
          (by rw [finished]; rfl)

theorem skip_changes {loop : Loop} (next : number = loop.lastIndexed + 1) (within : number ≤ limit)
    (raw : RawHead) (requeue : Outcome) :
    Changes limit (loop.seen history) ((loop.skip number raw requeue).1.seen history) ∧
      (loop.skip number raw requeue).1.lastIndexed =
        if (loop.skip number raw requeue).2 then number else loop.lastIndexed := by
  rw [Loop.skip]
  rcases skip_cases loop.receipts loop.store number requeue with ⟨store, touched, skipped⟩ | ⟨_, skipped⟩
  · rw [skipped]
    apply And.intro
    · rcases touched with rfl | rfl
      · exact Changes.refl _
      · exact (Change.requeues _ _ number).chain
    · rfl
  · rw [skipped]
    apply And.intro
    · have recorded := Change.records (loop.seen history).watched loop.lastIndexed (next ▸ within)
      rw [← next] at recorded
      simpa [Loop.seen, Batch.landingOp] using recorded.chain
    · rfl

/-! ## The pipelined loop -/

structure Pipeline.Lined (pipeline : Pipeline) (next : Nat) : Prop where
  numbers : (pipeline.queue.map fun flight => flight.block.number) =
    List.range' (pipeline.lastIndexed + 1) pipeline.queue.length
  next : pipeline.lastIndexed + 1 + pipeline.queue.length = next
  fits : ∀ flight ∈ pipeline.queue, flight.Fits pipeline.store
  fresh : pipeline.stale = none

def Pipeline.StaleAbove (pipeline : Pipeline) : Prop :=
  ∀ number, pipeline.stale = some (.differs number) → pipeline.lastIndexed < number

theorem Pipeline.Lined.staleAbove (lined : pipeline.Lined next) :
    pipeline.StaleAbove := by
  intro number known
  rw [lined.fresh] at known
  cases known

theorem finish_grows (store : HeadStore) (write : HeadWrite) (ends : Outcome)
    (stored : store.Stored number) : (store.finish write ends).1.Stored number := by
  cases write with
  | stored => exact stored
  | opened block =>
    simp only [HeadStore.finish]
    split
    · exact HeadStore.stored_addBlock.mpr (.inl stored)
    · exact stored

theorem finishOldest_changes (answers : LoopAnswers) (lined : pipeline.Lined next)
    (within : next ≤ limit + 1) {flight : InFlight} {rest : List InFlight} (queue : pipeline.queue = flight :: rest) :
    Changes limit (pipeline.toLoop.seen history) ((pipeline.finishOldest answers).1.toLoop.seen history) ∧
      (pipeline.finishOldest answers).1.queue = rest ∧ (pipeline.finishOldest answers).1.StaleAbove ∧
      ((pipeline.finishOldest answers).2 = true → (pipeline.finishOldest answers).1.Lined next) := by
  have numbers := lined.numbers
  have fits := lined.fits
  have last := lined.next
  rw [queue, map_cons, length_cons, List.range'_succ, List.cons.injEq] at numbers
  rw [queue, length_cons] at last
  rw [queue] at fits
  have own := fits flight mem_cons_self
  have number : flight.block.number = pipeline.lastIndexed + 1 := numbers.1
  have bound : flight.block.number ≤ limit := by omega
  cases begun : flight.begun with
  | error failure =>
    simp only [Pipeline.finishOldest, queue, begun]
    refine ⟨Changes.refl _, trivial, ?_, by simp⟩
    intro stale known
    have same := own.differs stale (begun.trans (congrArg Except.error (Option.some.inj known)))
    simp only
    omega
  | ok write =>
    have stored : write = .stored → pipeline.store.Stored flight.block.number :=
      fun same => own.stored (same ▸ begun)
    have opened : ∀ other, write = .opened other → other = flight.block :=
      fun other same => own.opened other (same ▸ begun)
    have grows := fun number => @finish_grows number pipeline.store write (answers.writes flight.block.number).ends
    simp only [Pipeline.finishOldest, queue, begun]
    cases finished : pipeline.store.finish write (answers.writes flight.block.number).ends with
    | mk store done =>
      rw [finished] at grows
      have ended := fun next : Loop => @finish_changes limit history pipeline.toLoop next flight.block write
        (answers.writes flight.block.number).ends number bound stored opened
      rw [finished] at ended
      cases done with
      | false =>
        refine ⟨ended _ rfl rfl rfl, rfl, ?_, by simp⟩
        intro stale known
        simp only [lined.fresh] at known
        cases known
      | true =>
        refine ⟨ended _ rfl rfl rfl, rfl, ?_, fun _ => ⟨?_, ?_, ?_, lined.fresh⟩⟩
        · intro stale known
          simp only [lined.fresh] at known
          cases known
        · simpa only [number] using numbers.2
        · simp only
          omega
        · intro other member
          exact (fits other (mem_cons_of_mem _ member)).mono grows

theorem drainCount_changes (answers : LoopAnswers) (count : Nat)
    (lined : pipeline.Lined next) (within : next ≤ limit + 1) (length : pipeline.queue.length = count) :
    Changes limit (pipeline.toLoop.seen history) ((Pipeline.drainCount answers count pipeline).1.toLoop.seen history) ∧
      (Pipeline.drainCount answers count pipeline).1.queue = [] ∧
      (Pipeline.drainCount answers count pipeline).1.StaleAbove ∧
      ((Pipeline.drainCount answers count pipeline).2 = true →
        (Pipeline.drainCount answers count pipeline).1.Lined next) := by
  induction count generalizing pipeline with
  | zero =>
    have empty := length_eq_zero_iff.mp length
    exact ⟨Changes.refl _, empty, lined.staleAbove, fun _ => lined⟩
  | succ count ih =>
    obtain ⟨flight, rest, queue⟩ := exists_cons_of_length_eq_add_one length
    obtain ⟨changes, shorter, above, goes⟩ := finishOldest_changes history answers lined within queue
    rw [Pipeline.drainCount]
    cases finished : pipeline.finishOldest answers with
    | mk after done =>
      rw [finished] at changes shorter above goes
      cases done with
      | false => exact ⟨changes, rfl, above, by simp⟩
      | true =>
        have left : after.queue.length = count := by
          rw [queue, length_cons] at length
          rw [shorter]
          omega
        obtain ⟨later, empty, aboveLater, goesLater⟩ := ih (goes rfl) left
        exact ⟨changes.trans later, empty, aboveLater, goesLater⟩

def Pipeline.Resting (limit : Nat) (pipeline : Pipeline) : Prop :=
  (∃ next ≤ limit + 1, pipeline.Lined next) ∨ pipeline.queue = [] ∧ pipeline.StaleAbove

theorem revertStale_changes (answers : LoopAnswers) (above : pipeline.StaleAbove) :
    Changes limit (pipeline.toLoop.seen history) ((pipeline.revertStale answers).toLoop.seen history) := by
  rw [Pipeline.revertStale]
  cases known : pipeline.stale with
  | none => exact Changes.refl _
  | some failure =>
    cases failure with
    | other => exact Changes.refl _
    | differs number =>
      obtain ⟨cut, reverted⟩ := handleReorg_reverted pipeline.store number answers.revert
      have higher := above number known
      exact (Change.reverts (pipeline.toLoop.seen history).watched pipeline.lastIndexed _
        (higher.trans_le reverted.above) reverted.left).chain

theorem Pipeline.Resting.close (answers : LoopAnswers) (resting : pipeline.Resting limit) :
    Changes limit (pipeline.toLoop.seen history)
      (((pipeline.drain answers).1.revertStale answers).toLoop.seen history) := by
  rcases resting with ⟨next, within, lined⟩ | ⟨empty, above⟩
  · obtain ⟨changes, _, above, _⟩ := drainCount_changes history answers _ lined within rfl
    exact changes.trans (revertStale_changes history answers above)
  · have same : (pipeline.drain answers).1 = pipeline := by
      rw [Pipeline.drain, empty]
      rfl
    rw [same]
    exact revertStale_changes history answers above

theorem Pipeline.Lined.congr {other : Pipeline} (lined : pipeline.Lined next)
    (queue : other.queue = pipeline.queue) (cursor : other.lastIndexed = pipeline.lastIndexed)
    (store : other.store = pipeline.store) (stale : other.stale = pipeline.stale) : other.Lined next where
  numbers := by rw [queue, cursor, lined.numbers]
  next := by rw [queue, cursor, lined.next]
  fits := by rw [queue, store]; exact lined.fits
  fresh := by rw [stale, lined.fresh]

theorem Pipeline.lined_of_empty (empty : pipeline.queue = []) (fresh : pipeline.stale = none) :
    pipeline.Lined (pipeline.lastIndexed + 1) where
  numbers := by simp [empty]
  next := by simp [empty]
  fits := by simp [empty]
  fresh := fresh

theorem Pipeline.Lined.cursor (lined : pipeline.Lined next)
    (empty : pipeline.queue = []) : next = pipeline.lastIndexed + 1 := by
  simpa [empty] using lined.next.symm

structure Turns (limit : Nat) (history : List StoreOp) (pipeline : Pipeline) (number : Nat) (turned : Pipeline × Bool) :
    Prop where
  changes : Changes limit (pipeline.toLoop.seen history) (turned.1.toLoop.seen history)
  goes : turned.2 = true → turned.1.Lined (number + 1)
  stops : turned.2 = false → turned.1.Resting limit

theorem Pipeline.Lined.begin {block : HeadBlock} (lined : pipeline.Lined block.number)
    (begins : Bool) : (pipeline.begin block begins).Lined (block.number + 1) where
  numbers := by
    have last : pipeline.lastIndexed + 1 + pipeline.queue.length = block.number := lined.next
    simp only [Pipeline.begin, map_append, map_singleton, length_append, length_singleton]
    rw [List.range'_concat, lined.numbers, Nat.one_mul, last]
  next := by
    have last := lined.next
    simp only [Pipeline.begin, length_append, length_singleton]
    omega
  fits := by
    intro flight member
    rcases mem_append.mp member with known | new
    · exact lined.fits flight known
    · rw [mem_singleton.mp new]
      exact beginBlockData_fits pipeline.store block begins
  fresh := lined.fresh

theorem Turns.of_skip (lined : pipeline.Lined number) (empty : pipeline.queue = [])
    (within : number ≤ limit) (raw : RawHead) (requeue : Outcome) :
    Turns limit history pipeline number
      ({ pipeline with toLoop := (pipeline.toLoop.skip number raw requeue).1 },
        (pipeline.toLoop.skip number raw requeue).2) := by
  obtain ⟨changes, cursor⟩ := skip_changes history (lined.cursor empty) within raw requeue
  apply Turns.mk changes
  · intro moved
    simp only at moved
    rw [moved, if_pos rfl] at cursor
    have after : Pipeline.Lined { pipeline with toLoop := (pipeline.toLoop.skip number raw requeue).1 } _ :=
      Pipeline.lined_of_empty empty lined.fresh
    simpa only [cursor] using after
  · intro _
    refine .inr ⟨empty, ?_⟩
    intro stale known
    simp only [lined.fresh] at known
    cases known

theorem Turns.of_write (lined : pipeline.Lined number) (empty : pipeline.queue = [])
    (within : number ≤ limit) (raw : RawHead) (outcome : WriteOutcome) :
    Turns limit history pipeline number
      (match pipeline.toLoop.write (raw.toBlock number) outcome with
      | (loop, none) => ({ pipeline with toLoop := loop }, true)
      | (loop, some failure) => ({ pipeline with toLoop := loop, stale := some failure }, false)) := by
  have cursor := lined.cursor empty
  cases written : pipeline.toLoop.write (raw.toBlock number) outcome with
  | mk loop failure =>
    have changes := write_changes history written cursor within
    obtain ⟨inserts, _, moved⟩ := write_inserts written
    cases failure with
    | none =>
      refine Turns.mk changes (fun _ => ?_) (by simp)
      have after : Pipeline.Lined { pipeline with toLoop := loop } _ := Pipeline.lined_of_empty empty lined.fresh
      have reached : loop.lastIndexed = number := moved
      simpa only [reached] using after
    | some failure =>
      refine Turns.mk changes (by simp) (fun _ => .inr ⟨empty, ?_⟩)
      intro stale known
      have same := (inserts.differs stale (congrArg some (Option.some.inj known))).1
      have kept : loop.lastIndexed = pipeline.lastIndexed := moved
      rw [kept, same]
      simp only [RawHead.toBlock]
      omega

theorem Turns.of_finish (answers : LoopAnswers)
    (lined : pipeline.Lined (number + 1)) (within : number ≤ limit) (waiting : pipeline.queue ≠ []) :
    Turns limit history pipeline number
      (match pipeline.finishOldest answers with
      | (pipeline, true) => (pipeline, true)
      | (pipeline, false) => (pipeline.abort, false)) := by
  obtain ⟨flight, rest, queue⟩ := exists_cons_of_ne_nil waiting
  obtain ⟨changes, _, above, goes⟩ := finishOldest_changes history answers lined (Nat.succ_le_succ within) queue
  cases finished : pipeline.finishOldest answers with
  | mk after done =>
    rw [finished] at changes above goes
    cases done with
    | true => exact Turns.mk changes (fun _ => goes rfl) (by simp)
    | false => exact Turns.mk changes (by simp) (fun _ => .inr ⟨rfl, above⟩)

theorem Turns.of_drain (answers : LoopAnswers) (lined : pipeline.Lined number)
    (within : number ≤ limit) (turn : Pipeline → Pipeline × Bool)
    (turns : ∀ drained : Pipeline, drained.Lined number → drained.queue = [] →
      Turns limit history drained number (turn drained)) :
    Turns limit history pipeline number
      (match pipeline.drain answers with
      | (pipeline, false) => (pipeline, false)
      | (pipeline, true) => turn pipeline) := by
  obtain ⟨changes, empty, above, goes⟩ :=
    drainCount_changes history answers _ lined (Nat.le_succ_of_le within) rfl
  rw [Pipeline.drain]
  cases drained : Pipeline.drainCount answers pipeline.queue.length pipeline with
  | mk after done =>
    rw [drained] at changes empty above goes
    cases done with
    | false => exact Turns.mk changes (by simp) (fun _ => .inr ⟨empty, above⟩)
    | true =>
      have later := turns after (goes rfl) empty
      exact Turns.mk (changes.trans later.changes) later.goes later.stops

theorem indexPipelinedBlock_turns (depth : Nat) (answers : LoopAnswers)
    (lined : pipeline.Lined block.number) (within : block.number ≤ limit) :
    Turns limit history pipeline block.number (indexPipelinedBlock depth answers pipeline block) := by
  have near : block.number ≤ limit + 1 := Nat.le_succ_of_le within
  have forgetful : Pipeline.Lined { pipeline with remembered := false } block.number := lined.congr rfl rfl rfl rfl
  rw [indexPipelinedBlock]
  split
  · exact Turns.mk (Changes.refl _) (by simp) fun _ => .inl ⟨_, near, lined.congr rfl rfl rfl rfl⟩
  · cases block with
    | unread number =>
      exact Turns.mk (Changes.refl _) (by simp) fun _ => .inl ⟨_, near, forgetful⟩
    | noReceipts number raw =>
      have turned := Turns.of_drain history answers forgetful within _
        fun drained lines empty => Turns.of_skip history lines empty within raw (answers.requeues number)
      exact ⟨turned.changes, turned.goes, turned.stops⟩
    | ready number raw =>
      have chained : Pipeline.Lined { pipeline with remembered := false, prevHash := raw.hash }
          (raw.toBlock number).number := lined.congr rfl rfl rfl rfl
      simp only
      split
      · have turned := Turns.of_drain history answers chained within _
          fun drained lines empty => Turns.of_write history lines empty within raw (answers.writes number)
        exact ⟨turned.changes, turned.goes, turned.stops⟩
      · have begun : Pipeline.Lined _ (number + 1) :=
          chained.begin (answers.writes number).begins
        split
        · have turned := Turns.of_finish history answers begun within (by simp [Pipeline.begin])
          exact ⟨turned.changes, turned.goes, turned.stops⟩
        · exact Turns.mk (Changes.refl _) (fun _ => begun) (by simp)

/-! ## The sequential loop -/

theorem indexPrefetchedBlock_turns (answers : LoopAnswers)
    (lined : pipeline.Lined block.number) (empty : pipeline.queue = []) (within : block.number ≤ limit) :
    Turns limit history pipeline block.number
      ({ pipeline with toLoop := (indexPrefetchedBlock answers pipeline.toLoop block).1 },
        (indexPrefetchedBlock answers pipeline.toLoop block).2) := by
  have cursor := lined.cursor empty
  have resting (loop : Loop) : Pipeline.Resting limit { pipeline with toLoop := loop } := by
    refine .inr ⟨empty, ?_⟩
    intro stale known
    simp only [lined.fresh] at known
    cases known
  have moves (loop : Loop) (reached : loop.lastIndexed = block.number) :
      Pipeline.Lined { pipeline with toLoop := loop } (block.number + 1) := by
    have after : Pipeline.Lined { pipeline with toLoop := loop } _ := Pipeline.lined_of_empty empty lined.fresh
    simpa only [reached] using after
  rw [indexPrefetchedBlock]
  split
  · exact Turns.mk (Changes.refl _) (by simp) fun _ => resting _
  · cases block with
    | unread number => exact Turns.mk (Changes.refl _) (by simp) fun _ => resting _
    | noReceipts number raw =>
      have forgetful : number = Loop.lastIndexed { pipeline.toLoop with remembered := false } + 1 := cursor
      obtain ⟨changes, reached⟩ := skip_changes history forgetful within raw (answers.requeues number)
      exact Turns.mk changes (fun moved => moves _ (reached.trans (if_pos moved))) fun _ => resting _
    | ready number raw =>
      cases written : Loop.write { pipeline.toLoop with remembered := false } (raw.toBlock number)
          (answers.writes number) with
      | mk loop failure =>
        have changes := write_changes history written cursor within
        obtain ⟨inserts, _, moved⟩ := write_inserts written
        simp only [written]
        cases failure with
        | none => exact Turns.mk changes (fun _ => moves _ moved) (by simp)
        | some failure =>
          refine Turns.mk ?_ (by simp) fun _ => resting _
          cases failure with
          | other => exact changes
          | differs stale =>
            have same : stale = number := (inserts.differs stale rfl).1
            have kept : loop.lastIndexed = pipeline.lastIndexed := moved
            obtain ⟨cut, reverted⟩ := handleReorg_reverted loop.store stale answers.revert
            have above : loop.lastIndexed < cut := by
              have higher := reverted.above
              have next : number = pipeline.lastIndexed + 1 := cursor
              omega
            exact changes.tail (Change.reverts _ _ _ above reverted.left)

end

/-! ## Batches -/

section

variable {limit : Nat}

theorem Watched.beside_changes (watched : Watched) (cursor : Nat) (writes : List CatchupWrite) :
    Changes limit ⟨watched, cursor⟩ ⟨watched.beside writes, cursor⟩ := by
  induction writes generalizing watched with
  | nil => exact Changes.refl _
  | cons write rest ih => exact Relation.ReflTransGen.head (Change.beside watched cursor write) (ih _)

theorem Watched.stored_beside {watched : Watched} (writes : List CatchupWrite)
    (stored : watched.store.Stored number) : (watched.beside writes).store.Stored number := by
  induction writes generalizing watched with
  | nil => exact stored
  | cons write rest ih =>
    apply ih
    cases write with
    | block block => exact HeadStore.stored_addBlock.mpr (.inl stored)
    | ranges ranges => exact stored

namespace Batch

structure Running (depth : Nat) (batch : Batch) (next : Nat) : Prop where
  lined : batch.pipeline.Lined next
  sequential : ¬1 < depth → batch.pipeline.queue = []
  entered : batch.pipeline.log = []

variable {batch : Batch}

theorem beside_changes (entered : batch.pipeline.log = []) (writes : List CatchupWrite) :
    Changes limit batch.seen (batch.beside writes).seen := by
  have changes : Changes limit _ _ := Watched.beside_changes batch.watched batch.pipeline.lastIndexed writes
  simpa [seen, Loop.seen, entered, beside, watched] using changes

theorem lined_beside (lined : batch.pipeline.Lined next) (writes : List CatchupWrite) :
    (batch.beside writes).pipeline.Lined next where
  numbers := lined.numbers
  next := lined.next
  fits := by
    intro flight member
    exact (lined.fits flight member).mono fun number stored => batch.watched.stored_beside writes stored
  fresh := lined.fresh

theorem resting_beside (resting : batch.pipeline.Resting limit) (writes : List CatchupWrite) :
    (batch.beside writes).pipeline.Resting limit := by
  rcases resting with ⟨next, within, lined⟩ | ended
  · exact .inl ⟨next, within, lined_beside lined writes⟩
  · exact .inr ended

theorem resting_enter (resting : pipeline.Resting limit) (history : List StoreOp) :
    (enter pipeline history).pipeline.Resting limit := by
  rcases resting with ⟨next, within, lined⟩ | ended
  · exact .inl ⟨next, within, lined.congr rfl rfl rfl rfl⟩
  · exact .inr ended

structure Taken (limit depth : Nat) (batch : Batch) (number : Nat) (turned : Batch × Bool) : Prop where
  changes : Changes limit batch.seen turned.1.seen
  goes : turned.2 = true → turned.1.Running depth (number + 1)
  stops : turned.2 = false → turned.1.pipeline.Resting limit
  entered : turned.1.pipeline.log = []

theorem Running.turn {depth : Nat} (running : batch.Running depth block.number)
    (within : block.number ≤ limit) (answers : BatchAnswers) :
    Taken limit depth batch block.number (batch.turn depth answers block) := by
  have before : Changes limit batch.seen (batch.beside (answers.catchup block.number)).seen :=
    beside_changes running.entered (answers.catchup block.number)
  have lined := lined_beside running.lined (answers.catchup block.number)
  rw [Batch.turn]
  split
  · next pipelined =>
    have turned := indexPipelinedBlock_turns (batch.beside (answers.catchup block.number)).history depth answers.loop lined
      within
    refine Taken.mk ?_ (fun more => ⟨?_, fun single => absurd pipelined single, rfl⟩) (fun stop => ?_) rfl
    · rw [seen_enter]
      exact before.trans turned.changes
    · exact (turned.goes more).congr rfl rfl rfl rfl
    · exact resting_enter (turned.stops stop) _
  · next single =>
    have empty : (batch.beside (answers.catchup block.number)).pipeline.queue = [] := running.sequential single
    have turned := indexPrefetchedBlock_turns (batch.beside (answers.catchup block.number)).history answers.loop lined empty
      within
    refine Taken.mk ?_ (fun more => ⟨?_, fun _ => empty, rfl⟩) (fun stop => ?_) rfl
    · rw [seen_enter]
      exact before.trans turned.changes
    · exact (turned.goes more).congr rfl rfl rfl rfl
    · exact resting_enter (turned.stops stop) _

theorem Running.loop {depth : Nat} {start : Batch} {blocks : List FetchedBlock} {first : Nat}
    (running : start.Running depth first) (numbers : blocks.map FetchedBlock.number = List.range' first blocks.length)
    (last : first + blocks.length = limit + 1) (answers : BatchAnswers) :
    Changes limit start.seen (foldUntil (Batch.turn depth answers) start blocks).seen ∧
      (foldUntil (Batch.turn depth answers) start blocks).pipeline.Resting limit ∧
      (foldUntil (Batch.turn depth answers) start blocks).pipeline.log = [] := by
  refine foldUntil_induction
    (fun rest batch => Changes limit start.seen batch.seen ∧ ∃ next, batch.Running depth next ∧
      rest.map FetchedBlock.number = List.range' next rest.length ∧ next + rest.length = limit + 1)
    (fun batch => Changes limit start.seen batch.seen ∧ batch.pipeline.Resting limit ∧ batch.pipeline.log = [])
    ?_ ?_ ?_ blocks start ⟨Changes.refl _, first, running, numbers, last⟩
  · rintro block rest batch ⟨changes, next, run, order, reach⟩ more
    rw [map_cons, length_cons, List.range'_succ, List.cons.injEq] at order
    rw [length_cons] at reach
    obtain ⟨rfl, order⟩ := order
    have taken := run.turn (by omega : block.number ≤ limit) answers
    exact ⟨changes.trans taken.changes, block.number + 1, taken.goes more, order, by omega⟩
  · rintro block rest batch ⟨changes, next, run, order, reach⟩ stop
    rw [map_cons, length_cons, List.range'_succ, List.cons.injEq] at order
    rw [length_cons] at reach
    obtain ⟨rfl, order⟩ := order
    have taken := run.turn (by omega : block.number ≤ limit) answers
    exact ⟨changes.trans taken.changes, taken.stops stop, taken.entered⟩
  · rintro batch ⟨changes, next, run, _, reach⟩
    rw [length_nil, Nat.add_zero] at reach
    exact ⟨changes, .inl ⟨next, reach.le, run.lined⟩, run.entered⟩

theorem close_changes (answers : BatchAnswers) (resting : batch.pipeline.Resting limit)
    (entered : batch.pipeline.log = []) : Changes limit batch.seen (batch.close answers).seen := by
  have before : Changes limit batch.seen (batch.beside answers.last).seen := beside_changes entered answers.last
  rw [close, seen_enter]
  exact before.trans (Pipeline.Resting.close _ answers.loop (resting_beside resting answers.last))

end Batch

theorem map_number_prefetchBlocks (node : Nat → NodeAnswer) (fromBlock toBlock : Nat) :
    (prefetchBlocks node fromBlock toBlock).map FetchedBlock.number =
      List.range' fromBlock (prefetchBlocks node fromBlock toBlock).length := by
  simp only [prefetchBlocks, map_map, Function.comp_def, fetchBlockAndReceipts_number, map_id', length_map,
    length_range']

theorem realtimeAnchor_fromBlock (store : HeadStore) (lastIndexed : Nat) (receipts : ReceiptSkip) (readable : Bool) :
    (realtimeAnchor store lastIndexed receipts readable).fromBlock = lastIndexed := by
  rw [realtimeAnchor]
  split
  · next first => exact first.symm
  · split
    · rfl
    · split
      · rfl
      · split <;> rfl

def Realtime.seen (state : Realtime) : Seen :=
  ⟨state.toWatched, state.lastProcessedBlock⟩

/-- A batch is a chain of changes up to the safe block; it does not touch the marks of a failed revert. -/
theorem Realtime.indexBatch_changes (limit : Nat) (config : RealtimeConfig) (state : Realtime) (answers : BatchAnswers) :
    Changes limit state.seen (state.indexBatch config limit answers).seen ∧
      (state.indexBatch config limit answers).failedRevertFrom = state.failedRevertFrom ∧
      (state.indexBatch config limit answers).revertPending = state.revertPending := by
  have first := realtimeAnchor_fromBlock state.store state.lastProcessedBlock
    (state.receipts.dropAbove state.lastProcessedBlock) answers.cursor
  rw [Realtime.indexBatch]
  simp only [first]
  split
  · exact ⟨Changes.refl _, rfl, rfl⟩
  · next going =>
    rw [not_or, not_le] at going
    refine ⟨?_, rfl, rfl⟩
    have started : Batch.Running config.commitPipelineDepth
        { pipeline :=
            { store := state.store, receipts := state.receipts.dropAbove state.lastProcessedBlock,
              lastIndexed := state.lastProcessedBlock,
              prevHash := (realtimeAnchor state.store state.lastProcessedBlock
                (state.receipts.dropAbove state.lastProcessedBlock) answers.cursor).hash,
              remembered := (realtimeAnchor state.store state.lastProcessedBlock
                (state.receipts.dropAbove state.lastProcessedBlock) answers.cursor).remembered }
          history := state.history } (state.lastProcessedBlock + 1) :=
      ⟨Pipeline.lined_of_empty rfl rfl, fun _ => rfl, rfl⟩
    have last : state.lastProcessedBlock + 1 +
        (prefetchBlocks answers.node (state.lastProcessedBlock + 1) limit).length = limit + 1 := by
      simp only [prefetchBlocks, length_map, length_range']
      omega
    obtain ⟨looped, resting, entered⟩ := started.loop
      (map_number_prefetchBlocks answers.node (state.lastProcessedBlock + 1) limit) last answers
    have closed := Batch.close_changes answers resting entered
    exact looped.trans closed

end

end OpsIndexer.Indexing
