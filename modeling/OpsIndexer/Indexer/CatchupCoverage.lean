import OpsIndexer.Indexer.Catchup

/-!
# What catch-up loses

A block the producer has read stays on its way until it is stored or recorded on its own. `DeleteMissingRangeByBlock`
deletes every row that contains its block, the rows nobody has read included, and with such a row its other blocks are
lost. A run loses nothing exactly when each of its deletions spares such blocks.
-/

namespace OpsIndexer.Indexing

open Db Lib.Keyset Lib.Runs List

def Catchup.Tracked (state : Catchup) (number : Nat) : Prop :=
  number ∈ state.blocks ∨ state.InFlight number ∨ (number, number) ∈ state.ranges.rows.map BlockRange.ends

def Catchup.Marked (state : Catchup) : Prop :=
  ∀ hand ∈ state.hands, hand.phase = .mark → hand.block ∈ state.blocks

def deletedBlock (state : Catchup) : CatchupEvent → Option Nat
  | .work worker outcome => do
    let hand ← state.hands[worker]?
    if hand.phase = .mark ∧ outcome.applied then some hand.block else none
  | _ => none

/-! ## One step -/

structure Advances (state next : Catchup) : Prop where
  stored : ∀ number ∈ state.blocks, number ∈ next.blocks
  tracked : ∀ number, state.Tracked number → next.Tracked number
  origin : ∀ number, next.InFlight number → state.InFlight number ∨ number ∈ next.batch
  marked : next.Marked

section

variable {state : Catchup}

variable {next : Catchup} {hands : List Hand} {blockNum number worker : Nat} {hand : Hand} {kept : Option Hand}
  {event : CatchupEvent}

theorem advances_of_flight (stored : ∀ number ∈ state.blocks, number ∈ next.blocks)
    (flight : ∀ number, state.InFlight number → next.InFlight number)
    (origin : ∀ number, next.InFlight number → state.InFlight number ∨ number ∈ next.batch)
    (ends : ∀ known ∈ state.ranges.rows.map BlockRange.ends, known ∈ next.ranges.rows.map BlockRange.ends)
    (marked : next.Marked) : Advances state next := by
  refine ⟨stored, ?_, origin, marked⟩
  rintro number (block | moving | row)
  · exact .inl (stored number block)
  · exact .inr (.inl (flight number moving))
  · exact .inr (.inr (ends _ row))

theorem advances_of_moved (blocks : next.blocks = state.blocks)
    (flight : ∀ number, next.InFlight number ↔ state.InFlight number) (ranges : next.ranges = state.ranges)
    (marked : next.Marked) : Advances state next := by
  refine advances_of_flight ?_ (fun number => (flight number).mpr) (fun number moving => .inl ((flight number).mp moving))
    ?_ marked
  · intro number block
    rw [blocks]
    exact block
  · intro known row
    rw [ranges]
    exact row

theorem Advances.refl (marked : state.Marked) : Advances state state :=
  advances_of_moved rfl (fun _ => Iff.rfl) rfl marked

theorem poll_advances (config : CatchupConfig) (sorter : Sorter BlockRange.fromNumber) (marked : state.Marked) :
    Advances state (catchupStep config state (.poll sorter)) := by
  simp only [catchupStep]
  split
  · next empty =>
    refine advances_of_flight (fun _ block => block) ?_ ?_ (fun _ row => row) marked
    · rintro number (none | rest)
      · rw [empty] at none
        cases none
      · exact .inr rest
    · rintro number (read | rest)
      · exact .inr read
      · exact .inl (.inr rest)
  · exact .refl marked

theorem queue_advances (config : CatchupConfig) (marked : state.Marked) :
    Advances state (catchupStep config state .queue) := by
  simp only [catchupStep]
  split
  · next blockNum rest batch =>
    split
    · refine advances_of_moved rfl ?_ rfl marked
      intro number
      simp only [Catchup.InFlight, batch, mem_cons, mem_append, not_mem_nil, or_false]
      tauto
    · exact .refl marked
  · exact .refl marked

theorem exists_taken :
    (∃ hand ∈ hands ++ [⟨blockNum, 1, .check⟩], hand.block = number) ↔
      (∃ hand ∈ hands, hand.block = number) ∨ blockNum = number := by
  simp only [mem_append, mem_singleton, or_and_right, exists_or, exists_eq_left]

theorem marked_taken (marked : state.Marked) (blocks : next.blocks = state.blocks)
    (hands : next.hands = state.hands ++ [⟨blockNum, 1, .check⟩]) : next.Marked := by
  intro hand busy mark
  rw [hands] at busy
  rw [blocks]
  rcases mem_append.mp busy with before | new
  · exact marked hand before mark
  · rw [mem_singleton.mp new] at mark
    cases mark

theorem handOver_advances (config : CatchupConfig) (marked : state.Marked) :
    Advances state (catchupStep config state .handOver) := by
  simp only [catchupStep]
  split
  · next blockNum rest batch =>
    split
    · refine advances_of_moved rfl ?_ rfl (marked_taken marked rfl rfl)
      intro number
      simp only [Catchup.InFlight, batch, mem_cons, exists_taken]
      grind
    · exact .refl marked
  · exact .refl marked

theorem take_advances (config : CatchupConfig) (marked : state.Marked) :
    Advances state (catchupStep config state .take) := by
  simp only [catchupStep]
  split
  · next blockNum rest workQueue =>
    split
    · refine advances_of_moved rfl ?_ rfl (marked_taken marked rfl rfl)
      intro number
      simp only [Catchup.InFlight, workQueue, mem_cons, exists_taken]
      grind
    · exact .refl marked
  · exact .refl marked

/-! ## The worker's step -/

structure Works (state : Catchup) (hand : Hand) (next : Catchup) (kept : Option Hand) : Prop where
  batch : next.batch = state.batch
  workQueue : next.workQueue = state.workQueue
  stored : ∀ number ∈ state.blocks, number ∈ next.blocks
  rows : ∀ number, (number, number) ∈ state.ranges.rows.map BlockRange.ends →
    number ∈ next.blocks ∨ (number, number) ∈ next.ranges.rows.map BlockRange.ends
  holds : ∀ later, kept = some later → later.block = hand.block ∧ (later.phase = .mark → later.block ∈ next.blocks)
  done : kept = none →
    hand.block ∈ next.blocks ∨ (hand.block, hand.block) ∈ next.ranges.rows.map BlockRange.ends

theorem retry_phase (hand : Hand) : hand.retry.phase ≠ .mark := by
  simp only [Hand.retry]
  split <;> simp

theorem works_requeued (holds : ∀ later, kept = some later → later.block = hand.block ∧ later.phase ≠ .mark) :
    Works state hand { state with ranges := requeueMissingBlock state.ranges hand.block } kept where
  batch := rfl
  workQueue := rfl
  stored := fun _ block => block
  rows := fun _ row => .inr (mem_ends_insertRange row)
  holds := fun later same => ⟨(holds later same).1, fun mark => absurd mark (holds later same).2⟩
  done := fun _ => .inr (insertRange_ends state.ranges _)

theorem works_stored {phase : Phase} :
    Works state hand { state with blocks := state.blocks.insert hand.block } (some { hand with phase := phase }) where
  batch := rfl
  workQueue := rfl
  stored := fun _ block => mem_insert_of_mem block
  rows := fun _ row => .inr row
  holds := by
    rintro later same
    cases same
    exact ⟨rfl, fun _ => mem_insert_self⟩
  done := by simp

theorem works_unchanged {later : Hand} (block : later.block = hand.block)
    (marked : later.phase = .mark → hand.block ∈ state.blocks) : Works state hand state (some later) where
  batch := rfl
  workQueue := rfl
  stored := fun _ block => block
  rows := fun _ row => .inr row
  holds := by
    rintro other same
    cases same
    exact ⟨block, fun mark => block ▸ marked mark⟩
  done := by simp

theorem works_deleted (stored : hand.block ∈ state.blocks) :
    Works state hand { state with ranges := deleteMissingRangeByBlock state.ranges hand.block } none where
  batch := rfl
  workQueue := rfl
  stored := fun _ block => block
  rows := by
    intro number row
    by_cases same : number = hand.block
    · exact .inl (same ▸ stored)
    · exact .inr (mem_ends_deleteMissingRangeByBlock row same)
  holds := by simp
  done := fun _ => .inl stored

theorem works_released (stored : hand.block ∈ state.blocks) : Works state hand state none where
  batch := rfl
  workQueue := rfl
  stored := fun _ block => block
  rows := fun _ row => .inr row
  holds := by simp
  done := fun _ => .inl stored

theorem tryBlock_works (outcome : Outcome) (marked : hand.phase = .mark → hand.block ∈ state.blocks) :
    Works state hand (tryBlock state hand outcome).1 (tryBlock state hand outcome).2 := by
  have again : Works state hand state (some hand.retry) :=
    works_unchanged rfl fun mark => absurd mark (retry_phase hand)
  obtain ⟨block, attempt, phase⟩ := hand
  cases phase with
  | check =>
    cases outcome with
    | ok =>
      refine works_unchanged rfl ?_
      dsimp only
      split
      · next stored => exact fun _ => stored
      · simp
    | fail => exact again
    | lost => exact again
  | write =>
    cases outcome with
    | ok => exact works_stored
    | fail => exact works_unchanged rfl (by simp)
    | lost => exact works_stored
  | requeue =>
    cases outcome with
    | ok => exact works_requeued fun later same => by cases same
    | fail => exact again
    | lost =>
      refine works_requeued ?_
      rintro later same
      cases same
      exact ⟨rfl, retry_phase _⟩
  | mark =>
    cases outcome with
    | ok => exact works_deleted (marked rfl)
    | fail => exact works_released (marked rfl)
    | lost => exact works_deleted (marked rfl)

theorem of_mem_replaceHand (member : hand ∈ replaceHand hands worker kept) : hand ∈ hands ∨ kept = some hand := by
  cases kept with
  | none => exact .inl (mem_of_mem_eraseIdx member)
  | some later => exact (mem_or_eq_of_mem_set member).imp_right fun same => by rw [same]

theorem mem_replaceHand {other : Hand} (busy : hands[worker]? = some hand) (member : other ∈ hands) :
    other = hand ∨ other ∈ replaceHand hands worker kept := by
  obtain ⟨index, found⟩ := mem_iff_getElem?.mp member
  by_cases same : index = worker
  · rw [same, busy, Option.some.injEq] at found
    exact .inl found.symm
  · right
    cases kept with
    | none => exact mem_eraseIdx_iff_getElem?.mpr ⟨index, same, found⟩
    | some later =>
      refine mem_iff_getElem?.mpr ⟨index, ?_⟩
      rw [replaceHand, List.getElem?_set_ne fun equal => same equal.symm, found]

theorem work_advances (config : CatchupConfig) (worker : Nat) (outcome : Outcome) (marked : state.Marked) :
    Advances state (catchupStep config state (.work worker outcome)) := by
  simp only [catchupStep]
  split
  · next hand busy =>
    have works := tryBlock_works outcome (marked hand (mem_of_getElem? busy))
    generalize tryBlock state hand outcome = result at works ⊢
    obtain ⟨next, kept⟩ := result
    dsimp only at works ⊢
    constructor
    · exact works.stored
    · rintro number (block | (read | queued | ⟨other, member, rfl⟩) | row)
      · exact .inl (works.stored number block)
      · exact .inr (.inl (.inl (works.batch.symm ▸ read)))
      · exact .inr (.inl (.inr (.inl (works.workQueue.symm ▸ queued))))
      · rcases mem_replaceHand busy member with rfl | stays
        · cases kept with
          | none => exact (works.done rfl).imp_right .inr
          | some later =>
            have placed : later ∈ replaceHand state.hands worker (some later) := by
              obtain ⟨bound, _⟩ := List.getElem?_eq_some_iff.mp busy
              exact mem_set bound later
            exact .inr (.inl (.inr (.inr ⟨later, placed, (works.holds later rfl).1⟩)))
        · exact .inr (.inl (.inr (.inr ⟨other, stays, rfl⟩)))
      · exact (works.rows number row).imp_right .inr
    · rintro number (read | queued | ⟨other, member, rfl⟩)
      · exact .inr read
      · exact .inl (.inr (.inl (works.workQueue ▸ queued)))
      · rcases of_mem_replaceHand member with before | same
        · exact .inl (.inr (.inr ⟨other, before, rfl⟩))
        · exact .inl (.inr (.inr ⟨hand, mem_of_getElem? busy, (works.holds other same).1.symm⟩))
    · intro other member mark
      rcases of_mem_replaceHand member with before | same
      · exact works.stored _ (marked other before mark)
      · exact (works.holds other same).2 mark
  · exact .refl marked

theorem step_advances (config : CatchupConfig) (event : CatchupEvent) (marked : state.Marked) :
    Advances state (catchupStep config state event) := by
  have same := Advances.refl marked
  cases event with
  | poll sorter => exact poll_advances config sorter marked
  | queue => exact queue_advances config marked
  | handOver => exact handOver_advances config marked
  | take => exact take_advances config marked
  | work worker outcome => exact work_advances config worker outcome marked
  | scan fromBlock toBlock => exact ⟨same.stored, same.tracked, same.origin, marked⟩
  | jump fromBlock toBlock => exact ⟨same.stored, same.tracked, same.origin, marked⟩
  | save index outcome =>
    simp only [catchupStep]
    split
    · refine advances_of_flight (fun _ block => block) (fun _ moving => moving) (fun _ moving => .inl moving) ?_ marked
      intro known row
      dsimp only
      split
      · exact mem_ends_saveMissingRanges row
      · exact row
    · exact same
  | store number =>
    refine advances_of_flight (fun _ block => mem_insert_of_mem block) (fun _ moving => moving)
      (fun _ moving => .inl moving) (fun _ row => row) ?_
    exact fun hand busy mark => mem_insert_of_mem (marked hand busy mark)
  | skip number =>
    exact advances_of_flight (fun _ block => block) (fun _ moving => moving) (fun _ moving => .inl moving)
      (fun _ row => mem_ends_insertRange row) marked

/-! ## Coverage -/

theorem covers_step (config : CatchupConfig) (keeps : deletedBlock state event = none)
    (covered : state.ranges.Covers number) :
    (catchupStep config state event).ranges.Covers number := by
  cases event with
  | poll sorter => simp only [catchupStep]; split <;> exact covered
  | queue => simp only [catchupStep]; split <;> [split; skip] <;> exact covered
  | handOver => simp only [catchupStep]; split <;> [split; skip] <;> exact covered
  | take => simp only [catchupStep]; split <;> [split; skip] <;> exact covered
  | work worker outcome =>
    simp only [catchupStep]
    split
    · next hand busy =>
      obtain ⟨block, attempt, phase⟩ := hand
      cases phase <;> cases outcome <;>
        simp_all [deletedBlock, tryBlock, Outcome.applied]
    · exact covered
  | scan fromBlock toBlock => exact covered
  | jump fromBlock toBlock => exact covered
  | save index outcome =>
    simp only [catchupStep]
    split
    · dsimp only
      split
      · exact covers_saveMissingRanges.mpr (.inl covered)
      · exact covered
    · exact covered
  | store number => exact covered
  | skip number => exact covers_requeueMissingBlock.mpr (.inl covered)

theorem step_of_deletedBlock (config : CatchupConfig) {block : Nat} (deletes : deletedBlock state event = some block) :
    (∃ hand ∈ state.hands, hand.phase = .mark ∧ hand.block = block) ∧
      (catchupStep config state event).blocks = state.blocks ∧
      (catchupStep config state event).batch = state.batch ∧
      (catchupStep config state event).ranges = deleteMissingRangeByBlock state.ranges block := by
  cases event with
  | work worker outcome =>
    obtain ⟨hand, busy, found⟩ := Option.bind_eq_some_iff.mp deletes
    split at found
    · next applies =>
      cases found
      refine ⟨⟨hand, mem_of_getElem? busy, applies.1, rfl⟩, ?_⟩
      obtain ⟨number, attempt, phase⟩ := hand
      obtain ⟨rfl, applied⟩ := applies
      simp only [catchupStep, busy]
      cases outcome with
      | ok => exact ⟨rfl, rfl, rfl⟩
      | fail => cases applied
      | lost => exact ⟨rfl, rfl, rfl⟩
    · cases found
  | _ => cases deletes

end

/-! ## Runs -/

def Spares (config : CatchupConfig) (start : Catchup) (past : List CatchupEvent) (block : Nat) : Prop :=
  let state := run (catchupStep config) start past
  ∀ row ∈ state.ranges.rows, row.Covers block → ∀ number, row.Covers number → number ≠ block →
    number ∈ state.blocks ∨ Once (catchupStep config) start past (fun seen => number ∈ seen.batch) ∨
      ∃ other ∈ state.ranges.rows, ¬other.Covers block ∧ other.Covers number

section

variable (config : CatchupConfig) {start : Catchup} (idle : start.Idle)

include idle

theorem run_marked (events : List CatchupEvent) : (run (catchupStep config) start events).Marked := by
  refine run_invariant Catchup.Marked ?_ (fun state event marked => (step_advances config event marked).marked) events
  intro hand busy
  rw [idle.2.2.1] at busy
  cases busy

variable {events past : List CatchupEvent} {number : Nat} {event : CatchupEvent}

theorem read_tracked (read : Once (catchupStep config) start events fun seen => number ∈ seen.batch) :
    (run (catchupStep config) start events).Tracked number := by
  refine Once.kept Catchup.Marked (run_marked config idle [])
    (fun state event marked => (step_advances config event marked).marked)
    (fun state event marked => (step_advances config event marked).tracked number) (read.imp ?_)
  exact fun state batch => .inr (.inl (.inl batch))

theorem read_of_inFlight (flight : (run (catchupStep config) start events).InFlight number) :
    Once (catchupStep config) start events fun seen => number ∈ seen.batch := by
  induction events using List.reverseRecOn with
  | nil =>
    rcases flight with read | queued | ⟨hand, busy, _⟩
    · exact Once.now read
    · exact absurd (idle.2.1 ▸ queued : number ∈ []) not_mem_nil
    · exact absurd (idle.2.2.1 ▸ busy : hand ∈ []) not_mem_nil
  | append_singleton events event ih =>
    rw [run_concat] at flight
    rw [once_concat]
    exact ((step_advances config event (run_marked config idle events)).origin number flight).imp_left ih

/-- A deletion that spares the rest of its rows loses nothing that was kept. -/
theorem kept_step (spares : ∀ block, deletedBlock (run (catchupStep config) start past) event = some block →
      Spares config start past block) (kept : (run (catchupStep config) start past).Kept number) :
    (catchupStep config (run (catchupStep config) start past) event).Kept number := by
  have advances := step_advances config event (run_marked config idle past)
  have tracked : (run (catchupStep config) start past).Tracked number →
      (catchupStep config (run (catchupStep config) start past) event).Kept number := by
    intro before
    rcases advances.tracked number before with block | flight | row
    · exact .inl block
    · exact .inr (.inr flight)
    · exact .inr (.inl (covers_of_mem_ends row))
  rcases kept with block | ⟨row, stored, covers⟩ | flight
  · exact tracked (.inl block)
  · cases deletes : deletedBlock (run (catchupStep config) start past) event with
    | none => exact .inr (.inl (covers_step config deletes ⟨row, stored, covers⟩))
    | some block =>
      obtain ⟨⟨hand, busy, mark, rfl⟩, _, _, ranges⟩ := step_of_deletedBlock config deletes
      have stays : (∃ other ∈ (run (catchupStep config) start past).ranges.rows,
          ¬other.Covers hand.block ∧ other.Covers number) →
          (catchupStep config (run (catchupStep config) start past) event).Kept number := by
        intro other
        refine .inr (.inl ?_)
        rw [ranges]
        exact covers_deleteMissingRangeByBlock.mpr other
      by_cases holds : row.Covers hand.block
      · by_cases same : number = hand.block
        · exact tracked (.inl (same ▸ run_marked config idle past hand busy mark))
        · rcases spares hand.block deletes row stored holds number covers same with block | read | other
          · exact tracked (.inl block)
          · exact tracked (read_tracked config idle read)
          · exact stays other
      · exact stays ⟨row, stored, holds, covers⟩
  · exact tracked (.inr (.inl flight))

theorem spares_of_kept {block : Nat} (deletes : deletedBlock (run (catchupStep config) start past) event = some block)
    (kept : ∀ number, (run (catchupStep config) start past).ranges.Covers number →
      (catchupStep config (run (catchupStep config) start past) event).Kept number) :
    Spares config start past block := by
  intro row stored holds number covers other
  obtain ⟨_, blocks, batch, ranges⟩ := step_of_deletedBlock config deletes
  rcases kept number ⟨row, stored, covers⟩ with stays | covered | flight
  · exact .inl (blocks ▸ stays)
  · rw [ranges] at covered
    exact .inr (.inr (covers_deleteMissingRangeByBlock.mp covered))
  · have before := (step_advances config event (run_marked config idle past)).origin number flight
    rw [batch] at before
    exact .inr (.inl (read_of_inFlight config idle (before.elim id .inl)))

end

/-- A run keeps every block that was ever recorded exactly when each of its deletions spares the other blocks of the
rows it deletes. -/
theorem nothing_lost_iff (config : CatchupConfig) (start : Catchup) (idle : start.Idle) (events : List CatchupEvent) :
    (∀ past, past <+: events → ∀ number,
      Once (catchupStep config) start past (fun seen => seen.ranges.Covers number) →
        (run (catchupStep config) start past).Kept number) ↔
    ∀ past event, past ++ [event] <+: events → ∀ block,
      deletedBlock (run (catchupStep config) start past) event = some block → Spares config start past block := by
  constructor
  · intro kept past event inside block deletes
    refine spares_of_kept config idle deletes fun number covered => ?_
    have after := kept (past ++ [event]) inside number ((once_concat _ _).mpr (.inl (Once.now covered)))
    rwa [run_concat] at after
  · intro spares past inside number
    induction past using List.reverseRecOn with
    | nil =>
      intro recorded
      exact .inr (.inl ((once_nil (catchupStep config) start).mp recorded))
    | append_singleton past event ih =>
      intro recorded
      rw [run_concat]
      rcases (once_concat _ _).mp recorded with before | now
      · have earlier := ih ((prefix_append past [event]).trans inside) before
        exact kept_step config idle (spares past event inside) earlier
      · exact .inr (.inl now)

/-- Block 5 recorded twice: in a range, and on its own after a failed write. -/
def overlappingRanges : Catchup where
  blocks := []
  ranges := requeueMissingBlock (saveMissingRanges MissingRanges.empty [(1, 10)]) 5
  batch := []
  workQueue := []
  hands := []
  found := []

def firstBlockStored : List CatchupEvent :=
  [.poll (stableSorter _), .handOver, .work 0 .ok, .work 0 .ok, .work 0 .ok]

/-- Reading both ranges at once keeps their blocks. -/
theorem nothing_lost_iff_bothRead :
    overlappingRanges.Idle ∧ ∀ past, past <+: firstBlockStored → ∀ number,
      Once (catchupStep ⟨1, 2, 1⟩) overlappingRanges past (fun seen => seen.ranges.Covers number) →
        (run (catchupStep ⟨1, 2, 1⟩) overlappingRanges past).Kept number := by
  have idle : overlappingRanges.Idle := ⟨rfl, rfl, rfl, rfl⟩
  refine ⟨idle, (nothing_lost_iff ⟨1, 2, 1⟩ overlappingRanges idle firstBlockStored).mpr ?_⟩
  intro past event inside block deletes row stored _ number covers _
  have read : ∀ row ∈ overlappingRanges.ranges.rows, ∀ number, row.Covers number →
      number ∈ (catchupStep ⟨1, 2, 1⟩ overlappingRanges (.poll (stableSorter _))).batch := by
    have rows : overlappingRanges.ranges.rows = [⟨1, 1, 10⟩, ⟨2, 5, 5⟩] := by decide
    have batch : (catchupStep ⟨1, 2, 1⟩ overlappingRanges (.poll (stableSorter _))).batch =
        5 :: List.range' 1 10 := by decide
    simp only [rows, batch, BlockRange.Covers, mem_cons, mem_range'_1]
    grind
  obtain ⟨rest, whole⟩ := inside
  rw [firstBlockStored, append_assoc] at whole
  rcases past with _ | ⟨first, _ | ⟨second, _ | ⟨third, _ | ⟨fourth, _ | ⟨fifth, others⟩⟩⟩⟩⟩
  · cases whole
    cases deletes
  · cases whole
    cases deletes
  · cases whole
    cases deletes
  · cases whole
    cases deletes
  · cases whole
    exact .inr (.inl ⟨[.poll (stableSorter _)], prefix_append _ _, read row stored number covers⟩)
  · have length := congrArg List.length whole
    simp at length

/-- Reading only the newest range, the worker that stores block 5 deletes the other one unread. -/
theorem unread_range_lost :
    overlappingRanges.ranges.Covers 1 ∧
      ¬(run (catchupStep ⟨1, 1, 1⟩) overlappingRanges firstBlockStored).Kept 1 := by
  decide

end OpsIndexer.Indexing
