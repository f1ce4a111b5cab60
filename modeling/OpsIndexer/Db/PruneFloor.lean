import OpsIndexer.Db.PruneRuns

/-!
# A pruned range and the reverts after it

What `prune_advance` has checked, in a state that can be reached, and why no later revert above the floor is refused for
its day: the newest pruned block is older than the day of the floor block, and a block above the floor is no older.
-/

namespace OpsIndexer.Db

open Eth OpsIndexer.Types Lib.Tally Lib.Recount Lib.Runs List

section Range

variable {history : History} {range : HistoryRange} {hi head : Nat} {daily : Int}

theorem Prunable.stored (prunable : Prunable history range hi head daily) (kept : Kept history)
    (distinct : (history.blocks.map (·.number)).Nodup) {number : Nat} (held : range.holds number)
    (positive : number ≠ 0) : ∃ block ∈ history.blocks, range.holds block.number ∧ block.number = number := by
  have complete := prunable.complete
  unfold History.historyRangeComplete at complete
  rw [prunable.bounded] at complete
  simp only [Bool.and_eq_true, decide_eq_true_eq] at complete
  have count := complete.2
  generalize start : max (max (range.lo.getD 0) history.historyFrom) 1 = first at count
  have above := kept.above range prunable.listed prunable.attached
  have low : range.lo.getD 0 ≤ number := by
    cases bound : range.lo with
    | none => exact Nat.zero_le _
    | some lo => exact held.1 lo bound
  have numbers : number ∈ ((history.rangeBlocks range).filter fun block => first ≤ block.number).map (·.number) := by
    apply mem_of_length_eq first hi
    · exact distinct.sublist ((filter_sublist.trans filter_sublist).map _)
    · intro other member
      obtain ⟨block, listed, rfl⟩ := mem_map.mp member
      obtain ⟨inRange, from_⟩ := mem_filter.mp listed
      have inside : range.holds block.number := of_decide_eq_true (mem_filter.mp inRange).2
      exact ⟨of_decide_eq_true from_, inside.2 hi prunable.bounded⟩
    · rw [length_map]
      exact count
    · omega
    · exact held.2 hi prunable.bounded
  obtain ⟨block, listed, same⟩ := mem_map.mp numbers
  have inRange := mem_filter.mp (mem_of_mem_filter listed)
  exact ⟨block, inRange.1, of_decide_eq_true inRange.2, same⟩

theorem Prunable.last (prunable : Prunable history range hi head daily) (kept : Kept history) (wide : 1 < hi) :
    range.holds (hi - 1) ∧ history.ledger.prunedThrough < hi - 1 := by
  have above := kept.above range prunable.listed prunable.attached
  have low : range.lo.getD 0 ≤ hi - 1 := by
    cases bound : range.lo with
    | none => exact Nat.zero_le _
    | some lo =>
      have proper := kept.sized range prunable.listed lo bound hi prunable.bounded
      simp only [Option.getD_some]
      omega
  refine ⟨⟨fun lo is => ?_, fun other is => ?_⟩, ?_⟩
  · rw [is] at low
    exact low
  · rw [prunable.bounded] at is
    have := Option.some.inj is
    omega
  · have from_ := above.trans low
    unfold History.historyFrom Ledger.historyFrom Db.historyFrom at from_
    split at from_ <;> omega

theorem Prunable.floor (prunable : Prunable history range hi head daily) (kept : Kept history)
    (distinct : (history.blocks.map (·.number)).Nodup) (wide : 1 < hi) :
    ∃ last ∈ history.blocks, ∃ floor ∈ history.blocks, ∃ newest,
      last.number = hi - 1 ∧ floor.number + pruneFloorGap ≤ head ∧
      history.historyRangeNewestTs range = some newest ∧ last.timestamp ≤ newest ∧
      newest < dayStart floor.timestamp := by
  obtain ⟨held, _⟩ := prunable.last kept wide
  obtain ⟨last, stored, inside, named⟩ := prunable.stored kept distinct held (by omega)
  have below : last.number + pruneFloorGap ≤ head := by
    have := prunable.belowFloor
    omega
  obtain ⟨floor, found⟩ : ∃ floor, history.floorBlock = some floor := by
    unfold History.floorBlock
    rw [prunable.highest, Option.bind_some]
    apply Option.ne_none_iff_exists'.mp
    intro empty
    have absent := argmax_eq_none.mp empty
    have present : last ∈ history.blocks.filter fun block => block.number + pruneFloorGap ≤ head :=
      mem_filter.mpr ⟨stored, decide_eq_true below⟩
    rw [absent] at present
    cases present
  have floorIn : floor ∈ history.blocks ∧ floor.number + pruneFloorGap ≤ head := by
    have chosen := found
    unfold History.floorBlock at chosen
    rw [prunable.highest, Option.bind_some] at chosen
    have member := mem_filter.mp (argmax_mem chosen)
    exact ⟨member.1, of_decide_eq_true member.2⟩
  have lastIn : last.timestamp ∈ (history.rangeBlocks range).map (·.timestamp) :=
    mem_map_of_mem (mem_filter.mpr ⟨stored, decide_eq_true inside⟩)
  obtain ⟨newest, known⟩ : ∃ newest, history.historyRangeNewestTs range = some newest := by
    apply Option.ne_none_iff_exists'.mp
    intro empty
    rw [List.max?_eq_none_iff.mp empty] at lastIn
    cases lastIn
  have before := prunable.beforeReorgDay
  unfold History.historyRangeBeforeReorgDay History.pruneDayFloor at before
  rw [found, known] at before
  exact ⟨last, stored, floor, floorIn.1, newest, named, floorIn.2, known,
    (List.max?_eq_some_iff.mp known).2 _ lastIn, of_decide_eq_true before⟩

theorem Prunable.not_straddled (prunable : Prunable history range hi head daily) (kept : Kept history) {first : Nat}
    (closed : ClosedSpans first history.ledger) :
    ∀ span ∈ history.ledger.spans, ¬(span.lo < (history.advanced range hi).historyFrom ∧
      (history.advanced range hi).historyFrom < span.hi) := by
  intro span member straddles
  obtain ⟨ending, endingMember, ends⟩ := prunable.closed
  have above := kept.above range prunable.listed prunable.attached
  have low : range.lo.getD 0 ≤ hi := by
    cases bound : range.lo with
    | none => exact Nat.zero_le _
    | some lo => exact (kept.sized range prunable.listed lo bound hi prunable.bounded).le
  have from_ : (history.advanced range hi).historyFrom = hi := by
    have start := above.trans low
    have positive := straddles.1
    unfold History.historyFrom Ledger.historyFrom Db.historyFrom at start positive ⊢
    rw [advanced_prunedThrough] at positive ⊢
    split at positive
    · rw [if_pos ‹_›]
      split at start <;> omega
    · omega
  rw [from_] at straddles
  have differ : span.recorded ≠ ending.recorded := by
    intro same
    have : span.hi = ending.hi := congrArg Span.hi same
    omega
  have apart := apart_of_ne closed.apart (mem_map_of_mem member) (mem_map_of_mem endingMember) differ
  have wide : ending.lo < ending.hi := closed.wide ending.recorded (mem_map_of_mem endingMember)
  have bounds : span.hi ≤ ending.lo ∨ ending.hi ≤ span.lo := apart
  omega

end Range

/-! ## Later states -/

def PruneEvent.Above (head : Nat) : PruneEvent → Prop
  | .insertBlock _ _ => True
  | .insertBlockDataBatch _ _ => True
  | .deleteBlock number => head < number + pruneFloorGap
  | .fold _ => True
  | _ => False

def InTime (blocks : List Block) : Prop :=
  ∀ first ∈ blocks, ∀ second ∈ blocks, first.number < second.number → first.timestamp ≤ second.timestamp

instance decidableInTime (blocks : List Block) : Decidable (InTime blocks) :=
  inferInstanceAs (Decidable (∀ first ∈ blocks, ∀ second ∈ blocks,
    first.number < second.number → first.timestamp ≤ second.timestamp))

section Later

variable {keccak256 : Bytes → Hash} {config : LedgerConfig}

theorem step_ever (state : Pruning) (event : PruneEvent) :
    ∀ block ∈ state.ever, block ∈ (state.step keccak256 config event).ever :=
  fun _ member => mem_append_left _ member

theorem run_ever (state : Pruning) (events : List PruneEvent) :
    ∀ block ∈ state.ever, block ∈ (run (Pruning.step keccak256 config) state events).ever :=
  run_invariant (fun later => ∀ block ∈ state.ever, block ∈ later.ever) (fun _ member => member)
    (fun later event kept block member => step_ever later event block (kept block member)) events

variable {head number : Nat} {state : Pruning}

theorem step_prunedThroughTs {event : PruneEvent} (above : event.Above head) :
    (state.step keccak256 config event).history.prunedThroughTs = state.history.prunedThroughTs := by
  have moved : (state.retaining.transact (event.change keccak256 config state.history)).history.prunedThroughTs =
      state.history.prunedThroughTs := by
    cases done : event.change keccak256 config state.history with
    | none => rfl
    | some next =>
      unfold Retaining.transact
      dsimp only
      split
      · exact (change_changed done).prunedTs
      · rfl
  cases event with
  | retain event => cases above
  | _ => exact moved

theorem run_prunedThroughTs (state : Pruning) {events : List PruneEvent} (above : ∀ event ∈ events, event.Above head) :
    (run (Pruning.step keccak256 config) state events).history.prunedThroughTs = state.history.prunedThroughTs := by
  induction events using List.reverseRecOn with
  | nil => rfl
  | append_singleton events event ih =>
    rw [run_concat, step_prunedThroughTs (above event (mem_append_right _ (mem_singleton_self _)))]
    exact ih fun other member => above other (mem_append_left _ member)

theorem dailyStatsInvalidate_eq_none {history : History} (refused : history.dailyStatsInvalidate number = none) :
    ∃ block ∈ history.blocks, block.number = number ∧ dayStart block.timestamp ≤ history.prunedThroughTs := by
  unfold History.dailyStatsInvalidate at refused
  split at refused
  · cases refused
  · split at refused
    · cases refused
    · split at refused
      · cases refused
      · rename_i block found
        dsimp only at refused
        split at refused
        · rename_i late
          exact ⟨block, mem_of_find?_eq_some found, by simpa using List.find?_some found, late⟩
        · cases refused

theorem dayStart_mono {first second : Nat} (le : first ≤ second) : dayStart first ≤ dayStart second := by
  unfold dayStart
  omega

/-- After a prune, in any state in time that only writes and reverts above the floor have led to, no day above the
floor is refused. -/
theorem Pruning.Sound.invalidates {final : Pruning} (sound : state.Sound config) (kept : Kept state.history)
    {range : HistoryRange} {hi : Nat} {daily : Int} (prunable : Prunable state.history range hi head daily)
    (wide : 1 < hi) (later : final.Sound config) (grown : ∀ block ∈ state.ever, block ∈ final.ever)
    (stamp : final.history.prunedThroughTs = (state.history.advanced range hi).prunedThroughTs)
    (inTime : InTime final.ever) (above : head < number + pruneFloorGap) :
    final.history.dailyStatsInvalidate number ≠ none := by
  intro refused
  obtain ⟨block, stored, named, late⟩ := dailyStatsInvalidate_eq_none refused
  obtain ⟨last, lastStored, floor, floorStored, newest, lastNamed, below, known, lastTs, before⟩ :=
    prunable.floor kept sound.numbers wide
  have ever {old : Block} (member : old ∈ state.history.blocks) : old ∈ final.ever :=
    grown old (sound.known old member)
  -- the watermark's block is below the range, so it is no newer than the range's last block
  have older : state.history.prunedThroughTs ≤ newest := by
    rcases sound.marked with none | ⟨marked, known, under, stamped⟩
    · omega
    · have past := (prunable.last kept wide).2
      have ordered := inTime marked (grown marked known) last (ever lastStored) (by omega)
      omega
  have stamped : final.history.prunedThroughTs = newest := by
    rw [stamp]
    show max state.history.prunedThroughTs ((state.history.historyRangeNewestTs range).getD 0) = newest
    rw [known]
    exact max_eq_right older
  have ordered := dayStart_mono (inTime floor (ever floorStored) block (later.known block stored) (by omega))
  omega

end Later

/-- A range that can be pruned is the oldest attached one. Every block of it but block 0 is stored, every one from the
first block indexed on is in a closed span, none is above the floor or the daily watermark, and no span straddles the
new watermark. Unless it holds block 0 alone, no revert above the floor is ever refused for its day. -/
theorem prune_keeps_reorgs (keccak256 : Bytes → Hash) (config : LedgerConfig) (events : List PruneEvent)
    {lo : Option Nat} {after : History}
    (idle : (run (Pruning.step keccak256 config) {} events).retaining.wiping = none)
    (done : (run (Pruning.step keccak256 config) {} events).history.pruneAdvance lo = some after) :
    let history := (run (Pruning.step keccak256 config) {} events).history
    ∃ range ∈ history.ranges, ∃ hi head daily, range.lo = lo ∧ range.state = .attached ∧ range.hi = some hi ∧
      history.head = some head ∧ history.dailyWatermark = some daily ∧
      (∀ other ∈ history.ranges, other.state = .attached → range.order ≤ other.order) ∧
      (∀ number, range.holds number →
        (number ≠ 0 → ∃ block ∈ history.blocks, block.number = number) ∧
        (config.firstBlock ≤ number → ∃ span ∈ history.ledger.spans, span.lo ≤ number ∧ number < span.hi) ∧
        (number : Int) ≤ min ((head : Int) - pruneFloorGap) daily) ∧
      (∀ span ∈ after.ledger.spans, ¬(span.lo < after.historyFrom ∧ after.historyFrom < span.hi)) ∧
      (1 < hi → ∀ later : List PruneEvent, (∀ event ∈ later, event.Above head) →
        let final := run (Pruning.step keccak256 config) {} (events ++ .retain (.pruneAdvance lo) :: later)
        InTime final.ever → ∀ number, head < number + pruneFloorGap →
          final.history.dailyStatsInvalidate number ≠ none) := by
  have sound := Pruning.sound_run keccak256 config events
  have final_sound := fun later => Pruning.sound_run keccak256 config (events ++ .retain (.pruneAdvance lo) :: later)
  have split : ∀ later, run (Pruning.step keccak256 config) {} (events ++ .retain (.pruneAdvance lo) :: later) =
      run (Pruning.step keccak256 config)
        ((run (Pruning.step keccak256 config) {} events).step keccak256 config (.retain (.pruneAdvance lo))) later :=
    fun _ => run_append ..
  generalize run (Pruning.step keccak256 config) {} events = state at idle done sound split
  have kept : Kept state.history := by
    have steady := sound.steady.wiping
    rwa [idle] at steady
  have pruned : (state.step keccak256 config (.retain (.pruneAdvance lo))).history = after := by
    show (if state.retaining.wiping.isNone then state.retaining.retain (.pruneAdvance lo) else state.retaining).history =
      after
    rw [idle]
    show (state.history.pruneAdvance lo).getD state.history = after
    rw [done]
    rfl
  obtain ⟨range, hi, head, daily, named, prunable, form⟩ := History.pruneAdvance_eq_some done
  refine ⟨range, prunable.listed, hi, head, daily, named, prunable.attached, prunable.bounded, prunable.highest,
    prunable.folded, prunable.oldest, ?_, ?_, ?_⟩
  · intro number held
    have below := held.2 hi prunable.bounded
    refine ⟨?_, ?_, ?_⟩
    · intro positive
      obtain ⟨block, stored, _, same⟩ := prunable.stored kept sound.numbers held positive
      exact ⟨block, stored, same⟩
    · intro from_
      obtain ⟨span, member, ends⟩ := prunable.closed
      exact Ledger.closes_iff.mp (sound.closed.filled number from_ ⟨span, member, by omega⟩)
    · have floor := prunable.belowFloor
      have folded := prunable.belowDaily
      omega
  · rw [form]
    exact prunable.not_straddled kept sound.closed
  · intro wide later above final inTime number over_
    have last := final_sound later
    have same : final = _ := split later
    rw [split] at last
    rw [same] at inTime ⊢
    refine sound.invalidates kept prunable wide last ?_ ?_ inTime over_
    · intro block member
      exact run_ever _ later block (step_ever state _ block member)
    · rw [run_prunedThroughTs _ above, pruned, form]

/-! ## A range whose block 0 was never stored -/

def mined (number timestamp : Nat) : PruneEvent :=
  .insertBlock { number := number, hash := toString number, parentHash := "", timestamp := timestamp } (fun _ => 0)

/-- The cut is made at head 1 for partitions of one block, which are then set to be larger. -/
def cutAfterOne : List PruneEvent :=
  [mined 1 0, .cutFinish 3 1, .retain (.ensure 4 20000), mined 2 0, mined 3 86400, mined 12803 86400, .closeSpan,
    .fold (some 3)]

def pruningFrom (events : List PruneEvent) : Pruning :=
  run (Pruning.step (fun _ => 0) ⟨100, 0⟩) {} events

/-- The head is reverted after the prune, and written again. -/
theorem prune_keeps_reorgs_cutAfterOne :
    ∃ after, (pruningFrom cutAfterOne).history.pruneAdvance none = some after ∧
      (∀ span ∈ after.ledger.spans, ¬(span.lo < after.historyFrom ∧ after.historyFrom < span.hi)) ∧
      (pruningFrom (cutAfterOne ++ .retain (.pruneAdvance none) ::
        [.deleteBlock 12803, mined 12803 86400])).history.dailyStatsInvalidate 4 ≠ none := by
  obtain ⟨after, done⟩ := Option.isSome_iff_exists.mp
    (show ((pruningFrom cutAfterOne).history.pruneAdvance none).isSome = true by decide +kernel)
  obtain ⟨range, listed, hi, head, daily, legacy, _, bounded, highest, _, _, _, straddled, invalidated⟩ :=
    prune_keeps_reorgs (fun _ => 0) ⟨100, 0⟩ cutAfterOne (Option.isNone_iff_eq_none.mp (by decide +kernel)) done
  have cut : ∀ range ∈ (pruningFrom cutAfterOne).history.ranges, range.lo = none → range.hi = some 3 := by
    decide +kernel
  have top : (pruningFrom cutAfterOne).history.head = some 12803 := by decide +kernel
  obtain rfl : 3 = hi := Option.some.inj ((cut range listed legacy).symm.trans bounded)
  obtain rfl : 12803 = head := Option.some.inj (top.symm.trans highest)
  refine ⟨after, done, straddled, invalidated (by decide) [.deleteBlock 12803, mined 12803 86400] ?_
    (by decide +kernel) 4 (by decide)⟩
  simp [PruneEvent.Above, mined, pruneFloorGap]

theorem block_zero_never_stored :
    ((pruningFrom cutAfterOne).history.pruneAdvance none).isSome = true ∧
      (∃ range ∈ (pruningFrom cutAfterOne).history.ranges,
        range.lo = none ∧ range.state = .attached ∧ range.holds 0) ∧
      ¬∃ block ∈ (pruningFrom cutAfterOne).ever, block.number = 0 := by
  decide +kernel

/-- A wipe drops the pruned range and lays out the history again: a remainder of one block comes first. -/
def blockZeroAlone : List PruneEvent :=
  cutAfterOne ++ [.retain (.pruneAdvance none), .retain (.ensure 20004 2)] ++ List.replicate 30 (.retain .wipe) ++
    [mined 1 0, mined 2 0, mined 12801 86400, .closeSpan, .fold (some 2)]

/-- Block 0's range is pruned, and the day of a block above the floor is refused. -/
theorem block_zero_alone_refuses :
    (pruningFrom blockZeroAlone).retaining.wiping.isNone = true ∧
      (∃ range ∈ (pruningFrom blockZeroAlone).history.ranges, range.lo = some 0 ∧ range.hi = some 1) ∧
      (pruningFrom blockZeroAlone).history.head = some 12801 ∧
      ((pruningFrom blockZeroAlone).history.pruneAdvance (some 0)).isSome = true ∧
      InTime (pruningFrom (blockZeroAlone ++ [.retain (.pruneAdvance (some 0))])).ever ∧ 12801 < 2 + pruneFloorGap ∧
      ((pruningFrom (blockZeroAlone ++ [.retain (.pruneAdvance (some 0))])).history.dailyStatsInvalidate 2).isNone = true := by
  decide +kernel

end OpsIndexer.Db
