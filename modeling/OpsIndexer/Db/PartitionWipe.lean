import OpsIndexer.Db.PartitionRuns

/-!
# The partitions across a wipe

Between the statements of a wipe the attached ranges need not cover the history; what they lack is among the partitions
it has still to create, and a wipe that stopped starts over from whatever it left.
-/

namespace OpsIndexer.Db

open OpsIndexer.Types Lib.Runs List

def Wiping.Steady (history : History) : Option Wiping → Prop
  | none => Kept history
  | some (.truncating _) => True
  | some .listing => history.ledger.prunedThrough = 0
  | some (.clearing rest) =>
    history.ledger.prunedThrough = 0 ∧ ∀ range ∈ history.ranges, range.state ≠ .attached → range.lo ∈ rest
  | some (.filling _) =>
    history.ledger.prunedThrough = 0 ∧ ∀ range ∈ history.ranges, range.state = .attached
  | some .stopped => True

structure Retaining.Steady (state : Retaining) : Prop where
  laid : Laid state.history
  wiping : Wiping.Steady state.history state.wiping

def Wiping.Covering (history : History) : Option Wiping → Prop
  | none => Covered history
  | some (.filling pieces) => Fills history.ranges 0 pieces
  | _ => True

structure Retaining.Sound (state : Retaining) : Prop extends Retaining.Steady state where
  bounded : Bounded state.history
  covering : Wiping.Covering state.history state.wiping
  filled : state.filling = []

/-! ## The statements of a wipe -/

section Statements

variable {history : History}

theorem truncate_ranges (history : History) (table : WipeTable) : (history.truncate table).ranges = history.ranges := by
  cases table <;> rfl

theorem truncate_blocks (history : History) (table : WipeTable) :
    (history.truncate table).blocks = history.blocks ∨ (history.truncate table).blocks = [] := by
  cases table with
  | blocks => exact .inr rfl
  | _ => exact .inl rfl

theorem Laid.truncate (laid : Laid history) (table : WipeTable) : Laid (history.truncate table) := by
  apply laid.same (truncate_ranges history table)
  intro block stored
  rw [truncate_ranges]
  rcases truncate_blocks history table with same | none
  · exact laid.routed block (same ▸ stored)
  · rw [none] at stored
    cases stored

theorem historyFrom_unpruned (unpruned : history.ledger.prunedThrough = 0) : history.historyFrom = 0 := by
  unfold History.historyFrom Ledger.historyFrom Db.historyFrom
  rw [unpruned]
  rfl

theorem Laid.kept (laid : Laid history) (unpruned : history.ledger.prunedThrough = 0)
    (attached : ∀ range ∈ history.ranges, range.state = .attached) : Kept history := by
  have from_ := historyFrom_unpruned unpruned
  refine { laid with above := ?_, past := ?_, ahead := ?_ }
  · intro range _ _
    rw [from_]
    exact Nat.zero_le _
  · intro range listed passed
    exact absurd (attached range listed) passed
  · obtain ⟨range, listed, inUse⟩ := laid.inUse
    rw [from_]
    exact ⟨range, listed, inUse, fun _ _ => Nat.zero_le _⟩

theorem Fills.covered (attached : ∀ range ∈ history.ranges, range.state = .attached)
    (fills : Fills history.ranges 0 []) : Covered history := by
  intro number _ below
  rcases fills.covers number (Nat.zero_le _) below with ⟨range, listed, holds⟩ | ⟨_, none, _⟩
  · exact ⟨range, listed, attached range listed, holds⟩
  · cases none

variable {next : History} {from_ lo hi : Nat} {rest : List (Nat × Nat)}

theorem Fills.create (fills : Fills history.ranges from_ ((lo, hi) :: rest))
    (done : history.historyPartitionCreate lo hi = some next) : Fills next.ranges from_ rest := by
  obtain ⟨_, _, rfl⟩ := historyPartitionCreate_eq_some done
  have ordered := pairwise_cons.mp fills.inOrder
  have old {range : HistoryRange} (listed : range ∈ history.ranges) :
      range ∈ history.ranges ++ [{ lo := some lo, hi := some hi }] :=
    mem_append_left _ listed
  refine ⟨?_, ?_, ?_, ordered.2, ?_⟩
  · exact fun piece member => fills.proper piece (mem_cons_of_mem _ member)
  · intro piece member range listed number above below held
    rcases mem_append.mp listed with known | new
    · exact fills.between piece (mem_cons_of_mem _ member) range known number above below held
    · rw [mem_singleton.mp new, holds_new] at held
      have := ordered.1 piece member
      dsimp only at this
      omega
  · intro piece member
    obtain ⟨range, listed, bound⟩ := fills.under piece (mem_cons_of_mem _ member)
    exact ⟨range, old listed, bound⟩
  · intro number above below
    have reached : ∃ range ∈ history.ranges, ∃ bound ∈ range.hi, number < bound := by
      obtain ⟨range, listed, bound, high, less⟩ := below
      rcases mem_append.mp listed with known | new
      · exact ⟨range, known, bound, high, less⟩
      · rw [mem_singleton.mp new] at high
        obtain ⟨top, known, reach, topHigh, further⟩ := fills.under (lo, hi) mem_cons_self
        exact ⟨top, known, reach, topHigh, less.trans_le ((Option.some.inj high).ge.trans further)⟩
    rcases fills.covers number above reached with ⟨range, listed, holds⟩ | ⟨piece, member, bounds⟩
    · exact .inl ⟨range, old listed, holds⟩
    · rcases mem_cons.mp member with first | later
      · rw [first] at bounds
        exact .inl ⟨_, mem_append_right _ (mem_singleton_self _), holds_new.mpr bounds⟩
      · exact .inr ⟨piece, later, bounds⟩

theorem createInGap_fills (sized : Sized history.ranges) (fills : Fills history.ranges from_ ((lo, hi) :: rest))
    (started : history.historyFrom ≤ from_) :
    history.createInGap lo hi ≠ .changed := by
  have proper := fills.proper (lo, hi) mem_cons_self
  dsimp only at proper
  unfold History.createInGap
  rw [if_neg]
  · split <;> simp
  · intro changed
    rcases changed with below | meets
    · exact absurd (started.trans proper.1) (not_le.mpr below)
    · obtain ⟨range, listed, meets⟩ := any_eq_true.mp meets
      obtain ⟨number, above, below, held⟩ := (overlaps_iff (sized range listed) proper.2).mp meets
      exact fills.between (lo, hi) mem_cons_self range listed number above below held

theorem createInGap_created (done : history.createInGap lo hi = .created next) :
    history.historyFrom ≤ lo ∧ (∀ range ∈ history.ranges, range.overlaps lo hi = false) ∧
      history.historyPartitionCreate lo hi = some next := by
  unfold History.createInGap at done
  split at done
  · cases done
  · rename_i fits
    split at done
    · cases done
    · rename_i created
      cases done
      refine ⟨not_lt.mp fun below => fits (.inl below), ?_, created⟩
      intro range listed
      apply Bool.eq_false_of_not_eq_true
      intro meets
      exact fits (.inr (any_eq_true.mpr ⟨range, listed, meets⟩))

theorem createInGap_between (sized : Sized history.ranges) (done : history.createInGap lo hi = .created next) :
    Between history.ranges (lo, hi) := by
  obtain ⟨_, free, created⟩ := createInGap_created done
  intro range listed number above below held
  have meets := (overlaps_iff (sized range listed) (historyPartitionCreate_eq_some created).1).mpr
    ⟨number, above, below, held⟩
  rw [free range listed] at meets
  cases meets

theorem Laid.createInGap (laid : Laid history) (done : history.createInGap lo hi = .created next) : Laid next :=
  laid.create (createInGap_between laid.sized done) (createInGap_created done).2.2

theorem Kept.createInGap (kept : Kept history) (done : history.createInGap lo hi = .created next) : Kept next := by
  obtain ⟨from_, _, created⟩ := createInGap_created done
  exact kept.create from_ (createInGap_between kept.sized done) created

theorem Covered.fillHistoryGaps (covered : Covered history) (bounded : Bounded history) (sized : Sized history.ranges) :
    history.fillHistoryGaps = [] := by
  have fills := fillHistoryGaps_fills bounded sized
  apply eq_nil_iff_forall_not_mem.mpr
  intro piece member
  have proper := fills.proper piece member
  obtain ⟨range, listed, hi, high, reach⟩ := fills.under piece member
  obtain ⟨home, known, _, held⟩ := covered piece.1 proper.1 ⟨range, listed, hi, high, proper.2.trans_le reach⟩
  exact fills.between piece member home known piece.1 le_rfl proper.2 held

theorem historyPartitionCreate_attached (attached : ∀ range ∈ history.ranges, range.state = .attached)
    (done : history.historyPartitionCreate lo hi = some next) : ∀ range ∈ next.ranges, range.state = .attached := by
  obtain ⟨_, _, rfl⟩ := historyPartitionCreate_eq_some done
  intro range member
  rcases mem_append.mp member with known | new
  · exact attached range known
  · rw [mem_singleton.mp new]

theorem historyPartitionCreate_prunedThrough (done : history.historyPartitionCreate lo hi = some next) :
    next.ledger.prunedThrough = history.ledger.prunedThrough := by
  obtain ⟨_, _, rfl⟩ := historyPartitionCreate_eq_some done
  rfl

theorem Laid.clearing (laid : Laid history) {lo : Option Nat} {rest : List (Option Nat)}
    (past : ∀ range ∈ history.ranges, range.state ≠ .attached → range.lo ∈ lo :: rest) :
    (history.detachRange lo = some next → next.ledger.prunedThrough = history.ledger.prunedThrough ∧
      ∀ range ∈ next.ranges, range.state ≠ .attached → range.lo ∈ lo :: rest) ∧
    (history.dropRange lo = some next → next.ledger.prunedThrough = history.ledger.prunedThrough ∧
      ∀ range ∈ next.ranges, range.state ≠ .attached → range.lo ∈ rest) := by
  apply And.intro
  · intro done
    obtain ⟨_, changes⟩ := laid.detachRange_update done
    refine ⟨changes.pruned, ?_⟩
    intro range member passed
    rw [changes.ranges] at member
    rcases mem_updateRange member with unchanged | ⟨old, _, named, rfl⟩
    · exact past range unchanged.1 passed
    · rw [(changes.same old).1, named]
      exact mem_cons_self
  · intro done
    obtain ⟨_, _, _, _, rfl⟩ := History.dropRange_eq_some done
    refine ⟨rfl, ?_⟩
    intro range member passed
    have kept := mem_filter.mp member
    rcases mem_cons.mp (past range kept.1 passed) with named | later
    · exact absurd named (of_decide_eq_true kept.2)
    · exact later

end Statements

/-! ## One step of a wipe -/

section Wipe

variable {state : Retaining}

theorem Retaining.Steady.wipe (steady : state.Steady) : state.wipe.Steady := by
  obtain ⟨laid, wiping⟩ := steady
  unfold Retaining.wipe
  split
  · exact ⟨laid, trivial⟩
  · exact ⟨laid, trivial⟩
  · exact ⟨laid.truncate _, trivial⟩
  · exact ⟨laid.same rfl laid.routed, rfl⟩
  · rename_i at_
    rw [at_] at wiping
    refine ⟨laid, wiping, ?_⟩
    intro range listed passed
    apply mem_map_of_mem
    exact (mem_insertionSort _).mpr (mem_filter.mpr ⟨listed, decide_eq_true passed⟩)
  · rename_i at_
    rw [at_] at wiping
    split
    · rename_i done
      have cleared := (laid.clearing wiping.2).1 done
      refine ⟨laid.detach done, ?_⟩
      rw [at_]
      exact ⟨cleared.1.trans wiping.1, cleared.2⟩
    · split
      · rename_i done
        have cleared := (laid.clearing wiping.2).2 done
        exact ⟨laid.drop done, cleared.1.trans wiping.1, cleared.2⟩
      · exact ⟨laid, trivial⟩
  · rename_i at_
    rw [at_] at wiping
    refine ⟨laid, wiping.1, ?_⟩
    intro range listed
    by_contra passed
    cases wiping.2 range listed passed
  · rename_i at_
    rw [at_] at wiping
    split
    · exact ⟨laid, trivial⟩
    · exact ⟨laid, wiping⟩
    · rename_i done
      have created := (createInGap_created done).2.2
      exact ⟨laid.createInGap done, (historyPartitionCreate_prunedThrough created).trans wiping.1,
        historyPartitionCreate_attached wiping.2 created⟩
  · rename_i at_
    rw [at_] at wiping
    exact ⟨laid, laid.kept wiping.1 wiping.2⟩

theorem wipe_bounded (laid : Laid state.history) (bounded : Bounded state.history) : Bounded state.wipe.history := by
  unfold Retaining.wipe
  split
  · exact bounded
  · exact bounded
  · intro range member
    exact bounded range (truncate_ranges state.history _ ▸ member)
  · exact bounded
  · exact bounded
  · split
    · rename_i done
      obtain ⟨_, changes⟩ := laid.detachRange_update done
      exact bounded.update changes
    · split
      · exact bounded.drop ‹_›
      · exact bounded
  · exact bounded
  · split
    · exact bounded
    · exact bounded
    · exact bounded.create (createInGap_created ‹_›).2.2
  · exact bounded

theorem Retaining.Sound.wipe_covering (sound : state.Sound) : Wiping.Covering state.wipe.history state.wipe.wiping := by
  have wiping := sound.wiping
  have covering := sound.covering
  unfold Retaining.wipe
  split
  · exact trivial
  · exact trivial
  · exact trivial
  · exact trivial
  · exact trivial
  · rename_i at_
    split
    · rw [at_]
      exact trivial
    · split
      · exact trivial
      · exact trivial
  · rename_i at_
    rw [at_] at wiping
    have fills := fillHistoryGaps_fills sound.bounded sound.laid.sized
    rwa [historyFrom_unpruned wiping.1] at fills
  · rename_i at_
    rw [at_] at wiping covering
    split
    · exact trivial
    · rename_i changed
      exact absurd changed (createInGap_fills sound.laid.sized covering (historyFrom_unpruned wiping.1).le)
    · exact covering.create (createInGap_created ‹_›).2.2
  · rename_i at_
    rw [at_] at wiping covering
    exact Fills.covered wiping.2 covering

theorem wipe_filling (state : Retaining) : state.wipe.filling = state.filling := by
  unfold Retaining.wipe
  split
  case h_6 =>
    split
    · rfl
    · split <;> rfl
  case h_8 => split <;> rfl
  all_goals rfl

end Wipe

/-! ## One step of retention -/

section Step

variable {state : Retaining}

/-- A range of block 0 alone is pruned only once something else has been. -/
def Retaining.Moves (state : Retaining) : RetainingEvent → Prop
  | .pruneAdvance lo => ∀ range ∈ state.history.ranges, range.lo = lo → range.hi = some 1 →
      state.history.ledger.prunedThrough ≠ 0
  | _ => True

instance Retaining.decidableMoves (state : Retaining) : (event : RetainingEvent) → Decidable (state.Moves event)
  | .pruneAdvance lo =>
    inferInstanceAs (Decidable (∀ range ∈ state.history.ranges, range.lo = lo → range.hi = some 1 →
      state.history.ledger.prunedThrough ≠ 0))
  | .others _ => isTrue trivial
  | .fill => isTrue trivial
  | .create => isTrue trivial
  | .ensure _ _ => isTrue trivial
  | .detachRange _ => isTrue trivial
  | .dropRange _ => isTrue trivial
  | .wipe => isTrue trivial
  | .stopWipe => isTrue trivial

variable {history : History} {event : RetainingEvent}

theorem getD_keeps (holds : History → Prop) (before : holds history) {next : Option History}
    (steps : ∀ after, next = some after → holds after) : holds (next.getD history) := by
  cases done : next with
  | none => exact before
  | some after => exact steps after done

theorem Kept.pruneAdvance {after : History} (kept : Kept history) {lo : Option Nat}
    (done : history.pruneAdvance lo = some after) : Kept after := by
  obtain ⟨_, _, _, _, _, prunable, rfl⟩ := History.pruneAdvance_eq_some done
  exact kept.advance prunable

theorem Retaining.Steady.retain (steady : state.Steady) (idle : state.wiping = none) (event : RetainingEvent) :
    (state.retain event).Steady := by
  have kept : Kept state.history := by
    have wiping := steady.wiping
    rwa [idle] at wiping
  have settle {next : Retaining} (after : Kept next.history) (still : next.wiping = none) : next.Steady :=
    ⟨after.toLaid, still ▸ after⟩
  cases event with
  | others next =>
    obtain ⟨ranges, pruned, routed⟩ := others_cases state.history next
    exact settle (kept.same ranges (routed kept.routed) pruned) idle
  | fill => exact settle kept idle
  | create =>
    unfold Retaining.retain
    dsimp only
    split
    · exact steady
    · split
      · exact settle kept idle
      · exact settle kept idle
      · exact settle (kept.createInGap ‹_›) idle
  | ensure upto size => exact settle (getD_keeps Kept kept fun _ done => kept.ensure done) idle
  | pruneAdvance lo => exact settle (getD_keeps Kept kept fun _ done => kept.pruneAdvance done) idle
  | detachRange lo => exact settle (getD_keeps Kept kept fun _ done => kept.detach done) idle
  | dropRange lo => exact settle (getD_keeps Kept kept fun _ done => kept.drop done) idle
  | wipe => exact steady
  | stopWipe => exact steady

theorem Retaining.Steady.step (steady : state.Steady) (event : RetainingEvent) : (state.step event).Steady := by
  have guarded : Retaining.Steady (if state.wiping.isNone then state.retain event else state) := by
    split
    · rename_i idle
      exact steady.retain (Option.isNone_iff_eq_none.mp idle) event
    · exact steady
  cases event with
  | wipe => exact steady.wipe
  | stopWipe =>
    refine ⟨steady.laid, ?_⟩
    have wiping := steady.wiping
    change Wiping.Steady state.history (state.wiping.map fun _ => .stopped)
    cases at_ : state.wiping with
    | none => rwa [at_] at wiping
    | some _ => exact trivial
  | _ => exact guarded

theorem Retaining.Sound.retain (sound : state.Sound) (idle : state.wiping = none) (moves : state.Moves event) :
    (state.retain event).Sound := by
  have steady := sound.toSteady.retain idle event
  have covered : Covered state.history := by
    have covering := sound.covering
    rwa [idle] at covering
  have laid := sound.laid
  have bounded := sound.bounded
  have settle {next : Retaining} (steady : next.Steady) (still : next.wiping = none)
      (both : Bounded next.history ∧ Covered next.history) (filled : next.filling = []) : next.Sound :=
    { steady with bounded := both.1, covering := still ▸ both.2, filled := filled }
  have keeps {next : Option History}
      (steps : ∀ after, next = some after → Bounded after ∧ Covered after) :
      Bounded (next.getD state.history) ∧ Covered (next.getD state.history) :=
    getD_keeps (fun history => Bounded history ∧ Covered history) ⟨bounded, covered⟩ steps
  cases event with
  | others next =>
    obtain ⟨ranges, pruned, _⟩ := others_cases state.history next
    refine settle steady idle ⟨?_, covered.same ranges pruned⟩ sound.filled
    intro range member
    exact bounded range (ranges ▸ member)
  | fill => exact settle steady idle ⟨bounded, covered⟩ (covered.fillHistoryGaps bounded laid.sized)
  | create =>
    unfold Retaining.retain
    dsimp only
    rw [sound.filled]
    exact sound
  | ensure upto size =>
    exact settle steady idle (keeps fun _ done => ⟨bounded.ensure laid done, covered.ensure laid done⟩) sound.filled
  | pruneAdvance lo =>
    refine settle steady idle (keeps ?_) sound.filled
    intro after done
    obtain ⟨range, hi, _, _, named, prunable, rfl⟩ := History.pruneAdvance_eq_some done
    exact ⟨bounded.advance range hi, covered.advance laid prunable fun one =>
      moves range prunable.listed named (one ▸ prunable.bounded)⟩
  | detachRange lo =>
    refine settle steady idle (keeps ?_) sound.filled
    intro after done
    obtain ⟨_, changes⟩ := laid.detachRange_update done
    exact ⟨bounded.update changes, covered.update changes⟩
  | dropRange lo =>
    exact settle steady idle (keeps fun _ done => ⟨bounded.drop done, covered.drop laid done⟩) sound.filled
  | wipe => exact sound
  | stopWipe => exact sound

theorem Retaining.Sound.step (sound : state.Sound) (moves : state.Moves event) :
    (state.step event).Sound := by
  have guarded : Retaining.Sound (if state.wiping.isNone then state.retain event else state) := by
    split
    · rename_i idle
      exact sound.retain (Option.isNone_iff_eq_none.mp idle) moves
    · exact sound
  cases event with
  | wipe =>
    exact { sound.toSteady.wipe with
      bounded := wipe_bounded sound.laid sound.bounded
      covering := sound.wipe_covering
      filled := (wipe_filling state).trans sound.filled }
  | stopWipe =>
    refine { sound.toSteady.step .stopWipe with bounded := sound.bounded, covering := ?_, filled := sound.filled }
    have covering := sound.covering
    change Wiping.Covering state.history (state.wiping.map fun _ => .stopped)
    cases at_ : state.wiping with
    | none => rwa [at_] at covering
    | some _ => exact trivial
  | _ => exact guarded

theorem Tiled.sound (tiled : Tiled history) : Retaining.Sound { history := history } :=
  ⟨⟨tiled.toLaid, tiled.toKept⟩, tiled.bounded, tiled.covered, rfl⟩

end Step

/-! ## New ranges -/

def NewFrom (history next : History) : Prop :=
  ∀ range ∈ next.ranges, (∀ old ∈ history.ranges, old.lo ≠ range.lo) →
    ∃ lo, range.lo = some lo ∧ history.historyFrom ≤ lo

section New

variable {history next : History}

theorem newFrom_known (known : ∀ range ∈ next.ranges, ∃ old ∈ history.ranges, old.lo = range.lo) :
    NewFrom history next := by
  intro range member new
  obtain ⟨old, listed, same⟩ := known range member
  exact absurd same (new old listed)

theorem newFrom_same (same : next.ranges = history.ranges) : NewFrom history next :=
  newFrom_known fun range member => ⟨range, same ▸ member, rfl⟩

variable {lo : Option Nat} {hi : Nat} {state : Retaining}

theorem newFrom_update {update : HistoryRange → HistoryRange} (keeps : ∀ range, (update range).lo = range.lo)
    (ranges : next.ranges = updateRange lo update history.ranges) :
    NewFrom history next := by
  apply newFrom_known
  intro range member
  rw [ranges] at member
  rcases mem_updateRange member with unchanged | ⟨old, listed, _, rfl⟩
  · exact ⟨range, unchanged.1, rfl⟩
  · exact ⟨old, listed, (keeps old).symm⟩

theorem newFrom_detach (laid : Laid history) (done : history.detachRange lo = some next) :
    NewFrom history next := by
  obtain ⟨_, changes⟩ := laid.detachRange_update done
  exact newFrom_update (fun range => (changes.same range).1) changes.ranges

theorem newFrom_drop (done : history.dropRange lo = some next) : NewFrom history next := by
  obtain ⟨_, _, _, _, rfl⟩ := History.dropRange_eq_some done
  exact newFrom_known fun range member => ⟨range, mem_of_mem_filter member, rfl⟩

theorem NewFrom.create {middle : History} (before : NewFrom history middle) {lo : Nat}
    (from_ : history.historyFrom ≤ lo) (done : middle.historyPartitionCreate lo hi = some next) :
    NewFrom history next := by
  obtain ⟨_, _, rfl⟩ := historyPartitionCreate_eq_some done
  intro range member new
  rcases mem_append.mp member with known | added
  · exact before range known new
  · rw [mem_singleton.mp added]
    exact ⟨lo, rfl, from_⟩

theorem newFrom_createInGap {lo : Nat} (done : history.createInGap lo hi = .created next) : NewFrom history next := by
  obtain ⟨from_, _, created⟩ := createInGap_created done
  exact (newFrom_same rfl).create from_ created

theorem Kept.newFrom_ensure (kept : Kept history) {upto size : Nat}
    (done : history.historyPartitionsEnsure upto size = some next) : NewFrom history next := by
  have grown := ensure_step kept.toLaid
    (fun grown => Kept grown ∧ grown.historyFrom = history.historyFrom ∧ NewFrom history grown)
    ⟨kept, rfl, newFrom_same rfl⟩ ?_ done
  · exact grown.1.2.2
  · intro middle next top size before bounded highest _ created
    have from_ := before.1.from_top bounded highest
    have pruned := historyPartitionCreate_prunedThrough created
    exact ⟨before.1.create from_ (between_top bounded highest _) created,
      (historyFrom_same pruned).trans before.2.1, before.2.2.create (before.2.1 ▸ from_) created⟩

theorem newFrom_wipe (laid : Laid state.history) : NewFrom state.history state.wipe.history := by
  unfold Retaining.wipe
  split
  · exact newFrom_same rfl
  · exact newFrom_same rfl
  · exact newFrom_same (truncate_ranges state.history _)
  · exact newFrom_same rfl
  · exact newFrom_same rfl
  · split
    · exact newFrom_detach laid ‹_›
    · split
      · exact newFrom_drop ‹_›
      · exact newFrom_same rfl
  · exact newFrom_same rfl
  · split
    · exact newFrom_same rfl
    · exact newFrom_same rfl
    · exact newFrom_createInGap ‹_›
  · exact newFrom_same rfl

theorem Retaining.Steady.newFrom_retain (steady : state.Steady) (idle : state.wiping = none) (event : RetainingEvent) :
    NewFrom state.history (state.retain event).history := by
  have kept : Kept state.history := by
    have wiping := steady.wiping
    rwa [idle] at wiping
  have found {next : Option History} (steps : ∀ after, next = some after → NewFrom state.history after) :
      NewFrom state.history (next.getD state.history) :=
    getD_keeps (NewFrom state.history) (newFrom_same rfl) steps
  cases event with
  | others next => exact newFrom_same (others_cases state.history next).1
  | fill => exact newFrom_same rfl
  | create =>
    unfold Retaining.retain
    dsimp only
    split
    · exact newFrom_same rfl
    · split
      · exact newFrom_same rfl
      · exact newFrom_same rfl
      · exact newFrom_createInGap ‹_›
  | ensure upto size => exact found fun _ done => kept.newFrom_ensure done
  | pruneAdvance lo =>
    apply found
    intro after done
    obtain ⟨range, hi, _, _, _, _, rfl⟩ := History.pruneAdvance_eq_some done
    have ranges : (state.history.advanced range hi).ranges =
        updateRange range.lo (fun range => { range with state := .detaching }) state.history.ranges :=
      rfl
    refine newFrom_update ?_ ranges
    exact fun _ => rfl
  | detachRange lo => exact found fun _ done => newFrom_detach steady.laid done
  | dropRange lo => exact found fun _ done => newFrom_drop done
  | wipe => exact newFrom_same rfl
  | stopWipe => exact newFrom_same rfl

theorem Retaining.Steady.newFrom_step (steady : state.Steady) (event : RetainingEvent) :
    NewFrom state.history (state.step event).history := by
  have guarded : NewFrom state.history (if state.wiping.isNone then state.retain event else state).history := by
    split
    · rename_i idle
      exact steady.newFrom_retain (Option.isNone_iff_eq_none.mp idle) event
    · exact newFrom_same rfl
  cases event with
  | wipe => exact newFrom_wipe steady.laid
  | stopWipe => exact newFrom_same rfl
  | _ => exact guarded

end New

/-! ## Every run -/

/-- In every run in which block 0 alone is never the first range pruned, the attached ranges are disjoint and cover the
history from the watermark to the highest bound whenever no wipe is unfinished, and no step creates a range below the
watermark. -/
theorem partitions_cover_history {start : History} (tiled : Tiled start) (events : List RetainingEvent)
    (moves : Admits Retaining.step { history := start } Retaining.Moves events) :
    let state := run Retaining.step { history := start } events
    (state.wiping = none →
      (∀ first ∈ state.history.ranges, ∀ second ∈ state.history.ranges,
        first.state = .attached → second.state = .attached →
          ∀ number, first.holds number → second.holds number → first = second) ∧
      Covered state.history) ∧
    ∀ event, NewFrom state.history (state.step event).history := by
  have sound : (run Retaining.step { history := start } events).Sound :=
    moves.invariant Retaining.Sound tiled.sound (fun _ _ sound allowed => sound.step allowed)
      prefix_rfl
  refine ⟨?_, fun event => sound.newFrom_step event⟩
  intro idle
  have covering := sound.covering
  rw [idle] at covering
  refine ⟨?_, covering⟩
  intro first firstListed second secondListed _ _ number firstHolds secondHolds
  exact eq_of_lo_eq sound.laid.keyed firstListed secondListed
    (sound.laid.disjoint first firstListed second secondListed number firstHolds secondHolds)

/-! ## A wipe leaves a range of block 0 alone -/

/-- The legacy range can be pruned; the newest partition's size leaves a remainder of one in it. -/
def cutHistory : History where
  ledger :=
    { store :=
        { blocks := [{ number := 1, hash := "0x01", parentHash := "" }, { number := 2, hash := "0x02", parentHash := "" },
            { number := 3, hash := "0x03", parentHash := "", timestamp := 86400 },
            { number := 12803, hash := "0x04", parentHash := "", timestamp := 86400 }] }
      spans := [⟨0, 3, .rows, .unchecked, {}⟩] }
  ranges := [{ lo := none, hi := some 3 }, { lo := some 3, hi := some 20000 }, { lo := some 20000, hi := some 20002 }]
  dailyWatermark := some 12802

theorem cutHistory_tiled : Tiled cutHistory where
  keyed := by decide
  sized := by simp [Sized, cutHistory]
  legacy := by simp [cutHistory]
  disjoint := by
    simp only [cutHistory, mem_cons, not_mem_nil, or_false, HistoryRange.holds]
    rintro first (rfl | rfl | rfl) second (rfl | rfl | rfl) number <;> simp <;> omega
  whole := by simp [cutHistory]
  torn := by simp [cutHistory]
  routed := by decide
  inUse := by simp [cutHistory]
  above := by simp [cutHistory, History.historyFrom, Ledger.historyFrom, Db.historyFrom]
  past := by simp [cutHistory]
  ahead := by simp [cutHistory, History.historyFrom, Ledger.historyFrom, Db.historyFrom]
  bounded := by simp [Bounded, cutHistory]
  covered := by
    intro number _ below
    have top : number < 20002 := by
      obtain ⟨range, listed, hi, high, less⟩ := below
      simp only [cutHistory, mem_cons, not_mem_nil, or_false] at listed
      rcases listed with rfl | rfl | rfl <;> cases high <;> omega
    by_cases low : number < 3
    · exact ⟨{ lo := none, hi := some 3 }, by simp [cutHistory], rfl, by simp [HistoryRange.holds, low]⟩
    · by_cases middle : number < 20000
      · exact ⟨{ lo := some 3, hi := some 20000 }, by simp [cutHistory], rfl,
          by simp only [HistoryRange.holds, Option.mem_def]; grind⟩
      · exact ⟨{ lo := some 20000, hi := some 20002 }, by simp [cutHistory], rfl,
          by simp only [HistoryRange.holds, Option.mem_def]; grind⟩

def prunedAndWiped : List RetainingEvent :=
  [.pruneAdvance none] ++ List.replicate 7 (.detachRange none) ++ [.dropRange none] ++ List.replicate 22 .wipe

theorem partitions_cover_history_wiped :
    let state := run Retaining.step { history := cutHistory } prunedAndWiped
    state.wiping.isNone = true ∧ state.history.ranges.length = 4 ∧ Covered state.history := by
  have covers := partitions_cover_history cutHistory_tiled prunedAndWiped (by decide +kernel)
  have idle : (run Retaining.step { history := cutHistory } prunedAndWiped).wiping.isNone = true := by decide +kernel
  exact ⟨idle, by decide +kernel, (covers.1 (Option.isNone_iff_eq_none.mp idle)).2⟩

def ingestedAgain : History where
  ledger :=
    { store :=
        { blocks := [{ number := 1, hash := "0x01", parentHash := "", timestamp := 86400 },
            { number := 12801, hash := "0x04", parentHash := "", timestamp := 86400 }] }
      spans := [⟨0, 1, .rows, .unchecked, {}⟩] }
  dailyWatermark := some 12800

/-- Block 0's range is pruned and the watermark stays: block 0 is above it and in no attached range. -/
theorem block_zero_uncovered :
    Tiled cutHistory ∧
      let state := run Retaining.step { history := cutHistory }
        (prunedAndWiped ++ [.others ingestedAgain, .pruneAdvance (some 0)])
      state.wiping.isNone = true ∧ state.history.historyFrom = 0 ∧ ¬Covered state.history := by
  refine ⟨cutHistory_tiled, by decide +kernel, by decide +kernel, ?_⟩
  intro covered
  have home := covered 0 (by decide +kernel) (by decide +kernel)
  revert home
  decide +kernel

end OpsIndexer.Db
