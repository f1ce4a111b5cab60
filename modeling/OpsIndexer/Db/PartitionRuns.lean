import OpsIndexer.Db.PartitionGaps
import OpsIndexer.Lib.Runs

/-!
# The partitions over whole runs

What every step of retention keeps of the ranges: outside a wipe the attached ones cover everything from the watermark
to the highest range, and inside one the pieces still to be created make up for what they do not.
-/

namespace OpsIndexer.Db

open OpsIndexer.Types Lib.Runs List

structure Laid (history : History) : Prop where
  keyed : (history.ranges.map (·.lo)).Nodup
  sized : Sized history.ranges
  legacy : ∀ range ∈ history.ranges, range.hi = none → range.lo = none
  disjoint : ∀ first ∈ history.ranges, ∀ second ∈ history.ranges, ∀ number,
    first.holds number → second.holds number → first.lo = second.lo
  whole : ∀ range ∈ history.ranges, range.state = .attached → range.detachedTables = 0
  torn : ∀ range ∈ history.ranges, range.state = .detached → range.detachedTables ≠ 0
  routed : history.Routed
  inUse : ∃ range ∈ history.ranges, range.state = .attached

structure Kept (history : History) : Prop extends Laid history where
  above : ∀ range ∈ history.ranges, range.state = .attached → history.historyFrom ≤ range.lo.getD 0
  past : ∀ range ∈ history.ranges, range.state ≠ .attached → ∃ hi, range.hi = some hi ∧
    hi ≤ history.ledger.prunedThrough + 1
  ahead : ∃ range ∈ history.ranges, range.state = .attached ∧ ∀ hi ∈ range.hi, history.historyFrom ≤ hi

def Covered (history : History) : Prop :=
  ∀ number, history.historyFrom ≤ number → (∃ range ∈ history.ranges, ∃ hi ∈ range.hi, number < hi) →
    ∃ range ∈ history.ranges, range.state = .attached ∧ range.holds number

def Bounded (history : History) : Prop :=
  ∀ range ∈ history.ranges, range.hi ≠ none

structure Tiled (history : History) : Prop extends Kept history where
  bounded : Bounded history
  covered : Covered history

/-! ## A new partition -/

section New

variable {history : History} {lo hi : Nat}

variable {next : History}

theorem historyPartitionCreate_eq_some (done : history.historyPartitionCreate lo hi = some next) :
    lo < hi ∧ (∀ range ∈ history.ranges, range.lo ≠ some lo) ∧
      next = { history with ranges := history.ranges ++ [{ lo := some lo, hi := some hi }] } := by
  unfold History.historyPartitionCreate at done
  split at done
  · rename_i fits
    exact ⟨fits.1, fun range listed => (fits.2 range listed).1, (Option.some.inj done).symm⟩
  · cases done

theorem holds_new {number : Nat} :
    HistoryRange.holds { lo := some lo, hi := some hi } number ↔ lo ≤ number ∧ number < hi := by
  simp [HistoryRange.holds]

theorem Laid.create (laid : Laid history) (between : Between history.ranges (lo, hi))
    (done : history.historyPartitionCreate lo hi = some next) : Laid next := by
  obtain ⟨proper, fresh, rfl⟩ := historyPartitionCreate_eq_some done
  exact {
    keyed := by
      rw [map_append, map_singleton, nodup_append]
      refine ⟨laid.keyed, nodup_singleton _, ?_⟩
      intro low listed other new
      obtain ⟨range, member, rfl⟩ := mem_map.mp listed
      rw [mem_singleton.mp new]
      exact fresh range member
    sized := by
      intro range member
      rcases mem_append.mp member with old | new
      · exact laid.sized range old
      · rw [mem_singleton.mp new]
        simpa using proper
    legacy := by
      intro range member unbounded
      rcases mem_append.mp member with old | new
      · exact laid.legacy range old unbounded
      · rw [mem_singleton.mp new] at unbounded
        cases unbounded
    disjoint := by
      intro first firstMember second secondMember number firstHolds secondHolds
      rcases mem_append.mp firstMember with firstOld | new
      · rcases mem_append.mp secondMember with secondOld | new
        · exact laid.disjoint first firstOld second secondOld number firstHolds secondHolds
        · rw [mem_singleton.mp new, holds_new] at secondHolds
          exact absurd firstHolds (between first firstOld number secondHolds.1 secondHolds.2)
      · rw [mem_singleton.mp new, holds_new] at firstHolds
        rcases mem_append.mp secondMember with secondOld | again
        · exact absurd secondHolds (between second secondOld number firstHolds.1 firstHolds.2)
        · rw [mem_singleton.mp new, mem_singleton.mp again]
    whole := by
      intro range member attached
      rcases mem_append.mp member with old | new
      · exact laid.whole range old attached
      · rw [mem_singleton.mp new]
    torn := by
      intro range member detached
      rcases mem_append.mp member with old | new
      · exact laid.torn range old detached
      · rw [mem_singleton.mp new] at detached
        cases detached
    routed := by
      intro block stored
      obtain ⟨range, listed, rest⟩ := laid.routed block stored
      exact ⟨range, mem_append_left _ listed, rest⟩
    inUse := by
      obtain ⟨range, listed, attached⟩ := laid.inUse
      exact ⟨range, mem_append_left _ listed, attached⟩ }

theorem Kept.create (kept : Kept history) (from_ : history.historyFrom ≤ lo)
    (between : Between history.ranges (lo, hi)) (done : history.historyPartitionCreate lo hi = some next) :
    Kept next := by
  have laid := kept.toLaid.create between done
  obtain ⟨_, _, rfl⟩ := historyPartitionCreate_eq_some done
  refine { laid with above := ?_, past := ?_, ahead := ?_ }
  · intro range member attached
    rcases mem_append.mp member with old | new
    · exact kept.above range old attached
    · rw [mem_singleton.mp new]
      exact from_
  · intro range member detached
    rcases mem_append.mp member with old | new
    · exact kept.past range old detached
    · rw [mem_singleton.mp new] at detached
      exact absurd rfl detached
  · obtain ⟨range, listed, rest⟩ := kept.ahead
    exact ⟨range, mem_append_left _ listed, rest⟩

theorem Bounded.create (bounded : Bounded history) (done : history.historyPartitionCreate lo hi = some next) :
    Bounded next := by
  obtain ⟨_, _, rfl⟩ := historyPartitionCreate_eq_some done
  intro range member
  rcases mem_append.mp member with old | new
  · exact bounded range old
  · rw [mem_singleton.mp new]
    simp

end New

/-! ## Ahead of the head -/

variable {top upto size : Nat}

theorem top_le {history : History} (highest : history.top = some top) :
    ∀ range ∈ history.ranges, ∀ hi ∈ range.hi, hi ≤ top := by
  intro range listed hi high
  exact (List.max?_eq_some_iff.mp highest).2 hi (mem_filterMap.mpr ⟨range, listed, high⟩)

theorem between_top {history : History} (bounded : Bounded history)
    (highest : ∀ range ∈ history.ranges, ∀ hi ∈ range.hi, hi ≤ top) (hi : Nat) :
    Between history.ranges (top, hi) := by
  intro range listed number above _ held
  obtain ⟨bound, high⟩ := Option.ne_none_iff_exists'.mp (bounded range listed)
  have := held.2 bound high
  have := highest range listed bound high
  dsimp only at above
  omega

theorem ensureLoop_step {history next : History} (bounded : Bounded history) (holds : History → Prop)
    (first : holds history) (grows : ∀ history next top, holds history → Bounded history →
      (∀ range ∈ history.ranges, ∀ hi ∈ range.hi, hi ≤ top) → (∃ range ∈ history.ranges, range.hi = some top) →
        history.historyPartitionCreate top (top + size) = some next → holds next) {fuel : Nat}
    (highest : ∀ range ∈ history.ranges, ∀ hi ∈ range.hi, hi ≤ top)
    (reached : ∃ range ∈ history.ranges, range.hi = some top)
    (done : history.ensureLoop upto size fuel top = some next) : holds next ∧ Bounded next := by
  induction fuel generalizing history top with
  | zero => exact Option.some.inj done ▸ ⟨first, bounded⟩
  | succ fuel ih =>
    rw [History.ensureLoop] at done
    split at done
    · obtain ⟨grown, created, done⟩ := Option.bind_eq_some_iff.mp done
      have proceeds := grows history grown top first bounded highest reached created
      have bounded := bounded.create created
      obtain ⟨proper, _, rfl⟩ := historyPartitionCreate_eq_some created
      refine ih bounded proceeds ?_ ⟨_, mem_append_right _ (mem_singleton_self _), rfl⟩ done
      intro range member hi high
      rcases mem_append.mp member with old | new
      · exact (highest range old hi high).trans (Nat.le_add_right _ _)
      · rw [mem_singleton.mp new] at high
        exact (Option.some.inj high).ge
    · exact Option.some.inj done ▸ ⟨first, bounded⟩

theorem Kept.from_top {history : History} (kept : Kept history) (bounded : Bounded history)
    (highest : ∀ range ∈ history.ranges, ∀ hi ∈ range.hi, hi ≤ top) : history.historyFrom ≤ top := by
  obtain ⟨range, listed, _, reaches⟩ := kept.ahead
  obtain ⟨hi, high⟩ := Option.ne_none_iff_exists'.mp (bounded range listed)
  exact (reaches hi high).trans (highest range listed hi high)

theorem Covered.create {history next : History} {hi : Nat} (covered : Covered history)
    (reached : ∃ range ∈ history.ranges, range.hi = some top)
    (done : history.historyPartitionCreate top hi = some next) : Covered next := by
  obtain ⟨_, _, rfl⟩ := historyPartitionCreate_eq_some done
  intro number from_ below
  by_cases new : top ≤ number ∧ number < hi
  · exact ⟨_, mem_append_right _ (mem_singleton_self _), rfl, holds_new.mpr new⟩
  · have old : ∃ range ∈ history.ranges, ∃ hi ∈ range.hi, number < hi := by
      by_cases under : number < top
      · obtain ⟨range, listed, high⟩ := reached
        exact ⟨range, listed, top, high, under⟩
      · obtain ⟨range, member, bound, high, less⟩ := below
        rcases mem_append.mp member with listed | added
        · exact ⟨range, listed, bound, high, less⟩
        · rw [mem_singleton.mp added] at high
          have := Option.some.inj high
          omega
    obtain ⟨range, listed, rest⟩ := covered number from_ old
    exact ⟨range, mem_append_left _ listed, rest⟩

theorem top_reached {history : History} (highest : history.top = some top) :
    ∃ range ∈ history.ranges, range.hi = some top := by
  obtain ⟨range, listed, high⟩ := mem_filterMap.mp (List.max?_eq_some_iff.mp highest).1
  exact ⟨range, listed, high⟩

theorem Laid.bounded {history : History} (laid : Laid history)
    (cut : ¬history.ranges.any (fun range => range.lo = none && range.hi = none) = true) : Bounded history := by
  intro range listed unbounded
  apply cut
  rw [any_eq_true]
  exact ⟨range, listed, by simp [laid.legacy range listed unbounded, unbounded]⟩

theorem ensure_step {history next : History} (laid : Laid history) (holds : History → Prop) (first : holds history)
    (grows : ∀ history next top size, holds history → Bounded history →
      (∀ range ∈ history.ranges, ∀ hi ∈ range.hi, hi ≤ top) → (∃ range ∈ history.ranges, range.hi = some top) →
        history.historyPartitionCreate top (top + size) = some next → holds next)
    (done : history.historyPartitionsEnsure upto size = some next) :
    holds next ∧ (Bounded history → Bounded next) := by
  unfold History.historyPartitionsEnsure at done
  cases highest : history.top with
  | none =>
    rw [highest] at done
    exact Option.some.inj done ▸ ⟨first, id⟩
  | some top =>
    rw [highest] at done
    dsimp only at done
    split at done
    · exact Option.some.inj done ▸ ⟨first, id⟩
    · rename_i cut
      have loop {size fuel : Nat} (done : history.ensureLoop upto size fuel top = some next) :
          holds next ∧ (Bounded history → Bounded next) := by
        have grown := ensureLoop_step (laid.bounded cut) holds first
          (fun history next top => grows history next top size) (top_le highest) (top_reached highest) done
        exact ⟨grown.1, fun _ => grown.2⟩
      split at done
      · obtain ⟨newest, _, done⟩ := Option.bind_eq_some_iff.mp done
        exact loop done
      · exact loop done

theorem Kept.ensure {history next : History} (kept : Kept history)
    (done : history.historyPartitionsEnsure upto size = some next) : Kept next := by
  have grown := ensure_step kept.toLaid Kept kept (fun history next top size before bounded highest _ created =>
    before.create (before.from_top bounded highest) (between_top bounded highest (top + size)) created) done
  exact grown.1

theorem Covered.ensure {history next : History} (laid : Laid history) (covered : Covered history)
    (done : history.historyPartitionsEnsure upto size = some next) : Covered next := by
  have grown := ensure_step laid Covered covered
    (fun _ _ _ _ before _ _ reached created => before.create reached created) done
  exact grown.1

theorem Bounded.ensure {history next : History} (laid : Laid history) (bounded : Bounded history)
    (done : history.historyPartitionsEnsure upto size = some next) : Bounded next := by
  have grown := ensure_step laid (fun _ => True) trivial (fun _ _ _ _ _ _ _ _ _ => trivial) done
  exact grown.2 bounded

/-! ## Pruning -/

section Prune

variable {history : History}

theorem Laid.update (laid : Laid history) {next : History} {lo : Option Nat} {update : HistoryRange → HistoryRange}
    (ranges : next.ranges = updateRange lo update history.ranges)
    (same : ∀ range, (update range).lo = range.lo ∧ (update range).hi = range.hi)
    (whole : ∀ range ∈ history.ranges, range.lo = lo → (update range).state = .attached → (update range).detachedTables = 0)
    (torn : ∀ range ∈ history.ranges, range.lo = lo → (update range).state = .detached → (update range).detachedTables ≠ 0)
    (routed : next.Routed) (inUse : ∃ range ∈ next.ranges, range.state = .attached) : Laid next := by
  have before : ∀ range ∈ next.ranges, ∃ old ∈ history.ranges, old.lo = range.lo ∧ old.hi = range.hi := by
    intro range member
    rw [ranges] at member
    rcases mem_updateRange member with unchanged | ⟨old, listed, _, rfl⟩
    · exact ⟨range, unchanged.1, rfl, rfl⟩
    · exact ⟨old, listed, (same old).1.symm, (same old).2.symm⟩
  have holds {first second : HistoryRange} (low : first.lo = second.lo) (high : first.hi = second.hi) (number : Nat)
      (held : second.holds number) : first.holds number := by
    rw [HistoryRange.holds, low, high]
    exact held
  exact {
    keyed := by
      rw [ranges]
      exact keyed_updateRange (fun range => (same range).1) laid.keyed
    sized := by
      intro range member
      obtain ⟨old, listed, low, high⟩ := before range member
      have proper := laid.sized old listed
      rwa [low, high] at proper
    legacy := by
      intro range member unbounded
      obtain ⟨old, listed, low, high⟩ := before range member
      rw [← low]
      exact laid.legacy old listed (high.trans unbounded)
    disjoint := by
      intro first firstMember second secondMember number firstHolds secondHolds
      obtain ⟨one, oneListed, oneLow, oneHigh⟩ := before first firstMember
      obtain ⟨two, twoListed, twoLow, twoHigh⟩ := before second secondMember
      rw [← oneLow, ← twoLow]
      exact laid.disjoint one oneListed two twoListed number (holds oneLow oneHigh number firstHolds)
        (holds twoLow twoHigh number secondHolds)
    whole := by
      intro range member attached
      rw [ranges] at member
      rcases mem_updateRange member with unchanged | ⟨old, listed, named, rfl⟩
      · exact laid.whole range unchanged.1 attached
      · exact whole old listed named attached
    torn := by
      intro range member detached
      rw [ranges] at member
      rcases mem_updateRange member with unchanged | ⟨old, listed, named, rfl⟩
      · exact laid.torn range unchanged.1 detached
      · exact torn old listed named detached
    routed := routed
    inUse := inUse }

theorem Laid.same (laid : Laid history) {next : History} (ranges : next.ranges = history.ranges)
    (routed : next.Routed) : Laid next := by
  obtain ⟨keyed, sized, legacy, disjoint, whole, torn, _, inUse⟩ := laid
  rw [← ranges] at keyed sized legacy disjoint whole torn inUse
  exact ⟨keyed, sized, legacy, disjoint, whole, torn, routed, inUse⟩

theorem historyFrom_same {next : History} (pruned : next.ledger.prunedThrough = history.ledger.prunedThrough) :
    next.historyFrom = history.historyFrom := by
  unfold History.historyFrom Ledger.historyFrom Db.historyFrom
  rw [pruned]

theorem Kept.same (kept : Kept history) {next : History} (ranges : next.ranges = history.ranges)
    (routed : next.Routed) (pruned : next.ledger.prunedThrough = history.ledger.prunedThrough) : Kept next := by
  have from_ := historyFrom_same pruned
  obtain ⟨laid, above, past, ahead⟩ := kept
  have laid := laid.same ranges routed
  rw [← ranges] at above past ahead
  rw [← from_] at above ahead
  rw [← pruned] at past
  exact { laid with above := above, past := past, ahead := ahead }

theorem Covered.same (covered : Covered history) {next : History} (ranges : next.ranges = history.ranges)
    (pruned : next.ledger.prunedThrough = history.ledger.prunedThrough) : Covered next := by
  unfold Covered at covered
  rwa [← ranges, ← historyFrom_same pruned] at covered

theorem others_cases (history next : History) : (history.others next).ranges = history.ranges ∧
    (history.others next).ledger.prunedThrough = history.ledger.prunedThrough ∧
    (history.Routed → (history.others next).Routed) := by
  unfold History.others
  dsimp only
  split
  · rename_i routed
    exact ⟨rfl, rfl, fun _ => routed⟩
  · exact ⟨rfl, rfl, id⟩

variable {range : HistoryRange} {hi head : Nat} {daily : Int}

theorem Laid.next_range (laid : Laid history) {other : HistoryRange} (listed : range ∈ history.ranges)
    (high : range.hi = some hi) (oldest : range.order ≤ other.order) (member : other ∈ history.ranges)
    (differs : other.lo ≠ range.lo) : ∃ lo, other.lo = some lo ∧ hi ≤ lo := by
  have ordered : ∀ lo ∈ range.lo, ∀ other_ ∈ other.lo, lo ≤ other_ := by
    intro lo low other_ otherLow
    rw [HistoryRange.order, HistoryRange.order, low, otherLow] at oldest
    exact Int.ofNat_le.mp oldest
  cases low : other.lo with
  | none =>
    exfalso
    cases rangeLow : range.lo with
    | none => exact differs (low.trans rangeLow.symm)
    | some lo =>
      rw [HistoryRange.order, HistoryRange.order, low, rangeLow] at oldest
      simp only [Option.map_some, Option.getD_some, Option.map_none, Option.getD_none, Int.ofNat_eq_natCast] at oldest
      omega
  | some lo =>
    refine ⟨lo, rfl, ?_⟩
    by_contra inside
    -- the other range's first number would be in both
    have held : other.holds lo := by
      refine ⟨fun bound is => ?_, fun bound is => laid.sized other member lo low bound is⟩
      rw [low] at is
      exact (Option.some.inj is).ge
    have shared : range.holds lo := by
      refine ⟨fun bound is => ordered bound is lo low, fun bound is => ?_⟩
      rw [high] at is
      exact Option.some.inj is ▸ not_le.mp inside
    exact differs (laid.disjoint other member range listed lo held shared)

theorem advanced_prunedThrough (range : HistoryRange) (hi : Nat) :
    (history.advanced range hi).ledger.prunedThrough = max history.ledger.prunedThrough (hi - 1) :=
  rfl

theorem historyFrom_advanced (history : History) (range : HistoryRange) (hi : Nat) :
    history.historyFrom ≤ (history.advanced range hi).historyFrom ∧
      (history.advanced range hi).historyFrom ≤ max history.historyFrom hi := by
  unfold History.historyFrom Ledger.historyFrom Db.historyFrom
  rw [advanced_prunedThrough]
  split <;> split <;> omega

theorem head_stored (highest : history.head = some head) : ∃ block ∈ history.blocks, block.number = head :=
  mem_map.mp (List.max?_eq_some_iff.mp highest).1

theorem Kept.head_range (kept : Kept history) (prunable : Prunable history range hi head daily) :
    ∃ newest ∈ history.ranges, newest.state = .attached ∧ newest.lo ≠ range.lo := by
  obtain ⟨block, stored, rfl⟩ := head_stored prunable.highest
  obtain ⟨newest, listed, _, held⟩ := kept.routed block stored
  have far : hi + pruneFloorGap ≤ block.number + 1 := by
    have := prunable.belowFloor
    omega
  have gap : pruneFloorGap = 12800 := rfl
  refine ⟨newest, listed, ?_, ?_⟩
  · by_contra passed
    obtain ⟨bound, high, below⟩ := kept.past newest listed passed
    have reach := held.2 bound high
    have from_ := kept.above range prunable.listed prunable.attached
    have inside : range.lo.getD 0 ≤ hi := by
      cases low : range.lo with
      | none => exact Nat.zero_le _
      | some lo => exact (kept.sized range prunable.listed lo low hi prunable.bounded).le
    unfold History.historyFrom Ledger.historyFrom Db.historyFrom at from_
    split at from_ <;> omega
  · intro same
    have := eq_of_lo_eq kept.keyed listed prunable.listed same
    have := held.2 hi (this ▸ prunable.bounded)
    omega

theorem Kept.advance (kept : Kept history) (prunable : Prunable history range hi head daily) :
    Kept (history.advanced range hi) := by
  obtain ⟨newest, newestListed, newestAttached, newestOther⟩ := kept.head_range prunable
  have stays {other : HistoryRange} (listed : other ∈ history.ranges) (differs : other.lo ≠ range.lo) :
      other ∈ (history.advanced range hi).ranges :=
    mem_map.mpr ⟨other, listed, if_neg differs⟩
  have after {other : HistoryRange} (listed : other ∈ history.ranges) (attached : other.state = .attached)
      (differs : other.lo ≠ range.lo) : (history.advanced range hi).historyFrom ≤ other.lo.getD 0 := by
    obtain ⟨lo, low, reaches⟩ :=
      kept.next_range prunable.listed prunable.bounded (prunable.oldest other listed attached) listed differs
    have before := kept.above other listed attached
    have bound := (historyFrom_advanced history range hi).2
    rw [low] at before ⊢
    exact bound.trans (max_le before reaches)
  have routed : (history.advanced range hi).Routed := by
    intro block stored
    obtain ⟨home, listed, whole, held⟩ := kept.routed block stored
    by_cases named : home.lo = range.lo
    · exact ⟨{ home with state := .detaching }, mem_map.mpr ⟨home, listed, if_pos named⟩, whole, held⟩
    · exact ⟨home, stays listed named, whole, held⟩
  have laid : Laid (history.advanced range hi) :=
    kept.toLaid.update rfl (fun _ => ⟨rfl, rfl⟩) (fun _ _ _ attached => by cases attached)
      (fun _ _ _ detached => by cases detached) routed ⟨newest, stays newestListed newestOther, newestAttached⟩
  refine { laid with above := ?_, past := ?_, ahead := ?_ }
  · intro other member attached
    rcases mem_updateRange member with unchanged | ⟨_, _, _, rfl⟩
    · exact after unchanged.1 attached unchanged.2
    · cases attached
  · intro other member passed
    rw [advanced_prunedThrough]
    rcases mem_updateRange member with unchanged | ⟨old, listed, named, rfl⟩
    · obtain ⟨bound, high, below⟩ := kept.past other unchanged.1 passed
      exact ⟨bound, high, by omega⟩
    · rw [eq_of_lo_eq kept.keyed listed prunable.listed named]
      exact ⟨hi, prunable.bounded, by omega⟩
  · refine ⟨newest, stays newestListed newestOther, newestAttached, ?_⟩
    intro bound high
    have reaches := after newestListed newestAttached newestOther
    cases low : newest.lo with
    | none =>
      rw [low] at reaches
      exact reaches.trans (Nat.zero_le _)
    | some lo =>
      rw [low] at reaches
      exact reaches.trans (kept.sized newest newestListed lo low bound high).le

theorem Bounded.advance (bounded : Bounded history) (range : HistoryRange) (hi : Nat) :
    Bounded (history.advanced range hi) := by
  intro other member
  rcases mem_updateRange member with unchanged | ⟨old, listed, _, rfl⟩
  · exact bounded other unchanged.1
  · exact bounded old listed

/-- The watermark moves past the range unless it is only block 0 and nothing was pruned before. -/
theorem Covered.advance (laid : Laid history) (covered : Covered history)
    (prunable : Prunable history range hi head daily) (moves : hi = 1 → history.ledger.prunedThrough ≠ 0) :
    Covered (history.advanced range hi) := by
  intro number from_ below
  have reached : ∃ other ∈ history.ranges, ∃ bound ∈ other.hi, number < bound := by
    obtain ⟨other, member, rest⟩ := below
    rcases mem_updateRange member with unchanged | ⟨old, listed, _, rfl⟩
    · exact ⟨other, unchanged.1, rest⟩
    · exact ⟨old, listed, rest⟩
  have started := (historyFrom_advanced history range hi).1.trans from_
  obtain ⟨home, listed, attached, held⟩ := covered number started reached
  have other : home.lo ≠ range.lo := by
    intro same
    have inside := held.2 hi (eq_of_lo_eq laid.keyed listed prunable.listed same ▸ prunable.bounded)
    unfold History.historyFrom Ledger.historyFrom Db.historyFrom at from_
    rw [advanced_prunedThrough] at from_
    split at from_ <;> omega
  exact ⟨home, mem_map.mpr ⟨home, listed, if_neg other⟩, attached, held⟩

structure PastUpdate (history next : History) (lo : Option Nat) (change : HistoryRange → HistoryRange) : Prop where
  ranges : next.ranges = updateRange lo change history.ranges
  same : ∀ range, (change range).lo = range.lo ∧ (change range).hi = range.hi
  passed : ∀ range ∈ history.ranges, range.lo = lo → range.state ≠ .attached ∧ (change range).state ≠ .attached
  pruned : next.ledger.prunedThrough = history.ledger.prunedThrough

section Update

variable {next : History} {lo : Option Nat} {change : HistoryRange → HistoryRange}

variable {range : HistoryRange}

theorem PastUpdate.attached_iff (changes : PastUpdate history next lo change) (attached : range.state = .attached) :
    range ∈ next.ranges ↔ range ∈ history.ranges := by
  rw [changes.ranges]
  apply Iff.intro
  · intro member
    rcases mem_updateRange member with unchanged | ⟨old, listed, named, rfl⟩
    · exact unchanged.1
    · exact absurd attached (changes.passed old listed named).2
  · intro listed
    exact mem_map.mpr ⟨range, listed, if_neg fun named => (changes.passed range listed named).1 attached⟩

theorem PastUpdate.before (changes : PastUpdate history next lo change) (member : range ∈ next.ranges) :
    ∃ old ∈ history.ranges, old.hi = range.hi ∧ (range.state ≠ .attached → old.state ≠ .attached) := by
  rw [changes.ranges] at member
  rcases mem_updateRange member with unchanged | ⟨old, listed, named, rfl⟩
  · exact ⟨range, unchanged.1, rfl, id⟩
  · exact ⟨old, listed, (changes.same old).2.symm, fun _ => (changes.passed old listed named).1⟩

theorem Kept.update (kept : Kept history) (laid : Laid next) (changes : PastUpdate history next lo change) :
    Kept next := by
  have from_ := historyFrom_same changes.pruned
  refine { laid with above := ?_, past := ?_, ahead := ?_ }
  · intro range member attached
    rw [from_]
    exact kept.above range ((changes.attached_iff attached).mp member) attached
  · intro range member detached
    obtain ⟨old, listed, high, before⟩ := changes.before member
    rw [← high, changes.pruned]
    exact kept.past old listed (before detached)
  · obtain ⟨range, listed, attached, reaches⟩ := kept.ahead
    rw [from_]
    exact ⟨range, (changes.attached_iff attached).mpr listed, attached, reaches⟩

theorem Bounded.update (bounded : Bounded history) (changes : PastUpdate history next lo change) : Bounded next := by
  intro range member
  obtain ⟨old, listed, high, _⟩ := changes.before member
  rw [← high]
  exact bounded old listed

theorem Covered.update (covered : Covered history) (changes : PastUpdate history next lo change) : Covered next := by
  intro number started below
  rw [historyFrom_same changes.pruned] at started
  have reached : ∃ range ∈ history.ranges, ∃ hi ∈ range.hi, number < hi := by
    obtain ⟨range, member, hi, high, less⟩ := below
    obtain ⟨old, listed, oldHigh, _⟩ := changes.before member
    exact ⟨old, listed, hi, oldHigh.trans high, less⟩
  obtain ⟨range, listed, attached, held⟩ := covered number started reached
  exact ⟨range, (changes.attached_iff attached).mpr listed, attached, held⟩

end Update

theorem Laid.inUse_elsewhere (laid : Laid history) (listed : range ∈ history.ranges) (passed : range.state ≠ .attached) :
    ∃ home ∈ history.ranges, home.state = .attached ∧ home.lo ≠ range.lo := by
  obtain ⟨home, member, attached⟩ := laid.inUse
  refine ⟨home, member, attached, fun named => passed ?_⟩
  rw [← eq_of_lo_eq laid.keyed member listed named]
  exact attached

theorem Laid.detachTable (laid : Laid history) {table : HistoryTable} (listed : range ∈ history.ranges)
    (detaching : range.state = .detaching) (turn : HistoryTable.all[range.detachedTables]? = some table) :
    Laid { history.setStore (detachRows table range history.ledger.store) with
      ranges := updateRange range.lo (fun range => { range with detachedTables := range.detachedTables + 1 })
        history.ranges } := by
  have found {other : HistoryRange} (member : other ∈ history.ranges) (named : other.lo = range.lo) : other = range :=
    eq_of_lo_eq laid.keyed member listed named
  refine laid.update rfl (fun _ => ⟨rfl, rfl⟩) ?_ ?_ ?_ ?_
  · intro other member named attached
    have state : range.state = .attached := found member named ▸ attached
    rw [detaching] at state
    cases state
  · intro _ _ _ _
    exact Nat.succ_ne_zero _
  · intro block stored
    have kept : block ∈ history.blocks ∧ (range.detachedTables = 0 → ¬range.holds block.number) := by
      cases table with
      | blocks =>
        have left : block ∈ history.blocks ∧ ¬range.holds block.number := by
          simpa [History.blocks, History.setStore, detachRows] using stored
        exact ⟨left.1, fun _ => left.2⟩
      | _ =>
        refine ⟨stored, fun first => ?_⟩
        rw [first] at turn
        cases turn
    obtain ⟨home, member, whole, held⟩ := laid.routed block kept.1
    have other : home.lo ≠ range.lo := by
      intro named
      rw [found member named] at whole held
      exact kept.2 whole held
    exact ⟨home, mem_map.mpr ⟨home, member, if_neg other⟩, whole, held⟩
  · obtain ⟨home, member, attached, other⟩ := laid.inUse_elsewhere listed (by rw [detaching]; decide)
    exact ⟨home, mem_map.mpr ⟨home, member, if_neg other⟩, attached⟩

theorem Laid.detachDone (laid : Laid history) (listed : range ∈ history.ranges) (detaching : range.state = .detaching)
    (turn : HistoryTable.all[range.detachedTables]? = none) :
    Laid { history with
      ranges := updateRange range.lo (fun range => { range with state := .detached }) history.ranges } := by
  have found {other : HistoryRange} (member : other ∈ history.ranges) (named : other.lo = range.lo) : other = range :=
    eq_of_lo_eq laid.keyed member listed named
  refine laid.update rfl (fun _ => ⟨rfl, rfl⟩) ?_ ?_ ?_ ?_
  · intro _ _ _ attached
    cases attached
  · intro other member named _
    rw [found member named]
    intro none_
    rw [none_] at turn
    cases turn
  · intro block stored
    obtain ⟨home, member, whole, held⟩ := laid.routed block stored
    by_cases named : home.lo = range.lo
    · exact ⟨{ home with state := .detached }, mem_map.mpr ⟨home, member, if_pos named⟩, whole, held⟩
    · exact ⟨home, mem_map.mpr ⟨home, member, if_neg named⟩, whole, held⟩
  · obtain ⟨home, member, attached, other⟩ := laid.inUse_elsewhere listed (by rw [detaching]; decide)
    exact ⟨home, mem_map.mpr ⟨home, member, if_neg other⟩, attached⟩

theorem Laid.detach (laid : Laid history) {next : History} {lo : Option Nat}
    (done : history.detachRange lo = some next) : Laid next := by
  obtain ⟨range, listed, rfl, detaching, ⟨table, turn, rfl⟩ | ⟨turn, rfl⟩⟩ := History.detachRange_eq_some done
  · exact laid.detachTable listed detaching turn
  · exact laid.detachDone listed detaching turn

theorem Laid.detachRange_update (laid : Laid history) {next : History} {lo : Option Nat}
    (done : history.detachRange lo = some next) : ∃ change, PastUpdate history next lo change := by
  obtain ⟨range, listed, named, detaching, change⟩ := History.detachRange_eq_some done
  have passed : ∀ other ∈ history.ranges, other.lo = lo → other.state ≠ .attached := by
    intro other member otherNamed
    rw [eq_of_lo_eq laid.keyed member listed (otherNamed.trans named.symm), detaching]
    decide
  obtain ⟨table, _, rfl⟩ | ⟨_, rfl⟩ := change
  · refine ⟨_, rfl, fun _ => ⟨rfl, rfl⟩, fun other member otherNamed => ?_, rfl⟩
    exact ⟨passed other member otherNamed, passed other member otherNamed⟩
  · refine ⟨_, rfl, fun _ => ⟨rfl, rfl⟩, fun other member otherNamed => ⟨passed other member otherNamed, ?_⟩, rfl⟩
    intro attached
    cases attached

theorem Kept.detach (kept : Kept history) {next : History} {lo : Option Nat}
    (done : history.detachRange lo = some next) : Kept next := by
  obtain ⟨_, changes⟩ := kept.detachRange_update done
  exact kept.update (kept.toLaid.detach done) changes

/-! The drop takes away a range no table has any more. -/

theorem Laid.drop (laid : Laid history) {next : History} {lo : Option Nat}
    (done : history.dropRange lo = some next) : Laid next := by
  obtain ⟨range, listed, rfl, detached, rfl⟩ := History.dropRange_eq_some done
  have found {other : HistoryRange} (member : other ∈ history.ranges) (named : other.lo = range.lo) : other = range :=
    eq_of_lo_eq laid.keyed member listed named
  exact {
    keyed := laid.keyed.sublist (filter_sublist.map _)
    sized := fun other member => laid.sized other (mem_of_mem_filter member)
    legacy := fun other member => laid.legacy other (mem_of_mem_filter member)
    disjoint := fun first firstMember second secondMember =>
      laid.disjoint first (mem_of_mem_filter firstMember) second (mem_of_mem_filter secondMember)
    whole := fun other member => laid.whole other (mem_of_mem_filter member)
    torn := fun other member => laid.torn other (mem_of_mem_filter member)
    routed := by
      intro block stored
      obtain ⟨home, member, whole, held⟩ := laid.routed block stored
      have other : home.lo ≠ range.lo := by
        intro named
        rw [found member named] at whole
        exact laid.torn range listed detached whole
      exact ⟨home, mem_filter.mpr ⟨member, decide_eq_true other⟩, whole, held⟩
    inUse := by
      obtain ⟨home, member, attached, other⟩ := laid.inUse_elsewhere listed (by rw [detached]; decide)
      exact ⟨home, mem_filter.mpr ⟨member, decide_eq_true other⟩, attached⟩ }

theorem Bounded.drop (bounded : Bounded history) {next : History} {lo : Option Nat}
    (done : history.dropRange lo = some next) : Bounded next := by
  obtain ⟨_, _, _, _, rfl⟩ := History.dropRange_eq_some done
  exact fun range member => bounded range (mem_of_mem_filter member)

theorem Laid.attached_dropRange (laid : Laid history) {next : History} {lo : Option Nat}
    (done : history.dropRange lo = some next) (listed : range ∈ history.ranges) (attached : range.state = .attached) :
    range ∈ next.ranges := by
  obtain ⟨dropped, member, rfl, detached, rfl⟩ := History.dropRange_eq_some done
  refine mem_filter.mpr ⟨listed, decide_eq_true ?_⟩
  intro named
  rw [eq_of_lo_eq laid.keyed listed member named, detached] at attached
  cases attached

theorem Kept.drop (kept : Kept history) {next : History} {lo : Option Nat}
    (done : history.dropRange lo = some next) : Kept next := by
  have laid := kept.toLaid.drop done
  obtain ⟨newest, listed, attached, reaches⟩ := kept.ahead
  have stays := kept.attached_dropRange done listed attached
  obtain ⟨_, _, _, _, rfl⟩ := History.dropRange_eq_some done
  refine { laid with above := ?_, past := ?_, ahead := ?_ }
  · exact fun other member => kept.above other (mem_of_mem_filter member)
  · exact fun other member => kept.past other (mem_of_mem_filter member)
  · exact ⟨newest, stays, attached, reaches⟩

theorem Covered.drop (laid : Laid history) (covered : Covered history) {next : History} {lo : Option Nat}
    (done : history.dropRange lo = some next) : Covered next := by
  have stays {range : HistoryRange} (listed : range ∈ history.ranges) (attached : range.state = .attached) :=
    laid.attached_dropRange done listed attached
  obtain ⟨_, _, _, _, rfl⟩ := History.dropRange_eq_some done
  intro number started below
  obtain ⟨other, member, rest⟩ := below
  obtain ⟨home, listed, attached, held⟩ :=
    covered number started ⟨other, mem_of_mem_filter member, rest⟩
  exact ⟨home, stays listed attached, attached, held⟩

end Prune

end OpsIndexer.Db
