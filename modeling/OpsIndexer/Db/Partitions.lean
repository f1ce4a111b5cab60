import OpsIndexer.Db.LedgerWrites

/-!
# History partitions and pruning

Migrations 014, 022, 024, 034 and 037 and `internal/db/retention.go`: the block ranges every history table is
partitioned by, the prune watermark, `prune_advance` with all of its checks, and the detach and drop of a range past
it. A range is named by its lower bound: `legacy`, from `MINVALUE`, has none. The rows of a partition are the rows of
its numbers, as Postgres routes them.
-/

namespace OpsIndexer.Db

open OpsIndexer.Types List

inductive RangeState where
  | attached
  | detaching
  | detached
  deriving DecidableEq, Repr

/-- A row of `history_partitions`; no upper bound is the legacy range before the cut. `detachedTables` is how many of
its partitions `pg_inherits` no longer lists, in the order of the history tables. -/
structure HistoryRange where
  lo : Option Nat
  hi : Option Nat
  state : RangeState := .attached
  detachedTables : Nat := 0
  deriving DecidableEq, Repr

def HistoryRange.holds (range : HistoryRange) (number : Nat) : Prop :=
  (∀ lo ∈ range.lo, lo ≤ number) ∧ ∀ hi ∈ range.hi, number < hi

instance HistoryRange.decidableHolds (range : HistoryRange) (number : Nat) : Decidable (range.holds number) :=
  inferInstanceAs (Decidable ((∀ lo ∈ range.lo, lo ≤ number) ∧ ∀ hi ∈ range.hi, number < hi))

inductive HistoryTable where
  | blocks
  | transactions
  | logs
  | tokenTransfers
  | internalTransactions
  | balances
  deriving DecidableEq, Repr

/-- The tables, the closed spans and the watermark are the ledger's; `dailyWatermark` is `daily_stats_watermark`'s
`last_block`, one below the first block of a day. -/
structure History where
  ledger : Ledger := {}
  ranges : List HistoryRange := [{ lo := none, hi := none }]
  prunedThroughTs : Nat := 0
  dailyWatermark : Option Int := none
  missing : List (Nat × Nat) := []

def History.blocks (history : History) : List Block :=
  history.ledger.store.blocks

def History.historyFrom (history : History) : Nat :=
  history.ledger.historyFrom

def History.head (history : History) : Option Nat :=
  (history.blocks.map (·.number)).max?

/-! ## What may be pruned -/

/-- `daily_stats_epoch(daily_stats_day(ts))`: the start of the UTC day. -/
def dayStart (timestamp : Nat) : Nat :=
  timestamp / 86400 * 86400

def History.floorBlock (history : History) : Option Block :=
  history.head.bind fun head =>
    (history.blocks.filter fun block => block.number + pruneFloorGap ≤ head).argmax (·.number)

def History.pruneDayFloor (history : History) : Option Nat :=
  match history.floorBlock with
  | some block => some (dayStart block.timestamp)
  | none =>
    if 0 < history.ledger.prunedThrough ∧ history.blocks ≠ [] then some (dayStart history.prunedThroughTs) else none

def History.rangeBlocks (history : History) (range : HistoryRange) : List Block :=
  history.blocks.filter fun block => range.holds block.number

def History.historyRangeNewestTs (history : History) (range : HistoryRange) : Option Nat :=
  ((history.rangeBlocks range).map (·.timestamp)).max?

def History.historyRangeBeforeReorgDay (history : History) (range : HistoryRange) : Bool :=
  match history.pruneDayFloor with
  | none => false
  | some floor => (history.historyRangeNewestTs range).all (· < floor)

/-- `history_range_complete`: genesis is optional. -/
def History.historyRangeComplete (history : History) (range : HistoryRange) : Bool :=
  match range.hi with
  | none => false
  | some hi =>
    let first := max (max (range.lo.getD 0) history.historyFrom) 1
    !history.missing.any (fun missing => missing.1 < hi && first ≤ missing.2) &&
      ((history.rangeBlocks range).filter fun block => first ≤ block.number).length + first = hi

def HistoryRange.order (range : HistoryRange) : Int :=
  (range.lo.map Int.ofNat).getD (-1)

def raiseMissing (hi : Nat) (missing : List (Nat × Nat)) : List (Nat × Nat) :=
  (missing.filter fun range => hi ≤ range.2).map fun range => if range.1 < hi then (hi, range.2) else range

def updateRange (lo : Option Nat) (update : HistoryRange → HistoryRange) (ranges : List HistoryRange) :
    List HistoryRange :=
  ranges.map fun range => if range.lo = lo then update range else range

def History.pruneAdvance (history : History) (lo : Option Nat) : Option History := do
  let range ← history.ranges.find? fun range => range.lo = lo && range.state = .attached
  let hi ← range.hi
  guard (¬ ∃ other ∈ history.ranges, other.state = .attached ∧ other.order < range.order)
  let head ← history.head
  let daily ← history.dailyWatermark
  guard ((hi : Int) - 1 ≤ min ((head : Int) - pruneFloorGap) daily)
  guard (history.historyRangeBeforeReorgDay range)
  guard (history.historyRangeComplete range)
  let ledger ← history.ledger.pruneAdvance (range.lo.getD 0) hi
  some { history with
    ledger := ledger
    ranges := updateRange lo (fun range => { range with state := .detaching }) history.ranges
    prunedThroughTs := max history.prunedThroughTs ((history.historyRangeNewestTs range).getD 0)
    missing := raiseMissing hi history.missing }

/-! ## Detach and drop -/

/-- One table without a range's partition; `balances` is not among the tables kept here. -/
def detachRows (table : HistoryTable) (range : HistoryRange) (store : Store) : Store :=
  match table with
  | .blocks => { store with blocks := store.blocks.filter fun row => ¬range.holds row.number }
  | .transactions => { store with transactions := store.transactions.filter fun row => ¬range.holds row.blockNumber }
  | .logs => { store with logs := store.logs.filter fun row => ¬range.holds row.blockNumber }
  | .tokenTransfers =>
    { store with tokenTransfers := store.tokenTransfers.filter fun row => ¬range.holds row.blockNumber }
  | .internalTransactions =>
    { store with internalTransactions := store.internalTransactions.filter fun row => ¬range.holds row.blockNumber }
  | .balances => store

def HistoryTable.all : List HistoryTable :=
  [.blocks, .transactions, .logs, .tokenTransfers, .internalTransactions, .balances]

def History.setStore (history : History) (store : Store) : History :=
  { history with ledger := { history.ledger with store := store } }

/-- A statement of `detachRange`: the next table's detach, after whose commit its queries do not see the range, or, with
every table done, the range's state. -/
def History.detachRange (history : History) (lo : Option Nat) : Option History :=
  (history.ranges.find? fun range => range.lo = lo && range.state = .detaching).map fun range =>
    match HistoryTable.all[range.detachedTables]? with
    | some table =>
      { history.setStore (detachRows table range history.ledger.store) with
        ranges :=
          updateRange lo (fun range => { range with detachedTables := range.detachedTables + 1 }) history.ranges }
    | none => { history with ranges := updateRange lo (fun range => { range with state := .detached }) history.ranges }

def History.dropRange (history : History) (lo : Option Nat) : Option History :=
  (history.ranges.find? fun range => range.lo = lo && range.state = .detached).map fun _ =>
    { history with ranges := history.ranges.filter fun range => range.lo ≠ lo }

/-! ## What each step has checked -/

def History.advanced (history : History) (range : HistoryRange) (hi : Nat) : History :=
  { history with
    ledger := { history.ledger with
      prunedThrough := max history.ledger.prunedThrough (hi - 1)
      detaching := history.ledger.detaching ++ [(range.lo.getD 0, hi)] }
    ranges := updateRange range.lo (fun range => { range with state := .detaching }) history.ranges
    prunedThroughTs := max history.prunedThroughTs ((history.historyRangeNewestTs range).getD 0)
    missing := raiseMissing hi history.missing }

structure Prunable (history : History) (range : HistoryRange) (hi head : Nat) (daily : Int) : Prop where
  listed : range ∈ history.ranges
  attached : range.state = .attached
  bounded : range.hi = some hi
  oldest : ∀ other ∈ history.ranges, other.state = .attached → range.order ≤ other.order
  highest : history.head = some head
  folded : history.dailyWatermark = some daily
  belowFloor : (hi : Int) - 1 ≤ (head : Int) - pruneFloorGap
  belowDaily : (hi : Int) - 1 ≤ daily
  beforeReorgDay : history.historyRangeBeforeReorgDay range = true
  complete : history.historyRangeComplete range = true
  closed : ∃ span ∈ history.ledger.spans, span.hi = hi

variable {history after : History} {lo : Option Nat} {update : HistoryRange → HistoryRange} {ranges : List HistoryRange}

theorem History.pruneAdvance_eq_some (done : history.pruneAdvance lo = some after) :
    ∃ range hi head daily, range.lo = lo ∧ Prunable history range hi head daily ∧
      after = history.advanced range hi := by
  unfold History.pruneAdvance at done
  obtain ⟨range, found, done⟩ := Option.bind_eq_some_iff.mp done
  obtain ⟨hi, bounded, done⟩ := Option.bind_eq_some_iff.mp done
  obtain ⟨_, oldest, done⟩ := Option.bind_eq_some_iff.mp done
  obtain ⟨head, highest, done⟩ := Option.bind_eq_some_iff.mp done
  obtain ⟨daily, folded, done⟩ := Option.bind_eq_some_iff.mp done
  obtain ⟨_, below, done⟩ := Option.bind_eq_some_iff.mp done
  obtain ⟨_, day, done⟩ := Option.bind_eq_some_iff.mp done
  obtain ⟨_, complete, done⟩ := Option.bind_eq_some_iff.mp done
  obtain ⟨ledger, moved, done⟩ := Option.bind_eq_some_iff.mp done
  simp only [Option.guard_eq_some', not_exists, not_and, not_lt, le_min_iff] at oldest below day complete
  have named : range.lo = lo ∧ range.state = .attached := by
    simpa using List.find?_some found
  unfold Ledger.pruneAdvance at moved
  split at moved
  · rename_i closed
    refine ⟨range, hi, head, daily, named.1, ?_, ?_⟩
    · exact {
        listed := mem_of_find?_eq_some found
        attached := named.2
        bounded := bounded
        oldest := oldest
        highest := highest
        folded := folded
        belowFloor := below.1
        belowDaily := below.2
        beforeReorgDay := day
        complete := complete
        closed := by simpa using closed }
    · rw [← Option.some.inj done, ← Option.some.inj moved, ← named.1]
      rfl
  · cases moved

theorem History.detachRange_eq_some (done : history.detachRange lo = some after) :
    ∃ range ∈ history.ranges, range.lo = lo ∧ range.state = .detaching ∧
      ((∃ table, HistoryTable.all[range.detachedTables]? = some table ∧
          after = { history.setStore (detachRows table range history.ledger.store) with
            ranges :=
              updateRange lo (fun range => { range with detachedTables := range.detachedTables + 1 }) history.ranges }) ∨
        HistoryTable.all[range.detachedTables]? = none ∧ after = { history with
          ranges := updateRange lo (fun range => { range with state := .detached }) history.ranges }) := by
  obtain ⟨range, found, rfl⟩ := Option.map_eq_some_iff.mp done
  have named : range.lo = lo ∧ range.state = .detaching := by
    simpa using List.find?_some found
  refine ⟨range, mem_of_find?_eq_some found, named.1, named.2, ?_⟩
  cases HistoryTable.all[range.detachedTables]? with
  | some table => exact .inl ⟨table, rfl, rfl⟩
  | none => exact .inr ⟨rfl, rfl⟩

theorem History.dropRange_eq_some (done : history.dropRange lo = some after) :
    ∃ range ∈ history.ranges, range.lo = lo ∧ range.state = .detached ∧
      after = { history with ranges := history.ranges.filter fun range => range.lo ≠ lo } := by
  obtain ⟨range, found, rfl⟩ := Option.map_eq_some_iff.mp done
  have named : range.lo = lo ∧ range.state = .detached := by
    simpa using List.find?_some found
  exact ⟨range, mem_of_find?_eq_some found, named.1, named.2, rfl⟩

theorem mem_updateRange {range : HistoryRange} (member : range ∈ updateRange lo update ranges) :
    (range ∈ ranges ∧ range.lo ≠ lo) ∨ ∃ old ∈ ranges, old.lo = lo ∧ range = update old := by
  obtain ⟨old, listed, rfl⟩ := mem_map.mp member
  split
  · rename_i named
    exact .inr ⟨old, listed, named, rfl⟩
  · rename_i other
    exact .inl ⟨listed, other⟩

theorem eq_of_lo_eq (keyed : (ranges.map (·.lo)).Nodup) {first second : HistoryRange} (firstListed : first ∈ ranges)
    (secondListed : second ∈ ranges) (same : first.lo = second.lo) : first = second :=
  inj_on_of_nodup_map keyed firstListed secondListed same

theorem keyed_updateRange (keeps : ∀ range, (update range).lo = range.lo) (keyed : (ranges.map (·.lo)).Nodup) :
    ((updateRange lo update ranges).map (·.lo)).Nodup := by
  have same : (updateRange lo update ranges).map (·.lo) = ranges.map (·.lo) := by
    rw [updateRange, map_map]
    apply map_congr_left
    intro range _
    simp only [Function.comp_apply]
    split
    · exact keeps range
    · rfl
  rw [same]
  exact keyed

end OpsIndexer.Db
