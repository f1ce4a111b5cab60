import OpsIndexer.Db.LedgerWrites
import OpsIndexer.Lib.Recount

/-!
# The ledger as books

A ledger's spans, its open backfill span and its history rows, read as the books of `Lib.Recount`: the stored rows are
kept, and rows that were dropped or never stored are gone.
-/

namespace OpsIndexer.Db

open Lib.Tally Lib.Recount List

def LedgerSpan.recorded (span : LedgerSpan) : Span LedgerCounter :=
  ⟨span.lo, span.hi, span.rows.count⟩

def StatsBackfill.next (state : StatsBackfill) : Nat :=
  (state.through + 1).toNat

def StatsBackfill.openLo (state : StatsBackfill) : Nat :=
  state.spanLo.getD state.next

def Ledger.stagedSpan (ledger : Ledger) : Span LedgerCounter :=
  match ledger.backfill with
  | none => ⟨0, 0, fun _ => 0⟩
  | some state => ⟨state.openLo, state.next, ledger.staged.count⟩

def Ledger.books (ledger : Ledger) (gone : List (Nat × CountedRow)) : Books CountedRow LedgerCounter where
  spans := ledger.spans.map LedgerSpan.recorded
  staged := ledger.stagedSpan
  kept := storeItems ledger.store
  gone := gone
  floor := ledger.historyFrom

def Ledger.total (ledger : Ledger) (gone : List (Nat × CountedRow)) (counter : LedgerCounter) : Int :=
  tally counter.counts anywhere (storeItems ledger.store ++ gone)

/-- Where the backfill stands: its spans lie below the one in progress, and all others above the target. -/
structure BackfillPlaced (config : LedgerConfig) (ledger : Ledger) (state : StatsBackfill) : Prop where
  started : -1 ≤ state.through
  bounded : state.next ≤ state.target + 1
  pruned : state.target < ledger.historyFrom
  spanLo : state.spanLo =
    if state.next % config.spanBlocks = 0 ∨ state.next = state.target + 1 then none
    else some (state.next - state.next % config.spanBlocks)
  stage : ∀ lo, (ledger.stage.lookup lo).isSome = true → state.spanLo = some lo
  placed : state.openLo ≤ state.target → ∀ span ∈ ledger.spans, span.hi ≤ state.openLo ∨ state.target < span.lo

structure Sound (config : LedgerConfig) (ledger : Ledger) (gone : List (Nat × CountedRow)) : Prop where
  balanced : Balanced LedgerCounter.counts (ledger.books gone)
  running : ∀ entry ∈ ledger.running, entry.2 = ledger.total gone entry.1
  numbers : (ledger.store.blocks.map (·.number)).Nodup
  first : ∀ item ∈ storeItems ledger.store, config.firstBlock ≤ item.1
  detached : ∀ range ∈ ledger.detaching, range.2 ≤ ledger.historyFrom
  backfill : ∀ state, ledger.backfill = some state → BackfillPlaced config ledger state

/-! ## What the recounts are in the books -/

theorem historyRows_eq (store : Store) (first : Nat) (counter : LedgerCounter) :
    historyRows store first counter = tally counter.counts (fun position => first ≤ position) (storeItems store) := by
  simp only [storeItems, rowItems, tally_append, tally_map]
  cases counter with
  | blocks => simp [historyRows, LedgerCounter.counts]
  | transactions => simp [historyRows, LedgerCounter.counts]
  | transfers => simp [historyRows, LedgerCounter.counts]
  | token address => simp [historyRows, LedgerCounter.counts, transfersOf, filter_filter, Bool.and_comm]

theorem ledgerSum_eq (spans : List LedgerSpan) (counter : LedgerCounter) :
    ledgerSum spans counter = recorded (spans.map LedgerSpan.recorded) counter := by
  rw [ledgerSum, recorded, map_map]
  rfl

theorem Ledger.closedThrough_eq (ledger : Ledger) :
    ledger.closedThrough = Lib.Recount.closedThrough (ledger.spans.map LedgerSpan.recorded) := by
  have ends : (ledger.spans.map LedgerSpan.recorded).map (·.hi) = ledger.spans.map (·.hi) := by
    rw [map_map]
    rfl
  rw [Ledger.closedThrough, Ledger.lastHi, Lib.Recount.closedThrough, ends]
  cases ledger.spans.map (·.hi) with
  | nil => rfl
  | cons hi rest => rw [List.max?_cons', Option.getD_some, foldl_cons, Nat.zero_max]

theorem Ledger.prunedSpans_eq (ledger : Ledger) :
    ledger.prunedSpans.map LedgerSpan.recorded =
      (ledger.spans.map LedgerSpan.recorded).filter fun span => span.hi ≤ ledger.historyFrom := by
  rw [Ledger.prunedSpans, filter_map]
  rfl

theorem Ledger.stagedSpan_count (ledger : Ledger) (counter : LedgerCounter) :
    ledger.stagedSpan.count counter = ledger.staged.count counter := by
  unfold Ledger.stagedSpan Ledger.staged Ledger.openSpan
  cases ledger.backfill with
  | none => exact (count_empty counter).symm
  | some state => rfl

section Balanced

variable {ledger : Ledger} {gone : List (Nat × CountedRow)}
  (balanced : Balanced LedgerCounter.counts (ledger.books gone))

include balanced

theorem expected_eq (counter : LedgerCounter) :
    ledger.expected counter = ledger.total gone counter := by
  have total := balanced.closed_total counter
  rw [Ledger.expected, ledgerSum_eq, ← ledger.stagedSpan_count, historyRows_eq, ledger.closedThrough_eq]
  exact total

theorem retained_eq (counter : LedgerCounter) :
    historyRows ledger.store ledger.historyFrom counter + ledger.pruneOffset counter = ledger.total gone counter := by
  have total := balanced.floor_total counter
  rw [Ledger.pruneOffset, ledgerSum_eq, ← ledger.stagedSpan_count, historyRows_eq, ledger.prunedSpans_eq, ← add_assoc]
  exact total

end Balanced

theorem tokenCounted_fst (ledger : Ledger) (store : Store) (token : String) :
    (ledger.tokenCounted store.tokenTransfers token).1 =
      historyRows store ledger.historyFrom (.token token) + ledger.pruneOffset (.token token) := by
  rw [Ledger.tokenCounted, Ledger.pruneOffset, ledgerSum, map_map, ← add_assoc]
  rfl

end OpsIndexer.Db
