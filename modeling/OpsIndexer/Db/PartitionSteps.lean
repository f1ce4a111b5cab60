import OpsIndexer.Db.Partitions

/-!
# Making partitions

`internal/db/retention.go` and `WipeAllData` of `internal/db/queries.go`: the partitions kept ahead of the head, the
gaps filled above the watermark, and the wipe, one statement at a time. A wipe can stop after any statement; until it
has been finished nothing else runs.
-/

namespace OpsIndexer.Db

open OpsIndexer.Types

/-- `COALESCE(lo, $1) < $2 AND COALESCE(hi, $2) > $1`. -/
def HistoryRange.overlaps (range : HistoryRange) (lo hi : Nat) : Bool :=
  range.lo.getD lo < hi && lo < range.hi.getD hi

/-- `history_partition_create`: Postgres refuses an empty range, a name in use, and a range that overlaps a partition
some table still has. -/
def History.historyPartitionCreate (history : History) (lo hi : Nat) : Option History :=
  if lo < hi ∧ ∀ range ∈ history.ranges, range.lo ≠ some lo ∧
      (range.overlaps lo hi → HistoryTable.all.length ≤ range.detachedTables) then
    some { history with ranges := history.ranges ++ [{ lo := some lo, hi := some hi }] }
  else none

/-! ## Ahead of the head -/

def History.top (history : History) : Option Nat :=
  (history.ranges.filterMap (·.hi)).max?

def History.newestSize (history : History) : Option Nat :=
  ((history.ranges.filterMap fun range => range.lo.bind fun lo => range.hi.map fun hi => (lo, hi)).argmax (·.1)).map
    fun bounds => bounds.2 - bounds.1

/-- The loop of `history_partitions_ensure`; the fuel is how often it can turn. -/
def History.ensureLoop (history : History) (upto size : Nat) : Nat → Nat → Option History
  | 0, _ => some history
  | fuel + 1, top =>
    if top ≤ upto then
      (history.historyPartitionCreate top (top + size)).bind fun next => next.ensureLoop upto size fuel (top + size)
    else some history

def History.historyPartitionsEnsure (history : History) (upto size : Nat) : Option History :=
  match history.top with
  | none => some history
  | some top =>
    if history.ranges.any fun range => range.lo = none && range.hi = none then some history
    else if size = 0 then history.newestSize.bind fun size => history.ensureLoop upto size (upto + 1) top
    else history.ensureLoop upto size (upto + 1) top

/-! ## Gaps above the watermark -/

def gapsFrom : Nat → List HistoryRange → Option (List (Nat × Nat))
  | _, [] => some []
  | covered, range :: rest =>
    range.hi.bind fun hi =>
      (gapsFrom (max covered hi) rest).map fun gaps =>
        match range.lo with
        | some lo => if covered < lo then (covered, lo) :: gaps else gaps
        | none => gaps

/-- A gap in partitions of one size, the first one taking what is left over. -/
def gapPieces (size : Nat) (gap : Nat × Nat) : Nat → Nat → List (Nat × Nat)
  | 0, _ => []
  | fuel + 1, lo =>
    if lo < gap.2 then
      let hi :=
        if lo = gap.1 ∧ (gap.2 - gap.1) % size ≠ 0 then lo + (gap.2 - gap.1) % size else min (lo + size) gap.2
      (lo, hi) :: gapPieces size gap fuel hi
    else []

def History.fillHistoryGaps (history : History) : List (Nat × Nat) :=
  match history.newestSize with
  | none => []
  | some size =>
    let ranges := history.ranges.insertionSort fun first second => first.order ≤ second.order
    ((gapsFrom history.historyFrom ranges).getD []).flatMap fun gap => gapPieces size gap (gap.2 - gap.1) gap.1

inductive InGap where
  | error
  | changed
  | created (history : History)

def History.createInGap (history : History) (lo hi : Nat) : InGap :=
  if lo < history.historyFrom ∨ history.ranges.any (·.overlaps lo hi) then .changed
  else
    match history.historyPartitionCreate lo hi with
    | none => .error
    | some next => .created next

/-! ## The wipe -/

/-- The truncated tables that are kept here, in the order they are truncated in. -/
inductive WipeTable where
  | dailyStatsWatermark
  | internalTransactions
  | logs
  | tokenTransfers
  | nftTokens
  | contracts
  | transactions
  | blocks
  | tokens
  | chainCounters
  | addressStats
  | missingBlockRanges
  | ledgerSpans
  | ledgerStage
  | statsBackfill
  deriving DecidableEq, Repr

def WipeTable.all : List WipeTable :=
  [.dailyStatsWatermark, .internalTransactions, .logs, .tokenTransfers, .nftTokens, .contracts, .transactions, .blocks,
    .tokens, .chainCounters, .addressStats, .missingBlockRanges, .ledgerSpans, .ledgerStage, .statsBackfill]

def History.truncate (history : History) : WipeTable → History
  | .dailyStatsWatermark => { history with dailyWatermark := none }
  | .internalTransactions => history.setStore { history.ledger.store with internalTransactions := [] }
  | .logs => history.setStore { history.ledger.store with logs := [] }
  | .tokenTransfers => history.setStore { history.ledger.store with tokenTransfers := [] }
  | .nftTokens => history.setStore { history.ledger.store with nftTokens := [] }
  | .contracts => history.setStore { history.ledger.store with contracts := [] }
  | .transactions => history.setStore { history.ledger.store with transactions := [] }
  | .blocks => history.setStore { history.ledger.store with blocks := [] }
  | .tokens => history.setStore { history.ledger.store with tokens := [] }
  | .chainCounters => history.setStore { history.ledger.store with chainCounters := ∅ }
  | .addressStats => history.setStore { history.ledger.store with addressStats := [] }
  | .missingBlockRanges => { history with missing := [] }
  | .ledgerSpans => { history with ledger := { history.ledger with spans := [] } }
  | .ledgerStage => { history with ledger := { history.ledger with stage := ∅ } }
  | .statsBackfill => { history with ledger := { history.ledger with backfill := none } }

def History.resetWatermark (history : History) : History :=
  { history with ledger := { history.ledger with prunedThrough := 0 }, prunedThroughTs := 0 }

/-- Where a wipe stands: the tables left to truncate, the ranges past the old watermark left to drop, the partitions
left to create. A wipe that stopped has left its mark. -/
inductive Wiping where
  | truncating (rest : List WipeTable)
  | listing
  | clearing (rest : List (Option Nat))
  | filling (rest : List (Nat × Nat))
  | stopped

structure Retaining where
  history : History
  filling : List (Nat × Nat) := []
  wiping : Option Wiping := none

def History.pastRanges (history : History) : List (Option Nat) :=
  ((history.ranges.filter fun range => range.state ≠ .attached).insertionSort
    fun first second => first.order ≤ second.order).map (·.lo)

def Retaining.wipe (state : Retaining) : Retaining :=
  match state.wiping with
  | none => { state with wiping := some (.truncating WipeTable.all) }
  | some .stopped => { state with wiping := some (.truncating WipeTable.all) }
  | some (.truncating (table :: rest)) =>
    { state with history := state.history.truncate table, wiping := some (.truncating rest) }
  | some (.truncating []) => { state with history := state.history.resetWatermark, wiping := some .listing }
  | some .listing => { state with wiping := some (.clearing state.history.pastRanges) }
  | some (.clearing (lo :: rest)) =>
    match state.history.detachRange lo with
    | some next => { state with history := next }
    | none =>
      match state.history.dropRange lo with
      | some next => { state with history := next, wiping := some (.clearing rest) }
      | none => { state with wiping := some .stopped }
  | some (.clearing []) => { state with wiping := some (.filling state.history.fillHistoryGaps) }
  | some (.filling ((lo, hi) :: rest)) =>
    match state.history.createInGap lo hi with
    | .error => { state with wiping := some .stopped }
    | .changed => { state with wiping := some (.filling []) }
    | .created next => { state with history := next, wiping := some (.filling rest) }
  | some (.filling []) => { state with wiping := none }

/-! ## The system -/

/-- What ingest, reverts, the closer and the fold do is left open, but for the rows' partitions. -/
inductive RetainingEvent where
  | others (history : History)
  | fill
  | create
  | ensure (upto size : Nat)
  | pruneAdvance (lo : Option Nat)
  | detachRange (lo : Option Nat)
  | dropRange (lo : Option Nat)
  | wipe
  | stopWipe

def History.Routed (history : History) : Prop :=
  ∀ block ∈ history.blocks, ∃ range ∈ history.ranges, range.detachedTables = 0 ∧ range.holds block.number

instance History.decidableRouted (history : History) : Decidable history.Routed :=
  inferInstanceAs (Decidable (∀ block ∈ history.blocks,
    ∃ range ∈ history.ranges, range.detachedTables = 0 ∧ range.holds block.number))

def History.others (history next : History) : History :=
  let ledger := { next.ledger with prunedThrough := history.ledger.prunedThrough }
  let changed := { next with ledger := ledger, ranges := history.ranges, prunedThroughTs := history.prunedThroughTs }
  if changed.Routed then changed else history

def Retaining.retain (state : Retaining) : RetainingEvent → Retaining
  | .others next => { state with history := state.history.others next }
  | .fill => { state with filling := state.history.fillHistoryGaps }
  | .create =>
    match state.filling with
    | [] => state
    | (lo, hi) :: rest =>
      match state.history.createInGap lo hi with
      | .error => { state with filling := [] }
      | .changed => { state with filling := [] }
      | .created next => { state with history := next, filling := rest }
  | .ensure upto size =>
    { state with history := (state.history.historyPartitionsEnsure upto size).getD state.history }
  | .pruneAdvance lo => { state with history := (state.history.pruneAdvance lo).getD state.history }
  | .detachRange lo => { state with history := (state.history.detachRange lo).getD state.history }
  | .dropRange lo => { state with history := (state.history.dropRange lo).getD state.history }
  | .wipe => state
  | .stopWipe => state

def Retaining.step (state : Retaining) : RetainingEvent → Retaining
  | .wipe => state.wipe
  | .stopWipe => { state with wiping := state.wiping.map fun _ => .stopped }
  | event => if state.wiping.isNone then state.retain event else state

end OpsIndexer.Db
