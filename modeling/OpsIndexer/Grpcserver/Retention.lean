import OpsIndexer.Db.Partitions
import OpsIndexer.Lib.Runs

/-!
# Serving a block's transactions while it is pruned

`internal/grpcserver/retention.go` and the by-block branch of `ListTransactions`, without the node lookup. Requests run
one statement or critical section at a time between the steps of retention. `times`, `starts` and `refreshed` only
record: the stored watermark at every moment, when each refresh began, and what each one returned.
-/

namespace OpsIndexer.Grpcserver

open OpsIndexer.Types Db Lib.Runs List

/-- The cached watermark; `readTime` is the moment its value was read at. -/
structure Watermark where
  through : Nat := 0
  started : Nat := 0
  applied : Nat := 0
  readTime : Nat := 0

/-- `other` is a handler that asks for the watermark only. -/
inductive Selector where
  | number (number : Nat)
  | hash (hash : String)
  | other
  deriving DecidableEq

inductive Reply where
  | rows (rows : List TransactionRow)
  | error
  deriving DecidableEq

inductive Purpose where
  | check (number : Nat)
  | recheck (number : Nat)
  | mention
  deriving DecidableEq

/-- Where a request stands. `read` is the number its refresh drew when it started. -/
inductive Stage where
  | called
  | missing
  | querying (number : Nat) (rechecks : Bool)
  | rechecking (number : Nat)
  | refreshing (purpose : Purpose) (read : Nat)
  | applying (purpose : Purpose) (read through readTime : Nat)
  | done (reply : Reply)
  deriving DecidableEq

structure Request where
  selector : Selector
  before : Store
  stage : Stage := .called

structure Refreshed where
  began : Nat
  through : Nat
  readTime : Nat

structure Serving where
  history : History
  watermark : Watermark := {}
  requests : List Request := []
  times : List Nat
  starts : List Nat := []
  refreshed : List Refreshed := []

def Serving.start (history : History) : Serving where
  history := history
  times := [history.ledger.prunedThrough]

def Serving.now (serving : Serving) : Nat :=
  serving.times.length - 1

def getTransactionsByBlock (store : Store) (number : Nat) : List TransactionRow :=
  (store.transactions.filter fun row => row.blockNumber = number).insertionSort fun first second =>
    first.txIndex ≤ second.txIndex

def getBlockByHash (store : Store) (hash : String) : Option Block :=
  store.blocks.find? fun block => block.hash = hash

def outOfRetention (block through : Nat) : Bool :=
  0 < through && block ≤ through

/-! ## One request -/

def Serving.setStage (serving : Serving) (index : Nat) (request : Request) (stage : Stage) : Serving :=
  { serving with requests := serving.requests.set index { request with stage := stage } }

/-- The first critical section of `refreshPrunedThrough`. -/
def Serving.startRefresh (serving : Serving) (index : Nat) (request : Request) (purpose : Purpose) : Serving :=
  { serving.setStage index request (.refreshing purpose (serving.watermark.started + 1)) with
    watermark := { serving.watermark with started := serving.watermark.started + 1 }
    starts := serving.starts ++ [serving.now] }

/-- The second one: of concurrent refreshes the one that started last wins. -/
def Watermark.apply (watermark : Watermark) (read through readTime : Nat) : Watermark :=
  if watermark.applied < read then
    { watermark with through := through, applied := read, readTime := readTime }
  else watermark

def afterWatermark (purpose : Purpose) (through : Nat) : Stage :=
  match purpose with
  | .check number => if outOfRetention number through then .done .error else .querying number true
  | .recheck number => if outOfRetention number through then .done .error else .done (.rows [])
  | .mention => .done .error

/-- The next step of a request: `ok` is whether its query succeeds, `fresh` whether the cache is. -/
def Serving.proceed (serving : Serving) (index : Nat) (request : Request) (ok fresh : Bool) : Serving :=
  let stay := serving.setStage index request
  match request.stage with
  | .called =>
    match request.selector with
    | .number number =>
      if fresh then stay (afterWatermark (.check number) serving.watermark.through)
      else serving.startRefresh index request (.check number)
    | .hash hash =>
      if ok then
        match getBlockByHash serving.history.ledger.store hash with
        | none => stay .missing
        | some block => stay (.querying block.number false)
      else stay (.done .error)
    | .other =>
      if fresh then stay (.done .error) else serving.startRefresh index request .mention
  | .missing => if fresh then stay (.done .error) else serving.startRefresh index request .mention
  | .querying number rechecks =>
    if ok then
      let rows := getTransactionsByBlock serving.history.ledger.store number
      if rows.isEmpty && rechecks then stay (.rechecking number) else stay (.done (.rows rows))
    else stay (.done .error)
  | .rechecking number => serving.startRefresh index request (.recheck number)
  | .refreshing purpose read =>
    if ok then stay (.applying purpose read serving.history.ledger.prunedThrough serving.now)
    else stay (.done .error)
  | .applying purpose read through readTime =>
    let watermark := serving.watermark.apply read through readTime
    { stay (afterWatermark purpose watermark.through) with
      watermark := watermark
      refreshed := serving.refreshed ++
        [⟨serving.starts.getD (read - 1) 0, watermark.through, watermark.readTime⟩] }
  | .done _ => serving

/-! ## The system -/

inductive Event where
  | begin (selector : Selector)
  | proceed (index : Nat) (ok fresh : Bool)
  | pruneAdvance (lo : Option Nat)
  | detachRange (lo : Option Nat)
  | dropRange (lo : Option Nat)

def Serving.act (serving : Serving) : Event → Serving
  | .begin selector =>
    { serving with requests := serving.requests ++ [⟨selector, serving.history.ledger.store, .called⟩] }
  | .proceed index ok fresh =>
    match serving.requests[index]? with
    | none => serving
    | some request => serving.proceed index request ok fresh
  | .pruneAdvance lo => { serving with history := (serving.history.pruneAdvance lo).getD serving.history }
  | .detachRange lo => { serving with history := (serving.history.detachRange lo).getD serving.history }
  | .dropRange lo => { serving with history := (serving.history.dropRange lo).getD serving.history }

def Serving.step (serving : Serving) (event : Event) : Serving :=
  { serving.act event with times := serving.times ++ [(serving.act event).history.ledger.prunedThrough] }

def Serving.cachedSince (serving : Serving) : Option Nat :=
  if serving.watermark.applied = 0 then none else serving.starts[serving.watermark.applied - 1]?

def Request.HadTransactions (request : Request) : Prop :=
  match request.selector with
  | .number number => ∃ row ∈ request.before.transactions, row.blockNumber = number
  | .hash hash =>
    (∃ block ∈ request.before.blocks, block.hash = hash) ∧
      ∀ block ∈ request.before.blocks, block.hash = hash →
        ∃ row ∈ request.before.transactions, row.blockNumber = block.number
  | .other => False

def Request.awaits (request : Request) : Option Nat :=
  match request.stage with
  | .querying number false => some number
  | _ => none

/-- The watermark does not have to stand at block 0, and no range's transactions are detached between the two queries
of a request for a block of it by hash. -/
def Undisturbed (serving : Serving) : Event → Prop
  | .pruneAdvance lo => ∀ range ∈ serving.history.ranges, range.lo = lo → range.hi = some 1 →
      serving.history.ledger.prunedThrough ≠ 0
  | .detachRange lo => ∀ range ∈ serving.history.ranges, range.lo = lo → range.detachedTables = 1 →
      ∀ request ∈ serving.requests, ∀ number ∈ request.awaits, ¬range.holds number
  | _ => True

instance decidableUndisturbed (serving : Serving) : (event : Event) → Decidable (Undisturbed serving event)
  | .pruneAdvance lo => inferInstanceAs (Decidable (∀ range ∈ serving.history.ranges, range.lo = lo →
      range.hi = some 1 → serving.history.ledger.prunedThrough ≠ 0))
  | .detachRange lo => inferInstanceAs (Decidable (∀ range ∈ serving.history.ranges, range.lo = lo →
      range.detachedTables = 1 → ∀ request ∈ serving.requests, ∀ number ∈ request.awaits, ¬range.holds number))
  | .begin _ => isTrue trivial
  | .proceed _ _ _ => isTrue trivial
  | .dropRange _ => isTrue trivial

structure PastWatermark (history : History) : Prop where
  keyed : (history.ranges.map (·.lo)).Nodup
  past : ∀ range ∈ history.ranges, range.state ≠ .attached →
    0 < history.ledger.prunedThrough ∧ ∃ hi, range.hi = some hi ∧ hi ≤ history.ledger.prunedThrough + 1
  blocksGone : ∀ range ∈ history.ranges, range.detachedTables ≠ 0 →
    range.state ≠ .attached ∧ ∀ block ∈ history.ledger.store.blocks, ¬range.holds block.number

/-! ## Pruning a block's rows -/

structure Gone (history : History) (number : Nat) : Prop where
  positive : 0 < history.ledger.prunedThrough
  covered : number ≤ history.ledger.prunedThrough
  unlisted : ∀ block ∈ history.ledger.store.blocks, block.number ≠ number

structure Prunes (before after : History) : Prop where
  watermark : before.ledger.prunedThrough ≤ after.ledger.prunedThrough
  blocks : ∀ block ∈ after.ledger.store.blocks, block ∈ before.ledger.store.blocks
  transactions : ∀ row ∈ before.ledger.store.transactions,
    row ∈ after.ledger.store.transactions ∨ Gone after row.blockNumber

theorem Prunes.refl (history : History) : Prunes history history :=
  ⟨le_rfl, fun _ member => member, fun _ member => .inl member⟩

theorem Gone.prunes {before after : History} {number : Nat} (gone : Gone before number)
    (prunes : Prunes before after) : Gone after number where
  positive := gone.positive.trans_le prunes.watermark
  covered := gone.covered.trans prunes.watermark
  unlisted := fun block member => gone.unlisted block (prunes.blocks block member)

variable {after before serving : Serving} {history : History} {lo : Option Nat} {index through read readTime : Nat}
  {ok fresh : Bool}

theorem historyRangeComplete_pos {range : HistoryRange} {hi : Nat} (bounded : range.hi = some hi)
    (complete : history.historyRangeComplete range = true) : 0 < hi := by
  simp only [History.historyRangeComplete, bounded, Bool.and_eq_true, decide_eq_true_eq] at complete
  omega

theorem PastWatermark.advance {after : History} (kept : PastWatermark history)
    (moves : ∀ range ∈ history.ranges, range.lo = lo → range.hi = some 1 → history.ledger.prunedThrough ≠ 0)
    (done : history.pruneAdvance lo = some after) : PastWatermark after ∧ Prunes history after := by
  obtain ⟨range, hi, head, daily, named, prunable, rfl⟩ := History.pruneAdvance_eq_some done
  have positive := historyRangeComplete_pos prunable.bounded prunable.complete
  have floor := moves range prunable.listed named
  rw [prunable.bounded, Option.some.injEq] at floor
  have raised : (history.advanced range hi).ledger.prunedThrough = max history.ledger.prunedThrough (hi - 1) := rfl
  refine ⟨⟨?_, ?_, ?_⟩, ⟨raised ▸ le_max_left _ _, fun _ member => member, fun _ member => .inl member⟩⟩
  · exact keyed_updateRange (fun _ => rfl) kept.keyed
  · intro other member detached
    rw [raised]
    rcases mem_updateRange member with unchanged | ⟨old, listed, same, rfl⟩
    · obtain ⟨some, bound, bounded, below⟩ := kept.past other unchanged.1 detached
      exact ⟨by omega, bound, bounded, by omega⟩
    · rw [eq_of_lo_eq kept.keyed listed prunable.listed same]
      exact ⟨by omega, hi, prunable.bounded, by omega⟩
  · intro other member detached
    rcases mem_updateRange member with unchanged | ⟨old, listed, same, rfl⟩
    · exact kept.blocksGone other unchanged.1 detached
    · rw [eq_of_lo_eq kept.keyed listed prunable.listed same] at detached
      exact absurd prunable.attached (kept.blocksGone range prunable.listed detached).1

theorem detachRows_blocks (table : HistoryTable) (range : HistoryRange) (store : Store) :
    ∀ block ∈ (detachRows table range store).blocks, block ∈ store.blocks := by
  intro block member
  cases table with
  | blocks => exact (mem_filter.mp member).1
  | transactions | logs | tokenTransfers | internalTransactions | balances => exact member

theorem PastWatermark.detach {after : History} (kept : PastWatermark history)
    (done : history.detachRange lo = some after) : PastWatermark after ∧ Prunes history after := by
  obtain ⟨range, listed, named, detaching, steps⟩ := History.detachRange_eq_some done
  have unattached : range.state ≠ .attached := by simp [detaching]
  obtain ⟨positive, hi, bounded, below⟩ := kept.past range listed unattached
  have gone (number : Nat) (held : range.holds number)
      (unlisted : ∀ block ∈ history.ledger.store.blocks, ¬range.holds block.number) : Gone history number := by
    refine ⟨positive, ?_, ?_⟩
    · have bound := held.2 hi bounded
      omega
    · rintro block member rfl
      exact unlisted block member held
  rcases steps with ⟨table, first, rfl⟩ | ⟨_, rfl⟩
  · have fewer := detachRows_blocks table range history.ledger.store
    have emptied : ∀ block ∈ (detachRows table range history.ledger.store).blocks, ¬range.holds block.number := by
      intro block member
      by_cases none : range.detachedTables = 0
      · rw [none] at first
        obtain rfl := Option.some.inj first
        simpa using (mem_filter.mp member).2
      · exact (kept.blocksGone range listed none).2 block (fewer block member)
    refine ⟨⟨?_, ?_, ?_⟩, ⟨le_rfl, fewer, ?_⟩⟩
    · exact keyed_updateRange (fun _ => rfl) kept.keyed
    · intro other member detached
      rcases mem_updateRange member with unchanged | ⟨old, oldListed, _, rfl⟩
      · exact kept.past other unchanged.1 detached
      · exact kept.past old oldListed detached
    · intro other member detached
      rcases mem_updateRange member with unchanged | ⟨old, oldListed, same, rfl⟩
      · have before := kept.blocksGone other unchanged.1 detached
        exact ⟨before.1, fun block stays => before.2 block (fewer block stays)⟩
      · rw [eq_of_lo_eq kept.keyed oldListed listed (same.trans named.symm)]
        exact ⟨unattached, emptied⟩
    · intro row member
      by_cases held : range.holds row.blockNumber
      · cases table with
        | transactions =>
          -- the transactions' partition is the second to go
          have second : range.detachedTables ≠ 0 := by
            intro none
            rw [none] at first
            cases first
          have covered := gone row.blockNumber held (kept.blocksGone range listed second).2
          exact .inr ⟨covered.positive, covered.covered, covered.unlisted⟩
        | blocks | logs | tokenTransfers | internalTransactions | balances => exact .inl member
      · cases table with
        | transactions => exact .inl (mem_filter.mpr ⟨member, by simpa using held⟩)
        | blocks | logs | tokenTransfers | internalTransactions | balances => exact .inl member
  · refine ⟨⟨?_, ?_, ?_⟩, ⟨le_rfl, fun _ member => member, fun _ member => .inl member⟩⟩
    · exact keyed_updateRange (fun _ => rfl) kept.keyed
    · intro other member detached
      rcases mem_updateRange member with unchanged | ⟨old, oldListed, same, rfl⟩
      · exact kept.past other unchanged.1 detached
      · rw [eq_of_lo_eq kept.keyed oldListed listed (same.trans named.symm)]
        exact ⟨positive, hi, bounded, below⟩
    · intro other member detached
      rcases mem_updateRange member with unchanged | ⟨old, oldListed, same, rfl⟩
      · exact kept.blocksGone other unchanged.1 detached
      · exact ⟨by simp, (kept.blocksGone old oldListed detached).2⟩

theorem PastWatermark.drop {after : History} (kept : PastWatermark history) (done : history.dropRange lo = some after) :
    PastWatermark after ∧ Prunes history after := by
  obtain ⟨_, _, _, _, rfl⟩ := History.dropRange_eq_some done
  refine ⟨⟨?_, ?_, ?_⟩, ⟨le_rfl, fun _ member => member, fun _ member => .inl member⟩⟩
  · exact kept.keyed.sublist (filter_sublist.map _)
  · intro range member
    exact kept.past range (mem_filter.mp member).1
  · intro range member
    exact kept.blocksGone range (mem_filter.mp member).1

/-! ## When each value was read -/

def ReadAt (serving : Serving) (read through readTime : Nat) : Prop :=
  serving.starts.getD (read - 1) 0 ≤ readTime ∧ serving.times[readTime]? = some through

def Stage.Timed (serving : Serving) : Stage → Prop
  | .refreshing _ read => 1 ≤ read ∧ read ≤ serving.watermark.started
  | .applying _ read through readTime =>
    1 ≤ read ∧ read ≤ serving.watermark.started ∧ ReadAt serving read through readTime
  | _ => True

structure Timed (serving : Serving) : Prop where
  last : serving.times.getLast? = some serving.history.ledger.prunedThrough
  drawn : serving.starts.length = serving.watermark.started
  ordered : serving.starts.Pairwise (· < ·)
  past : ∀ time ∈ serving.starts, time < serving.now
  applied : serving.watermark.applied ≤ serving.watermark.started
  cached : serving.watermark.applied ≠ 0 →
    ReadAt serving serving.watermark.applied serving.watermark.through serving.watermark.readTime
  requests : ∀ request ∈ serving.requests, request.stage.Timed serving
  refreshed : ∀ entry ∈ serving.refreshed,
    entry.began ≤ entry.readTime ∧ serving.times[entry.readTime]? = some entry.through

theorem Timed.start (history : History) : Timed (Serving.start history) where
  last := rfl
  drawn := rfl
  ordered := List.Pairwise.nil
  past := by simp [Serving.start]
  applied := le_rfl
  cached := by simp [Serving.start]
  requests := by simp [Serving.start]
  refreshed := by simp [Serving.start]

structure Grows (before after : Serving) : Prop where
  times : before.times <+: after.times
  starts : before.starts <+: after.starts
  started : before.watermark.started ≤ after.watermark.started

theorem Grows.getD_starts (grows : Grows before after) (drawn : index < before.starts.length) :
    after.starts.getD index 0 = before.starts.getD index 0 := by
  obtain ⟨more, same⟩ := grows.starts
  rw [← same, getD_append _ _ _ _ drawn]

theorem Grows.getElem?_times (grows : Grows before after) {time : Nat} (read : before.times[time]? = some through) :
    after.times[time]? = some through := by
  obtain ⟨more, same⟩ := grows.times
  rw [← same, List.getElem?_append_left (List.getElem?_eq_some_iff.mp read).1]
  exact read

theorem ReadAt.grows (at_ : ReadAt before read through readTime) (drawn : read - 1 < before.starts.length)
    (grows : Grows before after) : ReadAt after read through readTime :=
  ⟨(grows.getD_starts drawn).trans_le at_.1, grows.getElem?_times at_.2⟩

variable {stage : Stage}

theorem Stage.Timed.grows (timed : stage.Timed before)
    (drawn : before.starts.length = before.watermark.started) (grows : Grows before after) : stage.Timed after := by
  cases stage with
  | refreshing purpose read => exact ⟨timed.1, timed.2.trans grows.started⟩
  | applying purpose read through readTime =>
    have bound : read - 1 < before.starts.length := by
      have := timed.1
      have := timed.2.1
      omega
    exact ⟨timed.1, timed.2.1.trans grows.started, timed.2.2.grows bound grows⟩
  | called | missing | querying | rechecking | done => trivial

theorem Timed.now_lt (timed : Timed serving) : serving.now + 1 = serving.times.length := by
  have some := timed.last
  cases empty : serving.times with
  | nil => simp [empty] at some
  | cons first rest => simp [Serving.now, empty]

theorem Timed.times_now (timed : Timed serving) :
    serving.times[serving.now]? = some serving.history.ledger.prunedThrough := by
  rw [← timed.last, List.getLast?_eq_getElem?]
  rfl

theorem Timed.getD_le (timed : Timed serving) {earlier later : Nat} (order : earlier ≤ later)
    (drawn : later < serving.watermark.started) :
    serving.starts.getD earlier 0 ≤ serving.starts.getD later 0 := by
  have bound : later < serving.starts.length := timed.drawn.symm ▸ drawn
  rw [getD_eq_getElem _ _ (order.trans_lt bound), getD_eq_getElem _ _ bound]
  rcases order.lt_or_eq with before | same
  · exact (pairwise_iff_getElem.mp timed.ordered _ _ _ _ before).le
  · simp [same]

theorem Timed.next (timed : Timed before) (times : after.times = before.times ++ [after.history.ledger.prunedThrough])
    (starts : after.starts = before.starts ∧ after.watermark.started = before.watermark.started ∨
      after.starts = before.starts ++ [before.now] ∧ after.watermark.started = before.watermark.started + 1)
    (applied : after.watermark.applied ≤ after.watermark.started)
    (cached : Grows before after → after.watermark.applied ≠ 0 →
      ReadAt after after.watermark.applied after.watermark.through after.watermark.readTime)
    (requests : Grows before after → ∀ request ∈ after.requests, request.stage.Timed after)
    (refreshed : Grows before after → ∀ entry ∈ after.refreshed,
      entry.began ≤ entry.readTime ∧ after.times[entry.readTime]? = some entry.through) :
    Timed after ∧ Grows before after := by
  have later : after.now = before.now + 1 := by
    rw [Serving.now, times, length_append, length_singleton, ← timed.now_lt]
    rfl
  have grows : Grows before after := by
    refine ⟨times ▸ prefix_append _ _, ?_, ?_⟩
    · rcases starts with none | one
      · exact none.1 ▸ prefix_rfl
      · exact one.1 ▸ prefix_append _ _
    · rcases starts with none | one
      · exact none.2.ge
      · exact one.2 ▸ Nat.le_succ _
  refine ⟨?_, grows⟩
  exact {
    last := by rw [times, List.getLast?_concat]
    drawn := by
      rcases starts with none | one
      · rw [none.1, none.2, timed.drawn]
      · rw [one.1, one.2, length_append, timed.drawn, length_singleton]
    ordered := by
      rcases starts with none | one
      · exact none.1 ▸ timed.ordered
      · rw [one.1, pairwise_append]
        refine ⟨timed.ordered, pairwise_singleton _ _, ?_⟩
        intro time drawn next new
        rw [mem_singleton.mp new]
        exact timed.past time drawn
    past := by
      intro time member
      rw [later]
      rcases starts with none | one
      · exact (timed.past time (none.1 ▸ member)).trans (Nat.lt_succ_self _)
      · rw [one.1, mem_append, mem_singleton] at member
        rcases member with old | new
        · exact (timed.past time old).trans (Nat.lt_succ_self _)
        · exact new ▸ Nat.lt_succ_self _
    applied := applied
    cached := cached grows
    requests := requests grows
    refreshed := refreshed grows }

/-- What was recorded stays so when the records grow. -/
theorem Timed.grows (timed : Timed before) (grows : Grows before after) :
    (∀ request ∈ before.requests, request.stage.Timed after) ∧
      (before.watermark.applied ≠ 0 →
        ReadAt after before.watermark.applied before.watermark.through before.watermark.readTime) ∧
      ∀ entry ∈ before.refreshed,
        entry.began ≤ entry.readTime ∧ after.times[entry.readTime]? = some entry.through := by
  refine ⟨?_, ?_, ?_⟩
  · intro request member
    exact (timed.requests request member).grows timed.drawn grows
  · intro some
    have bound : before.watermark.applied - 1 < before.starts.length := by
      have := timed.applied
      have := timed.drawn
      omega
    exact (timed.cached some).grows bound grows
  · intro entry member
    have old := timed.refreshed entry member
    exact ⟨old.1, grows.getElem?_times old.2⟩

theorem Timed.unapplied (timed : Timed before)
    (times : after.times = before.times ++ [after.history.ledger.prunedThrough])
    (starts : after.starts = before.starts ∧ after.watermark.started = before.watermark.started ∨
      after.starts = before.starts ++ [before.now] ∧ after.watermark.started = before.watermark.started + 1)
    (applied : after.watermark.applied = before.watermark.applied)
    (through : after.watermark.through = before.watermark.through)
    (readTime : after.watermark.readTime = before.watermark.readTime) (refreshed : after.refreshed = before.refreshed)
    (requests : Grows before after → ∀ request ∈ after.requests, request ∈ before.requests ∨ request.stage.Timed after) :
    Timed after ∧ Grows before after ∧ before.watermark.applied ≤ after.watermark.applied := by
  have started : before.watermark.started ≤ after.watermark.started := by omega
  rw [← and_assoc]
  refine ⟨timed.next times starts (applied ▸ timed.applied.trans started) ?_ ?_ ?_, applied.ge⟩
  · intro grows
    rw [applied, through, readTime]
    exact (timed.grows grows).2.1
  · intro grows request member
    exact (requests grows request member).elim ((timed.grows grows).1 request) id
  · intro grows
    rw [refreshed]
    exact (timed.grows grows).2.2

variable {request : Request}

theorem mem_setStage {other : Request}
    (member : other ∈ (serving.setStage index request stage).requests) :
    other ∈ serving.requests ∨ other = { request with stage := stage } :=
  mem_or_eq_of_mem_set member

theorem timed_setStage {other : Request} (ready : stage.Timed after)
    (member : other ∈ (serving.setStage index request stage).requests) :
    other ∈ serving.requests ∨ other.stage.Timed after := by
  refine (mem_setStage member).imp_right ?_
  rintro rfl
  exact ready

def Serving.applied (serving : Serving) (index : Nat) (request : Request) (purpose : Purpose)
    (read through readTime : Nat) : Serving :=
  { serving.setStage index request
      (afterWatermark purpose (serving.watermark.apply read through readTime).through) with
    watermark := serving.watermark.apply read through readTime
    refreshed := serving.refreshed ++ [⟨serving.starts.getD (read - 1) 0,
      (serving.watermark.apply read through readTime).through,
      (serving.watermark.apply read through readTime).readTime⟩] }

theorem afterWatermark_timed (purpose : Purpose) (through : Nat) (serving : Serving) :
    (afterWatermark purpose through).Timed serving := by
  unfold afterWatermark
  cases purpose with
  | check number =>
    dsimp only
    split <;> trivial
  | recheck number =>
    dsimp only
    split <;> trivial
  | mention => trivial

/-- What a request's step can do to the records: nothing, read the watermark, start a refresh or apply one. -/
theorem proceed_cases (serving : Serving) (index : Nat) (request : Request) (ok fresh : Bool) :
    serving.proceed index request ok fresh = serving ∨
      (∃ stage : Stage, (∀ other, stage.Timed other) ∧
        serving.proceed index request ok fresh = serving.setStage index request stage) ∨
      (∃ purpose read, request.stage = .refreshing purpose read ∧ serving.proceed index request ok fresh =
        serving.setStage index request (.applying purpose read serving.history.ledger.prunedThrough serving.now)) ∨
      (∃ purpose, serving.proceed index request ok fresh = serving.startRefresh index request purpose) ∨
      ∃ purpose read through readTime, request.stage = .applying purpose read through readTime ∧
        serving.proceed index request ok fresh = serving.applied index request purpose read through readTime := by
  unfold Serving.proceed
  cases stage : request.stage with
  | called =>
    cases request.selector with
    | number number =>
      cases fresh with
      | true => exact .inr (.inl ⟨_, afterWatermark_timed _ _, rfl⟩)
      | false => exact .inr (.inr (.inr (.inl ⟨_, rfl⟩)))
    | hash hash =>
      cases ok with
      | true =>
        simp only [↓reduceIte]
        split
        · exact .inr (.inl ⟨.missing, fun _ => trivial, rfl⟩)
        · exact .inr (.inl ⟨.querying _ false, fun _ => trivial, rfl⟩)
      | false => exact .inr (.inl ⟨.done .error, fun _ => trivial, rfl⟩)
    | other =>
      cases fresh with
      | true => exact .inr (.inl ⟨.done .error, fun _ => trivial, rfl⟩)
      | false => exact .inr (.inr (.inr (.inl ⟨_, rfl⟩)))
  | missing =>
    cases fresh with
    | true => exact .inr (.inl ⟨.done .error, fun _ => trivial, rfl⟩)
    | false => exact .inr (.inr (.inr (.inl ⟨_, rfl⟩)))
  | querying number rechecks =>
    dsimp only
    split
    · split
      · exact .inr (.inl ⟨.rechecking number, fun _ => trivial, rfl⟩)
      · exact .inr (.inl ⟨.done (.rows _), fun _ => trivial, rfl⟩)
    · exact .inr (.inl ⟨.done .error, fun _ => trivial, rfl⟩)
  | rechecking number => exact .inr (.inr (.inr (.inl ⟨_, rfl⟩)))
  | refreshing purpose read =>
    cases ok with
    | true => exact .inr (.inr (.inl ⟨purpose, read, rfl, rfl⟩))
    | false => exact .inr (.inl ⟨.done .error, fun _ => trivial, rfl⟩)
  | applying purpose read through readTime =>
    exact .inr (.inr (.inr (.inr ⟨purpose, read, through, readTime, rfl, rfl⟩)))
  | done reply => exact .inl rfl

theorem act_proceed_none (found : serving.requests[index]? = none) :
    serving.act (.proceed index ok fresh) = serving := by
  simp only [Serving.act, found]

theorem act_proceed_some (found : serving.requests[index]? = some request) :
    serving.act (.proceed index ok fresh) = serving.proceed index request ok fresh := by
  simp only [Serving.act, found]

theorem proceed_frame (serving : Serving) (index : Nat) (request : Request) (ok fresh : Bool) :
    (serving.proceed index request ok fresh).history = serving.history := by
  obtain same | ⟨_, _, same⟩ | ⟨_, _, _, same⟩ | ⟨_, same⟩ | ⟨_, _, _, _, _, same⟩ :=
    proceed_cases serving index request ok fresh <;> rw [same] <;> rfl

/-- The later of two refreshes stays: what is cached after an apply was read after the applied one started. -/
theorem Timed.apply (timed : Timed serving) (first : 1 ≤ read) (drawn : read ≤ serving.watermark.started)
    (at_ : ReadAt serving read through readTime) :
    let next := serving.watermark.apply read through readTime
    next.started = serving.watermark.started ∧ read ≤ next.applied ∧ next.applied ≤ next.started ∧
      serving.watermark.applied ≤ next.applied ∧ ReadAt serving next.applied next.through next.readTime := by
  dsimp only
  unfold Watermark.apply
  split
  · rename_i newer
    exact ⟨rfl, le_rfl, drawn, newer.le, at_⟩
  · rename_i older
    exact ⟨rfl, by omega, timed.applied, le_rfl, timed.cached (by omega)⟩

theorem Timed.reads (timed : Timed serving) (first : 1 ≤ read) (drawn : read ≤ serving.watermark.started) :
    serving.starts.getD (read - 1) 0 ≤ serving.now := by
  have bound : read - 1 < serving.starts.length := by
    have := timed.drawn
    omega
  rw [getD_eq_getElem _ _ bound]
  exact (timed.past _ (getElem_mem bound)).le

theorem Timed.applies (timed : Timed serving) {purpose : Purpose} (first : 1 ≤ read)
    (drawn : read ≤ serving.watermark.started) (at_ : ReadAt serving read through readTime)
    (next : after = { serving.applied index request purpose read through readTime with
      times := serving.times ++ [serving.history.ledger.prunedThrough] }) :
    Timed after ∧ Grows serving after ∧ serving.watermark.applied ≤ after.watermark.applied := by
  obtain ⟨started, newest, bound, newer, cached⟩ := timed.apply first drawn at_
  have inside : (serving.watermark.apply read through readTime).applied - 1 < serving.starts.length := by
    have := timed.drawn
    omega
  subst next
  rw [← and_assoc]
  refine ⟨timed.next rfl (.inl ⟨rfl, started⟩) bound (fun grows _ => cached.grows inside grows) ?_ ?_, newer⟩
  · intro grows other member
    exact (timed_setStage (afterWatermark_timed _ _ _) member).elim ((timed.grows grows).1 other) id
  · intro grows entry member
    rcases mem_append.mp member with old | new
    · exact (timed.grows grows).2.2 entry old
    · rw [mem_singleton.mp new]
      refine ⟨?_, grows.getElem?_times cached.2⟩
      exact (timed.getD_le (Nat.sub_le_sub_right newest 1) (timed.drawn ▸ inside)).trans cached.1

theorem Timed.proceed (timed : Timed serving) (listed : request ∈ serving.requests)
    (next : after = { serving.proceed index request ok fresh with
      times := serving.times ++ [(serving.proceed index request ok fresh).history.ledger.prunedThrough] }) :
    Timed after ∧ Grows serving after ∧ serving.watermark.applied ≤ after.watermark.applied := by
  have staged := timed.requests request listed
  obtain same | ⟨stage, plain, same⟩ | ⟨purpose, read, was, same⟩ | ⟨purpose, same⟩ |
    ⟨purpose, read, through, readTime, was, same⟩ := proceed_cases serving index request ok fresh
  all_goals rw [same] at next
  · subst next
    exact timed.unapplied rfl (.inl ⟨rfl, rfl⟩) rfl rfl rfl rfl fun _ _ old => .inl old
  · subst next
    exact timed.unapplied rfl (.inl ⟨rfl, rfl⟩) rfl rfl rfl rfl fun _ _ =>
      timed_setStage (plain _)
  · subst next
    rw [was] at staged
    exact timed.unapplied rfl (.inl ⟨rfl, rfl⟩) rfl rfl rfl rfl fun grows _ =>
      timed_setStage ⟨staged.1, staged.2, timed.reads staged.1 staged.2, grows.getElem?_times timed.times_now⟩
  · subst next
    exact timed.unapplied rfl (.inr ⟨rfl, rfl⟩) rfl rfl rfl rfl fun _ _ =>
      timed_setStage ⟨Nat.succ_le_succ (Nat.zero_le _), le_rfl⟩
  · rw [was] at staged
    exact timed.applies staged.1 staged.2.1 staged.2.2 next

theorem Timed.advance (timed : Timed serving) (event : Event) :
    Timed (serving.step event) ∧ Grows serving (serving.step event) ∧
      serving.watermark.applied ≤ (serving.step event).watermark.applied := by
  cases event with
  | begin selector =>
    refine timed.unapplied rfl (.inl ⟨rfl, rfl⟩) rfl rfl rfl rfl ?_
    intro _ request member
    refine (mem_append.mp member).imp_right ?_
    intro new
    rw [mem_singleton.mp new]
    trivial
  | pruneAdvance lo => exact timed.unapplied rfl (.inl ⟨rfl, rfl⟩) rfl rfl rfl rfl fun _ _ old => .inl old
  | detachRange lo => exact timed.unapplied rfl (.inl ⟨rfl, rfl⟩) rfl rfl rfl rfl fun _ _ old => .inl old
  | dropRange lo => exact timed.unapplied rfl (.inl ⟨rfl, rfl⟩) rfl rfl rfl rfl fun _ _ old => .inl old
  | proceed index ok fresh =>
    cases found : serving.requests[index]? with
    | none =>
      rw [Serving.step, act_proceed_none found]
      exact timed.unapplied rfl (.inl ⟨rfl, rfl⟩) rfl rfl rfl rfl fun _ _ old => .inl old
    | some request =>
      apply timed.proceed (mem_of_getElem? found)
      rw [Serving.step, act_proceed_some found]

theorem Timed.step (timed : Timed serving) (event : Event) : Timed (serving.step event) :=
  (timed.advance event).1

theorem Timed.step_grows (timed : Timed serving) (event : Event) :
    Grows serving (serving.step event) ∧ serving.watermark.applied ≤ (serving.step event).watermark.applied :=
  (timed.advance event).2

theorem Timed.cachedSince_le (timed : Timed serving) (event : Event) :
    ∀ since ∈ serving.cachedSince, ∃ later ∈ (serving.step event).cachedSince, since ≤ later := by
  intro since cached
  have next := timed.step event
  obtain ⟨grows, newer⟩ := timed.step_grows event
  unfold Serving.cachedSince at cached
  split at cached
  · cases cached
  · rename_i some
    obtain ⟨bound, start⟩ := List.getElem?_eq_some_iff.mp cached
    have drawn : (serving.step event).watermark.applied - 1 < (serving.step event).watermark.started := by
      have := next.applied
      omega
    refine ⟨(serving.step event).starts.getD ((serving.step event).watermark.applied - 1) 0, ?_, ?_⟩
    · unfold Serving.cachedSince
      rw [if_neg (by omega), Option.mem_def, getD_eq_getElem _ _ (next.drawn.symm ▸ drawn)]
      exact List.getElem?_eq_getElem _
    · rw [← start, ← getD_eq_getElem _ 0 bound, ← grows.getD_starts bound]
      exact next.getD_le (Nat.sub_le_sub_right newer 1) drawn

end OpsIndexer.Grpcserver
