import OpsIndexer.Db.PartitionWipe
import OpsIndexer.Db.PruneSteps
import OpsIndexer.Db.RetentionSteps

/-!
# What pruning leaves a reorg

From the first block on, the closed spans cover every block up to the last one, and the watermark stands at the end of
one. A range that may be pruned is then stored and closed, and every day above the floor is whole: a later revert above
the floor finds the first blocks of its day.
-/

namespace OpsIndexer.Db

open Eth OpsIndexer.Types Lib.Table Lib.Tally Lib.Recount List
open Lib.Runs

/-! ## The closed spans -/

def Ledger.closes (ledger : Ledger) (number : Nat) : Prop :=
  covered (ledger.spans.map LedgerSpan.recorded) number = true

theorem Ledger.closes_iff {ledger : Ledger} {number : Nat} :
    ledger.closes number ↔ ∃ span ∈ ledger.spans, span.lo ≤ number ∧ number < span.hi := by
  rw [Ledger.closes, covered_iff]
  apply Iff.intro
  · intro found
    obtain ⟨_, listed, inside⟩ := found
    obtain ⟨span, member, rfl⟩ := mem_map.mp listed
    exact ⟨span, member, inside⟩
  · intro found
    obtain ⟨span, member, inside⟩ := found
    exact ⟨span.recorded, mem_map_of_mem member, inside⟩

structure ClosedSpans (first : Nat) (ledger : Ledger) : Prop where
  wide : ∀ span ∈ ledger.spans.map LedgerSpan.recorded, span.lo < span.hi
  apart : Apart ((ledger.spans.map LedgerSpan.recorded).map Span.bounds)
  filled : ∀ number, first ≤ number → (∃ span ∈ ledger.spans, number < span.hi) → ledger.closes number

section Spans

variable {first : Nat} {ledger next : Ledger}

theorem ClosedSpans.same (closed : ClosedSpans first ledger)
    (spans : next.spans.map LedgerSpan.recorded = ledger.spans.map LedgerSpan.recorded) :
    ClosedSpans first next ∧ ∀ number, ledger.closes number → next.closes number := by
  have reach (number : Nat) (found : ∃ span ∈ next.spans, number < span.hi) :
      ∃ span ∈ ledger.spans, number < span.hi := by
    obtain ⟨span, member, below⟩ := found
    have listed : span.recorded ∈ ledger.spans.map LedgerSpan.recorded := spans ▸ mem_map_of_mem member
    obtain ⟨old, oldMember, same⟩ := mem_map.mp listed
    refine ⟨old, oldMember, ?_⟩
    have ends : old.hi = span.hi := congrArg Span.hi same
    omega
  have closes (number : Nat) (before : ledger.closes number) : next.closes number := by
    unfold Ledger.closes
    rw [spans]
    exact before
  refine ⟨⟨spans ▸ closed.wide, spans ▸ closed.apart, ?_⟩, closes⟩
  intro number from_ found
  exact closes number (closed.filled number from_ (reach number found))

theorem ClosedSpans.none (empty : ledger.spans = []) : ClosedSpans first ledger := by
  refine ⟨?_, ?_, ?_⟩
  · simp [empty]
  · simp [empty, Apart]
  · simp [empty]

theorem ClosedSpans.closeSpan {config : LedgerConfig} (closed : ClosedSpans config.firstBlock ledger)
    (reached : ledger.prunedThrough = 0 ∨ ledger.closes ledger.prunedThrough) {bounds : List Nat}
    {missing : List (Nat × Nat)}
    (done : ledger.ledgerCloseSpan (ledger.ledgerNextSpan config bounds).1
      (ledger.ledgerNextSpan config bounds).2 missing = some next) :
    ClosedSpans config.firstBlock next ∧ ∀ number, ledger.closes number → next.closes number := by
  generalize (ledger.ledgerNextSpan config bounds).2 = hi at done
  have start : (ledger.ledgerNextSpan config bounds).1 =
      max (ledger.lastHi.getD config.firstBlock) ledger.historyFrom := rfl
  generalize (ledger.ledgerNextSpan config bounds).1 = lo at done start
  obtain ⟨proper, form⟩ := ledgerCloseSpan_ok done
  -- nothing is pruned past the last span
  have pruned : ∀ last, ledger.lastHi = some last → ledger.historyFrom ≤ last := by
    intro last highest
    unfold Ledger.historyFrom Db.historyFrom
    rcases reached with zero | inside
    · rw [zero]
      exact Nat.zero_le _
    · obtain ⟨span, member, _, below⟩ := Ledger.closes_iff.mp inside
      have bound := (List.max?_eq_some_iff.mp highest).2 span.hi (mem_map_of_mem member)
      split <;> omega
  have under : ∀ span ∈ ledger.spans, span.hi ≤ lo := by
    intro span member
    cases highest : ledger.lastHi with
    | none =>
      have empty := List.max?_eq_none_iff.mp highest
      rw [map_eq_nil_iff.mp empty] at member
      cases member
    | some last =>
      have bound := (List.max?_eq_some_iff.mp highest).2 span.hi (mem_map_of_mem member)
      rw [highest] at start
      exact bound.trans (start ▸ le_max_left _ _)
  have early : ∀ number, config.firstBlock ≤ number → number < lo → ledger.closes number := by
    intro number from_ below
    cases highest : ledger.lastHi with
    | none =>
      have empty := map_eq_nil_iff.mp (List.max?_eq_none_iff.mp highest)
      have unpruned : ledger.prunedThrough = 0 := by
        rcases reached with zero | inside
        · exact zero
        · obtain ⟨_, member, _⟩ := Ledger.closes_iff.mp inside
          rw [empty] at member
          cases member
      rw [highest, Ledger.historyFrom, Db.historyFrom, unpruned] at start
      simp only [Option.getD_none, lt_irrefl, if_false] at start
      omega
    | some last =>
      have from_last := pruned last highest
      rw [highest] at start
      simp only [Option.getD_some] at start
      obtain ⟨span, member, ends⟩ := mem_map.mp (List.max?_eq_some_iff.mp highest).1
      exact closed.filled number from_ ⟨span, member, by omega⟩
  subst form
  have spans : ∀ number, ledger.closes number →
      Ledger.closes { ledger with
        spans := ledger.spans ++ [⟨lo, hi, .rows, .unchecked, ledgerStageFromRows ledger.store lo hi⟩]
        stage := ledger.stage.erase lo } number := by
    intro number inside
    obtain ⟨span, member, bounds⟩ := Ledger.closes_iff.mp inside
    exact Ledger.closes_iff.mpr ⟨span, mem_append_left _ member, bounds⟩
  refine ⟨⟨?_, ?_, ?_⟩, spans⟩
  · intro span member
    rw [map_append, mem_append] at member
    rcases member with old | new
    · exact closed.wide span old
    · rw [map_singleton, mem_singleton] at new
      rw [new]
      exact proper
  · rw [map_append, map_append, Apart, pairwise_append]
    refine ⟨closed.apart, by simp, ?_⟩
    intro first firstMember second secondMember
    obtain ⟨recorded, listed, rfl⟩ := mem_map.mp firstMember
    obtain ⟨span, member, rfl⟩ := mem_map.mp listed
    simp only [map_singleton, mem_singleton] at secondMember
    rw [secondMember]
    exact .inl (under span member)
  · intro number from_ found
    by_cases inside : lo ≤ number
    · obtain ⟨span, member, below⟩ := found
      rcases mem_append.mp member with old | new
      · have := under span old
        omega
      · rw [mem_singleton.mp new] at below
        exact Ledger.closes_iff.mpr ⟨_, mem_append_right _ (mem_singleton_self _), inside, below⟩
    · exact spans number (early number from_ (not_le.mp inside))

theorem ClosedSpans.ledgerCompact (closed : ClosedSpans first ledger) (n : Int) :
    ClosedSpans first (ledger.ledgerCompact n) ∧
      ∀ number, ledger.closes number → (ledger.ledgerCompact n).closes number := by
  unfold Ledger.ledgerCompact
  split
  · exact ⟨closed, fun _ inside => inside⟩
  · split
    · exact ⟨closed, fun _ inside => inside⟩
    · rename_i lo hi found
      obtain ⟨⟨_, _, last, lastMember, _, ends, _⟩, proper, full⟩ := compactRun_covers closed.wide closed.apart found
      dsimp only
      generalize mergedRows (ledger.spans.filter fun span => inSpan lo hi span.lo) = rows
      have form : ((ledger.spans.filter fun span => !inSpan lo hi span.lo) ++
            [(⟨lo, hi, .merged, .unchecked, rows⟩ : LedgerSpan)]).map LedgerSpan.recorded =
          ((ledger.spans.map LedgerSpan.recorded).filter fun span => !startIn lo hi span) ++
            [⟨lo, hi, rows.count⟩] := by
        rw [map_append, filter_map]
        rfl
      have same : ∀ number, ledger.closes number ↔ Ledger.closes { ledger with
          spans := (ledger.spans.filter fun span => !inSpan lo hi span.lo) ++
            [⟨lo, hi, .merged, .unchecked, rows⟩] } number := by
        intro number
        unfold Ledger.closes
        rw [form, covered_merge ⟨lo, hi, rows.count⟩ full]
      refine ⟨⟨?_, ?_, ?_⟩, fun number => (same number).mp⟩
      · rw [form]
        intro span member
        rcases mem_append.mp member with old | new
        · exact closed.wide span (mem_of_mem_filter old)
        · rw [mem_singleton.mp new]
          exact proper
      · rw [form]
        exact apart_merge ⟨lo, hi, rows.count⟩ full closed.wide closed.apart proper
      · intro number from_ reached
        apply (same number).mp
        apply closed.filled number from_
        obtain ⟨span, member, below⟩ := reached
        rcases mem_append.mp member with old | new
        · exact ⟨span, mem_of_mem_filter old, below⟩
        · rw [mem_singleton.mp new] at below
          exact ⟨last, lastMember, ends ▸ below⟩

theorem ClosedSpans.markChecked (closed : ClosedSpans first ledger) (lo : Nat) (state : CheckState) :
    ClosedSpans first (ledger.markChecked lo state) ∧
      ∀ number, ledger.closes number → (ledger.markChecked lo state).closes number := by
  apply closed.same
  unfold Ledger.markChecked
  rw [map_map]
  apply map_congr_left
  intro span _
  simp only [Function.comp_apply]
  split <;> rfl

end Spans

/-! ## Transactions outside retention -/

structure Changed (first : Nat) (history next : History) : Prop where
  pruned : next.ledger.prunedThrough = history.ledger.prunedThrough
  prunedTs : next.prunedThroughTs = history.prunedThroughTs
  spans : ClosedSpans first history.ledger →
    (history.ledger.prunedThrough = 0 ∨ history.ledger.closes history.ledger.prunedThrough) →
      ClosedSpans first next.ledger ∧ ∀ number, history.ledger.closes number → next.ledger.closes number
  numbers : (history.blocks.map (·.number)).Nodup → (next.blocks.map (·.number)).Nodup
  kept : Kept history → next.Routed → Kept next

variable {partitionOf : Nat → Nat}

theorem insertBlock_ledger {block : Block} {ledger next : Ledger}
    (done : ledger.insertBlock partitionOf block = .ok next) :
    next.spans = ledger.spans ∧ next.prunedThrough = ledger.prunedThrough ∧
      ((ledger.store.blocks.map (·.number)).Nodup → (next.store.blocks.map (·.number)).Nodup) := by
  unfold Ledger.insertBlock at done
  obtain ⟨store, written, done⟩ := bind_eq_ok.mp done
  cases done
  refine ⟨rfl, rfl, ?_⟩
  intro distinct
  rcases insertBlock_cases written with same | ⟨free, rfl⟩
  · exact same ▸ distinct
  · exact numbers_append distinct free

theorem insertBlockDataBatch_ledger {data : BlockData} {ledger next : Ledger}
    (done : ledger.insertBlockDataBatch partitionOf data = .ok next) :
    next.spans = ledger.spans ∧ next.prunedThrough = ledger.prunedThrough ∧
      ((ledger.store.blocks.map (·.number)).Nodup → (next.store.blocks.map (·.number)).Nodup) := by
  unfold Ledger.insertBlockDataBatch at done
  obtain ⟨write, begun, done⟩ := bind_eq_ok.mp done
  rcases beginBlockData_cases begun with stored | ⟨opened, rfl, free, own⟩
  · subst stored
    simp only [Except.ok.injEq] at done
    exact done ▸ ⟨rfl, rfl, id⟩
  · obtain ⟨store, finished, done⟩ := bind_eq_ok.mp done
    cases done
    refine ⟨rfl, rfl, ?_⟩
    intro distinct
    show (store.blocks.map (·.number)).Nodup
    rw [(writeSharedRowsFrom_ok finished).1, (writeOwnRows_ok own).1.blocks]
    cases named : data.block with
    | none => simpa using distinct
    | some block => exact numbers_append distinct (free block named)

section Changes

variable {first : Nat} {history : History}

variable {next : History} {number cutAt : Nat} {keccak256 : Bytes → Hash} {config : LedgerConfig}
  {legacy : HistoryRange}

theorem Changed.writes (spans : next.ledger.spans = history.ledger.spans) (ranges : next.ranges = history.ranges)
    (pruned : next.ledger.prunedThrough = history.ledger.prunedThrough)
    (prunedTs : next.prunedThroughTs = history.prunedThroughTs)
    (numbers : (history.blocks.map (·.number)).Nodup → (next.blocks.map (·.number)).Nodup) :
    Changed first history next where
  pruned := pruned
  prunedTs := prunedTs
  spans := fun closed _ => closed.same (congrArg (List.map LedgerSpan.recorded) spans)
  numbers := numbers
  kept := fun kept routed => kept.same ranges routed pruned

theorem dailyStatsInvalidate_eq_some (done : history.dailyStatsInvalidate number = some next) : ∃ watermark,
    next = { history with dailyWatermark := watermark } := by
  unfold History.dailyStatsInvalidate at done
  split at done
  · exact ⟨_, (Option.some.inj done).symm⟩
  · split at done
    · exact ⟨_, (Option.some.inj done).symm⟩
    · split at done
      · exact ⟨_, (Option.some.inj done).symm⟩
      · dsimp only at done
        split at done
        · cases done
        · exact ⟨_, (Option.some.inj done).symm⟩

theorem Changed.deleteBlock (done : history.deleteBlock keccak256 number = some next) : Changed first history next := by
  obtain ⟨middle, invalidated, rfl⟩ := Option.map_eq_some_iff.mp done
  obtain ⟨_, rfl⟩ := dailyStatsInvalidate_eq_some invalidated
  refine Changed.writes rfl rfl rfl rfl ?_
  intro distinct
  exact distinct.sublist (filter_sublist.map _)

theorem Changed.closeSpan (done : history.closeSpan config = some next) :
    Changed config.firstBlock history next := by
  unfold History.closeSpan at done
  split at done
  · cases done
  · obtain ⟨ledger, closed, rfl⟩ := Option.map_eq_some_iff.mp done
    have form := (ledgerCloseSpan_ok closed).2
    have store : ledger.store = history.ledger.store := by rw [form]
    have pruned : ledger.prunedThrough = history.ledger.prunedThrough := by rw [form]
    refine ⟨pruned, rfl, fun spans reached => spans.closeSpan reached closed, ?_, ?_⟩
    · intro distinct
      show (ledger.store.blocks.map (·.number)).Nodup
      rw [store]
      exact distinct
    · intro kept routed
      exact kept.same rfl routed pruned

theorem Laid.uncut (laid : Laid history) (listed : legacy ∈ history.ranges) (low : legacy.lo = none)
    (high : legacy.hi = none) : ∀ range ∈ history.ranges, range = legacy := by
  intro range member
  apply eq_of_lo_eq laid.keyed member listed
  cases bound : range.lo with
  | none => exact low.symm
  | some lo =>
    have inside : range.holds lo := by
      refine ⟨fun other is => ?_, fun hi is => laid.sized range member lo bound hi is⟩
      rw [bound] at is
      exact (Option.some.inj is).ge
    have everywhere : legacy.holds lo := by
      refine ⟨fun other is => ?_, fun other is => ?_⟩
      · rw [low] at is
        cases is
      · rw [high] at is
        cases is
    rw [← bound]
    exact laid.disjoint range member legacy listed lo inside everywhere

theorem Kept.cut (kept : Kept history) (listed : legacy ∈ history.ranges) (low : legacy.lo = none)
    (high : legacy.hi = none) (below : ∀ block ∈ history.blocks, block.number < cutAt) :
    Kept { history with ranges := updateRange none (fun range => { range with hi := some cutAt }) history.ranges } := by
  have only := kept.uncut listed low high
  have attached : legacy.state = .attached := by
    obtain ⟨range, member, inUse⟩ := kept.inUse
    exact only range member ▸ inUse
  have whole := kept.whole legacy listed attached
  have cut : ∀ range ∈ updateRange none (fun range => { range with hi := some cutAt }) history.ranges,
      range = { legacy with hi := some cutAt } := by
    intro range member
    rcases mem_updateRange member with unchanged | ⟨old, oldListed, _, rfl⟩
    · rw [only range unchanged.1] at unchanged
      exact absurd low unchanged.2
    · rw [only old oldListed]
  have present : { legacy with hi := some cutAt } ∈
      updateRange none (fun range => { range with hi := some cutAt }) history.ranges :=
    mem_map.mpr ⟨legacy, listed, if_pos low⟩
  have from_ : history.historyFrom ≤ 0 := by
    have above := kept.above legacy listed attached
    rwa [low] at above
  exact {
    keyed := keyed_updateRange (fun _ => rfl) kept.keyed
    sized := by
      intro range member lo is
      rw [cut range member] at is
      cases low.symm.trans is
    legacy := by
      intro range member
      rw [cut range member]
      exact fun _ => low
    disjoint := by
      intro first firstMember second secondMember _ _ _
      rw [cut first firstMember, cut second secondMember]
    whole := by
      intro range member _
      rw [cut range member]
      exact whole
    torn := by
      intro range member detached
      rw [cut range member] at detached
      rw [attached] at detached
      cases detached
    routed := by
      intro block stored
      refine ⟨_, present, whole, ?_, ?_⟩
      · intro lo is
        cases low.symm.trans is
      · intro hi is
        exact Option.some.inj is ▸ below block stored
    inUse := ⟨_, present, attached⟩
    above := fun range _ _ => from_.trans (Nat.zero_le _)
    past := by
      intro range member passed
      rw [cut range member] at passed
      exact absurd attached passed
    ahead := ⟨_, present, attached, fun _ _ => from_.trans (Nat.zero_le _)⟩ }

theorem Changed.cutFinish {size : Nat} (done : history.historyCutFinish cutAt size = some next) :
    Changed first history next := by
  unfold History.historyCutFinish at done
  split at done
  · rename_i checked
    obtain ⟨⟨legacy, listed, low, high⟩, below⟩ := checked
    have form := (historyPartitionCreate_eq_some done).2.2
    refine ⟨by rw [form], by rw [form], fun closed _ => closed.same (by rw [form]), fun distinct => ?_, ?_⟩
    · rw [form]
      exact distinct
    · intro kept _
      have cut := kept.cut listed low high below
      have from_ : history.historyFrom ≤ cutAt := by
        obtain ⟨range, member, inUse⟩ := kept.inUse
        have above := kept.above range member inUse
        rw [kept.uncut listed low high range member, low] at above
        exact above.trans (Nat.zero_le _)
      refine cut.create from_ ?_ done
      intro range member number above _ held
      rcases mem_updateRange member with unchanged | ⟨_, _, _, rfl⟩
      · rw [kept.uncut listed low high range unchanged.1] at unchanged
        exact absurd low unchanged.2
      · exact absurd (held.2 cutAt rfl) (not_lt.mpr above)
  · cases done

theorem change_changed {event : PruneEvent} (done : event.change keccak256 config history = some next) :
    Changed config.firstBlock history next := by
  cases event with
  | insertBlock block partitionOf =>
    obtain ⟨ledger, written, rfl⟩ := Option.map_eq_some_iff.mp done
    obtain ⟨spans, pruned, numbers⟩ := insertBlock_ledger (toOption_eq_some written)
    exact Changed.writes spans rfl pruned rfl numbers
  | insertBlockDataBatch data partitionOf =>
    obtain ⟨ledger, written, rfl⟩ := Option.map_eq_some_iff.mp done
    obtain ⟨spans, pruned, numbers⟩ := insertBlockDataBatch_ledger (toOption_eq_some written)
    exact Changed.writes spans rfl pruned rfl numbers
  | deleteBlock number => exact Changed.deleteBlock done
  | closeSpan => exact Changed.closeSpan done
  | compact n =>
    obtain rfl := Option.some.inj done
    have fields : (history.ledger.ledgerCompact n).prunedThrough = history.ledger.prunedThrough ∧
        (history.ledger.ledgerCompact n).store = history.ledger.store := by
      unfold Ledger.ledgerCompact
      split
      · exact ⟨rfl, rfl⟩
      · split <;> exact ⟨rfl, rfl⟩
    refine ⟨fields.1, rfl, fun closed _ => closed.ledgerCompact n, ?_, fun kept routed => kept.same rfl routed fields.1⟩
    intro distinct
    show ((history.ledger.ledgerCompact n).store.blocks.map (·.number)).Nodup
    rw [fields.2]
    exact distinct
  | markChecked lo state =>
    obtain rfl := Option.some.inj done
    exact ⟨rfl, rfl, fun closed _ => closed.markChecked lo state, id, fun kept routed => kept.same rfl routed rfl⟩
  | fold watermark =>
    obtain rfl := Option.some.inj done
    exact Changed.writes rfl rfl rfl rfl id
  | noteMissing ranges =>
    obtain rfl := Option.some.inj done
    exact Changed.writes rfl rfl rfl rfl id
  | cutFinish cutAt size => exact Changed.cutFinish done
  | retain event => cases done

end Changes

/-! ## Retention's own steps -/

structure Trimmed (wipes : Prop) (history next : History) : Prop where
  blocks : next.blocks.Sublist history.blocks
  spans : next.ledger.spans = history.ledger.spans ∨ wipes ∧ next.ledger.spans = []
  mark : (next.ledger.prunedThrough = history.ledger.prunedThrough ∧ next.prunedThroughTs = history.prunedThroughTs) ∨
    wipes ∧ next.prunedThroughTs = 0 ∨
    ∃ range hi head daily, Prunable history range hi head daily ∧ next = history.advanced range hi

section Trim

variable {wipes : Prop} {history next : History}

theorem Trimmed.same (blocks : next.blocks = history.blocks) (spans : next.ledger.spans = history.ledger.spans)
    (pruned : next.ledger.prunedThrough = history.ledger.prunedThrough)
    (prunedTs : next.prunedThroughTs = history.prunedThroughTs) : Trimmed wipes history next :=
  ⟨blocks ▸ List.Sublist.refl _, .inl spans, .inl ⟨pruned, prunedTs⟩⟩

theorem Trimmed.refl (history : History) : Trimmed wipes history history :=
  Trimmed.same rfl rfl rfl rfl

theorem detachRows_blocks (table : HistoryTable) (range : HistoryRange) (store : Store) :
    (detachRows table range store).blocks.Sublist store.blocks := by
  cases table with
  | blocks => exact filter_sublist
  | _ => exact List.Sublist.refl _

variable {lo : Option Nat} {upto size : Nat}

theorem trimmed_detach (done : history.detachRange lo = some next) : Trimmed wipes history next := by
  obtain ⟨range, _, _, _, ⟨table, _, rfl⟩ | ⟨_, rfl⟩⟩ := History.detachRange_eq_some done
  · exact ⟨detachRows_blocks table range history.ledger.store, .inl rfl, .inl ⟨rfl, rfl⟩⟩
  · exact Trimmed.same rfl rfl rfl rfl

theorem trimmed_drop (done : history.dropRange lo = some next) : Trimmed wipes history next := by
  obtain ⟨_, _, _, _, rfl⟩ := History.dropRange_eq_some done
  exact Trimmed.same rfl rfl rfl rfl

theorem trimmed_create {lo hi : Nat} (done : history.historyPartitionCreate lo hi = some next) :
    Trimmed wipes history next := by
  obtain ⟨_, _, rfl⟩ := historyPartitionCreate_eq_some done
  exact Trimmed.same rfl rfl rfl rfl

theorem ensureLoop_same {fuel top : Nat} (done : history.ensureLoop upto size fuel top = some next) :
    next.ledger = history.ledger ∧ next.prunedThroughTs = history.prunedThroughTs := by
  induction fuel generalizing history top with
  | zero => exact Option.some.inj done ▸ ⟨rfl, rfl⟩
  | succ fuel ih =>
    rw [History.ensureLoop] at done
    split at done
    · obtain ⟨grown, created, done⟩ := Option.bind_eq_some_iff.mp done
      obtain ⟨_, _, rfl⟩ := historyPartitionCreate_eq_some created
      have later := ih done
      exact later
    · exact Option.some.inj done ▸ ⟨rfl, rfl⟩

theorem trimmed_ensure (done : history.historyPartitionsEnsure upto size = some next) :
    Trimmed wipes history next := by
  have loop {size fuel top : Nat} (done : history.ensureLoop upto size fuel top = some next) :
      Trimmed wipes history next := by
    obtain ⟨ledger, prunedTs⟩ := ensureLoop_same done
    exact Trimmed.same (congrArg (·.store.blocks) ledger) (congrArg (·.spans) ledger)
      (congrArg (·.prunedThrough) ledger) prunedTs
  unfold History.historyPartitionsEnsure at done
  split at done
  · exact Option.some.inj done ▸ Trimmed.refl history
  · split at done
    · exact Option.some.inj done ▸ Trimmed.refl history
    · split at done
      · obtain ⟨_, _, done⟩ := Option.bind_eq_some_iff.mp done
        exact loop done
      · exact loop done

theorem trimmed_advance (done : history.pruneAdvance lo = some next) : Trimmed wipes history next := by
  obtain ⟨range, hi, head, daily, _, prunable, rfl⟩ := History.pruneAdvance_eq_some done
  exact ⟨List.Sublist.refl _, .inl rfl, .inr (.inr ⟨range, hi, head, daily, prunable, rfl⟩)⟩

theorem trimmed_truncate (history : History) (table : WipeTable) : Trimmed True history (history.truncate table) := by
  cases table with
  | blocks => exact ⟨nil_sublist _, .inl rfl, .inl ⟨rfl, rfl⟩⟩
  | ledgerSpans => exact ⟨List.Sublist.refl _, .inr ⟨trivial, rfl⟩, .inl ⟨rfl, rfl⟩⟩
  | _ => exact Trimmed.same rfl rfl rfl rfl

end Trim

section Own

variable {state : Retaining}

theorem trimmed_wipe (state : Retaining) : Trimmed True state.history state.wipe.history := by
  unfold Retaining.wipe
  split
  · exact Trimmed.refl _
  · exact Trimmed.refl _
  · exact trimmed_truncate _ _
  · exact ⟨List.Sublist.refl _, .inl rfl, .inr (.inl ⟨trivial, rfl⟩)⟩
  · exact Trimmed.refl _
  · split
    · exact trimmed_detach ‹_›
    · split
      · exact trimmed_drop ‹_›
      · exact Trimmed.refl _
  · exact Trimmed.refl _
  · split
    · exact Trimmed.refl _
    · exact Trimmed.refl _
    · exact trimmed_create (createInGap_created ‹_›).2.2
  · exact Trimmed.refl _

theorem trimmed_retain (state : Retaining) {event : RetainingEvent} (own : ∀ next, event ≠ .others next) :
    Trimmed False state.history (state.retain event).history := by
  have found {next : Option History} (steps : ∀ after, next = some after → Trimmed False state.history after) :
      Trimmed False state.history (next.getD state.history) :=
    getD_keeps (Trimmed False state.history) (Trimmed.refl _) steps
  cases event with
  | others next => exact absurd rfl (own next)
  | fill => exact Trimmed.refl _
  | create =>
    unfold Retaining.retain
    dsimp only
    split
    · exact Trimmed.refl _
    · split
      · exact Trimmed.refl _
      · exact Trimmed.refl _
      · exact trimmed_create (createInGap_created ‹_›).2.2
  | ensure upto size => exact found fun _ done => trimmed_ensure done
  | pruneAdvance lo => exact found fun _ done => trimmed_advance done
  | detachRange lo => exact found fun _ done => trimmed_detach done
  | dropRange lo => exact found fun _ done => trimmed_drop done
  | wipe => exact Trimmed.refl _
  | stopWipe => exact Trimmed.refl _

theorem wipe_done (done : state.wipe.wiping = none) :
    state.wiping = some (.filling []) ∧ state.wipe.history = state.history := by
  unfold Retaining.wipe at done ⊢
  split at done
  case h_9 at_ => exact ⟨at_, rfl⟩
  case h_6 at_ =>
    split at done
    · rw [at_] at done
      cases done
    · split at done <;> cases done
  case h_8 => split at done <;> cases done
  all_goals cases done

end Own

/-! ## Every reachable state -/

structure Pruning.Sound (config : LedgerConfig) (state : Pruning) : Prop where
  steady : state.retaining.Steady
  numbers : (state.history.blocks.map (·.number)).Nodup
  known : ∀ block ∈ state.history.blocks, block ∈ state.ever
  marked : state.history.prunedThroughTs = 0 ∨ ∃ block ∈ state.ever,
    block.number ≤ state.history.ledger.prunedThrough ∧ block.timestamp = state.history.prunedThroughTs
  closed : ClosedSpans config.firstBlock state.history.ledger
  reached : state.retaining.wiping = none →
    state.history.ledger.prunedThrough = 0 ∨ state.history.ledger.closes state.history.ledger.prunedThrough

section Runs

variable {keccak256 : Bytes → Hash} {config : LedgerConfig} {state : Pruning}

theorem Pruning.sound_start (config : LedgerConfig) : Pruning.Sound config {} where
  steady := by
    have kept : Kept {} :=
      { keyed := by decide
        sized := by simp [Sized]
        legacy := by simp
        disjoint := by simp
        whole := by simp
        torn := by simp
        routed := by simp [History.Routed, History.blocks]
        inUse := by simp
        above := by simp [History.historyFrom, Ledger.historyFrom, Db.historyFrom]
        past := by simp
        ahead := by simp }
    exact ⟨kept.toLaid, kept⟩
  numbers := nodup_nil
  known := by simp [Pruning.history, History.blocks]
  marked := .inl rfl
  closed := ClosedSpans.none rfl
  reached := fun _ => .inl rfl

variable {history next : History} {range : HistoryRange} {hi head first : Nat} {daily : Int} {wipes : Prop}

theorem historyRangeNewestTs_mem {newest : Nat} (found : history.historyRangeNewestTs range = some newest) :
    ∃ block ∈ history.blocks, range.holds block.number ∧ block.timestamp = newest := by
  obtain ⟨block, member, stamped⟩ := mem_map.mp (List.max?_eq_some_iff.mp found).1
  have held := mem_filter.mp member
  exact ⟨block, held.1, of_decide_eq_true held.2, stamped⟩

theorem Pruning.Sound.marked_advance (sound : state.Sound config)
    (prunable : Prunable state.history range hi head daily) :
    (state.history.advanced range hi).prunedThroughTs = 0 ∨ ∃ block ∈ state.ever,
      block.number ≤ (state.history.advanced range hi).ledger.prunedThrough ∧
        block.timestamp = (state.history.advanced range hi).prunedThroughTs := by
  have stamp : (state.history.advanced range hi).prunedThroughTs =
      max state.history.prunedThroughTs ((state.history.historyRangeNewestTs range).getD 0) := rfl
  rw [stamp, advanced_prunedThrough]
  by_cases older : (state.history.historyRangeNewestTs range).getD 0 ≤ state.history.prunedThroughTs
  · rw [max_eq_left older]
    rcases sound.marked with none | ⟨block, stored, below, stamped⟩
    · exact .inl none
    · exact .inr ⟨block, stored, below.trans (le_max_left _ _), stamped⟩
  · rw [max_eq_right (not_le.mp older).le]
    cases newest : state.history.historyRangeNewestTs range with
    | none =>
      rw [newest] at older
      simp at older
    | some ts =>
      obtain ⟨block, stored, held, stamped⟩ := historyRangeNewestTs_mem newest
      have below := held.2 hi prunable.bounded
      exact .inr ⟨block, sound.known block stored, by omega, stamped⟩

theorem Pruning.Sound.trim (sound : state.Sound config) (trimmed : Trimmed wipes state.history next) :
    (next.blocks.map (·.number)).Nodup ∧
      (next.prunedThroughTs = 0 ∨ ∃ block ∈ state.ever, block.number ≤ next.ledger.prunedThrough ∧
        block.timestamp = next.prunedThroughTs) ∧
      ClosedSpans config.firstBlock next.ledger := by
  refine ⟨sound.numbers.sublist (trimmed.blocks.map _), ?_, ?_⟩
  · rcases trimmed.mark with same | moved
    · rw [same.1, same.2]
      exact sound.marked
    · rcases moved with reset | ⟨range, hi, head, daily, prunable, rfl⟩
      · exact .inl reset.2
      · exact sound.marked_advance prunable
  · rcases trimmed.spans with same | wiped
    · exact (sound.closed.same (congrArg (List.map LedgerSpan.recorded) same)).1
    · exact ClosedSpans.none wiped.2

theorem advanced_closes (closed : ClosedSpans first history.ledger) (prunable : Prunable history range hi head daily) :
    history.ledger.closes (hi - 1) := by
  obtain ⟨span, member, ends⟩ := prunable.closed
  have wide : span.lo < span.hi := closed.wide span.recorded (mem_map_of_mem member)
  exact Ledger.closes_iff.mpr ⟨span, member, by omega, by omega⟩

theorem Trimmed.reached (trimmed : Trimmed False history next) (closed : ClosedSpans first history.ledger)
    (before : history.ledger.prunedThrough = 0 ∨ history.ledger.closes history.ledger.prunedThrough) :
    next.ledger.prunedThrough = 0 ∨ next.ledger.closes next.ledger.prunedThrough := by
  have spans := trimmed.spans.resolve_right fun wiped => wiped.1
  have closes (number : Nat) (inside : history.ledger.closes number) : next.ledger.closes number := by
    unfold Ledger.closes
    rw [spans]
    exact inside
  rcases trimmed.mark with same | moved
  · rw [same.1]
    exact before.imp id (closes _)
  · obtain ⟨range, hi, head, daily, prunable, form⟩ := moved.resolve_left fun wiped => wiped.1
    have ends := closes _ (advanced_closes closed prunable)
    have pruned : next.ledger.prunedThrough = max history.ledger.prunedThrough (hi - 1) := by
      rw [form, advanced_prunedThrough]
    rw [pruned]
    rcases le_total history.ledger.prunedThrough (hi - 1) with below | above
    · rw [max_eq_right below]
      exact .inr ends
    · rw [max_eq_left above]
      exact before.imp id (closes _)

theorem Pruning.Sound.trimmed (sound : state.Sound config) {next : Retaining} (steady : next.Steady)
    (trimmed : Trimmed wipes state.history next.history) (reached : next.wiping = none →
      next.history.ledger.prunedThrough = 0 ∨ next.history.ledger.closes next.history.ledger.prunedThrough) :
    Pruning.Sound config { retaining := next, ever := state.ever ++ next.history.blocks } := by
  obtain ⟨numbers, marked, closed⟩ := sound.trim trimmed
  refine ⟨steady, numbers, fun block stored => mem_append_right _ stored, ?_, closed, reached⟩
  rcases marked with none | ⟨block, stored, rest⟩
  · exact .inl none
  · exact .inr ⟨block, mem_append_left _ stored, rest⟩

theorem Pruning.Sound.unchanged (sound : state.Sound config) :
    Pruning.Sound config
      { retaining := state.retaining, ever := state.ever ++ state.retaining.history.blocks } := by
  have same : Trimmed False state.history state.retaining.history := Trimmed.refl _
  exact sound.trimmed sound.steady same sound.reached

theorem Pruning.Sound.own (sound : state.Sound config) (event : RetainingEvent) :
    Pruning.Sound config
      { retaining := state.retaining.own event, ever := state.ever ++ (state.retaining.own event).history.blocks } := by
  have guarded (own : ∀ next, event ≠ .others next) (next : Retaining)
      (form : next = if state.retaining.wiping.isNone then state.retaining.retain event else state.retaining) :
      Pruning.Sound config { retaining := next, ever := state.ever ++ next.history.blocks } := by
    split at form
    · rename_i idle
      have idle := Option.isNone_iff_eq_none.mp idle
      have trimmed : Trimmed False state.history next.history := form ▸ trimmed_retain state.retaining own
      exact sound.trimmed (form ▸ sound.steady.retain idle event) trimmed
        fun _ => trimmed.reached sound.closed (sound.reached idle)
    · rw [form]
      exact sound.unchanged
  cases event with
  | others next => exact sound.unchanged
  | wipe =>
    have reached (done : state.retaining.wipe.wiping = none) :
        state.retaining.wipe.history.ledger.prunedThrough = 0 := by
      obtain ⟨filled, same⟩ := wipe_done done
      have steady := sound.steady.wiping
      rw [filled] at steady
      rw [same]
      exact steady.1
    exact sound.trimmed sound.steady.wipe (trimmed_wipe state.retaining) fun done => .inl (reached done)
  | stopWipe =>
    have same : Trimmed False state.history state.retaining.history := Trimmed.refl _
    refine sound.trimmed (sound.steady.step .stopWipe) same fun done => ?_
    exact sound.reached (Option.map_eq_none_iff.mp done)
  | _ => exact guarded (fun _ same => by cases same) _ rfl

theorem Pruning.Sound.transact (sound : state.Sound config) {event : PruneEvent} :
    Pruning.Sound config
      { retaining := state.retaining.transact (event.change keccak256 config state.history)
        ever := state.ever ++
          (state.retaining.transact (event.change keccak256 config state.history)).history.blocks } := by
  cases done : event.change keccak256 config state.history with
  | none => exact sound.unchanged
  | some next =>
    unfold Retaining.transact
    dsimp only
    split
    · rename_i idle
      have still := Option.isNone_iff_eq_none.mp idle.1
      have changed := change_changed done
      have reached := sound.reached still
      obtain ⟨closed, closes⟩ := changed.spans sound.closed reached
      have kept : Kept next := by
        have steady := sound.steady.wiping
        rw [still] at steady
        exact changed.kept steady idle.2
      refine ⟨⟨kept.toLaid, still ▸ kept⟩, changed.numbers sound.numbers,
        fun block stored => mem_append_right _ stored, ?_, closed, fun _ => ?_⟩
      · show next.prunedThroughTs = 0 ∨ ∃ block ∈ state.ever ++ next.blocks,
          block.number ≤ next.ledger.prunedThrough ∧ block.timestamp = next.prunedThroughTs
        rw [changed.pruned, changed.prunedTs]
        rcases sound.marked with none | ⟨block, stored, rest⟩
        · exact .inl none
        · exact .inr ⟨block, mem_append_left _ stored, rest⟩
      · show next.ledger.prunedThrough = 0 ∨ next.ledger.closes next.ledger.prunedThrough
        rw [changed.pruned]
        exact reached.imp id (closes _)
    · exact sound.unchanged

theorem Pruning.Sound.step (sound : state.Sound config) (event : PruneEvent) :
    Pruning.Sound config (state.step keccak256 config event) := by
  cases event with
  | retain event => exact sound.own event
  | _ => exact sound.transact

theorem Pruning.sound_run (keccak256 : Bytes → Hash) (config : LedgerConfig) (events : List PruneEvent) :
    Pruning.Sound config (run (Pruning.step keccak256 config) {} events) :=
  run_invariant (Pruning.Sound config) (Pruning.sound_start config) (fun _ event sound => sound.step event) events

end Runs

end OpsIndexer.Db
