import OpsIndexer.Db.RetentionSteps

/-!
# A backfill batch keeps the ledger sound

The batch's blocks fall into spans of one grid. The first of them continues the span in progress, all but the last are
complete, and nothing was counted past the span in progress before.
-/

namespace OpsIndexer.Db

open Eth OpsIndexer.Types Lib.Table Lib.Tally Lib.Recount List

/-! ## The spans of a batch -/

/-- What the blocks from `first` up to `past` leave in the batch: one span for each grid interval they meet, with the
count of their rows in it. -/
structure Batched (spanBlocks target first past : Nat) (items : List (Nat × CountedRow)) (spans : List BatchSpan) :
    Prop where
  distinct : (spans.map (·.lo)).Nodup
  origin : ∀ span ∈ spans, ∃ number, first ≤ number ∧ number < past ∧
    spanOf spanBlocks target number = (span.lo, span.hi)
  present : ∀ number, first ≤ number → number < past → ∃ span ∈ spans,
    spanOf spanBlocks target number = (span.lo, span.hi)
  counts : ∀ span ∈ spans, ∀ counter : LedgerCounter, span.totals.count counter =
    tally counter.counts (fun position => gridStart spanBlocks position = span.lo) items
  items : ∀ item ∈ items, first ≤ item.1 ∧ item.1 < past

variable {data block : BlockData} {spanBlocks target first : Nat} {next : Ledger} {rest : List BlockData}

theorem blockItems_position {number : Nat} {item : Nat × CountedRow} (member : item ∈ blockItems number data) :
    item.1 = number := by
  simp only [blockItems, mem_append, mem_map] at member
  rcases member with (⟨_, _, rfl⟩ | ⟨_, _, rfl⟩) | ⟨_, _, rfl⟩ <;> rfl

theorem tally_blockItems (spanBlocks number lo : Nat) (data : BlockData) (counter : LedgerCounter) :
    tally counter.counts (fun position => gridStart spanBlocks position = lo) (blockItems number data) =
      if gridStart spanBlocks number = lo then tally counter.counts anywhere (blockItems number data) else 0 := by
  split
  · next same =>
    apply tally_congr
    intro item member
    rw [blockItems_position member, decide_eq_true same]
    rfl
  · next differ =>
    apply tally_eq_zero
    intro item member
    rw [blockItems_position member]
    exact decide_eq_false differ

section Batched

variable {past : Nat} {items : List (Nat × CountedRow)} {spans next : List BatchSpan} {totals : SpanTotals}

theorem Batched.positions (batched : Batched spanBlocks target first past items spans) (le : first ≤ past)
    (data : BlockData) : ∀ item ∈ items ++ blockItems past data, first ≤ item.1 ∧ item.1 < past + 1 := by
  intro item member
  rcases mem_append.mp member with old | new
  · have bound := batched.items item old
    omega
  · rw [blockItems_position new]
    omega

/-- The block is the first of its span. -/
theorem Batched.append (batched : Batched spanBlocks target first past items spans) (le : first ≤ past)
    (fresh : ∀ span ∈ spans, span.lo ≠ gridStart spanBlocks past)
    (added : ({} : SpanTotals).addBlock data = .ok totals) :
    Batched spanBlocks target first (past + 1) (items ++ blockItems past data)
      (spans ++ [⟨gridStart spanBlocks past, (spanOf spanBlocks target past).2, totals⟩]) := by
  refine ⟨?_, ?_, ?_, ?_, batched.positions le data⟩
  · rw [map_append, nodup_append]
    refine ⟨batched.distinct, by simp, ?_⟩
    intro lo member other otherMember same
    obtain ⟨span, listed, rfl⟩ := mem_map.mp member
    rw [map_singleton, mem_singleton] at otherMember
    exact fresh span listed (same.trans otherMember)
  · intro span member
    rcases mem_append.mp member with old | new
    · obtain ⟨number, low, high, same⟩ := batched.origin span old
      exact ⟨number, low, by omega, same⟩
    · rw [mem_singleton.mp new]
      exact ⟨past, le, by omega, rfl⟩
  · intro number low high
    by_cases own : number = past
    · exact ⟨_, mem_append_right _ (mem_singleton.mpr rfl), by rw [own]; rfl⟩
    · obtain ⟨span, member, same⟩ := batched.present number low (by omega)
      exact ⟨span, mem_append_left _ member, same⟩
  · intro span member counter
    rw [tally_append, tally_blockItems]
    rcases mem_append.mp member with old | new
    · rw [batched.counts span old, if_neg (fresh span old).symm, Nat.add_zero]
    · have none : tally counter.counts (fun position => gridStart spanBlocks position = gridStart spanBlocks past)
          items = 0 := by
        apply tally_eq_zero
        intro item listed
        have bound := batched.items item listed
        obtain ⟨other, otherMember, same⟩ := batched.present item.1 bound.1 bound.2
        have lo : gridStart spanBlocks item.1 = other.lo := congrArg Prod.fst same
        rw [lo]
        exact decide_eq_false (fresh other otherMember)
      rw [mem_singleton.mp new]
      simp only [if_true]
      rw [none, addBlock_count past added, count_empty]
      push_cast
      omega

/-- The block's span is there already. -/
theorem Batched.update (batched : Batched spanBlocks target first past items spans) (le : first ≤ past)
    {held : BatchSpan} (member : held ∈ spans) (heldLo : held.lo = gridStart spanBlocks past)
    (added : held.totals.addBlock data = .ok totals) :
    Batched spanBlocks target first (past + 1) (items ++ blockItems past data)
      (updateKey (·.lo) (gridStart spanBlocks past) (fun span => { span with totals := totals }) spans) := by
  have bounds (span : BatchSpan) :
      ((if span.lo = gridStart spanBlocks past then { span with totals := totals } else span).lo,
        (if span.lo = gridStart spanBlocks past then { span with totals := totals } else span).hi) =
        (span.lo, span.hi) := by
    split <;> rfl
  refine ⟨?_, ?_, ?_, ?_, batched.positions le data⟩
  · rw [keys_updateKey _ _ (by simp)]
    exact batched.distinct
  · intro span changed
    obtain ⟨source, listed, rfl⟩ := mem_map.mp changed
    obtain ⟨number, low, high, same⟩ := batched.origin source listed
    exact ⟨number, low, by omega, same.trans (bounds source).symm⟩
  · intro number low high
    obtain ⟨span, listed, same⟩ : ∃ span ∈ spans, spanOf spanBlocks target number = (span.lo, span.hi) := by
      by_cases own : number = past
      · obtain ⟨origin, _, _, same⟩ := batched.origin held member
        have lo : gridStart spanBlocks origin = gridStart spanBlocks past := (congrArg Prod.fst same).trans heldLo
        refine ⟨held, member, ?_⟩
        rw [own, ← same]
        change (gridStart spanBlocks past, min (gridStart spanBlocks past + spanBlocks) (target + 1)) =
          (gridStart spanBlocks origin, min (gridStart spanBlocks origin + spanBlocks) (target + 1))
        rw [lo]
      · exact batched.present number low (by omega)
    exact ⟨_, mem_map_of_mem listed, same.trans (bounds span).symm⟩
  · intro span changed counter
    obtain ⟨source, listed, rfl⟩ := mem_map.mp changed
    rw [tally_append, tally_blockItems]
    by_cases own : source.lo = gridStart spanBlocks past
    · obtain rfl := inj_on_of_nodup_map batched.distinct listed member (own.trans heldLo.symm)
      have sum := addBlock_count past added counter
      simp only [own, if_true]
      rw [sum, batched.counts source listed, own]
      push_cast
      rfl
    · simp only [if_neg own]
      rw [batched.counts source listed, if_neg (Ne.symm own), Nat.add_zero]

theorem addToSpan_batched (batched : Batched spanBlocks target first past items spans) (le : first ≤ past)
    (done : addToSpan spanBlocks target past data spans = .ok next) :
    Batched spanBlocks target first (past + 1) (items ++ blockItems past data) next := by
  unfold addToSpan at done
  simp only at done
  split at done
  · next absent =>
    obtain ⟨totals, added, done⟩ := bind_eq_ok.mp done
    rw [← Except.ok.inj done]
    refine batched.append le ?_ added
    intro span member same
    exact List.find?_eq_none.mp absent span member (decide_eq_true same)
  · next held found =>
    obtain ⟨totals, added, done⟩ := bind_eq_ok.mp done
    rw [← Except.ok.inj done]
    have heldLo := List.find?_some found
    exact batched.update le (mem_of_find?_eq_some found) (of_decide_eq_true heldLo) added

end Batched

def batchItems (first : Nat) (blocks : List BlockData) : List (Nat × CountedRow) :=
  (blocks.zipIdx first).flatMap fun entry => blockItems entry.2 entry.1

theorem backfillBatch_batched {blocks : List BlockData} {batch : BackfillBatch}
    (done : backfillBatch spanBlocks target first blocks = .ok batch) :
    batch.first = first ∧ batch.past = first + blocks.length ∧
      Batched spanBlocks target first (first + blocks.length) (batchItems first blocks) batch.spans := by
  have run (rest : List BlockData) (past : Nat) (items : List (Nat × CountedRow)) (start : BackfillBatch)
      (le : first ≤ past) (batched : Batched spanBlocks target first past items start.spans)
      (done : (rest.zipIdx past).foldlM (addBlock spanBlocks target) start = .ok batch) :
      batch.first = start.first ∧ batch.past = start.past ∧
        Batched spanBlocks target first (past + rest.length) (items ++ batchItems past rest) batch.spans := by
    induction rest generalizing past items start with
    | nil =>
      cases done
      refine ⟨rfl, rfl, ?_⟩
      simpa [batchItems] using batched
    | cons data rest ih =>
      rw [zipIdx_cons, foldlM_cons] at done
      obtain ⟨middle, head, others⟩ := bind_eq_ok.mp done
      unfold addBlock at head
      obtain ⟨spans, added, head⟩ := bind_eq_ok.mp head
      cases head
      obtain ⟨sameFirst, samePast, result⟩ := ih (past + 1) _ _ (by omega) (addToSpan_batched batched le added) others
      refine ⟨sameFirst, samePast, ?_⟩
      have split : batchItems past (data :: rest) = blockItems past data ++ batchItems (past + 1) rest := by
        rw [batchItems, zipIdx_cons, flatMap_cons]
        rfl
      rw [split, ← append_assoc, length_cons, show past + (rest.length + 1) = past + 1 + rest.length by omega]
      exact result
  have empty : Batched spanBlocks target first first [] [] :=
    ⟨nodup_nil, by simp, fun number low high => absurd high (by omega), by simp, by simp⟩
  have result := run blocks first [] _ le_rfl empty done
  rwa [nil_append] at result

/-! ## Staging the spans -/

def stagedTotals (stage : AList fun _ : Nat => SpanTotals) (span : BatchSpan) : SpanTotals :=
  ((stage.lookup span.lo).getD {}).add span.totals

theorem foldl_stageSpan (past : Nat) (spans : List BatchSpan) (staging : Staging)
    (distinct : (spans.map (·.lo)).Nodup) :
    (spans.foldl (stageSpan past) staging).spans = staging.spans ++
        (spans.filter fun span => span.hi ≤ past).map
          (fun span => ⟨span.lo, span.hi, .node, .unchecked, stagedTotals staging.stage span⟩) ∧
      (∀ key ∉ spans.map (·.lo),
        (spans.foldl (stageSpan past) staging).stage.lookup key = staging.stage.lookup key) ∧
      (∀ span ∈ spans, (spans.foldl (stageSpan past) staging).stage.lookup span.lo =
        if span.hi ≤ past then none else some (stagedTotals staging.stage span)) ∧
      (spans.foldl (stageSpan past) staging).spanLo =
        (((spans.filter fun span => !decide (span.hi ≤ past)).getLast?).map (·.lo)).or staging.spanLo := by
  induction spans generalizing staging with
  | nil => simp
  | cons span rest ih =>
    rw [map_cons, nodup_cons] at distinct
    obtain ⟨closed, others, own, open'⟩ := ih (stageSpan past staging span) distinct.2
    have elsewhere (key : Nat) (apart : key ≠ span.lo) :
        (stageSpan past staging span).stage.lookup key = staging.stage.lookup key := by
      unfold stageSpan
      simp only
      split
      · exact AList.lookup_erase_ne apart
      · exact AList.lookup_insert_ne apart
    have restTotals (other : BatchSpan) (member : other ∈ rest) :
        stagedTotals (stageSpan past staging span).stage other = stagedTotals staging.stage other := by
      have apart : other.lo ≠ span.lo := by
        intro same
        exact distinct.1 (same ▸ mem_map_of_mem member)
      rw [stagedTotals, elsewhere _ apart, stagedTotals]
    rw [foldl_cons]
    refine ⟨?_, ?_, ?_, ?_⟩
    · rw [closed, map_congr_left (g := fun span =>
        ⟨span.lo, span.hi, .node, .unchecked, stagedTotals staging.stage span⟩)]
      · by_cases complete : span.hi ≤ past
        · rw [filter_cons_of_pos (by simpa using complete)]
          simp [stageSpan, complete, stagedTotals]
        · rw [filter_cons_of_neg (by simpa using complete)]
          simp [stageSpan, complete]
      · intro other member
        rw [restTotals other (mem_of_mem_filter member)]
    · intro key absent
      rw [map_cons, mem_cons, not_or] at absent
      rw [others key absent.2, elsewhere key absent.1]
    · intro other member
      rcases mem_cons.mp member with rfl | later
      · rw [others _ distinct.1]
        unfold stageSpan
        simp only
        split
        · exact AList.lookup_erase _ _
        · exact AList.lookup_insert _
      · rw [own other later, restTotals other later]
    · rw [open']
      by_cases complete : span.hi ≤ past
      · rw [filter_cons_of_neg (by simpa using complete)]
        simp [stageSpan, complete]
      · rw [filter_cons_of_pos (by simpa using complete)]
        have kept : (stageSpan past staging span).spanLo = some span.lo := by
          simp [stageSpan, complete]
        rw [kept]
        cases rest.filter fun span => !decide (span.hi ≤ past) with
        | nil => rfl
        | cons head tail =>
          rw [List.getLast?_cons_cons, List.getLast?_eq_some_getLast (cons_ne_nil head tail)]
          rfl

/-! ## The next batch -/

section NextBatch

variable {config : LedgerConfig} {ledger : Ledger} {gone : List (Nat × CountedRow)} {state : StatsBackfill}
  {past : Nat} {items : List (Nat × CountedRow)} {spans : List BatchSpan}

structure NextBatch (config : LedgerConfig) (ledger : Ledger) (gone : List (Nat × CountedRow)) (state : StatsBackfill)
    (past : Nat) (items : List (Nat × CountedRow)) (spans : List BatchSpan) : Prop where
  sound : Sound config ledger gone
  running : ledger.backfill = some state
  positive : 0 < config.spanBlocks
  later : state.next < past
  bounded : past ≤ state.target + 1
  batched : Batched config.spanBlocks state.target state.next past items spans

variable (batch : NextBatch config ledger gone state past items spans)

include batch

theorem NextBatch.openLo_eq : state.openLo = gridStart config.spanBlocks state.next := by
  have spanLo := (batch.sound.backfill state batch.running).spanLo
  have unfinished : state.next ≠ state.target + 1 := by
    have later := batch.later
    have bounded := batch.bounded
    omega
  rw [StatsBackfill.openLo, spanLo]
  split
  · next aligned =>
    have rest := aligned.resolve_right unfinished
    rw [Option.getD_none, gridStart, rest, Nat.sub_zero]
  · rfl

theorem NextBatch.placed : ∀ span ∈ ledger.spans, span.hi ≤ state.openLo ∨ state.target < span.lo := by
  apply (batch.sound.backfill state batch.running).placed
  have later := batch.later
  have bounded := batch.bounded
  have start := gridStart_le config.spanBlocks state.next
  rw [batch.openLo_eq]
  omega

variable {position : Nat}

theorem NextBatch.covered_old (low : state.openLo ≤ position) (high : position ≤ state.target) :
    covered (ledger.books gone).spans position = false := by
  rw [← Bool.not_eq_true, covered_iff]
  rintro ⟨span, listed, below, above⟩
  obtain ⟨source, member, rfl⟩ := mem_map.mp listed
  have start : source.lo ≤ position := below
  have stop : position < source.hi := above
  rcases batch.placed source member with under | beyond <;> omega

theorem NextBatch.item_low {item : Nat × CountedRow} (member : item ∈ storeItems ledger.store ++ gone)
    (low : state.openLo ≤ item.1) (high : item.1 ≤ state.target) : item.1 < state.next := by
  have outside := batch.covered_old low high
  have pruned := (batch.sound.backfill state batch.running).pruned
  rcases mem_append.mp member with kept | past
  · rcases batch.sound.balanced.kept item kept with inside | beyond
    · rw [outside] at inside
      exact absurd inside Bool.false_ne_true
    · have floor : ledger.historyFrom ≤ item.1 := beyond.2
      omega
  · rcases (batch.sound.balanced.gone item past).2 with inside | staged
    · rw [outside] at inside
      exact absurd inside Bool.false_ne_true
    · have bounds : (ledger.books gone).staged = ⟨state.openLo, state.next, ledger.staged.count⟩ := by
        show ledger.stagedSpan = _
        rw [Ledger.stagedSpan, batch.running]
      rw [bounds] at staged
      exact (within_iff.mp staged).2

variable {span : BatchSpan}

theorem NextBatch.span_bounds (member : span ∈ spans) :
    ∃ number, state.next ≤ number ∧ number < past ∧ span.lo = gridStart config.spanBlocks number ∧
      span.hi = min (span.lo + config.spanBlocks) (state.target + 1) ∧ state.openLo ≤ span.lo ∧ span.lo ≤ number ∧
      number < span.hi := by
  obtain ⟨number, low, high, same⟩ := batch.batched.origin span member
  have lo : gridStart config.spanBlocks number = span.lo := congrArg Prod.fst same
  have hi : min (gridStart config.spanBlocks number + config.spanBlocks) (state.target + 1) = span.hi :=
    congrArg Prod.snd same
  have start := gridStart_le config.spanBlocks number
  have inside := lt_gridStart_add batch.positive number
  have bounded := batch.bounded
  have mono := gridStart_mono batch.positive low
  rw [← batch.openLo_eq] at mono
  rw [lo] at hi start inside mono
  exact ⟨number, low, high, lo.symm, hi.symm, mono, start, by omega⟩

theorem NextBatch.span_at {number : Nat} (low : state.next ≤ number) (high : number < past) :
    ∃ span ∈ spans, span.lo = gridStart config.spanBlocks number ∧
      span.hi = min (span.lo + config.spanBlocks) (state.target + 1) ∧ span.lo ≤ number ∧ number < span.hi := by
  obtain ⟨span, member, same⟩ := batch.batched.present number low high
  have lo : gridStart config.spanBlocks number = span.lo := congrArg Prod.fst same
  have hi : min (gridStart config.spanBlocks number + config.spanBlocks) (state.target + 1) = span.hi :=
    congrArg Prod.snd same
  have start := gridStart_le config.spanBlocks number
  have inside := lt_gridStart_add batch.positive number
  have bounded := batch.bounded
  rw [lo] at hi start inside
  exact ⟨span, member, lo.symm, hi.symm, start, by omega⟩

theorem NextBatch.span_apart {first second : BatchSpan} (firstMember : first ∈ spans) (secondMember : second ∈ spans)
    (before : first.lo < second.lo) : first.hi ≤ second.lo := by
  obtain ⟨_, _, _, firstLo, firstHi, _⟩ := batch.span_bounds firstMember
  obtain ⟨_, _, _, secondLo, _⟩ := batch.span_bounds secondMember
  rw [firstLo, secondLo] at before
  have apart := gridStart_apart before
  rw [← firstLo, ← secondLo] at apart
  omega

theorem NextBatch.stage_count (member : span ∈ spans) (counter : LedgerCounter) :
    ((ledger.stage.lookup span.lo).getD {}).count counter =
      tally counter.counts (within (span.lo, span.hi)) (storeItems ledger.store ++ gone) := by
  have placed := batch.sound.backfill state batch.running
  obtain ⟨number, low, high, lo, hi, after, start, inside⟩ := batch.span_bounds member
  have bounded := batch.bounded
  have later := batch.later
  by_cases own : span.lo = state.openLo
  · have nextInside : state.next < span.hi := by
      have next := lt_gridStart_add batch.positive state.next
      rw [← batch.openLo_eq, ← own] at next
      omega
    have staged : ((ledger.stage.lookup span.lo).getD {}).count counter = ledger.stagedSpan.count counter := by
      rw [ledger.stagedSpan_count, Ledger.staged, Ledger.openSpan, batch.running]
      show _ = ((state.spanLo.bind ledger.stage.lookup).getD {}).count counter
      cases spanLo : state.spanLo with
      | some lo =>
        have same : span.lo = lo := by
          rw [own, StatsBackfill.openLo, spanLo, Option.getD_some]
        rw [same]
        rfl
      | none =>
        cases found : ledger.stage.lookup span.lo with
        | none => rfl
        | some totals =>
          have marked := placed.stage span.lo (by rw [found]; rfl)
          rw [spanLo] at marked
          cases marked
    have exact := batch.sound.balanced.stagedExact counter
    have bounds : (ledger.books gone).staged.bounds = (state.openLo, state.next) := by
      show ledger.stagedSpan.bounds = _
      rw [Ledger.stagedSpan, batch.running]
      rfl
    rw [bounds] at exact
    rw [staged]
    refine exact.trans (congrArg Nat.cast (tally_congr _ ?_))
    intro item listed
    rw [Bool.eq_iff_iff, within_iff, within_iff]
    constructor
    · rintro ⟨from', under⟩
      exact ⟨own ▸ from', by show item.1 < span.hi; omega⟩
    · rintro ⟨from', under⟩
      have first : state.openLo ≤ item.1 := own ▸ from'
      have stop : item.1 < span.hi := under
      exact ⟨first, batch.item_low listed first (by omega)⟩
  · have absent : ledger.stage.lookup span.lo = none := by
      cases found : ledger.stage.lookup span.lo with
      | none => rfl
      | some totals =>
        have marked := placed.stage span.lo (by rw [found]; rfl)
        rw [StatsBackfill.openLo, marked, Option.getD_some] at own
        exact absurd rfl own
    have beyond : state.next < span.lo := by
      have before : gridStart config.spanBlocks state.next < gridStart config.spanBlocks number := by
        rw [← batch.openLo_eq, ← lo]
        omega
      have apart := gridStart_apart before
      have inside := lt_gridStart_add batch.positive state.next
      omega
    have none : tally counter.counts (within (span.lo, span.hi)) (storeItems ledger.store ++ gone) = 0 := by
      apply tally_eq_zero
      intro item listed
      rw [← Bool.not_eq_true, within_iff]
      rintro ⟨from', under⟩
      have first : span.lo ≤ item.1 := from'
      have stop : item.1 < span.hi := under
      have counted := batch.item_low listed (by omega) (by omega)
      omega
    rw [absent, none, Option.getD_none, count_empty]
    rfl

theorem NextBatch.stagedTotals_count (member : span ∈ spans) (counter : LedgerCounter) :
    (stagedTotals ledger.stage span).count counter =
      tally counter.counts (within (span.lo, span.hi)) (storeItems ledger.store ++ gone ++ items) := by
  obtain ⟨number, low, high, lo, hi, after, start, inside⟩ := batch.span_bounds member
  have bounded := batch.bounded
  have own : tally counter.counts (within (span.lo, span.hi)) items =
      tally counter.counts (fun position => gridStart config.spanBlocks position = span.lo) items := by
    apply tally_congr
    intro item listed
    have bound := batch.batched.items item listed
    rw [Bool.eq_iff_iff, within_iff, decide_eq_true_eq]
    constructor
    · rintro ⟨from', under⟩
      have first : span.lo ≤ item.1 := from'
      have stop : item.1 < span.hi := under
      rw [lo] at first ⊢
      exact gridStart_eq_of_within batch.positive first (by omega)
    · intro same
      have first := gridStart_le config.spanBlocks item.1
      have stop := lt_gridStart_add batch.positive item.1
      exact ⟨by show span.lo ≤ item.1; omega, by show item.1 < span.hi; omega⟩
  rw [stagedTotals, count_add, batch.stage_count member, batch.batched.counts span member,
    tally_append _ _ (storeItems ledger.store ++ gone), own]
  push_cast
  rfl

/-! ### The open span after the batch -/

theorem NextBatch.span_open (member : span ∈ spans) (partly : past < span.hi) :
    span.lo = gridStart config.spanBlocks past ∧ past % config.spanBlocks ≠ 0 ∧ past ≠ state.target + 1 := by
  obtain ⟨number, low, high, lo, hi, after, start, inside⟩ := batch.span_bounds member
  have same : gridStart config.spanBlocks past = span.lo := by
    rw [lo]
    exact gridStart_eq_of_within batch.positive (by omega) (by omega)
  refine ⟨same.symm, ?_, by omega⟩
  intro aligned
  rw [gridStart, aligned] at same
  omega

theorem NextBatch.exists_open (unaligned : past % config.spanBlocks ≠ 0) (unfinished : past ≠ state.target + 1) :
    ∃ span ∈ spans, past < span.hi := by
  have later := batch.later
  have bounded := batch.bounded
  obtain ⟨span, member, lo, hi, _⟩ := batch.span_at (show state.next ≤ past - 1 by omega) (by omega)
  have below : gridStart config.spanBlocks past < past := by
    unfold gridStart
    omega
  have inside := lt_gridStart_add batch.positive past
  have cell : gridStart config.spanBlocks (past - 1) = gridStart config.spanBlocks past :=
    gridStart_eq_of_within batch.positive (by omega) (by omega)
  exact ⟨span, member, by omega⟩

def Ledger.stageBatch (ledger : Ledger) (state : StatsBackfill) (past : Nat) (spans : List BatchSpan) : Ledger :=
  let staging := spans.foldl (stageSpan past) ⟨ledger.spans, ledger.stage, none⟩
  { ledger with
    spans := staging.spans
    stage := staging.stage
    backfill := some { state with through := past - 1, spanLo := staging.spanLo } }

theorem NextBatch.spanLo_eq :
    (spans.foldl (stageSpan past) ⟨ledger.spans, ledger.stage, none⟩).spanLo =
      if past % config.spanBlocks = 0 ∨ past = state.target + 1 then none
      else some (gridStart config.spanBlocks past) := by
  rw [(foldl_stageSpan past spans ⟨ledger.spans, ledger.stage, none⟩ batch.batched.distinct).2.2.2, Option.or_none]
  split
  · next aligned =>
    have none : (spans.filter fun span => !decide (span.hi ≤ past)) = [] := by
      rw [filter_eq_nil_iff]
      intro span member partly
      have facts := batch.span_open member (by simpa using partly)
      rcases aligned with zero | ended
      · exact facts.2.1 zero
      · exact facts.2.2 ended
    rw [none]
    rfl
  · next unaligned =>
    rw [not_or] at unaligned
    obtain ⟨span, member, partly⟩ := batch.exists_open unaligned.1 unaligned.2
    have some' : (spans.filter fun span => !decide (span.hi ≤ past)) ≠ [] :=
      ne_nil_of_mem (mem_filter.mpr ⟨member, by simpa using partly⟩)
    rw [List.getLast?_eq_some_getLast some', Option.map_some]
    have last := mem_filter.mp (getLast_mem some')
    rw [(batch.span_open last.1 (by simpa using last.2)).1]

theorem NextBatch.next_stagedSpan :
    (¬ (past % config.spanBlocks = 0 ∨ past = state.target + 1) → ∃ span ∈ spans, past < span.hi ∧
      (ledger.stageBatch state past spans).stagedSpan =
        ⟨span.lo, past, (stagedTotals ledger.stage span).count⟩) ∧
    (past % config.spanBlocks = 0 ∨ past = state.target + 1 →
      (ledger.stageBatch state past spans).stagedSpan = ⟨past, past, ({} : SpanTotals).count⟩) := by
  have next (spanLo : Option Nat) :
      ({ state with through := past - 1, spanLo := spanLo } : StatsBackfill).next = past := by
    simp [StatsBackfill.next]
  have lookups := (foldl_stageSpan past spans ⟨ledger.spans, ledger.stage, none⟩ batch.batched.distinct).2.2.1
  have spanLo := batch.spanLo_eq
  constructor
  · intro unaligned
    rw [if_neg unaligned] at spanLo
    rw [not_or] at unaligned
    obtain ⟨span, member, partly⟩ := batch.exists_open unaligned.1 unaligned.2
    refine ⟨span, member, partly, ?_⟩
    have lo := (batch.span_open member partly).1
    have held := lookups span member
    rw [if_neg (by omega)] at held
    simp only [Ledger.stagedSpan, Ledger.stageBatch, Ledger.staged, Ledger.openSpan, StatsBackfill.openLo, next,
      Option.bind_some, spanLo, Option.getD_some]
    rw [← lo, held, Option.getD_some]
  · intro aligned
    rw [if_pos aligned] at spanLo
    simp only [Ledger.stagedSpan, Ledger.stageBatch, Ledger.staged, Ledger.openSpan, StatsBackfill.openLo, next,
      Option.bind_some, spanLo, Option.getD_none, Option.bind_none]

/-! ### The books after the batch -/

def completed (ledger : Ledger) (past : Nat) (spans : List BatchSpan) : List (Span LedgerCounter) :=
  (spans.filter fun span => span.hi ≤ past).map fun span => ⟨span.lo, span.hi, (stagedTotals ledger.stage span).count⟩

omit batch in
theorem mem_completed {span : Span LedgerCounter} :
    span ∈ completed ledger past spans ↔ ∃ source ∈ spans, source.hi ≤ past ∧
      ⟨source.lo, source.hi, (stagedTotals ledger.stage source).count⟩ = span := by
  simp [completed, and_assoc]

theorem NextBatch.spans_eq :
    (ledger.stageBatch state past spans).spans.map LedgerSpan.recorded =
      ledger.spans.map LedgerSpan.recorded ++ completed ledger past spans := by
  have closed := (foldl_stageSpan past spans ⟨ledger.spans, ledger.stage, none⟩ batch.batched.distinct).1
  simp only [Ledger.stageBatch, closed, map_append, map_map, completed]
  rfl

theorem NextBatch.completed_below {closed : BatchSpan} (closedMember : closed ∈ spans) (done : closed.hi ≤ past)
    (member : span ∈ spans) (partly : past < span.hi) : closed.hi ≤ span.lo := by
  rcases Nat.lt_trichotomy closed.lo span.lo with before | same | after
  · exact batch.span_apart closedMember member before
  · have equal := inj_on_of_nodup_map batch.batched.distinct closedMember member same
    rw [equal] at done
    omega
  · have apart := batch.span_apart member closedMember after
    obtain ⟨_, _, _, _, _, _, _, inside⟩ := batch.span_bounds closedMember
    omega

theorem NextBatch.staged_within
    (inside : within (ledger.stageBatch state past spans).stagedSpan.bounds position = true) :
    ∃ span ∈ spans, past < span.hi ∧ span.lo ≤ position ∧ position < past := by
  obtain ⟨opened, finished⟩ := batch.next_stagedSpan
  by_cases aligned : past % config.spanBlocks = 0 ∨ past = state.target + 1
  · rw [finished aligned] at inside
    obtain ⟨low, high⟩ := within_iff.mp inside
    exact absurd low (Nat.not_le.mpr high)
  · obtain ⟨span, member, partly, same⟩ := opened aligned
    rw [same] at inside
    exact ⟨span, member, partly, within_iff.mp inside⟩

/-- A block of the batch, or one the stage held, is in a completed span or in the open one. -/
theorem NextBatch.recorded_at (member : span ∈ spans) (low : span.lo ≤ position)
    (high : position < past) (inside : position < span.hi) :
    covered (completed ledger past spans) position = true ∨
      within (ledger.stageBatch state past spans).stagedSpan.bounds position = true := by
  by_cases done : span.hi ≤ past
  · exact .inl (covered_iff.mpr ⟨_, mem_completed.mpr ⟨span, member, done, rfl⟩, low, inside⟩)
  · have facts := batch.span_open member (Nat.lt_of_not_le done)
    obtain ⟨other, otherMember, partly, same⟩ := batch.next_stagedSpan.1 (by simp [facts.2])
    rw [same]
    refine .inr (within_iff.mpr ⟨?_, high⟩)
    show other.lo ≤ position
    rw [(batch.span_open otherMember partly).1, ← facts.1]
    exact low

theorem NextBatch.pairwise_apart {chosen : List BatchSpan} (fewer : chosen.Sublist spans) :
    chosen.Pairwise fun first second => first.hi ≤ second.lo ∨ second.hi ≤ first.lo := by
  refine (pairwise_map.mp (batch.batched.distinct.sublist (fewer.map _))).imp_of_mem ?_
  intro first second firstMember secondMember differ
  rcases Nat.lt_or_gt_of_ne differ with before | after
  · exact .inl (batch.span_apart (fewer.subset firstMember) (fewer.subset secondMember) before)
  · exact .inr (batch.span_apart (fewer.subset secondMember) (fewer.subset firstMember) after)

theorem NextBatch.next_stagedExact (counter : LedgerCounter) :
    (ledger.stageBatch state past spans).stagedSpan.count counter = tally counter.counts
      (within (ledger.stageBatch state past spans).stagedSpan.bounds) (storeItems ledger.store ++ gone ++ items) := by
  obtain ⟨opened, finished⟩ := batch.next_stagedSpan
  by_cases aligned : past % config.spanBlocks = 0 ∨ past = state.target + 1
  · have none : tally counter.counts (within (past, past)) (storeItems ledger.store ++ gone ++ items) = 0 := by
      apply tally_eq_zero
      intro item _
      rw [← Bool.not_eq_true, within_iff]
      rintro ⟨low, high⟩
      exact absurd low (Nat.not_le.mpr high)
    rw [finished aligned]
    show ({} : SpanTotals).count counter = ((tally counter.counts (within (past, past)) _ : Nat) : Int)
    rw [none, count_empty]
    rfl
  · obtain ⟨span, member, partly, same⟩ := opened aligned
    obtain ⟨_, _, _, _, hi, after, _⟩ := batch.span_bounds member
    rw [same]
    refine (batch.stagedTotals_count member counter).trans (congrArg Nat.cast (tally_congr _ ?_))
    intro item listed
    rw [Bool.eq_iff_iff, within_iff, within_iff]
    constructor
    · rintro ⟨low, high⟩
      have first : span.lo ≤ item.1 := low
      have stop : item.1 < span.hi := high
      refine ⟨low, ?_⟩
      show item.1 < past
      rcases mem_append.mp listed with old | new
      · have counted := batch.item_low old (by omega) (by omega)
        have later := batch.later
        omega
      · exact (batch.batched.items item new).2
    · rintro ⟨low, high⟩
      have stop : item.1 < past := high
      exact ⟨low, by show item.1 < span.hi; omega⟩

theorem NextBatch.balanced :
    Balanced LedgerCounter.counts ((ledger.stageBatch state past spans).books (gone ++ items)) := by
  have later := batch.later
  have bounded := batch.bounded
  have pruned := (batch.sound.backfill state batch.running).pruned
  have books : (ledger.stageBatch state past spans).books (gone ++ items) =
      { ledger.books gone with
        spans := (ledger.books gone).spans ++ completed ledger past spans
        staged := (ledger.stageBatch state past spans).stagedSpan
        gone := (ledger.books gone).gone ++ items } := by
    unfold Ledger.books
    rw [batch.spans_eq]
    rfl
  rw [books]
  apply batch.sound.balanced.extend
  · intro span member
    obtain ⟨source, listed, _, rfl⟩ := mem_completed.mp member
    obtain ⟨_, _, _, _, _, _, low, inside⟩ := batch.span_bounds listed
    exact Nat.lt_of_le_of_lt low inside
  · rw [completed, map_map, Apart, pairwise_map]
    exact batch.pairwise_apart filter_sublist
  · intro span member other added
    obtain ⟨old, oldMember, rfl⟩ := mem_map.mp member
    obtain ⟨source, listed, _, rfl⟩ := mem_completed.mp added
    obtain ⟨_, _, _, _, hi, after, _⟩ := batch.span_bounds listed
    show old.hi ≤ source.lo ∨ source.hi ≤ old.lo
    rcases batch.placed old oldMember with under | beyond <;> omega
  · intro span member
    obtain ⟨source, listed, _, rfl⟩ := mem_completed.mp member
    obtain ⟨_, _, _, _, hi, _⟩ := batch.span_bounds listed
    show source.hi ≤ ledger.historyFrom
    omega
  · intro item member
    have bound := batch.batched.items item member
    obtain ⟨span, listed, lo, _, start, inside⟩ := batch.span_at bound.1 bound.2
    have mono := gridStart_mono batch.positive bound.1
    rw [← batch.openLo_eq] at mono
    refine ⟨batch.covered_old (by omega) (by omega), ?_, batch.recorded_at listed start bound.2 inside⟩
    show item.1 < ledger.historyFrom
    omega
  · intro span member counter
    obtain ⟨source, listed, _, rfl⟩ := mem_completed.mp member
    exact batch.stagedTotals_count listed counter
  · exact batch.next_stagedExact
  · intro position inside
    obtain ⟨span, member, partly, low, high⟩ := batch.staged_within inside
    obtain ⟨_, _, _, _, hi, after, _⟩ := batch.span_bounds member
    refine ⟨batch.covered_old (by omega) (by omega), ?_, by show position < ledger.historyFrom; omega⟩
    rw [← Bool.not_eq_true, covered_iff]
    rintro ⟨other, added, below, above⟩
    obtain ⟨source, listed, done, rfl⟩ := mem_completed.mp added
    have under := batch.completed_below listed done member partly
    have stop : position < source.hi := above
    omega
  · intro position inside
    have bounds : (ledger.books gone).staged.bounds = (state.openLo, state.next) := by
      show ledger.stagedSpan.bounds = _
      rw [Ledger.stagedSpan, batch.running]
      rfl
    rw [bounds] at inside
    have held := within_iff.mp inside
    have low : state.openLo ≤ position := held.1
    have high : position < state.next := held.2
    obtain ⟨span, listed, lo, _, _, inside⟩ := batch.span_at le_rfl batch.later
    rw [batch.openLo_eq] at low
    exact batch.recorded_at listed (by omega) (by omega) (by omega)

theorem NextBatch.next_placed :
    BackfillPlaced config (ledger.stageBatch state past spans) { state with
      through := past - 1
      spanLo := (spans.foldl (stageSpan past) ⟨ledger.spans, ledger.stage, none⟩).spanLo } := by
  have placed := batch.sound.backfill state batch.running
  obtain ⟨closed, others, own, _⟩ :=
    foldl_stageSpan past spans ⟨ledger.spans, ledger.stage, none⟩ batch.batched.distinct
  have spanLo := batch.spanLo_eq
  generalize opened : (spans.foldl (stageSpan past) ⟨ledger.spans, ledger.stage, none⟩).spanLo = openLo at spanLo ⊢
  have next : ({ state with through := past - 1, spanLo := openLo } : StatsBackfill).next = past := by
    simp [StatsBackfill.next]
  have later := batch.later
  refine ⟨by show (-1 : Int) ≤ past - 1; omega, next.trans_le batch.bounded, placed.pruned, ?_, ?_, ?_⟩
  · rw [next]
    exact spanLo
  · intro key found
    show openLo = some key
    by_cases listed : key ∈ spans.map (·.lo)
    · obtain ⟨span, member, rfl⟩ := mem_map.mp listed
      have held : ((spans.foldl (stageSpan past) ⟨ledger.spans, ledger.stage, none⟩).stage.lookup span.lo).isSome =
        true := found
      rw [own span member] at held
      split at held
      · cases held
      · next partly =>
        have facts := batch.span_open member (Nat.lt_of_not_le partly)
        rw [spanLo, if_neg (by simp [facts.2]), facts.1]
    · have held : ((spans.foldl (stageSpan past) ⟨ledger.spans, ledger.stage, none⟩).stage.lookup key).isSome =
        true := found
      rw [others key listed] at held
      have marked := placed.stage key held
      obtain ⟨span, member, lo, _⟩ := batch.span_at le_rfl batch.later
      rw [← batch.openLo_eq, StatsBackfill.openLo, marked, Option.getD_some] at lo
      exact absurd (mem_map.mpr ⟨span, member, lo⟩) listed
  · intro unfinished span member
    have position : ({ state with through := past - 1, spanLo := openLo } : StatsBackfill).openLo =
        openLo.getD past := by
      rw [StatsBackfill.openLo, next]
    rw [position] at unfinished ⊢
    show span.hi ≤ openLo.getD past ∨ state.target < span.lo
    have start : state.openLo ≤ openLo.getD past := by
      rw [spanLo, batch.openLo_eq]
      split
      · have first := gridStart_le config.spanBlocks state.next
        rw [Option.getD_none]
        omega
      · exact gridStart_mono batch.positive batch.later.le
    have listed : span ∈ (spans.foldl (stageSpan past) ⟨ledger.spans, ledger.stage, none⟩).spans := member
    rw [closed] at listed
    rcases mem_append.mp listed with old | new
    · rcases batch.placed span old with under | beyond
      · exact .inl (under.trans start)
      · exact .inr beyond
    · left
      obtain ⟨source, found, rfl⟩ := mem_map.mp new
      obtain ⟨sourceMember, done⟩ := mem_filter.mp found
      rw [decide_eq_true_eq] at done
      show source.hi ≤ openLo.getD past
      rw [spanLo]
      split
      · exact done
      · next unaligned =>
        rw [not_or] at unaligned
        obtain ⟨open', openMember, partly⟩ := batch.exists_open unaligned.1 unaligned.2
        rw [Option.getD_some, ← (batch.span_open openMember partly).1]
        exact batch.completed_below sourceMember done openMember partly

theorem NextBatch.totals_count (counter : LedgerCounter) :
    (batchTotals spans).count counter = tally counter.counts anywhere items := by
  have apart : Apart ((spans.map fun span => (⟨span.lo, span.hi, span.totals.count⟩ : Span LedgerCounter)).map
      Span.bounds) := by
    rw [map_map, Apart, pairwise_map]
    exact batch.pairwise_apart (List.Sublist.refl _)
  have exact : ∀ span ∈ spans.map fun span => (⟨span.lo, span.hi, span.totals.count⟩ : Span LedgerCounter),
      ∀ counter, span.count counter =
        tally (LedgerCounter.counts counter) (within span.bounds) items := by
    intro span listed counter
    obtain ⟨source, member, rfl⟩ := mem_map.mp listed
    have whole := batch.stagedTotals_count member counter
    rw [stagedTotals, count_add, batch.stage_count member, tally_append _ _ (storeItems ledger.store ++ gone)] at whole
    push_cast at whole
    exact (add_left_cancel whole)
  have sum := recorded_eq apart exact counter
  rw [recorded, map_map] at sum
  rw [batchTotals, count_foldl_add]
  refine sum.trans (congrArg Nat.cast (tally_congr _ ?_))
  intro item member
  have bound := batch.batched.items item member
  obtain ⟨span, listed, _, _, low, high⟩ := batch.span_at bound.1 bound.2
  exact covered_iff.mpr ⟨_, mem_map_of_mem listed, low, high⟩

end NextBatch

/-! ## The step -/

theorem lowerTokenCreation_counts (seen : AList fun _ : String => TokenSeen) (tokens : List TokenRow) :
    ∀ row ∈ lowerTokenCreation seen tokens, ∃ old ∈ tokens, old.address = row.address ∧
      old.transferCount = row.transferCount := by
  intro row member
  obtain ⟨old, found, rfl⟩ := mem_map.mp member
  refine ⟨old, found, ?_⟩
  split
  · exact ⟨rfl, rfl⟩
  · split <;> exact ⟨rfl, rfl⟩

theorem backfillStep_ok {config : LedgerConfig} {ledger : Ledger}
    (done : ledger.backfillStep config block rest = some next) :
    ∃ state batch store, ledger.backfill = some state ∧ 0 < config.spanBlocks ∧
      backfillBatch config.spanBlocks state.target state.next (block :: rest) = .ok batch ∧
      (batch.past : Int) - 1 ≤ state.target ∧
      writeSharedRowsFrom (ledger.tokenCounted ledger.store.tokenTransfers)
        { data := batch.shared, blocks := (batchTotals batch.spans).blocks,
          txs := (batchTotals batch.spans).transactions, transfers := (batchTotals batch.spans).transfers,
          tokenDeltas := (batchTotals batch.spans).tokens, seedCountsOwnRows := false }
        { ledger.store with contracts := insertContracts batch.contracts ledger.store.contracts } = .ok store ∧
      next = { ledger.stageBatch state batch.past batch.spans with
        store := { store with tokens := lowerTokenCreation batch.tokenFirstSeen store.tokens } } := by
  unfold Ledger.backfillStep at done
  obtain ⟨state, running, done⟩ := Option.bind_eq_some_iff.mp done
  split at done
  · cases done
  · next positive =>
    obtain ⟨batch, built, done⟩ := Option.bind_eq_some_iff.mp done
    unfold Ledger.commitBackfillBatch at done
    obtain ⟨other, same, done⟩ := Option.bind_eq_some_iff.mp done
    rw [running] at same
    obtain rfl := Option.some.inj same
    split at done
    · cases done
    · next accepted =>
      obtain ⟨store, written, done⟩ := Option.bind_eq_some_iff.mp done
      rw [not_or, Int.not_lt] at accepted
      exact ⟨state, batch, store, running, Nat.pos_of_ne_zero positive, toOption_eq_some built, accepted.2,
        toOption_eq_some written, (Option.some.inj done).symm⟩

theorem Sound.backfillStep {config : LedgerConfig} {ledger : Ledger} {gone : List (Nat × CountedRow)}
    (sound : Sound config ledger gone) (done : ledger.backfillStep config block rest = some next) :
    ∃ counted, Sound config next (gone ++ counted) := by
  obtain ⟨state, batch, store, running, positive, built, bounded, written, rfl⟩ := backfillStep_ok done
  obtain ⟨_, past, batched⟩ := backfillBatch_batched built
  have later : state.next < batch.past := by
    rw [past, length_cons]
    omega
  rw [← past] at batched
  have step : NextBatch config ledger gone state batch.past (batchItems state.next (block :: rest)) batch.spans :=
    ⟨sound, running, positive, later, by omega, batched⟩
  generalize batchItems state.next (block :: rest) = items at step
  obtain ⟨sameBlocks, sameTransactions, sameTransfers, blockTotal, transactionTotal, transferTotal⟩ :=
    writeSharedRowsFrom_ok written
  have kept : storeItems store = storeItems ledger.store := by
    rw [storeItems, sameBlocks, sameTransactions, sameTransfers]
    rfl
  have before := (running_iff ledger (ledger.total gone)).mp sound.running
  have total (counter : LedgerCounter) :
      ({ ledger.stageBatch state batch.past batch.spans with
        store := { store with tokens := lowerTokenCreation batch.tokenFirstSeen store.tokens } } : Ledger).total
          (gone ++ items) counter = ledger.total gone counter + (batchTotals batch.spans).count counter := by
    have items' : storeItems { store with tokens := lowerTokenCreation batch.tokenFirstSeen store.tokens } =
        storeItems ledger.store := kept
    rw [step.totals_count, Ledger.total, Ledger.total, items', ← append_assoc,
      tally_append _ _ (storeItems ledger.store ++ gone)]
    push_cast
    rfl
  have seedTotal (token : String) : (ledger.tokenCounted ledger.store.tokenTransfers token).1 =
      ledger.total gone (.token token) := by
    rw [tokenCounted_fst ledger ledger.store]
    exact retained_eq sound.balanced _
  refine ⟨items, ?_, ?_, ?_, ?_, sound.detached, ?_⟩
  · have balanced := step.balanced
    have books : ({ ledger.stageBatch state batch.past batch.spans with
        store := { store with tokens := lowerTokenCreation batch.tokenFirstSeen store.tokens } } : Ledger).books
          (gone ++ items) = (ledger.stageBatch state batch.past batch.spans).books (gone ++ items) := by
      unfold Ledger.books
      exact congrArg (fun kept => ({ (ledger.stageBatch state batch.past batch.spans).books (gone ++ items) with
        kept := kept } : Books CountedRow LedgerCounter)) kept
    rw [books]
    exact balanced
  · refine (running_iff _ _).mpr ⟨?_, ?_, ?_, ?_⟩
    · rw [total, ← before.1]
      exact blockTotal
    · rw [total, ← before.2.1]
      exact transactionTotal
    · rw [total, ← before.2.2.1]
      exact transferTotal
    · intro row member
      obtain ⟨written', found, address, count⟩ := lowerTokenCreation_counts _ _ row member
      rw [total, ← address, ← count]
      refine writeSharedRowsFrom_transferCount written (fun token =>
        ledger.total gone (.token token) + (batchTotals batch.spans).count (.token token)) ?_ ?_ written' found
      · intro token
        rw [if_neg Bool.false_ne_true, seedTotal]
        rfl
      · intro old oldMember
        rw [before.2.2.2 old oldMember]
        rfl
  · show (store.blocks.map (·.number)).Nodup
    rw [sameBlocks]
    exact sound.numbers
  · intro item member
    have listed : item ∈ storeItems store := member
    rw [kept] at listed
    exact sound.first item listed
  · intro other found
    obtain rfl := Option.some.inj found
    have placed := step.next_placed
    exact ⟨placed.started, placed.bounded, placed.pruned, placed.spanLo, placed.stage, placed.placed⟩

end OpsIndexer.Db
