import OpsIndexer.Db.LedgerSteps

/-!
# Closing, pruning and compacting keep the ledger sound

A closed span records the rows it covers, the watermark moves to the end of a closed span, a dropped range leaves rows
that a pruned span recorded, and compaction sums spans that fill the range it writes.
-/

namespace OpsIndexer.Db

open Eth OpsIndexer.Types Lib.Table Lib.Tally Lib.Recount List

variable {config : LedgerConfig} {ledger next : Ledger} {gone : List (Nat × CountedRow)}

theorem Ledger.stagedSpan_congr {first second : Ledger} (backfill : first.backfill = second.backfill)
    (staged : first.staged = second.staged) : first.stagedSpan = second.stagedSpan := by
  unfold Ledger.stagedSpan
  rw [backfill, staged]

variable {lo hi historyFrom n : Nat} {missing : List (Nat × Nat)} {spans : List LedgerSpan}

theorem BackfillPlaced.spanLo_le {state : StatsBackfill} (placed : BackfillPlaced config ledger state)
    (running : state.spanLo = some lo) : lo ≤ state.target ∧ lo ≤ state.next := by
  have bound := placed.bounded
  rw [placed.spanLo] at running
  split at running
  · cases running
  · next inside =>
    simp only [Option.some.injEq] at running
    omega

/-! ## Closing -/

theorem ledgerCloseSpan_ok (done : ledger.ledgerCloseSpan lo hi missing = some next) :
    lo < hi ∧ next = { ledger with
      spans := ledger.spans ++ [⟨lo, hi, .rows, .unchecked, ledgerStageFromRows ledger.store lo hi⟩]
      stage := ledger.stage.erase lo } := by
  unfold Ledger.ledgerCloseSpan at done
  split at done
  · next here =>
    split at done
    · cases done
    · split_ifs at done
      exact ⟨here.2, (Option.some.inj done).symm⟩
  · cases done

theorem Sound.closeSpan (sound : Sound config ledger gone) {bounds : List Nat}
    (done : ledger.ledgerCloseSpan (ledger.ledgerNextSpan config bounds).1
      (ledger.ledgerNextSpan config bounds).2 missing = some next) : Sound config next gone := by
  generalize upper : (ledger.ledgerNextSpan config bounds).2 = hi at done
  have start : (ledger.ledgerNextSpan config bounds).1 =
      max (ledger.lastHi.getD config.firstBlock) ledger.historyFrom := rfl
  generalize (ledger.ledgerNextSpan config bounds).1 = lo at done start
  obtain ⟨wide, form⟩ := ledgerCloseSpan_ok done
  have above : ledger.historyFrom ≤ lo := by omega
  have past : ledger.closedThrough ≤ lo := by
    unfold Ledger.closedThrough
    cases last : ledger.lastHi with
    | none => simp
    | some hi =>
      rw [last] at start
      simp only [Option.getD_some] at start ⊢
      omega
  have staged : next.staged = ledger.staged := by
    rw [form]
    unfold Ledger.staged Ledger.openSpan
    cases running : ledger.backfill with
    | none => rfl
    | some state =>
      cases spanLo : state.spanLo with
      | none => simp [spanLo]
      | some other =>
        have placed := sound.backfill state running
        have low := (placed.spanLo_le spanLo).1
        have pruned := placed.pruned
        have apart : other ≠ lo := by omega
        simp [spanLo, AList.lookup_erase_ne apart]
  have stagedSpan : next.stagedSpan = ledger.stagedSpan := Ledger.stagedSpan_congr (by rw [form]) staged
  have books : next.books gone = { ledger.books gone with
      spans := (ledger.books gone).spans ++ [⟨lo, hi, (ledgerStageFromRows ledger.store lo hi).count⟩] } := by
    unfold Ledger.books
    rw [stagedSpan, form]
    simp only [map_append]
    rfl
  have balanced : Balanced LedgerCounter.counts (next.books gone) := by
    rw [books]
    refine sound.balanced.close ⟨lo, hi, _⟩ wide (ledger.closedThrough_eq ▸ past) above ?_ fun counter =>
      ledgerStageFromRows_count ledger.store lo hi counter
    intro item member
    rcases sound.balanced.kept item member with inside | beyond
    · exact .inl inside
    · have first := sound.first item member
      have ends : Lib.Recount.closedThrough (ledger.books gone).spans ≤ item.1 := beyond.1
      have floor : ledger.historyFrom ≤ item.1 := beyond.2
      rw [Ledger.books, ← ledger.closedThrough_eq, Ledger.closedThrough] at ends
      right
      show lo ≤ item.1
      cases last : ledger.lastHi with
      | none =>
        rw [last, Option.getD_none] at start
        omega
      | some hi =>
        rw [last, Option.getD_some] at start ends
        omega
  subst form
  refine ⟨balanced, sound.running, sound.numbers, sound.first, sound.detached, ?_⟩
  intro state running
  have placed := sound.backfill state running
  refine ⟨placed.started, placed.bounded, placed.pruned, placed.spanLo, ?_, ?_⟩
  · intro key found
    apply placed.stage
    by_cases same : key = lo
    · rw [same] at found
      simp [AList.lookup_erase] at found
    · simpa [AList.lookup_erase_ne same] using found
  · intro unfinished span member
    rcases mem_append.mp member with old | new
    · exact placed.placed unfinished span old
    · right
      rw [mem_singleton.mp new]
      exact placed.pruned.trans_le above

/-! ## Pruning -/

/-- `pruned_through` of zero says that nothing is pruned, so a range that ends at block 1 does not move the watermark
past it. -/
def FloorMoves (ledger : Ledger) (hi : Nat) : Prop :=
  hi ≠ 1 ∨ ledger.prunedThrough ≠ 0

theorem Sound.pruneAdvance (sound : Sound config ledger gone) (done : ledger.pruneAdvance lo hi = some next)
    (moves : FloorMoves ledger hi) : Sound config next gone := by
  unfold Ledger.pruneAdvance at done
  split at done
  · next found =>
    obtain ⟨span, member, ends⟩ := any_eq_true.mp found
    rw [decide_eq_true_eq] at ends
    have wide : span.lo < span.hi := sound.balanced.wide span.recorded (mem_map_of_mem member)
    simp only [Option.some.injEq] at done
    have floor : next.historyFrom = max ledger.historyFrom hi := by
      rw [← done]
      unfold FloorMoves at moves
      simp only [Ledger.historyFrom, Db.historyFrom]
      split_ifs <;> omega
    have books : next.books gone = { ledger.books gone with floor := next.historyFrom } := by
      rw [← done]
      rfl
    subst done
    refine ⟨?_, sound.running, sound.numbers, sound.first, ?_, ?_⟩
    · rw [books, floor]
      rcases Nat.le_total ledger.historyFrom hi with up | still
      · have raised := sound.balanced.raise (mem_map_of_mem member) (ends ▸ up : ledger.historyFrom ≤ span.hi)
        rw [Nat.max_eq_right up]
        exact ends ▸ raised
      · rw [Nat.max_eq_left still]
        exact sound.balanced
    · intro range listed
      rw [floor]
      rcases mem_append.mp listed with old | new
      · exact (sound.detached range old).trans (Nat.le_max_left _ _)
      · rw [mem_singleton.mp new]
        exact Nat.le_max_right _ _
    · intro state running
      have placed := sound.backfill state running
      refine ⟨placed.started, placed.bounded, ?_, placed.spanLo, placed.stage, placed.placed⟩
      rw [floor]
      exact placed.pruned.trans_le (Nat.le_max_left _ _)
  · cases done

theorem Sound.dropRange (sound : Sound config ledger gone) (done : ledger.dropRange lo hi = some next) :
    ∃ dropped, Sound config next (gone ++ dropped) := by
  unfold Ledger.dropRange at done
  split at done
  · next marked =>
    cases done
    have moved := rowItems_filter (fun position => !inSpan lo hi position) ledger.store.blocks
      ledger.store.transactions ledger.store.tokenTransfers
    simp only [Bool.not_not] at moved
    generalize droppedItems : rowItems (ledger.store.blocks.filter fun row => inSpan lo hi row.number)
      (ledger.store.transactions.filter fun row => inSpan lo hi row.blockNumber)
      (ledger.store.tokenTransfers.filter fun row => inSpan lo hi row.blockNumber) = dropped at moved
    have low : ∀ item ∈ dropped, item.1 < ledger.historyFrom := by
      have floor : hi ≤ ledger.historyFrom := sound.detached (lo, hi) marked
      rw [← droppedItems]
      apply mem_rowItems (· < ledger.historyFrom) <;>
        · intro row member
          have inside := (mem_filter.mp member).2
          simp only [inSpan, Bool.and_eq_true, decide_eq_true_eq] at inside
          omega
    have kept : (storeItems ledger.store).Perm (storeItems (dropRows ledger.store lo hi) ++ dropped) := moved
    refine ⟨dropped, sound.balanced.forget kept low, ?_, ?_, ?_, sound.detached, ?_⟩
    · intro entry member
      have same : ({ ledger with store := dropRows ledger.store lo hi } : Ledger).total (gone ++ dropped) entry.1 =
          ledger.total gone entry.1 := by
        rw [Ledger.total, Ledger.total, tally_append, tally_append, tally_append, tally_perm _ _ kept, tally_append]
        push_cast
        omega
      rw [same]
      exact sound.running entry member
    · exact sound.numbers.sublist (List.Sublist.map _ filter_sublist)
    · intro item member
      exact sound.first item (kept.mem_iff.mpr (mem_append_left _ member))
    · intro state running
      have placed := sound.backfill state running
      exact ⟨placed.started, placed.bounded, placed.pruned, placed.spanLo, placed.stage, placed.placed⟩
  · cases done

/-! ## Compaction -/

/-- A run that qualifies: consecutive spans, in block order, all below the watermark, that leave no gap. -/
theorem compactRun_some (found : compactRun historyFrom n spans = some (lo, hi)) :
    ∃ before window after first last, spans = before ++ window ++ after ∧ window.head? = some first ∧
      window.getLast? = some last ∧ first.lo = lo ∧ last.hi = hi ∧ (∀ span ∈ window, span.hi ≤ historyFrom) ∧
      (hi : Int) - lo = (window.map fun span => (span.hi : Int) - span.lo).sum := by
  induction spans with
  | nil => cases found
  | cons span rest ih =>
    rw [compactRun] at found
    cases ends : ((span :: rest).take n).getLast? with
    | none =>
      simp only [ends] at found
      cases found
    | some last =>
      simp only [ends] at found
      split at found
      · next qualifies =>
        simp only [Option.some.injEq, Prod.mk.injEq] at found
        obtain ⟨rfl, rfl⟩ := found
        have starts : ((span :: rest).take n).head? = some span := by
          cases n with
          | zero => simp at ends
          | succ n => rfl
        refine ⟨[], (span :: rest).take n, (span :: rest).drop n, span, last, ?_, starts, ends, rfl, rfl, ?_,
          qualifies.2.2⟩
        · rw [nil_append, take_append_drop]
        · intro other member
          have mergeable := all_eq_true.mp qualifies.1 other member
          simp only [LedgerSpan.mergeable, Bool.and_eq_true, decide_eq_true_eq] at mergeable
          exact mergeable.2
      · obtain ⟨before, window, after, first, last, split, facts⟩ := ih found
        exact ⟨span :: before, window, after, first, last, by rw [split]; rfl, facts⟩

theorem compactRun_covers (wide : ∀ span ∈ spans.map LedgerSpan.recorded, span.lo < span.hi)
    (apart : Apart ((spans.map LedgerSpan.recorded).map Span.bounds))
    (found : compactRun historyFrom n (spans.insertionSort fun first second => first.lo ≤ second.lo) = some (lo, hi)) :
    (∃ first ∈ spans, ∃ last ∈ spans, first.lo = lo ∧ last.hi = hi ∧ last.hi ≤ historyFrom) ∧ lo < hi ∧
      ∀ position, covered ((spans.map LedgerSpan.recorded).filter (startIn lo hi)) position =
        within (lo, hi) position := by
  obtain ⟨before, window, after, first, last, split, starts, ends, rfl, rfl, pruned, filled⟩ := compactRun_some found
  have perm := perm_insertionSort (fun first second : LedgerSpan => first.lo ≤ second.lo) spans
  have total : Std.Total fun first second : LedgerSpan => first.lo ≤ second.lo :=
    ⟨fun first second => Nat.le_total first.lo second.lo⟩
  have trans : IsTrans LedgerSpan fun first second => first.lo ≤ second.lo :=
    ⟨fun _ _ _ => Nat.le_trans⟩
  have ascending := pairwise_insertionSort (fun first second : LedgerSpan => first.lo ≤ second.lo) spans
  have member (span : LedgerSpan) (inside : span ∈ window) : span ∈ spans := by
    apply perm.mem_iff.mp
    rw [split]
    exact mem_append_left _ (mem_append_right _ inside)
  have firstMember := mem_of_head? starts
  have lastMember := mem_of_getLast? ends
  have width (span : LedgerSpan) (inside : span ∈ spans) : span.lo < span.hi :=
    wide span.recorded (mem_map_of_mem inside)
  refine ⟨⟨first, member first firstMember, last, member last lastMember, rfl, rfl, pruned last lastMember⟩, ?_, ?_⟩
  · obtain ⟨rest, rfl⟩ : ∃ rest, window = first :: rest := by
      cases window with
      | nil => cases starts
      | cons head rest => exact ⟨rest, by rw [Option.some.inj starts]⟩
    have own := width first (member first firstMember)
    have others : 0 ≤ (rest.map fun span => (span.hi : Int) - span.lo).sum := by
      apply sum_nonneg
      intro wideness listed
      obtain ⟨span, inside, rfl⟩ := mem_map.mp listed
      have spanWide := width span (member span (mem_cons_of_mem _ inside))
      omega
    rw [map_cons, sum_cons] at filled
    omega
  · intro position
    apply covered_run wide apart (perm.map LedgerSpan.recorded) (pairwise_map.mpr ascending)
      (by rw [split, map_append, map_append])
      (by rw [List.head?_map, starts]; rfl) (by rw [List.getLast?_map, ends]; rfl)
    rw [filled, map_map]
    rfl

theorem Sound.ledgerCompact (sound : Sound config ledger gone) (n : Int) :
    Sound config (ledger.ledgerCompact n) gone := by
  unfold Ledger.ledgerCompact
  split_ifs
  · exact sound
  · split
    · exact sound
    · next lo hi found =>
      obtain ⟨⟨first, firstMember, last, lastMember, rfl, rfl, pruned⟩, wideRun, full⟩ :=
        compactRun_covers sound.balanced.wide sound.balanced.apart found
      have wide (span : LedgerSpan) (inside : span ∈ ledger.spans) : span.lo < span.hi :=
        sound.balanced.wide span.recorded (mem_map_of_mem inside)
      have kept : (ledger.spans.filter fun span => !inSpan first.lo last.hi span.lo).map LedgerSpan.recorded =
          (ledger.spans.map LedgerSpan.recorded).filter fun span => !startIn first.lo last.hi span := by
        rw [filter_map]
        rfl
      have taken : (ledger.spans.filter fun span => inSpan first.lo last.hi span.lo).map LedgerSpan.recorded =
          (ledger.spans.map LedgerSpan.recorded).filter (startIn first.lo last.hi) := by
        rw [filter_map]
        rfl
      have balanced := sound.balanced.merge
        ⟨first.lo, last.hi, (mergedRows (ledger.spans.filter fun span => inSpan first.lo last.hi span.lo)).count⟩
        wideRun pruned full (by
          intro counter
          refine (count_foldl_add LedgerSpan.rows _ counter).trans ?_
          have sums := ledgerSum_eq (ledger.spans.filter fun span => inSpan first.lo last.hi span.lo) counter
          rw [taken] at sums
          exact sums)
      refine ⟨?_, sound.running, sound.numbers, sound.first, sound.detached, ?_⟩
      · have books : (ledger.spans.filter fun span => !inSpan first.lo last.hi span.lo).map LedgerSpan.recorded ++
            [(⟨first.lo, last.hi, .merged, .unchecked, mergedRows (ledger.spans.filter fun span =>
              inSpan first.lo last.hi span.lo)⟩ : LedgerSpan)].map LedgerSpan.recorded =
            ((ledger.books gone).spans.filter fun span => !startIn first.lo last.hi span) ++
              [⟨first.lo, last.hi, (mergedRows (ledger.spans.filter fun span =>
                inSpan first.lo last.hi span.lo)).count⟩] := by
          rw [kept]
          rfl
        unfold Ledger.books
        simp only [map_append]
        rw [books]
        exact balanced
      · intro state running
        have placed := sound.backfill state running
        refine ⟨placed.started, placed.bounded, placed.pruned, placed.spanLo, placed.stage, ?_⟩
        intro unfinished span listed
        rcases mem_append.mp listed with old | new
        · exact placed.placed unfinished span (mem_of_mem_filter old)
        · rw [mem_singleton.mp new]
          show last.hi ≤ state.openLo ∨ state.target < first.lo
          rcases placed.placed unfinished last lastMember with below | above
          · exact .inl below
          · right
            rcases placed.placed unfinished first firstMember with early | late
            · -- The run would have to cover the block the backfill comes to next.
              have firstWide := wide first firstMember
              have lastWide := wide last lastMember
              have inside := full state.openLo
              rw [within_iff.mpr ⟨show first.lo ≤ state.openLo by omega, show state.openLo < last.hi by omega⟩]
                at inside
              obtain ⟨other, otherListed, low, high⟩ := covered_iff.mp inside
              obtain ⟨source, sourceMember, rfl⟩ := mem_map.mp (mem_of_mem_filter otherListed)
              have lowSource : source.lo ≤ state.openLo := low
              have highSource : state.openLo < source.hi := high
              rcases placed.placed unfinished source sourceMember with under | beyond <;> omega
            · exact late

theorem Sound.markChecked (sound : Sound config ledger gone) (lo : Nat) (state : CheckState) :
    Sound config (ledger.markChecked lo state) gone := by
  have spans : (ledger.markChecked lo state).spans.map LedgerSpan.recorded =
      ledger.spans.map LedgerSpan.recorded := by
    unfold Ledger.markChecked
    rw [map_map]
    apply map_congr_left
    intro span _
    simp only [Function.comp_apply]
    split <;> rfl
  have books : (ledger.markChecked lo state).books gone = ledger.books gone := by
    unfold Ledger.books
    rw [spans]
    rfl
  refine ⟨books ▸ sound.balanced, sound.running, sound.numbers, sound.first, sound.detached, ?_⟩
  intro backfill running
  have placed := sound.backfill backfill running
  refine ⟨placed.started, placed.bounded, placed.pruned, placed.spanLo, placed.stage, ?_⟩
  intro unfinished span listed
  obtain ⟨source, member, rfl⟩ := mem_map.mp listed
  have bound := placed.placed unfinished source member
  split <;> exact bound

end OpsIndexer.Db
