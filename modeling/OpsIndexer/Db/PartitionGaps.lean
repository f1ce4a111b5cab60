import OpsIndexer.Db.PartitionSteps

/-!
# What a gap fill creates

The pieces `fillHistoryGaps` takes from its snapshot: they lie between the ranges, in order, and with the ranges they
cover everything from the watermark to the highest range.
-/

namespace OpsIndexer.Db

open List

def InOrder (pieces : List (Nat × Nat)) : Prop :=
  pieces.Pairwise fun first second => first.2 ≤ second.1

def Between (ranges : List HistoryRange) (piece : Nat × Nat) : Prop :=
  ∀ range ∈ ranges, ∀ number, piece.1 ≤ number → number < piece.2 → ¬range.holds number

def Sized (ranges : List HistoryRange) : Prop :=
  ∀ range ∈ ranges, ∀ lo ∈ range.lo, ∀ hi ∈ range.hi, lo < hi

variable {range : HistoryRange} {lo covered number size fuel : Nat} {ranges : List HistoryRange}
  {gaps : List (Nat × Nat)} {gap : Nat × Nat} {history : History}

theorem overlaps_iff (sized : ∀ lo ∈ range.lo, ∀ hi ∈ range.hi, lo < hi) {hi : Nat} (proper : lo < hi) :
    range.overlaps lo hi = true ↔ ∃ number, lo ≤ number ∧ number < hi ∧ range.holds number := by
  obtain ⟨low, high, state, tables⟩ := range
  simp only [HistoryRange.overlaps, HistoryRange.holds, Bool.and_eq_true, decide_eq_true_eq] at sized ⊢
  apply Iff.intro
  · intro meets
    refine ⟨max lo (low.getD lo), le_max_left _ _, max_lt proper meets.1, ?_, ?_⟩
    · intro bound is
      rw [Option.mem_def] at is
      simp [is]
    · intro bound is
      rw [Option.mem_def] at is
      rw [is] at meets sized
      cases low with
      | none => simpa using meets.2
      | some low => exact max_lt meets.2 (sized low rfl bound rfl)
  · rintro ⟨number, above, below, from_, to_⟩
    apply And.intro
    · cases low with
      | none => exact proper
      | some low => exact (from_ low rfl).trans_lt below
    · cases high with
      | none => exact proper
      | some high => exact above.trans_lt (to_ high rfl)

/-! ## The gaps -/

theorem gapsFrom_bounded (bounded : ∀ range ∈ ranges, range.hi ≠ none) (covered : Nat) :
    ∃ gaps, gapsFrom covered ranges = some gaps := by
  induction ranges generalizing covered with
  | nil => exact ⟨[], rfl⟩
  | cons range rest ih =>
    obtain ⟨hi, high⟩ := Option.ne_none_iff_exists'.mp (bounded range mem_cons_self)
    obtain ⟨gaps, found⟩ := ih (fun other member => bounded other (mem_cons_of_mem _ member)) (max covered hi)
    exact ⟨_, by rw [gapsFrom, high, Option.bind_some, found, Option.map_some]⟩

theorem gapsFrom_cons {rest : List HistoryRange} (found : gapsFrom covered (range :: rest) = some gaps) :
    ∃ hi later, range.hi = some hi ∧ gapsFrom (max covered hi) rest = some later ∧
      (gaps = later ∧ (∀ lo ∈ range.lo, lo ≤ covered) ∨
        ∃ lo, range.lo = some lo ∧ covered < lo ∧ gaps = (covered, lo) :: later) := by
  rw [gapsFrom, Option.bind_eq_some_iff] at found
  obtain ⟨hi, high, found⟩ := found
  obtain ⟨later, rest, rfl⟩ := Option.map_eq_some_iff.mp found
  refine ⟨hi, later, high, rest, ?_⟩
  cases low : range.lo with
  | none => exact .inl ⟨rfl, by simp⟩
  | some lo =>
    dsimp only
    split
    · rename_i before
      exact .inr ⟨lo, rfl, before, rfl⟩
    · rename_i inside
      exact .inl ⟨rfl, by simpa using inside⟩

theorem gapsFrom_between (found : gapsFrom covered ranges = some gaps)
    (sorted : ranges.Pairwise fun first second => first.order ≤ second.order) :
    ∀ gap ∈ gaps, covered ≤ gap.1 ∧ gap.1 < gap.2 ∧ Between ranges gap := by
  induction ranges generalizing covered gaps with
  | nil =>
    cases found
    simp
  | cons range rest ih =>
    obtain ⟨hi, later, high, after, gaps⟩ := gapsFrom_cons found
    have sortedRest := pairwise_cons.mp sorted
    have inner : ∀ gap ∈ later, covered ≤ gap.1 ∧ gap.1 < gap.2 ∧ Between (range :: rest) gap := by
      intro gap member
      obtain ⟨from_, proper, apart⟩ := ih after sortedRest.2 gap member
      refine ⟨(le_max_left _ _).trans from_, proper, ?_⟩
      intro other listed number above below held
      rcases mem_cons.mp listed with same | old
      · have bound := held.2 hi (same ▸ high)
        have := (le_max_right covered hi).trans from_
        omega
      · exact apart other old number above below held
    rcases gaps with none | one
    · exact none.1 ▸ inner
    · obtain ⟨lo, low, before, rfl⟩ := one
      intro gap member
      rcases mem_cons.mp member with new | old
      · subst new
        refine ⟨le_rfl, before, ?_⟩
        intro other listed number above below held
        -- the range itself and, by the order, every later one start at or above the gap's end
        have starts : ∃ low, other.lo = some low ∧ lo ≤ low := by
          rcases mem_cons.mp listed with same | old
          · exact ⟨lo, same ▸ low, le_rfl⟩
          · have order := sortedRest.1 other old
            simp only [HistoryRange.order, low, Option.map_some, Option.getD_some] at order
            cases known : other.lo with
            | none =>
              simp only [known, Option.map_none, Option.getD_none, Int.ofNat_eq_natCast] at order
              omega
            | some low =>
              simp only [known, Option.map_some, Option.getD_some, Int.ofNat_eq_natCast] at order
              exact ⟨low, rfl, by omega⟩
        obtain ⟨low, known, higher⟩ := starts
        have := held.1 low known
        dsimp only at below
        omega
      · exact inner gap old

theorem gapsFrom_under (found : gapsFrom covered ranges = some gaps) :
    ∀ gap ∈ gaps, ∃ range ∈ ranges, range.lo = some gap.2 := by
  induction ranges generalizing covered gaps with
  | nil =>
    cases found
    simp
  | cons range rest ih =>
    obtain ⟨hi, later, _, after, gaps⟩ := gapsFrom_cons found
    have inner : ∀ gap ∈ later, ∃ other ∈ range :: rest, other.lo = some gap.2 := by
      intro gap member
      obtain ⟨other, listed, low⟩ := ih after gap member
      exact ⟨other, mem_cons_of_mem _ listed, low⟩
    rcases gaps with none | ⟨lo, low, _, rfl⟩
    · exact none.1 ▸ inner
    · intro gap member
      rcases mem_cons.mp member with new | old
      · exact ⟨range, mem_cons_self, new ▸ low⟩
      · exact inner gap old

theorem gapsFrom_inOrder (found : gapsFrom covered ranges = some gaps)
    (sorted : ranges.Pairwise fun first second => first.order ≤ second.order) (sized : Sized ranges) :
    InOrder gaps := by
  induction ranges generalizing covered gaps with
  | nil =>
    cases found
    exact List.Pairwise.nil
  | cons range rest ih =>
    obtain ⟨hi, later, high, after, gaps⟩ := gapsFrom_cons found
    have sortedRest := (pairwise_cons.mp sorted).2
    have inner := ih after sortedRest fun other member => sized other (mem_cons_of_mem _ member)
    rcases gaps with none | ⟨lo, low, before, rfl⟩
    · exact none.1 ▸ inner
    · refine pairwise_cons.mpr ⟨?_, inner⟩
      intro gap member
      have start := (gapsFrom_between after sortedRest gap member).1
      have width := sized range mem_cons_self lo low hi high
      have := le_max_right covered hi
      dsimp only
      omega

theorem gapsFrom_covers (found : gapsFrom covered ranges = some gaps) (from_ : covered ≤ number)
    (below : ∃ range ∈ ranges, ∃ hi ∈ range.hi, number < hi) :
    (∃ range ∈ ranges, range.holds number) ∨ ∃ gap ∈ gaps, gap.1 ≤ number ∧ number < gap.2 := by
  induction ranges generalizing covered gaps with
  | nil => simp at below
  | cons range rest ih =>
    obtain ⟨hi, later, high, after, gaps⟩ := gapsFrom_cons found
    by_cases before : ∃ lo ∈ range.lo, number < lo
    · obtain ⟨lo, low, less⟩ := before
      rcases gaps with none | ⟨lo', low', _, rfl⟩
      · have := none.2 lo low
        omega
      · obtain rfl : lo' = lo := Option.some.inj (low'.symm.trans low)
        exact .inr ⟨_, mem_cons_self, from_, less⟩
    · push Not at before
      by_cases inside : number < hi
      · refine .inl ⟨range, mem_cons_self, before, ?_⟩
        intro bound is
        rw [high, Option.mem_def, Option.some.injEq] at is
        exact is ▸ inside
      · have higher : ∃ other ∈ rest, ∃ hi ∈ other.hi, number < hi := by
          obtain ⟨other, listed, bound, is, less⟩ := below
          rcases mem_cons.mp listed with same | old
          · rw [same, high, Option.mem_def, Option.some.injEq] at is
            omega
          · exact ⟨other, old, bound, is, less⟩
        cases ih after (max_le from_ (Nat.le_of_not_lt inside)) higher with
        | inl held =>
          obtain ⟨other, listed, holds⟩ := held
          exact .inl ⟨other, mem_cons_of_mem _ listed, holds⟩
        | inr missed =>
          obtain ⟨gap, member, bounds⟩ := missed
          refine .inr ⟨gap, ?_, bounds⟩
          rcases gaps with none | ⟨lo, _, _, rfl⟩
          · exact none.1 ▸ member
          · exact mem_cons_of_mem _ member

/-! ## Their pieces -/

theorem gapPieces_cons (size : Nat) (positive : 0 < size) (gap : Nat × Nat) (fuel : Nat) (inside : lo < gap.2) :
    ∃ hi, lo < hi ∧ hi ≤ gap.2 ∧ gapPieces size gap (fuel + 1) lo = (lo, hi) :: gapPieces size gap fuel hi := by
  rw [gapPieces, if_pos inside]
  dsimp only
  split
  · rename_i first
    have rest := Nat.mod_le (gap.2 - gap.1) size
    exact ⟨_, by omega, by omega, rfl⟩
  · exact ⟨_, by omega, min_le_right _ _, rfl⟩

theorem mem_gapPieces (positive : 0 < size) {piece : Nat × Nat} (member : piece ∈ gapPieces size gap fuel lo) :
    lo ≤ piece.1 ∧ piece.1 < piece.2 ∧ piece.2 ≤ gap.2 := by
  induction fuel generalizing lo with
  | zero => cases member
  | succ fuel ih =>
    by_cases inside : lo < gap.2
    · obtain ⟨hi, proper, bound, turn⟩ := gapPieces_cons size positive gap fuel inside
      rw [turn] at member
      rcases mem_cons.mp member with first | later
      · exact first ▸ ⟨le_rfl, proper, bound⟩
      · have next := ih later
        exact ⟨proper.le.trans next.1, next.2⟩
    · rw [gapPieces, if_neg inside] at member
      cases member

theorem gapPieces_inOrder (positive : 0 < size) (gap : Nat × Nat) (fuel lo : Nat) :
    InOrder (gapPieces size gap fuel lo) := by
  induction fuel generalizing lo with
  | zero => exact List.Pairwise.nil
  | succ fuel ih =>
    by_cases inside : lo < gap.2
    · obtain ⟨hi, _, _, turn⟩ := gapPieces_cons size positive gap fuel inside
      rw [turn]
      exact pairwise_cons.mpr ⟨fun piece later => (mem_gapPieces positive later).1, ih hi⟩
    · rw [gapPieces, if_neg inside]
      exact List.Pairwise.nil

theorem gapPieces_covers (positive : 0 < size) (enough : gap.2 ≤ lo + fuel) (above : lo ≤ number)
    (below : number < gap.2) :
    ∃ piece ∈ gapPieces size gap fuel lo, piece.1 ≤ number ∧ number < piece.2 := by
  induction fuel generalizing lo with
  | zero => omega
  | succ fuel ih =>
    obtain ⟨hi, proper, _, turn⟩ := gapPieces_cons size positive gap fuel (above.trans_lt below)
    rw [turn]
    by_cases first : number < hi
    · exact ⟨_, mem_cons_self, above, first⟩
    · obtain ⟨piece, later, bounds⟩ := ih (by omega) (Nat.le_of_not_lt first)
      exact ⟨piece, mem_cons_of_mem _ later, bounds⟩

/-! ## The snapshot -/

structure Fills (ranges : List HistoryRange) (from_ : Nat) (pieces : List (Nat × Nat)) : Prop where
  proper : ∀ piece ∈ pieces, from_ ≤ piece.1 ∧ piece.1 < piece.2
  between : ∀ piece ∈ pieces, Between ranges piece
  under : ∀ piece ∈ pieces, ∃ range ∈ ranges, ∃ hi ∈ range.hi, piece.2 ≤ hi
  inOrder : InOrder pieces
  covers : ∀ number, from_ ≤ number → (∃ range ∈ ranges, ∃ hi ∈ range.hi, number < hi) →
    (∃ range ∈ ranges, range.holds number) ∨ ∃ piece ∈ pieces, piece.1 ≤ number ∧ number < piece.2

theorem newestSize_pos (sized : Sized history.ranges) (found : history.newestSize = some size) : 0 < size := by
  obtain ⟨bounds, newest, rfl⟩ := Option.map_eq_some_iff.mp found
  obtain ⟨range, listed, named⟩ := mem_filterMap.mp (argmax_mem newest)
  obtain ⟨lo, low, rest⟩ := Option.bind_eq_some_iff.mp named
  obtain ⟨hi, high, rfl⟩ := Option.map_eq_some_iff.mp rest
  have := sized range listed lo low hi high
  dsimp only
  omega

/-- Without a partition of known size there is only the legacy range, which starts below every block. -/
theorem newestSize_none (bounded : ∀ range ∈ history.ranges, range.hi ≠ none) (absent : history.newestSize = none) :
    ∀ range ∈ history.ranges, range.lo = none := by
  have empty := argmax_eq_none.mp (Option.map_eq_none_iff.mp absent)
  intro range listed
  by_contra low
  obtain ⟨lo, low⟩ := Option.ne_none_iff_exists'.mp low
  obtain ⟨hi, high⟩ := Option.ne_none_iff_exists'.mp (bounded range listed)
  have named : (lo, hi) ∈ history.ranges.filterMap fun range =>
      range.lo.bind fun lo => range.hi.map fun hi => (lo, hi) :=
    mem_filterMap.mpr ⟨range, listed, by simp [low, high]⟩
  rw [empty] at named
  cases named

theorem inOrder_flatMap (ordered : InOrder gaps) {split : Nat × Nat → List (Nat × Nat)}
    (inside : ∀ gap ∈ gaps, ∀ piece ∈ split gap, gap.1 ≤ piece.1 ∧ piece.2 ≤ gap.2)
    (each : ∀ gap ∈ gaps, InOrder (split gap)) : InOrder (gaps.flatMap split) := by
  induction gaps with
  | nil => exact List.Pairwise.nil
  | cons gap rest ih =>
    have sorted := pairwise_cons.mp ordered
    rw [flatMap_cons]
    refine pairwise_append.mpr ⟨each gap mem_cons_self, ?_, ?_⟩
    · exact ih sorted.2 (fun other member => inside other (mem_cons_of_mem _ member))
        fun other member => each other (mem_cons_of_mem _ member)
    · intro first early second late
      obtain ⟨other, member, piece⟩ := mem_flatMap.mp late
      have before := (inside gap mem_cons_self first early).2
      have after := (inside other (mem_cons_of_mem _ member) second piece).1
      exact (before.trans (sorted.1 other member)).trans after

theorem fillHistoryGaps_fills (bounded : ∀ range ∈ history.ranges, range.hi ≠ none) (sized : Sized history.ranges) :
    Fills history.ranges history.historyFrom history.fillHistoryGaps := by
  unfold History.fillHistoryGaps
  cases newest : history.newestSize with
  | none =>
    have legacy := newestSize_none bounded newest
    refine ⟨by simp, by simp, by simp, List.Pairwise.nil, ?_⟩
    intro number _ below
    obtain ⟨range, listed, hi, high, less⟩ := below
    refine .inl ⟨range, listed, ?_, ?_⟩
    · simp [legacy range listed]
    · intro bound is
      exact Option.some.inj (is.symm.trans high) ▸ less
  | some size =>
    have positive := newestSize_pos sized newest
    dsimp only
    generalize sortedIs : history.ranges.insertionSort (fun first second => first.order ≤ second.order) = ranges
    have sorted : ranges.Pairwise fun first second => first.order ≤ second.order := by
      rw [← sortedIs]
      exact pairwise_insertionSort _ _
    have same (range : HistoryRange) : range ∈ ranges ↔ range ∈ history.ranges := by
      rw [← sortedIs]
      exact mem_insertionSort _
    have sizedSorted : Sized ranges := fun range member => sized range ((same range).mp member)
    obtain ⟨gaps, found⟩ := gapsFrom_bounded (fun range member => bounded range ((same range).mp member))
      history.historyFrom
    rw [found, Option.getD_some]
    have between := gapsFrom_between found sorted
    have inside : ∀ gap ∈ gaps, ∀ piece ∈ gapPieces size gap (gap.2 - gap.1) gap.1,
        gap.1 ≤ piece.1 ∧ piece.1 < piece.2 ∧ piece.2 ≤ gap.2 :=
      fun _ _ _ member => mem_gapPieces positive member
    refine ⟨?_, ?_, ?_, ?_, ?_⟩
    · intro piece member
      obtain ⟨gap, listed, taken⟩ := mem_flatMap.mp member
      have bounds := inside gap listed piece taken
      exact ⟨(between gap listed).1.trans bounds.1, bounds.2.1⟩
    · intro piece member range listed number above below
      obtain ⟨gap, known, taken⟩ := mem_flatMap.mp member
      have bounds := inside gap known piece taken
      exact (between gap known).2.2 range ((same range).mpr listed) number (bounds.1.trans above)
        (below.trans_le bounds.2.2)
    · intro piece member
      obtain ⟨gap, known, taken⟩ := mem_flatMap.mp member
      obtain ⟨range, listed, low⟩ := gapsFrom_under found gap known
      have member := (same range).mp listed
      obtain ⟨hi, high⟩ := Option.ne_none_iff_exists'.mp (bounded range member)
      have proper := sized range member gap.2 low hi high
      exact ⟨range, member, hi, high, (inside gap known piece taken).2.2.trans proper.le⟩
    · exact inOrder_flatMap (gapsFrom_inOrder found sorted sizedSorted)
        (fun gap listed piece taken => ⟨(inside gap listed piece taken).1, (inside gap listed piece taken).2.2⟩)
        fun gap _ => gapPieces_inOrder positive gap _ _
    · intro number above below
      have listed : ∃ range ∈ ranges, ∃ hi ∈ range.hi, number < hi := by
        obtain ⟨range, member, rest⟩ := below
        exact ⟨range, (same range).mpr member, rest⟩
      rcases gapsFrom_covers found above listed with ⟨range, member, holds⟩ | ⟨gap, member, low, high⟩
      · exact .inl ⟨range, (same range).mp member, holds⟩
      · obtain ⟨piece, taken, bounds⟩ := gapPieces_covers positive
          (show gap.2 ≤ gap.1 + (gap.2 - gap.1) by omega) low high
        exact .inr ⟨piece, mem_flatMap.mpr ⟨gap, member, taken⟩, bounds⟩

end OpsIndexer.Db
