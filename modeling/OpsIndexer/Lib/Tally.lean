import Mathlib

/-!
# Counts by position

Items at positions, counted by kind over a set of positions. Intervals that do not meet count what they cover.
-/

namespace OpsIndexer.Lib.Tally

open List

variable {κ : Type}

def tally (counts : κ → Bool) (inside : Nat → Bool) (items : List (Nat × κ)) : Nat :=
  items.countP fun item => inside item.1 && counts item.2

def anywhere (_ : Nat) : Bool :=
  true

def within (bounds : Nat × Nat) (position : Nat) : Bool :=
  bounds.1 ≤ position && position < bounds.2

def coveredBy (intervals : List (Nat × Nat)) (position : Nat) : Bool :=
  intervals.any fun bounds => within bounds position

def Apart (intervals : List (Nat × Nat)) : Prop :=
  intervals.Pairwise fun first second => first.2 ≤ second.1 ∨ second.2 ≤ first.1

variable {position : Nat} {intervals : List (Nat × Nat)}

theorem within_iff {bounds : Nat × Nat} :
    within bounds position = true ↔ bounds.1 ≤ position ∧ position < bounds.2 := by
  simp [within]

theorem coveredBy_iff :
    coveredBy intervals position = true ↔ ∃ bounds ∈ intervals, bounds.1 ≤ position ∧ position < bounds.2 := by
  simp [coveredBy, within_iff]

section Counts

variable (counts : κ → Bool)

@[simp] theorem tally_nil (inside : Nat → Bool) : tally counts inside [] = 0 := rfl

@[simp] theorem tally_append (inside : Nat → Bool) (first second : List (Nat × κ)) :
    tally counts inside (first ++ second) = tally counts inside first + tally counts inside second :=
  countP_append

theorem tally_map {α : Type} (inside : Nat → Bool) (position : α → Nat) (kind : α → κ) (rows : List α) :
    tally counts inside (rows.map fun row => (position row, kind row)) =
      (rows.filter fun row => inside (position row) && counts (kind row)).length := by
  rw [tally, countP_map, countP_eq_length_filter]
  rfl

theorem tally_perm (inside : Nat → Bool) {first second : List (Nat × κ)} (same : first.Perm second) :
    tally counts inside first = tally counts inside second :=
  same.countP_eq _

variable {inside : Nat → Bool} {items : List (Nat × κ)}

theorem tally_congr {other : Nat → Bool} (same : ∀ item ∈ items, inside item.1 = other item.1) :
    tally counts inside items = tally counts other items := by
  apply countP_congr
  intro item member
  rw [same item member]

theorem tally_eq_zero (outside : ∀ item ∈ items, inside item.1 = false) : tally counts inside items = 0 := by
  rw [tally, countP_eq_zero]
  intro item member
  rw [outside item member]
  simp

theorem tally_split (inside part : Nat → Bool) (items : List (Nat × κ)) :
    tally counts inside items =
      tally counts (fun position => inside position && part position) items +
        tally counts (fun position => inside position && !part position) items := by
  induction items with
  | nil => rfl
  | cons item rest ih =>
    simp only [tally, countP_cons] at ih ⊢
    rw [ih]
    cases inside item.1 <;> cases part item.1 <;> cases counts item.2 <;> simp <;> omega

theorem tally_anywhere (part : Nat → Bool) (items : List (Nat × κ)) :
    tally counts anywhere items =
      tally counts part items + tally counts (fun position => !part position) items :=
  tally_split counts anywhere part items

theorem tally_coveredBy {intervals : List (Nat × Nat)} (apart : Apart intervals) (items : List (Nat × κ)) :
    tally counts (coveredBy intervals) items =
      (intervals.map fun bounds => tally counts (within bounds) items).sum := by
  induction intervals with
  | nil =>
    rw [map_nil, sum_nil]
    exact tally_eq_zero counts fun item _ => rfl
  | cons bounds rest ih =>
    obtain ⟨first, others⟩ := pairwise_cons.mp apart
    rw [map_cons, sum_cons, ← ih others, tally_split counts _ (within bounds)]
    congr 1
    · apply tally_congr
      intro item _
      cases inside : within bounds item.1 <;> simp [coveredBy, inside]
    · apply tally_congr
      intro item _
      have missed : within bounds item.1 = true → coveredBy rest item.1 = false := by
        intro inside
        rw [← Bool.not_eq_true, coveredBy_iff]
        rintro ⟨other, member, below, above⟩
        have meets := first other member
        have here := within_iff.mp inside
        omega
      cases inside : within bounds item.1 with
      | false => simp [coveredBy, inside]
      | true => simp [missed inside]

end Counts

/-- Intervals that do not meet and lie in a range as wide as all of them together cover it. -/
theorem coveredBy_eq_within (apart : Apart intervals) (bounds : Nat × Nat)
    (inside : ∀ interval ∈ intervals, bounds.1 ≤ interval.1 ∧ interval.2 ≤ bounds.2)
    (wide : (intervals.map fun interval => interval.2 - interval.1).sum = bounds.2 - bounds.1) (position : Nat) :
    coveredBy intervals position = within bounds position := by
  have covered (range : Finset Nat) (whole : ∀ interval ∈ intervals, Finset.Ico interval.1 interval.2 ⊆ range) :
      (range.filter fun position => coveredBy intervals position = true).card =
        (intervals.map fun interval => interval.2 - interval.1).sum := by
    clear inside wide
    induction intervals with
    | nil => simp [coveredBy]
    | cons head rest ih =>
      obtain ⟨first, others⟩ := pairwise_cons.mp apart
      have split : (range.filter fun position => coveredBy (head :: rest) position = true) =
          Finset.Ico head.1 head.2 ∪ range.filter fun position => coveredBy rest position = true := by
        ext position
        have known := whole head mem_cons_self
        simp only [Finset.mem_filter, Finset.mem_union, Finset.mem_Ico, coveredBy_iff, exists_mem_cons_iff]
        constructor
        · rintro ⟨member, here | later⟩
          · exact .inl here
          · exact .inr ⟨member, later⟩
        · rintro (here | ⟨member, later⟩)
          · exact ⟨known (Finset.mem_Ico.mpr here), .inl here⟩
          · exact ⟨member, .inr later⟩
      have disjoint : Disjoint (Finset.Ico head.1 head.2)
          (range.filter fun position => coveredBy rest position = true) := by
        rw [Finset.disjoint_left]
        intro position here later
        obtain ⟨other, member, below, above⟩ := coveredBy_iff.mp (Finset.mem_filter.mp later).2
        have meets := first other member
        rw [Finset.mem_Ico] at here
        omega
      rw [split, Finset.card_union_of_disjoint disjoint, Nat.card_Ico, map_cons, sum_cons,
        ih others fun interval member => whole interval (mem_cons_of_mem _ member)]
  have full : ((Finset.Ico bounds.1 bounds.2).filter fun position => coveredBy intervals position = true) =
      Finset.Ico bounds.1 bounds.2 := by
    apply Finset.eq_of_subset_of_card_le (Finset.filter_subset _ _)
    rw [covered, wide, Nat.card_Ico]
    intro interval member
    have bound := inside interval member
    exact Finset.Ico_subset_Ico bound.1 bound.2
  rw [Bool.eq_iff_iff, within_iff]
  constructor
  · intro held
    obtain ⟨interval, member, below, above⟩ := coveredBy_iff.mp held
    have bound := inside interval member
    omega
  · intro held
    have member : position ∈ Finset.Ico bounds.1 bounds.2 := Finset.mem_Ico.mpr held
    rw [← full] at member
    exact (Finset.mem_filter.mp member).2

theorem mem_of_length_eq {numbers : List Nat} (first past : Nat) {number : Nat} (distinct : numbers.Nodup)
    (inside : ∀ other ∈ numbers, first ≤ other ∧ other < past) (count : numbers.length + first = past)
    (from_ : first ≤ number) (below : number < past) : number ∈ numbers := by
  have subset : numbers.toFinset ⊆ Finset.Ico first past := by
    intro other member
    exact Finset.mem_Ico.mpr (inside other (mem_toFinset.mp member))
  have card : (Finset.Ico first past).card ≤ numbers.toFinset.card := by
    rw [toFinset_card_of_nodup distinct, Nat.card_Ico]
    omega
  have same := Finset.eq_of_subset_of_card_le subset card
  have member : number ∈ Finset.Ico first past := Finset.mem_Ico.mpr ⟨from_, below⟩
  rw [← same] at member
  exact mem_toFinset.mp member

/-! ## Intervals of a grid -/

def gridStart (width position : Nat) : Nat :=
  position - position % width

section Grid

variable {width : Nat}

theorem gridStart_le (width position : Nat) : gridStart width position ≤ position :=
  Nat.sub_le _ _

theorem lt_gridStart_add (positive : 0 < width) (position : Nat) : position < gridStart width position + width := by
  have rest := Nat.mod_lt position positive
  unfold gridStart
  omega

theorem gridStart_eq_mul (width position : Nat) : gridStart width position = width * (position / width) := by
  have whole := Nat.div_add_mod position width
  unfold gridStart
  omega

variable {first second : Nat}

theorem gridStart_apart (before : gridStart width first < gridStart width second) :
    gridStart width first + width ≤ gridStart width second := by
  rw [gridStart_eq_mul, gridStart_eq_mul] at before ⊢
  have quotients := Nat.lt_of_mul_lt_mul_left before
  calc width * (first / width) + width
      = width * (first / width + 1) := by ring
    _ ≤ width * (second / width) := Nat.mul_le_mul_left _ quotients

theorem gridStart_mono (positive : 0 < width) (le : first ≤ second) :
    gridStart width first ≤ gridStart width second := by
  by_contra above
  have apart := gridStart_apart (Nat.lt_of_not_le above)
  have start := gridStart_le width first
  have inside := lt_gridStart_add positive second
  omega

theorem gridStart_eq_of_within (positive : 0 < width) (low : gridStart width second ≤ first)
    (high : first < gridStart width second + width) : gridStart width first = gridStart width second := by
  rcases Nat.lt_trichotomy (gridStart width first) (gridStart width second) with before | same | after
  · have apart := gridStart_apart before
    have inside := lt_gridStart_add positive first
    omega
  · exact same
  · have apart := gridStart_apart after
    have start := gridStart_le width first
    omega

end Grid

end OpsIndexer.Lib.Tally
