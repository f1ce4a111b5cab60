import OpsIndexer.Lib.Tally

/-!
# Recounts over a moving boundary

Items at positions are kept or gone. Spans that do not meet record how many items of each kind they hold, and one more
span, the staged one, is recorded apart from them. While every item is recorded or kept above what is recorded, the
items can be counted in two ways: with all the spans and the items kept past the last one, or with the spans below a
floor and the items kept from the floor on.
-/

namespace OpsIndexer.Lib.Recount

open Lib.Tally List

structure Span (γ : Type) where
  lo : Nat
  hi : Nat
  count : γ → Int

variable {κ γ : Type}

def Span.bounds (span : Span γ) : Nat × Nat :=
  (span.lo, span.hi)

def covered (spans : List (Span γ)) : Nat → Bool :=
  coveredBy (spans.map Span.bounds)

def closedThrough (spans : List (Span γ)) : Nat :=
  (spans.map (·.hi)).foldl max 0

def recorded (spans : List (Span γ)) (counter : γ) : Int :=
  (spans.map fun span => span.count counter).sum

structure Books (κ γ : Type) where
  spans : List (Span γ)
  staged : Span γ
  kept : List (Nat × κ)
  gone : List (Nat × κ)
  floor : Nat

def Books.items (books : Books κ γ) : List (Nat × κ) :=
  books.kept ++ books.gone

structure Balanced (counts : γ → κ → Bool) (books : Books κ γ) : Prop where
  wide : ∀ span ∈ books.spans, span.lo < span.hi
  apart : Apart (books.spans.map Span.bounds)
  exact : ∀ span ∈ books.spans, ∀ counter,
    span.count counter = tally (counts counter) (within span.bounds) books.items
  stagedExact : ∀ counter, books.staged.count counter =
    tally (counts counter) (within books.staged.bounds) books.items
  stagedFree : ∀ position, within books.staged.bounds position = true →
    covered books.spans position = false ∧ position < books.floor
  sided : ∀ span ∈ books.spans, span.hi ≤ books.floor ∨ books.floor ≤ span.lo
  gone : ∀ item ∈ books.gone, item.1 < books.floor ∧
    (covered books.spans item.1 = true ∨ within books.staged.bounds item.1 = true)
  kept : ∀ item ∈ books.kept, covered books.spans item.1 = true ∨
    closedThrough books.spans ≤ item.1 ∧ books.floor ≤ item.1

/-! ## Spans -/

variable {position : Nat}

theorem covered_iff {spans : List (Span γ)} :
    covered spans position = true ↔ ∃ span ∈ spans, span.lo ≤ position ∧ position < span.hi := by
  simp [covered, coveredBy_iff, Span.bounds]

theorem covered_append (first second : List (Span γ)) (position : Nat) :
    covered (first ++ second) position = (covered first position || covered second position) := by
  simp [covered, coveredBy]

theorem apart_of_ne {spans : List (Span γ)} (apart : Apart (spans.map Span.bounds)) {first second : Span γ}
    (firstMember : first ∈ spans) (secondMember : second ∈ spans) (differ : first ≠ second) :
    first.hi ≤ second.lo ∨ second.hi ≤ first.lo := by
  have pairwise := pairwise_map.mp apart
  have symmetric : Std.Symm fun first second : Span γ =>
      first.bounds.2 ≤ second.bounds.1 ∨ second.bounds.2 ≤ first.bounds.1 := ⟨fun _ _ => Or.symm⟩
  exact pairwise.forall firstMember secondMember differ

private theorem foldl_max (ends : List Nat) (start : Nat) :
    start ≤ ends.foldl max start ∧ (∀ value ∈ ends, value ≤ ends.foldl max start) ∧
      (ends.foldl max start = start ∨ ends.foldl max start ∈ ends) := by
  induction ends generalizing start with
  | nil => simp
  | cons value rest ih =>
    obtain ⟨above, all, reached⟩ := ih (max start value)
    rw [foldl_cons]
    refine ⟨by omega, ?_, ?_⟩
    · intro other member
      rcases mem_cons.mp member with rfl | later
      · omega
      · exact all other later
    · rcases reached with same | member
      · rw [same]
        rcases Nat.le_total start value with le | le
        · exact .inr (by simp [Nat.max_eq_right le])
        · exact .inl (Nat.max_eq_left le)
      · exact .inr (mem_cons_of_mem _ member)

theorem hi_le_closedThrough {spans : List (Span γ)} {span : Span γ} (member : span ∈ spans) :
    span.hi ≤ closedThrough spans :=
  (foldl_max (spans.map (·.hi)) 0).2.1 _ (mem_map_of_mem member)

theorem closedThrough_cases (spans : List (Span γ)) :
    closedThrough spans = 0 ∨ ∃ span ∈ spans, span.hi = closedThrough spans := by
  rcases (foldl_max (spans.map (·.hi)) 0).2.2 with zero | member
  · exact .inl zero
  · exact .inr (mem_map.mp member)

/-- The end of the last span moves only to ends of spans. -/
theorem closedThrough_le {spans : List (Span γ)} {bound : Nat} (all : ∀ span ∈ spans, span.hi ≤ bound) :
    closedThrough spans ≤ bound := by
  rcases closedThrough_cases spans with zero | ⟨span, member, same⟩
  · omega
  · exact same ▸ all span member

theorem not_covered_of_closedThrough_le {spans : List (Span γ)} (past : closedThrough spans ≤ position) :
    covered spans position = false := by
  rw [← Bool.not_eq_true, covered_iff]
  rintro ⟨span, member, _, below⟩
  have bound := hi_le_closedThrough member
  omega

theorem recorded_eq {counts : γ → κ → Bool} {spans : List (Span γ)} {items : List (Nat × κ)}
    (apart : Apart (spans.map Span.bounds))
    (exact : ∀ span ∈ spans, ∀ counter, span.count counter = tally (counts counter) (within span.bounds) items)
    (counter : γ) : recorded spans counter = tally (counts counter) (covered spans) items := by
  rw [covered, tally_coveredBy _ apart, recorded, map_map]
  push_cast
  rw [map_map]
  apply congrArg
  apply map_congr_left
  intro span member
  exact exact span member counter

/-! ## The two counts -/

section Totals

variable {counts : γ → κ → Bool} {books : Books κ γ}

theorem Balanced.closed_total (balanced : Balanced counts books) (counter : γ) :
    recorded books.spans counter + books.staged.count counter +
        tally (counts counter) (fun position => closedThrough books.spans ≤ position) books.kept =
      tally (counts counter) anywhere books.items := by
  have whole := tally_anywhere (counts counter) (covered books.spans) books.items
  have staged := tally_split (counts counter) (fun position => !covered books.spans position)
    (within books.staged.bounds) books.items
  have first : tally (counts counter) (fun position => !covered books.spans position &&
      within books.staged.bounds position) books.items =
        tally (counts counter) (within books.staged.bounds) books.items := by
    apply tally_congr
    intro item _
    cases inside : within books.staged.bounds item.1 with
    | false => simp
    | true => simp [(balanced.stagedFree _ inside).1]
  have keptRest : tally (counts counter) (fun position => !covered books.spans position &&
      !within books.staged.bounds position) books.kept =
        tally (counts counter) (fun position => closedThrough books.spans ≤ position) books.kept := by
    apply tally_congr
    intro item member
    rcases balanced.kept item member with inside | ⟨past, above⟩
    · have below : ¬ closedThrough books.spans ≤ item.1 := by
        intro past
        rw [not_covered_of_closedThrough_le past] at inside
        exact Bool.false_ne_true inside
      simp [inside, below]
    · have unstaged : within books.staged.bounds item.1 = false := by
        rw [← Bool.not_eq_true]
        intro inside
        have under := (balanced.stagedFree _ inside).2
        omega
      simp [not_covered_of_closedThrough_le past, unstaged, past]
  have goneRest : tally (counts counter) (fun position => !covered books.spans position &&
      !within books.staged.bounds position) books.gone = 0 := by
    apply tally_eq_zero
    intro item member
    rcases (balanced.gone item member).2 with inside | inside <;> simp [inside]
  have rest : tally (counts counter) (fun position => !covered books.spans position &&
      !within books.staged.bounds position) books.items =
        tally (counts counter) (fun position => closedThrough books.spans ≤ position) books.kept := by
    rw [Books.items, tally_append, keptRest, goneRest, Nat.add_zero]
  rw [recorded_eq balanced.apart balanced.exact, balanced.stagedExact]
  omega

theorem Balanced.floor_total (balanced : Balanced counts books) (counter : γ) :
    tally (counts counter) (fun position => books.floor ≤ position) books.kept +
        recorded (books.spans.filter fun span => span.hi ≤ books.floor) counter + books.staged.count counter =
      tally (counts counter) anywhere books.items := by
  have below : ∀ span ∈ books.spans.filter (fun span => span.hi ≤ books.floor), span ∈ books.spans :=
    fun span member => mem_of_mem_filter member
  have apart : Apart ((books.spans.filter fun span => span.hi ≤ books.floor).map Span.bounds) :=
    balanced.apart.sublist (List.Sublist.map _ filter_sublist)
  rw [recorded_eq apart fun span member => balanced.exact span (below span member), balanced.stagedExact]
  have prunedIff (position : Nat) : covered (books.spans.filter fun span => span.hi ≤ books.floor) position = true ↔
      covered books.spans position = true ∧ position < books.floor := by
    simp only [covered_iff, mem_filter, decide_eq_true_eq]
    constructor
    · rintro ⟨span, ⟨member, low⟩, inside⟩
      exact ⟨⟨span, member, inside⟩, by omega⟩
    · rintro ⟨⟨span, member, inside⟩, under⟩
      rcases balanced.sided span member with low | high
      · exact ⟨span, ⟨member, low⟩, inside⟩
      · omega
  have whole := tally_anywhere (counts counter) (fun position => books.floor ≤ position) books.items
  have under := tally_split (counts counter) (fun position => !decide (books.floor ≤ position))
    (within books.staged.bounds) books.items
  have stagedPart : tally (counts counter) (fun position => !decide (books.floor ≤ position) &&
      within books.staged.bounds position) books.items =
        tally (counts counter) (within books.staged.bounds) books.items := by
    apply tally_congr
    intro item _
    cases inside : within books.staged.bounds item.1 with
    | false => simp
    | true => simpa using (balanced.stagedFree _ inside).2
  have spanPart : tally (counts counter) (fun position => !decide (books.floor ≤ position) &&
      !within books.staged.bounds position) books.items =
        tally (counts counter) (covered (books.spans.filter fun span => span.hi ≤ books.floor)) books.items := by
    apply tally_congr
    intro item member
    rw [Bool.eq_iff_iff, prunedIff]
    simp only [Bool.and_eq_true, Bool.not_eq_true', decide_eq_false_iff_not, Nat.not_le]
    constructor
    · rintro ⟨low, unstaged⟩
      refine ⟨?_, low⟩
      rcases mem_append.mp member with kept | gone
      · rcases balanced.kept item kept with inside | above
        · exact inside
        · omega
      · rcases (balanced.gone item gone).2 with inside | staged
        · exact inside
        · rw [unstaged] at staged
          exact absurd staged Bool.false_ne_true
    · rintro ⟨inside, low⟩
      refine ⟨low, ?_⟩
      rw [← Bool.not_eq_true]
      intro staged
      rw [(balanced.stagedFree _ staged).1] at inside
      exact Bool.false_ne_true inside
  have above : tally (counts counter) (fun position => books.floor ≤ position) books.items =
      tally (counts counter) (fun position => books.floor ≤ position) books.kept := by
    have none : tally (counts counter) (fun position => books.floor ≤ position) books.gone = 0 := by
      apply tally_eq_zero
      intro item member
      have low := (balanced.gone item member).1
      simpa using low
    rw [Books.items, tally_append, none, Nat.add_zero]
  omega

end Totals

/-! ## Steps -/

section Steps

variable {counts : γ → κ → Bool} {books : Books κ γ}

variable {span : Span γ} {kept fresh : List (Nat × κ)}

theorem within_of_member {spans : List (Span γ)} {position : Nat} (member : span ∈ spans)
    (free : covered spans position = false) : within span.bounds position = false := by
  rw [← Bool.not_eq_true, within_iff]
  intro inside
  rw [← Bool.not_eq_true, covered_iff] at free
  exact free ⟨span, member, inside⟩

section

variable (balanced : Balanced counts books)

include balanced

theorem Balanced.exact_of_outside {items others : List (Nat × κ)}
    (same : items.Perm (books.items ++ others) ∨ books.items.Perm (items ++ others))
    (outside : ∀ item ∈ others, covered books.spans item.1 = false ∧ books.floor ≤ item.1) :
    (∀ span ∈ books.spans, ∀ counter, span.count counter = tally (counts counter) (within span.bounds) items) ∧
      ∀ counter, books.staged.count counter = tally (counts counter) (within books.staged.bounds) items := by
  have equal (counter : γ) (inside : Nat → Bool) (none : ∀ item ∈ others, inside item.1 = false) :
      tally (counts counter) inside books.items = tally (counts counter) inside items := by
    have zero := tally_eq_zero (counts counter) none
    rcases same with grown | shrunk
    · rw [tally_perm _ _ grown, tally_append, zero, Nat.add_zero]
    · rw [tally_perm _ _ shrunk, tally_append, zero, Nat.add_zero]
  constructor
  · intro span member counter
    rw [balanced.exact span member, equal]
    intro item listed
    exact within_of_member member (outside item listed).1
  · intro counter
    rw [balanced.stagedExact, equal]
    intro item listed
    rw [← Bool.not_eq_true]
    intro inside
    have low := (balanced.stagedFree _ inside).2
    have high := (outside item listed).2
    omega

theorem Balanced.keep (grown : kept.Perm (books.kept ++ fresh))
    (past : ∀ item ∈ fresh, closedThrough books.spans ≤ item.1 ∧ books.floor ≤ item.1) :
    Balanced counts { books with kept := kept } := by
  have items : (kept ++ books.gone).Perm (books.items ++ fresh) := by
    refine (grown.append_right books.gone).trans ?_
    rw [Books.items, append_assoc, append_assoc]
    exact List.Perm.append_left _ perm_append_comm
  obtain ⟨exact, stagedExact⟩ := balanced.exact_of_outside (.inl items)
    fun item member => ⟨not_covered_of_closedThrough_le (past item member).1, (past item member).2⟩
  refine { balanced with exact := exact, stagedExact := stagedExact, kept := ?_ }
  intro item member
  rcases mem_append.mp (grown.mem_iff.mp member) with old | new
  · exact balanced.kept item old
  · exact .inr (past item new)

theorem Balanced.revert {removed : List (Nat × κ)} (shrunk : books.kept.Perm (kept ++ removed))
    (free : ∀ item ∈ removed, covered books.spans item.1 = false) : Balanced counts { books with kept := kept } := by
  have items : books.items.Perm ((kept ++ books.gone) ++ removed) := by
    refine (shrunk.append_right books.gone).trans ?_
    rw [append_assoc, append_assoc]
    exact List.Perm.append_left _ perm_append_comm
  have outside : ∀ item ∈ removed, covered books.spans item.1 = false ∧ books.floor ≤ item.1 := by
    intro item member
    refine ⟨free item member, ?_⟩
    rcases balanced.kept item (shrunk.mem_iff.mpr (mem_append_right _ member)) with inside | past
    · rw [free item member] at inside
      exact absurd inside Bool.false_ne_true
    · exact past.2
  obtain ⟨exact, stagedExact⟩ := balanced.exact_of_outside (.inr items) outside
  refine { balanced with exact := exact, stagedExact := stagedExact, kept := ?_ }
  intro item member
  exact balanced.kept item (shrunk.mem_iff.mpr (mem_append_left _ member))

theorem Balanced.forget {dropped : List (Nat × κ)} (moved : books.kept.Perm (kept ++ dropped))
    (low : ∀ item ∈ dropped, item.1 < books.floor) :
    Balanced counts { books with kept := kept, gone := books.gone ++ dropped } := by
  have items : (kept ++ (books.gone ++ dropped)).Perm books.items := by
    refine List.Perm.trans ?_ (moved.append_right books.gone).symm
    rw [append_assoc]
    exact List.Perm.append_left _ perm_append_comm
  refine { balanced with exact := ?_, stagedExact := ?_, gone := ?_, kept := ?_ }
  · intro span member counter
    rw [balanced.exact span member]
    exact congrArg Nat.cast (tally_perm _ _ items.symm)
  · intro counter
    rw [balanced.stagedExact]
    exact congrArg Nat.cast (tally_perm _ _ items.symm)
  · intro item member
    rcases mem_append.mp member with old | new
    · exact balanced.gone item old
    · refine ⟨low item new, .inl ?_⟩
      rcases balanced.kept item (moved.mem_iff.mpr (mem_append_right _ new)) with inside | past
      · exact inside
      · have under := low item new
        omega
  · intro item member
    exact balanced.kept item (moved.mem_iff.mpr (mem_append_left _ member))

theorem Balanced.raise (member : span ∈ books.spans) (up : books.floor ≤ span.hi) :
    Balanced counts { books with floor := span.hi } := by
  refine { balanced with stagedFree := ?_, sided := ?_, gone := ?_, kept := ?_ }
  · intro position inside
    have free := balanced.stagedFree position inside
    exact ⟨free.1, by show position < span.hi; omega⟩
  · intro other listed
    show other.hi ≤ span.hi ∨ span.hi ≤ other.lo
    by_cases same : other = span
    · exact .inl (same ▸ le_rfl)
    · have ownWidth := balanced.wide span member
      rcases apart_of_ne balanced.apart listed member same with below | above
      · exact .inl (by omega)
      · exact .inr above
  · intro item gone
    have low := balanced.gone item gone
    exact ⟨by show item.1 < span.hi; omega, low.2⟩
  · intro item kept
    rcases balanced.kept item kept with inside | past
    · exact .inl inside
    · refine .inr ⟨past.1, ?_⟩
      have bound := hi_le_closedThrough member
      show span.hi ≤ item.1
      omega

theorem Balanced.close (span : Span γ) (wide : span.lo < span.hi) (past : closedThrough books.spans ≤ span.lo)
    (above : books.floor ≤ span.lo) (next : ∀ item ∈ books.kept, covered books.spans item.1 = true ∨ span.lo ≤ item.1)
    (exact : ∀ counter, span.count counter = tally (counts counter) (within span.bounds) books.kept) :
    Balanced counts { books with spans := books.spans ++ [span] } := by
  have own (position : Nat) : covered [span] position = true ↔ span.lo ≤ position ∧ position < span.hi := by
    simp [covered_iff]
  have both (position : Nat) : covered (books.spans ++ [span]) position = true ↔
      covered books.spans position = true ∨ span.lo ≤ position ∧ position < span.hi := by
    rw [covered_append, Bool.or_eq_true, own]
  refine { balanced with
    wide := ?_, apart := ?_, exact := ?_, stagedFree := ?_, sided := ?_, gone := ?_, kept := ?_ }
  · intro other member
    rcases mem_append.mp member with old | new
    · exact balanced.wide other old
    · exact mem_singleton.mp new ▸ wide
  · show Apart ((books.spans ++ [span]).map Span.bounds)
    rw [map_append, Apart, pairwise_append]
    refine ⟨balanced.apart, by simp, ?_⟩
    intro first firstMember second secondMember
    obtain ⟨other, member, rfl⟩ := mem_map.mp firstMember
    rw [map_singleton, mem_singleton] at secondMember
    exact .inl (secondMember ▸ (hi_le_closedThrough member).trans past)
  · intro other member counter
    rcases mem_append.mp member with old | new
    · exact balanced.exact other old counter
    · rw [mem_singleton.mp new, exact]
      have none : tally (counts counter) (within span.bounds) books.gone = 0 := by
        apply tally_eq_zero
        intro item gone
        have low := (balanced.gone item gone).1
        rw [← Bool.not_eq_true, within_iff]
        intro inside
        have start : span.lo ≤ item.1 := inside.1
        omega
      show _ = ((tally (counts counter) (within span.bounds) (books.kept ++ books.gone) : Nat) : Int)
      rw [tally_append, none, Nat.add_zero]
  · intro position inside
    have free := balanced.stagedFree position inside
    refine ⟨?_, free.2⟩
    rw [← Bool.not_eq_true, both, free.1]
    rintro (false | inSpan)
    · exact Bool.false_ne_true false
    · have low := free.2
      omega
  · intro other member
    rcases mem_append.mp member with old | new
    · exact balanced.sided other old
    · exact .inr (mem_singleton.mp new ▸ above)
  · intro item member
    have low := balanced.gone item member
    exact ⟨low.1, low.2.imp (fun inside => (both _).mpr (.inl inside)) id⟩
  · intro item member
    rw [both]
    rcases next item member with inside | start
    · exact .inl (.inl inside)
    · by_cases short : item.1 < span.hi
      · exact .inl (.inr ⟨start, short⟩)
      · refine .inr ⟨?_, above.trans start⟩
        apply closedThrough_le
        intro other listed
        rcases mem_append.mp listed with old | new
        · have bound := hi_le_closedThrough old
          omega
        · rw [mem_singleton.mp new]
          omega

theorem Balanced.extend {added : List (Span γ)} {staged : Span γ} (wide : ∀ span ∈ added, span.lo < span.hi)
    (apart : Apart (added.map Span.bounds))
    (between : ∀ span ∈ books.spans, ∀ other ∈ added, span.hi ≤ other.lo ∨ other.hi ≤ span.lo)
    (low : ∀ span ∈ added, span.hi ≤ books.floor)
    (unrecorded : ∀ item ∈ fresh, covered books.spans item.1 = false ∧ item.1 < books.floor ∧
      (covered added item.1 = true ∨ within staged.bounds item.1 = true)) (exact : ∀ span ∈ added, ∀ counter,
      span.count counter = tally (counts counter) (within span.bounds) (books.items ++ fresh)) (stagedExact : ∀ counter,
      staged.count counter = tally (counts counter) (within staged.bounds) (books.items ++ fresh))
    (stagedFree : ∀ position, within staged.bounds position = true → covered books.spans position = false ∧
      covered added position = false ∧ position < books.floor)
    (carried : ∀ position, within books.staged.bounds position = true →
      covered added position = true ∨ within staged.bounds position = true) :
    Balanced counts
      { books with spans := books.spans ++ added, staged := staged, gone := books.gone ++ fresh } := by
  have items : books.kept ++ (books.gone ++ fresh) = books.items ++ fresh := by
    rw [Books.items, append_assoc]
  have both (position : Nat) : covered (books.spans ++ added) position = true ↔
      covered books.spans position = true ∨ covered added position = true := by
    rw [covered_append, Bool.or_eq_true]
  constructor
  · intro span member
    rcases mem_append.mp member with old | new
    · exact balanced.wide span old
    · exact wide span new
  · show Apart ((books.spans ++ added).map Span.bounds)
    rw [map_append, Apart, pairwise_append]
    refine ⟨balanced.apart, apart, ?_⟩
    intro first firstMember second secondMember
    obtain ⟨span, member, rfl⟩ := mem_map.mp firstMember
    obtain ⟨other, listed, rfl⟩ := mem_map.mp secondMember
    exact between span member other listed
  · intro span member counter
    show _ = ((tally _ _ (books.kept ++ (books.gone ++ fresh)) : Nat) : Int)
    rw [items]
    rcases mem_append.mp member with old | new
    · have none : tally (counts counter) (within span.bounds) fresh = 0 := by
        apply tally_eq_zero
        intro item listed
        exact within_of_member old (unrecorded item listed).1
      rw [balanced.exact span old, tally_append, none, Nat.add_zero]
    · exact exact span new counter
  · intro counter
    show _ = ((tally _ _ (books.kept ++ (books.gone ++ fresh)) : Nat) : Int)
    rw [items]
    exact stagedExact counter
  · intro position inside
    obtain ⟨old, new, under⟩ := stagedFree position inside
    refine ⟨?_, under⟩
    show covered (books.spans ++ added) position = false
    rw [covered_append, old, new]
    rfl
  · intro span member
    rcases mem_append.mp member with old | new
    · exact balanced.sided span old
    · exact .inl (low span new)
  · intro item member
    show item.1 < books.floor ∧ (covered (books.spans ++ added) item.1 = true ∨ within staged.bounds item.1 = true)
    rw [both]
    rcases mem_append.mp member with old | new
    · obtain ⟨under, inside | inside⟩ := balanced.gone item old
      · exact ⟨under, .inl (.inl inside)⟩
      · exact ⟨under, (carried _ inside).imp .inr id⟩
    · obtain ⟨_, under, inside⟩ := unrecorded item new
      exact ⟨under, inside.imp .inr id⟩
  · intro item member
    show covered (books.spans ++ added) item.1 = true ∨ closedThrough (books.spans ++ added) ≤ item.1 ∧ _
    rw [both]
    rcases balanced.kept item member with inside | past
    · exact .inl (.inl inside)
    · refine .inr ⟨?_, past.2⟩
      apply closedThrough_le
      intro span listed
      rcases mem_append.mp listed with old | new
      · exact (hi_le_closedThrough old).trans past.1
      · exact (low span new).trans past.2

def startIn (lo hi : Nat) (span : Span γ) : Bool :=
  lo ≤ span.lo && span.lo < hi

section Merge

variable {spans : List (Span γ)} (merged : Span γ)
  (full : ∀ position, covered (spans.filter (startIn merged.lo merged.hi)) position = within merged.bounds position)
include full

omit balanced in
theorem covered_merge (position : Nat) :
    covered ((spans.filter fun span => !startIn merged.lo merged.hi span) ++ [merged]) position =
      covered spans position := by
  have own : covered [merged] position = within merged.bounds position := by
    simp [covered, coveredBy]
  rw [covered_append, own, ← full, Bool.eq_iff_iff, Bool.or_eq_true]
  simp only [covered_iff, mem_filter]
  constructor
  · rintro (⟨span, ⟨member, _⟩, inside⟩ | ⟨span, ⟨member, _⟩, inside⟩) <;> exact ⟨span, member, inside⟩
  · rintro ⟨span, member, inside⟩
    cases starts : startIn merged.lo merged.hi span with
    | true => exact .inr ⟨span, ⟨member, starts⟩, inside⟩
    | false => exact .inl ⟨span, ⟨member, by simp [starts]⟩, inside⟩

omit balanced in
theorem outside_merge (wide : ∀ span ∈ spans, span.lo < span.hi) (apart : Apart (spans.map Span.bounds))
    (proper : merged.lo < merged.hi) {span : Span γ} (member : span ∈ spans)
    (starts : startIn merged.lo merged.hi span = false) : span.hi ≤ merged.lo ∨ merged.hi ≤ span.lo := by
  by_contra meets
  rw [not_or, Nat.not_le, Nat.not_le] at meets
  have width := wide span member
  have shared : within merged.bounds (max span.lo merged.lo) = true :=
    within_iff.mpr ⟨Nat.le_max_right _ _, by show max span.lo merged.lo < merged.hi; omega⟩
  rw [← full] at shared
  obtain ⟨other, listed, below, above⟩ := covered_iff.mp shared
  obtain ⟨otherMember, otherStarts⟩ := mem_filter.mp listed
  have differ : span ≠ other := by
    rintro rfl
    rw [starts] at otherStarts
    exact Bool.false_ne_true otherStarts
  rcases apart_of_ne apart member otherMember differ with before | after <;> omega

omit balanced in
theorem apart_merge (wide : ∀ span ∈ spans, span.lo < span.hi) (apart : Apart (spans.map Span.bounds))
    (proper : merged.lo < merged.hi) :
    Apart (((spans.filter fun span => !startIn merged.lo merged.hi span) ++ [merged]).map Span.bounds) := by
  rw [map_append, Apart, pairwise_append]
  refine ⟨apart.sublist (List.Sublist.map _ filter_sublist), by simp, ?_⟩
  intro first firstMember second secondMember
  obtain ⟨span, member, rfl⟩ := mem_map.mp firstMember
  rw [map_singleton, mem_singleton] at secondMember
  obtain ⟨listed, starts⟩ := mem_filter.mp member
  exact secondMember ▸ outside_merge merged full wide apart proper listed (by simpa using starts)

end Merge

theorem Balanced.merge (merged : Span γ) (wide : merged.lo < merged.hi) (low : merged.hi ≤ books.floor)
    (full : ∀ position, covered (books.spans.filter (startIn merged.lo merged.hi)) position =
      within merged.bounds position) (sums : ∀ counter, merged.count counter =
      recorded (books.spans.filter (startIn merged.lo merged.hi)) counter) :
    Balanced counts { books with
      spans := (books.spans.filter fun span => !startIn merged.lo merged.hi span) ++ [merged] } := by
  have same := covered_merge merged full
  have partApart : Apart ((books.spans.filter (startIn merged.lo merged.hi)).map Span.bounds) :=
    balanced.apart.sublist (List.Sublist.map _ filter_sublist)
  refine { balanced with
    wide := ?_, apart := ?_, exact := ?_, stagedFree := ?_, sided := ?_, gone := ?_, kept := ?_ }
  · intro span member
    rcases mem_append.mp member with old | new
    · exact balanced.wide span (mem_of_mem_filter old)
    · exact mem_singleton.mp new ▸ wide
  · exact apart_merge merged full balanced.wide balanced.apart wide
  · intro span member counter
    rcases mem_append.mp member with old | new
    · exact balanced.exact span (mem_of_mem_filter old) counter
    · rw [mem_singleton.mp new, sums,
        recorded_eq partApart fun span listed => balanced.exact span (mem_of_mem_filter listed)]
      exact congrArg Nat.cast (tally_congr _ fun item _ => full item.1)
  · intro position inside
    show covered (_ ++ [merged]) position = false ∧ _
    rw [same]
    exact balanced.stagedFree position inside
  · intro span member
    rcases mem_append.mp member with old | new
    · exact balanced.sided span (mem_of_mem_filter old)
    · exact .inl (mem_singleton.mp new ▸ low)
  · intro item member
    show _ ∧ (covered (_ ++ [merged]) item.1 = true ∨ _)
    rw [same]
    exact balanced.gone item member
  · intro item member
    show covered (_ ++ [merged]) item.1 = true ∨ closedThrough (_ ++ [merged]) ≤ item.1 ∧ _
    rw [same]
    rcases balanced.kept item member with inside | past
    · exact .inl inside
    · refine .inr ⟨?_, past.2⟩
      apply closedThrough_le
      intro span listed
      rcases mem_append.mp listed with old | new
      · exact (hi_le_closedThrough (mem_of_mem_filter old)).trans past.1
      · rw [mem_singleton.mp new]
        exact low.trans past.2

end

/-- Consecutive spans whose widths fill the range from the first's start to the last's end cover it exactly. -/
theorem covered_run {spans sorted before window after : List (Span γ)} {lo hi : Nat}
    (wide : ∀ span ∈ spans, span.lo < span.hi) (apart : Apart (spans.map Span.bounds))
    (perm : sorted.Perm spans) (ascending : sorted.Pairwise fun first second => first.lo ≤ second.lo)
    (split : sorted = before ++ window ++ after) (first : window.head?.map (·.lo) = some lo)
    (last : window.getLast?.map (·.hi) = some hi)
    (filled : (hi : Int) - lo = (window.map fun span => (span.hi : Int) - span.lo).sum) (position : Nat) :
    covered (spans.filter (startIn lo hi)) position = within (lo, hi) position := by
  have member (span : Span γ) (inside : span ∈ window) : span ∈ spans := by
    apply perm.mem_iff.mp
    rw [split]
    exact mem_append_left _ (mem_append_right _ inside)
  have sortedApart : Apart (sorted.map Span.bounds) := by
    refine List.Pairwise.perm apart (perm.map _).symm ?_
    intro first second
    exact Or.symm
  have ordered : sorted.Pairwise fun first second => first.hi ≤ second.lo := by
    refine (ascending.and (pairwise_map.mp sortedApart)).imp_of_mem ?_
    rintro one two oneMember twoMember ⟨starts, earlier | later⟩
    · exact earlier
    · have width := wide two (perm.mem_iff.mp twoMember)
      have ends : two.hi ≤ one.lo := later
      omega
  rw [split] at ordered
  have windowOrdered : window.Pairwise fun first second => first.hi ≤ second.lo :=
    (pairwise_append.mp (pairwise_append.mp ordered).1).2.1
  have bounds : ∀ span ∈ window, lo ≤ span.lo ∧ span.hi ≤ hi := by
    cases window with
    | nil => simp
    | cons head rest =>
      simp only [List.head?_cons, Option.map_some, Option.some.injEq] at first
      have heads := pairwise_cons.mp windowOrdered
      intro span inside
      constructor
      · rcases mem_cons.mp inside with rfl | later
        · omega
        · have width := wide head (member head mem_cons_self)
          have start := heads.1 span later
          omega
      · rw [List.getLast?_eq_some_getLast (cons_ne_nil head rest)] at last
        simp only [Option.map_some, Option.some.injEq] at last
        by_cases same : span = (head :: rest).getLast (cons_ne_nil head rest)
        · rw [same, last]
        · have decomposed := dropLast_append_getLast (cons_ne_nil head rest)
          rw [← decomposed] at windowOrdered inside
          have early : span ∈ (head :: rest).dropLast := by
            rcases mem_append.mp inside with early | late
            · exact early
            · exact absurd (mem_singleton.mp late) same
          have under := (pairwise_append.mp windowOrdered).2.2 span early _ (mem_singleton.mpr rfl)
          have lastMember := member _ (getLast_mem (cons_ne_nil head rest))
          have width := wide _ lastMember
          omega
  have windowApart : Apart (window.map Span.bounds) := by
    rw [Apart, pairwise_map]
    exact windowOrdered.imp fun before => .inl before
  have widths : ((window.map Span.bounds).map fun interval => interval.2 - interval.1).sum = hi - lo := by
    have cast : ((((window.map Span.bounds).map fun interval => interval.2 - interval.1).sum : Nat) : Int) =
        (window.map fun span => (span.hi : Int) - span.lo).sum := by
      push_cast
      rw [map_map, map_map]
      apply congrArg
      apply map_congr_left
      intro span inside
      have width := wide span (member span inside)
      simp only [Function.comp_apply, Span.bounds]
      omega
    omega
  have windowFull := coveredBy_eq_within windowApart (lo, hi)
    (by
      intro interval listed
      obtain ⟨span, inside, rfl⟩ := mem_map.mp listed
      exact bounds span inside) widths
  rw [← windowFull, Bool.eq_iff_iff]
  change covered (spans.filter (startIn lo hi)) position = true ↔ covered window position = true
  simp only [covered_iff, mem_filter, startIn, Bool.and_eq_true, decide_eq_true_eq]
  constructor
  · rintro ⟨span, ⟨listed, starts⟩, inside⟩
    have filledAt := windowFull span.lo
    rw [within_iff.mpr starts] at filledAt
    obtain ⟨other, otherMember, below, above⟩ := covered_iff.mp filledAt
    by_cases same : span = other
    · exact ⟨span, same ▸ otherMember, inside⟩
    · have width := wide span listed
      rcases apart_of_ne apart listed (member other otherMember) same with earlier | later <;> omega
  · rintro ⟨span, inside, held⟩
    have bound := bounds span inside
    have width := wide span (member span inside)
    exact ⟨span, ⟨member span inside, by omega, by omega⟩, held⟩

end Steps

end OpsIndexer.Lib.Recount
