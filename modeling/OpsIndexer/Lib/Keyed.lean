import Mathlib

/-!
# Tables with a primary key

A table whose rows are found by their key is an association list: no key twice. Statements touch it by key, so a table
is known by its lookups, and a count of its rows moves by the rows that come, change and go.
-/

namespace OpsIndexer.Lib.Keyed

open List

section

variable {κ α : Type} [DecidableEq κ]

theorem lookup_insert_ite (table : AList fun _ : κ => α) (key other : κ) (row : α) :
    (table.insert key row).lookup other = if other = key then some row else table.lookup other := by
  by_cases same : other = key
  · rw [if_pos same, same, AList.lookup_insert]
  · rw [if_neg same, AList.lookup_insert_ne same]

theorem lookup_singleton_ite (key other : κ) (row : α) :
    (AList.singleton key row : AList fun _ : κ => α).lookup other = if other = key then some row else none :=
  lookup_insert_ite ∅ key other row

theorem lookup_foldl_insert (keys : List κ) (value : κ → α) (table : AList fun _ : κ => α) (key : κ) :
    (keys.foldl (fun table key => table.insert key (value key)) table).lookup key =
      if key ∈ keys then some (value key) else table.lookup key := by
  induction keys generalizing table with
  | nil => rfl
  | cons first rest ih =>
    rw [foldl_cons, ih, lookup_insert_ite]
    by_cases later : key ∈ rest
    · simp [later]
    · by_cases same : key = first <;> simp [later, same]

def keep (table : AList fun _ : κ => α) (kept : κ → Bool) : AList fun _ : κ => α where
  entries := table.entries.filter fun entry => kept entry.1
  nodupKeys := table.nodupKeys.sublist filter_sublist

theorem lookup_keep (table : AList fun _ : κ => α) (kept : κ → Bool) (key : κ) :
    (keep table kept).lookup key = if kept key then table.lookup key else none := by
  have found (row : α) :
      (keep table kept).lookup key = some row ↔ kept key = true ∧ table.lookup key = some row := by
    rw [← Option.mem_def, ← Option.mem_def, AList.mem_lookup_iff, AList.mem_lookup_iff, keep, mem_filter, and_comm]
  apply Option.ext
  intro row
  rw [found]
  split
  · next kept => simp only [kept, true_and]
  · next gone => simp only [gone, false_and, reduceCtorEq]

theorem entries_perm_erase {table : AList fun _ : κ => α} {key : κ} {row : α} (found : table.lookup key = some row) :
    table.entries.Perm (⟨key, row⟩ :: (table.erase key).entries) := by
  have same (other : κ) : table.lookup other = (table.insert key row).lookup other := by
    by_cases hit : other = key
    · rw [hit, AList.lookup_insert, found]
    · rw [AList.lookup_insert_ne hit]
  apply lookup_ext table.nodupKeys (table.insert key row).nodupKeys
  intro other found
  rw [← AList.lookup, ← AList.lookup, same]

def alter (table : AList fun _ : κ => α) (key : κ) (change : Option α → Option α) : AList fun _ : κ => α :=
  match change (table.lookup key) with
  | some row => table.insert key row
  | none => table.erase key

theorem lookup_alter (table : AList fun _ : κ => α) (key other : κ) (change : Option α → Option α) :
    (alter table key change).lookup other =
      if other = key then change (table.lookup key) else table.lookup other := by
  unfold alter
  by_cases same : other = key
  · rw [if_pos same, same]
    split
    · next row changed => rw [AList.lookup_insert, changed]
    · next changed => rw [AList.lookup_erase, changed]
  · rw [if_neg same]
    split
    · exact AList.lookup_insert_ne same
    · exact AList.lookup_erase_ne same

def alterAll (table : AList fun _ : κ => α) (changes : List (κ × (Option α → Option α))) : AList fun _ : κ => α :=
  changes.foldl (fun table entry => alter table entry.1 entry.2) table

theorem lookup_alterAll_of_notMem (changes : List (κ × (Option α → Option α))) (table : AList fun _ : κ => α) (key : κ)
    (other : key ∉ changes.map Prod.fst) : (alterAll table changes).lookup key = table.lookup key := by
  induction changes generalizing table with
  | nil => rfl
  | cons entry rest ih =>
    rw [map_cons, mem_cons, not_or] at other
    rw [alterAll, foldl_cons, ← alterAll, ih _ other.2, lookup_alter, if_neg other.1]

theorem lookup_alterAll_of_mem (changes : List (κ × (Option α → Option α))) (table : AList fun _ : κ => α)
    (distinct : (changes.map Prod.fst).Nodup) {entry : κ × (Option α → Option α)} (member : entry ∈ changes) :
    (alterAll table changes).lookup entry.1 = entry.2 (table.lookup entry.1) := by
  induction changes generalizing table with
  | nil => cases member
  | cons first rest ih =>
    rw [map_cons, nodup_cons] at distinct
    rw [alterAll, foldl_cons, ← alterAll]
    rcases mem_cons.mp member with same | later
    · rw [same, lookup_alterAll_of_notMem _ _ _ distinct.1, lookup_alter, if_pos rfl]
    · have apart : entry.1 ≠ first.1 := by
        intro same
        exact distinct.1 (same ▸ mem_map_of_mem later)
      rw [ih _ distinct.2 later, lookup_alter, if_neg apart]

theorem lookup_alterAll_map {keys : List κ} (distinct : keys.Nodup) {key : κ} (member : key ∈ keys)
    (change : κ → Option α → Option α) (table : AList fun _ : κ => α) :
    (alterAll table (keys.map fun key => (key, change key))).lookup key = change key (table.lookup key) := by
  have listed : (key, change key) ∈ keys.map fun key => (key, change key) := mem_map_of_mem member
  refine lookup_alterAll_of_mem _ table ?_ listed
  simpa [map_map, Function.comp_def] using distinct

theorem lookup_alterAll_induction (good : κ → Option α → Prop) (changes : List (κ × (Option α → Option α)))
    (table : AList fun _ : κ => α) (before : ∀ key, good key (table.lookup key))
    (keeps : ∀ entry ∈ changes, ∀ row, good entry.1 row → good entry.1 (entry.2 row)) (key : κ) :
    good key ((alterAll table changes).lookup key) := by
  induction changes generalizing table with
  | nil => exact before key
  | cons entry rest ih =>
    rw [alterAll, foldl_cons, ← alterAll]
    apply ih
    · intro other
      rw [lookup_alter]
      split
      · next same => exact same ▸ keeps entry mem_cons_self _ (before entry.1)
      · exact before other
    · intro other member
      exact keeps other (mem_cons_of_mem _ member)

/-! ## Counting rows -/

def tick (flag : Bool) : Int :=
  if flag then 1 else 0

def countRows (table : AList fun _ : κ => α) (counted : κ → α → Bool) : Int :=
  (table.entries.countP fun entry => counted entry.1 entry.2 : Nat)

private theorem countP_kerase (counted : κ → α → Bool) (key : κ) (rows : List (Sigma fun _ : κ => α)) :
    ((rows.countP fun entry => counted entry.1 entry.2 : Nat) : Int) =
      ((rows.kerase key).countP fun entry => counted entry.1 entry.2 : Nat) +
        tick ((rows.dlookup key).any (counted key)) := by
  induction rows with
  | nil => rfl
  | cons entry rest ih =>
    obtain ⟨head, row⟩ := entry
    by_cases same : key = head
    · subst same
      have erased : List.kerase key (⟨key, row⟩ :: rest) = rest := kerase_cons_eq rfl
      rw [erased, dlookup_cons_eq, countP_cons, Option.any_some]
      simp only [tick]
      push_cast
      rfl
    · rw [kerase_cons_ne same, dlookup_cons_ne rest ⟨head, row⟩ same, countP_cons, countP_cons]
      push_cast
      rw [ih]
      ring

theorem countRows_alter (table : AList fun _ : κ => α) (counted : κ → α → Bool) (key : κ)
    (change : Option α → Option α) :
    countRows (alter table key change) counted =
      countRows table counted + (tick ((change (table.lookup key)).any (counted key)) -
        tick ((table.lookup key).any (counted key))) := by
  have before := countP_kerase counted key table.entries
  unfold alter countRows
  split
  · next row changed =>
    rw [AList.entries_insert, countP_cons, changed, Option.any_some, before, ← AList.lookup]
    have added : (((if counted key row = true then 1 else 0) : Nat) : Int) = tick (counted key row) := by
      simp only [tick]
      push_cast
      rfl
    rw [Nat.cast_add, added]
    ring
  · next changed =>
    have erased : (table.erase key).entries = table.entries.kerase key := rfl
    rw [erased, changed, before, ← AList.lookup, Option.any_none]
    simp only [tick, Bool.false_eq_true, if_false]
    ring

theorem countRows_alterAll (changes : List (κ × (Option α → Option α))) (table : AList fun _ : κ => α)
    (counted : κ → α → Bool) (distinct : (changes.map Prod.fst).Nodup) :
    countRows (alterAll table changes) counted =
      countRows table counted + (changes.map fun entry =>
        tick ((entry.2 (table.lookup entry.1)).any (counted entry.1)) -
          tick ((table.lookup entry.1).any (counted entry.1))).sum := by
  induction changes generalizing table with
  | nil => simp [alterAll]
  | cons first rest ih =>
    rw [map_cons, nodup_cons] at distinct
    rw [alterAll, foldl_cons, ← alterAll, ih _ distinct.2, countRows_alter, map_cons, sum_cons]
    -- The rest of the keys are not the first one, so their rows are as the statement found them.
    have later : (rest.map fun entry =>
        tick ((entry.2 ((alter table first.1 first.2).lookup entry.1)).any (counted entry.1)) -
          tick (((alter table first.1 first.2).lookup entry.1).any (counted entry.1))) =
        rest.map fun entry => tick ((entry.2 (table.lookup entry.1)).any (counted entry.1)) -
          tick ((table.lookup entry.1).any (counted entry.1)) := by
      apply map_congr_left
      intro entry member
      have apart : entry.1 ≠ first.1 := by
        intro same
        exact distinct.1 (same ▸ mem_map_of_mem member)
      rw [lookup_alter, if_neg apart]
    rw [later, add_assoc]

end

/-! ## Batches -/

section

theorem flatMap_filter_perm {κ α : Type} [DecidableEq κ] (key : α → κ) (keys : List κ) (distinct : keys.Nodup)
    (rows : List α) (covered : ∀ row ∈ rows, key row ∈ keys) :
    (keys.flatMap fun wanted => rows.filter fun row => key row = wanted).Perm rows := by
  induction keys generalizing rows with
  | nil =>
    have none : rows = [] := eq_nil_iff_forall_not_mem.mpr fun row member => by simpa using covered row member
    rw [none, flatMap_nil]
  | cons first rest ih =>
    rw [nodup_cons] at distinct
    have others := ih distinct.2 (rows.filter fun row => !decide (key row = first)) (by
      intro row member
      obtain ⟨member, apart⟩ := mem_filter.mp member
      have own := covered row member
      simp only [Bool.not_eq_true', decide_eq_false_iff_not] at apart
      exact (mem_cons.mp own).resolve_left apart)
    have same : (rest.flatMap fun wanted => (rows.filter fun row => !decide (key row = first)).filter
        fun row => decide (key row = wanted)) = rest.flatMap fun wanted => rows.filter fun row => key row = wanted := by
      apply flatMap_congr
      intro wanted member
      rw [filter_filter]
      apply filter_congr
      intro row _
      by_cases hit : key row = wanted
      · have apart : wanted ≠ first := fun same => distinct.1 (same ▸ member)
        simp [hit, apart]
      · simp [hit]
    rw [same] at others
    rw [flatMap_cons]
    exact (List.Perm.append_left _ others).trans (filter_append_perm (fun row => decide (key row = first)) rows)

variable {κ α ρ : Type} [DecidableEq κ]

/-- A stable sort leaves rows it does not tell apart in the order they came. -/
theorem filter_insertionSort (order : α → α → Prop) [DecidableRel order] [Std.Total order] [IsTrans α order]
    (chosen : α → Bool) (rows : List α) (tied : (rows.filter chosen).Pairwise order) :
    (rows.insertionSort order).filter chosen = rows.filter chosen := by
  have inside : (rows.filter chosen).Sublist ((rows.insertionSort order).filter chosen) := by
    have sub := (sublist_insertionSort tied filter_sublist).filter chosen
    simpa only [filter_filter, Bool.and_self] using sub
  have lengths := ((perm_insertionSort order rows).filter chosen).length_eq
  exact (inside.eq_of_length lengths.symm).symm

variable {rows : List α} {last : α}

theorem getLast?_filter (chosen : α → Bool) (ends : rows.getLast? = some last) (kept : chosen last = true) :
    (rows.filter chosen).getLast? = some last := by
  obtain ⟨before, rfl⟩ := List.getLast?_eq_some_iff.mp ends
  rw [filter_append, filter_singleton, kept, cond_true, List.getLast?_concat]

theorem rel_getLast? {order : α → α → Prop} [Std.Refl order] (sorted : rows.Pairwise order)
    (ends : rows.getLast? = some last) : ∀ row ∈ rows, order row last := by
  obtain ⟨before, rfl⟩ := List.getLast?_eq_some_iff.mp ends
  intro row member
  rcases mem_append.mp member with earlier | own
  · exact (pairwise_append.mp sorted).2.2 row earlier last (mem_singleton_self last)
  · rw [mem_singleton.mp own]
    exact Std.Refl.refl last

def lastOfRuns (key : α → κ) : List α → List α
  | [] => []
  | [row] => [row]
  | row :: next :: rest =>
    if key next = key row then lastOfRuns key (next :: rest) else row :: lastOfRuns key (next :: rest)

theorem lastOfRuns_sublist (key : α → κ) (rows : List α) : (lastOfRuns key rows).Sublist rows := by
  fun_induction lastOfRuns key rows with
  | case1 => exact List.Sublist.refl _
  | case2 row => exact List.Sublist.refl _
  | case3 row next rest same ih => exact ih.cons row
  | case4 row next rest apart ih => exact ih.cons_cons row

theorem filter_lastOfRuns [PartialOrder ρ] (key : α → κ) (rank : κ → ρ) (injective : Function.Injective rank)
    (wanted : κ) (rows : List α) (sorted : rows.Pairwise fun first second => rank (key first) ≤ rank (key second)) :
    (lastOfRuns key rows).filter (fun row => key row = wanted) =
      (rows.filter fun row => key row = wanted).getLast?.toList := by
  fun_induction lastOfRuns key rows with
  | case1 => rfl
  | case2 row =>
    by_cases hit : key row = wanted <;> simp [hit]
  | case3 row next rest same ih =>
    rw [ih sorted.tail]
    by_cases hit : key row = wanted
    · have nextHit : key next = wanted := same.trans hit
      simp [hit, nextHit]
    · rw [filter_cons_of_neg (a := row) (by simpa using hit)]
  | case4 row next rest apart ih =>
    rw [pairwise_cons] at sorted
    by_cases hit : key row = wanted
    · -- No later row has this key: it would sort before the next one, which has passed it.
      have none : (next :: rest).filter (fun row => key row = wanted) = [] := by
        rw [filter_eq_nil_iff]
        intro later member
        simp only [decide_eq_true_eq]
        intro same
        apply apart
        apply injective
        apply le_antisymm
        · rcases mem_cons.mp member with found | found
          · rw [← found, same, hit]
          · have after := (pairwise_cons.mp sorted.2).1 later found
            rwa [same, ← hit] at after
        · exact sorted.1 next mem_cons_self
      rw [filter_cons_of_pos (a := row) (by simpa using hit),
        filter_cons_of_pos (a := row) (by simpa using hit), ih sorted.2, none]
      rfl
    · rw [filter_cons_of_neg (a := row) (by simpa using hit), ih sorted.2,
        filter_cons_of_neg (a := row) (by simpa using hit)]

theorem mem_lastOfRuns_iff [PartialOrder ρ] (key : α → κ) (rank : κ → ρ) (injective : Function.Injective rank)
    (rows : List α) (sorted : rows.Pairwise fun first second => rank (key first) ≤ rank (key second)) (row : α) :
    row ∈ lastOfRuns key rows ↔ (rows.filter fun other => key other = key row).getLast? = some row := by
  have cut := filter_lastOfRuns key rank injective (key row) rows sorted
  rw [← Option.mem_toList, ← cut, mem_filter]
  simp

theorem lastOfRuns_keys_nodup [PartialOrder ρ] (key : α → κ) (rank : κ → ρ) (injective : Function.Injective rank)
    (rows : List α) (sorted : rows.Pairwise fun first second => rank (key first) ≤ rank (key second)) :
    ((lastOfRuns key rows).map key).Nodup := by
  rw [nodup_iff_count_le_one]
  intro wanted
  have cut := filter_lastOfRuns key rank injective wanted rows sorted
  have counted : ((lastOfRuns key rows).map key).count wanted =
      ((lastOfRuns key rows).filter fun row => key row = wanted).length := by
    rw [List.count, countP_map, countP_eq_length_filter]
    congr 1
  rw [counted, cut]
  cases (rows.filter fun row => decide (key row = wanted)).getLast? <;> simp

end

end OpsIndexer.Lib.Keyed
