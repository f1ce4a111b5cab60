import OpsIndexer.Lib.Keyset

/-!
# Paging by offset

Every page is a query of its own, an arrangement of all rows cut by a limit and an offset. Where a page ends between two
rows of one key the next query may have them the other way round, and lists one of them again and the other never.
-/

namespace OpsIndexer.Lib.OffsetPages

open Lib.Keyset List

variable {α κ : Type} [LinearOrder κ]

def window (limit offset : Nat) (rows : List α) : List α :=
  (rows.drop offset).take limit

def readPages (request : Nat → List α) : Nat → Nat → Option (List α)
  | 0, _ => none
  | fuel + 1, page =>
    if request page = [] then some [] else (readPages request fuel (page + 1)).map (request page ++ ·)

def ListsOnce (request : Nat → List α) (rows : List α) : Prop :=
  ∀ fuel > rows.length, ∃ listed, readPages request fuel 1 = some listed ∧ listed.Perm rows

variable {key : α → κ} {rows first second : List α} {size cut : Nat}

theorem drop_eq_window (size offset : Nat) (rows : List α) :
    rows.drop offset = window size offset rows ++ rows.drop (offset + size) := by
  rw [window, ← drop_drop, take_append_drop]

theorem window_eq_nil (positive : 0 < size) (cut : Nat) (rows : List α) : window size cut rows = [] ↔ rows.length ≤ cut := by
  rw [window, take_eq_nil_iff, drop_eq_nil_iff]
  exact or_iff_right positive.ne'

theorem mem_window {row : α} {offset index : Nat} (short : index < size) (found : rows[offset + index]? = some row) :
    row ∈ window size offset rows := by
  rw [window, mem_iff_getElem?]
  exact ⟨index, by rw [List.getElem?_take_of_lt short, List.getElem?_drop, found]⟩

/-- At a change of keys every arrangement has the same rows left. -/
theorem drop_perm (one : Arranged key rows first) (two : Arranged key rows second)
    (apart : 0 < cut → cut < rows.length →
      (descending (rows.map key))[cut - 1]? ≠ (descending (rows.map key))[cut]?) :
    (first.drop cut).Perm (second.drop cut) := by
  rcases Nat.eq_zero_or_pos cut with rfl | positive
  · exact one.perm.trans two.perm.symm
  by_cases inside : cut < rows.length
  · have left {arranged : List α} (result : Arranged key rows arranged) :
        ∃ last, (descending (rows.map key))[cut - 1]? = some (key last) ∧
          (arranged.drop cut).Perm (rows.filter (Keyset.inside key (some (key last)))) := by
      have keys : arranged.map key = descending (rows.map key) := result.map_eq fun _ _ => id
      have long : cut < arranged.length := result.perm.length_eq ▸ inside
      have found : arranged[cut - 1]? = some arranged[cut - 1] := List.getElem?_eq_getElem (by omega)
      rw [← keys] at apart ⊢
      refine ⟨arranged[cut - 1], by rw [List.getElem?_map, found, Option.map_some], ?_⟩
      have every := (filter_drop_iff (fun _ _ => id) result positive long found).mpr (apart positive inside)
      have whole : rows.filter (Keyset.inside key none) = rows := filter_eq_self.mpr fun _ _ => rfl
      have below := filter_inside_last (fun _ _ => id) (whole.symm ▸ result) found positive
      rw [filter_eq_self.mpr (length_filter_eq_length_iff.mp every)] at below
      exact below.symm
    obtain ⟨last, mark, leftFirst⟩ := left one
    obtain ⟨other, same, leftSecond⟩ := left two
    rw [mark, Option.some.injEq] at same
    rw [← same] at leftSecond
    exact leftFirst.trans leftSecond.symm
  · rw [drop_of_length_le (by rw [one.perm.length_eq]; omega),
      drop_of_length_le (by rw [two.perm.length_eq]; omega)]

variable {request : Nat → List α}

theorem readPages_eq_some {fuel page : Nat} {listed : List α} (read : readPages request fuel page = some listed) :
    ∃ count, request (page + count) = [] ∧ listed = (List.range' page count).flatMap request := by
  induction fuel generalizing page listed with
  | zero => cases read
  | succ fuel ih =>
    rw [readPages] at read
    split at read
    · next empty =>
      cases read
      exact ⟨0, empty, rfl⟩
    · obtain ⟨rest, later, rfl⟩ := Option.map_eq_some_iff.mp read
      obtain ⟨count, empty, rfl⟩ := ih later
      refine ⟨count + 1, ?_, by rw [List.range'_succ, flatMap_cons]⟩
      rwa [Nat.add_right_comm, Nat.add_assoc] at empty

/-- Where no page ends between two rows of one key, whatever orders the queries take. -/
theorem listsOnce_of_unsplit (positive : 0 < size) (unsplit : Unsplit size (descending (rows.map key)))
    (pages : ∀ page, ∃ arranged, Arranged key rows arranged ∧ request (page + 1) = window size (page * size) arranged) :
    ListsOnce request rows := by
  have reference := (stableSorter key).arranged rows
  generalize (stableSorter key).sort rows = ordered at reference
  have ends (page : Nat) : 0 < page * size → page * size < rows.length →
      (descending (rows.map key))[page * size - 1]? ≠ (descending (rows.map key))[page * size]? := by
    intro started inside
    exact unsplit page (Nat.pos_of_mul_pos_right started) (by simpa [descending] using inside)
  -- From each page on the reading lists what the reference has from there on.
  have from_ (fuel page : Nat) (enough : rows.length - page * size < fuel) :
      ∃ listed, readPages request fuel (page + 1) = some listed ∧ listed.Perm (ordered.drop (page * size)) := by
    induction fuel generalizing page with
    | zero => exact absurd enough (Nat.not_lt_zero _)
    | succ fuel ih =>
      obtain ⟨arranged, result, same⟩ := pages page
      have next : (page + 1) * size = page * size + size := Nat.succ_mul page size
      have empty := window_eq_nil positive (page * size) arranged
      rw [result.perm.length_eq] at empty
      rw [readPages, same]
      by_cases past : rows.length ≤ page * size
      · rw [if_pos (empty.mpr past)]
        refine ⟨[], rfl, ?_⟩
        rw [drop_of_length_le (by rwa [reference.perm.length_eq])]
      · rw [if_neg (mt empty.mp past)]
        obtain ⟨listed, read, perm⟩ := ih (page + 1) (by omega)
        refine ⟨window size (page * size) arranged ++ listed, by rw [read, Option.map_some], ?_⟩
        have here := drop_perm result reference (ends page)
        have later := drop_perm result reference (ends (page + 1))
        rw [next] at later perm
        rw [drop_eq_window size] at here
        exact ((perm.trans later.symm).append_left _).trans here
  intro fuel enough
  have whole := from_ fuel 0 (by omega)
  rw [Nat.zero_mul, drop_zero] at whole
  obtain ⟨listed, read, perm⟩ := whole
  exact ⟨listed, read, perm.trans reference.perm⟩

theorem listsOnce_of_distinct (positive : 0 < size) (distinct : (rows.map key).Nodup)
    (pages : ∀ page, ∃ arranged, Arranged key rows arranged ∧ request (page + 1) = window size (page * size) arranged) :
    ListsOnce request rows :=
  listsOnce_of_unsplit positive
    (unsplit_of_nodup positive ((perm_insertionSort (· ≥ ·) _).nodup_iff.mpr distinct)) pages

theorem exists_sorter {arranged : List α} (result : Arranged key rows arranged) :
    ∃ sorter : Sorter key, sorter.sort rows = arranged := by
  classical
  refine ⟨⟨fun other => if other = rows then arranged else (stableSorter key).sort other, fun other => ?_⟩, if_pos rfl⟩
  split
  · next same => rwa [same]
  · exact (stableSorter key).arranged other

theorem arranged_swap {before after : List α} {row other : α} (result : Arranged key rows (before ++ row :: other :: after))
    (tie : key row = key other) : Arranged key rows (before ++ other :: row :: after) := by
  refine ⟨((List.Perm.swap row other after).append_left before).trans result.perm, ?_⟩
  have sorted := result.sorted
  simp only [pairwise_append, pairwise_cons, forall_mem_cons, tie] at sorted ⊢
  grind

theorem exists_tie (same : (descending (rows.map key))[cut - 1]? = (descending (rows.map key))[cut]?) (positive : 0 < cut)
    (inside : cut < rows.length) :
    ∃ before row other after, Arranged key rows (before ++ row :: other :: after) ∧ before.length = cut - 1 ∧
      key row = key other := by
  have reference := (stableSorter key).arranged rows
  have keys : _ = descending (rows.map key) := reference.map_eq fun _ _ => id
  generalize (stableSorter key).sort rows = ordered at reference keys
  have long : cut < ordered.length := reference.perm.length_eq ▸ inside
  have parts : ordered = ordered.take (cut - 1) ++ ordered[cut - 1] :: ordered[cut] :: ordered.drop (cut + 1) := by
    rw [← drop_eq_getElem_cons long]
    conv_lhs => rw [← take_append_drop (cut - 1) ordered, drop_eq_getElem_cons (by omega),
      Nat.sub_add_cancel positive]
  refine ⟨_, _, _, _, parts ▸ reference, length_take_of_le (by omega), ?_⟩
  rw [← keys, List.getElem?_map, List.getElem?_map, List.getElem?_eq_getElem long,
    List.getElem?_eq_getElem (by omega), Option.map_some, Option.map_some, Option.some.injEq] at same
  exact same

/-- Reading lists every row once in whatever orders the queries take exactly when no page ends inside a key. -/
theorem listsOnce_iff (positive : 0 < size) (distinct : rows.Nodup) (request : Sorter key → Nat → List α)
    (pages : ∀ sorter page, request sorter (page + 1) = window size (page * size) (sorter.sort rows)) :
    (∀ sorters : Nat → Sorter key, ListsOnce (fun page => request (sorters page) page) rows) ↔
      Unsplit size (descending (rows.map key)) := by
  apply Iff.intro
  · intro lists page started inside same
    obtain ⟨before, row, other, after, arranged, length, tie⟩ := exists_tie same (Nat.mul_pos started positive)
      (by simpa [descending] using inside)
    obtain ⟨plain, ordered⟩ := exists_sorter arranged
    obtain ⟨swapped, reordered⟩ := exists_sorter (arranged_swap arranged tie)
    obtain ⟨listed, read, perm⟩ := lists (fun number => if number = page + 1 then swapped else plain) _ (Nat.lt_succ_self _)
    obtain ⟨count, empty, rfl⟩ := readPages_eq_some read
    rw [Nat.add_comm, pages, window_eq_nil positive, (Sorter.arranged _ rows).perm.length_eq] at empty
    have inside : page * size < rows.length := by simpa [descending] using inside
    have both : page < count := Nat.lt_of_mul_lt_mul_right (inside.trans_le empty)
    have apart := (nodup_flatMap.mp (perm.nodup_iff.mpr distinct)).2
    have here : page ∈ List.range' 1 count := mem_range'_1.mpr ⟨started, by omega⟩
    have next : page + 1 ∈ List.range' 1 count := mem_range'_1.mpr ⟨by omega, by omega⟩
    have : Std.Symm (Function.onFun List.Disjoint
        fun number => request (if number = page + 1 then swapped else plain) number) := ⟨fun _ _ => List.Disjoint.symm⟩
    have disjoint := apart.forall here next (Nat.succ_ne_self page).symm
    have ends : before.length = (page - 1) * size + (size - 1) := by
      rw [length, Nat.sub_one_mul]
      have first : size ≤ page * size := Nat.le_mul_of_pos_left size started
      omega
    refine disjoint (?_ : row ∈ _) ?_
    · simp only [if_neg (Nat.succ_ne_self page).symm]
      rw [← Nat.sub_add_cancel started, pages, ordered]
      exact mem_window (Nat.sub_lt positive Nat.one_pos) (by rw [← ends]; simp)
    · simp only [if_true]
      rw [pages, reordered]
      refine mem_window positive ?_
      have first := Nat.mul_pos started positive
      rw [Nat.add_zero, List.getElem?_append_right (by omega), length, show page * size - (page * size - 1) = 1 by omega]
      rfl
  · intro unsplit sorters
    exact listsOnce_of_unsplit positive unsplit fun page => ⟨_, (sorters (page + 1)).arranged rows, pages _ page⟩

end OpsIndexer.Lib.OffsetPages
