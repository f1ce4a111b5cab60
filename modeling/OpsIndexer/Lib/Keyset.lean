import Mathlib

/-!
# Paging through a descending list

A table is read page by page: each page is one ordered and limited query below the mark of the last row of the page
before it. Queries order by a key and leave ties open, and a mark may be coarser than the key.
-/

namespace OpsIndexer.Lib.Keyset

open List

/-! ## Arrangements -/

section

variable {α κ : Type} [LinearOrder κ]

/-- One result of `ORDER BY key DESC` over the rows: ties stand in any order. -/
structure Arranged (key : α → κ) (rows arranged : List α) : Prop where
  perm : arranged.Perm rows
  sorted : arranged.Pairwise fun first second => key second ≤ key first

def descending (marks : List κ) : List κ :=
  marks.insertionSort (· ≥ ·)

variable {key : α → κ} {rows all arrangedAll : List α} {count : Nat} {keep : α → Bool} {row : α}

theorem Arranged.map_eq {μ : Type} [LinearOrder μ] {mark : α → μ} {arranged : List α}
    (result : Arranged key rows arranged)
    (coarser : ∀ first second, key first ≤ key second → mark first ≤ mark second) :
    arranged.map mark = descending (rows.map mark) := by
  have own : (arranged.map mark).Pairwise (· ≥ ·) :=
    pairwise_map.mpr (result.sorted.imp fun order => coarser _ _ order)
  have marks : (descending (rows.map mark)).Pairwise (· ≥ ·) := pairwise_insertionSort (· ≥ ·) _
  refine List.Perm.eq_of_pairwise ?_ own marks
    ((result.perm.map mark).trans (perm_insertionSort (· ≥ ·) _).symm)
  intro first second _ _ above below
  exact le_antisymm below above

structure Sorter (key : α → κ) where
  sort : List α → List α
  arranged : ∀ rows, Arranged key rows (sort rows)

def stableSorter (key : α → κ) : Sorter key where
  sort := fun rows => rows.insertionSort fun first second => key second ≤ key first
  arranged := fun rows =>
    have : Std.Total fun first second : α => key second ≤ key first := ⟨fun _ _ => le_total _ _⟩
    have : IsTrans α fun first second => key second ≤ key first := ⟨fun _ _ _ above below => below.trans above⟩
    ⟨perm_insertionSort _ rows, pairwise_insertionSort _ rows⟩

theorem Arranged.unique {first second : List α}
    (distinct : ∀ row ∈ rows, ∀ other ∈ rows, key row = key other → row = other) (one : Arranged key rows first)
    (two : Arranged key rows second) : first = second := by
  refine List.Perm.eq_of_pairwise ?_ one.sorted two.sorted (one.perm.trans two.perm.symm)
  intro row other rowMember otherMember below above
  exact distinct row (one.perm.mem_iff.mp rowMember) other (two.perm.mem_iff.mp otherMember) (le_antisymm above below)

theorem take_filter_of_front (kept : ∀ row ∈ rows.take count, keep row = true) :
    (rows.filter keep).take count = rows.take count := by
  conv_lhs => rw [← take_append_drop count rows, filter_append, filter_eq_self.mpr kept]
  by_cases short : rows.length ≤ count
  · rw [drop_of_length_le short, filter_nil, append_nil, take_take, Nat.min_self]
  · have full : (rows.take count).length = count := length_take_of_le (by omega)
    conv_lhs => rw [take_append_of_le_length full.ge, take_take, Nat.min_self]

theorem Arranged.take_of_between [DecidableEq α] {part arrangedPart : List α}
    (distinct : ∀ row ∈ all, ∀ other ∈ all, key row = key other → row = other) (allNodup : all.Nodup)
    (partNodup : part.Nodup) (wholeOrder : Arranged key all arrangedAll) (partOrder : Arranged key part arrangedPart)
    (selected : ∀ row ∈ part, row ∈ all) (front : ∀ row ∈ arrangedAll.take count, row ∈ part) :
    arrangedPart.take count = arrangedAll.take count := by
  have filtered : Arranged key part (arrangedAll.filter fun row => row ∈ part) := by
    constructor
    · rw [perm_ext_iff_of_nodup ((wholeOrder.perm.nodup_iff.mpr allNodup).filter _) partNodup]
      intro row
      rw [mem_filter, decide_eq_true_eq, wholeOrder.perm.mem_iff]
      exact ⟨And.right, fun member => ⟨selected row member, member⟩⟩
    · exact wholeOrder.sorted.sublist filter_sublist
  have same := partOrder.unique (fun row rowMember other otherMember =>
    distinct row (selected row rowMember) other (selected other otherMember)) filtered
  rw [same]
  exact take_filter_of_front fun row member => decide_eq_true (front row member)

theorem mem_take_filter (first : row ∈ rows.take count) (kept : keep row = true) :
    row ∈ (rows.filter keep).take count := by
  induction rows generalizing count with
  | nil => simp at first
  | cons head rest ih =>
    cases count with
    | zero => simp at first
    | succ count =>
      rw [take_succ_cons, mem_cons] at first
      rw [filter_cons]
      rcases first with rfl | later
      · rw [if_pos kept, take_succ_cons]
        exact mem_cons_self
      · have found := ih later
        split
        · rw [take_succ_cons]
          exact mem_cons_of_mem head found
        · exact take_subset_take_left _ (Nat.le_succ count) found

/-- Rows whose keys are among the keys of all are no further back than those: what stands first among all stands
first among them. -/
theorem Arranged.mem_take_of_keys {β : Type} {own : β → κ} {part arrangedPart : List β} {member : β}
    (allNodup : (all.map key).Nodup) (partNodup : (part.map own).Nodup) (wholeOrder : Arranged key all arrangedAll)
    (partOrder : Arranged own part arrangedPart) (among : ∀ other ∈ part, own other ∈ all.map key)
    (first : row ∈ arrangedAll.take count) (inPart : member ∈ part) (same : own member = key row) :
    member ∈ arrangedPart.take count := by
  have wholeKeys : (arrangedAll.map key).Nodup := (wholeOrder.perm.map key).nodup_iff.mpr allNodup
  have partKeys : (arrangedPart.map own).Nodup := (partOrder.perm.map own).nodup_iff.mpr partNodup
  have filtered : (arrangedAll.map key).filter (fun mark => mark ∈ arrangedPart.map own) = arrangedPart.map own := by
    have own : Arranged id (arrangedPart.map own) (arrangedPart.map own) :=
      ⟨List.Perm.refl _, pairwise_map.mpr partOrder.sorted⟩
    refine Arranged.unique (fun _ _ _ _ equal => equal) ⟨?_, ?_⟩ own
    · rw [perm_ext_iff_of_nodup (wholeKeys.filter _) partKeys]
      intro mark
      rw [mem_filter, decide_eq_true_eq, (wholeOrder.perm.map key).mem_iff]
      refine ⟨And.right, fun found => ⟨?_, found⟩⟩
      obtain ⟨other, otherFound, rfl⟩ := mem_map.mp found
      exact among other (partOrder.perm.mem_iff.mp otherFound)
    · exact (pairwise_map.mpr wholeOrder.sorted).sublist filter_sublist
  have found : own member ∈ (arrangedPart.map own).take count := by
    rw [← filtered]
    apply mem_take_filter
    · rw [same, ← map_take]
      exact mem_map_of_mem first
    · rw [decide_eq_true_eq]
      exact mem_map_of_mem (partOrder.perm.mem_iff.mpr inPart)
  rw [← map_take] at found
  obtain ⟨other, otherFound, equal⟩ := mem_map.mp found
  have identical : other = member := inj_on_of_nodup_map partNodup
    (partOrder.perm.mem_iff.mp (mem_of_mem_take otherFound)) inPart equal
  rwa [identical] at otherFound

end

/-! ## Pages that end inside a mark -/

section

variable {μ : Type}

def Unsplit (size : Nat) (marks : List μ) : Prop :=
  ∀ page, 0 < page → page * size < marks.length → marks[page * size - 1]? ≠ marks[page * size]?

variable {size : Nat} {marks : List μ}

theorem unsplit_short (short : marks.length ≤ size) : Unsplit size marks := by
  intro page positive inside
  have first : size ≤ page * size := Nat.le_mul_of_pos_left size positive
  omega

theorem unsplit_of_nodup (positive : 0 < size) (distinct : marks.Nodup) :
    Unsplit size marks := by
  intro page some inside same
  have pages : 0 < page * size := Nat.mul_pos some positive
  have index := (List.getElem?_inj (by omega) distinct).mp same
  omega

theorem unsplit_long (positive : 0 < size) (long : size < marks.length) :
    Unsplit size marks ↔ marks[size - 1]? ≠ marks[size]? ∧ Unsplit size (marks.drop size) := by
  constructor
  · intro unsplit
    constructor
    · have first := unsplit 1 Nat.one_pos (by rwa [Nat.one_mul])
      rwa [Nat.one_mul] at first
    · intro page some inside
      rw [length_drop] at inside
      have moved : (page + 1) * size = size + page * size := by ring
      have pages : 0 < page * size := Nat.mul_pos some positive
      have next := unsplit (page + 1) (by omega) (by omega)
      rw [List.getElem?_drop, List.getElem?_drop]
      rw [moved] at next
      have before : size + (page * size - 1) = size + page * size - 1 := by omega
      rwa [before]
  · intro parts page some inside
    cases page with
    | zero => omega
    | succ page =>
      cases page with
      | zero =>
        rw [Nat.zero_add, Nat.one_mul]
        exact parts.1
      | succ page =>
        have moved : (page + 1 + 1) * size = size + (page + 1) * size := by ring
        have pages : 0 < (page + 1) * size := Nat.mul_pos (Nat.succ_pos page) positive
        rw [moved] at inside ⊢
        have later := parts.2 (page + 1) (by omega) (by rw [length_drop]; omega)
        rw [List.getElem?_drop, List.getElem?_drop] at later
        have before : size + ((page + 1) * size - 1) = size + (page + 1) * size - 1 := by omega
        rwa [before] at later

end

/-! ## Walks -/

section

variable {α γ : Type}

/-- Following the cursors from page to page until none is returned; `none` when the fuel does not reach the end. -/
def walk (request : Nat → Option γ → List α × Option γ) : Nat → Nat → Option γ → Option (List α)
  | 0, _, _ => none
  | fuel + 1, page, cursor =>
    match (request page cursor).2 with
    | none => some (request page cursor).1
    | some next => (walk request fuel (page + 1) (some next)).map ((request page cursor).1 ++ ·)

theorem walk_translate {δ : Type} {request : Nat → Option γ → List α × Option γ}
    {other : Nat → Option δ → List α × Option δ} (translate : Option γ → Option δ) (position : γ → δ)
    (translated : ∀ next, translate (some next) = some (position next))
    (same : ∀ page cursor,
      other page (translate cursor) = ((request page cursor).1, (request page cursor).2.map position))
    (fuel page : Nat) (cursor : Option γ) :
    walk request fuel page cursor = walk other fuel page (translate cursor) := by
  induction fuel generalizing page cursor with
  | zero => rfl
  | succ fuel ih =>
    rw [walk, walk, same]
    cases (request page cursor).2 with
    | none => rfl
    | some next => simp only [Option.map_some, ih, translated]

variable {κ μ : Type} [LinearOrder κ] [LinearOrder μ]

def inside (mark : α → μ) (bound : Option μ) (row : α) : Bool :=
  bound.all fun limit => mark row < limit

/-- A request answers one page: the first rows of some arrangement of what lies below its cursor's bound, with a
cursor at the page's last row when there are more. A cursor resumes below the mark of its row, or from the start
again where the mark is the least. -/
structure Serves (rows : List α) (key : α → κ) (mark : α → μ) (size : Nat) (bound : Option γ → Option μ)
    (resume : μ → Option μ) (request : Nat → Option γ → List α × Option γ) : Prop where
  positive : 0 < size
  coarser : ∀ first second, key first ≤ key second → mark first ≤ mark second
  start : bound none = none
  resumes : ∀ limit, resume limit = some limit ∨ resume limit = none ∧ ∀ row ∈ rows, limit ≤ mark row
  page : ∀ page cursor, ∃ arranged, Arranged key (rows.filter (inside mark (bound cursor))) arranged ∧
    (arranged.length ≤ size → request page cursor = (arranged, none)) ∧
    ∀ last, size < arranged.length → arranged[size - 1]? = some last → ∃ next,
      request page cursor = (arranged.take size, some next) ∧ bound (some next) = resume (mark last)

variable {rows : List α} {key : α → κ} {mark : α → μ} {size : Nat} {bound : Option γ → Option μ}
  {resume : μ → Option μ} {request : Nat → Option γ → List α × Option γ}

variable {limit : Option μ} {arranged found : List α} {last : α}

theorem filter_inside_last (coarser : ∀ first second, key first ≤ key second → mark first ≤ mark second)
    (result : Arranged key (rows.filter (inside mark limit)) arranged) (found : arranged[size - 1]? = some last)
    (positive : 0 < size) :
    (rows.filter (inside mark (some (mark last)))).Perm ((arranged.drop size).filter fun row => mark row < mark last) := by
  have lastInside : inside mark limit last = true :=
    (mem_filter.mp (result.perm.mem_iff.mp (mem_of_getElem? found))).2
  have narrowed : (rows.filter (inside mark limit)).filter (fun row => mark row < mark last) =
      rows.filter (inside mark (some (mark last))) := by
    rw [filter_filter]
    apply filter_congr
    intro row _
    simp only [inside, Option.all_some]
    cases limit with
    | none => simp
    | some limit =>
      simp only [inside, Option.all_some, decide_eq_true_eq] at lastInside
      by_cases below : mark row < mark last
      · simp [below, below.trans lastInside]
      · simp [below]
  have front : (arranged.take size).filter (fun row => mark row < mark last) = [] := by
    rw [filter_eq_nil_iff]
    intro row member
    simp only [decide_eq_true_eq, not_lt]
    obtain ⟨index, atIndex⟩ := mem_iff_getElem?.mp member
    rw [List.getElem?_take] at atIndex
    split at atIndex
    · next short =>
      by_cases same : index = size - 1
      · rw [same, found, Option.some.injEq] at atIndex
        rw [atIndex]
      · obtain ⟨indexBound, atRow⟩ := List.getElem?_eq_some_iff.mp atIndex
        obtain ⟨lastBound, atLast⟩ := List.getElem?_eq_some_iff.mp found
        have order := pairwise_iff_getElem.mp result.sorted index (size - 1) indexBound lastBound (by omega)
        rw [atRow, atLast] at order
        exact coarser last row order
    · cases atIndex
  rw [← narrowed]
  refine (result.perm.symm.filter _).trans ?_
  conv_lhs => rw [← take_append_drop size arranged, filter_append, front, nil_append]

theorem mark_le_of_drop (coarser : ∀ first second, key first ≤ key second → mark first ≤ mark second) {first row : α}
    (result : Arranged key found arranged) (atSize : arranged[size]? = some first) (member : row ∈ arranged.drop size) :
    mark row ≤ mark first := by
  obtain ⟨index, atIndex⟩ := mem_iff_getElem?.mp member
  rw [List.getElem?_drop] at atIndex
  cases index with
  | zero =>
    rw [Nat.add_zero, atSize, Option.some.injEq] at atIndex
    rw [atIndex]
  | succ index =>
    obtain ⟨sizeBound, atFirst⟩ := List.getElem?_eq_some_iff.mp atSize
    obtain ⟨rowBound, atRow⟩ := List.getElem?_eq_some_iff.mp atIndex
    have order := pairwise_iff_getElem.mp result.sorted size (size + (index + 1)) sizeBound rowBound (by omega)
    rw [atFirst, atRow] at order
    exact coarser row first order

/-- When the page ends at a change of marks, everything after it lies below its last row. -/
theorem filter_drop_iff (coarser : ∀ first second, key first ≤ key second → mark first ≤ mark second)
    (result : Arranged key found arranged) (positive : 0 < size) (long : size < arranged.length)
    (atLast : arranged[size - 1]? = some last) :
    ((arranged.drop size).filter fun row => mark row < mark last).length = (arranged.drop size).length ↔
      (arranged.map mark)[size - 1]? ≠ (arranged.map mark)[size]? := by
  have atSize : arranged[size]? = some arranged[size] := List.getElem?_eq_getElem long
  have below : mark arranged[size] ≤ mark last := by
    obtain ⟨lastBound, same⟩ := List.getElem?_eq_some_iff.mp atLast
    have order := pairwise_iff_getElem.mp result.sorted (size - 1) size lastBound long (by omega)
    rw [same] at order
    exact coarser _ _ order
  have first : arranged[size] ∈ arranged.drop size := by
    rw [mem_iff_getElem?]
    exact ⟨0, by rw [List.getElem?_drop, Nat.add_zero, atSize]⟩
  rw [List.getElem?_map, List.getElem?_map, atLast, atSize, length_filter_eq_length_iff]
  simp only [Option.map_some, ne_eq, Option.some.injEq, decide_eq_true_eq]
  constructor
  · intro every same
    exact absurd (every _ first) (same ▸ lt_irrefl _)
  · intro differ row member
    exact lt_of_le_of_lt (mark_le_of_drop coarser result atSize member) (lt_of_le_of_ne below fun same => differ same.symm)

/-- Where no page splits a mark the walk ends, with every row once and in order. -/
theorem Serves.walk_of_unsplit (serves : Serves rows key mark size bound resume request) (count page : Nat)
    (cursor : Option γ) (counted : (rows.filter (inside mark (bound cursor))).length ≤ count)
    (unsplit : Unsplit size (descending ((rows.filter (inside mark (bound cursor))).map mark))) :
    ∃ fuel result, walk request fuel page cursor = some result ∧
      Arranged key (rows.filter (inside mark (bound cursor))) result := by
  induction count generalizing page cursor with
  | zero =>
    obtain ⟨arranged, result, short, _⟩ := serves.page page cursor
    have empty : arranged.length ≤ size := by
      rw [result.perm.length_eq]
      omega
    exact ⟨1, arranged, by rw [walk, short empty], result⟩
  | succ count ih =>
    obtain ⟨arranged, result, short, long⟩ := serves.page page cursor
    by_cases fits : arranged.length ≤ size
    · exact ⟨1, arranged, by rw [walk, short fits], result⟩
    · have more : size < arranged.length := by omega
      have positive := serves.positive
      have atLast : arranged[size - 1]? = some arranged[size - 1] := List.getElem?_eq_getElem (by omega)
      obtain ⟨next, answered, resumed⟩ := long _ more atLast
      rw [← result.map_eq serves.coarser, unsplit_long positive (by rwa [length_map])] at unsplit
      have kept := (filter_drop_iff serves.coarser result positive more atLast).mpr unsplit.1
      have whole := filter_eq_self.mpr (length_filter_eq_length_iff.mp kept)
      have rest := filter_inside_last serves.coarser result atLast positive
      rw [whole] at rest
      have below := length_filter_eq_length_iff.mp kept
      have bounded : bound (some next) = some (mark arranged[size - 1]) := by
        rcases serves.resumes (mark arranged[size - 1]) with same | ⟨_, least⟩
        · rw [resumed, same]
        · have first : arranged[size] ∈ arranged.drop size := by
            rw [mem_iff_getElem?]
            exact ⟨0, by rw [List.getElem?_drop, Nat.add_zero, List.getElem?_eq_getElem more]⟩
          have listed : arranged[size] ∈ rows :=
            (mem_filter.mp (result.perm.mem_iff.mp (mem_of_mem_drop first))).1
          exact absurd (by simpa using below _ first) (not_lt.mpr (least _ listed))
      rw [← bounded] at rest
      have after : Arranged key (rows.filter (inside mark (bound (some next)))) (arranged.drop size) :=
        ⟨rest.symm, result.sorted.sublist (drop_sublist _ _)⟩
      have fewer : (rows.filter (inside mark (bound (some next)))).length ≤ count := by
        rw [rest.length_eq, length_drop]
        have total := result.perm.length_eq
        omega
      have later : Unsplit size (descending ((rows.filter (inside mark (bound (some next)))).map mark)) := by
        rw [← after.map_eq serves.coarser, map_drop]
        exact unsplit.2
      obtain ⟨fuel, others, walked, restArranged⟩ := ih (page + 1) (some next) fewer later
      have permuted : others.Perm (arranged.drop size) := restArranged.perm.trans rest
      refine ⟨fuel + 1, arranged.take size ++ others, by simp only [walk, answered, walked, Option.map_some], ?_, ?_⟩
      · refine (permuted.append_left _).trans ?_
        rw [take_append_drop]
        exact result.perm
      · have cross := result.sorted
        rw [← take_append_drop size arranged, pairwise_append] at cross
        rw [pairwise_append]
        refine ⟨cross.1, restArranged.sorted, ?_⟩
        intro first firstMember second secondMember
        exact cross.2.2 first firstMember second (permuted.mem_iff.mp secondMember)

/-- With a mark of its own for every row a walk from anywhere is what one unlimited query returns there. -/
theorem Serves.walk_of_distinct {request : Nat → Option γ → List α × Option γ} {resume : κ → Option κ}
    {bound : Option γ → Option κ} (serves : Serves rows key key size bound resume request)
    (distinct : (rows.map key).Nodup) (page : Nat) (cursor : Option γ)
    (whole : Arranged key (rows.filter (inside key (bound cursor))) arranged) :
    ∃ fuel, walk request fuel page cursor = some arranged := by
  have keys : ((rows.filter (inside key (bound cursor))).map key).Nodup :=
    distinct.sublist (filter_sublist.map key)
  have marks : (descending ((rows.filter (inside key (bound cursor))).map key)).Nodup :=
    (perm_insertionSort (· ≥ ·) _).nodup_iff.mpr keys
  obtain ⟨fuel, result, walked, ordered⟩ :=
    serves.walk_of_unsplit _ page cursor le_rfl (unsplit_of_nodup serves.positive marks)
  have same := ordered.unique (fun row rowMember other otherMember equal =>
    inj_on_of_nodup_map keys rowMember otherMember equal) whole
  exact ⟨fuel, same ▸ walked⟩

/-! ## Walks that end -/

def nextBound (rows : List α) (mark : α → μ) (size : Nat) (resume : μ → Option μ) (limit : Option μ) :
    Option (Option μ) :=
  if (rows.filter (inside mark limit)).length ≤ size then none
  else (descending ((rows.filter (inside mark limit)).map mark))[size - 1]?.map resume

def boundAfter (rows : List α) (mark : α → μ) (size : Nat) (resume : μ → Option μ) (pages : Nat)
    (limit : Option (Option μ)) : Option (Option μ) :=
  (fun limit => limit.bind (nextBound rows mark size resume))^[pages] limit

theorem boundAfter_succ (pages : Nat) (limit : Option μ) :
    boundAfter rows mark size resume (pages + 1) (some limit) =
      boundAfter rows mark size resume pages (nextBound rows mark size resume limit) := by
  rw [boundAfter, Function.iterate_succ_apply, Option.bind_some]
  rfl

theorem boundAfter_none (pages : Nat) : boundAfter rows mark size resume pages none = none := by
  induction pages with
  | zero => rfl
  | succ pages ih => exact ih

theorem boundAfter_cycle {pages : Nat} (positive : 0 < pages)
    (back : boundAfter rows mark size resume pages (some limit) = some limit) (fuel : Nat) :
    boundAfter rows mark size resume fuel (some limit) ≠ none := by
  intro ended
  have around : boundAfter rows mark size resume (pages * fuel) (some limit) = some limit := by
    unfold boundAfter at back ⊢
    rw [Function.iterate_mul]
    exact Function.IsFixedPt.iterate back fuel
  have enough : pages * fuel = (pages * fuel - fuel) + fuel := by
    have more : fuel ≤ pages * fuel := Nat.le_mul_of_pos_left fuel positive
    omega
  rw [enough, boundAfter, Function.iterate_add_apply] at around
  change boundAfter rows mark size resume _ (boundAfter rows mark size resume fuel (some limit)) = _ at around
  rw [ended, boundAfter_none] at around
  cases around

theorem Serves.request_cases (serves : Serves rows key mark size bound resume request) (page : Nat)
    (cursor : Option γ) :
    (∃ arranged, Arranged key (rows.filter (inside mark (bound cursor))) arranged ∧ arranged.length ≤ size ∧
        request page cursor = (arranged, none) ∧ nextBound rows mark size resume (bound cursor) = none) ∨
      ∃ arranged last next, Arranged key (rows.filter (inside mark (bound cursor))) arranged ∧
        size < arranged.length ∧ arranged[size - 1]? = some last ∧
        request page cursor = (arranged.take size, some next) ∧ bound (some next) = resume (mark last) ∧
        nextBound rows mark size resume (bound cursor) = some (resume (mark last)) := by
  obtain ⟨arranged, result, short, long⟩ := serves.page page cursor
  have total := result.perm.length_eq
  by_cases fits : arranged.length ≤ size
  · exact .inl ⟨arranged, result, fits, short fits, by rw [nextBound, if_pos (by omega)]⟩
  · have positive := serves.positive
    have atLast : arranged[size - 1]? = some arranged[size - 1] := List.getElem?_eq_getElem (by omega)
    obtain ⟨next, answered, resumed⟩ := long _ (by omega) atLast
    refine .inr ⟨arranged, _, next, result, by omega, atLast, answered, resumed, ?_⟩
    rw [nextBound, if_neg (by omega), ← result.map_eq serves.coarser, List.getElem?_map, atLast, Option.map_some,
      Option.map_some]

theorem Serves.boundAfter_of_walk (serves : Serves rows key mark size bound resume request) (fuel page : Nat)
    (cursor : Option γ) (result : List α) (walked : walk request fuel page cursor = some result) :
    boundAfter rows mark size resume fuel (some (bound cursor)) = none := by
  induction fuel generalizing page cursor result with
  | zero => cases walked
  | succ fuel ih =>
    rw [boundAfter_succ]
    rcases serves.request_cases page cursor with ⟨_, _, _, _, stops⟩ |
      ⟨arranged, last, next, _, _, _, answered, resumed, goes⟩
    · rw [stops, boundAfter_none]
    · simp only [walk, answered] at walked
      obtain ⟨others, later, _⟩ := Option.map_eq_some_iff.mp walked
      rw [goes, ← resumed]
      exact ih (page + 1) (some next) others later

/-- A walk that ends either came back to the start or returned no more rows than there are, all of them only where
no page splits a mark. -/
theorem Serves.length_walk (serves : Serves rows key mark size bound resume request) (fuel page : Nat)
    (cursor : Option γ) (result : List α) (walked : walk request fuel page cursor = some result) :
    (∃ pages, 0 < pages ∧ boundAfter rows mark size resume pages (some (bound cursor)) = some none) ∨
      result.length ≤ (rows.filter (inside mark (bound cursor))).length ∧
        (result.length = (rows.filter (inside mark (bound cursor))).length →
          Unsplit size (descending ((rows.filter (inside mark (bound cursor))).map mark))) := by
  induction fuel generalizing page cursor result with
  | zero => cases walked
  | succ fuel ih =>
    rcases serves.request_cases page cursor with ⟨arranged, order, fits, answered, _⟩ |
      ⟨arranged, last, next, order, more, atLast, answered, resumed, goes⟩
    · simp only [walk, answered, Option.some.injEq] at walked
      subst walked
      refine .inr ⟨order.perm.length_eq.le, fun _ => ?_⟩
      rw [← order.map_eq serves.coarser]
      exact unsplit_short (by rwa [length_map])
    · simp only [walk, answered] at walked
      obtain ⟨others, later, rfl⟩ := Option.map_eq_some_iff.mp walked
      rcases serves.resumes (mark last) with further | ⟨restart, _⟩
      · rw [further] at resumed goes
        rcases ih (page + 1) (some next) others later with ⟨pages, _, back⟩ | ⟨bounded, all⟩
        · refine .inl ⟨pages + 1, Nat.succ_pos pages, ?_⟩
          rw [boundAfter_succ, goes, ← resumed]
          exact back
        · rw [resumed] at bounded all
          have positive := serves.positive
          have rest := filter_inside_last serves.coarser order atLast positive
          have kept := length_filter_le (fun row => decide (mark row < mark last)) (arranged.drop size)
          have total := order.perm.length_eq
          have front : (arranged.take size).length = size := length_take_of_le (by omega)
          rw [rest.length_eq] at bounded all
          rw [length_drop] at kept
          rw [length_append, front]
          refine .inr ⟨by omega, fun every => ?_⟩
          have full : ((arranged.drop size).filter fun row => mark row < mark last).length =
              (arranged.drop size).length := by
            rw [length_drop]
            omega
          have ends := (filter_drop_iff serves.coarser order positive more atLast).mp full
          have whole := filter_eq_self.mpr (length_filter_eq_length_iff.mp full)
          rw [whole] at rest
          have after : Arranged key (rows.filter (inside mark (some (mark last)))) (arranged.drop size) :=
            ⟨rest.symm, order.sorted.sublist (drop_sublist _ _)⟩
          have unsplit := all (by rw [full, length_drop]; omega)
          rw [← after.map_eq serves.coarser, map_drop] at unsplit
          rw [← order.map_eq serves.coarser, unsplit_long positive (by rwa [length_map])]
          exact ⟨ends, unsplit⟩
      · refine .inl ⟨1, Nat.one_pos, ?_⟩
        rw [boundAfter_succ, goes, restart]
        rfl

/-- A walk from the start visits every row exactly once, in order, exactly when no page splits a mark. -/
theorem Serves.complete_iff (serves : Serves rows key mark size bound resume request) :
    (∃ fuel result, walk request fuel 0 none = some result ∧ Arranged key rows result) ↔
      Unsplit size (descending (rows.map mark)) := by
  have unbounded : rows.filter (inside mark (bound none)) = rows := by
    rw [serves.start, filter_eq_self]
    intro row _
    rfl
  constructor
  · intro found
    obtain ⟨fuel, result, walked, arranged⟩ := found
    rcases serves.length_walk fuel 0 none result walked with ⟨pages, positive, back⟩ | ⟨_, all⟩
    · have ended := serves.boundAfter_of_walk fuel 0 none result walked
      rw [serves.start] at back ended
      exact absurd ended (boundAfter_cycle positive back fuel)
    · rw [unbounded] at all
      exact all arranged.perm.length_eq
  · intro unsplit
    rw [← unbounded] at unsplit
    have walked := serves.walk_of_unsplit _ 0 none le_rfl unsplit
    rwa [unbounded] at walked

end

end OpsIndexer.Lib.Keyset
