import OpsIndexer.Db.Store
import OpsIndexer.Lib.Keyset

/-!
# Missing block ranges

`missing_ranges.go` over the table `missing_block_ranges`: rows have an id of their own and are unique on the pair of
their ends, and they may overlap.
-/

namespace OpsIndexer.Db

open Lib.Keyset List

/-- How an operation of the store ends: `lost` is done, but its caller sees an error. -/
inductive Outcome where
  | ok
  | fail
  | lost
  deriving DecidableEq, Repr

def Outcome.applied (outcome : Outcome) : Bool :=
  outcome != .fail

structure BlockRange where
  id : Nat
  fromNumber : Nat
  toNumber : Nat
  deriving DecidableEq, Repr

namespace BlockRange

def Covers (range : BlockRange) (number : Nat) : Prop :=
  range.fromNumber ≤ number ∧ number ≤ range.toNumber

instance (range : BlockRange) (number : Nat) : Decidable (range.Covers number) :=
  inferInstanceAs (Decidable (_ ∧ _))

def ends (range : BlockRange) : Nat × Nat :=
  (range.fromNumber, range.toNumber)

/-- The loop `for blockNum := r.FromNumber; blockNum <= r.ToNumber; blockNum++`. -/
def numbers (range : BlockRange) : List Nat :=
  List.range' range.fromNumber (range.toNumber + 1 - range.fromNumber)

end BlockRange

structure MissingRanges where
  rows : List BlockRange
  nextId : Nat
  keyed : (rows.map BlockRange.id).Nodup
  fresh : ∀ row ∈ rows, row.id < nextId

namespace MissingRanges

def empty : MissingRanges where
  rows := []
  nextId := 1
  keyed := nodup_nil
  fresh := by simp

def Covers (table : MissingRanges) (number : Nat) : Prop :=
  ∃ row ∈ table.rows, row.Covers number

instance (table : MissingRanges) (number : Nat) : Decidable (table.Covers number) :=
  inferInstanceAs (Decidable (∃ row ∈ table.rows, row.Covers number))

def insertRange (table : MissingRanges) (ends : Nat × Nat) : MissingRanges :=
  if ends ∈ table.rows.map BlockRange.ends then table
  else
    { rows := table.rows ++ [⟨table.nextId, ends.1, ends.2⟩]
      nextId := table.nextId + 1
      keyed := by
        rw [map_append, map_singleton, ← concat_eq_append]
        refine List.Nodup.concat ?_ table.keyed
        intro known
        obtain ⟨row, stored, same⟩ := mem_map.mp known
        exact absurd (table.fresh row stored) (same ▸ lt_irrefl _)
      fresh := by
        intro row member
        rcases mem_append.mp member with stored | new
        · exact Nat.lt_succ_of_lt (table.fresh row stored)
        · rw [mem_singleton.mp new]
          exact Nat.lt_succ_self _ }

def keepRows (table : MissingRanges) (keep : BlockRange → Bool) : MissingRanges where
  rows := table.rows.filter keep
  nextId := table.nextId
  keyed := table.keyed.sublist (filter_sublist.map _)
  fresh := fun row member => table.fresh row (mem_of_mem_filter member)

def moveStart (table : MissingRanges) (id next : Nat) : MissingRanges where
  rows := table.rows.map fun row => if row.id = id then { row with fromNumber := next } else row
  nextId := table.nextId
  keyed := by
    have same : ∀ row : BlockRange, (if row.id = id then { row with fromNumber := next } else row).id = row.id := by
      intro row
      split <;> rfl
    simp only [map_map, Function.comp_def, same]
    exact table.keyed
  fresh := by
    intro moved member
    obtain ⟨row, stored, rfl⟩ := mem_map.mp member
    have older := table.fresh row stored
    split <;> exact older

end MissingRanges

/-! ## Queries -/

/-- A batch of inserts is one implicit transaction. -/
def saveMissingRanges (table : MissingRanges) (ranges : List (Nat × Nat)) : MissingRanges :=
  ranges.foldl MissingRanges.insertRange table

def requeueMissingBlock (table : MissingRanges) (blockNum : Nat) : MissingRanges :=
  table.insertRange (blockNum, blockNum)

def getMissingRangesBatch (sorter : Sorter BlockRange.fromNumber) (prunedThrough batchSize : Nat)
    (table : MissingRanges) : List BlockRange :=
  ((sorter.sort (table.rows.filter fun row => historyFrom prunedThrough ≤ row.toNumber)).take batchSize).map fun row =>
    { row with fromNumber := max row.fromNumber (historyFrom prunedThrough) }

def getLowestMissingRanges (sorter : Sorter fun row : BlockRange => OrderDual.toDual row.fromNumber)
    (prunedThrough limit : Nat) (skip : List Nat) (table : MissingRanges) : List BlockRange :=
  let clipped := (table.rows.filter fun row => historyFrom prunedThrough ≤ row.toNumber).map fun row =>
    { row with fromNumber := max row.fromNumber (historyFrom prunedThrough) }
  (sorter.sort (clipped.filter fun row => row.fromNumber ∉ skip)).take limit

def deleteMissingRangeByBlock (table : MissingRanges) (blockNumber : Nat) : MissingRanges :=
  table.keepRows fun row => ¬row.Covers blockNumber

def deleteMissingRange (table : MissingRanges) (id : Nat) : MissingRanges :=
  table.keepRows fun row => row.id != id

/-- The row starts at `next`, or goes when `next` is past its end or the rest is a row of its own already. -/
def advanceMissingRange (table : MissingRanges) (range : BlockRange) (next : Nat) : MissingRanges :=
  if next ≤ range.toNumber ∧ (next, range.toNumber) ∉ table.rows.map BlockRange.ends ∧
      range.id ∈ table.rows.map BlockRange.id then
    table.moveStart range.id next
  else deleteMissingRange table range.id

/-- Each missing number, in ascending order, with `block_num - ROW_NUMBER()`. -/
def gaps (missing : List Nat) : List (Nat × Int) :=
  missing.zipIdx.map fun row => (row.1, row.1 - (row.2 + 1))

/-- `MIN` and `MAX` of a group. -/
def groupEnds (rows : List (Nat × Int)) (grp : Int) : Nat × Nat :=
  let numbers := (rows.filter fun row => row.2 = grp).map Prod.fst
  (numbers.min?.getD 0, numbers.max?.getD 0)

def findMissingBlocksInRange (blocks : List Nat) (prunedThrough fromBlock toBlock : Nat) : List (Nat × Nat) :=
  let lowest := max fromBlock (historyFrom prunedThrough)
  let rows := gaps ((List.range' lowest (toBlock + 1 - lowest)).filter fun number => number ∉ blocks)
  ((rows.map Prod.snd).dedup.map (groupEnds rows)).insertionSort fun first second => second.1 ≤ first.1

/-! ## Coverage -/

namespace MissingRanges

variable {table : MissingRanges} {number : Nat}

@[simp] theorem covers_insertRange {ends : Nat × Nat} :
    (table.insertRange ends).Covers number ↔ table.Covers number ∨ ends.1 ≤ number ∧ number ≤ ends.2 := by
  rw [insertRange]
  split
  · next known =>
    obtain ⟨row, stored, same⟩ := mem_map.mp known
    constructor
    · exact .inl
    · rintro (covered | inside)
      · exact covered
      · exact ⟨row, stored, by rwa [← same] at inside⟩
  · simp only [Covers, BlockRange.Covers, mem_append, mem_singleton, or_and_right, exists_or, exists_eq_left]

@[simp] theorem covers_keepRows {keep : BlockRange → Bool} :
    (table.keepRows keep).Covers number ↔ ∃ row ∈ table.rows, keep row = true ∧ row.Covers number := by
  simp only [Covers, keepRows, mem_filter, and_assoc]

end MissingRanges

variable {ranges : List (Nat × Nat)} {blockNumber : Nat} {ends known : Nat × Nat}

theorem covers_saveMissingRanges {table : MissingRanges} {number : Nat} :
    (saveMissingRanges table ranges).Covers number ↔
      table.Covers number ∨ ∃ ends ∈ ranges, ends.1 ≤ number ∧ number ≤ ends.2 := by
  induction ranges generalizing table with
  | nil => simp [saveMissingRanges]
  | cons ends rest ih =>
    rw [saveMissingRanges, foldl_cons, ← saveMissingRanges, ih, MissingRanges.covers_insertRange, or_assoc,
      exists_mem_cons_iff]

@[simp] theorem covers_requeueMissingBlock {table : MissingRanges} {blockNum number : Nat} :
    (requeueMissingBlock table blockNum).Covers number ↔ table.Covers number ∨ number = blockNum := by
  rw [requeueMissingBlock, MissingRanges.covers_insertRange]
  exact or_congr_right ⟨fun inside => by omega, fun same => by omega⟩

@[simp] theorem covers_deleteMissingRangeByBlock {table : MissingRanges} {number : Nat} :
    (deleteMissingRangeByBlock table blockNumber).Covers number ↔
      ∃ row ∈ table.rows, ¬row.Covers blockNumber ∧ row.Covers number := by
  rw [deleteMissingRangeByBlock, MissingRanges.covers_keepRows]
  simp only [decide_eq_true_eq]

namespace MissingRanges

variable {table : MissingRanges} {range : BlockRange} {next number : Nat}

variable {row : BlockRange}

theorem mem_rows_moveStart {id : Nat} :
    row ∈ (table.moveStart id next).rows ↔
      row ∈ table.rows ∧ row.id ≠ id ∨ ∃ old ∈ table.rows, old.id = id ∧ row = { old with fromNumber := next } := by
  simp only [moveStart, mem_map]
  constructor
  · rintro ⟨old, member, rfl⟩
    by_cases same : old.id = id
    · exact .inr ⟨old, member, same, if_pos same⟩
    · exact .inl ⟨by rwa [if_neg same], by rwa [if_neg same]⟩
  · rintro (⟨member, other⟩ | ⟨old, member, same, rfl⟩)
    · exact ⟨row, member, if_neg other⟩
    · exact ⟨old, member, if_pos same⟩

theorem eq_of_id (member : row ∈ table.rows) (other : range ∈ table.rows) (same : row.id = range.id) :
    row = range :=
  inj_on_of_nodup_map table.keyed member other same

theorem mem_rows_advanceMissingRange (member : row ∈ table.rows) (other : row.id ≠ range.id) :
    row ∈ (advanceMissingRange table range next).rows := by
  rw [advanceMissingRange]
  split
  · exact mem_rows_moveStart.mpr (.inl ⟨member, other⟩)
  · simpa [deleteMissingRange, keepRows, member] using other

theorem covers_advanceMissingRange (stored : range ∈ table.rows) (moved : range.fromNumber < next)
    (covered : table.Covers number) :
    (advanceMissingRange table range next).Covers number ∨ range.fromNumber ≤ number ∧ number < next := by
  obtain ⟨row, member, inside⟩ := covered
  by_cases same : row.id = range.id
  · rw [eq_of_id member stored same] at inside
    by_cases below : number < next
    · exact .inr ⟨inside.1, below⟩
    · have atLeast := not_lt.mp below
      rw [advanceMissingRange]
      left
      split
      · exact ⟨_, mem_rows_moveStart.mpr (.inr ⟨range, stored, rfl, rfl⟩), atLeast, inside.2⟩
      · next kept =>
        -- the rest has a row of its own, which starts elsewhere than the range did
        have rest : (next, range.toNumber) ∈ table.rows.map BlockRange.ends := by
          by_contra missing
          exact kept ⟨atLeast.trans inside.2, missing, mem_map_of_mem stored⟩
        obtain ⟨other, recorded, ends⟩ := mem_map.mp rest
        simp only [BlockRange.ends, Prod.mk.injEq] at ends
        have differs : other.id ≠ range.id := by
          intro same
          rw [eq_of_id recorded stored same] at ends
          omega
        refine ⟨other, mem_filter.mpr ⟨recorded, by simpa using differs⟩, ?_, ?_⟩
        · exact ends.1.le.trans atLeast
        · exact inside.2.trans ends.2.ge
  · exact .inl ⟨row, mem_rows_advanceMissingRange member same, inside⟩

theorem covers_of_advanceMissingRange (stored : range ∈ table.rows) (above : range.fromNumber ≤ next)
    (covered : (advanceMissingRange table range next).Covers number) : table.Covers number := by
  obtain ⟨row, member, inside⟩ := covered
  rw [advanceMissingRange] at member
  split at member
  · rcases mem_rows_moveStart.mp member with ⟨old, _⟩ | ⟨old, recorded, same, rfl⟩
    · exact ⟨row, old, inside⟩
    · rw [eq_of_id recorded stored same] at inside
      exact ⟨range, stored, above.trans inside.1, inside.2⟩
  · exact ⟨row, mem_of_mem_filter member, inside⟩

end MissingRanges

theorem getLowestMissingRanges_rows (sorter : Sorter fun row : BlockRange => OrderDual.toDual row.fromNumber)
    (limit : Nat) (skip : List Nat) (table : MissingRanges) :
    (∀ range ∈ getLowestMissingRanges sorter 0 limit skip table, range ∈ table.rows) ∧
      ((getLowestMissingRanges sorter 0 limit skip table).map BlockRange.id).Nodup := by
  have whole : ((table.rows.filter fun row => historyFrom 0 ≤ row.toNumber).map fun row =>
      { row with fromNumber := max row.fromNumber (historyFrom 0) }) = table.rows := by
    simp [historyFrom]
  simp only [getLowestMissingRanges, whole]
  have arranged := (sorter.arranged (table.rows.filter fun row => row.fromNumber ∉ skip)).perm
  constructor
  · intro range member
    exact mem_of_mem_filter (arranged.mem_iff.mp (mem_of_mem_take member))
  · have distinct : ((table.rows.filter fun row => row.fromNumber ∉ skip).map BlockRange.id).Nodup :=
      table.keyed.sublist (filter_sublist.map _)
    exact ((arranged.map BlockRange.id).nodup_iff.mpr distinct).sublist ((take_sublist _ _).map _)

/-! ## Gaps and islands -/

variable {missing : List Nat}

theorem mem_gaps {number : Nat} {grp : Int} :
    (number, grp) ∈ gaps missing ↔ ∃ i : Nat, missing[i]? = some number ∧ grp = number - (i + 1) := by
  simp only [gaps, mem_map, Prod.mk.injEq, Prod.exists, mk_mem_zipIdx_iff_getElem?]
  constructor
  · rintro ⟨_, i, found, rfl, rfl⟩
    exact ⟨i, found, rfl⟩
  · rintro ⟨i, found, rfl⟩
    exact ⟨number, i, found, rfl, rfl⟩

theorem add_le_getElem (ascending : missing.Pairwise (· < ·)) {i : Nat} (k : Nat)
    (inside : i + k < missing.length) : missing[i] + k ≤ missing[i + k] := by
  induction k with
  | zero => exact le_rfl
  | succ k ih =>
    have below := pairwise_iff_getElem.mp ascending (i + k) (i + (k + 1)) (by omega) inside (by omega)
    have step := ih (by omega)
    omega

/-- Two missing numbers of one group stand as far apart as their rows, so every number between them is missing. -/
theorem mem_of_between (ascending : missing.Pairwise (· < ·)) {i j : Nat}
    (first : i < missing.length) (last : j < missing.length)
    (same : (missing[i] : Int) - (i + 1) = missing[j] - (j + 1)) {number : Nat} (above : missing[i] ≤ number)
    (below : number ≤ missing[j]) : number ∈ missing := by
  have inside : i + (number - missing[i]) < missing.length := by omega
  have low := add_le_getElem ascending (number - missing[i]) inside
  have rest : i + (number - missing[i]) + (j - (i + (number - missing[i]))) = j := by omega
  have high := add_le_getElem ascending (j - (i + (number - missing[i]))) (rest ▸ last)
  simp only [rest] at high
  have found : missing[i + (number - missing[i])] = number := by omega
  exact found ▸ getElem_mem inside

theorem mem_groupEnds (ascending : missing.Pairwise (· < ·)) {number : Nat} :
    (∃ ends ∈ ((gaps missing).map Prod.snd).dedup.map (groupEnds (gaps missing)),
      ends.1 ≤ number ∧ number ≤ ends.2) ↔ number ∈ missing := by
  have group (grp : Int) (other : Nat) :
      other ∈ ((gaps missing).filter fun row => row.2 = grp).map Prod.fst ↔ (other, grp) ∈ gaps missing := by
    simp
  constructor
  · rintro ⟨ends, listed, above, below⟩
    obtain ⟨_, member, rfl⟩ := mem_map.mp listed
    obtain ⟨⟨other, grp⟩, row, rfl⟩ := mem_map.mp (mem_dedup.mp member)
    have known := (group grp other).mpr row
    obtain ⟨lowest, least⟩ := Option.isSome_iff_exists.mp (isSome_min?_of_mem known)
    obtain ⟨highest, most⟩ := Option.isSome_iff_exists.mp (isSome_max?_of_mem known)
    simp only [groupEnds, least, most, Option.getD_some] at above below
    obtain ⟨i, first, low⟩ := mem_gaps.mp ((group grp lowest).mp (List.min?_mem least))
    obtain ⟨j, last, high⟩ := mem_gaps.mp ((group grp highest).mp (List.max?_mem most))
    obtain ⟨insideFirst, rfl⟩ := List.getElem?_eq_some_iff.mp first
    obtain ⟨insideLast, rfl⟩ := List.getElem?_eq_some_iff.mp last
    exact mem_of_between ascending insideFirst insideLast (low.symm.trans high) above below
  · intro member
    obtain ⟨i, found⟩ := mem_iff_getElem?.mp member
    have row := mem_gaps.mpr ⟨i, found, rfl⟩
    exact ⟨_, mem_map_of_mem (mem_dedup.mpr (mem_map_of_mem row)), List.min?_getD_le_of_mem ((group _ _).mpr row),
      le_max?_getD_of_mem ((group _ _).mpr row)⟩

/-- The scan's ranges hold exactly the numbers of the kept history that are not stored. -/
theorem mem_findMissingBlocksInRange {blocks : List Nat} {prunedThrough fromBlock toBlock number : Nat} :
    (∃ ends ∈ findMissingBlocksInRange blocks prunedThrough fromBlock toBlock, ends.1 ≤ number ∧ number ≤ ends.2) ↔
      fromBlock ≤ number ∧ historyFrom prunedThrough ≤ number ∧ number ≤ toBlock ∧ number ∉ blocks := by
  have ascending : ((List.range' (max fromBlock (historyFrom prunedThrough))
      (toBlock + 1 - max fromBlock (historyFrom prunedThrough))).filter fun number => number ∉ blocks).Pairwise
        (· < ·) := List.Pairwise.sublist filter_sublist pairwise_lt_range'
  simp only [findMissingBlocksInRange, mem_insertionSort]
  rw [mem_groupEnds ascending, mem_filter, mem_range'_1, decide_eq_true_eq]
  simp only [← and_assoc]
  exact and_congr_left fun _ => by omega

/-! ## Rows of one block -/

theorem mem_ends_insertRange {table : MissingRanges} (stored : known ∈ table.rows.map BlockRange.ends) :
    known ∈ (table.insertRange ends).rows.map BlockRange.ends := by
  rw [MissingRanges.insertRange]
  split
  · exact stored
  · rw [map_append]
    exact mem_append_left _ stored

theorem insertRange_ends (table : MissingRanges) (ends : Nat × Nat) :
    ends ∈ (table.insertRange ends).rows.map BlockRange.ends := by
  rw [MissingRanges.insertRange]
  split
  · next known => exact known
  · rw [map_append]
    exact mem_append_right _ mem_cons_self

theorem mem_ends_saveMissingRanges {table : MissingRanges} (stored : known ∈ table.rows.map BlockRange.ends) :
    known ∈ (saveMissingRanges table ranges).rows.map BlockRange.ends := by
  induction ranges generalizing table with
  | nil => exact stored
  | cons ends rest ih => exact ih (mem_ends_insertRange stored)

theorem mem_ends_deleteMissingRangeByBlock {table : MissingRanges} {number : Nat}
    (stored : (number, number) ∈ table.rows.map BlockRange.ends) (other : number ≠ blockNumber) :
    (number, number) ∈ (deleteMissingRangeByBlock table blockNumber).rows.map BlockRange.ends := by
  obtain ⟨row, member, ends⟩ := mem_map.mp stored
  simp only [BlockRange.ends, Prod.mk.injEq] at ends
  refine mem_map.mpr ⟨row, mem_filter.mpr ⟨member, ?_⟩, by simp only [BlockRange.ends, ends]⟩
  apply decide_eq_true
  rw [BlockRange.Covers]
  omega

theorem covers_of_mem_ends {table : MissingRanges} {number : Nat}
    (stored : (number, number) ∈ table.rows.map BlockRange.ends) : table.Covers number := by
  obtain ⟨row, member, ends⟩ := mem_map.mp stored
  simp only [BlockRange.ends, Prod.mk.injEq] at ends
  exact ⟨row, member, by simp only [BlockRange.Covers]; omega⟩

end OpsIndexer.Db
