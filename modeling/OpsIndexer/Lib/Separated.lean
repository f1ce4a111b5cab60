import Mathlib

/-!
# Lists joined by a separator

Parts that hold no separator are read back from their join: a cut of the join at a separator is the join of a proper
front of the parts.
-/

namespace OpsIndexer.Lib.Separated

open List

variable {α : Type}

structure Parts (sep : α) (parts : List (List α)) : Prop where
  filled : ∀ part ∈ parts, part ≠ []
  apart : ∀ part ∈ parts, sep ∉ part

variable {sep : α} {part : List α} {parts : List (List α)}

theorem Parts.tail {rest : List (List α)} (parts : Parts sep (part :: rest)) :
    Parts sep rest :=
  ⟨fun other member => parts.filled other (mem_cons_of_mem _ member),
    fun other member => parts.apart other (mem_cons_of_mem _ member)⟩

theorem intercalate_ne_nil (separated : Parts sep parts) (some : parts ≠ []) :
    [sep].intercalate parts ≠ [] := by
  cases parts with
  | nil => exact absurd rfl some
  | cons part rest =>
    have filled := separated.filled part mem_cons_self
    cases rest with
    | nil => simpa using filled
    | cons next rest =>
      rw [intercalate_cons_cons]
      simp

theorem intercalate_injective [DecidableEq α] {first second : List (List α)} (firstParts : Parts sep first)
    (secondParts : Parts sep second) (same : [sep].intercalate first = [sep].intercalate second) : first = second := by
  by_cases firstEmpty : first = []
  · by_contra differ
    have filled := intercalate_ne_nil secondParts fun empty => differ (firstEmpty.trans empty.symm)
    rw [firstEmpty] at same
    exact filled same.symm
  · by_cases secondEmpty : second = []
    · have filled := intercalate_ne_nil firstParts firstEmpty
      rw [secondEmpty] at same
      exact absurd same filled
    · rw [← splitOn_intercalate sep firstParts.apart firstEmpty, same,
        splitOn_intercalate sep secondParts.apart secondEmpty]

theorem append_sep_eq {left right tail : List α} (absent : sep ∉ part) :
    left ++ sep :: right = part ++ sep :: tail ↔
      left = part ∧ right = tail ∨ ∃ later, left = part ++ sep :: later ∧ tail = later ++ sep :: right := by
  constructor
  · intro same
    rcases append_eq_append_iff.mp same with ⟨middle, front, back⟩ | ⟨middle, front, back⟩
    · cases middle with
      | nil =>
        simp only [append_nil, nil_append, List.cons.injEq, true_and] at front back
        exact .inl ⟨front.symm, back⟩
      | cons first middle =>
        simp only [cons_append, List.cons.injEq] at back
        exact absurd (by simp [front, ← back.1]) absent
    · cases middle with
      | nil =>
        simp only [append_nil, nil_append, List.cons.injEq, true_and] at front back
        exact .inl ⟨front, back.symm⟩
      | cons first middle =>
        simp only [cons_append, List.cons.injEq] at back
        exact .inr ⟨middle, by rw [front, back.1], back.2⟩
  · intro cut
    rcases cut with ⟨rfl, rfl⟩ | ⟨later, rfl, rfl⟩
    · rfl
    · simp

theorem cut_iff (separated : Parts sep parts) (left : List α) :
    (∃ right, [sep].intercalate parts = left ++ sep :: right) ↔
      ∃ count, 0 < count ∧ count < parts.length ∧ left = [sep].intercalate (parts.take count) := by
  induction parts generalizing left with
  | nil => simp
  | cons part rest ih =>
    have absent := separated.apart part mem_cons_self
    cases rest with
    | nil =>
      constructor
      · intro found
        obtain ⟨right, same⟩ := found
        simp only [intercalate_singleton] at same
        exact absurd (by simp [same]) absent
      · intro found
        obtain ⟨count, positive, below, _⟩ := found
        simp only [length_singleton] at below
        omega
    | cons next rest =>
      rw [intercalate_cons_cons, append_assoc, singleton_append]
      have later := ih separated.tail
      constructor
      · intro found
        obtain ⟨right, same⟩ := found
        rcases (append_sep_eq absent).mp same.symm with ⟨rfl, _⟩ | ⟨front, rfl, tail⟩
        · exact ⟨1, by omega, by simp, by simp⟩
        · obtain ⟨count, positive, below, rfl⟩ := (later front).mp ⟨right, tail⟩
          refine ⟨count + 1, by omega, by simpa using below, ?_⟩
          cases count with
          | zero => omega
          | succ count => simp [intercalate_cons_cons]
      · intro found
        obtain ⟨count, positive, below, rfl⟩ := found
        cases count with
        | zero => omega
        | succ count =>
          cases count with
          | zero => exact ⟨[sep].intercalate (next :: rest), by simp⟩
          | succ count =>
            obtain ⟨right, tail⟩ := (later ([sep].intercalate ((next :: rest).take (count + 1)))).mpr
              ⟨count + 1, by omega, by simpa using below, rfl⟩
            exact ⟨right, by simp [intercalate_cons_cons, tail]⟩

end OpsIndexer.Lib.Separated
