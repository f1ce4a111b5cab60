import Mathlib

/-!
# Accumulating folds

A loop that fills several accumulators is read one accumulator at a time: what an observer of the state gains in one
step, it gains over the whole list.
-/

namespace OpsIndexer.Lib.Fold

open List

variable {σ α β : Type}

theorem foldl_keep (observe : σ → β) (step : σ → α → σ) (keeps : ∀ state input, observe (step state input) = observe state)
    (inputs : List α) (state : σ) : observe (inputs.foldl step state) = observe state := by
  induction inputs generalizing state with
  | nil => rfl
  | cons input rest ih => rw [foldl_cons, ih, keeps]

theorem foldl_add [AddMonoid β] (observe : σ → β) (step : σ → α → σ) (gain : α → β)
    (gains : ∀ state input, observe (step state input) = observe state + gain input) (inputs : List α) (state : σ) :
    observe (inputs.foldl step state) = observe state + (inputs.map gain).sum := by
  induction inputs generalizing state with
  | nil => simp
  | cons input rest ih => rw [foldl_cons, ih, gains, map_cons, sum_cons, add_assoc]

theorem foldl_append (observe : σ → List β) (step : σ → α → σ) (gain : α → List β)
    (gains : ∀ state input, observe (step state input) = observe state ++ gain input) (inputs : List α) (state : σ) :
    observe (inputs.foldl step state) = observe state ++ inputs.flatMap gain := by
  induction inputs generalizing state with
  | nil => simp
  | cons input rest ih => rw [foldl_cons, ih, gains, flatMap_cons, append_assoc]

theorem foldl_or (observe : σ → Prop) (step : σ → α → σ) (gain : α → Prop)
    (gains : ∀ state input, observe (step state input) ↔ observe state ∨ gain input) (inputs : List α) (state : σ) :
    observe (inputs.foldl step state) ↔ observe state ∨ ∃ input ∈ inputs, gain input := by
  induction inputs generalizing state with
  | nil => simp
  | cons input rest ih =>
    rw [foldl_cons, ih, gains, exists_mem_cons_iff, or_assoc]

theorem exists_mapM_iff (produce : α → Option β) (good : β → Prop) (inputs : List α) :
    (∃ outputs, inputs.mapM produce = some outputs ∧ ∀ output ∈ outputs, good output) ↔
      ∀ input ∈ inputs, ∃ output, produce input = some output ∧ good output := by
  induction inputs with
  | nil => simp
  | cons input rest ih =>
    rw [mapM_cons, forall_mem_cons, ← ih]
    constructor
    · intro found
      obtain ⟨outputs, done, every⟩ := found
      obtain ⟨output, first, done⟩ := Option.bind_eq_some_iff.mp done
      obtain ⟨others, later, done⟩ := Option.bind_eq_some_iff.mp done
      simp only [Option.pure_def, Option.some.injEq] at done
      rw [← done, forall_mem_cons] at every
      exact ⟨⟨output, first, every.1⟩, others, later, every.2⟩
    · intro found
      obtain ⟨⟨output, first, own⟩, others, later, every⟩ := found
      exact ⟨output :: others, by simp [first, later], forall_mem_cons.mpr ⟨own, every⟩⟩

theorem reduceOption_mapM {produce : α → Option (Option β)} {inputs : List α} {outputs : List (Option β)}
    (done : inputs.mapM produce = some outputs) :
    outputs.reduceOption = inputs.filterMap fun input => (produce input).join := by
  induction inputs generalizing outputs with
  | nil =>
    rw [mapM_nil] at done
    rw [← Option.some.inj done]
    rfl
  | cons input rest ih =>
    rw [mapM_cons] at done
    obtain ⟨first, produced, done⟩ := Option.bind_eq_some_iff.mp done
    obtain ⟨others, later, done⟩ := Option.bind_eq_some_iff.mp done
    rw [← Option.some.inj done]
    cases first with
    | none => simpa [produced, reduceOption_cons_of_none] using ih later
    | some output => simpa [produced, reduceOption_cons_of_some] using ih later

/-! ## A running choice -/

/-- `ORDER BY … LIMIT 1`: the first row no later one is better than. -/
def runningBest (better : α → α → Prop) [DecidableRel better] (rows : List α) : Option α :=
  rows.foldl (fun best row => match best with
    | none => some row
    | some best => if better best row then some row else some best) none

theorem runningBest_concat (better : α → α → Prop) [DecidableRel better] (rows : List α) (row : α) :
    runningBest better (rows ++ [row]) = match runningBest better rows with
      | none => some row
      | some best => if better best row then some row else some best := by
  simp only [runningBest, foldl_concat]

variable {better : α → α → Prop} {rows : List α}

theorem runningBest_eq_none [DecidableRel better] (none : runningBest better rows = none) : rows = [] := by
  induction rows using List.reverseRecOn with
  | nil => rfl
  | append_singleton rows row _ =>
    rw [runningBest_concat] at none
    split at none
    · cases none
    · split at none <;> cases none

theorem runningBest_eq_some [LinearOrder β] (rank : α → β) [DecidableRel better]
    (ranked : ∀ best row, better best row ↔ rank best < rank row) {best : α}
    (found : runningBest better rows = some best) : best ∈ rows ∧ ∀ row ∈ rows, rank row ≤ rank best := by
  induction rows using List.reverseRecOn generalizing best with
  | nil => cases found
  | append_singleton rows row ih =>
    rw [runningBest_concat] at found
    cases before : runningBest better rows with
    | none =>
      rw [before] at found
      rw [runningBest_eq_none before, nil_append, ← Option.some.inj found]
      simp
    | some earlier =>
      obtain ⟨member, above⟩ := ih before
      rw [before] at found
      simp only [ranked] at found
      simp only [mem_append, mem_singleton, or_imp, forall_and, forall_eq]
      split at found
      · next higher =>
        rw [← Option.some.inj found]
        exact ⟨.inr rfl, fun other listed => (above other listed).trans higher.le, le_rfl⟩
      · next lower =>
        rw [← Option.some.inj found]
        exact ⟨.inl member, above, not_lt.mp lower⟩

end OpsIndexer.Lib.Fold
