import Mathlib

/-!
# A lock held shared or exclusively

Transactions stand in a list, each with the mode it holds one lock in. The lock is granted when every other
transaction's mode lets it be.
-/

namespace OpsIndexer.Lib.Locks

inductive Mode where
  | free
  | shared
  | exclusive
  deriving DecidableEq, Repr

def compatible : Mode → Mode → Bool
  | .free, _ => true
  | _, .free => true
  | .shared, .shared => true
  | _, _ => false

theorem compatible_comm (first second : Mode) : compatible first second = compatible second first := by
  cases first <;> cases second <;> rfl

theorem compatible_exclusive {mode : Mode} : compatible .exclusive mode = true ↔ mode = .free := by
  cases mode <;> simp [compatible]

section

variable {τ : Type} {transactions : List τ} {i j : Nat} {new other : τ}

theorem getElem?_set_cases (found : (transactions.set i new)[j]? = some other) :
    (j = i ∧ other = new) ∨ (j ≠ i ∧ transactions[j]? = some other) := by
  rw [List.getElem?_set] at found
  split at found
  · next same =>
    split at found
    · exact .inl ⟨same.symm, (Option.some.inj found).symm⟩
    · cases found
  · next apart => exact .inr ⟨Ne.symm apart, found⟩

theorem getElem?_concat_cases (found : (transactions ++ [new])[j]? = some other) :
    transactions[j]? = some other ∨ (j = transactions.length ∧ other = new) := by
  rw [List.getElem?_append] at found
  split at found
  · exact .inl found
  · rw [List.getElem?_singleton] at found
    split at found
    · exact .inr ⟨by omega, (Option.some.inj found).symm⟩
    · cases found

end

section

variable {τ : Type} (mode : τ → Mode)

def grants (transactions : List τ) (i : Nat) (wanted : Mode) : Bool :=
  transactions.zipIdx.all fun entry => entry.2 = i || compatible wanted (mode entry.1)

def Exclusion (transactions : List τ) : Prop :=
  ∀ (i j : Nat) (first second : τ), i ≠ j → transactions[i]? = some first → transactions[j]? = some second →
    compatible (mode first) (mode second) = true

variable {mode}

variable {transactions : List τ} {i j : Nat} {new : τ}

theorem compatible_of_grants {wanted : Mode} {other : τ} (granted : grants mode transactions i wanted = true)
    (apart : j ≠ i) (found : transactions[j]? = some other) :
    compatible wanted (mode other) = true := by
  rw [grants, List.all_eq_true] at granted
  have here := granted (other, j) (List.mk_mem_zipIdx_iff_getElem?.mpr found)
  simpa [apart] using here

theorem Exclusion.set (exclusion : Exclusion mode transactions) (i : Nat)
    (fits : ∀ j other, j ≠ i → transactions[j]? = some other → compatible (mode new) (mode other) = true) :
    Exclusion mode (transactions.set i new) := by
  intro j k first second apart atJ atK
  rcases getElem?_set_cases atJ with ⟨rfl, rfl⟩ | ⟨otherJ, stood⟩
  · rcases getElem?_set_cases atK with ⟨rfl, _⟩ | ⟨otherK, standing⟩
    · exact absurd rfl apart
    · exact fits k second otherK standing
  · rcases getElem?_set_cases atK with ⟨rfl, rfl⟩ | ⟨_, standing⟩
    · rw [compatible_comm]
      exact fits j first otherJ stood
    · exact exclusion j k first second apart stood standing

theorem Exclusion.keep (exclusion : Exclusion mode transactions) {old : τ} (found : transactions[i]? = some old)
    (weaker : mode new = mode old ∨ mode new = .free) :
    Exclusion mode (transactions.set i new) := by
  apply exclusion.set i
  intro j other apart atJ
  rcases weaker with same | free
  · rw [same]
    exact exclusion i j old other (Ne.symm apart) found atJ
  · rw [free]
    rfl

theorem Exclusion.grant (exclusion : Exclusion mode transactions)
    (granted : grants mode transactions i (mode new) = true) : Exclusion mode (transactions.set i new) := by
  apply exclusion.set i
  intro j other apart atJ
  exact compatible_of_grants granted apart atJ

theorem Exclusion.concat (exclusion : Exclusion mode transactions) (free : mode new = .free) :
    Exclusion mode (transactions ++ [new]) := by
  intro i j first second apart atI atJ
  rcases getElem?_concat_cases atI with before | ⟨_, rfl⟩
  · rcases getElem?_concat_cases atJ with earlier | ⟨_, rfl⟩
    · exact exclusion i j first second apart before earlier
    · rw [compatible_comm, free]
      rfl
  · rw [free]
    rfl

theorem Exclusion.alone (exclusion : Exclusion mode transactions) {first second : τ}
    (atI : transactions[i]? = some first) (holds : mode first = .exclusive) (apart : j ≠ i)
    (atJ : transactions[j]? = some second) : mode second = .free := by
  have fits := exclusion i j first second (Ne.symm apart) atI atJ
  rw [holds] at fits
  exact compatible_exclusive.mp fits

end

end OpsIndexer.Lib.Locks
