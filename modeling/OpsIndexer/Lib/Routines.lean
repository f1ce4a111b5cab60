import Mathlib

/-!
# Routines over shared state

A bag of routines that take turns: one of them is taken out, acts on the shared state and leaves the routines it goes on
as. What every act keeps, wherever in the bag the routine stands, every turn keeps.
-/

namespace OpsIndexer.Lib.Routines

variable {σ ρ ι : Type}

structure Pool (σ ρ : Type) where
  shared : σ
  routines : List ρ

namespace Pool

def spawn (pool : Pool σ ρ) (routine : ρ) : Pool σ ρ :=
  { pool with routines := routine :: pool.routines }

variable [DecidableEq ρ] (act : σ → ρ → ι → σ × List ρ)

def turn (pool : Pool σ ρ) (routine : ρ) (input : ι) : Pool σ ρ :=
  if routine ∈ pool.routines then
    { shared := (act pool.shared routine input).1
      routines := (act pool.shared routine input).2 ++ pool.routines.erase routine }
  else pool

variable {act}

theorem turn_invariant (invariant : σ → List ρ → Prop)
    (perm : ∀ {shared routines others}, routines.Perm others → invariant shared routines → invariant shared others)
    (acts : ∀ shared routine rest input, invariant shared (routine :: rest) →
      invariant (act shared routine input).1 ((act shared routine input).2 ++ rest))
    {pool : Pool σ ρ} (holds : invariant pool.shared pool.routines) (routine : ρ) (input : ι) :
    invariant (pool.turn act routine input).shared (pool.turn act routine input).routines := by
  rw [turn]
  split
  · next member => exact acts _ _ _ _ (perm (List.perm_cons_erase member) holds)
  · exact holds

end Pool

end OpsIndexer.Lib.Routines
