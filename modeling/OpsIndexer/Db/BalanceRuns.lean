import OpsIndexer.Db.BalanceTables
import OpsIndexer.Lib.Runs

/-!
# Runs of flushes, block writes and reverts

Any sequence of `InsertBalancesBatch`, `InsertBlockDataBatch` and `DeleteBlock`, each committed or rolled back as a
whole, from empty tables. Beside the tables a run keeps what has arrived: for every key and block the last value of a
committed flush, until the block is reverted.
-/

namespace OpsIndexer.Db

open Eth OpsIndexer.Types Lib.Runs

inductive BalanceOp where
  | insertBalancesBatch (balances : List Balance)
  | insertBlockDataBatch (partitionOf : Nat → Nat) (data : BlockData)
  | deleteBlock (number : Nat)

def BalanceOp.apply (keccak256 : Bytes → Hash) (db : BalanceStore) : BalanceOp → Except BalanceError BalanceStore
  | .insertBalancesBatch balances => Db.insertBalancesBatch balances db
  | .insertBlockDataBatch partitionOf data => insertBlockDataBatchBalances partitionOf data db
  | .deleteBlock number => .ok (deleteBlockBalances keccak256 number db)

/-- One transaction: it commits, or it is rolled back; a revert's epoch is taken for good either way. -/
inductive BalanceAttempt where
  | committed (op : BalanceOp)
  | rolledBack (op : BalanceOp)
  | epochLost (number : Nat)

abbrev Arrivals := BalanceKey × Nat → Option Int

def arrive (arrived : Arrivals) (row : Balance) : Arrivals :=
  Function.update arrived (historyKeyOf row) (some (decodedBalance row).balance)

def BalanceOp.arrivals (db : BalanceStore) (arrived : Arrivals) : BalanceOp → Arrivals
  | .insertBalancesBatch balances => (atLatestEpoch db balances).foldl arrive arrived
  | .insertBlockDataBatch _ _ => arrived
  | .deleteBlock number => fun key => if key.2 = number then none else arrived key

structure BalanceRun where
  db : BalanceStore := {}
  arrived : Arrivals := fun _ => none

def BalanceAttempt.run (keccak256 : Bytes → Hash) (state : BalanceRun) : BalanceAttempt → BalanceRun
  | .committed op =>
    match op.apply keccak256 state.db with
    | .ok next => { db := next, arrived := op.arrivals state.db state.arrived }
    | .error _ => state
  | .rolledBack _ => state
  | .epochLost _ => { state with db := { state.db with balanceReorgEpoch := state.db.balanceReorgEpoch + 1 } }

theorem foldl_arrive (balances : List Balance) (arrived : Arrivals) (key : BalanceKey × Nat) :
    balances.foldl arrive arrived key =
      ((lastArrival balances key).map fun row => (decodedBalance row).balance).or (arrived key) := by
  induction balances using List.reverseRecOn with
  | nil => rfl
  | append_singleton balances row ih =>
    rw [List.foldl_concat, arrive, lastArrival, List.filter_append, List.filter_singleton]
    by_cases own : historyKeyOf row = key
    · subst own
      simp
    · rw [Function.update_of_ne (Ne.symm own), ih, decide_eq_false own, cond_false, List.append_nil]
      rfl

structure Derived (state : BalanceRun) : Prop where
  agree : BalancesAgree state.db
  history : ∀ key, state.db.balances.lookup key = state.arrived key

theorem Derived.start : Derived {} where
  agree := ⟨fun _ _ => rfl, fun _ member => absurd member (by simp), (fun _ _ found => by cases found), rfl⟩
  history := fun _ => rfl

theorem Derived.run {state : BalanceRun} (keccak256 : Bytes → Hash) (attempt : BalanceAttempt)
    (derived : Derived state) : Derived (attempt.run keccak256 state) := by
  cases attempt with
  | rolledBack op => exact derived
  | epochLost number =>
    refine ⟨⟨derived.agree.latest, derived.agree.counts, ?_, derived.agree.unpruned⟩, derived.history⟩
    exact fun key row found => (derived.agree.fence key row found).trans (Nat.le_succ _)
  | committed op =>
    rw [BalanceAttempt.run]
    cases applied : op.apply keccak256 state.db with
    | error failure => exact derived
    | ok next =>
      cases op with
      | insertBalancesBatch balances =>
        obtain ⟨agree, history⟩ := derived.agree.flush applied
        refine ⟨agree, ?_⟩
        intro key
        exact (history key).trans ((foldl_arrive _ _ key).trans (by rw [derived.history])).symm
      | insertBlockDataBatch partitionOf data =>
        obtain ⟨agree, same⟩ := derived.agree.blockWrite applied
        exact ⟨agree, fun key => (congrArg (·.lookup key) same).trans (derived.history key)⟩
      | deleteBlock number =>
        obtain ⟨agree, history⟩ := derived.agree.revert keccak256 number
        rw [← Except.ok.inj applied]
        refine ⟨agree, ?_⟩
        intro key
        exact (history key).trans (if_congr Iff.rfl rfl (derived.history key))

/-- After every attempt the current rows, the history and the holder counts are those of what has arrived. -/
theorem balance_tables_equal_history (keccak256 : Bytes → Hash) (attempts : List BalanceAttempt) :
    let state := run (BalanceAttempt.run keccak256) {} attempts
    (∀ key block, state.db.balances.lookup (key, block) = state.arrived (key, block)) ∧
    (∀ key, (state.db.tokenBalancesCurrent.lookup key).isSome ↔
      ∃ block, (state.db.balances.lookup (key, block)).isSome) ∧
    (∀ key row, state.db.tokenBalancesCurrent.lookup key = some row →
      state.db.balances.lookup (key, row.blockNumber) = some row.balance ∧
      ∀ block, (state.db.balances.lookup (key, block)).isSome → block ≤ row.blockNumber) ∧
    ∀ row ∈ state.db.store.tokens,
      state.db.holderCounts.lookup row.address = some (holders state.db.tokenBalancesCurrent row.address) := by
  intro state
  have derived : Derived state :=
    run_invariant Derived Derived.start (fun _ attempt held => held.run keccak256 attempt) attempts
  refine ⟨fun key block => derived.history (key, block), ?_, ?_, derived.agree.counts⟩
  · intro key
    have latest := derived.agree.latest key
    cases current : state.db.tokenBalancesCurrent.lookup key with
    | none =>
      rw [current] at latest
      simp only [Option.isSome_none, Bool.false_eq_true, false_iff, not_exists]
      intro block
      rw [latest block]
      simp
    | some row =>
      rw [current] at latest
      exact iff_of_true rfl ⟨row.blockNumber, by rw [latest.1]; rfl⟩
  · intro key row current
    have latest := derived.agree.latest key
    rwa [current] at latest

end OpsIndexer.Db
