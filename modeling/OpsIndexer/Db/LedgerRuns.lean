import OpsIndexer.Db.BackfillSteps
import OpsIndexer.Lib.Runs

/-!
# Runs over a ledger

Block writes, reverts, closed, pruned, dropped and compacted spans and backfill batches in any order, each committed or
refused as a whole. The running counters are what both recounts give, unless the watermark is asked to stand at block 0,
which reads as nothing pruned.
-/

namespace OpsIndexer.Db

open Eth OpsIndexer.Types Lib.Table Lib.Tally Lib.Recount
open Lib.Runs

inductive LedgerOp where
  | insertBlock (block : Block)
  | insertBlockDataBatch (data : BlockData)
  | deleteBlock (number : Nat)
  | closeSpan (bounds : List Nat) (missing : List (Nat × Nat))
  | pruneAdvance (lo hi : Nat)
  | dropRange (lo hi : Nat)
  | compact (n : Int)
  | backfill (block : BlockData) (rest : List BlockData)
  | markChecked (lo : Nat) (state : CheckState)

def LedgerOp.apply (keccak256 : Bytes → Hash) (config : LedgerConfig) (partitionOf : Nat → Nat) (ledger : Ledger) :
    LedgerOp → Option Ledger
  | .insertBlock block => (ledger.insertBlock partitionOf block).toOption
  | .insertBlockDataBatch data => (ledger.insertBlockDataBatch partitionOf data).toOption
  | .deleteBlock number => some (ledger.deleteBlock keccak256 number)
  | .closeSpan bounds missing =>
    if config.spanBlocks = 0 then none
    else
      let span := ledger.ledgerNextSpan config bounds
      ledger.ledgerCloseSpan span.1 span.2 missing
  | .pruneAdvance lo hi => ledger.pruneAdvance lo hi
  | .dropRange lo hi => ledger.dropRange lo hi
  | .compact n => some (ledger.ledgerCompact n)
  | .backfill block rest => ledger.backfillStep config block rest
  | .markChecked lo state => some (ledger.markChecked lo state)

structure LedgerAttempt where
  op : LedgerOp
  partitionOf : Nat → Nat
  committed : Bool

def LedgerAttempt.run (keccak256 : Bytes → Hash) (config : LedgerConfig) (ledger : Ledger)
    (attempt : LedgerAttempt) : Ledger :=
  if attempt.committed then (attempt.op.apply keccak256 config attempt.partitionOf ledger).getD ledger else ledger

def ledgerStart : Option Nat → Ledger
  | none => {}
  | some target => initStatsBackfill target

/-- Writes go past the closed prefix and the watermark, and reverts stay out of the closed spans. -/
def LedgerOp.Allowed (config : LedgerConfig) (ledger : Ledger) : LedgerOp → Prop
  | .insertBlock block => PastLedger config ledger block.number
  | .insertBlockDataBatch data => ∀ number ∈ writeNumbers data, PastLedger config ledger number
  | .deleteBlock number => ∀ span ∈ ledger.spans, ¬ (span.lo ≤ number ∧ number < span.hi)
  | _ => True

instance decidablePastLedger (config : LedgerConfig) (ledger : Ledger) (number : Nat) :
    Decidable (PastLedger config ledger number) :=
  inferInstanceAs (Decidable (_ ∧ _ ∧ _))

instance LedgerOp.decidableAllowed (config : LedgerConfig) (ledger : Ledger) :
    (op : LedgerOp) → Decidable (op.Allowed config ledger)
  | .insertBlock block => inferInstanceAs (Decidable (PastLedger config ledger block.number))
  | .insertBlockDataBatch data =>
    inferInstanceAs (Decidable (∀ number ∈ writeNumbers data, PastLedger config ledger number))
  | .deleteBlock number =>
    inferInstanceAs (Decidable (∀ span ∈ ledger.spans, ¬ (span.lo ≤ number ∧ number < span.hi)))
  | .closeSpan _ _ => isTrue trivial
  | .pruneAdvance _ _ => isTrue trivial
  | .dropRange _ _ => isTrue trivial
  | .compact _ => isTrue trivial
  | .backfill _ _ => isTrue trivial
  | .markChecked _ _ => isTrue trivial

/-- The watermark does not have to stand at block 0. -/
def LedgerOp.Floored (ledger : Ledger) : LedgerOp → Prop
  | .pruneAdvance _ hi => FloorMoves ledger hi
  | _ => True

instance LedgerOp.decidableFloored (ledger : Ledger) : (op : LedgerOp) → Decidable (op.Floored ledger)
  | .pruneAdvance _ hi => inferInstanceAs (Decidable (hi ≠ 1 ∨ ledger.prunedThrough ≠ 0))
  | .insertBlock _ => isTrue trivial
  | .insertBlockDataBatch _ => isTrue trivial
  | .deleteBlock _ => isTrue trivial
  | .closeSpan _ _ => isTrue trivial
  | .dropRange _ _ => isTrue trivial
  | .compact _ => isTrue trivial
  | .backfill _ _ => isTrue trivial
  | .markChecked _ _ => isTrue trivial

structure Agrees (ledger : Ledger) : Prop where
  expected : ∀ entry ∈ ledger.running, entry.2 = ledger.expected entry.1
  retained : ∀ entry ∈ ledger.running,
    entry.2 = historyRows ledger.store ledger.historyFrom entry.1 + ledger.pruneOffset entry.1
  tokens : ∀ row ∈ ledger.store.tokens,
    row.transferCount = (ledger.tokenCounted ledger.store.tokenTransfers row.address).1

variable {ledger : Ledger}

theorem Sound.agrees {config : LedgerConfig} {gone : List (Nat × CountedRow)} (sound : Sound config ledger gone) :
    Agrees ledger := by
  refine ⟨?_, ?_, ?_⟩
  · intro entry member
    rw [sound.running entry member, expected_eq sound.balanced]
  · intro entry member
    rw [sound.running entry member, retained_eq sound.balanced]
  · intro row member
    have running := ((running_iff ledger (ledger.total gone)).mp sound.running).2.2.2 row member
    rw [running, tokenCounted_fst ledger ledger.store, retained_eq sound.balanced]

theorem ledgerStart_sound (config : LedgerConfig) (start : Option Nat) (floored : start ≠ some 0) :
    Sound config (ledgerStart start) [] := by
  have noRows : storeItems ({} : Store) = [] := rfl
  cases start with
  | none =>
    refine ⟨⟨?_, ?_, ?_, ?_, ?_, ?_, ?_, ?_⟩, ?_, List.nodup_nil, ?_, ?_, ?_⟩ <;>
      simp [ledgerStart, Ledger.books, Ledger.running, Ledger.total, Ledger.stagedSpan, Apart, noRows, Span.bounds,
        Store.counter, within_iff, Books.items]
  | some target =>
    have positive : target ≠ 0 := fun zero => floored (congrArg some zero)
    have next : (({ target := target } : StatsBackfill)).next = 0 := rfl
    refine ⟨⟨?_, ?_, ?_, ?_, ?_, ?_, ?_, ?_⟩, ?_, List.nodup_nil, ?_, ?_, ?_⟩
    rotate_right 1
    · intro state running
      obtain rfl := Option.some.inj running
      refine ⟨le_rfl, Nat.zero_le _, ?_, ?_, ?_, ?_⟩
      · show target < if 0 < target then target + 1 else 0
        rw [if_pos (by omega)]
        omega
      · rw [next, Nat.zero_mod, if_pos (.inl rfl)]
      · intro lo found
        cases found
      · intro _ span member
        cases member
    all_goals
      simp [ledgerStart, initStatsBackfill, Ledger.books, Ledger.running, Ledger.total, Ledger.stagedSpan, Apart,
        noRows, Span.bounds, Store.counter, within_iff, Books.items, StatsBackfill.openLo, next, Ledger.staged,
        Ledger.openSpan, count_empty]

theorem LedgerAttempt.run_sound (keccak256 : Bytes → Hash) (config : LedgerConfig) (attempt : LedgerAttempt)
    (sound : ∃ gone, Sound config ledger gone) (allowed : attempt.op.Allowed config ledger)
    (floored : attempt.op.Floored ledger) : ∃ gone, Sound config (attempt.run keccak256 config ledger) gone := by
  obtain ⟨gone, sound⟩ := sound
  unfold LedgerAttempt.run
  split
  · cases applied : attempt.op.apply keccak256 config attempt.partitionOf ledger with
    | none => exact ⟨gone, sound⟩
    | some next =>
      rw [Option.getD_some]
      cases named : attempt.op with
      | insertBlock block =>
        rw [named] at applied allowed
        exact ⟨gone, sound.insertBlock (toOption_eq_some applied) allowed⟩
      | insertBlockDataBatch data =>
        rw [named] at applied allowed
        exact ⟨gone, sound.insertBlockDataBatch (toOption_eq_some applied) allowed⟩
      | deleteBlock number =>
        rw [named] at applied allowed
        exact ⟨gone, Option.some.inj applied ▸ sound.deleteBlock keccak256 number allowed⟩
      | closeSpan bounds missing =>
        rw [named, LedgerOp.apply] at applied
        split at applied
        · cases applied
        · exact ⟨gone, sound.closeSpan applied⟩
      | pruneAdvance lo hi =>
        rw [named] at applied floored
        exact ⟨gone, sound.pruneAdvance applied floored⟩
      | dropRange lo hi =>
        rw [named] at applied
        obtain ⟨dropped, kept⟩ := sound.dropRange applied
        exact ⟨_, kept⟩
      | compact n =>
        rw [named] at applied
        exact ⟨gone, Option.some.inj applied ▸ sound.ledgerCompact n⟩
      | backfill block rest =>
        rw [named] at applied
        obtain ⟨counted, kept⟩ := sound.backfillStep applied
        exact ⟨_, kept⟩
      | markChecked lo state =>
        rw [named] at applied
        exact ⟨gone, Option.some.inj applied ▸ sound.markChecked lo state⟩
  · exact ⟨gone, sound⟩

/-- In every state of a run in which the watermark never has to stand at block 0, the running counters agree with both
recounts. -/
theorem ledger_agrees (keccak256 : Bytes → Hash) (config : LedgerConfig) (start : Option Nat) (floored : start ≠ some 0)
    (attempts : List LedgerAttempt)
    (admits : Admits (LedgerAttempt.run keccak256 config) (ledgerStart start)
      (fun ledger attempt => attempt.op.Allowed config ledger ∧ attempt.op.Floored ledger) attempts) :
    ∀ past, past <+: attempts → Agrees (run (LedgerAttempt.run keccak256 config) (ledgerStart start) past) := by
  intro past reached
  obtain ⟨gone, sound⟩ := admits.invariant (fun ledger => ∃ gone, Sound config ledger gone)
    ⟨[], ledgerStart_sound config start floored⟩
    (fun ledger attempt sound allowed => attempt.run_sound keccak256 config sound allowed.1 allowed.2) reached
  exact sound.agrees

/-! ## Two runs -/

def transferBlock (number : Nat) (tokens : List Token) : BlockData where
  block := some { number := number, hash := toString number, parentHash := toString (number - 1) }
  transfers :=
    [{ txHash := toString number, logIndex := 0, blockNumber := number, tokenAddress := "0xt"
       fromAddress := zeroAddress, toAddress := "0xa", value := .decimal 5 }]
  tokens := tokens

def commit (op : LedgerOp) : LedgerAttempt :=
  ⟨op, fun _ => 0, true⟩

/-- The backfill counts blocks 0 and 1 while blocks 2, 3 and a far later one are stored; the span of blocks 2 and 3
closes, is pruned and dropped, and both spans are merged. The token's row is created last. -/
def prunedRun : List LedgerAttempt :=
  [commit (.insertBlockDataBatch (transferBlock 2 [])), commit (.backfill (transferBlock 0 []) []),
    commit (.insertBlockDataBatch (transferBlock 3 [])), commit (.insertBlockDataBatch (transferBlock 20000 [])),
    commit (.closeSpan [] []), commit (.backfill (transferBlock 1 []) []), commit (.pruneAdvance 2 4),
    commit (.dropRange 2 4), commit (.markChecked 0 .ok), commit (.markChecked 2 .ok), commit (.compact 2),
    commit (.insertBlockDataBatch (transferBlock 20001 [{ address := "0xt", blockNumber := 20001 }])),
    commit (.deleteBlock 20000)]

theorem ledger_agrees_prunedRun :
    (run (LedgerAttempt.run (fun _ => 0) ⟨4, 2⟩) (ledgerStart (some 1)) prunedRun).running =
        [(.blocks, 5), (.transactions, 0), (.transfers, 5), (.token "0xt", 5)] ∧
      (run (LedgerAttempt.run (fun _ => 0) ⟨4, 2⟩) (ledgerStart (some 1)) prunedRun).store.blocks.length = 1 ∧
      Agrees (run (LedgerAttempt.run (fun _ => 0) ⟨4, 2⟩) (ledgerStart (some 1)) prunedRun) := by
  refine ⟨by decide +kernel, by decide +kernel, ?_⟩
  exact ledger_agrees (fun _ => 0) ⟨4, 2⟩ (some 1) (by decide) prunedRun (by decide +kernel) prunedRun List.prefix_rfl

def genesisRun : List LedgerAttempt :=
  [commit (.backfill (transferBlock 0 []) [])]

/-- The span of block 0 stays above the watermark, so the offsets miss it. -/
theorem genesisRun_disagrees :
    Admits (LedgerAttempt.run (fun _ => 0) ⟨4, 1⟩) (ledgerStart (some 0))
        (fun ledger attempt => attempt.op.Allowed ⟨4, 1⟩ ledger) genesisRun ∧
      ¬ Agrees (run (LedgerAttempt.run (fun _ => 0) ⟨4, 1⟩) (ledgerStart (some 0)) genesisRun) := by
  refine ⟨by decide +kernel, ?_⟩
  intro agrees
  have blocks := agrees.retained (.blocks, 1) (by decide +kernel)
  have none : historyRows (run (LedgerAttempt.run (fun _ => 0) ⟨4, 1⟩) (ledgerStart (some 0)) genesisRun).store
      (run (LedgerAttempt.run (fun _ => 0) ⟨4, 1⟩) (ledgerStart (some 0)) genesisRun).historyFrom .blocks +
        (run (LedgerAttempt.run (fun _ => 0) ⟨4, 1⟩) (ledgerStart (some 0)) genesisRun).pruneOffset .blocks = 0 := by
    decide +kernel
  rw [none] at blocks
  cases blocks

end OpsIndexer.Db
