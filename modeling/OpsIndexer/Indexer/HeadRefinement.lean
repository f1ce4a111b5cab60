import OpsIndexer.Db.CounterRuns
import OpsIndexer.Indexer.HeadStore
import OpsIndexer.Lib.Runs

/-!
# The store's chain is the head loops' chain

Any run of full writes and reverts is, block by block, a run of the writes and reverts the head loops are modelled
over.
-/

namespace OpsIndexer.Indexing

open Eth OpsIndexer.Types Db Lib.Runs List

inductive HeadOp where
  | insertBlock (block : HeadBlock) (outcome : WriteOutcome)
  | deleteBlock (number : Nat) (ends : Outcome)

def HeadOp.apply (head : HeadStore) : HeadOp → HeadStore
  | .insertBlock block outcome => (head.insertBlock block outcome).1
  | .deleteBlock number ends => if ends.applied then head.deleteBlock number else head

def RowOf (row : Block) (block : HeadBlock) : Prop :=
  (row.number, row.hash, row.parentHash) = (block.number, Hash.hex block.hash, Hash.hex block.parentHash)

def Twin (attempt : Attempt) : HeadOp → Prop
  | .insertBlock block _ =>
    ∃ row, RowOf row block ∧ (attempt.op = .insertBlock row ∨
      ∃ data, attempt.op = .insertBlockDataBatch data ∧ data.block = some row)
  | .deleteBlock number _ => attempt.op = .deleteBlock number

/-- Every write is of one of these blocks, and a hash among them stands for one number. -/
structure OfBlocks (blocks : List HeadBlock) (attempts : List Attempt) : Prop where
  genuine : ∀ first ∈ blocks, ∀ second ∈ blocks, first.hash = second.hash → first.number = second.number
  ops : ∀ attempt ∈ attempts, (∃ block ∈ blocks, Twin attempt (.insertBlock block ⟨true, .ok⟩)) ∨
    ∃ number, attempt.op = .deleteBlock number

section

variable {keccak256 : Bytes → Hash} {store : Store} {head : HeadStore} {attempt : Attempt} {blocks : List HeadBlock}
  {attempts : List Attempt}

theorem write_represents (represents : Represents store head) {block : HeadBlock}
    (twin : Twin attempt (.insertBlock block ⟨true, .ok⟩))
    (genuine : ∀ other ∈ head.blocks, other.hash = block.hash → other.number = block.number) :
    ∃ outcome, Represents (attempt.run keccak256 store) (head.insertBlock block outcome).1 := by
  obtain same | applied := attempt.run_cases keccak256 store
  · exact ⟨⟨false, .ok⟩, by rwa [same]⟩
  · obtain ⟨row, texts, named | ⟨data, named, given⟩⟩ := twin
    · rw [named] at applied
      exact ⟨⟨true, .ok⟩, ((insertBlock_refines represents texts genuine).kept _ applied).2⟩
    · rw [named] at applied
      exact ⟨⟨true, .ok⟩, ((insertBlockDataBatch_refines represents texts genuine given).kept _ applied).2⟩

theorem revert_represents (represents : Represents store head) {number : Nat}
    (named : attempt.op = .deleteBlock number) :
    ∃ ends, Represents (attempt.run keccak256 store) (HeadOp.apply head (.deleteBlock number ends)) := by
  obtain same | applied := attempt.run_cases keccak256 store
  · exact ⟨.fail, by rwa [same]⟩
  · rw [named] at applied
    exact ⟨.ok, Except.ok.inj applied ▸ deleteBlock_represents represents keccak256 number⟩

theorem apply_subset (op : HeadOp) (inside : head.blocks ⊆ blocks)
    (own : ∀ block outcome, op = .insertBlock block outcome → block ∈ blocks) : (op.apply head).blocks ⊆ blocks := by
  cases op with
  | insertBlock block outcome =>
    obtain same | ⟨fresh, added⟩ := (HeadStore.insertBlock_inserts head block outcome).cases
    · rwa [HeadOp.apply, same]
    · rw [HeadOp.apply, added]
      intro other member
      rcases (HeadStore.mem_addBlock fresh).mp member with stored | same
      · exact inside stored
      · exact same ▸ own block outcome rfl
  | deleteBlock number ends =>
    rw [HeadOp.apply]
    split
    · exact fun other member => inside (mem_of_mem_filter member)
    · exact inside

theorem attempt_related (keccak256 : Bytes → Hash) (ofBlocks : OfBlocks blocks attempts) (member : attempt ∈ attempts)
    (related : Represents store head ∧ head.blocks ⊆ blocks) :
    ∃ op, Twin attempt op ∧ Represents (attempt.run keccak256 store) (op.apply head) ∧
      (op.apply head).blocks ⊆ blocks := by
  obtain ⟨represents, inside⟩ := related
  obtain ⟨block, known, twin⟩ | ⟨number, revert⟩ := ofBlocks.ops attempt member
  · obtain ⟨outcome, next⟩ := write_represents represents twin fun other stored same =>
      ofBlocks.genuine other (inside stored) block known same
    refine ⟨.insertBlock block outcome, twin, next, apply_subset _ inside ?_⟩
    intro _ _ same
    cases same
    exact known
  · obtain ⟨ends, next⟩ := revert_represents represents revert
    exact ⟨.deleteBlock number ends, revert, next, apply_subset _ inside nofun⟩

end

/-- Every run of the full store, its refused and rolled back operations included, has a run of the loops' operations
on the same blocks. After each step the one chain is the other written out, and the next write of either kind, of any
of the blocks, refines the loops' write. -/
theorem runStore_refines_head (keccak256 : Bytes → Hash) (blocks : List HeadBlock) (attempts : List Attempt)
    (ofBlocks : OfBlocks blocks attempts) :
    ∃ ops, List.Forall₂ Twin attempts ops ∧ ∀ n,
      Represents (runStore keccak256 (attempts.take n)) (run HeadOp.apply .empty (ops.take n)) ∧
      ∀ block ∈ blocks, ∀ row, RowOf row block → ∀ partitionOf,
        Refines (run HeadOp.apply .empty (ops.take n)) block row
          (Db.insertBlock partitionOf row (runStore keccak256 (attempts.take n))) ∧
        (checkBlock row = .ok () →
          ((∃ next, Db.insertBlock partitionOf row (runStore keccak256 (attempts.take n)) = .ok next) ↔
            ((run HeadOp.apply .empty (ops.take n)).insertBlock block ⟨true, .ok⟩).2 = none)) ∧
        ∀ data : BlockData, data.block = some row →
          Refines (run HeadOp.apply .empty (ops.take n)) block row
            (insertBlockDataBatch partitionOf data (runStore keccak256 (attempts.take n))) := by
  obtain ⟨ops, twins, all⟩ := run_simulated (fun store head => Represents store head ∧ head.blocks ⊆ blocks) {}
    HeadStore.empty ⟨rfl, nil_subset _⟩ fun _ member _ _ => attempt_related keccak256 ofBlocks member
  refine ⟨ops, twins, ?_⟩
  intro n
  obtain ⟨represents, inside⟩ := all n
  refine ⟨represents, ?_⟩
  intro block known row texts partitionOf
  have genuine := fun other stored same => ofBlocks.genuine other (inside stored) block known same
  exact ⟨insertBlock_refines represents texts genuine, insertBlock_kept_iff represents texts genuine,
    fun data named => insertBlockDataBatch_refines represents texts genuine named⟩

def forkRow (hash : Hash) : Block where
  number := 1
  hash := Hash.hex hash
  parentHash := Hash.hex 0

def forkRun : List Attempt :=
  [.insertBlock (forkRow 5), .insertBlock (forkRow 6), .deleteBlock 1, .insertBlock (forkRow 6)].map
    fun op => ⟨op, fun _ => 0, true⟩

theorem runStore_refines_head_fork :
    (runStore (fun _ => 0) forkRun).blocks = [forkRow 6] ∧ ∃ ops, List.Forall₂ Twin forkRun ops ∧
      ∀ n, Represents (runStore (fun _ => 0) (forkRun.take n)) (run HeadOp.apply .empty (ops.take n)) := by
  have write (hash : Hash) : Twin ⟨.insertBlock (forkRow hash), fun _ => 0, true⟩
      (.insertBlock ⟨1, hash, 0⟩ ⟨true, .ok⟩) := ⟨forkRow hash, rfl, .inl rfl⟩
  have ofBlocks : OfBlocks [⟨1, 5, 0⟩, ⟨1, 6, 0⟩] forkRun := by
    refine ⟨by decide, ?_⟩
    simp only [forkRun, map_cons, map_nil, forall_mem_cons, exists_mem_cons_iff]
    exact ⟨.inl (.inl (write 5)), .inl (.inr (.inl (write 6))), .inr ⟨1, rfl⟩, .inl (.inr (.inl (write 6))), nofun⟩
  obtain ⟨ops, twins, all⟩ := runStore_refines_head (fun _ => 0) _ forkRun ofBlocks
  exact ⟨by decide +kernel, ops, twins, fun n => (all n).1⟩

end OpsIndexer.Indexing
