import OpsIndexer.Db.Counters
import OpsIndexer.Db.DeleteBlock
import OpsIndexer.Db.MissingRanges

/-!
# The store as the head loops see it

Of the stored chain the head loops read numbers, hashes and parent hashes, and of the rest `missing_block_ranges`. A
write names the block and how its operations end; the full writes of `internal/db` do to the stored chain what the
writes here do, as long as a hash stands for one block.
-/

namespace OpsIndexer.Indexing

open Eth OpsIndexer.Types Db Lib.Table List

structure HeadBlock where
  number : Nat
  hash : Hash
  parentHash : Hash
  deriving DecidableEq, Repr

structure HeadStore where
  /-- In the order they were committed; `number` is the primary key. -/
  blocks : List HeadBlock
  keyed : (blocks.map HeadBlock.number).Nodup
  ranges : MissingRanges
  prunedThrough : Nat

inductive HeadError where
  /-- `StoredBlockDiffersError`. -/
  | differs (number : Nat)
  | other
  deriving DecidableEq, Repr

/-- How a block's write ends: whether `BeginBlockData` meets an error of its own, and how `Finish` ends. -/
structure WriteOutcome where
  begins : Bool
  ends : Outcome
  deriving DecidableEq, Repr

inductive HeadWrite where
  /-- The block is stored already, so its write is dropped. -/
  | stored
  | opened (block : HeadBlock)
  deriving DecidableEq, Repr

namespace HeadStore

def empty : HeadStore where
  blocks := []
  keyed := nodup_nil
  ranges := MissingRanges.empty
  prunedThrough := 0

def Stored (store : HeadStore) (number : Nat) : Prop :=
  ∃ block ∈ store.blocks, block.number = number

instance (store : HeadStore) (number : Nat) : Decidable (store.Stored number) :=
  inferInstanceAs (Decidable (∃ block ∈ store.blocks, block.number = number))

def getBlock (store : HeadStore) (number : Nat) : Option HeadBlock :=
  store.blocks.find? fun block => block.number = number

def highestBlockAtOrBelow (store : HeadStore) (number : Nat) : Option HeadBlock :=
  (store.blocks.filter fun block => block.number ≤ number).argmax HeadBlock.number

def getLatestBlockNumber (store : HeadStore) : Nat :=
  (store.blocks.argmax HeadBlock.number).elim 0 HeadBlock.number

/-! ## Writes -/

def beginBlockData (store : HeadStore) (block : HeadBlock) (begins : Bool) : Except HeadError HeadWrite :=
  if begins then
    match store.getBlock block.number with
    | none => .ok (.opened block)
    | some row => if row.hash = block.hash then .ok .stored else .error (.differs block.number)
  else .error .other

def addBlock (store : HeadStore) (block : HeadBlock) : HeadStore :=
  if absent : block.number ∈ store.blocks.map HeadBlock.number then store
  else
    { store with
      blocks := store.blocks ++ [block]
      keyed := by
        rw [map_append, map_singleton, ← concat_eq_append]
        exact List.Nodup.concat absent store.keyed }

def finish (store : HeadStore) (write : HeadWrite) (ends : Outcome) : HeadStore × Bool :=
  match write with
  | .stored => (store, true)
  | .opened block => (if ends.applied then store.addBlock block else store, ends == .ok)

/-- `InsertBlockDataBatch`, and `InsertBlock` for a block without transactions. -/
def insertBlock (store : HeadStore) (block : HeadBlock) (outcome : WriteOutcome) : HeadStore × Option HeadError :=
  match store.beginBlockData block outcome.begins with
  | .error failure => (store, some failure)
  | .ok write =>
    match store.finish write outcome.ends with
    | (next, true) => (next, none)
    | (next, false) => (next, some .other)

def deleteBlock (store : HeadStore) (number : Nat) : HeadStore where
  blocks := store.blocks.filter fun block => block.number ≠ number
  keyed := store.keyed.sublist (filter_sublist.map _)
  ranges := store.ranges
  prunedThrough := store.prunedThrough

/-! ## Reads -/

variable {store : HeadStore} {number : Nat} {block : HeadBlock}

theorem getBlock_eq_some :
    store.getBlock number = some block ↔ block ∈ store.blocks ∧ block.number = number := by
  constructor
  · intro found
    exact ⟨mem_of_find?_eq_some found, by simpa using List.find?_some found⟩
  · rintro ⟨member, rfl⟩
    cases found : store.getBlock block.number with
    | none => simpa using List.find?_eq_none.mp found block member
    | some other =>
      have same : other.number = block.number := by simpa using List.find?_some found
      rw [inj_on_of_nodup_map store.keyed (mem_of_find?_eq_some found) member same]

theorem getBlock_eq_none :
    store.getBlock number = none ↔ ¬store.Stored number := by
  simp [getBlock, Stored, List.find?_eq_none]

theorem Stored.getBlock (stored : store.Stored number) :
    ∃ block, store.getBlock number = some block := by
  obtain ⟨block, member, same⟩ := stored
  exact ⟨block, getBlock_eq_some.mpr ⟨member, same⟩⟩

theorem highestBlockAtOrBelow_eq_none :
    store.highestBlockAtOrBelow number = none ↔ ∀ lower ≤ number, ¬store.Stored lower := by
  rw [highestBlockAtOrBelow, argmax_eq_none, filter_eq_nil_iff]
  simp only [Stored, decide_eq_true_eq]
  constructor
  · rintro above lower below ⟨block, member, rfl⟩
    exact above block member below
  · intro absent block member below
    exact absent block.number below ⟨block, member, rfl⟩

theorem highestBlockAtOrBelow_eq_some (found : store.highestBlockAtOrBelow number = some block) :
    block ∈ store.blocks ∧ block.number ≤ number ∧
      ∀ lower ≤ number, store.Stored lower → lower ≤ block.number := by
  have member := argmax_mem found
  rw [mem_filter, decide_eq_true_eq] at member
  refine ⟨member.1, member.2, ?_⟩
  rintro lower below ⟨other, stored, rfl⟩
  exact le_of_mem_argmax (mem_filter.mpr ⟨stored, decide_eq_true below⟩) found

theorem Stored.le_latest (stored : store.Stored number) :
    number ≤ store.getLatestBlockNumber := by
  obtain ⟨block, member, rfl⟩ := stored
  rw [getLatestBlockNumber]
  cases found : store.blocks.argmax HeadBlock.number with
  | none =>
    rw [argmax_eq_none.mp found] at member
    cases member
  | some highest => exact le_of_mem_argmax member found

/-! ## What writes do -/

@[simp] theorem ranges_addBlock (store : HeadStore) (block : HeadBlock) :
    (store.addBlock block).ranges = store.ranges := by
  rw [addBlock]
  split <;> rfl

@[simp] theorem prunedThrough_addBlock (store : HeadStore) (block : HeadBlock) :
    (store.addBlock block).prunedThrough = store.prunedThrough := by
  rw [addBlock]
  split <;> rfl

theorem mem_addBlock {other : HeadBlock} (fresh : ¬store.Stored block.number) :
    other ∈ (store.addBlock block).blocks ↔ other ∈ store.blocks ∨ other = block := by
  have absent : block.number ∉ store.blocks.map HeadBlock.number := by
    intro known
    obtain ⟨row, member, same⟩ := mem_map.mp known
    exact fresh ⟨row, member, same⟩
  rw [addBlock, dif_neg absent, mem_append, mem_singleton]

theorem stored_addBlock :
    (store.addBlock block).Stored number ↔ store.Stored number ∨ number = block.number := by
  by_cases known : store.Stored block.number
  · have same : store.addBlock block = store := by
      obtain ⟨row, member, same⟩ := known
      exact dif_pos (mem_map.mpr ⟨row, member, same⟩)
    rw [same]
    exact ⟨.inl, fun stored => stored.elim id fun equal => equal ▸ known⟩
  · simp only [Stored, mem_addBlock known, or_and_right, exists_or, exists_eq_left]
    exact or_congr_right eq_comm

theorem stored_deleteBlock {deleted : Nat} :
    (store.deleteBlock deleted).Stored number ↔ store.Stored number ∧ number ≠ deleted := by
  simp only [Stored, deleteBlock, mem_filter, decide_eq_true_eq]
  constructor
  · rintro ⟨block, ⟨member, other⟩, rfl⟩
    exact ⟨⟨block, member, rfl⟩, other⟩
  · rintro ⟨⟨block, member, rfl⟩, other⟩
    exact ⟨block, ⟨member, other⟩, rfl⟩

theorem insertBlock_refused (store : HeadStore) (block : HeadBlock) (ends : Outcome) :
    store.insertBlock block ⟨false, ends⟩ = (store, some .other) :=
  rfl

theorem insertBlock_fresh (fresh : ¬store.Stored block.number) (ends : Outcome) :
    store.insertBlock block ⟨true, ends⟩ =
      (if ends.applied then store.addBlock block else store, if ends = .ok then none else some .other) := by
  simp only [insertBlock, beginBlockData, if_true, getBlock_eq_none.mpr fresh, finish]
  cases ends <;> rfl

theorem insertBlock_found {row : HeadBlock} (found : store.getBlock block.number = some row) (ends : Outcome) :
    store.insertBlock block ⟨true, ends⟩ =
      (store, if row.hash = block.hash then none else some (.differs block.number)) := by
  simp only [insertBlock, beginBlockData, if_true, found]
  by_cases same : row.hash = block.hash
  · simp only [if_pos same, finish]
  · simp only [if_neg same]

structure Inserts (store : HeadStore) (block : HeadBlock) (next : HeadStore) (failure : Option HeadError) : Prop where
  cases : next = store ∨ ¬store.Stored block.number ∧ next = store.addBlock block
  done : failure = none → ∃ row ∈ next.blocks, row.number = block.number ∧ row.hash = block.hash
  differs : ∀ number, failure = some (.differs number) → number = block.number ∧ next = store

theorem insertBlock_inserts (store : HeadStore) (block : HeadBlock) (outcome : WriteOutcome) :
    Inserts store block (store.insertBlock block outcome).1 (store.insertBlock block outcome).2 := by
  obtain ⟨begins, ends⟩ := outcome
  cases begins with
  | false =>
    rw [insertBlock_refused]
    exact ⟨.inl rfl, by simp, by simp⟩
  | true =>
    cases found : store.getBlock block.number with
    | none =>
      have fresh := getBlock_eq_none.mp found
      rw [insertBlock_fresh fresh]
      cases ends with
      | ok => exact ⟨.inr ⟨fresh, rfl⟩, fun _ => ⟨block, (mem_addBlock fresh).mpr (.inr rfl), rfl, rfl⟩, by simp⟩
      | fail => exact ⟨.inl rfl, by simp, by simp⟩
      | lost => exact ⟨.inr ⟨fresh, rfl⟩, by simp, by simp⟩
    | some row =>
      obtain ⟨member, number⟩ := getBlock_eq_some.mp found
      rw [insertBlock_found found]
      refine ⟨.inl rfl, ?_, ?_⟩
      · intro none
        split at none
        · next same => exact ⟨row, member, number, same⟩
        · cases none
      · intro other differs
        split at differs
        · cases differs
        · cases differs
          exact ⟨rfl, rfl⟩

end HeadStore

/-! ## The full store -/

def Represents (store : Store) (head : HeadStore) : Prop :=
  store.blocks.map (fun row => (row.number, row.hash, row.parentHash)) =
    head.blocks.map fun block => (block.number, Hash.hex block.hash, Hash.hex block.parentHash)

section

variable {store : Store} {head : HeadStore} {partitionOf : Nat → Nat} {row : Block} {block : HeadBlock}

theorem Represents.find (represents : Represents store head) (number : Nat) :
    (store.blocks.find? fun row => row.number = number).map (·.hash) =
      (head.getBlock number).map fun block => Hash.hex block.hash := by
  have found := congrArg (fun rows => (rows.find? fun row => row.1 = number).map (·.2.1)) represents
  simpa only [HeadStore.getBlock, List.find?_map, Function.comp_def, Option.map_map] using found

/-- Where a hash stands for one block, a row is in the way exactly when its number is stored. -/
theorem conflicts_iff (represents : Represents store head) (number : row.number = block.number)
    (hash : row.hash = Hash.hex block.hash)
    (genuine : ∀ other ∈ head.blocks, other.hash = block.hash → other.number = block.number) :
    store.blocks.any (blockConflicts partitionOf row) = true ↔ head.Stored block.number := by
  have texts := congrArg (fun rows => rows.any fun other =>
    other.1 = row.number || (other.2.1 = row.hash && partitionOf other.1 = partitionOf row.number)) represents
  simp only [any_map, Function.comp_def] at texts
  rw [show store.blocks.any (blockConflicts partitionOf row) = _ from texts, any_eq_true]
  simp only [Bool.or_eq_true, Bool.and_eq_true, decide_eq_true_eq, number, hash, Hash.hex_inj]
  constructor
  · rintro ⟨other, member, same | ⟨same, _⟩⟩
    · exact ⟨other, member, same⟩
    · exact ⟨other, member, genuine other member same⟩
  · rintro ⟨other, member, same⟩
    exact ⟨other, member, .inl same⟩

theorem storedBlockDiffers_represents (represents : Represents store head) (number : row.number = block.number)
    (hash : row.hash = Hash.hex block.hash) {other : HeadBlock} (found : head.getBlock block.number = some other) :
    storedBlockDiffers store row =
      if other.hash = block.hash then .ok ()
      else .error (.storedBlockDiffers block.number (Hash.hex other.hash) (Hash.hex block.hash)) := by
  have texts := represents.find block.number
  rw [found, Option.map_some] at texts
  obtain ⟨stored, atNumber, same⟩ := Option.map_eq_some_iff.mp texts
  simp only [storedBlockDiffers, number, atNumber, hash, same, lower_hashHex, Hash.hex_inj]

variable {next : Store}

theorem represents_added (represents : Represents store head) (fresh : ¬head.Stored block.number)
    (texts : (row.number, row.hash, row.parentHash) =
      (block.number, Hash.hex block.hash, Hash.hex block.parentHash)) (blocks : next.blocks = store.blocks ++ [row]) :
    Represents next (head.addBlock block) := by
  have absent : block.number ∉ head.blocks.map HeadBlock.number := by
    intro known
    obtain ⟨other, member, same⟩ := mem_map.mp known
    exact fresh ⟨other, member, same⟩
  rw [Represents, blocks, HeadStore.addBlock, dif_neg absent, map_append, map_append, represents]
  simp only [map_singleton, texts]

/-- A full write that is kept does to the stored chain what the loops' write without an error does. Of a block whose
values fit their columns, one that the loops' write refuses for a differing block is refused for it. -/
structure Refines (head : HeadStore) (block : HeadBlock) (row : Block) (result : Except WriteError Store) : Prop where
  kept : ∀ next, result = .ok next →
    (head.insertBlock block ⟨true, .ok⟩).2 = none ∧ Represents next (head.insertBlock block ⟨true, .ok⟩).1
  differs : ∀ number, (head.insertBlock block ⟨true, .ok⟩).2 = some (.differs number) →
    checkBlock row = .ok () →
    ∃ stored, result = .error (.storedBlockDiffers number stored (Hash.hex block.hash))

variable (represents : Represents store head)
  (texts : (row.number, row.hash, row.parentHash) = (block.number, Hash.hex block.hash, Hash.hex block.parentHash))
  (genuine : ∀ other ∈ head.blocks, other.hash = block.hash → other.number = block.number)

include represents texts genuine

theorem kept_represents (partitionOf : Nat → Nat)
    (kept : store.blocks.any (blockConflicts partitionOf row) = true ∧ storedBlockDiffers store row = .ok () ∧
        next = store ∨
      store.blocks.any (blockConflicts partitionOf row) = false ∧ next.blocks = store.blocks ++ [row]) :
    (head.insertBlock block ⟨true, .ok⟩).2 = none ∧ Represents next (head.insertBlock block ⟨true, .ok⟩).1 := by
  simp only [Prod.mk.injEq] at texts
  obtain ⟨number, hash, parentHash⟩ := texts
  rcases kept with ⟨conflict, passes, rfl⟩ | ⟨free, blocks⟩
  · obtain ⟨other, found⟩ := ((conflicts_iff represents number hash genuine).mp conflict).getBlock
    rw [storedBlockDiffers_represents represents number hash found] at passes
    rw [HeadStore.insertBlock_found found]
    split at passes
    · next same => exact ⟨if_pos same, represents⟩
    · cases passes
  · have fresh : ¬head.Stored block.number := by
      rw [← conflicts_iff represents number hash genuine, free]
      exact Bool.false_ne_true
    rw [HeadStore.insertBlock_fresh fresh]
    exact ⟨rfl, represents_added represents fresh (by rw [number, hash, parentHash]) blocks⟩

theorem differs_represents (partitionOf : Nat → Nat) {number : Nat}
    (differs : (head.insertBlock block ⟨true, .ok⟩).2 = some (.differs number)) :
    store.blocks.any (blockConflicts partitionOf row) = true ∧
      ∃ stored, storedBlockDiffers store row = .error (.storedBlockDiffers number stored (Hash.hex block.hash)) := by
  simp only [Prod.mk.injEq] at texts
  cases found : head.getBlock block.number with
  | none =>
    rw [HeadStore.insertBlock_fresh (HeadStore.getBlock_eq_none.mp found)] at differs
    cases differs
  | some other =>
    rw [HeadStore.insertBlock_found found] at differs
    obtain ⟨member, same⟩ := HeadStore.getBlock_eq_some.mp found
    refine ⟨(conflicts_iff represents texts.1 texts.2.1 genuine).mpr ⟨other, member, same⟩, Hash.hex other.hash, ?_⟩
    rw [storedBlockDiffers_represents represents texts.1 texts.2.1 found]
    split at differs
    · cases differs
    · next another =>
      cases differs
      exact if_neg another

theorem insertBlock_refines : Refines head block row (Db.insertBlock partitionOf row store) where
  kept := by
    intro next done
    refine kept_represents represents texts genuine partitionOf ?_
    unfold Db.insertBlock at done
    obtain ⟨_, _, done⟩ := bind_eq_ok.mp done
    split at done
    · next conflict =>
      obtain ⟨_, passes, done⟩ := bind_eq_ok.mp done
      exact .inl ⟨conflict, passes, (Except.ok.inj done).symm⟩
    · next free =>
      cases done
      exact .inr ⟨Bool.not_eq_true _ ▸ free, rfl⟩
  differs := by
    intro number differs accepted
    obtain ⟨conflict, stored, refused⟩ := differs_represents represents texts genuine partitionOf differs
    refine ⟨stored, ?_⟩
    unfold Db.insertBlock
    simp only [accepted, conflict, refused, bind, Except.bind, if_true]

theorem insertBlock_kept_iff (accepted : checkBlock row = .ok ()) :
    (∃ next, Db.insertBlock partitionOf row store = .ok next) ↔ (head.insertBlock block ⟨true, .ok⟩).2 = none := by
  constructor
  · intro kept
    obtain ⟨next, done⟩ := kept
    exact ((insertBlock_refines represents texts genuine).kept next done).1
  · intro succeeds
    simp only [Prod.mk.injEq] at texts
    unfold Db.insertBlock
    simp only [accepted, bind, Except.bind]
    split
    · next conflict =>
      obtain ⟨other, found⟩ := ((conflicts_iff represents texts.1 texts.2.1 genuine).mp conflict).getBlock
      rw [HeadStore.insertBlock_found found] at succeeds
      split at succeeds
      · next same =>
        rw [storedBlockDiffers_represents represents texts.1 texts.2.1 found, if_pos same]
        exact ⟨store, rfl⟩
      · cases succeeds
    · exact ⟨_, rfl⟩

theorem insertBlockDataBatch_refines {data : BlockData} (named : data.block = some row) :
    Refines head block row (insertBlockDataBatch partitionOf data store) where
  kept := by
    intro next done
    refine kept_represents represents texts genuine partitionOf ?_
    unfold insertBlockDataBatch beginBlockData at done
    obtain ⟨write, begun, finished⟩ := bind_eq_ok.mp done
    simp only [named] at begun
    obtain ⟨_, _, begun⟩ := bind_eq_ok.mp begun
    split at begun
    · next conflict =>
      obtain ⟨_, passes, begun⟩ := bind_eq_ok.mp begun
      cases begun
      exact .inl ⟨conflict, passes, (Except.ok.inj finished).symm⟩
    · next free =>
      cases own : writeOwnRows partitionOf data 1 { store with blocks := store.blocks ++ [row] } with
      | error failure =>
        rw [own] at begun
        cases begun
      | ok opened =>
        rw [own] at begun
        cases begun
        have blocks := (writeSharedRows_ok finished).1.trans (writeOwnRows_ok own).1.blocks
        exact .inr ⟨Bool.not_eq_true _ ▸ free, blocks⟩
  differs := by
    intro number differs accepted
    obtain ⟨conflict, stored, refused⟩ := differs_represents represents texts genuine partitionOf differs
    refine ⟨stored, ?_⟩
    unfold insertBlockDataBatch beginBlockData
    simp only [named, accepted, conflict, refused, bind, Except.bind, if_true]

omit texts genuine in
theorem deleteBlock_represents (keccak256 : Bytes → Hash) (number : Nat) :
    Represents (Db.deleteBlock keccak256 number store) (head.deleteBlock number) := by
  have kept := congrArg (List.filter fun row => row.1 ≠ number) represents
  simp only [filter_map, Function.comp_def] at kept
  exact kept

end

end OpsIndexer.Indexing
