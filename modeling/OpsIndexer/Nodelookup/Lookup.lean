import OpsIndexer.Nodelookup.MapBlock
import OpsIndexer.Lib.Keyed
import OpsIndexer.Lib.Runs

/-!
# The node lookup's cache

`internal/nodelookup/lookup.go`: whole blocks in a list with the most recent first, found by number, and two indexes
from a hash to a number. A block is told from another with the same content by its pointer, which grows with every
fetch. Each lookup has the node's answers of its time; a reply by number is the block of that number.
-/

namespace OpsIndexer.Nodelookup

open Eth OpsIndexer.Types Db Rpc Lib.Runs Lib.Table List
  Lib.Keyed

structure Config where
  maxBlocks : Int
  maxBytes : Int

def Config.withDefaults (c : Config) : Config where
  maxBlocks := if c.maxBlocks ≤ 0 then 2000 else c.maxBlocks
  maxBytes := if c.maxBytes ≤ 0 then 256 * 2 ^ 20 else c.maxBytes

structure CachedBlock where
  ptr : Nat
  mapped : MappedBlock
  size : Nat
  deriving DecidableEq, Repr

def CachedBlock.number (b : CachedBlock) : Nat :=
  b.mapped.block.number

def CachedBlock.hash (b : CachedBlock) : String :=
  b.mapped.block.hash

def CachedBlock.txHashes (b : CachedBlock) : List String :=
  b.mapped.txs.map fun tx => lower tx.hash

def blockSize (raw : RawBlock) (mapped : MappedBlock) : Nat :=
  512 + raw.extraData.length + (mapped.txs.map fun tx => 400 + tx.inputData.length).sum

structure Lookup where
  order : List CachedBlock := []
  byNumber : AList (fun _ : Nat => Nat) := ∅
  bytes : Int := 0
  txBlock : AList (fun _ : String => Nat) := ∅
  hashBlock : AList (fun _ : String => Nat) := ∅
  nextPtr : Nat := 0

inductive LookupError where
  | busy
  | node (text : String)
  | receiptsUnavailable (number missing transactions : Nat)
  deriving DecidableEq, Repr

/-- The node's answers to one lookup. A slot that is not free in time is an answer too. -/
structure Source where
  blockByNumber : Nat → Except LookupError (Option RawBlock)
  blockReceipts : Nat → Except LookupError (List (Option (Hash × Receipt)))
  blockNumberByHash : String → Except LookupError (Option Nat)
  txBlockNumber : String → Except LookupError (Option Nat)
  numbered : ∀ number raw, blockByNumber number = .ok (some raw) → raw.numberU64 = number

/-! ## The cache -/

def Lookup.cached (l : Lookup) (number : Nat) : Option (CachedBlock × Lookup) :=
  (l.byNumber.lookup number).bind fun ptr =>
    (l.order.find? fun b => b.ptr = ptr).map fun b =>
      (b, { l with order := b :: l.order.filter fun other => other.ptr ≠ ptr })

def Lookup.evict (l : Lookup) (b : CachedBlock) : Lookup :=
  { l with
    order := l.order.filter fun other => other.ptr ≠ b.ptr
    byNumber := l.byNumber.erase b.number
    bytes := l.bytes - b.size
    hashBlock := l.hashBlock.erase (lower b.hash)
    txBlock := b.txHashes.foldl (fun index hash => index.erase hash) l.txBlock }

def Lookup.overfull (cfg : Config) (l : Lookup) : Bool :=
  cfg.maxBlocks < l.order.length || (cfg.maxBytes < l.bytes && 1 < l.order.length)

def Lookup.shrink (cfg : Config) : Nat → Lookup → Lookup
  | 0, l => l
  | turns + 1, l =>
    if l.overfull cfg then
      match l.order.getLast? with
      | some last => Lookup.shrink cfg turns (l.evict last)
      | none => l
    else l

def Lookup.insert (l : Lookup) (b : CachedBlock) : Lookup :=
  { l with
    order := b :: l.order
    byNumber := l.byNumber.insert b.number b.ptr
    bytes := l.bytes + b.size
    hashBlock := l.hashBlock.insert (lower b.hash) b.number
    txBlock := b.txHashes.foldl (fun index hash => index.insert hash b.number) l.txBlock }

def Lookup.store (cfg : Config) (l : Lookup) (b : CachedBlock) : Lookup :=
  if (l.byNumber.lookup b.number).isSome then l
  else Lookup.shrink cfg (l.insert b).order.length (l.insert b)

def Lookup.forget (l : Lookup) (b : CachedBlock) : Lookup :=
  if l.byNumber.lookup b.number = some b.ptr then l.evict b else l

/-! ## Lookups -/

def missingReceipts (raw : RawBlock) (receipts : List (Option (Hash × Receipt))) : Nat :=
  (raw.transactions.filter fun tx => !receipts.any fun reply => reply.any fun entry => entry.1 = tx.hash).length

def fetch (keccak256 : Bytes → Hash) (cfg : Config) (src : Source) (number : Nat) (l : Lookup) :
    Lookup × Except LookupError (Option CachedBlock) :=
  match src.blockByNumber number with
  | .error failure => (l, .error failure)
  | .ok raw =>
    match src.blockReceipts number with
    | .error failure => (l, .error failure)
    | .ok receipts =>
      match raw with
      | none => (l, .ok none)
      | some raw =>
        let missing := missingReceipts raw receipts
        if 0 < missing then (l, .error (.receiptsUnavailable number missing raw.transactions.length))
        else
          let mapped := mapBlock keccak256 raw receipts
          let b : CachedBlock := ⟨l.nextPtr, mapped, blockSize raw mapped⟩
          (Lookup.store cfg { l with nextPtr := l.nextPtr + 1 } b, .ok (some b))

def blockByNumber (keccak256 : Bytes → Hash) (cfg : Config) (src : Source) (number : Nat) (l : Lookup) :
    Lookup × Except LookupError (Option CachedBlock) :=
  match l.cached number with
  | some (b, moved) => (moved, .ok (some b))
  | none => fetch keccak256 cfg src number l

def resolve (index : AList fun _ : String => Nat) (ask : String → Except LookupError (Option Nat)) (hash : String)
    (through : Nat) : Except LookupError (Option Nat) :=
  match index.lookup hash with
  | some number => .ok (if number ≤ through then some number else none)
  | none => (ask hash).map fun found => found.filter (· ≤ through)

def blockByHash (keccak256 : Bytes → Hash) (cfg : Config) (src : Source) (hash : String) (through : Nat)
    (l : Lookup) : Lookup × Except LookupError (Option CachedBlock) :=
  match resolve l.hashBlock src.blockNumberByHash (lower hash) through with
  | .error failure => (l, .error failure)
  | .ok none => (l, .ok none)
  | .ok (some number) =>
    match blockByNumber keccak256 cfg src number l with
    | (next, .ok (some b)) =>
      if lower b.hash = lower hash then (next, .ok (some b)) else (next.forget b, .ok none)
    | answer => answer

def transaction (keccak256 : Bytes → Hash) (cfg : Config) (src : Source) (hash : String) (through : Nat)
    (l : Lookup) : Lookup × Except LookupError (Option ServedTransaction) :=
  match resolve l.txBlock src.txBlockNumber (lower hash) through with
  | .error failure => (l, .error failure)
  | .ok none => (l, .ok none)
  | .ok (some number) =>
    match blockByNumber keccak256 cfg src number l with
    | (next, .ok (some b)) => (next, .ok (b.mapped.txs.find? fun tx => lower tx.hash = lower hash))
    | (next, .ok none) => (next, .ok none)
    | (next, .error failure) => (next, .error failure)

inductive Request where
  | blockByNumber (number : Nat)
  | blockByHash (hash : String) (through : Nat)
  | transaction (hash : String) (through : Nat)

def Lookup.serve (keccak256 : Bytes → Hash) (cfg : Config) (l : Lookup) (asked : Request × Source) : Lookup :=
  match asked.1 with
  | .blockByNumber number => (blockByNumber keccak256 cfg asked.2 number l).1
  | .blockByHash hash through => (blockByHash keccak256 cfg asked.2 hash through l).1
  | .transaction hash through => (transaction keccak256 cfg asked.2 hash through l).1

/-! ## What every state keeps -/

structure Coherent (l : Lookup) : Prop where
  numbers : (l.order.map CachedBlock.number).Nodup
  pointers : (l.order.map CachedBlock.ptr).Nodup
  allocated : ∀ b ∈ l.order, b.ptr < l.nextPtr
  byNumber : ∀ number ptr, l.byNumber.lookup number = some ptr ↔ ∃ b ∈ l.order, b.number = number ∧ b.ptr = ptr
  bytes : l.bytes = (l.order.map fun b => (b.size : Int)).sum
  hashBlock : ∀ hash number, l.hashBlock.lookup hash = some number →
    ∃ b ∈ l.order, b.number = number ∧ lower b.hash = hash
  txBlock : ∀ hash number, l.txBlock.lookup hash = some number → ∃ b ∈ l.order, b.number = number ∧ hash ∈ b.txHashes
  txs : ∀ b ∈ l.order, ∀ tx ∈ b.mapped.txs, tx.blockNumber = b.number

theorem Coherent.empty : Coherent {} := by
  refine ⟨nodup_nil, nodup_nil, ?_, ?_, rfl, ?_, ?_, ?_⟩ <;> simp

variable {l : Lookup} {b : CachedBlock} {number : Nat}

section

variable (coherent : Coherent l)

include coherent

theorem Coherent.reordered {order : List CachedBlock} (same : order.Perm l.order) :
    Coherent { l with order := order } := by
  have member (b : CachedBlock) : b ∈ order ↔ b ∈ l.order := same.mem_iff
  constructor
  · exact (same.map _).nodup_iff.mpr coherent.numbers
  · exact (same.map _).nodup_iff.mpr coherent.pointers
  · simpa only [member] using coherent.allocated
  · simpa only [member] using coherent.byNumber
  · exact coherent.bytes.trans (same.map _).sum_eq.symm
  · simpa only [member] using coherent.hashBlock
  · simpa only [member] using coherent.txBlock
  · simpa only [member] using coherent.txs

theorem Coherent.find (member : b ∈ l.order) : l.order.find? (fun other => other.ptr = b.ptr) = some b := by
  cases found : l.order.find? fun other => other.ptr = b.ptr with
  | none =>
    have absent := List.find?_eq_none.mp found b member
    simp at absent
  | some other =>
    have same : other.ptr = b.ptr := by
      simpa using List.find?_some found
    rw [inj_on_of_nodup_map coherent.pointers (mem_of_find?_eq_some found) member same]

theorem Coherent.perm (member : b ∈ l.order) : (b :: l.order.filter fun other => other.ptr ≠ b.ptr).Perm l.order := by
  have pointers := coherent.pointers
  generalize l.order = order at member pointers
  induction order with
  | nil => cases member
  | cons head rest ih =>
    rw [map_cons, nodup_cons] at pointers
    rcases mem_cons.mp member with rfl | later
    · have kept : rest.filter (fun other => other.ptr ≠ b.ptr) = rest := by
        rw [filter_eq_self]
        intro other listed
        refine decide_eq_true ?_
        intro same
        exact pointers.1 (mem_map.mpr ⟨other, listed, same⟩)
      rw [filter_cons_of_neg (by simp), kept]
    · have apart : head.ptr ≠ b.ptr := fun same => pointers.1 (mem_map.mpr ⟨b, later, same.symm⟩)
      rw [filter_cons_of_pos (by simpa using apart)]
      exact (List.Perm.swap head b _).trans ((ih later pointers.2).cons head)

theorem Coherent.cached {moved : Lookup} (hit : l.cached number = some (b, moved)) :
    Coherent moved ∧ b ∈ l.order ∧ b.number = number ∧ moved.order.Perm l.order ∧ moved.bytes = l.bytes := by
  unfold Lookup.cached at hit
  obtain ⟨ptr, held, hit⟩ := Option.bind_eq_some_iff.mp hit
  obtain ⟨found, listed, pair⟩ := Option.map_eq_some_iff.mp hit
  obtain ⟨own, member, named, pointed⟩ := (coherent.byNumber number ptr).mp held
  rw [← pointed, coherent.find member] at listed
  simp only [Prod.mk.injEq] at pair
  obtain ⟨rfl, rfl⟩ := pair
  obtain rfl := Option.some.inj listed
  rw [← pointed]
  exact ⟨coherent.reordered (coherent.perm member), member, named, coherent.perm member, rfl⟩

theorem Coherent.miss (missed : l.cached number = none) : l.byNumber.lookup number = none := by
  cases held : l.byNumber.lookup number with
  | none => rfl
  | some ptr =>
    obtain ⟨b, member, _, rfl⟩ := (coherent.byNumber number ptr).mp held
    rw [Lookup.cached, held, Option.bind_some, coherent.find member] at missed
    cases missed

omit coherent in
theorem mem_filter_ptr {other : CachedBlock} :
    other ∈ (l.order.filter fun other => other.ptr ≠ b.ptr) ↔ other ∈ l.order ∧ other.ptr ≠ b.ptr := by
  simp [mem_filter]

/-- An evicted block takes every index entry that leads to it: those are entries of its own hash and transactions. -/
theorem Coherent.evict (member : b ∈ l.order) : Coherent (l.evict b) := by
  have sub : (l.order.filter fun other => other.ptr ≠ b.ptr).Sublist l.order := filter_sublist
  have stays {other : CachedBlock} (listed : other ∈ l.order) (apart : other.number ≠ b.number) :
      other ∈ (l.evict b).order := by
    refine mem_filter_ptr.mpr ⟨listed, ?_⟩
    intro same
    exact apart (congrArg CachedBlock.number (inj_on_of_nodup_map coherent.pointers listed member same))
  constructor
  · exact coherent.numbers.sublist (sub.map _)
  · exact coherent.pointers.sublist (sub.map _)
  · intro other listed
    exact coherent.allocated other (sub.subset listed)
  · intro number ptr
    by_cases own : number = b.number
    · subst own
      simp only [Lookup.evict, AList.lookup_erase, reduceCtorEq, false_iff]
      rintro ⟨other, listed, named, _⟩
      obtain ⟨listed, apart⟩ := mem_filter_ptr.mp listed
      exact apart (congrArg CachedBlock.ptr (inj_on_of_nodup_map coherent.numbers listed member named))
    · simp only [Lookup.evict, AList.lookup_erase_ne own, coherent.byNumber]
      constructor
      · rintro ⟨other, listed, rfl, rfl⟩
        exact ⟨other, stays listed own, rfl, rfl⟩
      · rintro ⟨other, listed, rest⟩
        exact ⟨other, sub.subset listed, rest⟩
  · have whole := ((coherent.perm member).map fun b => (b.size : Int)).sum_eq
    rw [map_cons, sum_cons, ← coherent.bytes] at whole
    simp only [Lookup.evict]
    omega
  · intro hash number held
    by_cases own : hash = lower b.hash
    · subst own
      simp only [Lookup.evict, AList.lookup_erase, reduceCtorEq] at held
    · simp only [Lookup.evict, AList.lookup_erase_ne own] at held
      obtain ⟨other, listed, rfl, text⟩ := coherent.hashBlock hash number held
      refine ⟨other, stays listed ?_, rfl, text⟩
      intro same
      exact own (text.symm.trans (by rw [inj_on_of_nodup_map coherent.numbers listed member same]))
  · intro hash number held
    simp only [Lookup.evict, lookup_foldl_erase] at held
    split at held
    · cases held
    · next own =>
      obtain ⟨other, listed, rfl, text⟩ := coherent.txBlock hash number held
      refine ⟨other, stays listed ?_, rfl, text⟩
      intro same
      exact own (inj_on_of_nodup_map coherent.numbers listed member same ▸ text)
  · intro other listed
    exact coherent.txs other (sub.subset listed)

theorem Coherent.insert (absent : l.byNumber.lookup b.number = none) (fresh : ∀ other ∈ l.order, other.ptr < b.ptr)
    (allocated : b.ptr < l.nextPtr) (own : ∀ tx ∈ b.mapped.txs, tx.blockNumber = b.number) : Coherent (l.insert b) := by
  have apart : ∀ other ∈ l.order, other.number ≠ b.number := by
    intro other listed same
    have held := (coherent.byNumber b.number other.ptr).mpr ⟨other, listed, same, rfl⟩
    rw [absent] at held
    cases held
  constructor
  · simp only [Lookup.insert, map_cons, nodup_cons]
    refine ⟨?_, coherent.numbers⟩
    intro listed
    obtain ⟨other, member, same⟩ := mem_map.mp listed
    exact apart other member same
  · simp only [Lookup.insert, map_cons, nodup_cons]
    refine ⟨?_, coherent.pointers⟩
    intro listed
    obtain ⟨other, member, same⟩ := mem_map.mp listed
    exact (fresh other member).ne same
  · simp only [Lookup.insert, forall_mem_cons]
    exact ⟨allocated, coherent.allocated⟩
  · intro number ptr
    simp only [Lookup.insert, exists_mem_cons_iff]
    by_cases same : number = b.number
    · subst same
      rw [AList.lookup_insert, Option.some.injEq]
      constructor
      · rintro rfl
        exact .inl ⟨rfl, rfl⟩
      · rintro (⟨_, pointed⟩ | ⟨other, listed, named, _⟩)
        · exact pointed
        · exact absurd named (apart other listed)
    · rw [AList.lookup_insert_ne same, coherent.byNumber]
      constructor
      · exact .inr
      · rintro (⟨named, _⟩ | other)
        · exact absurd named.symm same
        · exact other
  · simp only [Lookup.insert, map_cons, sum_cons, coherent.bytes]
    omega
  · intro hash number held
    simp only [Lookup.insert] at held ⊢
    by_cases same : hash = lower b.hash
    · subst same
      rw [AList.lookup_insert, Option.some.injEq] at held
      exact ⟨b, mem_cons_self, held, rfl⟩
    · rw [AList.lookup_insert_ne same] at held
      obtain ⟨other, listed, rest⟩ := coherent.hashBlock hash number held
      exact ⟨other, mem_cons_of_mem _ listed, rest⟩
  · intro hash number held
    simp only [Lookup.insert, lookup_foldl_insert] at held ⊢
    split at held
    · next contained => exact ⟨b, mem_cons_self, Option.some.inj held, contained⟩
    · obtain ⟨other, listed, rest⟩ := coherent.txBlock hash number held
      exact ⟨other, mem_cons_of_mem _ listed, rest⟩
  · simp only [Lookup.insert, forall_mem_cons]
    exact ⟨own, coherent.txs⟩

/-! ## The limits -/

structure Bounded (cfg : Config) (l : Lookup) : Prop where
  blocks : (l.order.length : Int) ≤ cfg.maxBlocks
  room : 1 < l.order.length → l.bytes ≤ cfg.maxBytes

omit coherent in
theorem bounded_of_not_overfull {cfg : Config} (done : l.overfull cfg = false) : Bounded cfg l := by
  simp only [Lookup.overfull, Bool.or_eq_false_iff, Bool.and_eq_false_iff, decide_eq_false_iff_not] at done
  constructor
  · omega
  · intro several
    rcases done.2 with fits | single
    · omega
    · exact absurd several single

theorem length_evict (member : b ∈ l.order) : (l.evict b).order.length + 1 = l.order.length :=
  (coherent.perm member).length_eq

omit coherent in
/-- The loop ends with a list within the limits; as one block is always within them, it never empties the list. -/
theorem Coherent.shrink {cfg : Config} (positive : 1 ≤ cfg.maxBlocks) (turns : Nat) (coherent : Coherent l)
    (enough : l.order.length ≤ turns) :
    Coherent (Lookup.shrink cfg turns l) ∧ Bounded cfg (Lookup.shrink cfg turns l) := by
  induction turns generalizing l with
  | zero =>
    refine ⟨coherent, ⟨?_, ?_⟩⟩
    · simp only [Lookup.shrink]
      omega
    · simp only [Lookup.shrink]
      omega
  | succ turns ih =>
    rw [Lookup.shrink]
    split
    · cases last : l.order.getLast? with
      | none =>
        rw [List.getLast?_eq_none_iff] at last
        refine ⟨coherent, ⟨?_, ?_⟩⟩
        · simp only [last, length_nil]
          omega
        · simp [last]
      | some b =>
        have member := mem_of_getLast? last
        have shorter := length_evict coherent member
        exact ih (coherent.evict member) (by omega)
    · next done => exact ⟨coherent, bounded_of_not_overfull (by simpa using done)⟩

omit coherent in
theorem shrink_head {cfg : Config} (positive : 1 ≤ cfg.maxBlocks) (turns : Nat) (coherent : Coherent l)
    {rest : List CachedBlock} (front : l.order = b :: rest) :
    b ∈ (Lookup.shrink cfg turns l).order := by
  induction turns generalizing l rest with
  | zero =>
    rw [Lookup.shrink, front]
    exact mem_cons_self
  | succ turns ih =>
    rw [Lookup.shrink]
    split
    · next more =>
      have several : rest ≠ [] := by
        rintro rfl
        simp only [Lookup.overfull, front, length_singleton, Bool.or_eq_true, Bool.and_eq_true,
          decide_eq_true_eq] at more
        omega
      cases last : l.order.getLast? with
      | none =>
        rw [front]
        exact mem_cons_self
      | some victim =>
        have behind : victim ∈ rest := by
          rw [front, List.getLast?_cons, List.getLast?_eq_some_getLast several, Option.getD_some] at last
          rw [← Option.some.inj last]
          exact getLast_mem several
        have apart : b.ptr ≠ victim.ptr := by
          have pointers := coherent.pointers
          rw [front, map_cons, nodup_cons] at pointers
          intro same
          exact pointers.1 (mem_map.mpr ⟨victim, behind, same.symm⟩)
        have left : (l.evict victim).order = b :: rest.filter fun other => other.ptr ≠ victim.ptr := by
          simp only [Lookup.evict, front]
          exact filter_cons_of_pos (by simpa using apart)
        exact ih (coherent.evict (mem_of_getLast? last)) left
    · rw [front]
      exact mem_cons_self

omit coherent in
theorem Coherent.store {cfg : Config} (positive : 1 ≤ cfg.maxBlocks) (coherent : Coherent l)
    (absent : l.byNumber.lookup b.number = none) (fresh : ∀ other ∈ l.order, other.ptr < b.ptr)
    (allocated : b.ptr < l.nextPtr) (own : ∀ tx ∈ b.mapped.txs, tx.blockNumber = b.number) :
    Coherent (Lookup.store cfg l b) ∧ Bounded cfg (Lookup.store cfg l b) ∧ b ∈ (Lookup.store cfg l b).order := by
  have inserted := coherent.insert absent fresh allocated own
  rw [Lookup.store, if_neg (by simp [absent])]
  obtain ⟨kept, bounded⟩ := inserted.shrink positive _ le_rfl
  exact ⟨kept, bounded, shrink_head positive _ inserted rfl⟩

theorem Bounded.forget {cfg : Config} (bounded : Bounded cfg l) (b : CachedBlock) (held : b ∈ l.order) :
    Coherent (l.forget b) ∧ Bounded cfg (l.forget b) := by
  unfold Lookup.forget
  split
  · have shorter := length_evict coherent held
    refine ⟨coherent.evict held, ⟨?_, ?_⟩⟩
    · have blocks := bounded.blocks
      omega
    · intro several
      have room := bounded.room (by omega)
      have smaller : (l.evict b).bytes = l.bytes - b.size := rfl
      omega
  · exact ⟨coherent, bounded⟩

end

/-! ## Runs of lookups -/

theorem resolve_le {index : AList fun _ : String => Nat} {ask : String → Except LookupError (Option Nat)}
    {hash : String} {through : Nat} (resolved : resolve index ask hash through = .ok (some number)) :
    number ≤ through := by
  unfold resolve at resolved
  split at resolved
  · split at resolved
    · next below =>
      obtain rfl := Option.some.inj (Except.ok.inj resolved)
      exact below
    · cases resolved
  · cases answered : ask hash with
    | error failure =>
      rw [answered] at resolved
      cases resolved
    | ok found =>
      rw [answered] at resolved
      have kept := Option.filter_eq_some_iff.mp (Except.ok.inj resolved)
      simpa using kept.2

structure Kept (cfg : Config) (l : Lookup) : Prop where
  coherent : Coherent l
  bounded : Bounded cfg l

section

variable (keccak256 : Bytes → Hash) {cfg : Config} (positive : 1 ≤ cfg.maxBlocks)

include positive

variable {l : Lookup}

theorem blockByNumber_kept (src : Source) (number : Nat) (kept : Kept cfg l) :
    Kept cfg (blockByNumber keccak256 cfg src number l).1 ∧
      ∀ b, (blockByNumber keccak256 cfg src number l).2 = .ok (some b) →
        b.number = number ∧ b ∈ (blockByNumber keccak256 cfg src number l).1.order := by
  unfold blockByNumber
  split
  · next b moved hit =>
    obtain ⟨coherent, member, named, same, bytes⟩ := kept.coherent.cached hit
    refine ⟨⟨coherent, ⟨?_, ?_⟩⟩, ?_⟩
    · rw [same.length_eq]
      exact kept.bounded.blocks
    · rw [same.length_eq, bytes]
      exact kept.bounded.room
    · intro answer given
      simp only [Except.ok.injEq, Option.some.injEq] at given
      subst given
      exact ⟨named, same.mem_iff.mpr member⟩
  · next missed =>
    have nothing (failure : LookupError) : Kept cfg l ∧ ∀ b, (Except.error failure : Except LookupError
        (Option CachedBlock)) = .ok (some b) → b.number = number ∧ b ∈ l.order := ⟨kept, by simp⟩
    unfold fetch
    cases replied : src.blockByNumber number with
    | error failure => exact nothing failure
    | ok raw =>
      cases src.blockReceipts number with
      | error failure => exact nothing failure
      | ok receipts =>
        cases raw with
        | none => exact ⟨kept, by simp⟩
        | some raw =>
          dsimp only
          split
          · exact nothing _
          · have named : (mapBlock keccak256 raw receipts).block.number = number := src.numbered number raw replied
            have absent : l.byNumber.lookup (mapBlock keccak256 raw receipts).block.number = none := by
              rw [named]
              exact kept.coherent.miss missed
            have own : ∀ tx ∈ (mapBlock keccak256 raw receipts).txs,
                tx.blockNumber = (mapBlock keccak256 raw receipts).block.number := by
              intro tx listed
              obtain ⟨entry, _, rfl⟩ := mem_map.mp listed
              rfl
            have before : Coherent { l with nextPtr := l.nextPtr + 1 } :=
              { kept.coherent with
                allocated := fun b listed => Nat.lt_succ_of_lt (kept.coherent.allocated b listed) }
            obtain ⟨coherent, bounded, stored⟩ := before.store
              (b := ⟨l.nextPtr, mapBlock keccak256 raw receipts, blockSize raw (mapBlock keccak256 raw receipts)⟩)
              positive absent kept.coherent.allocated (Nat.lt_succ_self _) own
            refine ⟨⟨coherent, bounded⟩, ?_⟩
            intro b given
            simp only [Except.ok.injEq, Option.some.injEq] at given
            subst given
            exact ⟨named, stored⟩

theorem blockByHash_kept (src : Source) (hash : String) (through : Nat) (kept : Kept cfg l) :
    Kept cfg (blockByHash keccak256 cfg src hash through l).1 ∧
      ∀ b, (blockByHash keccak256 cfg src hash through l).2 = .ok (some b) →
        lower b.hash = lower hash ∧ b.number ≤ through := by
  unfold blockByHash
  cases resolved : resolve l.hashBlock src.blockNumberByHash (lower hash) through with
  | error failure => exact ⟨kept, by simp⟩
  | ok found =>
    cases found with
    | none => exact ⟨kept, by simp⟩
    | some number =>
      have below := resolve_le resolved
      obtain ⟨next, answered⟩ := blockByNumber_kept keccak256 positive src number kept
      dsimp only
      split
      · next after b same =>
        rw [same] at next answered
        obtain ⟨named, stored⟩ := answered b rfl
        split
        · next equal =>
          refine ⟨next, ?_⟩
          intro other given
          simp only [Except.ok.injEq, Option.some.injEq] at given
          subst given
          exact ⟨equal, named ▸ below⟩
        · obtain ⟨coherent, bounded⟩ := next.bounded.forget next.coherent b stored
          exact ⟨⟨coherent, bounded⟩, by simp⟩
      · next answer refused =>
        refine ⟨next, ?_⟩
        intro b given
        exact (refused (blockByNumber keccak256 cfg src number l).1 b (Prod.ext rfl given)).elim

theorem transaction_kept (src : Source) (hash : String) (through : Nat) (kept : Kept cfg l) :
    Kept cfg (transaction keccak256 cfg src hash through l).1 ∧
      ∀ tx, (transaction keccak256 cfg src hash through l).2 = .ok (some tx) →
        lower tx.hash = lower hash ∧ tx.blockNumber ≤ through := by
  unfold transaction
  cases resolved : resolve l.txBlock src.txBlockNumber (lower hash) through with
  | error failure => exact ⟨kept, by simp⟩
  | ok found =>
    cases found with
    | none => exact ⟨kept, by simp⟩
    | some number =>
      have below := resolve_le resolved
      obtain ⟨next, answered⟩ := blockByNumber_kept keccak256 positive src number kept
      dsimp only
      split
      · next after b same =>
        rw [same] at next answered
        obtain ⟨named, stored⟩ := answered b rfl
        refine ⟨next, ?_⟩
        intro tx given
        have listed := Except.ok.inj given
        have equal : lower tx.hash = lower hash := by
          simpa using List.find?_some listed
        refine ⟨equal, ?_⟩
        rw [next.coherent.txs b stored tx (mem_of_find?_eq_some listed), named]
        exact below
      · next after same =>
        rw [same] at next
        exact ⟨next, by simp⟩
      · next after failure same =>
        rw [same] at next
        exact ⟨next, by simp⟩

end

/-- After every sequence of lookups the cache's four structures agree and keep the limits, and a lookup by hash
answers only with that hash at or below the asked height. -/
theorem lookup_consistent (keccak256 : Bytes → Hash) (config : Config) (asked : List (Request × Source)) :
    let l := run (Lookup.serve keccak256 config.withDefaults) {} asked
    ((l.order.map CachedBlock.number).Nodup ∧
      (∀ number, number ∈ l.byNumber.keys ↔ number ∈ l.order.map CachedBlock.number) ∧
      l.bytes = (l.order.map fun b => (b.size : Int)).sum ∧
      (∀ hash number, l.hashBlock.lookup hash = some number →
        ∃ b ∈ l.order, b.number = number ∧ lower b.hash = hash) ∧
      (∀ hash number, l.txBlock.lookup hash = some number →
        ∃ b ∈ l.order, b.number = number ∧ ∃ tx ∈ b.mapped.txs, lower tx.hash = hash) ∧
      (l.order.length : Int) ≤ config.withDefaults.maxBlocks ∧
      (1 < l.order.length → l.bytes ≤ config.withDefaults.maxBytes)) ∧
    ∀ (src : Source) (hash : String) (through : Nat),
      (∀ b, (blockByHash keccak256 config.withDefaults src hash through l).2 = .ok (some b) →
        lower b.hash = lower hash ∧ b.number ≤ through) ∧
      ∀ tx, (transaction keccak256 config.withDefaults src hash through l).2 = .ok (some tx) →
        lower tx.hash = lower hash ∧ tx.blockNumber ≤ through := by
  have positive : 1 ≤ config.withDefaults.maxBlocks := by
    unfold Config.withDefaults
    dsimp only
    split <;> omega
  have start : Kept config.withDefaults {} := by
    refine ⟨Coherent.empty, ⟨?_, ?_⟩⟩
    · simp only [length_nil]
      omega
    · simp
  have served (l : Lookup) (asked : Request × Source) (kept : Kept config.withDefaults l) :
      Kept config.withDefaults (l.serve keccak256 config.withDefaults asked) := by
    obtain ⟨request, src⟩ := asked
    cases request with
    | blockByNumber number => exact (blockByNumber_kept keccak256 positive src number kept).1
    | blockByHash hash through => exact (blockByHash_kept keccak256 positive src hash through kept).1
    | transaction hash through => exact (transaction_kept keccak256 positive src hash through kept).1
  have kept := run_invariant (Kept config.withDefaults) start served asked
  intro l
  refine ⟨⟨kept.coherent.numbers, ?_, kept.coherent.bytes, kept.coherent.hashBlock, ?_, kept.bounded.blocks,
    kept.bounded.room⟩, ?_⟩
  · intro number
    rw [← AList.mem_keys, ← AList.lookup_isSome, Option.isSome_iff_exists]
    constructor
    · rintro ⟨ptr, held⟩
      obtain ⟨b, listed, named, _⟩ := (kept.coherent.byNumber number ptr).mp held
      exact mem_map.mpr ⟨b, listed, named⟩
    · intro listed
      obtain ⟨b, member, named⟩ := mem_map.mp listed
      exact ⟨b.ptr, (kept.coherent.byNumber number b.ptr).mpr ⟨b, member, named, rfl⟩⟩
  · intro hash number held
    obtain ⟨b, listed, named, contained⟩ := kept.coherent.txBlock hash number held
    obtain ⟨tx, member, text⟩ := mem_map.mp contained
    exact ⟨b, listed, named, tx, member, text⟩
  · intro src hash through
    exact ⟨(blockByHash_kept keccak256 positive src hash through kept).2,
      (transaction_kept keccak256 positive src hash through kept).2⟩

end OpsIndexer.Nodelookup
