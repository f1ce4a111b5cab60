import OpsIndexer.Db.SharedRows

/-!
# A block's address statistics

`addressDelta`, `touchAddressTx` and `countTransferParticipant`: the two maps `buildBlock` fills, the deltas by lowered
address and the indexes of the transactions that touched each. A pointer the source returns and then increments is
here the change applied to the entry.
-/

namespace OpsIndexer.Indexing

open Eth OpsIndexer.Types Db

structure AddressCounts where
  stats : AList (fun _ : String => AddressStatsDelta) := ∅
  txs : AList (fun _ : String => Finset Nat) := ∅

def addressDelta (counts : AddressCounts) (address : String) (blockNumber : Nat)
    (change : AddressStatsDelta → AddressStatsDelta) : AddressCounts :=
  let key := lower address
  let delta := (counts.stats.lookup key).getD { address := key, blockNumber := blockNumber }
  { counts with stats := counts.stats.insert key (change delta) }

def bumpsNonce (txType : Int) : Bool :=
  0 ≤ txType && txType ≤ 4

def touchAddressTx (counts : AddressCounts) (address : String) (txIndex blockNumber : Nat)
    (change : AddressStatsDelta → AddressStatsDelta) : AddressCounts :=
  let counted := addressDelta counts address blockNumber change
  let key := lower address
  { counted with txs := counted.txs.insert key (insert txIndex ((counted.txs.lookup key).getD ∅)) }

def countTransferParticipant (keccak256 : Bytes → Hash) (counts : AddressCounts) (address : Address)
    (txIndex blockNumber : Nat) : AddressCounts :=
  if address = 0 then counts
  else touchAddressTx counts (Address.hex keccak256 address) txIndex blockNumber fun delta =>
    { delta with tokenTransferDelta := delta.tokenTransferDelta + 1 }

def addTxCount (stats : AList fun _ : String => AddressStatsDelta) (entry : Sigma fun _ : String => Finset Nat) :
    AList fun _ : String => AddressStatsDelta :=
  match stats.lookup entry.1 with
  | none => stats
  | some delta => stats.insert entry.1 { delta with txCountDelta := delta.txCountDelta + entry.2.card }

def addTxCounts (counts : AddressCounts) : AddressCounts :=
  { counts with stats := counts.txs.entries.foldl addTxCount counts.stats }

/-! ## What the maps hold for one address -/

/-- Sent, internal, transfer and transaction counts, in this order. -/
abbrev Tally := Nat × Nat × Nat × Nat

def tally (delta : AddressStatsDelta) : Tally :=
  (delta.sentDelta, delta.internalTxCountDelta, delta.tokenTransferDelta, delta.txCountDelta)

def tallyOf (counts : AddressCounts) (address : String) : Tally :=
  ((counts.stats.lookup address).map tally).getD 0

def txsOf (counts : AddressCounts) (address : String) : Finset Nat :=
  (counts.txs.lookup address).getD ∅

def named (counts : AddressCounts) (address : String) : Prop :=
  (counts.stats.lookup address).isSome

theorem lookup_addressDelta (counts : AddressCounts) (address : String) (blockNumber : Nat)
    (change : AddressStatsDelta → AddressStatsDelta) (key : String) :
    (addressDelta counts address blockNumber change).stats.lookup key =
      if key = lower address then
        some (change ((counts.stats.lookup key).getD { address := key, blockNumber := blockNumber }))
      else counts.stats.lookup key := by
  by_cases same : key = lower address
  · subst same
    simp [addressDelta]
  · simp [addressDelta, same]

theorem tallyOf_addressDelta (gain : Tally) (counts : AddressCounts) (address : String) (blockNumber : Nat)
    (change : AddressStatsDelta → AddressStatsDelta) (key : String)
    (gains : ∀ delta, tally (change delta) = tally delta + gain) :
    tallyOf (addressDelta counts address blockNumber change) key =
      tallyOf counts key + if key = lower address then gain else 0 := by
  unfold tallyOf
  rw [lookup_addressDelta]
  by_cases same : key = lower address
  · rw [if_pos same, if_pos same]
    cases counts.stats.lookup key with
    | none =>
      have fresh : tally { address := key, blockNumber := blockNumber } = 0 := rfl
      simp [gains, fresh]
    | some delta => simp [gains]
  · simp [same]

theorem named_addressDelta (counts : AddressCounts) (address : String) (blockNumber : Nat)
    (change : AddressStatsDelta → AddressStatsDelta) (key : String) :
    named (addressDelta counts address blockNumber change) key ↔ named counts key ∨ key = lower address := by
  unfold named
  rw [lookup_addressDelta]
  by_cases same : key = lower address <;> simp [same]

@[simp] theorem txsOf_addressDelta (counts : AddressCounts) (address : String) (blockNumber : Nat)
    (change : AddressStatsDelta → AddressStatsDelta) (key : String) :
    txsOf (addressDelta counts address blockNumber change) key = txsOf counts key := rfl

theorem tallyOf_touchAddressTx (gain : Tally) (counts : AddressCounts) (address : String)
    (txIndex blockNumber : Nat) (change : AddressStatsDelta → AddressStatsDelta) (key : String)
    (gains : ∀ delta, tally (change delta) = tally delta + gain) :
    tallyOf (touchAddressTx counts address txIndex blockNumber change) key =
      tallyOf counts key + if key = lower address then gain else 0 :=
  tallyOf_addressDelta gain counts address blockNumber change key gains

theorem named_touchAddressTx (counts : AddressCounts) (address : String) (txIndex blockNumber : Nat)
    (change : AddressStatsDelta → AddressStatsDelta) (key : String) :
    named (touchAddressTx counts address txIndex blockNumber change) key ↔ named counts key ∨ key = lower address :=
  named_addressDelta counts address blockNumber change key

theorem mem_txsOf_touchAddressTx (counts : AddressCounts) (address : String) (txIndex blockNumber : Nat)
    (change : AddressStatsDelta → AddressStatsDelta) (key : String) (index : Nat) :
    index ∈ txsOf (touchAddressTx counts address txIndex blockNumber change) key ↔
      index ∈ txsOf counts key ∨ key = lower address ∧ index = txIndex := by
  by_cases same : key = lower address
  · subst same
    simp [txsOf, touchAddressTx, addressDelta, or_comm]
  · simp [txsOf, touchAddressTx, addressDelta, same]

private theorem lookup_addTxCount (stats : AList fun _ : String => AddressStatsDelta)
    (entry : Sigma fun _ : String => Finset Nat) (key : String) :
    (addTxCount stats entry).lookup key =
      if key = entry.1 then
        (stats.lookup key).map fun delta => { delta with txCountDelta := delta.txCountDelta + entry.2.card }
      else stats.lookup key := by
  unfold addTxCount
  by_cases same : key = entry.1
  · subst same
    cases found : stats.lookup entry.1 <;> simp [found]
  · cases found : stats.lookup entry.1 <;> simp [same]

private theorem lookup_foldl_addTxCount (entries : List (Sigma fun _ : String => Finset Nat))
    (stats : AList fun _ : String => AddressStatsDelta) (key : String) (distinct : entries.NodupKeys) :
    (entries.foldl addTxCount stats).lookup key = (stats.lookup key).map fun delta =>
      { delta with txCountDelta := delta.txCountDelta + ((entries.dlookup key).getD ∅).card } := by
  induction entries generalizing stats with
  | nil => simp
  | cons entry rest ih =>
    obtain ⟨own, txs⟩ := entry
    rw [List.nodupKeys_cons] at distinct
    rw [List.foldl_cons, ih _ distinct.2, lookup_addTxCount]
    by_cases same : key = own
    · subst same
      have absent : rest.dlookup key = none := List.dlookup_eq_none.mpr distinct.1
      simp [absent, Option.map_map, Function.comp_def]
    · have apart : key ≠ (⟨own, txs⟩ : Sigma fun _ : String => Finset Nat).1 := same
      simp [same, List.dlookup_cons_ne rest _ apart]

theorem lookup_addTxCounts (counts : AddressCounts) (key : String) :
    (addTxCounts counts).stats.lookup key = (counts.stats.lookup key).map fun delta =>
      { delta with txCountDelta := delta.txCountDelta + (txsOf counts key).card } :=
  lookup_foldl_addTxCount counts.txs.entries counts.stats key counts.txs.nodupKeys

end OpsIndexer.Indexing
