import OpsIndexer.Db.DeleteBlock
import OpsIndexer.Lib.Fold
import OpsIndexer.Lib.Keyed

/-!
# Balances, their history and the reorg epoch

`insertBalances` and `revertBalances`: the history of balance reads, the current balance cached from it, the holder
count of every token's row, and the requests to read a balance again after a revert. The tokens rows themselves are the
store's; their `holder_count` column is kept here, by address.
-/

namespace OpsIndexer.Db

open Eth OpsIndexer.Types Lib.Keyed Lib.Fold List
  Lib.Table

structure BalanceKey where
  token : String
  address : String
  deriving DecidableEq, Repr

structure CurrentBalance where
  balance : Int
  blockNumber : Nat
  deriving DecidableEq, Repr

structure Reread where
  epoch : Nat
  opened : Bool
  attempts : Nat
  deriving DecidableEq, Repr

structure BalanceReread where
  token : String
  address : String
  epoch : Nat
  deriving DecidableEq, Repr

abbrev BalanceHistory := AList (fun _ : BalanceKey × Nat => Int)

abbrev CurrentBalances := AList (fun _ : BalanceKey => CurrentBalance)

abbrev Rereads := AList (fun _ : BalanceKey => Reread)

abbrev HolderCounts := AList (fun _ : String => Int)

/-- The store with its balances. The epoch sequence is 0 until it is first called. -/
structure BalanceStore where
  store : Store := {}
  holderCounts : HolderCounts := ∅
  balances : BalanceHistory := ∅
  tokenBalancesCurrent : CurrentBalances := ∅
  balanceRereads : Rereads := ∅
  balanceReorgEpoch : Nat := 0
  historyFrom : Nat := 0

inductive BalanceError where
  | numericOverflow (key : BalanceKey) (block : Nat)
  | write (error : WriteError)
  deriving DecidableEq, Repr

def balanceKeyOf (row : Balance) : BalanceKey where
  token := lower row.tokenAddress
  address := lower row.address

def balanceRank (key : BalanceKey × Nat) : String ×ₗ String ×ₗ Nat :=
  toLex (key.1.token, toLex (key.1.address, key.2))

def historyKeyOf (row : Balance) : BalanceKey × Nat :=
  (balanceKeyOf row, row.blockNumber)

def orderedBalances (balances : List Balance) : List Balance :=
  balances.insertionSort fun first second => balanceRank (historyKeyOf first) ≤ balanceRank (historyKeyOf second)

/-! ## Phase 0: the reads the reorg epoch lets through -/

structure SortedReads where
  kept : List Balance := []
  answered : List BalanceKey := []
  late : List BalanceKey := []
  deriving DecidableEq, Repr

def noteKey (keys : List BalanceKey) (key : BalanceKey) : List BalanceKey :=
  if key ∈ keys then keys else keys ++ [key]

def sortRead (latest : Nat) (epochs : Rereads) (reads : SortedReads) (row : Balance) : SortedReads :=
  if row.epoch < latest then { reads with late := noteKey reads.late (balanceKeyOf row) }
  else match epochs.lookup (balanceKeyOf row) with
    | none => { reads with kept := reads.kept ++ [row] }
    | some reverted =>
      if reverted.epoch ≤ row.epoch then
        { reads with
          kept := reads.kept ++ [row]
          answered := if reverted.opened then noteKey reads.answered (balanceKeyOf row) else reads.answered }
      else reads

def sortReads (latest : Nat) (epochs : Rereads) (ordered : List Balance) : SortedReads :=
  ordered.foldl (sortRead latest epochs) {}

def passesFence (latest : Nat) (epochs : Rereads) (row : Balance) : Bool :=
  latest ≤ row.epoch && (epochs.lookup (balanceKeyOf row)).all fun reverted => reverted.epoch ≤ row.epoch

theorem mem_noteKey (keys : List BalanceKey) (key other : BalanceKey) :
    other ∈ noteKey keys key ↔ other ∈ keys ∨ other = key := by
  unfold noteKey
  split
  · next known =>
    constructor
    · exact Or.inl
    · rintro (member | rfl)
      · exact member
      · exact known
  · simp

theorem sortReads_kept (latest : Nat) (epochs : Rereads) (ordered : List Balance) :
    (sortReads latest epochs ordered).kept = ordered.filter (passesFence latest epochs) := by
  have gains (reads : SortedReads) (row : Balance) : (sortRead latest epochs reads row).kept =
      reads.kept ++ if passesFence latest epochs row then [row] else [] := by
    unfold sortRead passesFence
    by_cases late : row.epoch < latest
    · simp [late]
    · rw [if_neg late]
      cases found : epochs.lookup (balanceKeyOf row) with
      | none => simp [Nat.not_lt.mp late]
      | some reverted =>
        by_cases reached : reverted.epoch ≤ row.epoch <;> simp [reached, Nat.not_lt.mp late]
  rw [sortReads, foldl_append (fun reads : SortedReads => reads.kept) _ _ gains, nil_append]
  induction ordered with
  | nil => rfl
  | cons row rest ih =>
    rw [flatMap_cons, ih, filter_cons]
    split <;> rfl

theorem mem_sortReads_late (latest : Nat) (epochs : Rereads) (ordered : List Balance) (key : BalanceKey) :
    key ∈ (sortReads latest epochs ordered).late ↔ ∃ row ∈ ordered, row.epoch < latest ∧ key = balanceKeyOf row := by
  have gains (reads : SortedReads) (row : Balance) : key ∈ (sortRead latest epochs reads row).late ↔
      key ∈ reads.late ∨ (row.epoch < latest ∧ key = balanceKeyOf row) := by
    unfold sortRead
    by_cases late : row.epoch < latest
    · rw [if_pos late]
      simp only [mem_noteKey, late, true_and]
    · rw [if_neg late]
      cases epochs.lookup (balanceKeyOf row) with
      | none => simp only [late, false_and, or_false]
      | some reverted =>
        simp only [late, false_and, or_false]
        split <;> rfl
  rw [sortReads, foldl_or (fun reads : SortedReads => key ∈ reads.late) _ _ gains]
  simp

/-! ## The requests to read again -/

/-- `closeRereads`: the rows stay, their epoch keeps dropping reads decided before the revert. -/
def closeRereads (keys : List BalanceKey) (rereads : Rereads) : Rereads :=
  alterAll rereads (keys.map fun key => (key, Option.map fun row => { row with opened := false }))

def reopenRereads (keys : List BalanceKey) (epoch : Nat) (rereads : Rereads) : Rereads :=
  alterAll rereads (keys.map fun key => (key, fun row => match row with
    | none => some ⟨epoch, true, 0⟩
    | some row => some ⟨max row.epoch epoch, true, 0⟩))

def recordBalanceRereads (keys : List BalanceKey) (epoch : Nat) (rereads : Rereads) : Rereads :=
  alterAll rereads (keys.map fun key => (key, fun _ => some ⟨epoch, true, 0⟩))

/-! ## The rows a flush writes -/

structure BalanceRow where
  key : BalanceKey
  block : Nat
  balance : Int
  deriving DecidableEq, Repr

def decodeBalance (row : Balance) : Except BalanceError BalanceRow :=
  match numeric78 row.balance with
  | some value => .ok ⟨balanceKeyOf row, row.blockNumber, value⟩
  | none => .error (.numericOverflow (balanceKeyOf row) row.blockNumber)

def decodedBalance (row : Balance) : BalanceRow :=
  ⟨balanceKeyOf row, row.blockNumber, (numeric78 row.balance).getD 0⟩

theorem mapM_decodeBalance_eq_ok (rows : List Balance) (out : List BalanceRow) :
    rows.mapM decodeBalance = .ok out ↔
      (∀ row ∈ rows, (numeric78 row.balance).isSome) ∧ out = rows.map decodedBalance := by
  induction rows generalizing out with
  | nil =>
    simp only [mapM_nil, pure, Except.pure, Except.ok.injEq, not_mem_nil, false_implies, implies_true,
      true_and, map_nil]
    exact eq_comm
  | cons row rest ih =>
    rw [mapM_cons, bind_eq_ok, forall_mem_cons]
    constructor
    · rintro ⟨first, decoded, remaining⟩
      obtain ⟨others, later, whole⟩ := bind_eq_ok.mp remaining
      obtain ⟨fit, rfl⟩ := (ih others).mp later
      unfold decodeBalance at decoded
      cases value : numeric78 row.balance with
      | none => simp [value] at decoded
      | some number =>
        simp only [value, Except.ok.injEq] at decoded
        simp only [pure, Except.pure, Except.ok.injEq] at whole
        refine ⟨⟨rfl, fit⟩, ?_⟩
        rw [← whole, ← decoded, map_cons, decodedBalance, value, Option.getD_some]
    · rintro ⟨⟨fits, fit⟩, rfl⟩
      obtain ⟨number, value⟩ := Option.isSome_iff_exists.mp fits
      refine ⟨decodedBalance row, ?_, bind_eq_ok.mpr ⟨_, (ih _).mpr ⟨fit, rfl⟩, rfl⟩⟩
      simp only [decodeBalance, decodedBalance, value, Option.getD_some]

/-- `balances_insert.sql`: last write wins for an identical key. -/
def insertHistory (rows : List BalanceRow) (history : BalanceHistory) : BalanceHistory :=
  alterAll history (rows.map fun row => ((row.key, row.block), fun _ => some row.balance))

/-- The guard of `tbc_upsert_delta.sql`: the highest block wins, the same block is written again. -/
def acceptsCurrent (row : BalanceRow) : Option CurrentBalance → Bool
  | none => true
  | some current => current.blockNumber ≤ row.block

def upsertCurrent (row : BalanceRow) (current : Option CurrentBalance) : Option CurrentBalance :=
  if acceptsCurrent row current then some ⟨row.balance, row.block⟩ else current

def positive (current : Option CurrentBalance) : Bool :=
  current.any fun row => 0 < row.balance

def currentDelta (currents : CurrentBalances) (row : BalanceRow) : Int :=
  let old := currents.lookup row.key
  if acceptsCurrent row old then tick (0 < row.balance) - tick (positive old) else 0

/-- `holder_count_apply.sql`: a token without a row keeps none. -/
def applyHolderDelta (delta : Int) : Option Int → Option Int :=
  Option.map fun count => max (count + delta) 0

def tokenDelta (deltas : List (String × Int)) (token : String) : Int :=
  ((deltas.filter fun entry => entry.1 = token).map Prod.snd).sum

def applyHolderDeltas (counts : HolderCounts) (deltas : List (String × Int)) : HolderCounts :=
  alterAll counts (((deltas.map Prod.fst).dedup.filter fun token => tokenDelta deltas token ≠ 0).map fun token =>
    (token, applyHolderDelta (tokenDelta deltas token)))

def historyWrites (history : Bool) (historyFrom : Nat) (kept : List Balance) : List Balance :=
  if history then (lastOfRuns historyKeyOf kept).filter fun row => historyFrom ≤ row.blockNumber else []

def writeRows (historyRows currentRows : List BalanceRow) (latest : Nat) (reads : SortedReads) (db : BalanceStore) :
    BalanceStore :=
  { db with
    balances := insertHistory historyRows db.balances
    tokenBalancesCurrent :=
      alterAll db.tokenBalancesCurrent (currentRows.map fun row => (row.key, upsertCurrent row))
    holderCounts :=
      applyHolderDeltas db.holderCounts (currentRows.map fun row =>
        (row.key.token, currentDelta db.tokenBalancesCurrent row))
    balanceRereads := reopenRereads reads.late latest (closeRereads reads.answered db.balanceRereads) }

def writeReads (history : Bool) (latest : Nat) (reads : SortedReads) (db : BalanceStore) :
    Except BalanceError BalanceStore :=
  if reads.kept.isEmpty then .ok { db with balanceRereads := reopenRereads reads.late latest db.balanceRereads }
  else do
    let historyRows ← (historyWrites history db.historyFrom reads.kept).mapM decodeBalance
    let currentRows ← (lastOfRuns balanceKeyOf reads.kept).mapM decodeBalance
    .ok (writeRows historyRows currentRows latest reads db)

theorem writeReads_eq_ok_iff (history : Bool) (latest : Nat) (reads : SortedReads) (db next : BalanceStore)
    (some : reads.kept ≠ []) :
    writeReads history latest reads db = .ok next ↔
      (∀ row ∈ historyWrites history db.historyFrom reads.kept, (numeric78 row.balance).isSome) ∧
      (∀ row ∈ lastOfRuns balanceKeyOf reads.kept, (numeric78 row.balance).isSome) ∧
      next = writeRows ((historyWrites history db.historyFrom reads.kept).map decodedBalance)
        ((lastOfRuns balanceKeyOf reads.kept).map decodedBalance) latest reads db := by
  unfold writeReads
  rw [if_neg (by simpa using some)]
  constructor
  · intro written
    obtain ⟨historyRows, first, written⟩ := bind_eq_ok.mp written
    obtain ⟨currentRows, second, written⟩ := bind_eq_ok.mp written
    obtain ⟨historyFits, rfl⟩ := (mapM_decodeBalance_eq_ok _ _).mp first
    obtain ⟨currentFits, rfl⟩ := (mapM_decodeBalance_eq_ok _ _).mp second
    exact ⟨historyFits, currentFits, (Except.ok.inj written).symm⟩
  · rintro ⟨historyFits, currentFits, rfl⟩
    exact bind_eq_ok.mpr ⟨_, (mapM_decodeBalance_eq_ok _ _).mpr ⟨historyFits, rfl⟩,
      bind_eq_ok.mpr ⟨_, (mapM_decodeBalance_eq_ok _ _).mpr ⟨currentFits, rfl⟩, rfl⟩⟩

theorem writeReads_cases {history : Bool} {latest : Nat} {reads : SortedReads} {db next : BalanceStore}
    (written : writeReads history latest reads db = .ok next) :
    reads.kept = [] ∧ next = { db with balanceRereads := reopenRereads reads.late latest db.balanceRereads } ∨
      next = writeRows ((historyWrites history db.historyFrom reads.kept).map decodedBalance)
        ((lastOfRuns balanceKeyOf reads.kept).map decodedBalance) latest reads db := by
  by_cases empty : reads.kept = []
  · rw [writeReads, if_pos (by simpa using empty)] at written
    exact .inl ⟨empty, (Except.ok.inj written).symm⟩
  · exact .inr ((writeReads_eq_ok_iff _ _ _ _ _ empty).mp written).2.2

theorem historyWrites_subset (history : Bool) (historyFrom : Nat) (kept : List Balance) :
    historyWrites history historyFrom kept ⊆ kept := by
  unfold historyWrites
  split
  · exact List.Subset.trans filter_sublist.subset (lastOfRuns_sublist historyKeyOf kept).subset
  · exact nil_subset kept

def insertBalances (history : Bool) (balances : List Balance) (db : BalanceStore) :
    Except BalanceError BalanceStore :=
  if balances.isEmpty then .ok db
  else
    let latest := if history then db.balanceReorgEpoch else 0
    writeReads history latest (sortReads latest db.balanceRereads (orderedBalances balances)) db

theorem insertBalances_isOk (history : Bool) (balances : List Balance) (db : BalanceStore)
    (fits : ∀ row ∈ balances, (numeric78 row.balance).isSome) :
    ∃ next, insertBalances history balances db = .ok next := by
  unfold insertBalances
  split
  · exact ⟨db, rfl⟩
  · generalize (if history = true then db.balanceReorgEpoch else 0) = latest
    have inside : (sortReads latest db.balanceRereads (orderedBalances balances)).kept ⊆ balances := by
      rw [sortReads_kept]
      exact List.Subset.trans filter_sublist.subset (perm_insertionSort _ _).subset
    by_cases none : (sortReads latest db.balanceRereads (orderedBalances balances)).kept = []
    · exact ⟨_, by rw [writeReads, if_pos (by simpa using none)]⟩
    · refine ⟨_, (writeReads_eq_ok_iff _ _ _ _ _ none).mpr ⟨?_, ?_, rfl⟩⟩
      · intro row member
        exact fits row (inside (historyWrites_subset _ _ _ member))
      · intro row member
        exact fits row (inside ((lastOfRuns_sublist _ _).subset member))

def insertBalancesBatch (balances : List Balance) (db : BalanceStore) : Except BalanceError BalanceStore :=
  insertBalances true balances db

def insertCurrentBalances (balances : List Balance) (db : BalanceStore) : Except BalanceError BalanceStore :=
  insertBalances false balances db

/-! ## A block's revert -/

def transferKeys (transfers : List TransferRow) (number : Nat) : List BalanceKey :=
  (transfers.filter fun row => row.blockNumber = number ∧ (row.tokenType = .erc20 ∨ row.tokenType = .erc721)).flatMap
    fun row => ([row.fromAddress, row.toAddress].filter fun address => lower address ≠ zeroAddress).map
      fun address => ⟨lower row.tokenAddress, lower address⟩

def historyKeys (balances : BalanceHistory) (number : Nat) : List BalanceKey :=
  (balances.keys.filter fun key => key.2 = number).map Prod.fst

def blockBalanceKeys (db : BalanceStore) (number : Nat) : List BalanceKey :=
  (historyKeys db.balances number ++ transferKeys db.store.tokenTransfers number).dedup

def latestBalance (balances : BalanceHistory) (key : BalanceKey) : Option CurrentBalance :=
  ((balances.entries.filter fun entry => entry.1.1 = key).argmax fun entry => entry.1.2).map fun entry =>
    ⟨entry.2, entry.1.2⟩

def revertBalances (number : Nat) (db : BalanceStore) : BalanceStore :=
  let restore := historyKeys db.balances number
  let remaining := keep db.balances fun key => key.2 ≠ number
  { db with
    balances := remaining
    tokenBalancesCurrent :=
      alterAll db.tokenBalancesCurrent (restore.map fun key => (key, fun _ => latestBalance remaining key))
    holderCounts :=
      applyHolderDeltas db.holderCounts (restore.map fun key =>
        (key.token, tick (positive (latestBalance remaining key)) -
          tick (positive (db.tokenBalancesCurrent.lookup key)))) }

/-- `DeleteBlock` with the balances: the new epoch is taken last and recorded on every key of the block. -/
def deleteBlockBalances (keccak256 : Bytes → Hash) (number : Nat) (db : BalanceStore) : BalanceStore :=
  let reverted := revertBalances number db
  { reverted with
    store := deleteBlock keccak256 number db.store
    balanceRereads :=
      recordBalanceRereads (blockBalanceKeys db number) (db.balanceReorgEpoch + 1) db.balanceRereads
    balanceReorgEpoch := db.balanceReorgEpoch + 1 }

/-! ## A block's write -/

def holders (currents : CurrentBalances) (token : String) : Int :=
  countRows currents fun key row => key.token = token ∧ 0 < row.balance

def insertBlockDataBatchBalances (partitionOf : Nat → Nat) (data : BlockData) (db : BalanceStore) :
    Except BalanceError BalanceStore :=
  match beginBlockData partitionOf data db.store with
  | .error failure => .error (.write failure)
  | .ok write =>
    match finish db.store write with
    | .error failure => .error (.write failure)
    | .ok store =>
      let seeds := match write with
        | .stored => []
        | .opened write => (upsertTokens write.data write.tx.tokens).2
      .ok { db with
        store := store
        holderCounts := seeds.foldl (fun counts token => counts.insert token (holders db.tokenBalancesCurrent token))
          db.holderCounts }

end OpsIndexer.Db
