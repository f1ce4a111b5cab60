import OpsIndexer.Db.BalanceTables
import OpsIndexer.Lib.Locks
import OpsIndexer.Lib.Runs

/-!
# The reorg epoch as a fence

Flushes, reverts and claims as transactions that take one statement at a time. A flush and a claim hold the balance
revert lock shared, a revert holds it exclusively; a flush holds the locks of its keys, a claim those of the rows it
has updated. What a transaction writes is seen when it commits, except that the epoch sequence moves at once and is not
rolled back.
-/

namespace OpsIndexer.Db

open Eth OpsIndexer.Types Lib.Keyed Lib.Locks Lib.Runs List

inductive FlushPhase where
  | begun
  | shared
  | keyed
  | latestRead (latest : Nat)
  | sorted (latest : Nat) (reads : SortedReads)

inductive RevertPhase where
  | begun
  | exclusive
  | keysRead (keys : List BalanceKey)
  | epochTaken (keys : List BalanceKey) (epoch : Nat)

inductive ClaimPhase where
  | begun
  | shared
  | expired (dropped : List BalanceKey)
  | handed (dropped : List BalanceKey) (claimed : List BalanceReread)

inductive BalanceTx where
  | flush (balances : List Balance) (phase : FlushPhase)
  | revert (number : Nat) (phase : RevertPhase)
  | claim (limit : Nat) (phase : ClaimPhase)
  | committed
  | rolledBack

/-- The balance revert lock, `pg_advisory_xact_lock(4675, 1)`. -/
def BalanceTx.revertLock : BalanceTx → Mode
  | .flush _ .begun => .free
  | .flush _ _ => .shared
  | .revert _ .begun => .free
  | .revert _ _ => .exclusive
  | .claim _ .begun => .free
  | .claim _ _ => .shared
  | .committed => .free
  | .rolledBack => .free

def BalanceTx.lockedKeys : BalanceTx → List BalanceKey
  | .flush _ .begun => []
  | .flush _ .shared => []
  | .flush balances _ => balances.map balanceKeyOf
  | .revert _ (.keysRead keys) => keys
  | .revert _ (.epochTaken keys _) => keys
  | _ => []

def BalanceReread.key (request : BalanceReread) : BalanceKey :=
  ⟨request.token, request.address⟩

def BalanceTx.lockedRows : BalanceTx → List BalanceKey
  | .claim _ (.expired dropped) => dropped
  | .claim _ (.handed dropped claimed) => dropped ++ claimed.map BalanceReread.key
  | _ => []

structure BalanceSystem where
  db : BalanceStore
  txs : List BalanceTx := []
  reverted : List (Nat × List BalanceKey) := []

def BalanceSystem.rowsLockedBesides (system : BalanceSystem) (i : Nat) : List BalanceKey :=
  (system.txs.eraseIdx i).flatMap BalanceTx.lockedRows

/-- Two keys can have one lock: `tbcLockKey` is a hash. -/
def BalanceSystem.keysFree (tbcLockKey : BalanceKey → Int) (system : BalanceSystem) (i : Nat)
    (keys : List BalanceKey) : Bool :=
  (system.txs.eraseIdx i).all fun tx => tx.lockedKeys.all fun held =>
    keys.all fun wanted => tbcLockKey held ≠ tbcLockKey wanted

def BalanceSystem.set (system : BalanceSystem) (i : Nat) (tx : BalanceTx) : BalanceSystem :=
  { system with txs := system.txs.set i tx }

/-! ## Claims -/

def maxBalanceRereadAttempts : Nat := 20

def exhaustedRereads (rereads : Rereads) : List BalanceKey :=
  (rereads.entries.filter fun entry => entry.2.opened && maxBalanceRereadAttempts ≤ entry.2.attempts).map Sigma.fst

/-- `ORDER BY epoch LIMIT $1 FOR UPDATE SKIP LOCKED`, each with the latest epoch or its own if later. -/
def claimRereads (limit latest : Nat) (locked : List BalanceKey) (rereads : Rereads) : List BalanceReread :=
  (((rereads.entries.filter fun entry => entry.2.opened && entry.1 ∉ locked).insertionSort fun first second =>
    first.2.epoch ≤ second.2.epoch).take limit).map fun entry =>
      ⟨entry.1.token, entry.1.address, max entry.2.epoch latest⟩

variable {latest : Nat} {rereads : Rereads} {keys : List BalanceKey} {key : BalanceKey} {db next : BalanceStore}
  {reads : SortedReads} {tx : BalanceTx}

theorem mem_claimRereads {limit : Nat} {locked : List BalanceKey} {request : BalanceReread}
    (member : request ∈ claimRereads limit latest locked rereads) :
    ∃ key row, rereads.lookup key = some row ∧ request.epoch = max row.epoch latest := by
  obtain ⟨entry, taken, rfl⟩ := mem_map.mp member
  have listed := (mem_filter.mp ((perm_insertionSort _ _).mem_iff.mp (mem_of_mem_take taken))).1
  exact ⟨entry.1, entry.2, AList.mem_lookup_iff.mpr listed, rfl⟩

def countAttempts (keys : List BalanceKey) (rereads : Rereads) : Rereads :=
  alterAll rereads (keys.map fun key => (key, Option.map fun row => { row with attempts := row.attempts + 1 }))

theorem countAttempts_epoch (good : Nat → Prop) (before : ∀ key row, rereads.lookup key = some row → good row.epoch)
    (key : BalanceKey) : ∀ row, (countAttempts keys rereads).lookup key = some row → good row.epoch :=
  map_epoch good before (fun row => { row with attempts := row.attempts + 1 }) (fun _ => rfl) key

/-! ## Reverts -/

def commitRevert (keccak256 : Bytes → Hash) (number : Nat) (keys : List BalanceKey) (epoch : Nat) (db : BalanceStore) :
    BalanceStore :=
  { revertBalances number db with
    store := deleteBlock keccak256 number db.store
    balanceRereads := recordBalanceRereads keys epoch db.balanceRereads }

theorem deleteBlockBalances_eq_commitRevert (keccak256 : Bytes → Hash) (number : Nat) (db : BalanceStore) :
    deleteBlockBalances keccak256 number db =
      commitRevert keccak256 number (blockBalanceKeys db number) (db.balanceReorgEpoch + 1)
        { db with balanceReorgEpoch := db.balanceReorgEpoch + 1 } :=
  rfl

/-! ## The steps -/

inductive BalanceEvent where
  | beginFlush (balances : List Balance)
  | beginRevert (number : Nat)
  | beginClaim (limit : Nat)
  | advance (i : Nat) (skipped : List BalanceKey)
  | commit (i : Nat)
  | rollback (i : Nat)

/-- A transaction's next statement. `skipped` are rows that a flush about to commit has locked under a claim. -/
def BalanceSystem.advance (tbcLockKey : BalanceKey → Int) (system : BalanceSystem) (i : Nat)
    (skipped : List BalanceKey) : BalanceSystem :=
  match system.txs[i]? with
  | some (.flush balances .begun) =>
    if grants BalanceTx.revertLock system.txs i .shared then system.set i (.flush balances .shared) else system
  | some (.flush balances .shared) =>
    if system.keysFree tbcLockKey i (balances.map balanceKeyOf) then system.set i (.flush balances .keyed) else system
  | some (.flush balances .keyed) => system.set i (.flush balances (.latestRead system.db.balanceReorgEpoch))
  | some (.flush balances (.latestRead latest)) =>
    system.set i (.flush balances
      (.sorted latest (sortReads latest system.db.balanceRereads (orderedBalances balances))))
  | some (.revert number .begun) =>
    if grants BalanceTx.revertLock system.txs i .exclusive then system.set i (.revert number .exclusive) else system
  | some (.revert number .exclusive) =>
    if system.keysFree tbcLockKey i (blockBalanceKeys system.db number) then
      system.set i (.revert number (.keysRead (blockBalanceKeys system.db number)))
    else system
  | some (.revert number (.keysRead keys)) =>
    { system.set i (.revert number (.epochTaken keys (system.db.balanceReorgEpoch + 1))) with
      db := { system.db with balanceReorgEpoch := system.db.balanceReorgEpoch + 1 } }
  | some (.claim limit .begun) =>
    if grants BalanceTx.revertLock system.txs i .shared then system.set i (.claim limit .shared) else system
  | some (.claim limit .shared) =>
    let dropped := exhaustedRereads system.db.balanceRereads
    if dropped.all (· ∉ system.rowsLockedBesides i) then system.set i (.claim limit (.expired dropped)) else system
  | some (.claim limit (.expired dropped)) =>
    system.set i (.claim limit (.handed dropped (claimRereads limit system.db.balanceReorgEpoch
      (dropped ++ skipped ++ system.rowsLockedBesides i) system.db.balanceRereads)))
  | _ => system

def BalanceSystem.commit (keccak256 : Bytes → Hash) (system : BalanceSystem) (i : Nat) : BalanceSystem :=
  match system.txs[i]? with
  | some (.flush _ (.sorted latest reads)) =>
    if (reads.answered ++ reads.late).all (· ∉ system.rowsLockedBesides i) then
      match writeReads true latest reads system.db with
      | .ok next => { system.set i .committed with db := next }
      | .error _ => system.set i .rolledBack
    else system
  | some (.revert number (.epochTaken keys epoch)) =>
    { system.set i .committed with
      db := commitRevert keccak256 number keys epoch system.db
      reverted := system.reverted ++ [(epoch, blockBalanceKeys system.db number)] }
  | some (.claim _ (.handed dropped claimed)) =>
    { system.set i .committed with
      db := { system.db with
        balanceRereads :=
          countAttempts (claimed.map BalanceReread.key) (closeRereads dropped system.db.balanceRereads) } }
  | _ => system

def BalanceSystem.step (keccak256 : Bytes → Hash) (tbcLockKey : BalanceKey → Int) (system : BalanceSystem) :
    BalanceEvent → BalanceSystem
  | .beginFlush balances =>
    if balances.isEmpty then system else { system with txs := system.txs ++ [.flush balances .begun] }
  | .beginRevert number => { system with txs := system.txs ++ [.revert number .begun] }
  | .beginClaim limit => { system with txs := system.txs ++ [.claim limit .begun] }
  | .advance i skipped => system.advance tbcLockKey i skipped
  | .commit i => system.commit keccak256 i
  | .rollback i =>
    match system.txs[i]? with
    | some .committed => system
    | _ => system.set i .rolledBack

/-! ## The requests -/

def Grown (before after : Rereads) : Prop :=
  ∀ key row, before.lookup key = some row → ∃ later, after.lookup key = some later ∧ row.epoch ≤ later.epoch

theorem Grown.trans {first second third : Rereads} (before : Grown first second) (after : Grown second third) :
    Grown first third := by
  intro key row present
  obtain ⟨middle, there, grown⟩ := before key row present
  obtain ⟨last, now, further⟩ := after key middle there
  exact ⟨last, now, grown.trans further⟩

theorem grown_alterAll (keys : List BalanceKey) {change : Option Reread → Option Reread} (rereads : Rereads)
    (each : ∀ row, ∃ later, change (some row) = some later ∧ row.epoch ≤ later.epoch) :
    Grown rereads (alterAll rereads (keys.map fun key => (key, change))) := by
  intro key
  refine lookup_alterAll_induction (fun key now => ∀ row : Reread, rereads.lookup key = some row →
    ∃ later : Reread, now = some later ∧ row.epoch ≤ later.epoch) _ _ ?_ ?_ key
  · intro key row present
    exact ⟨row, present, le_rfl⟩
  · intro entry member now before row present
    obtain ⟨_, _, rfl⟩ := mem_map.mp member
    obtain ⟨middle, rfl, grown⟩ := before row present
    obtain ⟨later, changed, further⟩ := each middle
    exact ⟨later, changed, grown.trans further⟩

theorem closeRereads_grown (keys : List BalanceKey) (rereads : Rereads) : Grown rereads (closeRereads keys rereads) :=
  grown_alterAll keys rereads fun _ => ⟨_, rfl, le_rfl⟩

theorem reopenRereads_grown (keys : List BalanceKey) (epoch : Nat) (rereads : Rereads) :
    Grown rereads (reopenRereads keys epoch rereads) :=
  grown_alterAll keys rereads fun _ => ⟨_, rfl, le_max_left _ _⟩

theorem countAttempts_grown (keys : List BalanceKey) (rereads : Rereads) :
    Grown rereads (countAttempts keys rereads) :=
  grown_alterAll keys rereads fun _ => ⟨_, rfl, le_rfl⟩

theorem reopenRereads_opened (distinct : keys.Nodup) (epoch : Nat) (rereads : Rereads) (member : key ∈ keys) :
    ∃ row, (reopenRereads keys epoch rereads).lookup key = some row ∧ row.opened = true ∧ epoch ≤ row.epoch := by
  rw [reopenRereads, lookup_alterAll_map distinct member]
  cases rereads.lookup key with
  | none => exact ⟨⟨epoch, true, 0⟩, rfl, rfl, le_rfl⟩
  | some row => exact ⟨⟨max row.epoch epoch, true, 0⟩, rfl, rfl, le_max_right _ _⟩

theorem recordBalanceRereads_of_mem (distinct : keys.Nodup) (epoch : Nat) (rereads : Rereads) (member : key ∈ keys) :
    (recordBalanceRereads keys epoch rereads).lookup key = some ⟨epoch, true, 0⟩ := by
  rw [recordBalanceRereads, lookup_alterAll_map distinct member]

theorem recordBalanceRereads_of_notMem (epoch : Nat) (rereads : Rereads) (other : key ∉ keys) :
    (recordBalanceRereads keys epoch rereads).lookup key = rereads.lookup key := by
  apply lookup_alterAll_of_notMem
  simpa [map_map, Function.comp_def] using other

/-! ## What a flush leaves -/

theorem sortReads_late_nodup (latest : Nat) (epochs : Rereads) (ordered : List Balance) :
    (sortReads latest epochs ordered).late.Nodup := by
  unfold sortReads
  refine List.foldlRecOn ordered (sortRead latest epochs) (motive := fun reads : SortedReads => reads.late.Nodup)
    nodup_nil ?_
  intro reads distinct row _
  unfold sortRead
  split
  · simp only [noteKey]
    split
    · exact distinct
    · next fresh =>
      rw [nodup_append_comm]
      exact nodup_cons.mpr ⟨fresh, distinct⟩
  · split
    · exact distinct
    · split <;> exact distinct

structure Flushed (kept : List Balance) (db next : BalanceStore) : Prop where
  history : ∀ key, next.balances.lookup key = db.balances.lookup key ∨
    ∃ row ∈ kept, historyKeyOf row = key ∧ next.balances.lookup key = some (decodedBalance row).balance
  current : ∀ key, next.tokenBalancesCurrent.lookup key = db.tokenBalancesCurrent.lookup key ∨
    ∃ row ∈ kept, balanceKeyOf row = key ∧
      next.tokenBalancesCurrent.lookup key = some ⟨(decodedBalance row).balance, row.blockNumber⟩

theorem Flushed.mono {kept wider : List Balance} (flushed : Flushed kept db next) (within : kept ⊆ wider) :
    Flushed wider db next where
  history := by
    intro key
    rcases flushed.history key with same | ⟨row, member, written⟩
    · exact .inl same
    · exact .inr ⟨row, within member, written⟩
  current := by
    intro key
    rcases flushed.current key with same | ⟨row, member, written⟩
    · exact .inl same
    · exact .inr ⟨row, within member, written⟩

theorem writeReads_flushed (written : writeReads true latest reads db = .ok next) : Flushed reads.kept db next := by
  rcases writeReads_cases written with ⟨_, rfl⟩ | rfl
  · exact ⟨fun _ => .inl rfl, fun _ => .inl rfl⟩
  constructor
  · refine lookup_alterAll_induction (fun key now => now = db.balances.lookup key ∨
      ∃ row ∈ reads.kept, historyKeyOf row = key ∧ now = some (decodedBalance row).balance) _ _ (fun _ => .inl rfl) ?_
    intro entry member now _
    obtain ⟨row, inside, rfl⟩ := mem_map.mp member
    obtain ⟨source, listed, rfl⟩ := mem_map.mp inside
    exact .inr ⟨source, historyWrites_subset _ _ _ listed, rfl, rfl⟩
  · refine lookup_alterAll_induction (fun key now => now = db.tokenBalancesCurrent.lookup key ∨
      ∃ row ∈ reads.kept, balanceKeyOf row = key ∧ now = some ⟨(decodedBalance row).balance, row.blockNumber⟩)
      _ _ (fun _ => .inl rfl) ?_
    intro entry member now before
    obtain ⟨row, inside, rfl⟩ := mem_map.mp member
    obtain ⟨source, listed, rfl⟩ := mem_map.mp inside
    simp only [upsertCurrent]
    split
    · exact .inr ⟨source, (lastOfRuns_sublist _ _).subset listed, rfl, rfl⟩
    · exact before

theorem writeReads_epoch (written : writeReads true latest reads db = .ok next) :
    next.balanceReorgEpoch = db.balanceReorgEpoch ∧ Grown db.balanceRereads next.balanceRereads ∧
      (reads.late.Nodup → ∀ key ∈ reads.late,
        ∃ row, next.balanceRereads.lookup key = some row ∧ row.opened = true ∧ latest ≤ row.epoch) := by
  rcases writeReads_cases written with ⟨_, rfl⟩ | rfl
  · exact ⟨rfl, reopenRereads_grown _ _ _, fun distinct key member => reopenRereads_opened distinct latest _ member⟩
  · exact ⟨rfl, (closeRereads_grown _ _).trans (reopenRereads_grown _ _ _),
      fun distinct key member => reopenRereads_opened distinct latest _ member⟩

theorem writeReads_store (written : writeReads true latest reads db = .ok next) : next.store = db.store := by
  rcases writeReads_cases written with ⟨_, rfl⟩ | rfl <;> rfl

theorem writeReads_requests (good : Nat → Prop) (written : writeReads true latest reads db = .ok next)
    (own : ∀ key ∈ reads.late, good latest)
    (before : ∀ key row, db.balanceRereads.lookup key = some row → good row.epoch) :
    ∀ key row, next.balanceRereads.lookup key = some row → good row.epoch := by
  rcases writeReads_cases written with ⟨_, rfl⟩ | rfl
  · exact reopenRereads_epoch good own before
  · exact reopenRereads_epoch good own (closeRereads_epoch good before)

/-! ## What one step can do -/

inductive BalanceTx.Statement (db : BalanceStore) : BalanceTx → BalanceTx → Prop where
  | flushShared (balances : List Balance) : Statement db (.flush balances .begun) (.flush balances .shared)
  | flushKeyed (balances : List Balance) : Statement db (.flush balances .shared) (.flush balances .keyed)
  | flushLatest (balances : List Balance) :
    Statement db (.flush balances .keyed) (.flush balances (.latestRead db.balanceReorgEpoch))
  | flushSorted (balances : List Balance) (latest : Nat) :
    Statement db (.flush balances (.latestRead latest))
      (.flush balances (.sorted latest (sortReads latest db.balanceRereads (orderedBalances balances))))
  | revertExclusive (number : Nat) : Statement db (.revert number .begun) (.revert number .exclusive)
  | revertKeys (number : Nat) :
    Statement db (.revert number .exclusive) (.revert number (.keysRead (blockBalanceKeys db number)))
  | claimShared (limit : Nat) : Statement db (.claim limit .begun) (.claim limit .shared)
  | claimExpired (limit : Nat) :
    Statement db (.claim limit .shared) (.claim limit (.expired (exhaustedRereads db.balanceRereads)))
  | claimHanded (limit : Nat) (dropped locked : List BalanceKey) :
    Statement db (.claim limit (.expired dropped))
      (.claim limit (.handed dropped (claimRereads limit db.balanceReorgEpoch locked db.balanceRereads)))

inductive BalanceSystem.Advances (system : BalanceSystem) (i : Nat) : BalanceSystem → Prop where
  | waits : Advances system i system
  | goes {old new : BalanceTx} (found : system.txs[i]? = some old) (statement : old.Statement system.db new)
    (lock : new.revertLock = old.revertLock ∨
      (old.revertLock = .free ∧ grants BalanceTx.revertLock system.txs i new.revertLock = true)) :
    Advances system i (system.set i new)
  | takesEpoch {number : Nat} {keys : List BalanceKey}
    (found : system.txs[i]? = some (.revert number (.keysRead keys))) :
    Advances system i { system.set i (.revert number (.epochTaken keys (system.db.balanceReorgEpoch + 1))) with
      db := { system.db with balanceReorgEpoch := system.db.balanceReorgEpoch + 1 } }

theorem BalanceSystem.advance_advances (tbcLockKey : BalanceKey → Int) (system : BalanceSystem) (i : Nat)
    (skipped : List BalanceKey) : system.Advances i (system.advance tbcLockKey i skipped) := by
  unfold BalanceSystem.advance
  split
  · next balances found =>
    split
    · next granted => exact .goes found (.flushShared balances) (.inr ⟨rfl, granted⟩)
    · exact .waits
  · next balances found =>
    split
    · exact .goes found (.flushKeyed balances) (.inl rfl)
    · exact .waits
  · next balances found => exact .goes found (.flushLatest balances) (.inl rfl)
  · next balances latest found => exact .goes found (.flushSorted balances latest) (.inl rfl)
  · next number found =>
    split
    · next granted => exact .goes found (.revertExclusive number) (.inr ⟨rfl, granted⟩)
    · exact .waits
  · next number found =>
    split
    · exact .goes found (.revertKeys number) (.inl rfl)
    · exact .waits
  · next number keys found => exact .takesEpoch found
  · next limit found =>
    split
    · next granted => exact .goes found (.claimShared limit) (.inr ⟨rfl, granted⟩)
    · exact .waits
  · next limit found =>
    dsimp only
    split
    · exact .goes found (.claimExpired limit) (.inl rfl)
    · exact .waits
  · next limit dropped found => exact .goes found (.claimHanded limit dropped _) (.inl rfl)
  · exact .waits

inductive BalanceSystem.Commits (keccak256 : Bytes → Hash) (system : BalanceSystem) (i : Nat) : BalanceSystem → Prop where
  | waits : Commits keccak256 system i system
  | fails {balances : List Balance} {latest : Nat} {reads : SortedReads}
    (found : system.txs[i]? = some (.flush balances (.sorted latest reads))) :
    Commits keccak256 system i (system.set i .rolledBack)
  | flushes {balances : List Balance} {latest : Nat} {reads : SortedReads} {next : BalanceStore}
    (found : system.txs[i]? = some (.flush balances (.sorted latest reads)))
    (written : writeReads true latest reads system.db = .ok next) :
    Commits keccak256 system i { system.set i .committed with db := next }
  | reverts {number epoch : Nat} {keys : List BalanceKey}
    (found : system.txs[i]? = some (.revert number (.epochTaken keys epoch))) :
    Commits keccak256 system i { system.set i .committed with
      db := commitRevert keccak256 number keys epoch system.db
      reverted := system.reverted ++ [(epoch, blockBalanceKeys system.db number)] }
  | claims {limit : Nat} {dropped : List BalanceKey} {claimed : List BalanceReread}
    (found : system.txs[i]? = some (.claim limit (.handed dropped claimed))) :
    Commits keccak256 system i { system.set i .committed with
      db := { system.db with
        balanceRereads :=
          countAttempts (claimed.map BalanceReread.key) (closeRereads dropped system.db.balanceRereads) } }

theorem BalanceSystem.commit_commits (keccak256 : Bytes → Hash) (system : BalanceSystem) (i : Nat) :
    system.Commits keccak256 i (system.commit keccak256 i) := by
  unfold BalanceSystem.commit
  split
  · next balances latest reads found =>
    split
    · cases written : writeReads true latest reads system.db with
      | error failure => exact .fails found
      | ok next => exact .flushes found written
    · exact .waits
  · next found => exact .reverts found
  · next found => exact .claims found
  · exact .waits

/-! ## What the lock keeps -/

def BalanceTx.EpochRead (epoch : Nat) : BalanceTx → Prop
  | .flush _ (.latestRead latest) => latest = epoch
  | .flush balances (.sorted latest reads) => latest = epoch ∧
      ∃ epochs, reads = sortReads latest epochs (orderedBalances balances)
  | .revert _ (.epochTaken _ taken) => taken = epoch
  | _ => True

theorem BalanceTx.epochRead_of_free (epoch : Nat) (free : tx.revertLock = .free) :
    tx.EpochRead epoch := by
  cases tx with
  | flush balances phase => cases phase <;> trivial
  | revert number phase => cases phase <;> trivial
  | claim limit phase => trivial
  | committed => trivial
  | rolledBack => trivial

structure EpochLocked (system : BalanceSystem) : Prop where
  locks : Exclusion BalanceTx.revertLock system.txs
  epochs : ∀ (i : Nat) tx, system.txs[i]? = some tx → tx.EpochRead system.db.balanceReorgEpoch

section

variable {system : BalanceSystem}

theorem EpochLocked.begin (locked : EpochLocked system) {tx : BalanceTx} (free : tx.revertLock = .free) :
    EpochLocked { system with txs := system.txs ++ [tx] } where
  locks := locked.locks.concat free
  epochs := by
    intro i other found
    rcases getElem?_concat_cases found with before | ⟨_, rfl⟩
    · exact locked.epochs i other before
    · exact BalanceTx.epochRead_of_free _ free

variable {next : BalanceStore} {i : Nat}

theorem EpochLocked.move (locked : EpochLocked system) (i : Nat) (tx : BalanceTx)
    (locks : Exclusion BalanceTx.revertLock (system.txs.set i tx)) (same : next.balanceReorgEpoch =
      system.db.balanceReorgEpoch) (read : tx.EpochRead system.db.balanceReorgEpoch)
    (reverted : List (Nat × List BalanceKey)) : EpochLocked ⟨next, system.txs.set i tx, reverted⟩ where
  locks := locks
  epochs := by
    intro j other found
    rw [same]
    rcases getElem?_set_cases found with ⟨_, rfl⟩ | ⟨_, before⟩
    · exact read
    · exact locked.epochs j other before

theorem EpochLocked.tables (locked : EpochLocked system) (same : next.balanceReorgEpoch = system.db.balanceReorgEpoch) :
    EpochLocked { system with db := next } where
  locks := locked.locks
  epochs := fun i tx found => same.symm ▸ locked.epochs i tx found

theorem BalanceTx.Statement.epochRead {db : BalanceStore} {old new : BalanceTx} (statement : old.Statement db new)
    (read : old.EpochRead db.balanceReorgEpoch) : new.EpochRead db.balanceReorgEpoch := by
  cases statement with
  | flushLatest balances => exact rfl
  | flushSorted balances latest => exact ⟨read, _, rfl⟩
  | _ => trivial

theorem EpochLocked.advance (locked : EpochLocked system) {next : BalanceSystem} (advances : system.Advances i next) :
    EpochLocked next := by
  cases advances with
  | waits => exact locked
  | goes found statement lock =>
    refine locked.move i _ ?_ rfl (statement.epochRead (locked.epochs i _ found)) system.reverted
    rcases lock with same | ⟨_, granted⟩
    · exact locked.locks.keep found (.inl same)
    · exact locked.locks.grant granted
  | takesEpoch found =>
    refine ⟨locked.locks.keep found (.inl rfl), ?_⟩
    -- Every other transaction holds nothing, so it has not read the sequence.
    intro j other there
    rcases getElem?_set_cases there with ⟨_, rfl⟩ | ⟨apart, before⟩
    · exact rfl
    · exact BalanceTx.epochRead_of_free _ (locked.locks.alone found rfl apart before)

theorem EpochLocked.commit (locked : EpochLocked system) {keccak256 : Bytes → Hash} {next : BalanceSystem}
    (commits : system.Commits keccak256 i next) : EpochLocked next := by
  cases commits with
  | waits => exact locked
  | fails found => exact locked.move i .rolledBack (locked.locks.keep found (.inr rfl)) rfl trivial system.reverted
  | flushes found written =>
    exact locked.move i .committed (locked.locks.keep found (.inr rfl)) (writeReads_epoch written).1 trivial
      system.reverted
  | reverts found =>
    refine locked.move i .committed (locked.locks.keep found (.inr rfl)) ?_ trivial _
    rfl
  | claims found =>
    refine locked.move i .committed (locked.locks.keep found (.inr rfl)) ?_ trivial system.reverted
    rfl

theorem EpochLocked.rollback (locked : EpochLocked system) (i : Nat) : EpochLocked (system.set i .rolledBack) := by
  refine locked.move i .rolledBack ?_ rfl trivial system.reverted
  apply locked.locks.set i
  intro j other _ _
  rfl

theorem EpochLocked.sorted (locked : EpochLocked system) {latest : Nat} {balances : List Balance}
    {reads : SortedReads} (found : system.txs[i]? = some (.flush balances (.sorted latest reads))) :
    latest = system.db.balanceReorgEpoch ∧ reads.late.Nodup ∧ (∀ key ∈ reads.late, 0 < latest) ∧
      (∀ row ∈ reads.kept, row ∈ balances ∧ system.db.balanceReorgEpoch ≤ row.epoch) ∧
      ∀ row ∈ balances, row.epoch < system.db.balanceReorgEpoch → balanceKeyOf row ∈ reads.late := by
  obtain ⟨rfl, epochs, rfl⟩ := locked.epochs i _ found
  refine ⟨rfl, sortReads_late_nodup _ _ _, ?_, ?_, ?_⟩
  · intro key member
    obtain ⟨row, _, below, _⟩ := (mem_sortReads_late _ _ _ _).mp member
    exact Nat.zero_lt_of_lt below
  · intro row inside
    rw [sortReads_kept] at inside
    obtain ⟨listed, passes⟩ := mem_filter.mp inside
    rw [passesFence, Bool.and_eq_true, decide_eq_true_eq] at passes
    exact ⟨(perm_insertionSort _ _).mem_iff.mp listed, passes.1⟩
  · intro row inside below
    exact (mem_sortReads_late _ _ _ _).mpr ⟨row, (perm_insertionSort _ _).mem_iff.mpr inside, below, rfl⟩

end

/-! ## The fence -/

def BalanceTx.KeysRead (db : BalanceStore) : BalanceTx → Prop
  | .revert number (.keysRead keys) => keys = blockBalanceKeys db number
  | .revert number (.epochTaken keys _) => keys = blockBalanceKeys db number
  | _ => True

theorem BalanceTx.keysRead_of_shared (db : BalanceStore) (shared : tx.revertLock ≠ .exclusive) :
    tx.KeysRead db := by
  cases tx with
  | revert number phase =>
    cases phase with
    | begun => trivial
    | _ => exact absurd rfl shared
  | _ => trivial

structure Fenced (system : BalanceSystem) : Prop where
  locked : EpochLocked system
  keys : ∀ (i : Nat) tx, system.txs[i]? = some tx → tx.KeysRead system.db
  taken : ∀ entry ∈ system.reverted, entry.1 ≤ system.db.balanceReorgEpoch
  marked : ∀ entry ∈ system.reverted, ∀ key ∈ entry.2,
    ∃ row, system.db.balanceRereads.lookup key = some row ∧ entry.1 ≤ row.epoch

theorem Fenced.start (db : BalanceStore) : Fenced { db := db } where
  locked := ⟨fun i j first second _ found => by simp at found, fun i tx found => by simp at found⟩
  keys := fun i tx found => by simp at found
  taken := fun entry member => by simp at member
  marked := fun entry member => by simp at member

section

variable {system : BalanceSystem}

variable {tx new : BalanceTx} {i : Nat} {next : BalanceSystem} {keccak256 : Bytes → Hash}

theorem Fenced.begin (fenced : Fenced system) (free : tx.revertLock = .free) :
    Fenced { system with txs := system.txs ++ [tx] } where
  locked := fenced.locked.begin free
  keys := by
    intro i other found
    rcases getElem?_concat_cases found with before | ⟨_, rfl⟩
    · exact fenced.keys i other before
    · exact BalanceTx.keysRead_of_shared _ (by rw [free]; decide)
  taken := fenced.taken
  marked := fenced.marked

theorem BalanceTx.Statement.keysRead {db : BalanceStore} {old : BalanceTx} (statement : old.Statement db new) :
    new.KeysRead db := by
  cases statement with
  | revertKeys number => exact rfl
  | _ => trivial

theorem Fenced.advance (fenced : Fenced system) (advances : system.Advances i next) :
    Fenced next := by
  refine ⟨fenced.locked.advance advances, ?_, ?_, ?_⟩
  · intro j other there
    cases advances with
    | waits => exact fenced.keys j other there
    | goes found statement lock =>
      rcases getElem?_set_cases there with ⟨_, rfl⟩ | ⟨_, before⟩
      · exact statement.keysRead
      · exact fenced.keys j other before
    | takesEpoch found =>
      rcases getElem?_set_cases there with ⟨_, rfl⟩ | ⟨_, before⟩
      · exact fenced.keys i _ found
      · exact fenced.keys j other before
  · intro entry member
    cases advances with
    | waits => exact fenced.taken entry member
    | goes => exact fenced.taken entry member
    | takesEpoch => exact (fenced.taken entry member).trans (Nat.le_succ _)
  · cases advances <;> exact fenced.marked

theorem Fenced.write (fenced : Fenced system) {next : BalanceStore} (found : system.txs[i]? = some tx)
    (shared : tx.revertLock = .shared) (ended : new.revertLock = .free)
    (locked : EpochLocked { system.set i new with db := next })
    (same : next.balanceReorgEpoch = system.db.balanceReorgEpoch)
    (grown : Grown system.db.balanceRereads next.balanceRereads) :
    Fenced { system.set i new with db := next } where
  locked := locked
  keys := by
    intro j other there
    rcases getElem?_set_cases there with ⟨_, rfl⟩ | ⟨apart, before⟩
    · exact BalanceTx.keysRead_of_shared _ (by rw [ended]; decide)
    · apply BalanceTx.keysRead_of_shared
      intro exclusive
      have free := fenced.locked.locks.alone before exclusive (Ne.symm apart) found
      rw [shared] at free
      cases free
  taken := fun entry member => same.symm ▸ fenced.taken entry member
  marked := by
    intro entry member key inside
    obtain ⟨row, present, reached⟩ := fenced.marked entry member key inside
    obtain ⟨later, now, further⟩ := grown key row present
    exact ⟨later, now, reached.trans further⟩

theorem Fenced.revert (fenced : Fenced system) {number epoch : Nat} {keys : List BalanceKey}
    (found : system.txs[i]? = some (.revert number (.epochTaken keys epoch)))
    (locked : EpochLocked { system.set i .committed with
      db := commitRevert keccak256 number keys epoch system.db
      reverted := system.reverted ++ [(epoch, blockBalanceKeys system.db number)] }) :
    Fenced { system.set i .committed with
      db := commitRevert keccak256 number keys epoch system.db
      reverted := system.reverted ++ [(epoch, blockBalanceKeys system.db number)] } where
  locked := locked
  keys := by
    intro j other there
    rcases getElem?_set_cases there with ⟨_, rfl⟩ | ⟨apart, before⟩
    · trivial
    · exact BalanceTx.keysRead_of_shared _ (by rw [fenced.locked.locks.alone found rfl apart before]; decide)
  taken := by
    have latest : epoch = system.db.balanceReorgEpoch := fenced.locked.epochs i _ found
    intro entry member
    rcases mem_append.mp member with before | now
    · exact fenced.taken entry before
    · rw [mem_singleton.mp now]
      exact latest.le
  marked := by
    have latest : epoch = system.db.balanceReorgEpoch := fenced.locked.epochs i _ found
    have read : keys = blockBalanceKeys system.db number := fenced.keys i _ found
    subst read
    have distinct : (blockBalanceKeys system.db number).Nodup := nodup_dedup _
    intro entry member key inside
    by_cases own : key ∈ blockBalanceKeys system.db number
    · refine ⟨⟨epoch, true, 0⟩, recordBalanceRereads_of_mem distinct epoch _ own, ?_⟩
      rcases mem_append.mp member with before | now
      · exact (fenced.taken entry before).trans latest.ge
      · rw [mem_singleton.mp now]
    · rcases mem_append.mp member with before | now
      · obtain ⟨row, present, reached⟩ := fenced.marked entry before key inside
        exact ⟨row, (recordBalanceRereads_of_notMem epoch _ own).trans present, reached⟩
      · rw [mem_singleton.mp now] at inside
        exact absurd inside own

theorem Fenced.commit (fenced : Fenced system) (commits : system.Commits keccak256 i next) : Fenced next := by
  have locked := fenced.locked.commit commits
  cases commits with
  | waits => exact fenced
  | fails found => exact fenced.write found rfl rfl locked rfl (fun key row present => ⟨row, present, le_rfl⟩)
  | flushes found written =>
    obtain ⟨same, grown, _⟩ := writeReads_epoch written
    exact fenced.write found rfl rfl locked same grown
  | reverts found => exact fenced.revert found locked
  | claims found =>
    exact fenced.write found rfl rfl locked rfl ((closeRereads_grown _ _).trans (countAttempts_grown _ _))

theorem Fenced.step (fenced : Fenced system) (keccak256 : Bytes → Hash) (tbcLockKey : BalanceKey → Int)
    (event : BalanceEvent) : Fenced (system.step keccak256 tbcLockKey event) := by
  cases event with
  | beginFlush balances =>
    rw [BalanceSystem.step]
    split
    · exact fenced
    · exact fenced.begin rfl
  | beginRevert number => exact fenced.begin rfl
  | beginClaim limit => exact fenced.begin rfl
  | advance i skipped => exact fenced.advance (system.advance_advances tbcLockKey i skipped)
  | commit i => exact fenced.commit (system.commit_commits keccak256 i)
  | rollback i =>
    rw [BalanceSystem.step]
    split
    · exact fenced
    · refine ⟨fenced.locked.rollback i, ?_, fenced.taken, fenced.marked⟩
      intro j other there
      rcases getElem?_set_cases there with ⟨_, rfl⟩ | ⟨_, before⟩
      · trivial
      · exact fenced.keys j other before

end

/-- A read decided before block 5 was reverted, flushed after: it is dropped and its key is asked for again. -/
example :
    let system := run (BalanceSystem.step (fun _ => 0) (fun _ => 0)) { db := {} }
      [.beginFlush [⟨"0xA", "0xT", 5, .decimal 7, 0⟩], .beginRevert 5, .advance 1 [], .advance 0 [], .advance 1 [],
        .advance 1 [], .commit 1, .advance 0 [], .advance 0 [], .advance 0 [], .advance 0 [], .commit 0]
    system.reverted = [(1, [])] ∧ system.db.balances.lookup (⟨"0xt", "0xa"⟩, 5) = none ∧
      system.db.balanceRereads.lookup ⟨"0xt", "0xa"⟩ = some ⟨1, true, 0⟩ := by
  decide +kernel

end OpsIndexer.Db
