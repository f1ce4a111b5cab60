import OpsIndexer.Db.Balances
import OpsIndexer.Db.Counters

/-!
# The balance tables derived from the history

A flush, a revert and a block's write, each as one transaction: the cached current balance stays the history row with
the highest block, and a token's holder count stays the number of its positive current rows.
-/

namespace OpsIndexer.Db

open Eth OpsIndexer.Types Lib.Keyed Lib.Table List

/-! ## The order of a flush -/

theorem balanceRank_injective : Function.Injective balanceRank := by
  rintro ⟨⟨token, address⟩, block⟩ ⟨⟨token', address'⟩, block'⟩ same
  simp only [balanceRank, toLex_inj, Prod.mk.injEq] at same
  obtain ⟨rfl, rfl, rfl⟩ := same
  rfl

def keyRank (key : BalanceKey) : String ×ₗ String :=
  toLex (key.token, key.address)

theorem keyRank_injective : Function.Injective keyRank := by
  rintro ⟨token, address⟩ ⟨token', address'⟩ same
  simp only [keyRank, toLex_inj, Prod.mk.injEq] at same
  obtain ⟨rfl, rfl⟩ := same
  rfl

theorem balanceRank_le_iff (first second : BalanceKey × Nat) :
    balanceRank first ≤ balanceRank second ↔
      keyRank first.1 < keyRank second.1 ∨ (first.1 = second.1 ∧ first.2 ≤ second.2) := by
  rw [← keyRank_injective.eq_iff]
  simp only [balanceRank, keyRank, Prod.Lex.toLex_le_toLex, Prod.Lex.toLex_lt_toLex, toLex_inj, Prod.mk.injEq]
  tauto

/-- The batch in the order it is written: rows of one key and block stay in the order they arrived. -/
structure Ordered (rows balances : List Balance) : Prop where
  sorted : rows.Pairwise fun first second => balanceRank (historyKeyOf first) ≤ balanceRank (historyKeyOf second)
  perm : rows.Perm balances
  ties : ∀ wanted, (rows.filter fun row => historyKeyOf row = wanted) =
    balances.filter fun row => historyKeyOf row = wanted

theorem orderedBalances_ordered (balances : List Balance) : Ordered (orderedBalances balances) balances where
  sorted := pairwise_insertionSort _ balances
  perm := perm_insertionSort _ balances
  ties := by
    intro wanted
    apply filter_insertionSort
    apply pairwise_of_forall_mem_list
    intro first inFirst second inSecond
    simp only [mem_filter, decide_eq_true_eq] at inFirst inSecond
    rw [inFirst.2, inSecond.2]

theorem Ordered.filter {rows balances : List Balance} (ordered : Ordered rows balances) (chosen : Balance → Bool) :
    Ordered (rows.filter chosen) (balances.filter chosen) where
  sorted := ordered.sorted.filter chosen
  perm := ordered.perm.filter chosen
  ties := by
    intro wanted
    have swap (list : List Balance) : ((list.filter chosen).filter fun row => historyKeyOf row = wanted) =
        (list.filter fun row => historyKeyOf row = wanted).filter chosen := by
      rw [filter_filter, filter_filter]
      exact filter_congr fun row _ => Bool.and_comm _ _
    rw [swap, swap, ordered.ties]

theorem Ordered.sortedKeys {rows balances : List Balance} (ordered : Ordered rows balances) :
    rows.Pairwise fun first second => keyRank (balanceKeyOf first) ≤ keyRank (balanceKeyOf second) := by
  apply ordered.sorted.imp
  intro first second before
  rcases (balanceRank_le_iff _ _).mp before with less | ⟨same, _⟩
  · exact less.le
  · exact (congrArg keyRank same).le

/-! ## Holder counts -/

theorem tick_any_token (token : String) (key : BalanceKey) (current : Option CurrentBalance) :
    tick (current.any fun row => key.token = token ∧ 0 < row.balance) =
      if key.token = token then tick (positive current) else 0 := by
  by_cases same : key.token = token
  · simp only [same, true_and, if_true, positive]
  · simp only [same, false_and, decide_false, if_false]
    cases current <;> rfl

theorem tokenDelta_cons (entry : String × Int) (rest : List (String × Int)) (token : String) :
    tokenDelta (entry :: rest) token = (if entry.1 = token then entry.2 else 0) + tokenDelta rest token := by
  unfold tokenDelta
  by_cases same : entry.1 = token <;> simp [same]

theorem holders_alterAll (currents : CurrentBalances)
    (changes : List (BalanceKey × (Option CurrentBalance → Option CurrentBalance)))
    (distinct : (changes.map Prod.fst).Nodup) (token : String) :
    holders (alterAll currents changes) token = holders currents token +
      tokenDelta (changes.map fun entry => (entry.1.token,
        tick (positive (entry.2 (currents.lookup entry.1))) - tick (positive (currents.lookup entry.1)))) token := by
  rw [holders, countRows_alterAll _ _ _ distinct, holders]
  congr 1
  clear distinct
  induction changes with
  | nil => rfl
  | cons entry rest ih =>
    rw [map_cons, sum_cons, ih, map_cons, tokenDelta_cons, tick_any_token, tick_any_token]
    congr 1
    split <;> simp

theorem lookup_applyHolderDeltas (counts : HolderCounts) (deltas : List (String × Int)) (token : String) :
    (applyHolderDeltas counts deltas).lookup token =
      if tokenDelta deltas token = 0 then counts.lookup token
      else applyHolderDelta (tokenDelta deltas token) (counts.lookup token) := by
  unfold applyHolderDeltas
  have keys : ((((deltas.map Prod.fst).dedup.filter fun token => tokenDelta deltas token ≠ 0).map fun token =>
      (token, applyHolderDelta (tokenDelta deltas token))).map Prod.fst) =
      (deltas.map Prod.fst).dedup.filter fun token => tokenDelta deltas token ≠ 0 := by
    rw [map_map]
    exact map_id _
  split
  · next still =>
    apply lookup_alterAll_of_notMem
    rw [keys]
    simp [still]
  · next moves =>
    -- A token without a delta has the sum 0, so this one has its entry.
    have listed : token ∈ deltas.map Prod.fst := by
      by_contra absent
      apply moves
      have none : deltas.filter (fun entry => entry.1 = token) = [] := by
        rw [filter_eq_nil_iff]
        intro entry member
        simp only [decide_eq_true_eq]
        intro same
        exact absent (same ▸ mem_map_of_mem member)
      rw [tokenDelta, none]
      rfl
    have entry : (token, applyHolderDelta (tokenDelta deltas token)) ∈
        ((deltas.map Prod.fst).dedup.filter fun token => tokenDelta deltas token ≠ 0).map fun token =>
          (token, applyHolderDelta (tokenDelta deltas token)) := by
      apply mem_map_of_mem
      simpa [moves] using listed
    have distinct : ((deltas.map Prod.fst).dedup.filter fun token => tokenDelta deltas token ≠ 0).Nodup :=
      (nodup_dedup _).filter _
    rw [← keys] at distinct
    exact lookup_alterAll_of_mem _ counts distinct entry

theorem holders_nonneg (currents : CurrentBalances) (token : String) : 0 ≤ holders currents token :=
  Int.natCast_nonneg _

theorem counted_applyHolderDeltas {counts : HolderCounts} {before after : CurrentBalances}
    {deltas : List (String × Int)} {token : String}
    (counted : counts.lookup token = some (holders before token))
    (moved : holders after token = holders before token + tokenDelta deltas token) :
    (applyHolderDeltas counts deltas).lookup token = some (holders after token) := by
  rw [lookup_applyHolderDeltas]
  split
  · next still => rw [counted, moved, still, add_zero]
  · rw [counted, applyHolderDelta, Option.map_some, ← moved, max_eq_left (holders_nonneg after token)]

/-! ## The latest history row -/

def IsLatest (history : BalanceHistory) (key : BalanceKey) : Option CurrentBalance → Prop
  | none => ∀ block, history.lookup (key, block) = none
  | some row => history.lookup (key, row.blockNumber) = some row.balance ∧
      ∀ block, (history.lookup (key, block)).isSome → block ≤ row.blockNumber

theorem latestBalance_isLatest (history : BalanceHistory) (key : BalanceKey) :
    IsLatest history key (latestBalance history key) := by
  have entry (block : Nat) (value : Int) : history.lookup (key, block) = some value ↔
      (⟨(key, block), value⟩ : Sigma fun _ : BalanceKey × Nat => Int) ∈
        history.entries.filter fun entry => entry.1.1 = key := by
    rw [← Option.mem_def, AList.mem_lookup_iff, mem_filter]
    simp
  unfold latestBalance
  cases found : (history.entries.filter fun entry => entry.1.1 = key).argmax fun entry => entry.1.2 with
  | none =>
    rw [argmax_eq_none] at found
    intro block
    rw [Option.eq_none_iff_forall_ne_some]
    intro value same
    rw [entry, found] at same
    cases same
  | some top =>
    obtain ⟨⟨topKey, topBlock⟩, value⟩ := top
    have member := argmax_mem found
    have own : topKey = key := by simpa using (mem_filter.mp member).2
    subst own
    refine ⟨(entry topBlock value).mpr member, ?_⟩
    intro block some
    obtain ⟨other, present⟩ := Option.isSome_iff_exists.mp some
    exact le_of_mem_argmax ((entry block other).mp present) found

variable {history after : BalanceHistory} {current : Option CurrentBalance} {db next : BalanceStore} {row : TokenRow}
  {partitionOf : Nat → Nat} {data : BlockData}

theorem IsLatest.congr {key : BalanceKey} (before : IsLatest history key current)
    (same : ∀ block, after.lookup (key, block) = history.lookup (key, block)) :
    IsLatest after key current := by
  cases current with
  | none => exact fun block => (same block).trans (before block)
  | some row => exact ⟨(same _).trans before.1, fun block present => before.2 block (same block ▸ present)⟩

theorem IsLatest.upsert {row : BalanceRow} (before : IsLatest history row.key current)
    (top : after.lookup (row.key, row.block) = some row.balance)
    (above : ∀ block, row.block < block → after.lookup (row.key, block) = history.lookup (row.key, block)) :
    IsLatest after row.key (upsertCurrent row current) := by
  unfold upsertCurrent
  cases current with
  | none =>
    refine ⟨top, ?_⟩
    intro block present
    by_contra higher
    rw [above block (by simpa using higher), before block] at present
    cases present
  | some cached =>
    obtain ⟨cachedRow, highest⟩ := before
    by_cases accepted : cached.blockNumber ≤ row.block
    · rw [if_pos (by simpa [acceptsCurrent] using accepted)]
      refine ⟨top, ?_⟩
      intro block present
      by_contra higher
      rw [above block (by simpa using higher)] at present
      exact higher ((highest block present).trans accepted)
    · rw [if_neg (by simpa [acceptsCurrent] using accepted)]
      refine ⟨(above _ (by omega)).trans cachedRow, ?_⟩
      intro block present
      by_cases higher : row.block < block
      · exact highest block (above block higher ▸ present)
      · omega

/-! ## A flush -/

theorem writeRows_current (currentRows historyRows : List BalanceRow) (latest : Nat) (reads : SortedReads)
    (db : BalanceStore) (distinct : (currentRows.map (·.key)).Nodup) (token : String) :
    holders (writeRows historyRows currentRows latest reads db).tokenBalancesCurrent token =
      holders db.tokenBalancesCurrent token + tokenDelta (currentRows.map fun row =>
        (row.key.token, currentDelta db.tokenBalancesCurrent row)) token := by
  have keys : (currentRows.map fun row => (row.key, upsertCurrent row)).map Prod.fst = currentRows.map (·.key) := by
    rw [map_map]
    rfl
  rw [writeRows, holders_alterAll _ _ (keys ▸ distinct), map_map]
  congr 2
  apply map_congr_left
  intro row _
  simp only [Function.comp_apply, currentDelta, upsertCurrent]
  split
  · rfl
  · simp

def lastArrival (balances : List Balance) (key : BalanceKey × Nat) : Option Balance :=
  (balances.filter fun row => historyKeyOf row = key).getLast?

theorem lastArrival_mem {balances : List Balance} {key : BalanceKey × Nat} {row : Balance}
    (arrived : lastArrival balances key = some row) : row ∈ balances ∧ historyKeyOf row = key := by
  obtain ⟨member, same⟩ := mem_filter.mp (mem_of_getLast? arrived)
  exact ⟨member, by simpa using same⟩

section

variable {rows balances : List Balance}

theorem Ordered.mem_historyRows (ordered : Ordered rows balances) (row : Balance) :
    row ∈ lastOfRuns historyKeyOf rows ↔ lastArrival balances (historyKeyOf row) = some row := by
  rw [mem_lastOfRuns_iff historyKeyOf balanceRank balanceRank_injective _ ordered.sorted, ordered.ties]
  rfl

variable {row : Balance}

/-- The current row of a batch: no row of its key is at a higher block, and it is the last one at its own. -/
theorem Ordered.mem_currentRows (ordered : Ordered rows balances) (member : row ∈ lastOfRuns balanceKeyOf rows) :
    lastArrival balances (historyKeyOf row) = some row ∧
      ∀ other ∈ balances, balanceKeyOf other = balanceKeyOf row → other.blockNumber ≤ row.blockNumber := by
  have ends := (mem_lastOfRuns_iff balanceKeyOf keyRank keyRank_injective _ ordered.sortedKeys row).mp member
  constructor
  · have tied := getLast?_filter (fun other => decide (historyKeyOf other = historyKeyOf row)) ends
      (by simp)
    rw [filter_filter] at tied
    have same : (rows.filter fun other =>
        decide (historyKeyOf other = historyKeyOf row) && decide (balanceKeyOf other = balanceKeyOf row)) =
        rows.filter fun other => historyKeyOf other = historyKeyOf row := by
      apply filter_congr
      intro other _
      by_cases hit : historyKeyOf other = historyKeyOf row
      · have key : balanceKeyOf other = balanceKeyOf row := congrArg Prod.fst hit
        simp [hit, key]
      · simp [hit]
    rw [same, ordered.ties] at tied
    exact tied
  · intro other inside key
    have sorted := ordered.sorted.filter fun other => decide (balanceKeyOf other = balanceKeyOf row)
    have reflexive : Std.Refl fun first second : Balance =>
        balanceRank (historyKeyOf first) ≤ balanceRank (historyKeyOf second) := ⟨fun _ => le_rfl⟩
    have below := rel_getLast? sorted ends other (by
      rw [mem_filter]
      exact ⟨ordered.perm.mem_iff.mpr inside, by simpa using key⟩)
    rcases (balanceRank_le_iff _ _).mp below with less | ⟨_, bound⟩
    · exact absurd less (by simp [historyKeyOf, key])
    · exact bound

theorem Ordered.exists_currentRow (ordered : Ordered rows balances) (member : row ∈ balances) :
    ∃ current ∈ lastOfRuns balanceKeyOf rows, balanceKeyOf current = balanceKeyOf row := by
  have cut := filter_lastOfRuns balanceKeyOf keyRank keyRank_injective (balanceKeyOf row) _ ordered.sortedKeys
  have own : row ∈ rows.filter fun other => balanceKeyOf other = balanceKeyOf row :=
    mem_filter.mpr ⟨ordered.perm.mem_iff.mpr member, by simp⟩
  cases ends : (rows.filter fun other => decide (balanceKeyOf other = balanceKeyOf row)).getLast? with
  | none =>
    rw [List.getLast?_eq_none_iff] at ends
    rw [ends] at own
    cases own
  | some current =>
    have listed : current ∈ (lastOfRuns balanceKeyOf rows).filter
        fun other => balanceKeyOf other = balanceKeyOf row := by
      rw [cut, ends]
      exact mem_singleton_self current
    rw [mem_filter] at listed
    exact ⟨current, listed.1, by simpa using listed.2⟩

theorem Ordered.lookup_insertHistory (ordered : Ordered rows balances) (history : BalanceHistory)
    (key : BalanceKey × Nat) :
    (insertHistory ((lastOfRuns historyKeyOf rows).map decodedBalance) history).lookup key =
      ((lastArrival balances key).map fun row => (decodedBalance row).balance).or (history.lookup key) := by
  have keys : (((lastOfRuns historyKeyOf rows).map decodedBalance).map fun row =>
      ((row.key, row.block), fun _ : Option Int => some row.balance)).map Prod.fst =
      (lastOfRuns historyKeyOf rows).map historyKeyOf := by
    rw [map_map, map_map]
    rfl
  have distinct := lastOfRuns_keys_nodup historyKeyOf balanceRank balanceRank_injective _ ordered.sorted
  unfold insertHistory
  cases arrived : lastArrival balances key with
  | none =>
    rw [lookup_alterAll_of_notMem]
    · rfl
    · rw [keys]
      intro member
      obtain ⟨row, inside, same⟩ := mem_map.mp member
      have last := (ordered.mem_historyRows row).mp inside
      rw [same, arrived] at last
      cases last
  | some row =>
    obtain ⟨_, rfl⟩ := lastArrival_mem arrived
    have inside := (ordered.mem_historyRows row).mpr arrived
    have entry := mem_map_of_mem (f := fun row : BalanceRow =>
      ((row.key, row.block), fun _ : Option Int => some row.balance)) (mem_map_of_mem (f := decodedBalance) inside)
    exact lookup_alterAll_of_mem _ history (keys ▸ distinct) entry

end

structure BalancesAgree (db : BalanceStore) : Prop where
  latest : ∀ key, IsLatest db.balances key (db.tokenBalancesCurrent.lookup key)
  counts : ∀ row ∈ db.store.tokens,
    db.holderCounts.lookup row.address = some (holders db.tokenBalancesCurrent row.address)
  fence : ∀ key row, db.balanceRereads.lookup key = some row → row.epoch ≤ db.balanceReorgEpoch
  unpruned : db.historyFrom = 0

def atLatestEpoch (db : BalanceStore) (balances : List Balance) : List Balance :=
  balances.filter fun row => db.balanceReorgEpoch ≤ row.epoch

theorem BalancesAgree.kept (agree : BalancesAgree db) (rows : List Balance) :
    (sortReads db.balanceReorgEpoch db.balanceRereads rows).kept = atLatestEpoch db rows := by
  rw [sortReads_kept]
  apply filter_congr
  intro row _
  unfold passesFence
  cases found : db.balanceRereads.lookup (balanceKeyOf row) with
  | none => simp
  | some reverted =>
    have below := agree.fence _ _ found
    simp only [Option.all_some]
    by_cases reached : db.balanceReorgEpoch ≤ row.epoch
    · simp [reached, below.trans reached]
    · simp [reached]

/-! ## The requests' epochs -/

section

variable (good : Nat → Prop) {keys : List BalanceKey} {epoch : Nat} {rereads : Rereads}

theorem epoch_alterAll (before : ∀ key row, rereads.lookup key = some row → good row.epoch)
    {change : Option Reread → Option Reread} (each : ∀ key ∈ keys, ∀ old,
      (∀ row, old = some row → good row.epoch) → ∀ row, change old = some row → good row.epoch) (key : BalanceKey) :
    ∀ row, (alterAll rereads (keys.map fun key => (key, change))).lookup key = some row → good row.epoch := by
  refine lookup_alterAll_induction (fun _ row => ∀ found : Reread, row = some found → good found.epoch)
    _ _ before ?_ key
  intro entry member
  obtain ⟨key, listed, rfl⟩ := mem_map.mp member
  exact each key listed

theorem reopenRereads_epoch (own : ∀ key ∈ keys, good epoch)
    (before : ∀ key row, rereads.lookup key = some row → good row.epoch) (key : BalanceKey) :
    ∀ row, (reopenRereads keys epoch rereads).lookup key = some row → good row.epoch := by
  refine epoch_alterAll good before (fun key listed old known row changed => ?_) key
  cases old with
  | none =>
    rw [← Option.some.inj changed]
    exact own key listed
  | some before =>
    rw [← Option.some.inj changed]
    rcases max_choice before.epoch epoch with same | same
    · exact same.symm ▸ known before rfl
    · exact same.symm ▸ own key listed

theorem map_epoch (before : ∀ key row, rereads.lookup key = some row → good row.epoch) (change : Reread → Reread)
    (keeps : ∀ row, (change row).epoch = row.epoch) (key : BalanceKey) :
    ∀ row, (alterAll rereads (keys.map fun key => (key, Option.map change))).lookup key = some row →
      good row.epoch := by
  refine epoch_alterAll good before (fun _ _ old known row changed => ?_) key
  obtain ⟨before, same, rfl⟩ := Option.map_eq_some_iff.mp changed
  rw [keeps]
  exact known before same

theorem closeRereads_epoch (before : ∀ key row, rereads.lookup key = some row → good row.epoch) (key : BalanceKey) :
    ∀ row, (closeRereads keys rereads).lookup key = some row → good row.epoch :=
  map_epoch good before (fun row => { row with opened := false }) (fun _ => rfl) key

theorem recordBalanceRereads_epoch (own : good epoch)
    (before : ∀ key row, rereads.lookup key = some row → good row.epoch) (key : BalanceKey) :
    ∀ row, (recordBalanceRereads keys epoch rereads).lookup key = some row → good row.epoch :=
  epoch_alterAll good before (fun _ _ _ _ _ changed => Option.some.inj changed ▸ own) key

end

/-! ## One transaction -/

theorem BalancesAgree.writeRows {rows balances : List Balance} (agree : BalancesAgree db)
    (ordered : Ordered rows balances) (reads : SortedReads) :
    BalancesAgree (writeRows ((lastOfRuns historyKeyOf rows).map decodedBalance)
      ((lastOfRuns balanceKeyOf rows).map decodedBalance) db.balanceReorgEpoch reads db) := by
  have history (key : BalanceKey × Nat) := ordered.lookup_insertHistory db.balances key
  have keys : ((lastOfRuns balanceKeyOf rows).map decodedBalance).map (·.key) =
      (lastOfRuns balanceKeyOf rows).map balanceKeyOf := by
    rw [map_map]
    rfl
  have distinct := lastOfRuns_keys_nodup balanceKeyOf keyRank keyRank_injective _ ordered.sortedKeys
  have changes : (((lastOfRuns balanceKeyOf rows).map decodedBalance).map fun row =>
      (row.key, upsertCurrent row)).map Prod.fst = (lastOfRuns balanceKeyOf rows).map balanceKeyOf := by
    rw [map_map, map_map]
    rfl
  refine ⟨?_, ?_, ?_, agree.unpruned⟩
  · intro key
    by_cases touched : key ∈ (lastOfRuns balanceKeyOf rows).map balanceKeyOf
    · obtain ⟨row, inside, rfl⟩ := mem_map.mp touched
      obtain ⟨last, highest⟩ := ordered.mem_currentRows inside
      have entry := mem_map_of_mem (f := fun row : BalanceRow => (row.key, upsertCurrent row))
        (mem_map_of_mem (f := decodedBalance) inside)
      have now := lookup_alterAll_of_mem _ db.tokenBalancesCurrent (changes ▸ distinct) entry
      refine (congrArg (IsLatest _ _) now).mpr ((agree.latest (balanceKeyOf row)).upsert ?_ ?_)
      · exact (history (historyKeyOf row)).trans (by rw [last]; rfl)
      · -- The batch has no row of the key above its current row.
        intro block higher
        refine (history (balanceKeyOf row, block)).trans ?_
        cases arrived : lastArrival balances (balanceKeyOf row, block) with
        | none => rfl
        | some other =>
          obtain ⟨member, same⟩ := lastArrival_mem arrived
          have bound := highest other member (congrArg Prod.fst same)
          have own : other.blockNumber = block := congrArg Prod.snd same
          exact absurd (own ▸ bound) (Nat.not_le.mpr higher)
    · have still := lookup_alterAll_of_notMem _ db.tokenBalancesCurrent key (changes ▸ touched)
      refine (congrArg (IsLatest _ _) still).mpr ((agree.latest key).congr ?_)
      intro block
      refine (history (key, block)).trans ?_
      cases arrived : lastArrival balances (key, block) with
      | none => rfl
      | some other =>
        obtain ⟨member, same⟩ := lastArrival_mem arrived
        obtain ⟨current, inside, sameKey⟩ := ordered.exists_currentRow member
        exact absurd (mem_map.mpr ⟨current, inside, sameKey.trans (congrArg Prod.fst same)⟩) touched
  · intro row member
    exact counted_applyHolderDeltas (agree.counts row member)
      (writeRows_current _ _ db.balanceReorgEpoch reads db (keys ▸ distinct) row.address)
  · refine reopenRereads_epoch (· ≤ db.balanceReorgEpoch) (fun _ _ => le_rfl) ?_
    exact closeRereads_epoch (· ≤ db.balanceReorgEpoch) agree.fence

theorem BalancesAgree.flush {balances : List Balance} (agree : BalancesAgree db)
    (written : insertBalancesBatch balances db = .ok next) :
    BalancesAgree next ∧ ∀ key, next.balances.lookup key =
      ((lastArrival (atLatestEpoch db balances) key).map fun row => (decodedBalance row).balance).or
        (db.balances.lookup key) := by
  unfold insertBalancesBatch insertBalances at written
  split at written
  · next empty =>
    rw [List.isEmpty_iff] at empty
    rw [← Except.ok.inj written, empty]
    exact ⟨agree, fun _ => rfl⟩
  · simp only [if_true] at written
    have kept := agree.kept (orderedBalances balances)
    have ordered := (orderedBalances_ordered balances).filter fun row => db.balanceReorgEpoch ≤ row.epoch
    by_cases empty : (sortReads db.balanceReorgEpoch db.balanceRereads (orderedBalances balances)).kept = []
    · rw [writeReads, if_pos (by simpa using empty)] at written
      rw [← Except.ok.inj written]
      have none : atLatestEpoch db balances = [] := by
        rw [kept] at empty
        exact List.Perm.nil_eq (empty ▸ ordered.perm) |>.symm
      rw [none]
      refine ⟨⟨agree.latest, agree.counts, ?_, agree.unpruned⟩, fun _ => rfl⟩
      exact reopenRereads_epoch (· ≤ db.balanceReorgEpoch) (fun _ _ => le_rfl) agree.fence
    · obtain ⟨_, _, rfl⟩ := (writeReads_eq_ok_iff _ _ _ _ _ empty).mp written
      have whole : historyWrites true db.historyFrom (atLatestEpoch db (orderedBalances balances)) =
          lastOfRuns historyKeyOf (atLatestEpoch db (orderedBalances balances)) := by
        simp [historyWrites, agree.unpruned]
      rw [kept, whole]
      exact ⟨agree.writeRows ordered _, ordered.lookup_insertHistory db.balances⟩

theorem mem_historyKeys (history : BalanceHistory) (number : Nat) (key : BalanceKey) :
    key ∈ historyKeys history number ↔ (history.lookup (key, number)).isSome := by
  rw [AList.lookup_isSome, AList.mem_keys, historyKeys, mem_map]
  constructor
  · rintro ⟨entry, member, rfl⟩
    obtain ⟨listed, block⟩ := mem_filter.mp member
    rw [← of_decide_eq_true block]
    exact listed
  · intro listed
    exact ⟨(key, number), mem_filter.mpr ⟨listed, by simp⟩, rfl⟩

theorem historyKeys_nodup (history : BalanceHistory) (number : Nat) : (historyKeys history number).Nodup := by
  refine (history.keys_nodup.filter _).map_on ?_
  intro first inFirst second inSecond same
  have firstBlock := of_decide_eq_true (mem_filter.mp inFirst).2
  have secondBlock := of_decide_eq_true (mem_filter.mp inSecond).2
  exact Prod.ext same (firstBlock.trans secondBlock.symm)

theorem deleteBlock_tokens {keccak256 : Bytes → Hash} {number : Nat} {store : Store}
    (member : row ∈ (deleteBlock keccak256 number store).tokens) :
    ∃ old ∈ store.tokens, old.address = row.address := by
  simp only [deleteBlock, revertTokens_eq] at member
  obtain ⟨old, present, rfl⟩ := mem_map.mp member
  refine ⟨old, present, ?_⟩
  split <;> rfl

theorem BalancesAgree.revert (keccak256 : Bytes → Hash) (number : Nat) (agree : BalancesAgree db) :
    BalancesAgree (deleteBlockBalances keccak256 number db) ∧
      ∀ key, (deleteBlockBalances keccak256 number db).balances.lookup key =
        if key.2 = number then none else db.balances.lookup key := by
  have history (key : BalanceKey × Nat) : (keep db.balances fun key => key.2 ≠ number).lookup key =
      if key.2 = number then none else db.balances.lookup key := by
    rw [lookup_keep]
    by_cases own : key.2 = number <;> simp [own]
  have keys : ((historyKeys db.balances number).map fun key => (key, fun _ : Option CurrentBalance =>
      latestBalance (keep db.balances fun key => key.2 ≠ number) key)).map Prod.fst =
        historyKeys db.balances number := by
    rw [map_map]
    exact map_id _
  have distinct := historyKeys_nodup db.balances number
  rw [← keys] at distinct
  refine ⟨⟨?_, ?_, ?_, agree.unpruned⟩, history⟩
  · intro key
    by_cases touched : key ∈ historyKeys db.balances number
    · have entry := mem_map_of_mem (f := fun key => (key, fun _ : Option CurrentBalance =>
        latestBalance (keep db.balances fun key => key.2 ≠ number) key)) touched
      have now := lookup_alterAll_of_mem _ db.tokenBalancesCurrent distinct entry
      exact (congrArg (IsLatest _ key) now).mpr (latestBalance_isLatest _ key)
    · have still := lookup_alterAll_of_notMem _ db.tokenBalancesCurrent key (keys ▸ touched)
      refine (congrArg (IsLatest _ key) still).mpr ((agree.latest key).congr ?_)
      intro block
      refine (history (key, block)).trans ?_
      rw [mem_historyKeys, Option.not_isSome_iff_eq_none] at touched
      split
      · next own => rw [show block = number from own, touched]
      · rfl
  · intro row member
    obtain ⟨old, present, address⟩ := deleteBlock_tokens member
    rw [← address]
    refine counted_applyHolderDeltas (agree.counts old present) ((holders_alterAll _ _ distinct _).trans ?_)
    rw [map_map]
    rfl
  · exact recordBalanceRereads_epoch (· ≤ db.balanceReorgEpoch + 1) le_rfl fun key row found =>
      (agree.fence key row found).trans (Nat.le_succ _)

theorem writeSharedRows_seeds {shared : SharedRows} {tx next : Store} (own : shared.seedCountsOwnRows = true)
    (done : writeSharedRows shared tx = .ok next) (member : row ∈ next.tokens) :
    row.address ∈ (upsertTokens shared.data tx.tokens).2 ∨ ∃ old ∈ tx.tokens, old.address = row.address := by
  have holds := upsertTokens_upserted shared.data tx.tokens
  rw [writeSharedRows_tokens own done, applyDeltas_eq, seedTokens_eq _ _ _ holds.distinct, map_map] at member
  obtain ⟨source, found, rfl⟩ := mem_map.mp member
  have address : ∀ deltas : TokenDeltas, (((deltas.lookup (if source.address ∈ (upsertTokens shared.data tx.tokens).2
      then seedToken tx.tokenTransfers source else source).address).map applyDelta).getD id
      (if source.address ∈ (upsertTokens shared.data tx.tokens).2 then seedToken tx.tokenTransfers source
        else source)).address = source.address := by
    intro deltas
    cases deltas.lookup _ <;> split <;> rfl
  simp only [Function.comp_apply, address]
  rcases holds.origin source found with fresh | ⟨old, present, same, _⟩
  · exact .inl fresh
  · exact .inr ⟨old, present, same⟩

theorem insertBlockDataBatchBalances_ok (written : insertBlockDataBatchBalances partitionOf data db = .ok next) :
    insertBlockDataBatch partitionOf data db.store = .ok next.store ∧ next.balances = db.balances ∧
      next.balanceRereads = db.balanceRereads ∧ next.balanceReorgEpoch = db.balanceReorgEpoch := by
  unfold insertBlockDataBatchBalances at written
  unfold insertBlockDataBatch
  cases begun : beginBlockData partitionOf data db.store with
  | error failure => simp [begun] at written
  | ok write =>
    rw [begun] at written
    cases finished : finish db.store write with
    | error failure => simp [finished] at written
    | ok store =>
      simp only [finished, Except.ok.injEq] at written
      subst written
      exact ⟨finished, rfl, rfl, rfl⟩

theorem BalancesAgree.blockWrite (agree : BalancesAgree db)
    (written : insertBlockDataBatchBalances partitionOf data db = .ok next) :
    BalancesAgree next ∧ next.balances = db.balances := by
  unfold insertBlockDataBatchBalances at written
  cases begun : beginBlockData partitionOf data db.store with
  | error failure => simp [begun] at written
  | ok write =>
    rw [begun] at written
    cases finished : finish db.store write with
    | error failure => simp [finished] at written
    | ok store =>
      simp only [finished, Except.ok.injEq] at written
      subst written
      refine ⟨⟨agree.latest, ?_, agree.fence, agree.unpruned⟩, rfl⟩
      intro row member
      cases write with
      | stored =>
        rw [← Except.ok.inj finished] at member
        exact agree.counts row member
      | opened write =>
        simp only [lookup_foldl_insert]
        split
        · rfl
        · next old =>
          rcases beginBlockData_cases begun with stored | ⟨opened, same, _, own⟩
          · cases stored
          · cases same
            rcases writeSharedRows_seeds rfl finished member with fresh | ⟨kept, present, address⟩
            · exact absurd fresh old
            · rw [(writeOwnRows_ok own).1.tokens] at present
              rw [← address]
              exact agree.counts kept present

end OpsIndexer.Db
