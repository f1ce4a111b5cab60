import OpsIndexer.Grpcserver.Feeds

/-!
# The by-address feeds

The by-address branches of `ListTransactions` and `ListTokenTransfers`. The transaction query limits three branches
before it merges them; the naive query below selects every row the address takes part in.
-/

namespace OpsIndexer.Grpcserver

open Eth OpsIndexer.Types Db Lib.Keyset List

/-! ## Handlers -/

/-- Where a by-address request starts: at its cursor, else below `block_range.to_block`, 0 for no bound. -/
def feedPosition (toBlock : Nat) (cursor : Option (Nat × Nat)) : Option AddressFeedBound :=
  match cursor with
  | some (block, index) => some { block := block, index := some index }
  | none => if 0 < toBlock then some { block := toBlock } else none

/-- `ListTransactions` by address, its retention checks left out. -/
def listTransactionsByAddress (config : PageConfig) (requested : Int) (sorters : AddressSorters) (address : String)
    (toBlock : Nat) (store : Store) (cursor : Option TxFeedCursor) : List TransactionRow × Option TxFeedCursor :=
  let limit := clampPageSize config requested
  let before := feedPosition toBlock (cursor.map fun cur => (cur.blockNumber, cur.transactionIndex))
  buildTxListResponse (getTransactionsByAddress sorters (lower address) (limit + 1) before store) limit

def listTokenTransfersByAddress (config : PageConfig) (requested : Int) (sorter : Sorter transferKey)
    (address : String) (toBlock : Nat) (store : Store) (cursor : Option TransferFeedCursor) :
    List TransferRow × Option TransferFeedCursor :=
  let limit := clampPageSize config requested
  let before := feedPosition toBlock (cursor.map fun cur => (cur.blockNumber, cur.logIndex))
  trimPage (fun last => ⟨last.blockNumber, last.logIndex⟩)
    (getTransfersByAddress sorter (lower address) (limit + 1) before store) limit

/-! ## The naive queries -/

def takesPart (store : Store) (addr : String) (row : TransactionRow) : Bool :=
  row.fromAddress = addr || row.toAddress = some addr ||
    store.tokenTransfers.any fun transfer => transferNames addr transfer && transfer.txHash = row.hash

def naiveTransactions (address : String) (before : Option AddressFeedBound) (store : Store) : List TransactionRow :=
  store.transactions.filter fun row => takesPart store (lower address) row && belowBound before (txKey row)

def naiveTransfers (address : String) (before : Option AddressFeedBound) (store : Store) : List TransferRow :=
  store.tokenTransfers.filter fun row => transferNames (lower address) row && belowBound before (transferKey row)

theorem mem_naiveTransactions {address : String} {before : Option AddressFeedBound} {store : Store}
    {row : TransactionRow} :
    row ∈ naiveTransactions address before store ↔
      row ∈ store.transactions ∧ takesPart store (lower address) row = true ∧ belowBound before (txKey row) = true := by
  rw [naiveTransactions, mem_filter, Bool.and_eq_true]

/-! ## Branches -/

section

variable {store : Store} {addr : String} {before : Option AddressFeedBound}

theorem mem_transferCandidates {found : Candidate} :
    found ∈ transferCandidates store addr before ↔
      ∃ transfer ∈ store.tokenTransfers, transferNames addr transfer = true ∧
        ∃ row ∈ store.transactions, row.hash = transfer.txHash ∧ belowBound before (txKey row) = true ∧
          found = ⟨row.hash, txKey row⟩ := by
  simp only [transferCandidates, mem_dedup, mem_flatMap, mem_filter, mem_map, Bool.and_eq_true,
    decide_eq_true_eq]
  constructor
  · rintro ⟨transfer, ⟨stored, names⟩, row, ⟨rowStored, hash, below⟩, rfl⟩
    exact ⟨transfer, stored, names, row, rowStored, hash, below, rfl⟩
  · rintro ⟨transfer, stored, names, row, rowStored, hash, below, rfl⟩
    exact ⟨transfer, ⟨stored, names⟩, row, ⟨rowStored, hash, below⟩, rfl⟩

theorem transferCandidates_nodup (distinct : (store.transactions.map txKey).Nodup) :
    ((transferCandidates store addr before).map Candidate.position).Nodup := by
  refine List.Nodup.map_on ?_ (nodup_dedup _)
  intro first firstFound second secondFound same
  obtain ⟨_, _, _, row, stored, _, _, rfl⟩ := mem_transferCandidates.mp firstFound
  obtain ⟨_, _, _, other, otherStored, _, _, rfl⟩ := mem_transferCandidates.mp secondFound
  have equal : row = other := inj_on_of_nodup_map distinct stored otherStored same
  rw [equal]

theorem naiveTransactions_nodup (distinct : (store.transactions.map txKey).Nodup) (address : String) :
    ((naiveTransactions address before store).map txKey).Nodup :=
  distinct.sublist (filter_sublist.map txKey)

variable {address : String} {limit : Nat} {keep : TransactionRow → Bool} {row : TransactionRow}

/-- A branch of rows the address takes part in keeps those of the naive query's first rows that it selects. -/
theorem mem_branch (distinct : (store.transactions.map txKey).Nodup) (sorter branch : Sorter txKey)
    (part : ∀ row, keep row = true → takesPart store (lower address) row = true)
    (first : row ∈ (sorter.sort (naiveTransactions address before store)).take limit) (kept : keep row = true) :
    row ∈ (branch.sort ((store.transactions.filter fun row => belowBound before (txKey row)).filter keep)).take limit := by
  have naive := mem_naiveTransactions.mp ((sorter.arranged _).perm.mem_iff.mp (mem_of_mem_take first))
  refine (sorter.arranged _).mem_take_of_keys (naiveTransactions_nodup distinct address) ?_ (branch.arranged _) ?_ first
    ?_ rfl
  · exact distinct.sublist ((filter_sublist.trans filter_sublist).map txKey)
  · intro other found
    obtain ⟨inRows, otherKept⟩ := mem_filter.mp found
    obtain ⟨stored, below⟩ := mem_filter.mp inRows
    exact mem_map_of_mem (mem_naiveTransactions.mpr ⟨stored, part other otherKept, below⟩)
  · exact mem_filter.mpr ⟨mem_filter.mpr ⟨naive.1, naive.2.2⟩, kept⟩

/-- The transfer branch's candidates reach every transfer transaction of the naive query's first rows. -/
theorem mem_candidates (distinct : (store.transactions.map txKey).Nodup) (sorter : Sorter txKey)
    (order : Sorter Candidate.position) {transfer : TransferRow}
    (first : row ∈ (sorter.sort (naiveTransactions address before store)).take limit)
    (stored : transfer ∈ store.tokenTransfers) (names : transferNames (lower address) transfer = true)
    (hash : transfer.txHash = row.hash) :
    ⟨row.hash, txKey row⟩ ∈ (order.sort (transferCandidates store (lower address) before)).take limit := by
  have naive := mem_naiveTransactions.mp ((sorter.arranged _).perm.mem_iff.mp (mem_of_mem_take first))
  refine (sorter.arranged _).mem_take_of_keys (naiveTransactions_nodup distinct address)
    (transferCandidates_nodup distinct) (order.arranged _) ?_ first ?_ rfl
  · intro found member
    obtain ⟨other, otherStored, otherNames, row, rowStored, same, below, rfl⟩ := mem_transferCandidates.mp member
    apply mem_map_of_mem
    refine mem_naiveTransactions.mpr ⟨rowStored, ?_, below⟩
    rw [takesPart, Bool.or_eq_true, any_eq_true]
    exact .inr ⟨other, otherStored, by rw [otherNames, same, decide_eq_true rfl, Bool.and_self]⟩
  · exact mem_transferCandidates.mpr ⟨transfer, stored, names, row, naive.1, hash.symm, naive.2.2, rfl⟩

theorem of_mem_branch {branch : Sorter txKey} (found : row ∈ (branch.sort
      ((store.transactions.filter fun row => belowBound before (txKey row)).filter keep)).take limit) :
    row ∈ store.transactions ∧ belowBound before (txKey row) = true ∧ keep row = true := by
  have member := (branch.arranged _).perm.mem_iff.mp (mem_of_mem_take found)
  rw [mem_filter, mem_filter] at member
  exact ⟨member.1.1, member.1.2, member.2⟩

theorem takesPart_iff :
    takesPart store addr row = true ↔ row.fromAddress = addr ∨ row.toAddress = some addr ∨
      ∃ transfer ∈ store.tokenTransfers, transferNames addr transfer = true ∧ transfer.txHash = row.hash := by
  simp only [takesPart, Bool.or_eq_true, any_eq_true, Bool.and_eq_true, decide_eq_true_eq, or_assoc]

/-- Limiting the branches before they are merged loses none of the first rows. -/
theorem getTransactionsByAddress_eq (distinct : (store.transactions.map txKey).Nodup) (sorters : AddressSorters)
    (sorter : Sorter txKey) (address : String) (limit : Nat) (before : Option AddressFeedBound) :
    getTransactionsByAddress sorters address limit before store =
      (sorter.sort (naiveTransactions address before store)).take limit := by
  have keys : ((naiveTransactions address before store).map txKey).Nodup := naiveTransactions_nodup distinct address
  have candidateNames : ∀ row : TransactionRow,
      ((sorters.candidates.sort (transferCandidates store (lower address) before)).take limit).any
        (fun found => found.hash = row.hash) = true → takesPart store (lower address) row = true := by
    intro row candidates
    obtain ⟨found, member, same⟩ := any_eq_true.mp candidates
    obtain ⟨transfer, stored, names, other, _, hash, _, rfl⟩ := mem_transferCandidates.mp
      ((sorters.candidates.arranged _).perm.mem_iff.mp (mem_of_mem_take member))
    exact takesPart_iff.mpr (.inr (.inr ⟨transfer, stored, names, hash.symm.trans (of_decide_eq_true same)⟩))
  have sends : ∀ row : TransactionRow, decide (row.fromAddress = lower address) = true →
      takesPart store (lower address) row = true :=
    fun row same => takesPart_iff.mpr (.inl (of_decide_eq_true same))
  have receives : ∀ row : TransactionRow, decide (row.toAddress = some (lower address)) = true →
      takesPart store (lower address) row = true :=
    fun row same => takesPart_iff.mpr (.inr (.inl (of_decide_eq_true same)))
  refine Arranged.take_of_between (fun row member other otherMember same =>
    inj_on_of_nodup_map keys member otherMember same) (List.Nodup.of_map txKey keys) (nodup_dedup _)
    (sorter.arranged _) (sorters.merged.arranged _) ?_ ?_
  · intro row member
    rw [mem_dedup, mem_append, mem_append] at member
    rcases member with (sent | received) | moved
    · obtain ⟨stored, below, kept⟩ := of_mem_branch sent
      exact mem_naiveTransactions.mpr ⟨stored, sends row kept, below⟩
    · obtain ⟨stored, below, kept⟩ := of_mem_branch received
      exact mem_naiveTransactions.mpr ⟨stored, receives row kept, below⟩
    · obtain ⟨stored, below, kept⟩ := of_mem_branch moved
      exact mem_naiveTransactions.mpr ⟨stored, candidateNames row kept, below⟩
  · intro row first
    have naive := mem_naiveTransactions.mp ((sorter.arranged _).perm.mem_iff.mp (mem_of_mem_take first))
    rw [mem_dedup, mem_append, mem_append]
    rcases takesPart_iff.mp naive.2.1 with sent | received | ⟨transfer, stored, names, hash⟩
    · exact .inl (.inl (mem_branch distinct sorter sorters.sent sends first (decide_eq_true sent)))
    · exact .inl (.inr (mem_branch distinct sorter sorters.received receives first (decide_eq_true received)))
    · refine .inr (mem_branch distinct sorter sorters.moved candidateNames first ?_)
      exact any_eq_true.mpr ⟨_, mem_candidates distinct sorter sorters.candidates first stored names hash,
        decide_eq_true rfl⟩

end

theorem getTransfersByAddress_eq {store : Store} (distinct : (store.tokenTransfers.map transferKey).Nodup)
    (sorter other : Sorter transferKey) (address : String) (limit : Nat) (before : Option AddressFeedBound) :
    getTransfersByAddress sorter address limit before store =
      (other.sort (naiveTransfers address before store)).take limit := by
  have keys : ((naiveTransfers address before store).map transferKey).Nodup :=
    distinct.sublist (filter_sublist.map transferKey)
  have same := (sorter.arranged (naiveTransfers address before store)).unique (fun row member other otherMember equal =>
    inj_on_of_nodup_map keys member otherMember equal) (other.arranged _)
  rw [← same]
  rfl

/-! ## Walks -/

section

variable {α γ : Type} (naive : Option AddressFeedBound → List α) (place : α → Nat × Nat) {limit : Nat}
  (query : Nat → Nat → Option AddressFeedBound → List α)

def positionPage (limit page : Nat) (before : Option AddressFeedBound) : List α × Option AddressFeedBound :=
  trimPage (fun last => { block := (place last).1, index := some (place last).2 }) (query page (limit + 1) before) limit

theorem filter_inside
    (below : ∀ before, (naive none).filter (fun row => belowBound before (toLex (place row))) = naive before)
    (before : Option AddressFeedBound) :
    (naive none).filter (inside (fun row => toLex (place row)) (before.map fun bound => toLex bound.rowBound)) =
      naive before := by
  refine Eq.trans (filter_congr ?_) (below before)
  intro row _
  cases before <;> rfl

theorem positionPage_serves (positive : 0 < limit) (sorter : Sorter fun row => toLex (place row))
    (below : ∀ before, (naive none).filter (fun row => belowBound before (toLex (place row))) = naive before)
    (answers : ∀ page count before, query page count before = (sorter.sort (naive before)).take count) :
    Serves (naive none) (fun row => toLex (place row)) (fun row => toLex (place row)) limit
      (fun before => before.map fun bound => toLex bound.rowBound) some (positionPage place query limit) where
  positive := positive
  coarser := fun _ _ below => below
  start := rfl
  resumes := fun _ => .inl rfl
  page := by
    intro page before
    rw [filter_inside naive place below]
    refine ⟨_, sorter.arranged _, ?_⟩
    rw [positionPage, answers]
    obtain ⟨short, long⟩ := trimPage_take
      (fun last => ({ block := (place last).1, index := some (place last).2 } : AddressFeedBound))
      (sorter.sort (naive before)) limit
    refine ⟨short, ?_⟩
    intro last more atLast
    exact ⟨_, long last more atLast, rfl⟩

theorem trimPage_map {δ : Type} (cursorOf : α → γ) (position : γ → δ) (rows : List α) (limit : Nat) :
    trimPage (fun row => position (cursorOf row)) rows limit =
      ((trimPage cursorOf rows limit).1, (trimPage cursorOf rows limit).2.map position) := by
  unfold trimPage
  split
  · rw [Option.map_map]
    rfl
  · rfl

theorem walk_byAddress (distinct : ((naive none).map fun row => toLex (place row)).Nodup) (positive : 0 < limit)
    (sorter : Sorter fun row => toLex (place row))
    (below : ∀ before, (naive none).filter (fun row => belowBound before (toLex (place row))) = naive before)
    (answers : ∀ page count before, query page count before = (sorter.sort (naive before)).take count)
    (cursorOf : α → γ) (placeOf : γ → Nat × Nat) (placed : ∀ row, placeOf (cursorOf row) = place row) (toBlock : Nat)
    (cursor : Option γ) :
    ∃ fuel, walk (fun page cursor =>
        trimPage cursorOf (query page (limit + 1) (feedPosition toBlock (cursor.map placeOf))) limit) fuel 0 cursor =
      some (sorter.sort (naive (feedPosition toBlock (cursor.map placeOf)))) := by
  obtain ⟨fuel, walked⟩ := (positionPage_serves naive place query positive sorter below answers).walk_of_distinct
    distinct 0 (feedPosition toBlock (cursor.map placeOf)) (by
      rw [filter_inside naive place below]
      exact sorter.arranged _)
  refine ⟨fuel, ?_⟩
  rw [walk_translate (fun cursor => feedPosition toBlock (cursor.map placeOf))
    (fun cur => ({ block := (placeOf cur).1, index := some (placeOf cur).2 } : AddressFeedBound)) (fun _ => rfl) ?_]
  · exact walked
  · intro page cursor
    rw [← trimPage_map, positionPage]
    simp only [placed]

end

theorem walk_listTransactionsByAddress {store : Store} (distinct : (store.transactions.map txKey).Nodup)
    (config : PageConfig) (requested : Int) (positive : 0 < clampPageSize config requested)
    (sorters : Nat → AddressSorters) (sorter : Sorter txKey) (address : String) (toBlock : Nat)
    (cursor : Option TxFeedCursor) :
    ∃ fuel, walk (fun page cursor =>
        listTransactionsByAddress config requested (sorters page) address toBlock store cursor) fuel 0 cursor =
      some (sorter.sort (naiveTransactions address
        (feedPosition toBlock (cursor.map fun cur => (cur.blockNumber, cur.transactionIndex))) store)) := by
  refine walk_byAddress (naiveTransactions address · store) (fun row => (row.blockNumber, row.txIndex))
    (fun page count before => getTransactionsByAddress (sorters page) (lower address) count before store)
    (naiveTransactions_nodup distinct address) positive sorter ?_ ?_
    (fun row => (⟨row.blockNumber, row.txIndex⟩ : TxFeedCursor)) (fun cur => (cur.blockNumber, cur.transactionIndex))
    (fun _ => rfl) toBlock cursor
  · intro before
    change (naiveTransactions address none store).filter (fun row => belowBound before (txKey row)) = _
    simp [naiveTransactions, filter_filter, belowBound, Bool.and_comm]
  · intro page count before
    rw [getTransactionsByAddress_eq distinct (sorters page) sorter, naiveTransactions, lower_lower, ← naiveTransactions]

theorem walk_listTokenTransfersByAddress {store : Store} (distinct : (store.tokenTransfers.map transferKey).Nodup)
    (config : PageConfig) (requested : Int) (positive : 0 < clampPageSize config requested)
    (sorters : Nat → Sorter transferKey) (sorter : Sorter transferKey) (address : String) (toBlock : Nat)
    (cursor : Option TransferFeedCursor) :
    ∃ fuel, walk (fun page cursor =>
        listTokenTransfersByAddress config requested (sorters page) address toBlock store cursor) fuel 0 cursor =
      some (sorter.sort (naiveTransfers address
        (feedPosition toBlock (cursor.map fun cur => (cur.blockNumber, cur.logIndex))) store)) := by
  refine walk_byAddress (naiveTransfers address · store) (fun row => (row.blockNumber, row.logIndex))
    (fun page count before => getTransfersByAddress (sorters page) (lower address) count before store)
    (distinct.sublist (filter_sublist.map transferKey)) positive sorter ?_ ?_
    (fun row => (⟨row.blockNumber, row.logIndex⟩ : TransferFeedCursor)) (fun cur => (cur.blockNumber, cur.logIndex))
    (fun _ => rfl) toBlock cursor
  · intro before
    change (naiveTransfers address none store).filter (fun row => belowBound before (transferKey row)) = _
    simp [naiveTransfers, filter_filter, belowBound, Bool.and_comm]
  · intro page count before
    rw [getTransfersByAddress_eq distinct (sorters page) sorter, naiveTransfers, lower_lower, ← naiveTransfers]

/-- The by-address feeds are the naive queries, page by page and walked to the end, where positions are distinct. -/
theorem addressFeeds_naive (store : Store) (txDistinct : (store.transactions.map txKey).Nodup)
    (transferDistinct : (store.tokenTransfers.map transferKey).Nodup) (address : String) (txSorter : Sorter txKey)
    (transferSorter : Sorter transferKey) :
    (∀ (sorters : AddressSorters) (limit : Nat) (before : Option AddressFeedBound),
      getTransactionsByAddress sorters address limit before store =
        (txSorter.sort (naiveTransactions address before store)).take limit) ∧
    (∀ (sorter : Sorter transferKey) (limit : Nat) (before : Option AddressFeedBound),
      getTransfersByAddress sorter address limit before store =
        (transferSorter.sort (naiveTransfers address before store)).take limit) ∧
    ∀ (config : PageConfig) (requested : Int), 0 < clampPageSize config requested → ∀ toBlock : Nat,
      (∀ (sorters : Nat → AddressSorters) (cursor : Option TxFeedCursor), ∃ fuel,
        walk (fun page cursor =>
            listTransactionsByAddress config requested (sorters page) address toBlock store cursor) fuel 0 cursor =
          some (txSorter.sort (naiveTransactions address
            (feedPosition toBlock (cursor.map fun cur => (cur.blockNumber, cur.transactionIndex))) store))) ∧
      ∀ (sorters : Nat → Sorter transferKey) (cursor : Option TransferFeedCursor), ∃ fuel,
        walk (fun page cursor =>
            listTokenTransfersByAddress config requested (sorters page) address toBlock store cursor) fuel 0 cursor =
          some (transferSorter.sort (naiveTransfers address
            (feedPosition toBlock (cursor.map fun cur => (cur.blockNumber, cur.logIndex))) store)) := by
  refine ⟨fun sorters limit before => getTransactionsByAddress_eq txDistinct sorters txSorter address limit before,
    fun sorter limit before => getTransfersByAddress_eq transferDistinct sorter transferSorter address limit before, ?_⟩
  intro config requested positive toBlock
  exact ⟨fun sorters cursor => walk_listTransactionsByAddress txDistinct config requested positive sorters txSorter
      address toBlock cursor,
    fun sorters cursor => walk_listTokenTransfersByAddress transferDistinct config requested positive sorters
      transferSorter address toBlock cursor⟩

def stableSorters : AddressSorters where
  sent := stableSorter _
  received := stableSorter _
  candidates := stableSorter _
  moved := stableSorter _
  merged := stableSorter _

def bareTransfer (txHash : String) (blockNumber logIndex : Nat) (sender receiver : String) : TransferRow where
  txHash := txHash
  logIndex := logIndex
  tokenAddress := "0xf"
  fromAddress := sender
  toAddress := receiver
  value := 1
  blockNumber := blockNumber
  timestamp := none
  transferType := .transfer
  tokenType := .erc20
  tokenId := none
  isInternal := false

/-- One row a page: a sent transaction, a received one and one that only a transfer links to the address. -/
theorem addressFeeds_naive_roles :
    let store : Store := {
      transactions := [bareTransaction "0xa" 7 0 "0x1" (some "0x1"), bareTransaction "0xb" 7 1 "0x2" (some "0x1"),
        bareTransaction "0xc" 6 0 "0x2" (some "0x3"), bareTransaction "0xd" 5 0 "0x2" none]
      tokenTransfers := [bareTransfer "0xc" 6 0 "0x1" "0x1", bareTransfer "0xc" 6 1 "0x2" "0x1"] }
    ∃ fuel, walk (fun _ cursor => listTransactionsByAddress ⟨20, 100⟩ 1 stableSorters "0x1" 0 store cursor) fuel 0 none =
      some [bareTransaction "0xb" 7 1 "0x2" (some "0x1"), bareTransaction "0xa" 7 0 "0x1" (some "0x1"),
        bareTransaction "0xc" 6 0 "0x2" (some "0x3")] := by
  intro store
  obtain ⟨fuel, walked⟩ := ((addressFeeds_naive store (by decide) (by decide) "0x1" (stableSorter _)
    (stableSorter _)).2.2 ⟨20, 100⟩ 1 (by decide) 0).1 (fun _ => stableSorters) none
  refine ⟨fuel, walked.trans ?_⟩
  decide

/-- The table holds two transactions of one position: the second is on no page. -/
theorem shared_position_lost :
    let store : Store := {
      transactions := [bareTransaction "0xa" 7 0 "0x1" none, bareTransaction "0xb" 7 0 "0x1" none] }
    naiveTransactions "0x1" none store = store.transactions ∧
      walk (fun _ cursor => listTransactionsByAddress ⟨20, 100⟩ 1 stableSorters "0x1" 0 store cursor) 2 0 none =
        some [bareTransaction "0xa" 7 0 "0x1" none] := by
  decide

end OpsIndexer.Grpcserver
