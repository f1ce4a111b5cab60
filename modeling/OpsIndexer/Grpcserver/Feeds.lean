import OpsIndexer.Db.FeedQueries

/-!
# The list handlers and their cursors

`internal/grpcserver`: a handler asks for one row more than the page, and a row too many becomes a cursor at the
page's last row. A cursor is opaque to clients, so it stands here for the record its text encodes. The main feed and
the deposits resume below the block of that row, whatever else of the block is left.
-/

namespace OpsIndexer.Grpcserver

open Eth OpsIndexer.Types Db Lib.Keyset

/-! ## Handlers -/

structure PageConfig where
  defaultPageSize : Nat
  maxPageSize : Nat

def clampPageSize (config : PageConfig) (requested : Int) : Nat :=
  if requested ≤ 0 then config.defaultPageSize
  else if (config.maxPageSize : Int) < requested then config.maxPageSize
  else requested.toNat

structure TxFeedCursor where
  blockNumber : Nat
  transactionIndex : Nat
  deriving DecidableEq, Repr

structure BlockFeedCursor where
  blockNumber : Nat
  deriving DecidableEq, Repr

structure TransferFeedCursor where
  blockNumber : Nat
  logIndex : Nat
  deriving DecidableEq, Repr

def trimPage {α γ : Type} (cursorOf : α → γ) (rows : List α) (limit : Nat) : List α × Option γ :=
  if limit < rows.length then (rows.take limit, rows[limit - 1]?.map cursorOf) else (rows, none)

def buildTxListResponse (rows : List TransactionRow) (limit : Nat) : List TransactionRow × Option TxFeedCursor :=
  trimPage (fun last => ⟨last.blockNumber, last.txIndex⟩) rows limit

def listTransactions (config : PageConfig) (requested : Int) (hiddenTxTypes : List Int) (sorter : Sorter txKey)
    (store : Store) (cursor : Option TxFeedCursor) : List TransactionRow × Option TxFeedCursor :=
  let limit := clampPageSize config requested
  let beforeBlock := cursor.map (·.blockNumber)
  buildTxListResponse (getTransactionsWithCategories hiddenTxTypes sorter (limit + 1) beforeBlock store) limit

def listOPDeposits (config : PageConfig) (requested : Int) (filter : DepositFilter)
    (sorter : Sorter OPDeposit.l1BlockNumber) (deposits : List OPDeposit) (cursor : Option BlockFeedCursor) :
    List OPDeposit × Option BlockFeedCursor :=
  let limit := clampPageSize config requested
  let afterL1Block := (cursor.map (·.blockNumber)).getD 0
  trimPage (fun last => ⟨last.l1BlockNumber⟩)
    (Db.listOPDeposits filter sorter afterL1Block (limit + 1) deposits) limit

/-! ## Pages -/

/-- What the handler makes of an ordered query's first limit+1 rows, by the ordered rows themselves. -/
theorem trimPage_take {α γ : Type} (cursorOf : α → γ) (arranged : List α) (limit : Nat) :
    (arranged.length ≤ limit → trimPage cursorOf (arranged.take (limit + 1)) limit = (arranged, none)) ∧
      ∀ last, limit < arranged.length → arranged[limit - 1]? = some last →
        trimPage cursorOf (arranged.take (limit + 1)) limit = (arranged.take limit, some (cursorOf last)) := by
  unfold trimPage
  constructor
  · intro short
    have whole : arranged.take (limit + 1) = arranged := List.take_of_length_le (by omega)
    rw [whole, if_neg (by omega)]
  · intro last long atLast
    have more : limit < (arranged.take (limit + 1)).length := by
      rw [List.length_take]
      omega
    have same : (arranged.take (limit + 1))[limit - 1]? = some last := by
      rw [List.getElem?_take, if_pos (by omega), atLast]
    rw [if_pos more, List.take_take, same, Option.map_some]
    have fewer : min limit (limit + 1) = limit := by omega
    rw [fewer]

theorem listTransactions_serves (config : PageConfig) (requested : Int) (positive : 0 < clampPageSize config requested)
    (hiddenTxTypes : List Int) (sorters : Nat → Sorter txKey) (store : Store) :
    Serves (listedTransactions hiddenTxTypes store) txKey TransactionRow.blockNumber (clampPageSize config requested)
      (fun cursor : Option TxFeedCursor => cursor.map (·.blockNumber)) some
      (fun page cursor => listTransactions config requested hiddenTxTypes (sorters page) store cursor) where
  positive := positive
  coarser := by
    intro first second below
    exact (Prod.Lex.monotone_fst _ _ below)
  start := rfl
  resumes := fun _ => .inl rfl
  page := by
    intro page cursor
    refine ⟨_, (sorters page).arranged _, ?_⟩
    obtain ⟨short, long⟩ := trimPage_take (fun last : TransactionRow => (⟨last.blockNumber, last.txIndex⟩ : TxFeedCursor))
      ((sorters page).sort ((listedTransactions hiddenTxTypes store).filter
        (inside TransactionRow.blockNumber (cursor.map (·.blockNumber))))) (clampPageSize config requested)
    refine ⟨short, ?_⟩
    intro last more atLast
    exact ⟨_, long last more atLast, rfl⟩

theorem listOPDeposits_serves (config : PageConfig) (requested : Int) (positive : 0 < clampPageSize config requested)
    (filter : DepositFilter) (sorters : Nat → Sorter OPDeposit.l1BlockNumber) (deposits : List OPDeposit) :
    Serves (matchingDeposits filter deposits) OPDeposit.l1BlockNumber OPDeposit.l1BlockNumber
      (clampPageSize config requested)
      (fun cursor : Option BlockFeedCursor => cursor.bind fun cursor =>
        if cursor.blockNumber = 0 then none else some cursor.blockNumber)
      (fun block => if block = 0 then none else some block)
      (fun page cursor => listOPDeposits config requested filter (sorters page) deposits cursor) where
  positive := positive
  coarser := fun _ _ below => below
  start := rfl
  resumes := by
    intro block
    by_cases zero : block = 0
    · exact .inr ⟨if_pos zero, fun row _ => zero ▸ Nat.zero_le _⟩
    · exact .inl (if_neg zero)
  page := by
    intro page cursor
    have selected : (matchingDeposits filter deposits).filter (inside OPDeposit.l1BlockNumber
        (cursor.bind fun cursor => if cursor.blockNumber = 0 then none else some cursor.blockNumber)) =
        (matchingDeposits filter deposits).filter fun row =>
          (cursor.map (·.blockNumber)).getD 0 = 0 || row.l1BlockNumber < (cursor.map (·.blockNumber)).getD 0 := by
      apply List.filter_congr
      intro row _
      cases cursor with
      | none => simp [inside]
      | some cursor => by_cases zero : cursor.blockNumber = 0 <;> simp [inside, zero]
    rw [selected]
    refine ⟨_, (sorters page).arranged _, ?_⟩
    obtain ⟨short, long⟩ := trimPage_take (fun last : OPDeposit => (⟨last.l1BlockNumber⟩ : BlockFeedCursor))
      ((sorters page).sort ((matchingDeposits filter deposits).filter fun row =>
        (cursor.map (·.blockNumber)).getD 0 = 0 || row.l1BlockNumber < (cursor.map (·.blockNumber)).getD 0))
      (clampPageSize config requested)
    refine ⟨short, ?_⟩
    intro last more atLast
    exact ⟨_, long last more atLast, rfl⟩

/-- Both walks are complete exactly when no page ends inside a block. -/
theorem feeds_complete_iff (config : PageConfig) (requested : Int) (positive : 0 < clampPageSize config requested)
    (hiddenTxTypes : List Int) (txSorters : Nat → Sorter txKey) (store : Store) (filter : DepositFilter)
    (depositSorters : Nat → Sorter OPDeposit.l1BlockNumber) (deposits : List OPDeposit) :
    ((∃ fuel result,
        walk (fun page cursor => listTransactions config requested hiddenTxTypes (txSorters page) store cursor)
          fuel 0 none = some result ∧ Arranged txKey (listedTransactions hiddenTxTypes store) result) ↔
      Unsplit (clampPageSize config requested)
        (descending ((listedTransactions hiddenTxTypes store).map (·.blockNumber)))) ∧
    ((∃ fuel result,
        walk (fun page cursor => listOPDeposits config requested filter (depositSorters page) deposits cursor)
          fuel 0 none = some result ∧ Arranged OPDeposit.l1BlockNumber (matchingDeposits filter deposits) result) ↔
      Unsplit (clampPageSize config requested)
        (descending ((matchingDeposits filter deposits).map (·.l1BlockNumber)))) :=
  ⟨(listTransactions_serves config requested positive hiddenTxTypes txSorters store).complete_iff,
    (listOPDeposits_serves config requested positive filter depositSorters deposits).complete_iff⟩

def bareTransaction (hash : String) (blockNumber txIndex : Nat) (sender : String) (receiver : Option String) :
    TransactionRow where
  hash := hash
  blockNumber := blockNumber
  blockTimestamp := none
  txIndex := txIndex
  fromAddress := sender
  toAddress := receiver
  value := 0
  gasUsed := 21000
  gasPrice := 0
  gasLimit := none
  maxFeePerGas := none
  maxPriorityFeePerGas := none
  nonce := none
  txType := 2
  inputData := "0x"
  status := 1
  error := none
  categories := 0

/-- Blocks of two transactions and two deposits read two rows at a time. -/
theorem feeds_complete_iff_aligned :
    let store : Store := { transactions := [bareTransaction "0xa" 7 0 "0x1" none, bareTransaction "0xb" 7 1 "0x1" none,
      bareTransaction "0xc" 6 0 "0x1" none] }
    let deposits : List OPDeposit := [⟨"0xd", 4, none, "", ""⟩, ⟨"0xe", 4, none, "", ""⟩, ⟨"0xf", 3, none, "", ""⟩]
    (∃ fuel result,
      walk (fun _ cursor => listTransactions ⟨20, 100⟩ 2 [126] (stableSorter txKey) store cursor) fuel 0 none =
        some result ∧ Arranged txKey (listedTransactions [126] store) result) ∧
    ∃ fuel result,
      walk (fun _ cursor => listOPDeposits ⟨20, 100⟩ 2 {} (stableSorter _) deposits cursor) fuel 0 none =
        some result ∧ Arranged OPDeposit.l1BlockNumber (matchingDeposits {} deposits) result := by
  intro store deposits
  obtain ⟨transactions, others⟩ := feeds_complete_iff ⟨20, 100⟩ 2 (by decide) [126] (fun _ => stableSorter txKey) store {}
    (fun _ => stableSorter _) deposits
  constructor
  · apply transactions.mpr
    intro page some inside
    have first : page = 1 := by
      have length : (descending ((listedTransactions [126] store).map (·.blockNumber))).length = 3 := by decide
      have size : clampPageSize ⟨20, 100⟩ 2 = 2 := by decide
      rw [length, size] at inside
      omega
    rw [first]
    decide
  · apply others.mpr
    intro page some inside
    have first : page = 1 := by
      have length : (descending ((matchingDeposits {} deposits).map (·.l1BlockNumber))).length = 3 := by decide
      have size : clampPageSize ⟨20, 100⟩ 2 = 2 := by decide
      rw [length, size] at inside
      omega
    rw [first]
    decide

/-- A page that ends inside a block: the walks end without the rest of the block. -/
theorem split_block_lost :
    let store : Store := { transactions := [bareTransaction "0xa" 7 0 "0x1" none, bareTransaction "0xb" 7 1 "0x1" none] }
    let deposits : List OPDeposit := [⟨"0xd", 4, none, "", ""⟩, ⟨"0xe", 4, none, "", ""⟩]
    listedTransactions [126] store = store.transactions ∧ matchingDeposits {} deposits = deposits ∧
      walk (fun _ cursor => listTransactions ⟨20, 100⟩ 1 [126] (stableSorter txKey) store cursor) 2 0 none =
        some [bareTransaction "0xb" 7 1 "0x1" none] ∧
      walk (fun _ cursor => listOPDeposits ⟨20, 100⟩ 1 {} (stableSorter _) deposits cursor) 2 0 none =
        some [⟨"0xd", 4, none, "", ""⟩] := by
  decide

end OpsIndexer.Grpcserver
