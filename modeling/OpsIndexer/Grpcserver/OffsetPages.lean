import OpsIndexer.Db.OffsetQueries
import OpsIndexer.Grpcserver.Feeds

/-!
# The handlers that page by number

`ListTokens`, `ListAllTokenTransfers`, `ListTokenHolders`, `ListTokenInventory` and `ListAddresses` skip the rows of the
pages before theirs. Each page is a query of its own, and what a query's order leaves open is open again in the next.
-/

namespace OpsIndexer.Grpcserver

open Eth Db Lib.Keyset Lib.OffsetPages List

structure OffsetPage (α : Type) where
  rows : List α
  page : Nat
  pageSize : Nat
  totalItems : Int
  deriving DecidableEq, Repr

def pageNumber (page : Int) : Nat :=
  if page < 1 then 1 else page.toNat

variable {α : Type}

def offsetPage (config : PageConfig) (page requested : Int) (query : Nat → Nat → List α × Int) : OffsetPage α :=
  let page := pageNumber page
  let pageSize := clampPageSize config requested
  let (rows, total) := query page pageSize
  ⟨rows, page, pageSize, total⟩

def listTokens (config : PageConfig) (page requested : Int) (types : TokenTypeFilter) (search : TokenRow → Bool)
    (sorter : Sorter ListedToken.rank) (tables : BalanceStore) : OffsetPage ListedToken :=
  offsetPage config page requested fun page pageSize =>
    getTokens sorter pageSize ((page - 1) * pageSize) types search tables

def listAllTokenTransfers (config : PageConfig) (page requested : Int) (types : TokenTypeFilter)
    (sorter : Sorter transferKey) (store : Store) : OffsetPage TransferRow :=
  offsetPage config page requested fun page pageSize =>
    getAllTokenTransfers sorter types pageSize ((page - 1) * pageSize) store

def listTokenHolders (config : PageConfig) (page requested : Int) (share : Int → Int → Int) (tokenAddress : String)
    (sorter : Sorter TokenHolder.balance) (tables : BalanceStore) : Except String (OffsetPage TokenHolder) :=
  if tokenAddress = "" then .error "token_address is required"
  else .ok (offsetPage config page requested fun page pageSize =>
    getTokenHolders share sorter (lower tokenAddress) pageSize ((page - 1) * pageSize) tables)

def listTokenInventory (config : PageConfig) (page requested : Int) (tokenAddress : String) (tokenID : Option Nat)
    (sorter : Sorter NFTTokenRow.rank) (store : Store) : Except String (OffsetPage NFTTokenRow) :=
  if tokenAddress = "" then .error "token_address is required"
  else .ok (offsetPage config page requested fun page pageSize =>
    getTokenInventory sorter (lower tokenAddress) tokenID pageSize ((page - 1) * pageSize) store)

def listAddresses (config : PageConfig) (page requested : Int) (sorter : Sorter AddressStatsRow.rank) (store : Store) :
    OffsetPage AddressStatsRow :=
  offsetPage config page requested fun page pageSize => getAccountsPaginated sorter page pageSize store

/-! ## Reading page after page -/

def replyRows : Except String (OffsetPage α) → List α
  | .ok reply => reply.rows
  | .error _ => []

theorem offsetPage_rows (config : PageConfig) (requested : Int) (query : Nat → Nat → List α × Int) (page : Nat) :
    (offsetPage config ((page + 1 : Nat) : Int) requested query).rows =
      (query (page + 1) (clampPageSize config requested)).1 := by
  have number : pageNumber ((page + 1 : Nat) : Int) = page + 1 := by
    unfold pageNumber
    rw [if_neg (by omega), Int.toNat_natCast]
  rw [offsetPage, number]

section

variable {config : PageConfig} {requested : Int} {tokenAddress : String} (named : tokenAddress ≠ "") (page : Nat)

include named

theorem listTokenHolders_rows (share : Int → Int → Int) (sorter : Sorter TokenHolder.balance) (tables : BalanceStore) :
    replyRows (listTokenHolders config ((page + 1 : Nat) : Int) requested share tokenAddress sorter tables) =
      window (clampPageSize config requested) (page * clampPageSize config requested)
        (sorter.sort (selectedHolders share tokenAddress tables)) := by
  have lowered : selectedHolders share (lower tokenAddress) tables = selectedHolders share tokenAddress tables := by
    simp only [selectedHolders, lower_lower]
  rw [listTokenHolders, if_neg named, replyRows, offsetPage_rows, getTokenHolders, lowered, Nat.add_sub_cancel]

theorem listTokenInventory_rows (tokenID : Option Nat) (sorter : Sorter NFTTokenRow.rank) (store : Store) :
    replyRows (listTokenInventory config ((page + 1 : Nat) : Int) requested tokenAddress tokenID sorter store) =
      window (clampPageSize config requested) (page * clampPageSize config requested)
        (sorter.sort (selectedInventory tokenAddress tokenID store)) := by
  have lowered : selectedInventory (lower tokenAddress) tokenID store = selectedInventory tokenAddress tokenID store := by
    simp only [selectedInventory, lower_lower]
  rw [listTokenInventory, if_neg named, replyRows, offsetPage_rows, getTokenInventory, lowered, Nat.add_sub_cancel]

end

/-- Three of the lists come in an order without ties. Holders are ordered by balance alone and a collection's ids by
id alone, so these two list every row once exactly when no page ends between two equal rows. -/
theorem offsetPages_listOnce_iff (config : PageConfig) (requested : Int) (tables : BalanceStore)
    (positive : 0 < clampPageSize config requested) (keyed : UniqueKeys tables.store) :
    (∀ (types : TokenTypeFilter) (search : TokenRow → Bool) (sorters : Nat → Sorter ListedToken.rank),
      ListsOnce (fun page => (listTokens config page requested types search (sorters page) tables).rows)
        (selectedTokens types search tables)) ∧
    (∀ (types : TokenTypeFilter) (sorters : Nat → Sorter transferKey),
      ListsOnce (fun page => (listAllTokenTransfers config page requested types (sorters page) tables.store).rows)
        (selectedTransfers types tables.store)) ∧
    (∀ sorters : Nat → Sorter AddressStatsRow.rank,
      ListsOnce (fun page => (listAddresses config page requested (sorters page) tables.store).rows)
        tables.store.addressStats) ∧
    ∀ tokenAddress ≠ "",
      (∀ share : Int → Int → Int, (∀ sorters : Nat → Sorter TokenHolder.balance,
        ListsOnce (fun page => replyRows
            (listTokenHolders config page requested share tokenAddress (sorters page) tables))
          (selectedHolders share tokenAddress tables)) ↔
        Unsplit (clampPageSize config requested)
          (descending ((selectedHolders share tokenAddress tables).map TokenHolder.balance))) ∧
      ∀ tokenID : Option Nat, (∀ sorters : Nat → Sorter NFTTokenRow.rank,
        ListsOnce (fun page => replyRows
            (listTokenInventory config page requested tokenAddress tokenID (sorters page) tables.store))
          (selectedInventory tokenAddress tokenID tables.store)) ↔
        Unsplit (clampPageSize config requested)
          (descending ((selectedInventory tokenAddress tokenID tables.store).map NFTTokenRow.rank)) := by
  refine ⟨?_, ?_, ?_, ?_⟩
  · intro types search sorters
    refine listsOnce_of_distinct positive (keyed.selectedTokens types search) fun page => ?_
    refine ⟨_, (sorters (page + 1)).arranged _, ?_⟩
    rw [listTokens, offsetPage_rows, getTokens, Nat.add_sub_cancel]
  · intro types sorters
    refine listsOnce_of_distinct positive (keyed.selectedTransfers types) fun page => ?_
    refine ⟨_, (sorters (page + 1)).arranged _, ?_⟩
    rw [listAllTokenTransfers, offsetPage_rows]
    show window _ ((page + 1 - 1) * _) _ = _
    rw [Nat.add_sub_cancel]
  · intro sorters
    refine listsOnce_of_distinct positive keyed.accounts fun page => ?_
    refine ⟨_, (sorters (page + 1)).arranged _, ?_⟩
    rw [listAddresses, offsetPage_rows, getAccountsPaginated, Nat.add_sub_cancel]
  · intro tokenAddress named
    constructor
    · intro share
      refine listsOnce_iff positive (selectedHolders_nodup share tokenAddress tables) (fun sorter page =>
        replyRows (listTokenHolders config page requested share tokenAddress sorter tables)) ?_
      intro sorter page
      exact listTokenHolders_rows named page share sorter tables
    · intro tokenID
      refine listsOnce_iff positive (keyed.selectedInventory tokenAddress tokenID) (fun sorter page =>
        replyRows (listTokenInventory config page requested tokenAddress tokenID sorter tables.store)) ?_
      intro sorter page
      exact listTokenInventory_rows named page tokenID sorter tables.store

/-! ## Equal balances -/

def holding (balances : List (String × Int)) : BalanceStore where
  tokenBalancesCurrent := balances.foldr (fun entry table => table.insert ⟨"0xt", entry.1⟩ ⟨entry.2, 1⟩) ∅

def reversedSorter {κ : Type} [LinearOrder κ] (key : α → κ) : Sorter key where
  sort := fun rows => (stableSorter key).sort rows.reverse
  arranged := fun rows =>
    have reversed := (stableSorter key).arranged rows.reverse
    ⟨reversed.perm.trans rows.reverse_perm, reversed.sorted⟩

theorem offsetPages_listOnce_iff_distinct :
    UniqueKeys (holding [("0xa", 5), ("0xb", 3)]).store ∧ ∀ sorters : Nat → Sorter TokenHolder.balance,
      ListsOnce (fun page => replyRows
          (listTokenHolders ⟨20, 100⟩ page 1 (fun _ _ => 0) "0xT" (sorters page) (holding [("0xa", 5), ("0xb", 3)])))
        (selectedHolders (fun _ _ => 0) "0xT" (holding [("0xa", 5), ("0xb", 3)])) := by
  have keyed : UniqueKeys (holding [("0xa", 5), ("0xb", 3)]).store :=
    ⟨nodup_nil, nodup_nil, nodup_nil, nodup_nil⟩
  refine ⟨keyed, ?_⟩
  have lists := (offsetPages_listOnce_iff ⟨20, 100⟩ 1 _ (by decide) keyed).2.2.2 "0xT" (by decide)
  exact (lists.1 fun _ _ => 0).mpr (unsplit_of_nodup (by decide) (by decide +kernel))

/-- Two holders of one balance: the second page, ordered the other way round, repeats the first. -/
theorem equal_holder_listed_twice :
    let tables := holding [("0xa", 5), ("0xb", 5)]
    let holder : String → TokenHolder := fun address => ⟨address, 5, 50, false⟩
    let sorters : Nat → Sorter TokenHolder.balance := fun page =>
      if page = 2 then reversedSorter _ else stableSorter _
    UniqueKeys tables.store ∧
      selectedHolders (fun _ _ => 50) "0xt" tables = [holder "0xa", holder "0xb"] ∧
      readPages (fun page => replyRows
          (listTokenHolders ⟨20, 100⟩ page 1 (fun _ _ => 50) "0xt" (sorters page) tables)) 3 1 =
        some [holder "0xa", holder "0xa"] := by
  refine ⟨⟨nodup_nil, nodup_nil, nodup_nil, nodup_nil⟩, ?_, ?_⟩
  · decide +kernel
  · decide +kernel

end OpsIndexer.Grpcserver
