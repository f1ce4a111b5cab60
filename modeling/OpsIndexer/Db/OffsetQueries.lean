import OpsIndexer.Db.Balances
import OpsIndexer.Db.FeedQueries
import OpsIndexer.Lib.OffsetPages

/-!
# The queries of the offset pages

`GetTokens`, `GetAllTokenTransfers`, `GetTokenHolders`, `GetTokenInventory` and `GetAccountsPaginated`: one page of the
selected rows, and a total. What the `LIKE` patterns of a search select and how a holder's share is rounded are
parameters.
-/

namespace OpsIndexer.Db

open Eth OpsIndexer.Types Lib.Keyset Lib.OffsetPages List

/-- The `token_type` a list is asked for; no row is of the last one. -/
inductive TokenTypeFilter where
  | any
  | erc20
  | erc721
  | erc1155
  deriving DecidableEq, Repr

def TokenTypeFilter.selects : TokenTypeFilter → TokenType → Bool
  | .any, _ => true
  | .erc20, type => type = .erc20
  | .erc721, type => type = .erc721
  | .erc1155, _ => false

structure ListedToken where
  row : TokenRow
  holderCount : Int
  deriving DecidableEq, Repr

/-- `ORDER BY holder_count DESC, address`. -/
def ListedToken.rank (token : ListedToken) : Int ×ₗ Stringᵒᵈ :=
  toLex (token.holderCount, OrderDual.toDual token.row.address)

def selectedTokens (types : TokenTypeFilter) (search : TokenRow → Bool) (tables : BalanceStore) : List ListedToken :=
  (tables.store.tokens.filter fun row => types.selects row.tokenType && search row).map fun row =>
    ⟨row, (tables.holderCounts.lookup row.address).getD 0⟩

def getTokens (sorter : Sorter ListedToken.rank) (limit offset : Nat) (types : TokenTypeFilter)
    (search : TokenRow → Bool) (tables : BalanceStore) : List ListedToken × Int :=
  let selected := selectedTokens types search tables
  (window limit offset (sorter.sort selected), selected.length)

def selectedTransfers (types : TokenTypeFilter) (store : Store) : List TransferRow :=
  store.tokenTransfers.filter fun row => types.selects row.tokenType

def getAllTokenTransfers (sorter : Sorter transferKey) (types : TokenTypeFilter) (limit offset : Nat) (store : Store) :
    List TransferRow × Int :=
  let selected := selectedTransfers types store
  let total : Int := match types with
    | .any => (store.chainCounters.lookup .transfersTotal).getD selected.length
    | _ => selected.length
  (window limit offset (sorter.sort selected), total)

structure TokenHolder where
  address : String
  balance : Int
  percentage : Int
  isContract : Bool
  deriving DecidableEq, Repr

def selectedHolders (share : Int → Int → Int) (tokenAddress : String) (tables : BalanceStore) : List TokenHolder :=
  let rows := tables.tokenBalancesCurrent.entries.filter fun entry =>
    entry.1.token = lower tokenAddress && 0 < entry.2.balance
  let supply := (rows.map fun entry => entry.2.balance).sum
  rows.map fun entry =>
    { address := entry.1.address
      balance := entry.2.balance
      percentage := share entry.2.balance supply
      isContract := tables.store.contracts.any fun contract => contract.address = lower entry.1.address }

def getTokenHolders (share : Int → Int → Int) (sorter : Sorter TokenHolder.balance) (tokenAddress : String)
    (limit offset : Nat) (tables : BalanceStore) : List TokenHolder × Int :=
  let total := if tables.store.tokens.any fun row => row.address = lower tokenAddress
    then (tables.holderCounts.lookup (lower tokenAddress)).getD 0 else 0
  (window limit offset (sorter.sort (selectedHolders share tokenAddress tables)), total)

def NFTTokenRow.rank (row : NFTTokenRow) : Natᵒᵈ :=
  OrderDual.toDual row.tokenId

/-- The ids of a collection that are not burned; `tokenID` is the one id asked for, if any. -/
def selectedInventory (tokenAddress : String) (tokenID : Option Nat) (store : Store) : List NFTTokenRow :=
  store.nftTokens.filter fun row =>
    lower row.tokenAddress = lower tokenAddress && row.owner ≠ zeroAddress && tokenID.all fun id => row.tokenId = id

def getTokenInventory (sorter : Sorter NFTTokenRow.rank) (tokenAddress : String) (tokenID : Option Nat)
    (limit offset : Nat) (store : Store) : List NFTTokenRow × Int :=
  let selected := selectedInventory tokenAddress tokenID store
  (window limit offset (sorter.sort selected), selected.length)

def AddressStatsRow.rank (row : AddressStatsRow) : Int ×ₗ Stringᵒᵈ :=
  toLex (row.txCount, OrderDual.toDual row.address)

def getAccountsPaginated (sorter : Sorter AddressStatsRow.rank) (page pageSize : Nat) (store : Store) :
    List AddressStatsRow × Int :=
  let offset := (page - 1) * pageSize
  (window pageSize offset (sorter.sort store.addressStats), store.addressStats.length)

/-! ## The tables' keys -/

structure UniqueKeys (store : Store) : Prop where
  tokens : (store.tokens.map (·.address)).Nodup
  transfers : (store.tokenTransfers.map transferKey).Nodup
  nftTokens : (store.nftTokens.map fun row => (row.tokenAddress, row.tokenId)).Nodup
  addressStats : (store.addressStats.map (·.address)).Nodup

variable {tables : BalanceStore} {store : Store}

theorem UniqueKeys.selectedTokens (keyed : UniqueKeys tables.store) (types : TokenTypeFilter)
    (search : TokenRow → Bool) : ((selectedTokens types search tables).map ListedToken.rank).Nodup := by
  refine List.Nodup.of_map (fun rank => OrderDual.ofDual (ofLex rank).2) ?_
  rw [Db.selectedTokens, map_map, map_map]
  exact keyed.tokens.sublist (filter_sublist.map _)

theorem UniqueKeys.selectedTransfers (keyed : UniqueKeys store) (types : TokenTypeFilter) :
    ((selectedTransfers types store).map transferKey).Nodup :=
  keyed.transfers.sublist (filter_sublist.map _)

theorem UniqueKeys.accounts (keyed : UniqueKeys store) : (store.addressStats.map AddressStatsRow.rank).Nodup := by
  refine List.Nodup.of_map (fun rank => OrderDual.ofDual (ofLex rank).2) ?_
  rw [map_map]
  exact keyed.addressStats

theorem UniqueKeys.selectedInventory (keyed : UniqueKeys store) (tokenAddress : String) (tokenID : Option Nat) :
    (selectedInventory tokenAddress tokenID store).Nodup :=
  (List.Nodup.of_map _ keyed.nftTokens).filter _

theorem selectedHolders_nodup (share : Int → Int → Int) (tokenAddress : String) (tables : BalanceStore) :
    (selectedHolders share tokenAddress tables).Nodup := by
  have keyed : (tables.tokenBalancesCurrent.entries.map Sigma.fst).Nodup := tables.tokenBalancesCurrent.nodupKeys
  refine List.Nodup.of_map TokenHolder.address ?_
  rw [selectedHolders, map_map]
  refine List.Nodup.map_on ?_ ((List.Nodup.of_map _ keyed).filter _)
  intro first firstMember second secondMember address
  simp only [mem_filter, Bool.and_eq_true, decide_eq_true_eq] at firstMember secondMember
  -- Both rows are of one token, so one address would be one key.
  have token : first.1.token = second.1.token := firstMember.2.1.trans secondMember.2.1.symm
  exact inj_on_of_nodup_map keyed firstMember.1 secondMember.1 (congrArg₂ BalanceKey.mk token address)

end OpsIndexer.Db
