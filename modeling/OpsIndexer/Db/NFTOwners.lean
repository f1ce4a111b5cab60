import OpsIndexer.Db.CompleteBlock
import OpsIndexer.Lib.Fold

/-!
# NFT owners and the stored transfers

The writer of `nft_tokens` keeps a running maximum by block number, the revert recomputes the maximum from the rows
that stay. Both keep one relation: a token's row names the recipient and the block of its last stored move, and a
token without moves has no row.
-/

namespace OpsIndexer.Db

open Eth OpsIndexer.Types Lib.Table Lib.Fold List

def movesOf (transfers : List TransferRow) (collection : String) (tokenId : Nat) : List TransferRow :=
  transfers.filter fun transfer =>
    transfer.tokenAddress = collection && transfer.tokenId = some tokenId && transfer.tokenType = .erc721

def TransferRow.position (row : TransferRow) : Nat ×ₗ Nat :=
  toLex (row.blockNumber, row.logIndex)

structure IsLast (moves : List TransferRow) (last : TransferRow) : Prop where
  listed : last ∈ moves
  above : ∀ move ∈ moves, move.position ≤ last.position

theorem position_le_iff (first second : TransferRow) :
    first.position ≤ second.position ↔ first.blockNumber < second.blockNumber ∨
      first.blockNumber = second.blockNumber ∧ first.logIndex ≤ second.logIndex :=
  Prod.Lex.toLex_le_toLex

theorem latestTransfer_eq (rows : List TransferRow) :
    latestTransfer rows = runningBest (fun best row : TransferRow => best.blockNumber < row.blockNumber ∨
      best.blockNumber = row.blockNumber ∧ best.logIndex < row.logIndex) rows := by
  unfold latestTransfer runningBest
  congr
  funext best row
  cases best <;> rfl

theorem earliestTransfer_eq (rows : List TransferRow) :
    earliestTransfer rows = runningBest (fun best row : TransferRow => row.logIndex < best.logIndex) rows := by
  unfold earliestTransfer runningBest
  congr
  funext best row
  cases best <;> rfl

variable {rows : List TransferRow} {nft : NFTToken} {table : List NFTTokenRow} {row : NFTTokenRow}

theorem latestTransfer_isLast {last : TransferRow} (found : latestTransfer rows = some last) : IsLast rows last := by
  rw [latestTransfer_eq] at found
  obtain ⟨listed, above⟩ := runningBest_eq_some TransferRow.position (fun _ _ => Prod.Lex.toLex_lt_toLex.symm) found
  exact ⟨listed, above⟩

theorem earliestTransfer_first {first : TransferRow} (found : earliestTransfer rows = some first) :
    first ∈ rows ∧ ∀ row ∈ rows, first.logIndex ≤ row.logIndex := by
  rw [earliestTransfer_eq] at found
  exact runningBest_eq_some (fun row : TransferRow => OrderDual.toDual row.logIndex) (fun _ _ => Iff.rfl) found

/-! ## One id -/

def Follows (moves : List TransferRow) : Option NFTTokenRow → Prop
  | none => moves = []
  | some row => ∃ last, IsLast moves last ∧ lower row.owner = last.toAddress ∧ row.blockNumber = last.blockNumber

def upserted (nft : NFTToken) : Option NFTTokenRow → NFTTokenRow
  | none => nftTokenRow nft
  | some row => mergeNFTToken (nftTokenRow nft) row

theorem Follows.move {moves : List TransferRow} {row : Option NFTTokenRow} (follows : Follows moves row)
    {transfer : TokenTransfer} (owner : nft.owner = transfer.toAddress)
    (block : nft.blockNumber = transfer.blockNumber)
    (later : ∀ move ∈ moves, move.blockNumber = transfer.blockNumber → move.logIndex ≤ transfer.logIndex) :
    Follows (moves ++ [transferRow transfer]) (some (upserted nft row)) := by
  cases row with
  | none =>
    rw [show moves = [] from follows, nil_append]
    refine ⟨transferRow transfer, ⟨mem_singleton_self _, ?_⟩, congrArg lower owner, congrArg Nat.cast block⟩
    intro move member
    rw [mem_singleton.mp member]
  | some row =>
    obtain ⟨last, isLast, owned, dated⟩ := follows
    by_cases replaced : last.blockNumber ≤ transfer.blockNumber
    · have newer : row.blockNumber ≤ (nftTokenRow nft).blockNumber := by
        simp only [nftTokenRow, dated, block]
        exact_mod_cast replaced
      refine ⟨transferRow transfer, ⟨by simp, ?_⟩, ?_, ?_⟩
      · intro move member
        rcases mem_append.mp member with old | new
        · have behind := (position_le_iff _ _).mp (isLast.above move old)
          have sameBlock := later move old
          rw [position_le_iff]
          simp only [transferRow]
          omega
        · rw [mem_singleton.mp new]
      · simp only [upserted, mergeNFTToken, if_pos newer]
        exact congrArg lower owner
      · simp only [upserted, mergeNFTToken, max_eq_right newer]
        exact congrArg Nat.cast block
    · have older : ¬row.blockNumber ≤ (nftTokenRow nft).blockNumber := by
        simp only [nftTokenRow, dated, block]
        exact_mod_cast replaced
      refine ⟨last, ⟨mem_append_left _ isLast.listed, ?_⟩, ?_, ?_⟩
      · intro move member
        rcases mem_append.mp member with old | new
        · exact isLast.above move old
        · rw [mem_singleton.mp new, position_le_iff]
          simp only [transferRow]
          omega
      · simp only [upserted, mergeNFTToken, if_neg older]
        exact owned
      · simp only [upserted, mergeNFTToken, max_eq_left (not_le.mp older).le]
        exact dated

/-! ## The table -/

def nftRow (table : List NFTTokenRow) (key : String × Nat) : Option NFTTokenRow :=
  table.find? fun row => nftKey row = key

theorem nftRow_eq_some (distinct : (table.map nftKey).Nodup) (member : row ∈ table) :
    nftRow table (nftKey row) = some row := by
  cases found : nftRow table (nftKey row) with
  | none =>
    have absent := List.find?_eq_none.mp found row member
    simp at absent
  | some other =>
    have same : nftKey other = nftKey row := by
      simpa using List.find?_some found
    rw [inj_on_of_nodup_map distinct (mem_of_find?_eq_some found) member same]

theorem mergeNFTToken_key (nft row : NFTTokenRow) : nftKey (mergeNFTToken nft row) = nftKey row :=
  rfl

theorem nftRow_upsertNFTToken (table : List NFTTokenRow) (nft : NFTToken) (key : String × Nat) :
    nftRow (upsertNFTToken table nft) key =
      if key = nftKey (nftTokenRow nft) then some (upserted nft (nftRow table key)) else nftRow table key := by
  unfold upsertNFTToken nftRow
  dsimp only
  by_cases held : table.any (fun row => nftKey row = nftKey (nftTokenRow nft)) = true
  · rw [if_pos held, find?_updateKey _ _ (mergeNFTToken_key _)]
    by_cases own : key = nftKey (nftTokenRow nft)
    · subst own
      obtain ⟨row, member, same⟩ := any_eq_true.mp held
      cases found : table.find? (fun row => nftKey row = nftKey (nftTokenRow nft)) with
      | none => exact absurd same (List.find?_eq_none.mp found row member)
      | some row => simp only [if_true, Option.map_some, upserted]
    · simp only [if_neg own]
  · rw [if_neg held, List.find?_append]
    by_cases own : key = nftKey (nftTokenRow nft)
    · subst own
      have none : table.find? (fun row => nftKey row = nftKey (nftTokenRow nft)) = none := by
        rw [List.find?_eq_none]
        intro row member same
        exact held (any_eq_true.mpr ⟨row, member, same⟩)
      simp [none, upserted]
    · have other : nftKey (nftTokenRow nft) ≠ key := Ne.symm own
      simp [own, other]

theorem upsertNFTToken_keys (table : List NFTTokenRow) (nft : NFTToken) (distinct : (table.map nftKey).Nodup) :
    ((upsertNFTToken table nft).map nftKey).Nodup := by
  unfold upsertNFTToken
  dsimp only
  by_cases held : table.any (fun row => nftKey row = nftKey (nftTokenRow nft)) = true
  · rw [if_pos held, keys_updateKey _ _ (mergeNFTToken_key _)]
    exact distinct
  · rw [if_neg held, map_append, nodup_append]
    refine ⟨distinct, nodup_singleton _, ?_⟩
    intro key listed other single same
    obtain ⟨row, member, rfl⟩ := mem_map.mp listed
    rw [map_singleton, mem_singleton] at single
    exact held (any_eq_true.mpr ⟨row, member, decide_eq_true (same.trans single)⟩)

theorem mem_upsertNFTToken (member : row ∈ upsertNFTToken table nft) :
    row.tokenAddress = nft.tokenAddress ∨ ∃ old ∈ table, row.tokenAddress = old.tokenAddress := by
  unfold upsertNFTToken at member
  dsimp only at member
  split at member
  · obtain ⟨old, listed, rfl⟩ := mem_map.mp member
    refine .inr ⟨old, listed, ?_⟩
    split <;> rfl
  · rcases mem_append.mp member with old | new
    · exact .inr ⟨row, old, rfl⟩
    · exact .inl (by rw [mem_singleton.mp new]; rfl)

section

variable (keccak256 : Bytes → Hash)

/-- The table mirrors the transfers. Its collections are texts of addresses, so one collection has one text. -/
structure Mirrors (transfers : List TransferRow) (table : List NFTTokenRow) : Prop where
  distinct : (table.map nftKey).Nodup
  collections : ∀ row ∈ table, ∃ collection : Address, row.tokenAddress = Address.hex keccak256 collection
  follows : ∀ (collection : Address) (tokenId : Nat), Follows (movesOf transfers (Address.key collection) tokenId)
    (nftRow table (Address.hex keccak256 collection, tokenId))

structure Moves (transfer : TokenTransfer) (nft : NFTToken) : Prop where
  collection : ∃ collection : Address, nft.tokenAddress = Address.hex keccak256 collection
  recipient : ∃ recipient : Address, transfer.toAddress = Address.hex keccak256 recipient
  kind : transfer.tokenType = .erc721
  tokenAddress : transfer.tokenAddress = nft.tokenAddress
  tokenId : transfer.tokenId = some nft.tokenId
  owner : nft.owner = transfer.toAddress
  blockNumber : nft.blockNumber = transfer.blockNumber

variable {keccak256}

variable {transfers : List TransferRow} {table : List NFTTokenRow} {transfer : TokenTransfer} {block : Block}
  {data : BlockData} {store next : Store} {partitionOf : Nat → Nat}

theorem Mirrors.upsert (mirrors : Mirrors keccak256 transfers table) {nft : NFTToken}
    (moves : Moves keccak256 transfer nft)
    (later : ∀ row ∈ transfers, row.blockNumber = transfer.blockNumber → row.logIndex ≤ transfer.logIndex) :
    Mirrors keccak256 (transfers ++ [transferRow transfer]) (upsertNFTToken table nft) := by
  obtain ⟨own, named⟩ := moves.collection
  have stored : (transferRow transfer).tokenAddress = Address.key own := by
    simp only [transferRow, moves.tokenAddress, named, lower_addressHex]
  refine ⟨upsertNFTToken_keys table nft mirrors.distinct, ?_, ?_⟩
  · intro row member
    rcases mem_upsertNFTToken member with new | ⟨old, listed, same⟩
    · exact ⟨own, new.trans named⟩
    · obtain ⟨collection, text⟩ := mirrors.collections old listed
      exact ⟨collection, same.trans text⟩
  · intro collection tokenId
    have before := mirrors.follows collection tokenId
    rw [nftRow_upsertNFTToken]
    by_cases same : collection = own ∧ tokenId = nft.tokenId
    · obtain ⟨rfl, rfl⟩ := same
      have key : (Address.hex keccak256 collection, nft.tokenId) = nftKey (nftTokenRow nft) :=
        Prod.ext named.symm rfl
      have listed : movesOf (transfers ++ [transferRow transfer]) (Address.key collection) nft.tokenId =
          movesOf transfers (Address.key collection) nft.tokenId ++ [transferRow transfer] := by
        have chosen : (transferRow transfer).tokenId = some nft.tokenId := moves.tokenId
        have kind : (transferRow transfer).tokenType = .erc721 := moves.kind
        simp [movesOf, stored, chosen, kind]
      rw [if_pos key, listed]
      refine before.move moves.owner moves.blockNumber ?_
      intro move member
      exact later move (mem_of_mem_filter member)
    · have key : (Address.hex keccak256 collection, tokenId) ≠ nftKey (nftTokenRow nft) := by
        intro equal
        have text : Address.hex keccak256 collection = nft.tokenAddress := congrArg Prod.fst equal
        exact same ⟨(Address.hex_inj keccak256 _ _).mp (text.trans named), congrArg Prod.snd equal⟩
      have listed : movesOf (transfers ++ [transferRow transfer]) (Address.key collection) tokenId =
          movesOf transfers (Address.key collection) tokenId := by
        unfold movesOf
        rw [filter_append, filter_cons_of_neg, filter_nil, append_nil]
        intro chosen
        simp only [Bool.and_eq_true, decide_eq_true_eq, stored] at chosen
        have id : some nft.tokenId = some tokenId := moves.tokenId.symm.trans chosen.1.2
        exact same ⟨(Address.key_injective _ _ chosen.1.1).symm, (Option.some.inj id).symm⟩
      rw [if_neg key, listed]
      exact before

theorem Mirrors.upserts {listed : List TokenTransfer} {nfts : List NFTToken}
    (pairs : List.Forall₂ (Moves keccak256) listed nfts)
    (ordered : listed.Pairwise fun first second => first.logIndex ≤ second.logIndex)
    (mirrors : Mirrors keccak256 transfers table) (later : ∀ row ∈ transfers, ∀ transfer ∈ listed,
      row.blockNumber = transfer.blockNumber → row.logIndex ≤ transfer.logIndex) :
    Mirrors keccak256 (transfers ++ listed.map transferRow) (nfts.foldl upsertNFTToken table) := by
  induction pairs generalizing transfers table with
  | nil => simpa using mirrors
  | @cons transfer nft listed nfts moves pairs ih =>
    rw [pairwise_cons] at ordered
    have first := mirrors.upsert moves fun row member => later row member transfer mem_cons_self
    have split : transfers ++ (transfer :: listed).map transferRow =
        (transfers ++ [transferRow transfer]) ++ listed.map transferRow := by
      simp
    rw [split]
    refine ih ordered.2 first ?_
    intro row member other listedOther
    rcases mem_append.mp member with old | new
    · exact later row old other (mem_cons_of_mem _ listedOther)
    · rw [mem_singleton.mp new]
      exact fun _ => ordered.1 other listedOther

def Minted (transfers : List TransferRow) : Prop :=
  ∀ (collection : Address) (tokenId : Nat), ∀ first ∈ movesOf transfers (Address.key collection) tokenId,
    (∀ move ∈ movesOf transfers (Address.key collection) tokenId, first.position ≤ move.position) →
      first.fromAddress = zeroAddress

theorem revertNFTToken_key {number : Nat} (row kept : NFTTokenRow)
    (done : revertNFTToken keccak256 transfers number row = some kept) : nftKey kept = nftKey row := by
  unfold revertNFTToken at done
  dsimp only at done
  repeat' split at done
  all_goals cases done
  all_goals rfl

/-- Both branches of the revert agree with the moves that stay: another block's last move, or, with none, the mint. -/
theorem Follows.revert {collection : Address} {row : NFTTokenRow}
    (named : row.tokenAddress = Address.hex keccak256 collection)
    (follows : Follows (movesOf transfers (Address.key collection) row.tokenId) (some row))
    (recipients : ∀ transfer ∈ transfers, transfer.tokenType = .erc721 →
      ∃ recipient : Address, transfer.toAddress = Address.key recipient) (minted : Minted transfers) (number : Nat) :
    Follows ((movesOf transfers (Address.key collection) row.tokenId).filter fun move => move.blockNumber ≠ number)
      (revertNFTToken keccak256 transfers number row) := by
  obtain ⟨last, isLast, owned, dated⟩ := follows
  have moves : (transfers.filter fun transfer => transfer.tokenAddress = lower row.tokenAddress &&
      transfer.tokenId = some row.tokenId && transfer.tokenType = .erc721) =
      movesOf transfers (Address.key collection) row.tokenId := by
    rw [named, lower_addressHex]
    rfl
  unfold revertNFTToken
  rw [moves]
  by_cases reached : (number : Int) ≤ row.blockNumber
  · simp only [if_pos reached]
    cases latest : latestTransfer
        ((movesOf transfers (Address.key collection) row.tokenId).filter fun move => move.blockNumber ≠ number) with
    | some other =>
      have otherLast := latestTransfer_isLast latest
      obtain ⟨listed, chosen⟩ := mem_filter.mp (mem_of_mem_filter otherLast.listed)
      simp only [Bool.and_eq_true, decide_eq_true_eq] at chosen
      obtain ⟨recipient, text⟩ := recipients other listed chosen.2
      refine ⟨other, otherLast, ?_, rfl⟩
      rw [lower_addressHex, text, hexToAddress_key]
    | none =>
      rw [latestTransfer_eq] at latest
      have gone := runningBest_eq_none latest
      have all : ∀ move ∈ movesOf transfers (Address.key collection) row.tokenId, move.blockNumber = number := by
        intro move member
        have dropped := filter_eq_nil_iff.mp gone move member
        simpa using dropped
      have whole : ((movesOf transfers (Address.key collection) row.tokenId).filter fun move =>
          move.blockNumber = number) = movesOf transfers (Address.key collection) row.tokenId :=
        filter_eq_self.mpr fun move member => decide_eq_true (all move member)
      cases earliest : earliestTransfer
          ((movesOf transfers (Address.key collection) row.tokenId).filter fun move => move.blockNumber = number) with
      | none =>
        rw [earliestTransfer_eq] at earliest
        have empty := runningBest_eq_none earliest
        have kept := isLast.listed
        rw [← whole, empty] at kept
        cases kept
      | some first =>
        rw [whole] at earliest
        obtain ⟨listed, least⟩ := earliestTransfer_first earliest
        have mint : first.fromAddress = zeroAddress := by
          refine minted collection row.tokenId first listed ?_
          intro move member
          rw [position_le_iff]
          exact .inr ⟨(all first listed).trans (all move member).symm, least move member⟩
        simp only [if_pos mint]
        exact gone
  · simp only [if_neg reached]
    have below : ∀ move ∈ movesOf transfers (Address.key collection) row.tokenId, move.blockNumber ≠ number := by
      intro move member
      have behind := (position_le_iff _ _).mp (isLast.above move member)
      omega
    rw [filter_eq_self.mpr fun move member => decide_eq_true (below move member)]
    exact ⟨last, isLast, owned, dated⟩

theorem Mirrors.revert (mirrors : Mirrors keccak256 transfers table)
    (recipients : ∀ transfer ∈ transfers, transfer.tokenType = .erc721 →
      ∃ recipient : Address, transfer.toAddress = Address.key recipient) (minted : Minted transfers) (number : Nat) :
    Mirrors keccak256 (transfers.filter fun row => row.blockNumber ≠ number)
      (table.filterMap (revertNFTToken keccak256 transfers number)) := by
  refine ⟨keys_filterMap_nodup _ revertNFTToken_key table mirrors.distinct, ?_, ?_⟩
  · intro row member
    obtain ⟨old, listed, kept⟩ := mem_filterMap.mp member
    obtain ⟨collection, text⟩ := mirrors.collections old listed
    exact ⟨collection, (congrArg Prod.fst (revertNFTToken_key old row kept)).trans text⟩
  · intro collection tokenId
    have before := mirrors.follows collection tokenId
    have moves : movesOf (transfers.filter fun row => row.blockNumber ≠ number) (Address.key collection) tokenId =
        (movesOf transfers (Address.key collection) tokenId).filter fun move => move.blockNumber ≠ number := by
      unfold movesOf
      exact filter_comm ..
    rw [moves]
    unfold nftRow at before ⊢
    rw [find?_filterMap _ revertNFTToken_key table mirrors.distinct]
    cases found : table.find? fun row => nftKey row = (Address.hex keccak256 collection, tokenId) with
    | none =>
      rw [found] at before
      rw [show movesOf transfers (Address.key collection) tokenId = [] from before]
      rfl
    | some row =>
      have key : nftKey row = (Address.hex keccak256 collection, tokenId) := by
        simpa using List.find?_some found
      have id : row.tokenId = tokenId := congrArg Prod.snd key
      rw [found] at before
      subst id
      exact Follows.revert (congrArg Prod.fst key) before recipients minted number

/-! ## The store -/

variable (keccak256) in
structure NFTData (block : Block) (data : BlockData) : Prop where
  named : data.block = some block
  numbered : ∀ transfer ∈ data.transfers, transfer.blockNumber = block.number
  distinct : (data.transfers.map (·.logIndex)).Nodup
  ordered : (data.transfers.filter fun transfer => transfer.tokenType = .erc721).Pairwise fun first second =>
    first.logIndex ≤ second.logIndex
  moves : List.Forall₂ (Moves keccak256) (data.transfers.filter fun transfer => transfer.tokenType = .erc721)
    data.nftTokens

variable (keccak256) in
structure OwnersKept (store : Store) : Prop where
  mirrors : Mirrors keccak256 store.tokenTransfers store.nftTokens
  texts : ∀ transfer ∈ store.tokenTransfers, transfer.tokenType = .erc721 →
    ∃ (collection recipient : Address) (tokenId : Nat), transfer.tokenAddress = Address.key collection ∧
      transfer.toAddress = Address.key recipient ∧ transfer.tokenId = some tokenId
  stored : ∀ transfer ∈ store.tokenTransfers, ∃ block ∈ store.blocks, block.number = transfer.blockNumber
  positions : (store.tokenTransfers.map TransferRow.position).Nodup

theorem OwnersKept.empty : OwnersKept keccak256 {} := by
  refine ⟨⟨nodup_nil, ?_, ?_⟩, ?_, ?_, nodup_nil⟩
  · intro row member
    cases member
  · intro collection tokenId
    rfl
  · intro transfer member
    cases member
  · intro transfer member
    cases member

theorem movesOf_append (transfers : List TransferRow) (listed : List TokenTransfer) (collection : String)
    (tokenId : Nat) :
    movesOf (transfers ++ listed.map transferRow) collection tokenId = movesOf (transfers ++
      (listed.filter fun transfer => transfer.tokenType = .erc721).map transferRow) collection tokenId := by
  unfold movesOf
  rw [filter_append, filter_append, filter_map, filter_map, filter_filter]
  congr 2
  apply filter_congr
  intro transfer _
  by_cases kind : transfer.tokenType = .erc721 <;> simp [transferRow, kind]

theorem NFTData.texts (built : NFTData keccak256 block data) (listed : transfer ∈ data.transfers)
    (kind : transfer.tokenType = .erc721) :
    ∃ (collection recipient : Address) (tokenId : Nat), (transferRow transfer).tokenAddress = Address.key collection ∧
      (transferRow transfer).toAddress = Address.key recipient ∧ (transferRow transfer).tokenId = some tokenId := by
  have member : transfer ∈ data.transfers.filter fun transfer => transfer.tokenType = .erc721 :=
    mem_filter.mpr ⟨listed, decide_eq_true kind⟩
  obtain ⟨index, bound, here⟩ := mem_iff_getElem.mp member
  have moves := (forall₂_iff_get.mp built.moves).2 index bound
    (built.moves.length_eq ▸ bound)
  simp only [get_eq_getElem, here] at moves
  obtain ⟨collection, address⟩ := moves.collection
  obtain ⟨recipient, party⟩ := moves.recipient
  refine ⟨collection, recipient, _, ?_, ?_, moves.tokenId⟩
  · simp only [transferRow, moves.tokenAddress, address, lower_addressHex]
  · simp only [transferRow, party, lower_addressHex]

theorem OwnersKept.write (kept : OwnersKept keccak256 store) (built : NFTData keccak256 block data)
    (done : insertBlockDataBatch partitionOf data store = .ok next) : OwnersKept keccak256 next := by
  cases absent : store.blocks.any (blockConflicts partitionOf block) with
  | true =>
    rw [insertBlockDataBatch_taken built.named absent done]
    exact kept
  | false =>
    have inserted := insertBlockDataBatch_inserted built.named absent done
    have fresh : ∀ row ∈ store.tokenTransfers, row.blockNumber ≠ block.number := by
      intro row member same
      obtain ⟨other, listed, number⟩ := kept.stored row member
      have free := any_eq_false.mp absent other listed
      simp [blockConflicts, number, same] at free
    have landed : landed transferRow transferConflicts data.transfers store.tokenTransfers = data.transfers := by
      apply landed_eq_self
      · intro transfer member row listed
        have other := fresh row listed
        rw [← built.numbered transfer member] at other
        simp [transferConflicts, transferRow, other]
      · refine (pairwise_map.mp built.distinct).imp ?_
        intro first second apart
        simp [transferConflicts, transferRow, apart]
    have transfers : next.tokenTransfers = store.tokenTransfers ++ data.transfers.map transferRow := by
      rw [inserted.transfers, insertAll_eq, landed]
    have later : ∀ row ∈ store.tokenTransfers, ∀ transfer ∈ data.transfers,
        row.blockNumber ≠ transfer.blockNumber := by
      intro row member transfer listed
      rw [built.numbered transfer listed]
      exact fresh row member
    have mirrors := kept.mirrors.upserts built.moves built.ordered fun row member transfer listed same =>
      absurd same (later row member transfer (mem_of_mem_filter listed))
    refine ⟨⟨?_, ?_, ?_⟩, ?_, ?_, ?_⟩
    · rw [inserted.nftTokens]
      exact mirrors.distinct
    · rw [inserted.nftTokens]
      exact mirrors.collections
    · intro collection tokenId
      rw [inserted.nftTokens, transfers, movesOf_append]
      exact mirrors.follows collection tokenId
    · rw [transfers]
      intro transfer member kind
      rcases mem_append.mp member with old | new
      · exact kept.texts transfer old kind
      · obtain ⟨own, listed, rfl⟩ := mem_map.mp new
        exact built.texts listed kind
    · rw [transfers, inserted.blocks]
      intro transfer member
      rcases mem_append.mp member with old | new
      · obtain ⟨other, listed, number⟩ := kept.stored transfer old
        exact ⟨other, mem_append_left _ listed, number⟩
      · obtain ⟨own, listed, rfl⟩ := mem_map.mp new
        exact ⟨block, by simp, (built.numbered own listed).symm⟩
    · rw [transfers, map_append, nodup_append, map_map]
      refine ⟨kept.positions, ?_, ?_⟩
      · rw [nodup_iff_pairwise_ne, pairwise_map]
        refine (pairwise_map.mp built.distinct).imp ?_
        intro first second apart same
        exact apart (congrArg (fun position => (ofLex position).2) same)
      · intro old member new added same
        obtain ⟨row, listed, rfl⟩ := mem_map.mp member
        obtain ⟨transfer, own, rfl⟩ := mem_map.mp added
        exact later row listed transfer own (congrArg (fun position => (ofLex position).1) same)

theorem OwnersKept.insertBlock (kept : OwnersKept keccak256 store)
    (done : insertBlock partitionOf block store = .ok next) : OwnersKept keccak256 next := by
  unfold Db.insertBlock at done
  obtain ⟨_, _, done⟩ := bind_eq_ok.mp done
  split at done
  · obtain ⟨_, _, done⟩ := bind_eq_ok.mp done
    rw [← Except.ok.inj done]
    exact kept
  · rw [← Except.ok.inj done]
    refine { kept with stored := ?_ }
    intro transfer member
    obtain ⟨other, listed, number⟩ := kept.stored transfer member
    exact ⟨other, mem_append_left _ listed, number⟩

theorem OwnersKept.deleteBlock (kept : OwnersKept keccak256 store) (minted : Minted store.tokenTransfers)
    (number : Nat) : OwnersKept keccak256 (deleteBlock keccak256 number store) := by
  have remains (transfer : TransferRow) (member : transfer ∈ (Db.deleteBlock keccak256 number store).tokenTransfers) :
      transfer ∈ store.tokenTransfers ∧ transfer.blockNumber ≠ number := by
    simpa [Db.deleteBlock] using member
  refine ⟨kept.mirrors.revert ?_ minted number, ?_, ?_, ?_⟩
  · intro transfer member kind
    obtain ⟨_, recipient, _, _, text, _⟩ := kept.texts transfer member kind
    exact ⟨recipient, text⟩
  · intro transfer member
    exact kept.texts transfer (remains transfer member).1
  · intro transfer member
    obtain ⟨block, listed, same⟩ := kept.stored transfer (remains transfer member).1
    refine ⟨block, mem_filter.mpr ⟨listed, ?_⟩, same⟩
    rw [same]
    exact decide_eq_true (remains transfer member).2
  · exact kept.positions.sublist (filter_sublist.map _)

end

end OpsIndexer.Db
