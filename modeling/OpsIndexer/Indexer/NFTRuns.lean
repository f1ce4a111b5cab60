import OpsIndexer.Indexer.Storable
import OpsIndexer.Db.NFTOwners
import OpsIndexer.Db.CounterRuns
import OpsIndexer.Lib.Runs

/-!
# NFT owners over runs of the indexer

`buildBlock` puts one entry of `nft_tokens` beside every ERC-721 transfer, in the same order. The owners follow the
stored transfers in every run of block writes and reverts whose reverts find each id's mint among the stored rows.
-/

namespace OpsIndexer.Indexing

open Eth OpsIndexer.Types Db Rpc Lib.Runs Lib.Fold List

/-! ## The entries of one block -/

def Paired (keccak256 : Bytes → Hash) (transfers : List TokenTransfer) (nfts : List NFTToken) : Prop :=
  List.Forall₂ (Db.Moves keccak256) (transfers.filter fun transfer => transfer.tokenType = .erc721) nfts

theorem recordLog_paired (indexer : Indexer) (raw : RawBlock) (index : Nat) (txHash : String) (state : Building)
    (log : ReceiptLog) (paired : Paired indexer.keccak256 state.transfers state.nftTokens) :
    Paired indexer.keccak256 (recordLog indexer raw index txHash state log).transfers
      (recordLog indexer raw index txHash state log).nftTokens := by
  unfold recordLog Paired
  rcases decodeTransfer_cases log with ⟨absent, _⟩ | ⟨decoded, found, _, _, _, kind, id, _⟩ |
    ⟨decoded, tokenId, found, _, _, _, kind, id, _⟩
  · rw [absent]
    exact paired
  all_goals
    rw [found]
    dsimp only
    rw [(recordTransfer_rows indexer raw index txHash log decoded _).2.2.1,
      (recordTransfer_queues indexer raw index txHash log decoded _).2.1, filter_append]
  · have plain : ([tokenTransferOf indexer raw txHash log decoded].filter
        fun transfer => transfer.tokenType = .erc721) = [] := by
      simp [tokenTransferOf, kind]
    rw [plain, append_nil]
    simp only [recordNFT, kind]
    exact paired
  · have moved : ([tokenTransferOf indexer raw txHash log decoded].filter
        fun transfer => transfer.tokenType = .erc721) = [tokenTransferOf indexer raw txHash log decoded] := by
      simp [tokenTransferOf, kind]
    rw [moved]
    simp only [recordNFT, kind, id]
    refine rel_append paired (.cons ?_ .nil)
    exact ⟨⟨log.address, rfl⟩, ⟨decoded.toAddr, rfl⟩, kind, rfl, id, rfl, rfl⟩

theorem recordTransactions_paired (indexer : Indexer) (raw : RawBlock) (receipts : Hash → Option Receipt) :
    Paired indexer.keccak256 (recordTransactions indexer raw receipts).transfers
      (recordTransactions indexer raw receipts).nftTokens := by
  unfold recordTransactions
  refine List.foldlRecOn (motive := fun state : Building => Paired indexer.keccak256 state.transfers state.nftTokens)
    raw.transactions.zipIdx (recordTransaction indexer raw receipts) .nil ?_
  rintro state paired ⟨tx, index⟩ _
  unfold recordTransaction
  refine List.foldlRecOn (motive := fun state : Building => Paired indexer.keccak256 state.transfers state.nftTokens)
    ((receipts tx.hash).map (·.logs) |>.getD []) (recordLog indexer raw index (Hash.hex tx.hash)) ?_ ?_
  · rw [(recordCreation_rows indexer raw receipts tx _).2.1, (recordCreation_queues indexer _ _ tx _).2.1]
    exact paired
  · intro logged before log _
    exact recordLog_paired indexer raw index _ logged log before

variable {keccak256 : Bytes → Hash} {nfts : List NFTToken} {indexer : Indexer} {raw : RawBlock}
  {receipts : Hash → Option Receipt} {built : BuiltBlock}

theorem Paired.modify {transfers : List TokenTransfer} (paired : List.Forall₂ (Db.Moves keccak256) transfers nfts)
    (row : Nat) (uri : Bytes) :
    List.Forall₂ (Db.Moves keccak256) transfers (nfts.modify row fun nft => { nft with tokenURI := some uri }) := by
  induction paired generalizing row with
  | nil =>
    rw [modify_nil]
    exact .nil
  | cons moves rest ih =>
    cases row with
    | zero => exact .cons { moves with } rest
    | succ row => exact .cons moves (ih row)

theorem resolveURIs_paired {state : Building} (paired : Paired indexer.keccak256 state.transfers state.nftTokens)
    (resolved : resolveURIs indexer state = some nfts) : Paired indexer.keccak256 state.transfers nfts := by
  unfold resolveURIs at resolved
  split at resolved
  · rw [← Option.some.inj resolved]
    exact paired
  · generalize state.uriRequests.zipIdx = entries at resolved
    generalize state.nftTokens = before at paired resolved
    induction entries generalizing before with
    | nil =>
      rw [← Option.some.inj resolved]
      exact paired
    | cons entry rest ih =>
      rw [foldlM_cons] at resolved
      obtain ⟨next, first, later⟩ := Option.bind_eq_some_iff.mp resolved
      obtain ⟨uri, _, changed⟩ := Option.bind_eq_some_iff.mp first
      refine ih next ?_ later
      rw [← Option.some.inj changed]
      cases uri with
      | none => exact paired
      | some uri => exact Paired.modify paired entry.1.1 uri

theorem buildBlock_paired (done : buildBlock indexer raw receipts = some built) :
    Paired indexer.keccak256 built.data.transfers built.data.nftTokens := by
  have before := recordTransactions_paired indexer raw receipts
  rw [(buildBlock_rows done).2.2.1, ← recordTransactions_transfers]
  obtain ⟨_, nfts, resolved, same⟩ := (exists_buildBlock_iff indexer raw receipts (fun _ => True)
    (fun nfts => nfts = built.data.nftTokens)).mp ⟨built, done, trivial, rfl⟩
  subst same
  have transfers := (recordFrames_rows indexer raw (framesOf indexer raw)
    (recordTransactions indexer raw receipts)).2.1
  have rows := (recordFrames_queues indexer raw.numberU64 (framesOf indexer raw)
    (recordTransactions indexer raw receipts)).2.1
  have paired : Paired indexer.keccak256 (tracedState indexer raw receipts).transfers
      (tracedState indexer raw receipts).nftTokens := by
    unfold tracedState
    rw [transfers, rows]
    exact before
  have traced := resolveURIs_paired paired resolved
  unfold tracedState at traced
  rw [transfers] at traced
  exact traced

/-! ## Runs -/

def InLogOrder (data : BlockData) : Prop :=
  (data.transfers.map (·.logIndex)).Nodup ∧
    (data.transfers.filter fun transfer => transfer.tokenType = .erc721).Pairwise fun first second =>
      first.logIndex < second.logIndex

theorem buildBlock_nftData (done : buildBlock indexer raw receipts = some built) (inOrder : InLogOrder built.data) :
    NFTData indexer.keccak256 (blockOf indexer raw) built.data := by
  refine ⟨(buildBlock_rows done).1, ?_, inOrder.1, inOrder.2.imp fun first => first.le, buildBlock_paired done⟩
  intro transfer member
  rw [(buildBlock_rows done).2.2.1] at member
  obtain ⟨tx, _, member⟩ := mem_flatMap.mp member
  obtain ⟨log, _, produced⟩ := mem_filterMap.mp member
  obtain ⟨decoded, _, rfl⟩ := Option.map_eq_some_iff.mp produced
  rfl

/-- Writes are of blocks an indexer built, in log order. A revert finds each id's mint among the stored rows. -/
def NFTStep (keccak256 : Bytes → Hash) (store : Store) (attempt : Attempt) : Prop :=
  match attempt.op with
  | .insertBlock _ => True
  | .insertBlockDataBatch data => ∃ (indexer : Indexer) (raw : RawBlock) (receipts : Hash → Option Receipt)
      (built : BuiltBlock), indexer.keccak256 = keccak256 ∧ buildBlock indexer raw receipts = some built ∧
        built.data = data ∧ InLogOrder data
  | .deleteBlock _ => Minted store.tokenTransfers

theorem ownersKept_step (store : Store) (attempt : Attempt) (kept : OwnersKept keccak256 store)
    (allowed : NFTStep keccak256 store attempt) :
    OwnersKept keccak256 (attempt.run keccak256 store) := by
  unfold Attempt.run
  split
  · cases applied : attempt.op.apply keccak256 attempt.partitionOf store with
    | error failure => exact kept
    | ok next =>
      unfold NFTStep at allowed
      cases named : attempt.op with
      | insertBlock block =>
        rw [named] at applied
        exact kept.insertBlock applied
      | insertBlockDataBatch data =>
        rw [named] at applied allowed
        obtain ⟨indexer, raw, receipts, built, rfl, done, rfl, inOrder⟩ := allowed
        exact kept.write (buildBlock_nftData done inOrder) applied
      | deleteBlock number =>
        rw [named] at applied allowed
        rw [← Except.ok.inj applied]
        exact kept.deleteBlock allowed number
  · exact kept

/-- After every step of such a run an id has one row exactly when a transfer of it is stored, and the row names the
recipient and the block of the last one. -/
theorem nftOwners_follow_transfers (keccak256 : Bytes → Hash) (attempts : List Attempt)
    (admitted : Admits (Attempt.run keccak256) {} (NFTStep keccak256) attempts) :
    let store := runStore keccak256 attempts
    (∀ row ∈ store.nftTokens, ∃ last ∈ movesOf store.tokenTransfers (lower row.tokenAddress) row.tokenId,
      lower row.owner = last.toAddress ∧ row.blockNumber = last.blockNumber ∧
        ∀ move ∈ movesOf store.tokenTransfers (lower row.tokenAddress) row.tokenId,
          move ≠ last → move.position < last.position) ∧
      (∀ transfer ∈ store.tokenTransfers, transfer.tokenType = .erc721 → ∃ row ∈ store.nftTokens,
        lower row.tokenAddress = transfer.tokenAddress ∧ some row.tokenId = transfer.tokenId) ∧
      (store.nftTokens.map fun row => (lower row.tokenAddress, row.tokenId)).Nodup := by
  have kept : OwnersKept keccak256 (runStore keccak256 attempts) :=
    admitted.invariant (OwnersKept keccak256) OwnersKept.empty ownersKept_step prefix_rfl
  intro store
  refine ⟨?_, ?_, ?_⟩
  · intro row member
    obtain ⟨collection, text⟩ := kept.mirrors.collections row member
    have found : nftRow store.nftTokens (Address.hex keccak256 collection, row.tokenId) = some row := by
      have key : nftKey row = (Address.hex keccak256 collection, row.tokenId) := Prod.ext text rfl
      rw [← key]
      exact nftRow_eq_some kept.mirrors.distinct member
    have follows := kept.mirrors.follows collection row.tokenId
    rw [found] at follows
    obtain ⟨last, isLast, owner, block⟩ := follows
    rw [text, lower_addressHex]
    refine ⟨last, isLast.listed, owner, block, ?_⟩
    intro move listed other
    refine lt_of_le_of_ne (isLast.above move listed) ?_
    intro same
    exact other (inj_on_of_nodup_map kept.positions (mem_of_mem_filter listed)
      (mem_of_mem_filter isLast.listed) same)
  · intro transfer member kind
    obtain ⟨collection, _, tokenId, address, _, id⟩ := kept.texts transfer member kind
    have follows := kept.mirrors.follows collection tokenId
    cases found : nftRow store.nftTokens (Address.hex keccak256 collection, tokenId) with
    | none =>
      rw [found] at follows
      have listed : transfer ∈ movesOf store.tokenTransfers (Address.key collection) tokenId := by
        simp [movesOf, member, address, id, kind]
      rw [show movesOf store.tokenTransfers (Address.key collection) tokenId = [] from follows] at listed
      cases listed
    | some row =>
      have key : nftKey row = (Address.hex keccak256 collection, tokenId) := by
        simpa using List.find?_some found
      refine ⟨row, mem_of_find?_eq_some found, ?_, ?_⟩
      · have text : row.tokenAddress = Address.hex keccak256 collection := congrArg Prod.fst key
        rw [text, lower_addressHex, address]
      · rw [id]
        exact congrArg (some ∘ Prod.snd) key
  · refine List.Nodup.map_on ?_ (List.Nodup.of_map nftKey kept.mirrors.distinct)
    intro row member other otherMember same
    obtain ⟨collection, text⟩ := kept.mirrors.collections row member
    obtain ⟨otherCollection, otherText⟩ := kept.mirrors.collections other otherMember
    have lowered := congrArg Prod.fst same
    simp only [text, otherText, lower_addressHex] at lowered
    have id : row.tokenId = other.tokenId := congrArg Prod.snd same
    refine inj_on_of_nodup_map kept.mirrors.distinct member otherMember ?_
    rw [nftKey, nftKey, text, otherText, Address.key_injective _ _ lowered, id]

def moveBlock (number : Nat) : RawBlock where
  number := some number
  hash := BitVec.ofNat 256 (number + 70)
  parentHash := BitVec.ofNat 256 (number + 69)
  transactions := [{ hash := BitVec.ofNat 256 number, fromAddress := 0xa, toAddress := some 0xc }]

def moveReceipt (sender recipient : Hash) (_ : Hash) : Option Receipt :=
  some { status := 1, logs := [{ address := 0xc, topics := [transferTopic, sender, recipient, 5], data := [], index := 0 }] }

def mintedMove : BuiltBlock :=
  (buildBlock plainNode (moveBlock 1) (moveReceipt 0 0xa)).get (by decide +kernel)

def laterMove : BuiltBlock :=
  (buildBlock plainNode (moveBlock 2) (moveReceipt 0xa 0xb)).get (by decide +kernel)

def committedWrite (built : BuiltBlock) : Attempt :=
  ⟨.insertBlockDataBatch built.data, id, true⟩

/-- It is enough that a transfer from anyone else follows one of the same id in a lower block. -/
theorem minted_of_earlier {transfers : List TransferRow}
    (earlier : ∀ row ∈ transfers, row.fromAddress = zeroAddress ∨ ∃ other ∈ transfers,
      (other.tokenAddress, other.tokenId, other.tokenType) = (row.tokenAddress, row.tokenId, row.tokenType) ∧
        other.blockNumber < row.blockNumber) : Minted transfers := by
  intro collection tokenId first member least
  obtain ⟨listed, chosen⟩ := mem_filter.mp member
  rcases earlier first listed with mint | ⟨other, otherListed, same, below⟩
  · exact mint
  · simp only [Prod.mk.injEq] at same
    have otherMember : other ∈ movesOf transfers (Address.key collection) tokenId := by
      refine mem_filter.mpr ⟨otherListed, ?_⟩
      rw [same.1, same.2.1, same.2.2]
      exact chosen
    have above := (position_le_iff _ _).mp (least other otherMember)
    omega

/-- The later block is written, reverted, and leaves the minted owner. -/
theorem nftOwners_follow_transfers_reverted :
    let attempts := [committedWrite mintedMove, committedWrite laterMove, ⟨.deleteBlock 2, id, true⟩]
    (runStore plainNode.keccak256 attempts).nftTokens.map (fun row => (lower row.owner, row.blockNumber)) =
        [(Address.key 0xa, 1)] ∧
      ∀ row ∈ (runStore plainNode.keccak256 attempts).nftTokens,
        ∃ last ∈ movesOf (runStore plainNode.keccak256 attempts).tokenTransfers (lower row.tokenAddress) row.tokenId,
          lower row.owner = last.toAddress := by
  refine ⟨by decide +kernel, ?_⟩
  intro row member
  have admitted : Admits (Attempt.run plainNode.keccak256) {} (NFTStep plainNode.keccak256)
      [committedWrite mintedMove, committedWrite laterMove, ⟨.deleteBlock 2, id, true⟩] := by
    refine admits_cons ?_ (admits_cons ?_ (admits_cons (minted_of_earlier (by decide +kernel)) (admits_nil _)))
    · exact ⟨plainNode, _, _, mintedMove, rfl, (Option.some_get _).symm, rfl, by unfold InLogOrder; decide +kernel⟩
    · exact ⟨plainNode, _, _, laterMove, rfl, (Option.some_get _).symm, rfl, by unfold InLogOrder; decide +kernel⟩
  obtain ⟨last, listed, owner, _⟩ := (nftOwners_follow_transfers plainNode.keccak256 _ admitted).1 row member
  exact ⟨last, listed, owner⟩

end OpsIndexer.Indexing
