import OpsIndexer.Indexer.BlockRows

/-!
# What the Transfer logs queue

Besides their rows, Transfer logs queue the tokens whose metadata is asked for and the mints whose URI is. Both are
read here off the logs: by the signature topic, the number of topics and the token cache.
-/

namespace OpsIndexer.Indexing

open Eth OpsIndexer.Types Db Rpc Lib.Fold List

def isTransferLog (log : ReceiptLog) : Bool :=
  log.topics.head? = some transferTopic && 3 ≤ log.topics.length

def isNFTLog (log : ReceiptLog) : Bool :=
  log.topics.head? = some transferTopic && log.topics.length = 4

def mintedBy (log : ReceiptLog) : Option (Address × Nat) :=
  match log.topics with
  | [topic0, topic1, _, topic3] =>
    if topic0 = transferTopic ∧ Hash.toAddress topic1 = 0 then some (log.address, topic3.toNat) else none
  | _ => none

theorem decodeTransfer_cases (log : ReceiptLog) :
    (decodeTransfer log = none ∧ isTransferLog log = false ∧ isNFTLog log = false ∧ mintedBy log = none) ∨
      (∃ decoded, decodeTransfer log = some decoded ∧ isTransferLog log = true ∧ isNFTLog log = false ∧
        mintedBy log = none ∧ decoded.tokenType = .erc20 ∧ decoded.tokenId = none ∧
        decoded.value = setBytes log.data) ∨
      ∃ decoded tokenId, decodeTransfer log = some decoded ∧ isTransferLog log = true ∧ isNFTLog log = true ∧
        mintedBy log = (if decoded.transferType = .mint then some (log.address, tokenId) else none) ∧
        decoded.tokenType = .erc721 ∧ decoded.tokenId = some tokenId ∧ decoded.value = 1 := by
  unfold decodeTransfer isTransferLog isNFTLog mintedBy
  match log.topics with
  | [] => exact .inl ⟨rfl, by simp, by simp, rfl⟩
  | [_] => exact .inl ⟨rfl, by simp, by simp, rfl⟩
  | [_, _] => exact .inl ⟨rfl, by simp, by simp, rfl⟩
  | topic0 :: topic1 :: topic2 :: rest =>
    by_cases signature : topic0 = transferTopic
    · simp only [signature, if_true]
      match rest with
      | [] => exact .inr (.inl ⟨_, rfl, by simp, by simp, rfl, rfl, rfl, rfl⟩)
      | [topic3] =>
        refine .inr (.inr ⟨_, topic3.toNat, rfl, by simp, by simp, ?_, rfl, rfl, rfl⟩)
        have minted : transferTypeOf (Hash.toAddress topic1) (Hash.toAddress topic2) = .mint ↔
            Hash.toAddress topic1 = 0 := by
          unfold transferTypeOf
          by_cases mint : Hash.toAddress topic1 = 0
          · simp only [mint, if_true]
          · by_cases burn : Hash.toAddress topic2 = 0 <;> simp only [mint, burn, if_true, if_false, reduceCtorEq]
        simp only [minted, true_and]
      | _ :: _ :: _ => exact .inr (.inl ⟨_, rfl, by simp, by simp, rfl, rfl, rfl, rfl⟩)
    · refine .inl ⟨by simp [signature], by simp [signature], by simp [signature], ?_⟩
      match rest with
      | [] => rfl
      | [_] => simp [signature]
      | _ :: _ :: _ => rfl

theorem decodeTransfer_tokenId {log : ReceiptLog} {decoded : DecodedTransfer}
    (found : decodeTransfer log = some decoded) : ∀ tokenId ∈ decoded.tokenId, tokenId < 2 ^ 256 := by
  unfold decodeTransfer at found
  split at found
  · split at found
    · cases found
      split
      · next topic3 _ =>
        intro tokenId given
        rw [← Option.some.inj given]
        exact topic3.isLt
      · intro tokenId given
        cases given
    · cases found
  · cases found

theorem decodeTransfer_isSome (log : ReceiptLog) : (decodeTransfer log).isSome = isTransferLog log := by
  rcases decodeTransfer_cases log with ⟨decoded, kind, _⟩ | ⟨_, decoded, kind, _⟩ | ⟨_, _, decoded, kind, _⟩
  · rw [decoded, kind, Option.isSome_none]
  · rw [decoded, kind, Option.isSome_some]
  · rw [decoded, kind, Option.isSome_some]

/-! ## One log -/

structure RequestRows (state : Building) : Prop where
  distinct : (state.uriRequests.map Prod.fst).Nodup
  inside : ∀ request ∈ state.uriRequests, request.1 < state.nftTokens.length
  blank : ∀ nft ∈ state.nftTokens, nft.tokenURI = none

theorem recordNFT_requests (indexer : Indexer) (raw : RawBlock) (log : ReceiptLog) (decoded : DecodedTransfer)
    (tokenId : Nat) (state : Building) (kind : decoded.tokenType = .erc721) (id : decoded.tokenId = some tokenId)
    (rows : RequestRows state) :
    RequestRows (recordNFT indexer raw log decoded state) ∧
      (recordNFT indexer raw log decoded state).uriRequests.map Prod.snd = state.uriRequests.map Prod.snd ++
        (if decoded.transferType = .mint then [(log.address, tokenId)] else []) := by
  have unused : state.nftTokens.length ∉ state.uriRequests.map Prod.fst := by
    intro member
    obtain ⟨request, listed, same⟩ := mem_map.mp member
    have inside := rows.inside request listed
    omega
  unfold recordNFT
  simp only [kind, id]
  by_cases mint : decoded.transferType = .mint
  · simp only [mint, if_true]
    refine ⟨⟨?_, ?_, ?_⟩, by rw [map_append]; rfl⟩
    · rw [map_append, nodup_append]
      refine ⟨rows.distinct, nodup_singleton _, ?_⟩
      intro first firstMember second secondMember same
      simp only [map_cons, map_nil, mem_singleton] at secondMember
      exact unused (secondMember ▸ same ▸ firstMember)
    · intro request member
      rw [length_append, length_singleton]
      rcases mem_append.mp member with old | new
      · have inside := rows.inside request old
        omega
      · rw [mem_singleton.mp new]
        omega
    · intro nft member
      rcases mem_append.mp member with old | new
      · exact rows.blank nft old
      · rw [mem_singleton.mp new]
  · simp only [mint, if_false]
    refine ⟨⟨rows.distinct, ?_, ?_⟩, (append_nil _).symm⟩
    · intro request member
      have inside := rows.inside request member
      rw [length_append]
      omega
    · intro nft member
      rcases mem_append.mp member with old | new
      · exact rows.blank nft old
      · rw [mem_singleton.mp new]

theorem recordTransfer_queues (indexer : Indexer) (raw : RawBlock) (index : Nat) (txHash : String)
    (log : ReceiptLog) (decoded : DecodedTransfer) (state : Building) :
    (recordTransfer indexer raw index txHash log decoded state).uriRequests =
        (recordNFT indexer raw log decoded state).uriRequests ∧
      (recordTransfer indexer raw index txHash log decoded state).nftTokens =
        (recordNFT indexer raw log decoded state).nftTokens ∧
      (recordTransfer indexer raw index txHash log decoded state).newTokens =
        (queueToken indexer txHash log.address state).newTokens := by
  unfold recordTransfer queueToken recordBalanceWork recordNFT
  dsimp only
  repeat' split
  all_goals simp_all

theorem recordLog_nfts (indexer : Indexer) (raw : RawBlock) (index : Nat) (txHash : String) (state : Building)
    (log : ReceiptLog) (nft : NFTToken) (member : nft ∈ (recordLog indexer raw index txHash state log).nftTokens) :
    nft ∈ state.nftTokens ∨ nft.tokenId < 2 ^ 256 ∧ nft.blockNumber = raw.numberU64 := by
  unfold recordLog at member
  cases found : decodeTransfer log with
  | none =>
    rw [found] at member
    exact .inl member
  | some decoded =>
    rw [found] at member
    dsimp only at member
    rw [(recordTransfer_queues indexer raw index txHash log decoded _).2.1] at member
    unfold recordNFT at member
    split at member
    · next tokenId _ given =>
      rcases mem_append.mp member with old | new
      · exact .inl old
      · rw [mem_singleton.mp new]
        exact .inr ⟨decodeTransfer_tokenId found tokenId given, rfl⟩
    · exact .inl member

theorem mem_queueToken (indexer : Indexer) (txHash : String) (log address : Address) (state : Building) :
    address ∈ (queueToken indexer txHash log state).newTokens.map Prod.fst ↔
      address ∈ state.newTokens.map Prod.fst ∨
        indexer.tokenCache.contains (Address.key log) = false ∧ address = log := by
  unfold queueToken
  by_cases cached : indexer.tokenCache.contains (Address.key log) = true
  · rw [cached, Bool.true_or, if_pos rfl]
    simp
  · rw [Bool.not_eq_true] at cached
    rw [cached, Bool.false_or]
    by_cases queued : state.newTokens.any (fun entry => entry.1 = log) = true
    · rw [if_pos queued]
      obtain ⟨entry, member, same⟩ := any_eq_true.mp queued
      have listed : log ∈ state.newTokens.map Prod.fst := mem_map.mpr ⟨entry, member, by simpa using same⟩
      constructor
      · exact .inl
      · intro found
        rcases found with old | new
        · exact old
        · exact new.2 ▸ listed
    · rw [if_neg queued, map_append, mem_append]
      simp

theorem recordLog_queues (indexer : Indexer) (raw : RawBlock) (index : Nat) (txHash : String) (state : Building)
    (log : ReceiptLog) (address : Address) :
    (RequestRows state → RequestRows (recordLog indexer raw index txHash state log) ∧
      (recordLog indexer raw index txHash state log).uriRequests.map Prod.snd =
        state.uriRequests.map Prod.snd ++ (mintedBy log).toList) ∧
      (address ∈ (recordLog indexer raw index txHash state log).newTokens.map Prod.fst ↔
        address ∈ state.newTokens.map Prod.fst ∨ isTransferLog log = true ∧
          indexer.tokenCache.contains (Address.key log.address) = false ∧ address = log.address) := by
  unfold recordLog
  rcases decodeTransfer_cases log with ⟨absent, transfer, _, minted⟩ |
    ⟨decoded, found, transfer, _, minted, kind, id, _⟩ | ⟨decoded, tokenId, found, transfer, _, minted, kind, id, _⟩
  · rw [absent, minted, transfer]
    dsimp only
    refine ⟨fun rows => ⟨⟨rows.distinct, rows.inside, rows.blank⟩, ?_⟩, ?_⟩
    · rw [Option.toList_none, append_nil]
    · simp
  · rw [found, minted, transfer]
    dsimp only
    obtain ⟨requests, nfts, tokens⟩ := recordTransfer_queues indexer raw index txHash log decoded
      { state with logs := state.logs ++ [logOf indexer raw txHash log] }
    have unchanged : recordNFT indexer raw log decoded
        { state with logs := state.logs ++ [logOf indexer raw txHash log] } =
        { state with logs := state.logs ++ [logOf indexer raw txHash log] } := by
      simp only [recordNFT, kind]
    rw [unchanged] at requests nfts
    refine ⟨fun rows => ⟨⟨?_, ?_, ?_⟩, ?_⟩, ?_⟩
    · rw [requests]
      exact rows.distinct
    · rw [requests, nfts]
      exact rows.inside
    · rw [nfts]
      exact rows.blank
    · rw [requests, Option.toList_none, append_nil]
    · rw [tokens, mem_queueToken]
      simp
  · rw [found, minted, transfer]
    dsimp only
    obtain ⟨requests, nfts, tokens⟩ := recordTransfer_queues indexer raw index txHash log decoded
      { state with logs := state.logs ++ [logOf indexer raw txHash log] }
    refine ⟨fun rows => ?_, ?_⟩
    · obtain ⟨kept, queued⟩ := recordNFT_requests indexer raw log decoded tokenId
        { state with logs := state.logs ++ [logOf indexer raw txHash log] } kind id
        ⟨rows.distinct, rows.inside, rows.blank⟩
      refine ⟨⟨?_, ?_, ?_⟩, ?_⟩
      · rw [requests]
        exact kept.distinct
      · rw [requests, nfts]
        exact kept.inside
      · rw [nfts]
        exact kept.blank
      · rw [requests, queued]
        by_cases mint : decoded.transferType = .mint <;> simp [mint]
    · rw [tokens, mem_queueToken]
      simp

/-! ## The whole block -/

def mintRequests (raw : RawBlock) (receipts : Hash → Option Receipt) : List (Address × Nat) :=
  raw.transactions.flatMap fun tx => (logsOf receipts tx).filterMap mintedBy

def queues (indexer : Indexer) (address : Address) (log : ReceiptLog) : Prop :=
  isTransferLog log = true ∧ indexer.tokenCache.contains (Address.key log.address) = false ∧ address = log.address

theorem foldl_recordLog_requests (indexer : Indexer) (raw : RawBlock) (index : Nat) (txHash : String)
    (logs : List ReceiptLog) (state : Building) (rows : RequestRows state) :
    RequestRows (logs.foldl (recordLog indexer raw index txHash) state) ∧
      (logs.foldl (recordLog indexer raw index txHash) state).uriRequests.map Prod.snd =
        state.uriRequests.map Prod.snd ++ logs.filterMap mintedBy := by
  induction logs generalizing state with
  | nil => exact ⟨rows, (append_nil _).symm⟩
  | cons log rest ih =>
    obtain ⟨kept, queued⟩ := (recordLog_queues indexer raw index txHash state log 0).1 rows
    obtain ⟨later, requests⟩ := ih _ kept
    refine ⟨later, ?_⟩
    rw [foldl_cons, requests, queued, append_assoc]
    cases minted : mintedBy log <;> simp [minted]

theorem recordCreation_queues (indexer : Indexer) (blockNumber : Nat) (receipt : Option Receipt)
    (tx : RawTransaction) (state : Building) :
    (recordCreation indexer blockNumber receipt tx state).uriRequests = state.uriRequests ∧
      (recordCreation indexer blockNumber receipt tx state).nftTokens = state.nftTokens ∧
      (recordCreation indexer blockNumber receipt tx state).newTokens = state.newTokens := by
  unfold recordCreation
  repeat' split
  all_goals exact ⟨rfl, rfl, rfl⟩

theorem recordTransaction_requests (indexer : Indexer) (raw : RawBlock) (receipts : Hash → Option Receipt)
    (state : Building) (entry : RawTransaction × Nat) (rows : RequestRows state) :
    RequestRows (recordTransaction indexer raw receipts state entry) ∧
      (recordTransaction indexer raw receipts state entry).uriRequests.map Prod.snd =
        state.uriRequests.map Prod.snd ++ (logsOf receipts entry.1).filterMap mintedBy := by
  obtain ⟨tx, index⟩ := entry
  obtain ⟨requests, nfts, _⟩ := recordCreation_queues indexer raw.numberU64 (receipts tx.hash) tx
    { state with
      transactions := state.transactions ++ [transactionOf indexer raw.numberU64 (receipts tx.hash) index tx]
      counts := touchParties indexer raw.numberU64 index state.contractCache tx state.counts }
  have start : RequestRows (recordCreation indexer raw.numberU64 (receipts tx.hash) tx
      { state with
        transactions := state.transactions ++ [transactionOf indexer raw.numberU64 (receipts tx.hash) index tx]
        counts := touchParties indexer raw.numberU64 index state.contractCache tx state.counts }) := by
    refine ⟨?_, ?_, ?_⟩
    · rw [requests]
      exact rows.distinct
    · rw [requests, nfts]
      exact rows.inside
    · rw [nfts]
      exact rows.blank
  have logged := foldl_recordLog_requests indexer raw index (Hash.hex tx.hash) (logsOf receipts tx) _ start
  rw [requests] at logged
  exact logged

theorem recordTransactions_requests (indexer : Indexer) (raw : RawBlock) (receipts : Hash → Option Receipt) :
    RequestRows (recordTransactions indexer raw receipts) ∧
      (recordTransactions indexer raw receipts).uriRequests.map Prod.snd = mintRequests raw receipts := by
  have run (entries : List (RawTransaction × Nat)) (state : Building) (rows : RequestRows state) :
      RequestRows (entries.foldl (recordTransaction indexer raw receipts) state) ∧
        (entries.foldl (recordTransaction indexer raw receipts) state).uriRequests.map Prod.snd =
          state.uriRequests.map Prod.snd ++
            (entries.map Prod.fst).flatMap fun tx => (logsOf receipts tx).filterMap mintedBy := by
    induction entries generalizing state with
    | nil => exact ⟨rows, (append_nil _).symm⟩
    | cons entry rest ih =>
      obtain ⟨kept, queued⟩ := recordTransaction_requests indexer raw receipts state entry rows
      obtain ⟨later, requests⟩ := ih _ kept
      refine ⟨later, ?_⟩
      rw [foldl_cons, requests, queued, append_assoc, map_cons, flatMap_cons]
  have empty : RequestRows { contractCache := indexer.contractCache } := ⟨by simp, by simp, by simp⟩
  obtain ⟨rows, requests⟩ := run raw.transactions.zipIdx _ empty
  rw [zipIdx_map_fst] at requests
  exact ⟨⟨rows.distinct, rows.inside, rows.blank⟩, requests⟩

theorem recordTransactions_nfts (indexer : Indexer) (raw : RawBlock) (receipts : Hash → Option Receipt) :
    ∀ nft ∈ (recordTransactions indexer raw receipts).nftTokens,
      nft.tokenId < 2 ^ 256 ∧ nft.blockNumber = raw.numberU64 := by
  unfold recordTransactions
  refine List.foldlRecOn (motive := fun state : Building => ∀ nft ∈ state.nftTokens,
    nft.tokenId < 2 ^ 256 ∧ nft.blockNumber = raw.numberU64) raw.transactions.zipIdx
    (recordTransaction indexer raw receipts) (by simp) ?_
  rintro state before ⟨tx, index⟩ _
  refine List.foldlRecOn (motive := fun state : Building => ∀ nft ∈ state.nftTokens,
    nft.tokenId < 2 ^ 256 ∧ nft.blockNumber = raw.numberU64) (logsOf receipts tx)
    (recordLog indexer raw index (Hash.hex tx.hash)) ?_ ?_
  · rw [(recordCreation_queues indexer _ _ tx _).2.1]
    exact before
  · intro logged kept log _ nft member
    rcases recordLog_nfts indexer raw index _ logged log nft member with old | new
    · exact kept nft old
    · exact new

theorem mem_newTokens (indexer : Indexer) (raw : RawBlock) (receipts : Hash → Option Receipt) (address : Address) :
    address ∈ (recordTransactions indexer raw receipts).newTokens.map Prod.fst ↔
      ∃ tx ∈ raw.transactions, ∃ log ∈ logsOf receipts tx, queues indexer address log := by
  have step (state : Building) (entry : RawTransaction × Nat) :
      address ∈ (recordTransaction indexer raw receipts state entry).newTokens.map Prod.fst ↔
        address ∈ state.newTokens.map Prod.fst ∨ ∃ log ∈ logsOf receipts entry.1, queues indexer address log := by
    obtain ⟨tx, index⟩ := entry
    have logged := foldl_or (fun state : Building => address ∈ state.newTokens.map Prod.fst)
      (recordLog indexer raw index (Hash.hex tx.hash)) (queues indexer address)
      (fun state log => (recordLog_queues indexer raw index (Hash.hex tx.hash) state log address).2)
      (logsOf receipts tx)
      (recordCreation indexer raw.numberU64 (receipts tx.hash) tx
        { state with
          transactions := state.transactions ++ [transactionOf indexer raw.numberU64 (receipts tx.hash) index tx]
          counts := touchParties indexer raw.numberU64 index state.contractCache tx state.counts })
    rw [(recordCreation_queues indexer raw.numberU64 (receipts tx.hash) tx _).2.2] at logged
    exact logged
  have run := foldl_or (fun state : Building => address ∈ state.newTokens.map Prod.fst)
    (recordTransaction indexer raw receipts)
    (fun entry => ∃ log ∈ logsOf receipts entry.1, queues indexer address log) step raw.transactions.zipIdx
    { contractCache := indexer.contractCache }
  refine run.trans ?_
  simp only [map_nil, not_mem_nil, false_or]
  conv_rhs => rw [← zipIdx_map_fst 0 raw.transactions]
  simp only [mem_map, exists_exists_and_eq_and]

end OpsIndexer.Indexing
