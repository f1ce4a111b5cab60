import OpsIndexer.Db.Domains
import OpsIndexer.Indexer.TransferLogs

/-!
# The inputs whose rows the store accepts

Which inputs `buildBlock` turns into values inside the domains of their columns. Integers reach `NUMERIC(78,0)`,
`BIGINT`, `INTEGER` and `SMALLINT` columns and the replies of a token's contract reach `TEXT` columns and the index of
the symbols, each without a check on the way; the decoder of the replies slices them by words of their own, so it can
also leave no result.
-/

namespace OpsIndexer.Indexing

open Eth OpsIndexer.Types Db Rpc Lib.Fold List

/-! ## The block, its transactions and its logs -/

structure StorableHeader (raw : RawBlock) : Prop where
  number : raw.numberU64 < 2 ^ 63
  timestamp : raw.timestamp < 2 ^ 63
  gasUsed : raw.gasUsed < 2 ^ 63
  gasLimit : raw.gasLimit < 2 ^ 63
  baseFee : ∀ fee ∈ raw.baseFeePerGas, uint64 fee < 2 ^ 63
  transactions : raw.transactions.length < 2 ^ 31
  size : raw.size < 2 ^ 63

structure StorableTransaction (receipt : Option Receipt) (tx : RawTransaction) : Prop where
  value : (tx.value.getD 0).natAbs < 10 ^ 78
  gas : tx.gas < 2 ^ 63
  gasUsed : ∀ given ∈ receipt, given.gasUsed < 2 ^ 63
  gasPrice : ∀ price ∈ tx.gasPrice, uint64 price < 2 ^ 63
  maxFee : ∀ fee ∈ tx.maxFeePerGas, uint64 fee < 2 ^ 63
  priorityFee : ∀ fee ∈ tx.maxPriorityFeePerGas, uint64 fee < 2 ^ 63
  nonce : ∀ nonce ∈ tx.nonce, nonce < 2 ^ 63
  type : smallint (rawTxType tx) = true
  status : ∀ given ∈ receipt, smallint ((given.status : Int).bmod (2 ^ 64)) = true

theorem numeric78_decimal_isSome (value : Int) : (numeric78 (.decimal value)).isSome = true ↔ value.natAbs < 10 ^ 78 := by
  unfold numeric78
  split <;> simp_all

theorem bigint_iff (value : Nat) : bigint value = true ↔ value < 2 ^ 63 := by
  simp [bigint]

theorem integer_natCast (value : Nat) : integer value = true ↔ value < 2 ^ 31 := by
  simp only [integer, Bool.and_eq_true, decide_eq_true_eq]
  omega

private theorem all_bigint_map (fee : Option Int) :
    (fee.map uint64).all bigint = true ↔ ∀ value ∈ fee, uint64 value < 2 ^ 63 := by
  cases fee <;> simp [bigint]

private theorem smallint_status (receipt : Option Receipt) (status : Receipt → Int) :
    smallint ((receipt.map status).getD 1) = true ↔ ∀ given ∈ receipt, smallint (status given) = true := by
  have success : smallint 1 = true := by decide
  cases receipt <;> simp [success]

theorem checkBlock_iff (indexer : Indexer) (raw : RawBlock) :
    checkBlock (blockOf indexer raw) = .ok () ↔ StorableHeader raw := by
  unfold checkBlock blockOf RawBlock.baseFeeU64
  simp only [checkRow_cons, checkRow_nil, and_true, bigint_iff, integer_natCast,
    all_bigint_map]
  constructor
  · intro checked
    obtain ⟨number, timestamp, gasUsed, gasLimit, baseFee, transactions, size⟩ := checked
    exact ⟨number, timestamp, gasUsed, gasLimit, baseFee, transactions, size⟩
  · intro storable
    exact ⟨storable.number, storable.timestamp, storable.gasUsed, storable.gasLimit, storable.baseFee,
      storable.transactions, storable.size⟩

section

variable {raw : RawBlock} (header : StorableHeader raw)

include header

theorem checkTransaction_iff (indexer : Indexer) (receipt : Option Receipt) (index : Nat) (tx : RawTransaction)
    (inside : index < raw.transactions.length) :
    checkTransaction (transactionOf indexer raw.numberU64 receipt index tx) = .ok () ↔
      StorableTransaction receipt tx := by
  have price : bigint ((tx.gasPrice.map uint64).getD 0) = true ↔ ∀ price ∈ tx.gasPrice, uint64 price < 2 ^ 63 := by
    cases tx.gasPrice <;> simp [bigint]
  have nonce : bigint (tx.nonce.getD 0) = true ↔ ∀ nonce ∈ tx.nonce, nonce < 2 ^ 63 := by
    cases tx.nonce <;> simp [bigint]
  have position : index < 2 ^ 31 := inside.trans header.transactions
  unfold checkTransaction transactionOf
  simp only [checkRow_cons, checkRow_nil, and_true, integer_natCast,
    numeric78_decimal_isSome, price, nonce, smallint_status, all_bigint_map, Option.all_some]
  simp only [bigint_iff, header.number, position, true_and]
  constructor
  · intro checked
    obtain ⟨value, used, gasPrice, gas, maxFee, priorityFee, nonce, type, status⟩ := checked
    refine ⟨value, gas, ?_, gasPrice, maxFee, priorityFee, nonce, type, status⟩
    intro given found
    simpa [Option.mem_def.mp found] using used
  · intro storable
    refine ⟨storable.value, ?_, storable.gasPrice, storable.gas, storable.maxFee, storable.priorityFee, storable.nonce,
      storable.type, storable.status⟩
    cases receipt with
    | none => exact storable.gas
    | some given => exact storable.gasUsed given rfl

theorem checkLog_iff (indexer : Indexer) (tx : RawTransaction) (log : ReceiptLog) :
    checkLog (logOf indexer raw (Hash.hex tx.hash) log) = .ok () ↔ log.index < 2 ^ 31 := by
  unfold checkLog logOf
  simp only [checkRow_cons, checkRow_nil, and_true, integer_natCast, bigint_iff,
    Option.all_some, header.number, header.timestamp]

def StorableTransfer (log : ReceiptLog) : Prop :=
  isTransferLog log = true → isNFTLog log = false → setBytes log.data < 10 ^ 78

theorem checkTransfer_iff (indexer : Indexer) (tx : RawTransaction) (log : ReceiptLog) (index : log.index < 2 ^ 31) :
    (∀ transfer, transferOf indexer raw tx log = some transfer → checkTransfer transfer = .ok ()) ↔
      StorableTransfer log := by
  have checks (decoded : DecodedTransfer) (found : decodeTransfer log = some decoded) :
      checkTransfer (tokenTransferOf indexer raw (Hash.hex tx.hash) log decoded) = .ok () ↔
        decoded.value < 10 ^ 78 := by
    have id : decoded.tokenId.all (fun id => id < 10 ^ 78) = true := by
      rw [Option.all_eq_true]
      intro tokenId given
      have small := decodeTransfer_tokenId found tokenId given
      exact decide_eq_true (small.trans (by norm_num))
    unfold checkTransfer tokenTransferOf
    simp only [checkRow_cons, checkRow_nil, and_true, integer_natCast, bigint_iff,
      Option.all_some, header.number, header.timestamp, index, id, true_and, numeric78_decimal_isSome,
      Int.natAbs_natCast]
  unfold transferOf StorableTransfer
  rcases decodeTransfer_cases log with ⟨absent, transfer, _, _⟩ | ⟨decoded, found, transfer, nft, _, _, _, value⟩ |
    ⟨decoded, tokenId, found, transfer, nft, _, _, _, value⟩
  · simp [absent, transfer]
  · simp only [found, transfer, nft, Option.map_some, Option.some.injEq, forall_eq', checks decoded found, value,
      true_imp_iff]
  · simp only [found, transfer, nft, Option.map_some, Option.some.injEq, forall_eq', checks decoded found, value]
    simp

end

/-! ## Replies of a token's contract -/

def textReply (reply : Option Bytes) : Bool :=
  reply.all fun data => (Rpc.parseStringResult data).any postgresText

/-- Of a token's three replies, those the limiter lets through: two texts, of which the symbol has an index entry, and,
unless the block shows the token to be an NFT, a number of decimals. -/
def StorableToken (entry : List Bytes → Nat) (caller : Caller) (nft : Bool) (address : Address) : Prop :=
  caller.limiter address 0 = true →
    (textReply (caller.callContract address symbolCall) = true ∧
      ∀ symbol ∈ symbolOf (caller.callContract address symbolCall), fitsIndex entry [symbol] 0 = true) ∧
      (caller.limiter address 1 = true →
        textReply (caller.callContract address nameCall) = true ∧
          (caller.limiter address 2 = true → nft = false →
            integer (decimalsOf (caller.callContract address decimalsCall)) = true))

theorem symbolOf_text (entry : List Bytes → Nat) (reply : Option Bytes) :
    (∃ symbol, symbolOf reply = some symbol ∧ postgresText symbol = true ∧ fitsIndex entry [symbol] 0 = true) ↔
      textReply reply = true ∧ ∀ symbol ∈ symbolOf reply, fitsIndex entry [symbol] 0 = true := by
  have unknown : postgresText unknownSymbol = true := by decide
  unfold symbolOf textReply
  cases reply with
  | none => simp [unknown]
  | some data =>
    cases parsed : Rpc.parseStringResult data with
    | none => simp [parsed]
    | some text =>
      by_cases empty : text = []
      · have blank : postgresText [] = true := rfl
        simp [parsed, empty, unknown, blank]
      · simp [parsed, empty]

theorem nameOf_text (reply : Option Bytes) :
    (∃ name, nameOf reply = some name ∧ name.all postgresText = true) ↔ textReply reply = true := by
  unfold nameOf textReply
  cases reply with
  | none => simp
  | some data =>
    cases parsed : Rpc.parseStringResult data with
    | none => simp [parsed]
    | some text =>
      by_cases empty : text = []
      · have blank : postgresText [] = true := rfl
        simp [parsed, empty, blank]
      · simp [parsed, empty]

def discovered (indexer : Indexer) (raw : RawBlock) (state : Building) (address : Address)
    (result : TokenMetadataResult) : Option Token :=
  if result.failed then none else some (newToken indexer raw state address result)

variable (entry : List Bytes → Nat)

theorem checkToken_newToken (indexer : Indexer) {raw : RawBlock} (header : StorableHeader raw) (state : Building)
    (address : Address) (result : TokenMetadataResult) (nft : Bool)
    (kind : (state.transfers.any fun transfer => transfer.tokenType = .erc721 &&
      transfer.tokenAddress = Address.hex indexer.keccak256 address) = nft) :
    checkToken entry (newToken indexer raw state address result) = .ok () ↔
      (postgresText result.symbol = true ∧ fitsIndex entry [result.symbol] 0 = true) ∧
        result.name.all postgresText = true ∧ (nft = false → integer result.decimals = true) := by
  have zero : integer 0 = true := by decide
  unfold checkToken newToken
  simp only [kind, checkRow_cons, checkRow_nil, classifyNewToken, bigint_iff, header.number]
  cases nft <;> simp [zero] <;> grind

theorem fetchTokenMetadata_storable (indexer : Indexer) {raw : RawBlock} (header : StorableHeader raw)
    (state : Building) (address : Address) (nft : Bool) (kind : (state.transfers.any fun transfer => transfer.tokenType = .erc721 &&
      transfer.tokenAddress = Address.hex indexer.keccak256 address) = nft) :
    (∃ result, fetchTokenMetadata indexer.caller address = some result ∧
        ∀ token ∈ discovered indexer raw state address result, checkToken entry token = .ok ()) ↔
      StorableToken entry indexer.caller nft address := by
  have checks (result : TokenMetadataResult) := checkToken_newToken entry indexer header state address result nft kind
  have zero : integer 0 = true := by decide
  unfold fetchTokenMetadata StorableToken discovered
  cases first : indexer.caller.limiter address 0 with
  | false => simp
  | true =>
    rw [← symbolOf_text entry, ← nameOf_text]
    cases second : indexer.caller.limiter address 1 with
    | false =>
      cases symbolOf (indexer.caller.callContract address symbolCall) <;> simp [checks, zero]
    | true =>
      cases symbolOf (indexer.caller.callContract address symbolCall) with
      | none => simp
      | some symbol =>
        cases nameOf (indexer.caller.callContract address nameCall) with
        | none => simp
        | some name => cases third : indexer.caller.limiter address 2 <;> simp [checks, zero]

def transfersAsNFT (indexer : Indexer) (state : Building) (address : Address) : Bool :=
  state.transfers.any fun transfer => transfer.tokenType = .erc721 &&
    transfer.tokenAddress = Address.hex indexer.keccak256 address

theorem discoverTokens_storable (indexer : Indexer) {raw : RawBlock} (header : StorableHeader raw)
    (state : Building) :
    (∃ tokens, discoverTokens indexer raw state = some tokens ∧ ∀ token ∈ tokens, checkToken entry token = .ok ()) ↔
      (indexer.countersOnly = false → ∀ address ∈ state.newTokens.map Prod.fst,
        StorableToken entry indexer.caller (transfersAsNFT indexer state address) address) := by
  unfold discoverTokens
  cases indexer.countersOnly with
  | true => simp
  | false =>
    have every := exists_mapM_iff
      (fun address => (fetchTokenMetadata indexer.caller address).bind fun result => some (address, result))
      (fun found => ∀ token ∈ discovered indexer raw state found.1 found.2, checkToken entry token = .ok ())
      (state.newTokens.map Prod.fst)
    have one (address : Address) := fetchTokenMetadata_storable entry indexer header state address _ rfl
    simp only [Bool.false_eq_true, if_false, true_imp_iff]
    constructor
    · intro found address member
      obtain ⟨tokens, done, checked⟩ := found
      obtain ⟨metadata, fetched, done⟩ := Option.bind_eq_some_iff.mp done
      rw [Option.some.injEq] at done
      subst done
      have all : ∀ found ∈ metadata, ∀ token ∈ discovered indexer raw state found.1 found.2,
          checkToken entry token = .ok () := by
        intro found listed token produced
        exact checked token (mem_filterMap.mpr ⟨found, listed, produced⟩)
      obtain ⟨found, produced, good⟩ := every.mp ⟨metadata, fetched, all⟩ address member
      obtain ⟨result, read, same⟩ := Option.bind_eq_some_iff.mp produced
      rw [Option.some.injEq] at same
      subst same
      exact (one address).mp ⟨result, read, good⟩
    · intro storable
      obtain ⟨metadata, fetched, all⟩ := every.mpr (by
        intro address member
        obtain ⟨result, read, good⟩ := (one address).mpr (storable address member)
        exact ⟨(address, result), by rw [read, Option.bind_some], good⟩)
      refine ⟨_, Option.bind_eq_some_iff.mpr ⟨metadata, fetched, rfl⟩, ?_⟩
      intro token member
      obtain ⟨found, listed, produced⟩ := mem_filterMap.mp member
      exact all found listed token produced

/-! ## URIs -/

def StorableURI (caller : Caller) (request : (Address × Nat) × Nat) : Prop :=
  caller.uriLimiter request.2 = true →
    textReply (caller.callContract request.1.1 (tokenURICall ++ wordBytes request.1.2)) = true

theorem fetchTokenURI_text (caller : Caller) (address : Address) (tokenId position : Nat) :
    (∃ uri, fetchTokenURI caller position address tokenId = some uri ∧ uri.all postgresText = true) ↔
      StorableURI caller ((address, tokenId), position) := by
  unfold fetchTokenURI StorableURI
  cases caller.uriLimiter position with
  | false => simp
  | true =>
    rw [← nameOf_text]
    simp only [Bool.not_true, Bool.false_eq_true, if_false, true_imp_iff]
    unfold nameOf
    rfl

def resolveURI (indexer : Indexer) (nfts : List NFTToken) (entry : (Nat × Address × Nat) × Nat) :
    Option (List NFTToken) := do
  let uri ← fetchTokenURI indexer.caller entry.2 entry.1.2.1 entry.1.2.2
  some (match uri with
    | none => nfts
    | some uri => nfts.modify entry.1.1 fun nft => { nft with tokenURI := some uri })

theorem modify_uri_iff (nfts : List NFTToken) (row : Nat) (uri : Bytes) (inside : row < nfts.length)
    (blank : ∀ nft ∈ nfts[row]?, nft.tokenURI = none) :
    (∀ nft ∈ nfts.modify row (fun nft => { nft with tokenURI := some uri }), nft.tokenURI.all postgresText = true) ↔
      postgresText uri = true ∧ ∀ nft ∈ nfts, nft.tokenURI.all postgresText = true := by
  constructor
  · intro every
    constructor
    · have captured := every { nfts[row] with tokenURI := some uri } (mem_iff_getElem?.mpr ⟨row, by simp [inside]⟩)
      simpa using captured
    · intro nft member
      obtain ⟨index, found⟩ := mem_iff_getElem?.mp member
      by_cases same : row = index
      · rw [blank nft (same ▸ found)]
        rfl
      · exact every nft (mem_iff_getElem?.mpr ⟨index, by rw [List.getElem?_modify_ne _ _ same, found]⟩)
  · intro every nft member
    obtain ⟨index, found⟩ := mem_iff_getElem?.mp member
    by_cases same : row = index
    · rw [← same, List.getElem?_modify_eq] at found
      obtain ⟨old, _, rfl⟩ := Option.map_eq_some_iff.mp found
      simpa using every.1
    · rw [List.getElem?_modify_ne _ _ same] at found
      exact every.2 nft (mem_of_getElem? found)

theorem foldlM_resolveURI (indexer : Indexer) (entries : List ((Nat × Address × Nat) × Nat)) (nfts : List NFTToken)
    (distinct : (entries.map (·.1.1)).Nodup) (inside : ∀ entry ∈ entries, entry.1.1 < nfts.length)
    (blank : ∀ entry ∈ entries, ∀ nft ∈ nfts[entry.1.1]?, nft.tokenURI = none) :
    (∃ resolved, entries.foldlM (resolveURI indexer) nfts = some resolved ∧
        ∀ nft ∈ resolved, nft.tokenURI.all postgresText = true) ↔
      (∀ nft ∈ nfts, nft.tokenURI.all postgresText = true) ∧
        ∀ entry ∈ entries, StorableURI indexer.caller (entry.1.2, entry.2) := by
  induction entries generalizing nfts with
  | nil => simp
  | cons entry rest ih =>
    rw [map_cons, nodup_cons] at distinct
    rw [forall_mem_cons] at inside blank ⊢
    rw [foldlM_cons, ← fetchTokenURI_text]
    cases fetched : fetchTokenURI indexer.caller entry.2 entry.1.2.1 entry.1.2.2 with
    | none =>
      have stopped : resolveURI indexer nfts entry = none := by rw [resolveURI, fetched]; rfl
      rw [stopped]
      simp
    | some uri =>
      cases uri with
      | none =>
        have kept : resolveURI indexer nfts entry = some nfts := by rw [resolveURI, fetched]; rfl
        rw [kept, Option.bind_eq_bind, Option.bind_some, ih nfts distinct.2 inside.2 blank.2]
        simp
      | some text =>
        have captured : resolveURI indexer nfts entry =
            some (nfts.modify entry.1.1 fun nft => { nft with tokenURI := some text }) := by
          rw [resolveURI, fetched]; rfl
        rw [captured, Option.bind_eq_bind, Option.bind_some, ih _ distinct.2]
        · rw [modify_uri_iff nfts entry.1.1 text inside.1 blank.1]
          simp only [Option.some.injEq, exists_eq_left', Option.all_some]
          exact and_assoc.trans and_left_comm
        · intro other member
          rw [length_modify]
          exact inside.2 other member
        · intro other member nft found
          have apart : entry.1.1 ≠ other.1.1 := by
            intro same
            exact distinct.1 (mem_map.mpr ⟨other, member, same.symm⟩)
          rw [List.getElem?_modify_ne _ _ apart] at found
          exact blank.2 other member nft found

theorem resolveURIs_keys {indexer : Indexer} {state : Building} {nfts : List NFTToken}
    (resolved : resolveURIs indexer state = some nfts) :
    nfts.map (fun nft => (nft.tokenId, nft.blockNumber)) =
      state.nftTokens.map fun nft => (nft.tokenId, nft.blockNumber) := by
  unfold resolveURIs at resolved
  split at resolved
  · rw [← Option.some.inj resolved]
  · generalize state.uriRequests.zipIdx = entries at resolved
    generalize state.nftTokens = before at resolved ⊢
    induction entries generalizing before with
    | nil => rw [← Option.some.inj resolved]
    | cons entry rest ih =>
      rw [foldlM_cons] at resolved
      obtain ⟨next, first, later⟩ := Option.bind_eq_some_iff.mp resolved
      obtain ⟨uri, _, changed⟩ := Option.bind_eq_some_iff.mp first
      rw [ih next later, ← Option.some.inj changed]
      cases uri with
      | none => rfl
      | some uri =>
        refine ext_getElem? fun position => ?_
        rw [List.getElem?_map, List.getElem?_modify, List.getElem?_map]
        cases before[position]? with
        | none => rfl
        | some nft => by_cases same : entry.1.1 = position <;> simp [same]

theorem checkNFTToken_iff {raw : RawBlock} (header : StorableHeader raw) {nft : NFTToken}
    (key : nft.tokenId < 2 ^ 256 ∧ nft.blockNumber = raw.numberU64) :
    checkNFTToken nft = .ok () ↔ nft.tokenURI.all postgresText = true := by
  have id : nft.tokenId < 10 ^ 78 := key.1.trans (by norm_num)
  unfold checkNFTToken
  simp only [checkRow_cons, checkRow_nil, bigint_iff, key.2, header.number, id, decide_true, true_and, and_true]

theorem resolveURIs_storable (indexer : Indexer) {raw : RawBlock} (header : StorableHeader raw) (state : Building)
    (rows : RequestRows state)
    (keys : ∀ nft ∈ state.nftTokens, nft.tokenId < 2 ^ 256 ∧ nft.blockNumber = raw.numberU64) :
    (∃ nfts, resolveURIs indexer state = some nfts ∧ ∀ nft ∈ nfts, checkNFTToken nft = .ok ()) ↔
      (indexer.countersOnly = false → ∀ request ∈ (state.uriRequests.map Prod.snd).zipIdx,
        StorableURI indexer.caller request) := by
  have blank : ∀ nft ∈ state.nftTokens, nft.tokenURI.all postgresText = true := by
    intro nft member
    rw [rows.blank nft member]
    rfl
  have checks (nfts : List NFTToken) (resolved : resolveURIs indexer state = some nfts) :
      (∀ nft ∈ nfts, checkNFTToken nft = .ok ()) ↔ ∀ nft ∈ nfts, nft.tokenURI.all postgresText = true := by
    refine forall₂_congr fun nft member => checkNFTToken_iff header ?_
    have listed := mem_map_of_mem (f := fun nft : NFTToken => (nft.tokenId, nft.blockNumber)) member
    rw [resolveURIs_keys resolved] at listed
    obtain ⟨old, there, same⟩ := mem_map.mp listed
    rw [Prod.mk.injEq] at same
    rw [← same.1, ← same.2]
    exact keys old there
  rw [exists_congr fun nfts => and_congr_right (checks nfts)]
  unfold resolveURIs
  cases indexer.countersOnly with
  | true => simpa using blank
  | false =>
    have resolved := foldlM_resolveURI indexer state.uriRequests.zipIdx state.nftTokens
      (by
        have first : (state.uriRequests.zipIdx.map (·.1.1)) = state.uriRequests.map Prod.fst := by
          conv_rhs => rw [← zipIdx_map_fst 0 state.uriRequests, map_map]
          rfl
        rw [first]
        exact rows.distinct)
      (fun entry member => rows.inside entry.1 (fst_mem_of_mem_zipIdx member))
      (fun entry _ nft found => rows.blank nft (mem_of_getElem? found))
    rw [and_iff_right blank] at resolved
    simp only [Bool.false_eq_true, if_false, true_imp_iff]
    refine resolved.trans ?_
    rw [zipIdx_map]
    simp only [forall_mem_map]
    rfl

/-! ## The block -/

def nftInBlock (raw : RawBlock) (receipts : Hash → Option Receipt) (address : Address) : Bool :=
  raw.transactions.any fun tx => (logsOf receipts tx).any fun log => isNFTLog log && log.address = address

/-- Every number of the block and its receipts fits its column, every frame is in the domain of the columns it is
written to as it is, and every reply about the block's tokens is text and numbers that the columns take. -/
structure Storable (entry : List Bytes → Nat) (indexer : Indexer) (raw : RawBlock)
    (receipts : Hash → Option Receipt) : Prop where
  header : StorableHeader raw
  transactions : ∀ tx ∈ raw.transactions, StorableTransaction (receipts tx.hash) tx
  logs : ∀ tx ∈ raw.transactions, ∀ log ∈ logsOf receipts tx, log.index < 2 ^ 31 ∧ StorableTransfer log
  frames : ∀ frame ∈ framesOf indexer raw, checkInternal entry frame = .ok ()
  tokens : indexer.countersOnly = false → ∀ address,
    (∃ tx ∈ raw.transactions, ∃ log ∈ logsOf receipts tx, queues indexer address log) →
      StorableToken entry indexer.caller (nftInBlock raw receipts address) address
  uris : indexer.countersOnly = false → ∀ request ∈ (mintRequests raw receipts).zipIdx,
    StorableURI indexer.caller request

theorem recordFrames_queues (indexer : Indexer) (blockNumber : Nat) (frames : List InternalTransaction)
    (state : Building) :
    (recordFrames indexer blockNumber frames state).uriRequests = state.uriRequests ∧
      (recordFrames indexer blockNumber frames state).nftTokens = state.nftTokens ∧
      (recordFrames indexer blockNumber frames state).newTokens = state.newTokens := by
  have step (state : Building) (frame : InternalTransaction) :
      (recordFrameCreation indexer blockNumber state frame).uriRequests = state.uriRequests ∧
        (recordFrameCreation indexer blockNumber state frame).nftTokens = state.nftTokens ∧
        (recordFrameCreation indexer blockNumber state frame).newTokens = state.newTokens := by
    unfold recordFrameCreation
    dsimp only
    split <;> exact ⟨rfl, rfl, rfl⟩
  unfold recordFrames
  refine ⟨?_, ?_, ?_⟩
  · exact foldl_keep (·.uriRequests) _ (fun state frame => (step state frame).1) _ _
  · exact foldl_keep (·.nftTokens) _ (fun state frame => (step state frame).2.1) _ _
  · exact foldl_keep (·.newTokens) _ (fun state frame => (step state frame).2.2) _ _

theorem transfersAsNFT_eq (indexer : Indexer) (raw : RawBlock) (receipts : Hash → Option Receipt) (state : Building)
    (address : Address) (same : state.transfers = (recordTransactions indexer raw receipts).transfers) :
    transfersAsNFT indexer state address = nftInBlock raw receipts address := by
  unfold transfersAsNFT nftInBlock
  rw [same, recordTransactions_transfers, any_flatMap]
  congr 1
  funext tx
  rw [any_filterMap]
  congr 1
  funext log
  unfold transferOf
  rcases decodeTransfer_cases log with ⟨absent, _, nft, _⟩ | ⟨decoded, found, _, nft, _, kind, _, _⟩ |
    ⟨decoded, tokenId, found, _, nft, _, kind, _, _⟩
  · simp [absent, nft]
  · simp [found, nft, tokenTransferOf, kind]
  · simp [found, nft, tokenTransferOf, kind, Address.hex_inj]

def tracedState (indexer : Indexer) (raw : RawBlock) (receipts : Hash → Option Receipt) : Building :=
  recordFrames indexer raw.numberU64 (framesOf indexer raw) (recordTransactions indexer raw receipts)

/-- `buildBlock` leaves a result when both decoders do, and its tokens and NFT rows are what they leave. -/
theorem exists_buildBlock_iff (indexer : Indexer) (raw : RawBlock) (receipts : Hash → Option Receipt)
    (goodTokens : List Token → Prop) (goodNFTs : List NFTToken → Prop) :
    (∃ built, buildBlock indexer raw receipts = some built ∧ goodTokens built.data.tokens ∧
        goodNFTs built.data.nftTokens) ↔
      (∃ tokens, discoverTokens indexer raw (tracedState indexer raw receipts) = some tokens ∧ goodTokens tokens) ∧
        ∃ nfts, resolveURIs indexer (tracedState indexer raw receipts) = some nfts ∧ goodNFTs nfts := by
  unfold buildBlock tracedState
  dsimp only
  rw [recordTraces_eq]
  constructor
  · intro found
    obtain ⟨built, done, tokensGood, nftsGood⟩ := found
    obtain ⟨tokens, read, done⟩ := Option.bind_eq_some_iff.mp done
    obtain ⟨nfts, resolved, done⟩ := Option.bind_eq_some_iff.mp done
    cases done
    exact ⟨⟨tokens, read, tokensGood⟩, nfts, resolved, nftsGood⟩
  · intro found
    obtain ⟨⟨tokens, read, tokensGood⟩, nfts, resolved, nftsGood⟩ := found
    exact ⟨_, Option.bind_eq_some_iff.mpr ⟨tokens, read, Option.bind_eq_some_iff.mpr ⟨nfts, resolved, rfl⟩⟩,
      tokensGood, nftsGood⟩

theorem metadata_storable_iff (indexer : Indexer) {raw : RawBlock} (header : StorableHeader raw)
    (receipts : Hash → Option Receipt) :
    (∃ built, buildBlock indexer raw receipts = some built ∧
        (∀ token ∈ built.data.tokens, checkToken entry token = .ok ()) ∧
        ∀ nft ∈ built.data.nftTokens, checkNFTToken nft = .ok ()) ↔
      (indexer.countersOnly = false → ∀ address,
        (∃ tx ∈ raw.transactions, ∃ log ∈ logsOf receipts tx, queues indexer address log) →
          StorableToken entry indexer.caller (nftInBlock raw receipts address) address) ∧
        (indexer.countersOnly = false → ∀ request ∈ (mintRequests raw receipts).zipIdx,
          StorableURI indexer.caller request) := by
  obtain ⟨rows, requests⟩ := recordTransactions_requests indexer raw receipts
  have keys := recordTransactions_nfts indexer raw receipts
  obtain ⟨sameRequests, sameNFTs, sameTokens⟩ := recordFrames_queues indexer raw.numberU64 (framesOf indexer raw)
    (recordTransactions indexer raw receipts)
  have tracedRows : RequestRows (tracedState indexer raw receipts) := by
    unfold tracedState
    refine ⟨?_, ?_, ?_⟩
    · rw [sameRequests]
      exact rows.distinct
    · rw [sameRequests, sameNFTs]
      exact rows.inside
    · rw [sameNFTs]
      exact rows.blank
  have transfers := (recordFrames_rows indexer raw (framesOf indexer raw)
    (recordTransactions indexer raw receipts)).2.1
  rw [← sameNFTs] at keys
  rw [exists_buildBlock_iff indexer raw receipts (fun tokens => ∀ token ∈ tokens, checkToken entry token = .ok ())
    fun nfts => ∀ nft ∈ nfts, checkNFTToken nft = .ok (), discoverTokens_storable entry indexer header,
    resolveURIs_storable indexer header _ tracedRows keys]
  unfold tracedState
  rw [sameRequests, requests, sameTokens]
  simp only [transfersAsNFT_eq indexer raw receipts _ _ transfers, mem_newTokens]

section

variable {indexer : Indexer} {raw : RawBlock} {receipts : Hash → Option Receipt} {built : BuiltBlock}
  (header : StorableHeader raw) (done : buildBlock indexer raw receipts = some built)

include header done

theorem buildBlock_transactions_iff :
    (∀ tx ∈ built.data.transactions, checkTransaction tx = .ok ()) ↔
      ∀ tx ∈ raw.transactions, StorableTransaction (receipts tx.hash) tx := by
  have each : ∀ tx ∈ raw.transactions.zipIdx,
      (checkTransaction (transactionOf indexer raw.numberU64 (receipts tx.1.hash) tx.2 tx.1) = .ok () ↔
        StorableTransaction (receipts tx.1.hash) tx.1) := by
    intro tx listed
    exact checkTransaction_iff header indexer _ tx.2 tx.1 (snd_lt_of_mem_zipIdx listed)
  rw [(buildBlock_rows done).2.1, forall_mem_map, forall₂_congr each]
  conv_rhs => rw [← zipIdx_map_fst 0 raw.transactions, forall_mem_map]

theorem buildBlock_logs_iff :
    ((∀ log ∈ built.data.logs, checkLog log = .ok ()) ∧
        ∀ transfer ∈ built.data.transfers, checkTransfer transfer = .ok ()) ↔
      ∀ tx ∈ raw.transactions, ∀ log ∈ logsOf receipts tx, log.index < 2 ^ 31 ∧ StorableTransfer log := by
  rw [buildBlock_logs done, (buildBlock_rows done).2.2.1]
  simp only [mem_flatMap, mem_map, mem_filterMap]
  constructor
  · intro checked tx mined log logged
    have index := (checkLog_iff header indexer tx log).mp (checked.1 _ ⟨tx, mined, log, logged, rfl⟩)
    refine ⟨index, (checkTransfer_iff header indexer tx log index).mp ?_⟩
    intro transfer produced
    exact checked.2 transfer ⟨tx, mined, log, logged, produced⟩
  · intro storable
    constructor
    · intro row found
      obtain ⟨tx, mined, log, logged, rfl⟩ := found
      exact (checkLog_iff header indexer tx log).mpr (storable tx mined log logged).1
    · intro transfer found
      obtain ⟨tx, mined, log, logged, produced⟩ := found
      obtain ⟨index, fits⟩ := storable tx mined log logged
      exact (checkTransfer_iff header indexer tx log index).mpr fits transfer produced

end

theorem buildBlock_header_iff {indexer : Indexer} {raw : RawBlock} {receipts : Hash → Option Receipt}
    {built : BuiltBlock} (done : buildBlock indexer raw receipts = some built) :
    (∀ block ∈ built.data.block, checkBlock block = .ok ()) ↔ StorableHeader raw := by
  rw [(buildBlock_rows done).1, ← checkBlock_iff indexer]
  simp only [Option.mem_def, Option.some.injEq, forall_eq']

/-- `buildBlock` leaves rows whose values all fit their columns and indexes exactly for the storable inputs, and such
rows are never refused for a value, whatever else the store holds. -/
theorem buildBlock_inDomain_iff (entry : List Bytes → Nat) (indexer : Indexer) (raw : RawBlock)
    (receipts : Hash → Option Receipt) :
    ((∃ built, buildBlock indexer raw receipts = some built ∧ InDomain entry built.data) ↔
        Storable entry indexer raw receipts) ∧
      ∀ built, buildBlock indexer raw receipts = some built → InDomain entry built.data →
        ∀ partitionOf store failure, store.indexEntry = entry →
          insertBlockDataBatch partitionOf built.data store = .error failure → failure.ofValue = false := by
  constructor
  · constructor
    · intro found
      obtain ⟨built, done, inside⟩ := found
      have header := (buildBlock_header_iff done).mp inside.block
      obtain ⟨tokens, uris⟩ := (metadata_storable_iff entry indexer header receipts).mp
        ⟨built, done, inside.tokens, inside.nftTokens⟩
      exact
        { header := header
          transactions := (buildBlock_transactions_iff header done).mp inside.transactions
          logs := (buildBlock_logs_iff header done).mp ⟨inside.logs, inside.transfers⟩
          frames := (buildBlock_rows done).2.2.2.1 ▸ inside.frames
          tokens := tokens
          uris := uris }
    · intro storable
      have header := storable.header
      obtain ⟨built, done, tokens, nfts⟩ := (metadata_storable_iff entry indexer header receipts).mpr
        ⟨storable.tokens, storable.uris⟩
      obtain ⟨logs, transfers⟩ := (buildBlock_logs_iff header done).mpr storable.logs
      exact ⟨built, done,
        { block := (buildBlock_header_iff done).mpr header
          transactions := (buildBlock_transactions_iff header done).mpr storable.transactions
          logs := logs
          transfers := transfers
          frames := (buildBlock_rows done).2.2.2.1.symm ▸ storable.frames
          tokens := tokens
          nftTokens := nfts }⟩
  · intro built done inside partitionOf store failure configured refused
    refine insertBlockDataBatch_error (configured ▸ inside) ?_ refused
    intro transfer member
    rw [(buildBlock_rows done).2.2.1] at member
    obtain ⟨tx, _, member⟩ := mem_flatMap.mp member
    obtain ⟨log, _, produced⟩ := mem_filterMap.mp member
    obtain ⟨decoded, _, rfl⟩ := Option.map_eq_some_iff.mp produced
    exact ⟨decoded.value, rfl⟩

/-! ## A log with a long amount -/

def longAmount (_ : Hash) : Option Receipt :=
  some { status := 1, logs := [{ address := 0xc, topics := [transferTopic, 0xa, 0xb]
                                 data := List.replicate 33 0xff, index := 0 }] }

theorem longAmount_refused :
    (buildBlock plainNode (callBlock []) longAmount).map
        (fun built => (insertBlockDataBatch id built.data {}).isOk) = some false ∧
      (buildBlock plainNode (callBlock []) longAmount).map
        (fun built => built.data.transfers.map checkTransfer) =
          some [.error (.outOfDomain .tokenTransfersValue)] := by
  decide +kernel

end OpsIndexer.Indexing
