import OpsIndexer.Indexer.AddressStats
import OpsIndexer.Indexer.InternalCreations
import OpsIndexer.Rpc.TokenMetadata
import OpsIndexer.Rpc.Trace

/-!
# From a raw block to its rows

`buildBlock`: one pass over the transactions with their receipts, then the traces, then the metadata of tokens seen
for the first time and the URIs of minted NFTs. What the indexer reads besides the block (the node's code, traces and
calls, its two caches, its configuration) is the `Indexer` record. A decoder panic leaves no result.
-/

namespace OpsIndexer.Indexing

open Eth OpsIndexer.Types Db Rpc

/-- `eth_getCode` at a block: the code, the node's refusal to answer for the block, or any other failure. -/
inductive CodeReply where
  | code (bytes : Bytes)
  | refused
  | failed

structure Indexer where
  keccak256 : Bytes → Hash
  tracingSupported : Bool
  codeAtBlock : Bool
  countersOnly : Bool
  skipAddressStats : Bool
  skipReceiptTxTypes : List Int
  getCode : Address → Option Bytes
  getCodeAt : Address → Nat → CodeReply
  fetchTraces : List Hash → Nat → Nat → Option (List InternalTransaction)
  caller : Caller
  contractCache : List String
  tokenCache : List String

/-- The epoch is the reorg epoch the read was decided in; the pool stamps it when the caller leaves it 0. -/
structure BalanceWork where
  address : Address
  tokenAddress : Address
  blockNumber : Nat
  epoch : Nat := 0
  deriving DecidableEq, Repr

/-- What `buildBlock` accumulates. A token's address is listed with the transaction it was first seen in, and a URI
request with the index of the NFT row it belongs to. -/
structure Building where
  transactions : List Transaction := []
  logs : List Log := []
  transfers : List TokenTransfer := []
  contracts : List Contract := []
  nftTokens : List NFTToken := []
  internalTransactions : List InternalTransaction := []
  counts : AddressCounts := {}
  newTokens : List (Address × String) := []
  uriRequests : List (Nat × Address × Nat) := []
  balanceWork : List BalanceWork := []
  contractCache : List String := []
  codeErr : Bool := false

def transferTopic : Hash := 0xddf252ad1be2c89b69c2b068fc378daa952ba7f163c4a11628f55a4df523b3ef

def contractCode (indexer : Indexer) (address : Address) (block : Nat) : Option Bytes :=
  if indexer.codeAtBlock then
    match indexer.getCodeAt address block with
    | .code bytes => some bytes
    | .failed => none
    | .refused =>
      match indexer.getCode address with
      | none => none
      | some [] => none
      | some code => some code
  else indexer.getCode address

def rawTxType (raw : RawTransaction) : Int :=
  (raw.type : Int).bmod (2 ^ 64)

def transactionOf (indexer : Indexer) (blockNumber : Nat) (receipt : Option Receipt) (index : Nat)
    (raw : RawTransaction) : Transaction where
  hash := Hash.hex raw.hash
  blockNumber := blockNumber
  txIndex := index
  fromAddress := Address.hex indexer.keccak256 raw.fromAddress
  toAddress := raw.toAddress.map (Address.hex indexer.keccak256)
  contractAddress :=
    match receipt with
    | none => none
    | some receipt =>
      if raw.toAddress.isNone ∧ receipt.contractAddress ≠ 0 then
        some (Address.hex indexer.keccak256 receipt.contractAddress)
      else none
  value := .decimal (raw.value.getD 0)
  gasUsed := (receipt.map (·.gasUsed)).getD raw.gas
  gasPrice := (raw.gasPrice.map uint64).getD 0
  gasLimit := some raw.gas
  maxFeePerGas := raw.maxFeePerGas.map uint64
  maxPriorityFeePerGas := raw.maxPriorityFeePerGas.map uint64
  nonce := some (raw.nonce.getD 0)
  txType := rawTxType raw
  inputData := bytes2Hex raw.input
  status := (receipt.map fun receipt => (receipt.status : Int).bmod (2 ^ 64)).getD 1
  error :=
    match receipt with
    | none => none
    | some receipt => if receipt.status = 0 then some "transaction reverted" else none

def touchParties (indexer : Indexer) (blockNumber index : Nat) (cache : List String) (raw : RawTransaction)
    (counts : AddressCounts) : AddressCounts :=
  let sender := touchAddressTx counts (Address.hex indexer.keccak256 raw.fromAddress) index blockNumber fun delta =>
    { delta with sentDelta := delta.sentDelta + if bumpsNonce (rawTxType raw) then 1 else 0 }
  match raw.toAddress with
  | none => sender
  | some address =>
    touchAddressTx sender (Address.hex indexer.keccak256 address) index blockNumber fun delta =>
      { delta with isContract := delta.isContract || cache.contains (Address.key address) }

/-- A creation the receipt names: it deployed nothing when it reverted. -/
def createdAddress (receipt : Option Receipt) (raw : RawTransaction) : Option Address :=
  match receipt with
  | none => none
  | some receipt =>
    if raw.toAddress.isNone ∧ receipt.contractAddress ≠ 0 ∧ receipt.status ≠ 0 then some receipt.contractAddress
    else none

def createdContract (indexer : Indexer) (blockNumber : Nat) (raw : RawTransaction) (address : Address)
    (code : Bytes) : Contract where
  address := Address.hex indexer.keccak256 address
  bytecode := bytes2Hex code
  bytecodeHash := some (Hash.hex (bytesToHash (fromHex (bytes2Hex code))))
  creator := Address.hex indexer.keccak256 raw.fromAddress
  creationTx := Hash.hex raw.hash
  blockNumber := blockNumber

def flagContract (delta : AddressStatsDelta) : AddressStatsDelta :=
  { delta with isContract := true }

def recordCreation (indexer : Indexer) (blockNumber : Nat) (receipt : Option Receipt) (raw : RawTransaction)
    (state : Building) : Building :=
  match createdAddress receipt raw with
  | none => state
  | some address =>
    match contractCode indexer address blockNumber with
    | none => { state with codeErr := state.codeErr || indexer.codeAtBlock }
    | some [] => state
    | some code =>
      { state with
        contracts := state.contracts ++ [createdContract indexer blockNumber raw address code]
        contractCache := state.contractCache ++ [Address.key address]
        counts := addressDelta state.counts (Address.hex indexer.keccak256 address) blockNumber flagContract }

/-! ## Logs and transfers -/

def logOf (indexer : Indexer) (raw : RawBlock) (txHash : String) (log : ReceiptLog) : Log where
  txHash := txHash
  logIndex := log.index
  address := Address.hex indexer.keccak256 log.address
  topic0 := log.topics[0]?.map Hash.hex
  topic1 := log.topics[1]?.map Hash.hex
  topic2 := log.topics[2]?.map Hash.hex
  topic3 := log.topics[3]?.map Hash.hex
  data := bytes2Hex log.data
  blockNumber := raw.numberU64
  timestamp := some raw.timestamp
  removed := log.removed

structure DecodedTransfer where
  fromAddr : Address
  toAddr : Address
  transferType : TransferType
  tokenType : TokenType
  tokenId : Option Nat
  value : Nat

def transferTypeOf (fromAddr toAddr : Address) : TransferType :=
  if fromAddr = 0 then .mint else if toAddr = 0 then .burn else .transfer

def decodeTransfer (log : ReceiptLog) : Option DecodedTransfer :=
  match log.topics with
  | topic0 :: topic1 :: topic2 :: rest =>
    if topic0 = transferTopic then
      let fromAddr := Hash.toAddress topic1
      let toAddr := Hash.toAddress topic2
      some (match rest with
        | [topic3] => ⟨fromAddr, toAddr, transferTypeOf fromAddr toAddr, .erc721, some topic3.toNat, 1⟩
        | _ => ⟨fromAddr, toAddr, transferTypeOf fromAddr toAddr, .erc20, none, setBytes log.data⟩)
    else none
  | _ => none

def tokenTransferOf (indexer : Indexer) (raw : RawBlock) (txHash : String) (log : ReceiptLog)
    (decoded : DecodedTransfer) : TokenTransfer where
  txHash := txHash
  logIndex := log.index
  tokenAddress := Address.hex indexer.keccak256 log.address
  fromAddress := Address.hex indexer.keccak256 decoded.fromAddr
  toAddress := Address.hex indexer.keccak256 decoded.toAddr
  value := .decimal decoded.value
  blockNumber := raw.numberU64
  timestamp := some raw.timestamp
  transferType := decoded.transferType
  tokenType := decoded.tokenType
  tokenId := decoded.tokenId
  isInternal := false

def recordNFT (indexer : Indexer) (raw : RawBlock) (log : ReceiptLog) (decoded : DecodedTransfer)
    (state : Building) : Building :=
  match decoded.tokenType, decoded.tokenId with
  | .erc721, some tokenId =>
    { state with
      nftTokens := state.nftTokens ++
        [{ tokenAddress := Address.hex indexer.keccak256 log.address, tokenId := tokenId
           owner := Address.hex indexer.keccak256 decoded.toAddr, tokenURI := none, blockNumber := raw.numberU64 }]
      uriRequests :=
        if decoded.transferType = .mint then
          state.uriRequests ++ [(state.nftTokens.length, log.address, tokenId)]
        else state.uriRequests }
  | _, _ => state

def recordBalanceWork (raw : RawBlock) (log : ReceiptLog) (address : Address) (state : Building) : Building :=
  if address = 0 then state
  else { state with balanceWork := state.balanceWork ++ [⟨address, log.address, raw.numberU64, 0⟩] }

def queueToken (indexer : Indexer) (txHash : String) (address : Address) (state : Building) : Building :=
  if indexer.tokenCache.contains (Address.key address) || state.newTokens.any (fun entry => entry.1 = address) then
    state
  else { state with newTokens := state.newTokens ++ [(address, txHash)] }

def countParticipants (indexer : Indexer) (index : Nat) (raw : RawBlock) (decoded : DecodedTransfer)
    (counts : AddressCounts) : AddressCounts :=
  let sender := countTransferParticipant indexer.keccak256 counts decoded.fromAddr index raw.numberU64
  if decoded.toAddr = decoded.fromAddr then sender
  else countTransferParticipant indexer.keccak256 sender decoded.toAddr index raw.numberU64

def recordTransfer (indexer : Indexer) (raw : RawBlock) (index : Nat) (txHash : String) (log : ReceiptLog)
    (decoded : DecodedTransfer) (state : Building) : Building :=
  let state :=
    { state with transfers := state.transfers ++ [tokenTransferOf indexer raw txHash log decoded] }
  let state := recordNFT indexer raw log decoded state
  let state := recordBalanceWork raw log decoded.fromAddr state
  let state := recordBalanceWork raw log decoded.toAddr state
  let state := queueToken indexer txHash log.address state
  { state with counts := countParticipants indexer index raw decoded state.counts }

def recordLog (indexer : Indexer) (raw : RawBlock) (index : Nat) (txHash : String) (state : Building)
    (log : ReceiptLog) : Building :=
  let state := { state with logs := state.logs ++ [logOf indexer raw txHash log] }
  match decodeTransfer log with
  | none => state
  | some decoded => recordTransfer indexer raw index txHash log decoded state

def recordTransaction (indexer : Indexer) (raw : RawBlock) (receipts : Hash → Option Receipt) (state : Building)
    (entry : RawTransaction × Nat) : Building :=
  let (tx, index) := entry
  let receipt := receipts tx.hash
  let state :=
    { state with
      transactions := state.transactions ++ [transactionOf indexer raw.numberU64 receipt index tx]
      counts := touchParties indexer raw.numberU64 index state.contractCache tx state.counts }
  let state := recordCreation indexer raw.numberU64 receipt tx state
  ((receipt.map (·.logs)).getD []).foldl (recordLog indexer raw index (Hash.hex tx.hash)) state

/-! ## Traces -/

def receiptTxHashes (indexer : Indexer) (raw : RawBlock) : List Hash :=
  (raw.transactions.filter fun tx => !indexer.skipReceiptTxTypes.contains (rawTxType tx)).map (·.hash)

def countInternal (delta : AddressStatsDelta) : AddressStatsDelta :=
  { delta with internalTxCountDelta := delta.internalTxCountDelta + 1 }

def countFrame (blockNumber : Nat) (counts : AddressCounts) (frame : InternalTransaction) : AddressCounts :=
  let caller := addressDelta counts frame.fromAddress blockNumber countInternal
  match frame.toAddress with
  | none => caller
  | some address =>
    if lower address = lower frame.fromAddress then caller
    else addressDelta caller address blockNumber countInternal

def recordFrameCreation (indexer : Indexer) (blockNumber : Nat) (state : Building) (frame : InternalTransaction) :
    Building :=
  let getCode := fun address => contractCode indexer address blockNumber
  match contractFromCreation getCode frame blockNumber with
  | none =>
    let unread := outputCode frame.output = "" && (getCode (hexToAddress (frame.toAddress.getD ""))).isNone
    { state with codeErr := state.codeErr || indexer.codeAtBlock && unread }
  | some contract =>
    { state with
      contracts := state.contracts ++ [contract]
      contractCache := state.contractCache ++ [contract.address]
      counts := addressDelta state.counts contract.address blockNumber flagContract }

def recordFrames (indexer : Indexer) (blockNumber : Nat) (frames : List InternalTransaction) (state : Building) :
    Building :=
  (internalCreations frames).foldl (recordFrameCreation indexer blockNumber)
    { state with
      internalTransactions := frames
      counts := frames.foldl (countFrame blockNumber) state.counts }

def recordTraces (indexer : Indexer) (raw : RawBlock) (state : Building) : Building × Bool :=
  let txHashes := receiptTxHashes indexer raw
  if indexer.tracingSupported && !txHashes.isEmpty then
    match indexer.fetchTraces txHashes raw.numberU64 raw.timestamp with
    | none => (state, true)
    | some frames => (recordFrames indexer raw.numberU64 frames state, false)
  else (state, false)

/-! ## Metadata -/

def classifyNewToken (isERC721 : Bool) (metaDecimals : Int) : TokenType × Int :=
  if isERC721 then (.erc721, 0) else (.erc20, metaDecimals)

def newToken (indexer : Indexer) (raw : RawBlock) (state : Building) (address : Address)
    (result : TokenMetadataResult) : Token :=
  let text := Address.hex indexer.keccak256 address
  let isERC721 := state.transfers.any fun transfer =>
    transfer.tokenType = .erc721 && transfer.tokenAddress = text
  let classified := classifyNewToken isERC721 result.decimals
  { address := text
    symbol := result.symbol
    name := result.name
    decimals := classified.2
    tokenType := classified.1
    blockNumber := raw.numberU64
    creationTx := state.newTokens.lookup address }

def discoverTokens (indexer : Indexer) (raw : RawBlock) (state : Building) : Option (List Token) :=
  if indexer.countersOnly then some []
  else do
    let metadata ← fetchTokenMetadataBatch indexer.caller (state.newTokens.map Prod.fst)
    some (metadata.filterMap fun (address, result) =>
      if result.failed then none else some (newToken indexer raw state address result))

def resolveURIs (indexer : Indexer) (state : Building) : Option (List NFTToken) :=
  if indexer.countersOnly then some state.nftTokens
  else state.uriRequests.zipIdx.foldlM (fun nfts ((row, address, tokenId), position) => do
    let uri ← fetchTokenURI indexer.caller position address tokenId
    some (match uri with
      | none => nfts
      | some uri => nfts.modify row fun nft => { nft with tokenURI := some uri })) state.nftTokens

def blockOf (indexer : Indexer) (raw : RawBlock) : Block where
  number := raw.numberU64
  hash := Hash.hex raw.hash
  parentHash := Hash.hex raw.parentHash
  timestamp := raw.timestamp
  gasUsed := raw.gasUsed
  gasLimit := raw.gasLimit
  baseFeePerGas := raw.baseFeeU64
  transactionCount := raw.transactions.length
  size := raw.size
  difficulty := raw.difficultyString
  totalDifficulty := raw.totalDifficultyString
  nonce := raw.nonceHex
  miner := Address.hex indexer.keccak256 raw.miner
  extraData := bytes2Hex raw.extraData
  stateRoot := Hash.hex raw.stateRoot
  transactionsRoot := Hash.hex raw.transactionsRoot
  receiptsRoot := Hash.hex raw.receiptsRoot

structure BuiltBlock where
  data : BlockData
  balanceWork : List BalanceWork
  discovered : List String
  contractCache : List String
  tracesErr : Bool
  codeErr : Bool

def recordTransactions (indexer : Indexer) (raw : RawBlock) (receipts : Hash → Option Receipt) : Building :=
  let state := raw.transactions.zipIdx.foldl (recordTransaction indexer raw receipts)
    { contractCache := indexer.contractCache }
  { state with counts := addTxCounts state.counts }

def buildBlock (indexer : Indexer) (raw : RawBlock) (receipts : Hash → Option Receipt) : Option BuiltBlock := do
  let (state, tracesErr) := recordTraces indexer raw (recordTransactions indexer raw receipts)
  let tokens ← discoverTokens indexer raw state
  let nftTokens ← resolveURIs indexer state
  some
    { data :=
        { block := some (blockOf indexer raw)
          transactions := state.transactions
          logs := state.logs
          transfers := state.transfers
          contracts := state.contracts
          tokens := tokens
          nftTokens := nftTokens
          internalTransactions := state.internalTransactions
          addressStats := state.counts.stats
          skipAddressStats := indexer.skipAddressStats }
      balanceWork := state.balanceWork
      discovered := tokens.map (·.address)
      contractCache := state.contractCache
      tracesErr := tracesErr
      codeErr := state.codeErr }

/-! ## A node that answers nothing, and a block of one call -/

def plainNode : Indexer where
  keccak256 := fun _ => 0
  tracingSupported := false
  codeAtBlock := false
  countersOnly := false
  skipAddressStats := false
  skipReceiptTxTypes := []
  getCode := fun _ => none
  getCodeAt := fun _ _ => .refused
  fetchTraces := fun _ _ _ => none
  caller := { callContract := fun _ _ => none }
  contractCache := []
  tokenCache := []

def plainCall (input : Bytes) : RawTransaction :=
  { hash := 1, fromAddress := 0xa, toAddress := some 0xb, input := input }

def callBlock (input : Bytes) : RawBlock where
  number := some 7
  hash := 70
  parentHash := 60
  transactions := [plainCall input]

end OpsIndexer.Indexing
