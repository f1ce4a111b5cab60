import OpsIndexer.Db.BlockWrite

/-!
# The rows blocks share, and the whole write

`writeSharedRows` and `Finish`: contracts, tokens with their seed and deltas, NFT owners, address statistics and the
chain counters. A token's row is created with zeroed counters and then seeded from every stored transfer, the
block's own included, so the block's delta for it is dropped.
-/

namespace OpsIndexer.Db

open Eth OpsIndexer.Types Lib.Table

def numeric78Max : Int := 10 ^ 78 - 1

def clampSupply (supply : Int) : Int :=
  min (max supply (-numeric78Max)) numeric78Max

/-! ## Contracts -/

def contractRow (contract : Contract) : Contract :=
  { contract with address := lower contract.address }

def contractConflicts (written row : Contract) : Bool :=
  row.address = written.address

def insertContracts (contracts : List Contract) (table : List Contract) : List Contract :=
  insertAll id contractConflicts (insertAll contractRow contractConflicts contracts []) table

/-! ## Tokens -/

def tokenRow (token : Token) : TokenRow where
  address := lower token.address
  symbol := token.symbol
  name := token.name
  decimals := token.decimals
  tokenType := token.tokenType
  totalSupply := token.totalSupply.bind numeric78
  transferCount := 0
  blockNumber := token.blockNumber
  creationTx := token.creationTx

def checkToken (entry : List Bytes → Nat) (token : Token) : Except WriteError Unit :=
  checkRow
    [(.tokensSymbol, postgresText token.symbol), (.tokensName, token.name.all postgresText),
      (.tokensDecimals, integer token.decimals),
      (.tokensTotalSupply, token.totalSupply.all fun supply => (numeric78 supply).isSome),
      (.tokensBlockNumber, bigint token.blockNumber), (.tokensSymbolIndex, fitsIndex entry [token.symbol] 0)]

/-- `ON CONFLICT (address) DO UPDATE`: a type is promoted, never downgraded to ERC20. -/
def mergeToken (token : Token) (row : TokenRow) : TokenRow :=
  { row with
    symbol := token.symbol
    name := token.name.or row.name
    decimals := token.decimals
    tokenType := if token.tokenType ≠ .erc20 then token.tokenType else row.tokenType
    totalSupply := (token.totalSupply.bind numeric78).or row.totalSupply
    creationTx := if token.blockNumber < row.blockNumber then token.creationTx else row.creationTx
    blockNumber := min row.blockNumber token.blockNumber }

/-- One token's upsert; the second part collects the addresses whose row is new. -/
def upsertToken (tables : List TokenRow × List String) (token : Token) : List TokenRow × List String :=
  if tables.1.any (fun row => row.address = lower token.address) then
    (updateKey (·.address) (lower token.address) (mergeToken token) tables.1, tables.2)
  else (tables.1 ++ [tokenRow token], tables.2 ++ [lower token.address])

def minted (row : TransferRow) : Int :=
  if row.tokenType = .erc20 ∧ row.fromAddress = zeroAddress then row.value else 0

def burned (row : TransferRow) : Int :=
  if row.tokenType = .erc20 ∧ row.toAddress = zeroAddress then row.value else 0

def netSupply (rows : List TransferRow) : Int :=
  (rows.map minted).sum - (rows.map burned).sum

def transfersOf (rows : List TransferRow) (token : String) : List TransferRow :=
  rows.filter fun row => row.tokenAddress = token

def tokenCounted (rows : List TransferRow) (token : String) : Int × Int :=
  ((transfersOf rows token).length, netSupply (transfersOf rows token))

def seedToken (transfers : List TransferRow) (row : TokenRow) : TokenRow :=
  let counted := tokenCounted transfers row.address
  { row with
    transferCount := counted.1
    totalSupply := if row.tokenType = .erc20 then some (clampSupply counted.2) else row.totalSupply }

def applyDelta (delta : TokenStatsDelta) (row : TokenRow) : TokenRow :=
  { row with
    transferCount := row.transferCount + delta.transferDelta
    totalSupply :=
      if row.tokenType = .erc20 then some (clampSupply (row.totalSupply.getD 0 + delta.supplyDelta))
      else row.totalSupply }

def seedTokens (transfers : List TransferRow) (seeds : List String) (tokens : List TokenRow) : List TokenRow :=
  updateKeys (·.address) (seeds.map fun address => (address, seedToken transfers)) tokens

def applyDeltas (deltas : TokenDeltas) (tokens : List TokenRow) : List TokenRow :=
  updateKeys (·.address) (deltas.entries.map fun entry => (entry.1, applyDelta entry.2)) tokens

/-! ## NFT owners -/

def checkNFTToken (nft : NFTToken) : Except WriteError Unit :=
  checkRow
    [(.nftTokensTokenId, nft.tokenId < 10 ^ 78), (.nftTokensTokenURI, nft.tokenURI.all postgresText),
      (.nftTokensBlockNumber, bigint nft.blockNumber)]

def nftTokenRow (nft : NFTToken) : NFTTokenRow where
  tokenAddress := nft.tokenAddress
  tokenId := nft.tokenId
  owner := nft.owner
  tokenURI := nft.tokenURI
  blockNumber := nft.blockNumber

def mergeNFTToken (nft row : NFTTokenRow) : NFTTokenRow :=
  { row with
    owner := if row.blockNumber ≤ nft.blockNumber then nft.owner else row.owner
    tokenURI := row.tokenURI.or nft.tokenURI
    blockNumber := max row.blockNumber nft.blockNumber }

def nftKey (row : NFTTokenRow) : String × Nat :=
  (row.tokenAddress, row.tokenId)

def upsertNFTToken (table : List NFTTokenRow) (nft : NFTToken) : List NFTTokenRow :=
  let written := nftTokenRow nft
  if table.any (fun row => nftKey row = nftKey written) then
    updateKey nftKey (nftKey written) (mergeNFTToken written) table
  else table ++ [written]

/-! ## Address statistics -/

def addressStatsRow (delta : AddressStatsDelta) : AddressStatsRow where
  address := lower delta.address
  txCount := delta.txCountDelta
  internalTxCount := delta.internalTxCountDelta
  tokenTransferCount := delta.tokenTransferDelta
  sentCount := delta.sentDelta
  firstSeen := delta.blockNumber
  lastSeen := max delta.blockNumber delta.lastBlock
  isContract := delta.isContract

def mergeAddressStats (delta : AddressStatsDelta) (row : AddressStatsRow) : AddressStatsRow :=
  { row with
    txCount := row.txCount + delta.txCountDelta
    internalTxCount := row.internalTxCount + delta.internalTxCountDelta
    tokenTransferCount := row.tokenTransferCount + delta.tokenTransferDelta
    sentCount := row.sentCount + delta.sentDelta
    firstSeen := min row.firstSeen delta.blockNumber
    lastSeen := max row.lastSeen (max delta.blockNumber delta.lastBlock)
    isContract := row.isContract || delta.isContract }

def upsertAddressStats (tables : List AddressStatsRow × Nat) (delta : AddressStatsDelta) :
    List AddressStatsRow × Nat :=
  if tables.1.any (fun row => row.address = lower delta.address) then
    (updateKey (·.address) (lower delta.address) (mergeAddressStats delta) tables.1, tables.2)
  else (tables.1 ++ [addressStatsRow delta], tables.2 + 1)

/-! ## The chain counters and the write as a whole -/

abbrev ChainCounters := AList (fun _ : CounterName => Int)

/-- `ON CONFLICT (name) DO UPDATE SET count = count + EXCLUDED.count`. -/
def addCounter (counters : ChainCounters) (entry : CounterName × Int) : ChainCounters :=
  counters.insert entry.1 ((counters.lookup entry.1).getD 0 + entry.2)

structure SharedRows where
  data : BlockData
  blocks : Nat
  txs : Nat
  transfers : Nat
  tokenDeltas : TokenDeltas
  seedCountsOwnRows : Bool

def upsertTokens (data : BlockData) (tokens : List TokenRow) : List TokenRow × List String :=
  data.tokens.foldl upsertToken (tokens, [])

def writeAddressStats (data : BlockData) (table : List AddressStatsRow) : List AddressStatsRow × Nat :=
  if data.skipAddressStats then (table, 0)
  else (data.addressStats.entries.map Sigma.snd).foldl upsertAddressStats (table, 0)

def writeSharedRows (shared : SharedRows) (tx : Store) : Except WriteError Store := do
  let data := shared.data
  data.tokens.forM (checkToken tx.indexEntry)
  let upserted := upsertTokens data tx.tokens
  data.nftTokens.forM checkNFTToken
  let tokenDeltas :=
    if shared.seedCountsOwnRows then
      upserted.2.foldl (fun deltas address => deltas.erase address) shared.tokenDeltas
    else shared.tokenDeltas
  let addresses := writeAddressStats data tx.addressStats
  let moved : Bool := shared.blocks ≠ 0 || shared.txs ≠ 0 || upserted.2.length ≠ 0 || addresses.2 ≠ 0 ||
    shared.transfers ≠ 0
  .ok { tx with
    contracts := insertContracts data.contracts tx.contracts
    tokens := applyDeltas tokenDeltas (seedTokens tx.tokenTransfers upserted.2 upserted.1)
    nftTokens := data.nftTokens.foldl upsertNFTToken tx.nftTokens
    addressStats := addresses.1
    chainCounters :=
      if moved then
        [(.blocksTotal, (shared.blocks : Int)), (.transactionsTotal, (shared.txs : Int)),
          (.tokensTotal, (upserted.2.length : Int)), (.addressesTotal, (addresses.2 : Int)),
          (.transfersTotal, (shared.transfers : Int))].foldl addCounter tx.chainCounters
      else tx.chainCounters }

def finish (store : Store) : BlockWrite → Except WriteError Store
  | .stored => .ok store
  | .opened write =>
    writeSharedRows
      { data := write.data, blocks := write.deltaBlocks, txs := write.deltaTxs, transfers := write.deltaTransfers,
        tokenDeltas := write.tokenDeltas, seedCountsOwnRows := true } write.tx

def insertBlockDataBatch (partitionOf : Nat → Nat) (data : BlockData) (store : Store) :
    Except WriteError Store := do
  let write ← beginBlockData partitionOf data store
  finish store write

def insertBlock (partitionOf : Nat → Nat) (block : Block) (store : Store) : Except WriteError Store := do
  checkBlock block
  if store.blocks.any (blockConflicts partitionOf block) then
    storedBlockDiffers store block
    .ok store
  else
    .ok { store with
      blocks := store.blocks ++ [block]
      chainCounters := addCounter store.chainCounters (.blocksTotal, 1) }

end OpsIndexer.Db
