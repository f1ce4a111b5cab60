import OpsIndexer.Lib.Table
import OpsIndexer.Types

/-!
# The store's tables

The tables a block's write and its revert touch, with the keys and column domains the migrations give them. History
tables are partitioned by block number, so their hash keys hold within one partition only. Nothing is pruned here, no
ledger span is closed, and balances are left out. Texts are taken to be shorter than the gigabyte a row may have.
-/

namespace OpsIndexer.Db

open Eth OpsIndexer.Types

def zeroAddress : String := "0x0000000000000000000000000000000000000000"

/-- A column that refuses a value, or an index that refuses an entry. -/
inductive Column where
  | blocksNumber
  | blocksTimestamp
  | blocksGasUsed
  | blocksGasLimit
  | blocksBaseFeePerGas
  | blocksTransactionCount
  | blocksSize
  | transactionsBlockNumber
  | transactionsTxIndex
  | transactionsValue
  | transactionsGasUsed
  | transactionsGasPrice
  | transactionsGasLimit
  | transactionsMaxFeePerGas
  | transactionsMaxPriorityFeePerGas
  | transactionsNonce
  | transactionsTxType
  | transactionsStatus
  | logsLogIndex
  | logsBlockNumber
  | logsTimestamp
  | tokenTransfersLogIndex
  | tokenTransfersValue
  | tokenTransfersBlockNumber
  | tokenTransfersTimestamp
  | tokenTransfersTokenId
  | internalTransactionsBlockNumber
  | internalTransactionsFromAddress
  | internalTransactionsToAddress
  | internalTransactionsValue
  | internalTransactionsGas
  | internalTransactionsGasUsed
  | internalTransactionsInput
  | internalTransactionsOutput
  | internalTransactionsError
  | internalTransactionsTimestamp
  | internalTransactionsTraceKey
  | internalTransactionsFromIndex
  | internalTransactionsToIndex
  | tokensSymbol
  | tokensSymbolIndex
  | tokensName
  | tokensDecimals
  | tokensTotalSupply
  | tokensBlockNumber
  | nftTokensTokenId
  | nftTokensTokenURI
  | nftTokensBlockNumber
  deriving DecidableEq, Repr

inductive WriteError where
  | storedBlockDiffers (number : Nat) (stored written : String)
  | logIndexPerTransaction (table : String) (block index : Nat) (stored written : String)
  | invalidValue (txHash : String) (logIndex : Nat)
  | outOfDomain (column : Column)
  deriving DecidableEq, Repr

def numeric78 : JSONString → Option Int
  | .decimal value => if value.natAbs < 10 ^ 78 then some value else none
  | .text numeric => numeric.filter fun value => value.natAbs < 10 ^ 78

/-- `BIGINT`, for the unsigned words the indexer writes. -/
def bigint (value : Nat) : Bool :=
  value < 2 ^ 63

def integer (value : Int) : Bool :=
  -2 ^ 31 ≤ value && value < 2 ^ 31

def smallint (value : Int) : Bool :=
  -2 ^ 15 ≤ value && value < 2 ^ 15

def continuation (byte : UInt8) : Bool :=
  0x80 ≤ byte && byte ≤ 0xBF

/-- Well-formed UTF-8: no overlong form, no surrogate, nothing above `U+10FFFF`. -/
def validUTF8 : Bytes → Bool
  | [] => true
  | a :: rest =>
    if a < 0x80 then validUTF8 rest
    else match rest with
      | [] => false
      | b :: rest =>
        if 0xC2 ≤ a && a ≤ 0xDF then continuation b && validUTF8 rest
        else match rest with
          | [] => false
          | c :: rest =>
            if a = 0xE0 then 0xA0 ≤ b && b ≤ 0xBF && continuation c && validUTF8 rest
            else if a = 0xED then 0x80 ≤ b && b ≤ 0x9F && continuation c && validUTF8 rest
            else if 0xE1 ≤ a && a ≤ 0xEF then continuation b && continuation c && validUTF8 rest
            else match rest with
              | [] => false
              | d :: rest =>
                if a = 0xF0 then
                  0x90 ≤ b && b ≤ 0xBF && continuation c && continuation d && validUTF8 rest
                else if a = 0xF4 then
                  0x80 ≤ b && b ≤ 0x8F && continuation c && continuation d && validUTF8 rest
                else if 0xF1 ≤ a && a ≤ 0xF3 then
                  continuation b && continuation c && continuation d && validUTF8 rest
                else false

def postgresText (text : Bytes) : Bool :=
  validUTF8 text && !text.contains 0

/-- `postgresText` for a text that the JSON decoder has made valid. -/
def withoutNul (text : String) : Bool :=
  !text.toList.contains (Char.ofNat 0)

/-- A btree refuses an entry of more than a third of its page. The entry holds the texts of the key, of the size
`entry` gives, and other columns of a fixed width. -/
def fitsIndex (entry : List Bytes → Nat) (texts : List Bytes) (others : Nat) : Bool :=
  entry texts + others ≤ 2704

def utf8 (text : String) : Bytes :=
  text.toUTF8.toList

structure TransactionRow where
  hash : String
  blockNumber : Nat
  blockTimestamp : Option Nat
  txIndex : Nat
  fromAddress : String
  toAddress : Option String
  value : Int
  gasUsed : Nat
  gasPrice : Nat
  gasLimit : Option Nat
  maxFeePerGas : Option Nat
  maxPriorityFeePerGas : Option Nat
  nonce : Option Nat
  txType : Int
  inputData : String
  status : Int
  error : Option String
  categories : Nat
  deriving DecidableEq, Repr

structure TransferRow where
  txHash : String
  logIndex : Nat
  tokenAddress : String
  fromAddress : String
  toAddress : String
  value : Int
  blockNumber : Nat
  timestamp : Option Nat
  transferType : TransferType
  tokenType : TokenType
  tokenId : Option Nat
  isInternal : Bool
  deriving DecidableEq, Repr

structure TokenRow where
  address : String
  symbol : Bytes
  name : Option Bytes
  decimals : Int
  tokenType : TokenType
  totalSupply : Option Int
  transferCount : Int
  blockNumber : Nat
  creationTx : Option String
  deriving DecidableEq, Repr

/-- The block number is signed: a revert of block 0 leaves it at -1. -/
structure NFTTokenRow where
  tokenAddress : String
  tokenId : Nat
  owner : String
  tokenURI : Option Bytes
  blockNumber : Int
  deriving DecidableEq, Repr

structure AddressStatsRow where
  address : String
  txCount : Int
  internalTxCount : Int
  tokenTransferCount : Int
  sentCount : Int
  firstSeen : Nat
  lastSeen : Nat
  isContract : Bool
  deriving DecidableEq, Repr

inductive CounterName where
  | blocksTotal
  | transactionsTotal
  | tokensTotal
  | addressesTotal
  | transfersTotal
  | addressStatsReverts
  deriving DecidableEq, Repr

/-- `indexEntry` is what a key of these texts takes in a btree, compressed as the server is set up to. -/
structure Store where
  blocks : List Block := []
  transactions : List TransactionRow := []
  logs : List Log := []
  tokenTransfers : List TransferRow := []
  internalTransactions : List InternalTransaction := []
  contracts : List Contract := []
  tokens : List TokenRow := []
  nftTokens : List NFTTokenRow := []
  addressStats : List AddressStatsRow := []
  chainCounters : AList (fun _ : CounterName => Int) := ∅
  indexEntry : List Bytes → Nat := fun _ => 0

def Store.counter (store : Store) (name : CounterName) : Int :=
  (store.chainCounters.lookup name).getD 0

/-- `history_from()`. -/
def historyFrom (prunedThrough : Nat) : Nat :=
  if 0 < prunedThrough then prunedThrough + 1 else 0

end OpsIndexer.Db
