import OpsIndexer.Types

/-!
# What the node returns

`internal/rpc/raw_block.go` and the receipts and logs of `pkg/eth/rpclient`, with the fields the indexer reads. A
`hexutil.Big` is any integer, since its parser takes a sign; a `hexutil.Uint64` is a natural number. Log indexes are
below `2 ^ 63`, where the conversion to `int` keeps them.
-/

namespace OpsIndexer.Rpc

open Eth OpsIndexer.Types

structure RawTransaction where
  hash : Hash
  fromAddress : Address
  toAddress : Option Address
  value : Option Int := none
  gas : Nat := 0
  gasPrice : Option Int := none
  input : Bytes := []
  nonce : Option Nat := none
  type : Nat := 0
  maxFeePerGas : Option Int := none
  maxPriorityFeePerGas : Option Int := none
  deriving DecidableEq, Repr

structure RawBlock where
  number : Option Int
  hash : Hash
  parentHash : Hash
  timestamp : Nat := 0
  gasUsed : Nat := 0
  gasLimit : Nat := 0
  baseFeePerGas : Option Int := none
  miner : Address := 0
  difficulty : Option Int := none
  totalDifficulty : Option Int := none
  size : Nat := 0
  nonce : Bytes := []
  extraData : Bytes := []
  stateRoot : Hash := 0
  transactionsRoot : Hash := 0
  receiptsRoot : Hash := 0
  transactions : List RawTransaction := []
  deriving DecidableEq, Repr

structure ReceiptLog where
  address : Address
  topics : List Hash
  data : Bytes
  index : Nat
  removed : Bool := false
  deriving DecidableEq, Repr

structure Receipt where
  status : Nat
  gasUsed : Nat := 0
  contractAddress : Address := 0
  logs : List ReceiptLog := []
  deriving DecidableEq, Repr

def RawBlock.numberU64 (raw : RawBlock) : Nat :=
  (raw.number.map uint64).getD 0

/-- `RawBlockByNumber` takes a reply without a number or a hash for no block. -/
def RawBlock.found (raw : RawBlock) : Bool :=
  raw.number.isSome && raw.hash ≠ 0

def RawBlock.difficultyString (raw : RawBlock) : Int :=
  raw.difficulty.getD 0

def RawBlock.totalDifficultyString (raw : RawBlock) : Int :=
  raw.totalDifficulty.getD 0

def RawBlock.nonceHex (raw : RawBlock) : String :=
  if raw.nonce.length = 8 then "0x" ++ String.ofList (hexDigits 16 (setBytes raw.nonce))
  else "0x0000000000000000"

def RawBlock.baseFeeU64 (raw : RawBlock) : Option Nat :=
  raw.baseFeePerGas.map uint64

end OpsIndexer.Rpc
