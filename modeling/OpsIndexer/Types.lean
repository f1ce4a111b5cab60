import OpsIndexer.Eth.Common

/-!
# The explorer's records

`internal/types`, as the indexer fills them and the store reads them. Addresses and hashes are texts here, in the
case the writer of the record leaves them in; the store lowers them where its statements do. Symbols, names and
token URIs are byte strings: a contract chooses their bytes.
-/

namespace OpsIndexer.Types

open Eth

inductive TokenType where
  | erc20
  | erc721
  | native
  deriving DecidableEq, Repr

inductive TransferType where
  | transfer
  | mint
  | burn
  | deposit
  | withdrawal
  deriving DecidableEq, Repr

inductive CallType where
  | call
  | delegatecall
  | staticcall
  | create
  | create2
  deriving DecidableEq, Repr

/-- An amount's text: the decimal text of an integer, or a text `SetString` refuses, with the integer that
`NUMERIC(78,0)` makes of it when the column accepts it at all. -/
inductive JSONString where
  | decimal (value : Int)
  | text (numeric : Option Int)
  deriving DecidableEq, Repr

structure Block where
  number : Nat
  hash : String
  parentHash : String
  timestamp : Nat := 0
  gasUsed : Nat := 0
  gasLimit : Nat := 0
  baseFeePerGas : Option Nat := none
  transactionCount : Nat := 0
  size : Nat := 0
  difficulty : Int := 0
  totalDifficulty : Int := 0
  nonce : String := "0x0000000000000000"
  miner : String := ""
  extraData : String := ""
  stateRoot : String := ""
  transactionsRoot : String := ""
  receiptsRoot : String := ""
  deriving DecidableEq, Repr

structure Transaction where
  hash : String
  blockNumber : Nat
  txIndex : Nat
  fromAddress : String
  toAddress : Option String
  contractAddress : Option String := none
  value : JSONString := .decimal 0
  gasUsed : Nat := 0
  gasPrice : Nat := 0
  gasLimit : Option Nat := none
  maxFeePerGas : Option Nat := none
  maxPriorityFeePerGas : Option Nat := none
  nonce : Option Nat := none
  txType : Int := 0
  inputData : String := ""
  status : Int := 1
  error : Option String := none
  deriving DecidableEq, Repr

structure Log where
  txHash : String
  logIndex : Nat
  address : String
  topic0 : Option String
  topic1 : Option String
  topic2 : Option String
  topic3 : Option String
  data : String
  blockNumber : Nat
  timestamp : Option Nat
  removed : Bool
  deriving DecidableEq, Repr

structure TokenTransfer where
  txHash : String
  logIndex : Nat
  tokenAddress : String
  fromAddress : String
  toAddress : String
  value : JSONString
  blockNumber : Nat
  timestamp : Option Nat := none
  transferType : TransferType := .transfer
  tokenType : TokenType := .erc20
  tokenId : Option Nat := none
  isInternal : Bool := false
  deriving DecidableEq, Repr

structure Token where
  address : String
  symbol : Bytes := []
  name : Option Bytes := none
  decimals : Int := 18
  tokenType : TokenType := .erc20
  totalSupply : Option JSONString := none
  blockNumber : Nat
  creationTx : Option String := none
  deriving DecidableEq, Repr

structure NFTToken where
  tokenAddress : String
  tokenId : Nat
  owner : String
  tokenURI : Option Bytes
  blockNumber : Nat
  deriving DecidableEq, Repr

/-- A balance read. The epoch is the reorg epoch current when the read was decided; 0 counts as before every
revert. -/
structure Balance where
  address : String
  tokenAddress : String
  blockNumber : Nat
  balance : JSONString
  epoch : Nat := 0
  deriving DecidableEq, Repr

structure Contract where
  address : String
  bytecode : String
  bytecodeHash : Option String
  creator : String
  creationTx : String
  blockNumber : Nat
  deriving DecidableEq, Repr

structure InternalTransaction where
  txHash : String
  blockNumber : Nat
  traceAddress : String
  fromAddress : String
  toAddress : Option String
  value : JSONString
  gas : Option Nat
  gasUsed : Option Nat
  input : Option String
  output : Option String
  callType : CallType
  error : Option String
  timestamp : Option Nat
  deriving DecidableEq, Repr

end OpsIndexer.Types
