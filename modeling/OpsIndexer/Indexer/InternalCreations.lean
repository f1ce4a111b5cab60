import OpsIndexer.Types

/-!
# Contracts created inside a transaction

`internal/indexer/internal_creations.go`: which creation frames took effect, read off the flattened list by the
comma-joined paths, and the contract recorded for each.
-/

namespace OpsIndexer.Indexing

open Eth OpsIndexer.Types

def failedFrames (frames : List InternalTransaction) : List String :=
  (frames.filter fun frame => frame.error.isSome).map fun frame => frame.txHash ++ "/" ++ frame.traceAddress

def anyEnclosingFailed (failed : List String) (tx traceAddress : String) : Bool :=
  (List.range traceAddress.toList.length).any fun index =>
    0 < index && traceAddress.toList[index]? = some ',' &&
      failed.contains (tx ++ "/" ++ String.ofList (traceAddress.toList.take index))

def isCreation (frame : InternalTransaction) : Bool :=
  (frame.callType = .create || frame.callType = .create2) && frame.traceAddress ≠ "" && frame.toAddress.isSome &&
    frame.error.isNone

def internalCreations (frames : List InternalTransaction) : List InternalTransaction :=
  let failed := failedFrames frames
  frames.filter fun frame =>
    isCreation frame && !failed.contains (frame.txHash ++ "/") &&
      !anyEnclosingFailed failed frame.txHash frame.traceAddress

/-- `unicode.IsSpace`. -/
def isSpace (letter : Char) : Bool :=
  (0x09 ≤ letter.toNat && letter.toNat ≤ 0x0D) || (0x2000 ≤ letter.toNat && letter.toNat ≤ 0x200A) ||
    letter.toNat ∈ [0x20, 0x85, 0xA0, 0x1680, 0x2028, 0x2029, 0x202F, 0x205F, 0x3000]

/-- `strings.TrimSpace`. -/
def trimSpace (text : List Char) : List Char :=
  ((text.dropWhile isSpace).reverse.dropWhile isSpace).reverse

/-- `strings.TrimPrefix(strOr(output, ""), "0x")`. -/
def outputCode (output : Option String) : String :=
  match trimSpace (output.getD "").toList with
  | '0' :: 'x' :: rest => String.ofList rest
  | text => String.ofList text

def creationCode (getCode : Address → Option Bytes) (frame : InternalTransaction) : Option String :=
  if outputCode frame.output ≠ "" then some (outputCode frame.output)
  else match getCode (hexToAddress (frame.toAddress.getD "")) with
    | none => none
    | some [] => none
    | some code => some (bytes2Hex code)

def contractFromCreation (getCode : Address → Option Bytes) (frame : InternalTransaction) (blockNumber : Nat) :
    Option Contract :=
  (creationCode getCode frame).map fun code =>
    { address := lower (frame.toAddress.getD "")
      bytecode := code
      bytecodeHash := some (Hash.hex (bytesToHash (fromHex code)))
      creator := lower frame.fromAddress
      creationTx := frame.txHash
      blockNumber := blockNumber }

end OpsIndexer.Indexing
