import OpsIndexer.Rpc.RawBlock

/-!
# Token metadata

`FetchTokenMetadataBatch`, `FetchTokenURIsBatch` and the decoder they share. A reply is whatever bytes the contract
returns. The decoder reads offsets and lengths as machine words, so a slice can be out of range; that is a panic of
the process, here the absence of a result.
-/

namespace OpsIndexer.Rpc

open Eth OpsIndexer.Types

/-- The node's `eth_call`, and whether the rate limiter lets a call through: each of a token's three metadata calls,
and each URI request by its position. -/
structure Caller where
  callContract : Address → Bytes → Option Bytes
  limiter : Address → Nat → Bool := fun _ _ => true
  uriLimiter : Nat → Bool := fun _ => true

def untilNul (text : Bytes) : Bytes :=
  text.takeWhile fun byte => byte ≠ 0

/-- Both `parseStringResult`, by what they cut off a text. -/
def textResult (cut : Bytes → Bytes) (data : Bytes) : Option Bytes :=
  if data.length < 64 then some (cut data)
  else
    let offset := setBytes (data.take 32) % 2 ^ 64
    if data.length ≤ offset then some []
    else if data.length < (offset + 32) % 2 ^ 64 then some []
    else do
      let word ← slice data offset ((offset + 32) % 2 ^ 64)
      let length := setBytes word % 2 ^ 64
      if data.length < (offset + 32 + length) % 2 ^ 64 then some []
      else
        let text ← slice data ((offset + 32) % 2 ^ 64) ((offset + 32 + length) % 2 ^ 64)
        some (cut text)

def parseStringResult : Bytes → Option Bytes :=
  textResult untilNul

def unknownSymbol : Bytes := [0x55, 0x4E, 0x4B, 0x4E, 0x4F, 0x57, 0x4E]

def symbolCall : Bytes := [0x95, 0xD8, 0x9B, 0x41]
def nameCall : Bytes := [0x06, 0xFD, 0xDE, 0x03]
def decimalsCall : Bytes := [0x31, 0x3C, 0xE5, 0x67]
def tokenURICall : Bytes := [0xC8, 0x7B, 0x56, 0xDD]

structure TokenMetadataResult where
  symbol : Bytes := []
  name : Option Bytes := none
  decimals : Int := 0
  failed : Bool := false
  deriving DecidableEq, Repr

def symbolOf : Option Bytes → Option Bytes
  | none => some unknownSymbol
  | some data => do
    let text ← parseStringResult data
    some (if text = [] then unknownSymbol else text)

def nameOf : Option Bytes → Option (Option Bytes)
  | none => some none
  | some data => do
    let text ← parseStringResult data
    some (if text = [] then none else some text)

def decimalsOf : Option Bytes → Int
  | none => 18
  | some data => if 32 ≤ data.length then int64 (setBytes data) else 18

/-- One token's three calls, each behind the limiter; a result the limiter cuts short keeps what it has. -/
def fetchTokenMetadata (caller : Caller) (address : Address) : Option TokenMetadataResult :=
  if !caller.limiter address 0 then some { failed := true }
  else do
    let symbol ← symbolOf (caller.callContract address symbolCall)
    if !caller.limiter address 1 then some { symbol := symbol }
    else
      let name ← nameOf (caller.callContract address nameCall)
      let decimals :=
        if caller.limiter address 2 then decimalsOf (caller.callContract address decimalsCall) else 0
      some { symbol := symbol, name := name, decimals := decimals }

def fetchTokenMetadataBatch (caller : Caller) (addresses : List Address) :
    Option (List (Address × TokenMetadataResult)) :=
  addresses.mapM fun address => do
    let result ← fetchTokenMetadata caller address
    some (address, result)

def wordBytes (value : Nat) : Bytes :=
  (List.range 32).map fun index => UInt8.ofNat (value / 256 ^ (31 - index))

def fetchTokenURI (caller : Caller) (position : Nat) (address : Address) (tokenId : Nat) : Option (Option Bytes) :=
  if !caller.uriLimiter position then some none
  else match caller.callContract address (tokenURICall ++ wordBytes tokenId) with
    | none => some none
    | some data => do
      let text ← parseStringResult data
      some (if text = [] then none else some text)

end OpsIndexer.Rpc
