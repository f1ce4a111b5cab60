import OpsIndexer.Rpc.RawBlock

/-!
# Call traces

`internal/rpc/trace.go`: a call tree is flattened in preorder under comma-joined paths, and `fetchTraces` keeps the
frames of each transaction but the first, the root.
-/

namespace OpsIndexer.Rpc

open Eth OpsIndexer.Types

structure FrameFields where
  type : String
  fromAddress : String := ""
  toAddress : String := ""
  value : Option Int := none
  gas : Nat := 0
  gasUsed : Nat := 0
  input : String := ""
  output : String := ""
  error : String := ""
  deriving DecidableEq, Repr

inductive CallFrame where
  | mk (fields : FrameFields) (calls : List CallFrame)

def CallFrame.fields : CallFrame → FrameFields
  | .mk fields _ => fields

def CallFrame.calls : CallFrame → List CallFrame
  | .mk _ calls => calls

/-- The five call types, in any letter case; anything else is stored as a plain call. -/
def callType (type : String) : CallType :=
  if lower type = "delegatecall" then .delegatecall
  else if lower type = "staticcall" then .staticcall
  else if lower type = "create" then .create
  else if lower type = "create2" then .create2
  else .call

def traceAddress (path : List Nat) : String :=
  ",".intercalate (path.map toString)

/-- A text the frame leaves out, or that is only the prefix, is stored as absent. -/
def payload (text : String) : Option String :=
  if text ≠ "" ∧ text ≠ "0x" then some text else none

def internalTransaction (txHash : String) (blockNumber timestamp : Nat) (path : List Nat) (frame : FrameFields) :
    InternalTransaction where
  txHash := txHash
  blockNumber := blockNumber
  traceAddress := traceAddress path
  fromAddress := frame.fromAddress
  toAddress := if frame.toAddress ≠ "" then some frame.toAddress else none
  value := .decimal (frame.value.getD 0)
  gas := if 0 < frame.gas then some frame.gas else none
  gasUsed := if 0 < frame.gasUsed then some frame.gasUsed else none
  input := payload frame.input
  output := payload frame.output
  callType := callType frame.type
  error := if frame.error ≠ "" then some frame.error else none
  timestamp := some timestamp

def preorder : CallFrame → List Nat → List (List Nat × FrameFields)
  | .mk fields calls, path => (path, fields) :: children calls path 0
where
  children : List CallFrame → List Nat → Nat → List (List Nat × FrameFields)
    | [], _, _ => []
    | call :: rest, path, index => preorder call (path ++ [index]) ++ children rest path (index + 1)

def flattenCallFrame (frame : CallFrame) (txHash : String) (blockNumber timestamp : Nat) :
    List InternalTransaction :=
  (preorder frame []).map fun (path, fields) => internalTransaction txHash blockNumber timestamp path fields

/-! ## Fetching a block's traces -/

def traced (frame : CallFrame) : Bool :=
  frame.fields.type ≠ ""

inductive TraceMode where
  | skipFailures
  | failOnAny
  | skipRefusals
  deriving DecidableEq, Repr

inductive TraceFailure where
  | refused
  | failed
  deriving DecidableEq, Repr

def TraceMode.fails (mode : TraceMode) (failure : TraceFailure) : Bool :=
  mode = .failOnAny || mode = .skipRefusals && failure ≠ .refused

structure TraceBlockResult where
  txHash : String
  result : Option CallFrame
  error : String := ""

/-- The node's two trace calls, and the order in which the workers of the per-transaction fallback finish. -/
structure Tracer where
  traceBlock : Nat → Option (List TraceBlockResult)
  traceTransaction : Hash → Except TraceFailure CallFrame
  schedule : List Hash → List Hash
  schedule_perm : ∀ hashes, (schedule hashes).Perm hashes

/-- `noTrace`: an entry whose error names a timeout is a failure, any other missing trace a refusal. -/
def noTrace (message : String) : TraceFailure :=
  if "timeout".toList <:+: (lower message).toList then .failed else .refused

/-- The trace of one transaction among the block's; a hash listed twice has its last entry. -/
def blockTrace (results : List TraceBlockResult) (hash : Hash) : Except TraceFailure CallFrame :=
  match results.reverse.find? (fun entry => entry.txHash = Hash.hex hash) with
  | none => .error (noTrace "")
  | some entry =>
    match entry.result with
    | none => .error (noTrace entry.error)
    | some frame => if entry.error = "" && traced frame then .ok frame else .error (noTrace entry.error)

def transactionTrace (tracer : Tracer) (hash : Hash) : Except TraceFailure CallFrame :=
  match tracer.traceTransaction hash with
  | .error failure => .error failure
  | .ok frame => if traced frame then .ok frame else .error .refused

def framesBelowRoot (mode : TraceMode) (blockNumber timestamp : Nat)
    (trace : Hash → Except TraceFailure CallFrame) (hash : Hash) : Option (List InternalTransaction) :=
  match trace hash with
  | .ok frame => some ((flattenCallFrame frame (Hash.hex hash) blockNumber timestamp).drop 1)
  | .error failure => if mode.fails failure then none else some []

def fetchTraces (tracer : Tracer) (mode : TraceMode) (txHashes : List Hash) (blockNumber timestamp : Nat) :
    Option (List InternalTransaction) :=
  match tracer.traceBlock blockNumber with
  | some (first :: rest) =>
    (txHashes.mapM (framesBelowRoot mode blockNumber timestamp (blockTrace (first :: rest)))).map List.flatten
  | _ =>
    ((tracer.schedule txHashes).mapM
      (framesBelowRoot mode blockNumber timestamp (transactionTrace tracer))).map List.flatten

end OpsIndexer.Rpc
