import OpsIndexer.Db.Balances
import OpsIndexer.Indexer.BuildBlock

/-!
# Balance reads

`balance_worker.go` and the other two readers of balances, with what they make of the node's replies. Every call of
the node is answered anew, so an event of a worker carries the answers of the calls it makes. A Go `int` is a signed
word, so the offsets of a `BalanceReader` reply wrap around.
-/

namespace OpsIndexer.Indexing

open Eth OpsIndexer.Types Db

def BalanceWork.key (work : BalanceWork) : Address × Address :=
  (work.address, work.tokenAddress)

/-- One key's two work items as one read: the block of the item at the higher epoch, the higher block at the same. -/
def folded (a b : BalanceWork) : BalanceWork :=
  if a.epoch < b.epoch then b
  else if b.epoch < a.epoch then a
  else { a with blockNumber := max a.blockNumber b.blockNumber }

/-! ## The node's replies -/

inductive CallError where
  | execution
  | transport
  deriving DecidableEq, Repr

structure NodeAnswers where
  /-- `balanceOf(holder)` of a token. -/
  callContract : Address → Address → Except CallError Bytes
  /-- The `BalanceReader` call for a token and its holders. -/
  callWithCodeOverride : Address → List Address → Except CallError Bytes

def balanceOf (keccak256 : Bytes → Hash) (work : BalanceWork) (value : Nat) : Balance where
  address := Address.hex keccak256 work.address
  tokenAddress := Address.hex keccak256 work.tokenAddress
  blockNumber := work.blockNumber
  balance := .decimal value
  epoch := work.epoch

def fetchBalance (keccak256 : Bytes → Hash) (node : NodeAnswers) (work : BalanceWork) : Option Balance :=
  match node.callContract work.tokenAddress work.address with
  | .error _ => none
  | .ok balanceData =>
    if balanceData.length < 32 then none else some (balanceOf keccak256 work (setBytes balanceData))

/-! ## The batched reader -/

inductive ReaderFailure where
  | call (error : CallError)
  | shortResult (bytes : Nat)
  | sliceOutOfRange
  deriving DecidableEq, Repr

/-- The word at an offset. The bound is checked on `off+32`, which wraps around for the largest offsets: the slice
then panics. -/
def readerWord (res : Bytes) (off : Int) : Except ReaderFailure Nat :=
  if off < 0 ∨ (res.length : Int) < (off + 32).bmod (2 ^ 64) then .error (.shortResult res.length)
  else if (res.length : Int) < off + 32 then .error .sliceOutOfRange
  else .ok (setBytes ((res.drop off.toNat).take 32))

def readerOffset (base : Nat) (i : Nat) : Int :=
  (int64 base + 32 + 32 * i).bmod (2 ^ 64)

def balancesOf (reply : Except CallError Bytes) (n : Nat) : Except ReaderFailure (List (Nat × Bool)) :=
  match reply with
  | .error failure => .error (.call failure)
  | .ok res => do
    let outOff ← readerWord res 0
    let okOff ← readerWord res 32
    (List.range n).mapM fun i => do
      let value ← readerWord res (readerOffset outOff i)
      let flag ← readerWord res (readerOffset okOff i)
      .ok (value, flag ≠ 0)

structure ReaderWorks where
  works : AList (fun _ : Address × Address => BalanceWork)
  tokens : List Address
  holders : AList (fun _ : Address => List Address)

def readerFirst (first : BalanceWork) : ReaderWorks where
  works := AList.singleton first.key first
  tokens := [first.tokenAddress]
  holders := AList.singleton first.tokenAddress [first.address]

def readerTake (round : ReaderWorks) (w : BalanceWork) : ReaderWorks :=
  if w.address = 0 then round
  else match round.works.lookup w.key with
    | some prev => { round with works := round.works.insert w.key (folded prev w) }
    | none =>
      { works := round.works.insert w.key w
        tokens :=
          if (round.holders.lookup w.tokenAddress).isSome then round.tokens else round.tokens ++ [w.tokenAddress]
        holders :=
          round.holders.insert w.tokenAddress ((round.holders.lookup w.tokenAddress).getD [] ++ [w.address]) }

def readerBalances (keccak256 : Bytes → Hash) (round : ReaderWorks) (token : Address) (hs : List Address)
    (values : List (Nat × Bool)) : List Balance :=
  (hs.zip values).filterMap fun entry =>
    if entry.2.2 then
      (round.works.lookup (entry.1, token)).map fun work => balanceOf keccak256 work entry.2.1
    else none

/-- One `BalanceReader` call per token. A token whose call fails is left out; a slice out of range ends the process,
so there is no result. -/
def readerFetch (keccak256 : Bytes → Hash) (node : NodeAnswers) (round : ReaderWorks) : Option (List Balance) :=
  round.tokens.foldlM (fun out token =>
    let hs := (round.holders.lookup token).getD []
    match balancesOf (node.callWithCodeOverride token hs) hs.length with
    | .error .sliceOutOfRange => none
    | .error _ => some out
    | .ok values => some (out ++ readerBalances keccak256 round token hs values)) []

def fetchReader (keccak256 : Bytes → Hash) (readerBatch : Nat) (node : NodeAnswers) (first : BalanceWork)
    (drained : List BalanceWork) : Option (List Balance) :=
  readerFetch keccak256 node ((drained.take (readerBatch - 1)).foldl readerTake (readerFirst first))

/-! ## A worker -/

structure WorkerState where
  batch : List Balance := []
  flushed : List (List Balance) := []
  crashed : Bool := false

inductive WorkerEvent where
  | tick
  | receive (work : BalanceWork) (drained : List BalanceWork) (node : NodeAnswers)

def WorkerState.flush (state : WorkerState) : WorkerState :=
  if state.batch.isEmpty then state
  else { state with batch := [], flushed := state.flushed ++ [state.batch] }

def WorkerState.add (state : WorkerState) (rows : List Balance) : WorkerState :=
  let next := { state with batch := state.batch ++ rows }
  if 100 ≤ next.batch.length then next.flush else next

def workerStep (keccak256 : Bytes → Hash) (readerBatch : Nat) (state : WorkerState) : WorkerEvent → WorkerState
  | .tick => if state.crashed then state else state.flush
  | .receive work drained node =>
    if state.crashed then state
    else if work.address = 0 then state
    else if 1 < readerBatch then
      match fetchReader keccak256 readerBatch node work drained with
      | none => { state with crashed := true }
      | some rows => state.add rows
    else match fetchBalance keccak256 node work with
      | none => state
      | some row => state.add [row]

def worker (keccak256 : Bytes → Hash) (readerBatch : Nat) (events : List WorkerEvent) : List (List Balance) :=
  let state := events.foldl (workerStep keccak256 readerBatch) {}
  if state.crashed then state.flushed else state.flush.flushed

/-- `flushBatch`: three tries, of which an attempt the database refuses for a deadlock or a serialisation failure is
repeated; any other error drops the batch. -/
def flushBatch (retryable : Nat → Bool) (batch : List Balance) (db : BalanceStore) : BalanceStore :=
  match (List.range 3).find? fun attempt => !retryable attempt with
  | none => db
  | some _ =>
    match insertBalancesBatch batch db with
    | .ok next => next
    | .error _ => db

/-! ## Reading again, and the stats backfill's reads -/

def rereadBalances (head : Nat) (claimed : List BalanceReread) (node : NodeAnswers) : List Balance :=
  claimed.filterMap fun request =>
    match node.callContract (hexToAddress request.token) (hexToAddress request.address) with
    | .error _ => none
    | .ok data =>
      if data.length < 32 then none
      else some ⟨request.address, request.token, head, .decimal (setBytes data), request.epoch⟩

structure BackfillBalanceKey where
  token : String
  address : String
  block : Nat
  deriving DecidableEq, Repr

/-- The backfill's `readBalances`: the keys settled by the pass, and the rows written for them. A call without an
answer leaves its key for the next pass. -/
def readBalances (keys : List BackfillBalanceKey) (node : NodeAnswers) : List BackfillBalanceKey × List Balance :=
  let reply := fun key : BackfillBalanceKey => node.callContract (hexToAddress key.token) (hexToAddress key.address)
  (keys.filter fun key => match reply key with
      | .error .transport => false
      | _ => true,
    keys.filterMap fun key => match reply key with
      | .error _ => none
      | .ok out =>
        if out.length < 32 then none
        else some ⟨key.address, key.token, key.block, .decimal (setBytes (out.take 32)), 0⟩)

end OpsIndexer.Indexing
