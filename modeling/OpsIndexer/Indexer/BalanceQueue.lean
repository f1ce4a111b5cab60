import OpsIndexer.Indexer.BalanceWorker

/-!
# The balance pool

`BalanceWorkerPool` between `Queue…` and the reads: the queue, the coalescer with its dedup window, the workers and
what they drain. One event is one step of one goroutine; an event whose goroutine cannot take it leaves the pool as
it is. A work item remembers the numbers of the queued items folded into it, and the pool remembers what was queued
and what was read; the code keeps neither. Nothing is cancelled.
-/

namespace OpsIndexer.Indexing

open Eth

/-- Work on its way, with the numbers of the queued items it stands for. -/
structure QueuedWork where
  work : BalanceWork
  items : List Nat
  deriving DecidableEq, Repr

def QueuedWork.key (queued : QueuedWork) : Address × Address :=
  queued.work.key

def QueuedWork.fold (a b : QueuedWork) : QueuedWork :=
  ⟨folded a.work b.work, a.items ++ b.items⟩

structure HeldKey where
  key : Address × Address
  due : Nat
  deriving DecidableEq, Repr

/-- The dedup window (none at 0), the size of a batched read, the number of workers. -/
structure PoolConfig where
  dedupWindow : Nat
  readerBatch : Nat
  numWorkers : Nat
  hasWorker : 0 < numWorkers

def chanCap : Nat := 10000

def maxHeldKeys : Nat := 100000

inductive AfterSend where
  | tick (now : Nat)
  | closing
  | hold (work : QueuedWork)
  deriving DecidableEq, Repr

/-- The coalescer waits in its `select`, or for room in the workers' channel; it has returned and closed that channel,
or taken a key that is not there. -/
inductive CoalescerState where
  | selecting
  | sending (work : QueuedWork) (next : AfterSend)
  | returned
  | crashed
  deriving DecidableEq, Repr

inductive PoolWorker where
  | receiving
  | draining (first : QueuedWork) (drained : List QueuedWork) (taken : Nat)
  | returned
  deriving DecidableEq, Repr

structure Pool where
  queued : List BalanceWork := []
  workChan : List QueuedWork := []
  closed : Bool := false
  held : AList (fun _ : Address × Address => QueuedWork) := ∅
  order : List HeldKey := []
  coalescer : CoalescerState := .selecting
  fetchChan : List QueuedWork := []
  workers : List PoolWorker
  reads : List QueuedWork := []

def Pool.start (config : PoolConfig) : Pool where
  workers := List.replicate config.numWorkers .receiving

/-! ## Queueing -/

def Pool.queue (pool : Pool) (work : BalanceWork) : Pool :=
  if pool.closed = false ∧ pool.workChan.length < chanCap then
    { pool with
      queued := pool.queued ++ [work]
      workChan := pool.workChan ++ [⟨work, [pool.queued.length]⟩] }
  else pool

/-! ## The coalescer -/

/-- `order[0]` and `*held[h.key]`, both of which can fail, and the send. -/
def Pool.forwardOldest (pool : Pool) (next : AfterSend) : Pool :=
  match pool.order with
  | [] => { pool with coalescer := .crashed }
  | h :: rest =>
    match pool.held.lookup h.key with
    | none => { pool with coalescer := .crashed }
    | some work =>
      { pool with order := rest, held := pool.held.erase h.key, coalescer := .sending work next }

def Pool.tick (pool : Pool) (now : Nat) : Pool :=
  match pool.order with
  | [] => { pool with coalescer := .selecting }
  | h :: _ => if h.due ≤ now then pool.forwardOldest (.tick now) else { pool with coalescer := .selecting }

def Pool.closing (pool : Pool) : Pool :=
  if pool.order = [] then { pool with coalescer := .returned } else pool.forwardOldest .closing

def Pool.hold (config : PoolConfig) (now : Nat) (pool : Pool) (work : QueuedWork) : Pool :=
  { pool with
    held := pool.held.insert work.key work
    order := pool.order ++ [⟨work.key, now + config.dedupWindow⟩]
    coalescer := .selecting }

def Pool.receive (config : PoolConfig) (now : Nat) (pool : Pool) : Pool :=
  match pool.workChan with
  | [] => if pool.closed then pool.closing else pool
  | work :: rest =>
    let pool := { pool with workChan := rest }
    if work.work.address = 0 then pool
    else match pool.held.lookup work.key with
      | some held => { pool with held := pool.held.insert work.key (held.fold work) }
      | none =>
        if maxHeldKeys ≤ pool.held.keys.length then pool.forwardOldest (.hold work)
        else pool.hold config now work

def Pool.sent (config : PoolConfig) (now : Nat) (pool : Pool) : Pool :=
  match pool.coalescer with
  | .sending work next =>
    if pool.fetchChan.length < chanCap then
      let pool := { pool with fetchChan := pool.fetchChan ++ [work] }
      match next with
      | .tick since => pool.tick since
      | .closing => pool.closing
      | .hold held => pool.hold config now held
    else pool
  | _ => pool

/-! ## The workers -/

/-- The workers read the coalescer's channel, or without a window the queue itself. -/
def Pool.input (config : PoolConfig) (pool : Pool) : List QueuedWork :=
  if 0 < config.dedupWindow then pool.fetchChan else pool.workChan

def Pool.inputClosed (config : PoolConfig) (pool : Pool) : Bool :=
  if 0 < config.dedupWindow then pool.coalescer = .returned else pool.closed

def Pool.withInput (config : PoolConfig) (pool : Pool) (rest : List QueuedWork) : Pool :=
  if 0 < config.dedupWindow then { pool with fetchChan := rest } else { pool with workChan := rest }

def itemsOf (round : List QueuedWork) (key : Address × Address) : List Nat :=
  (round.filter fun queued => queued.work.address ≠ 0 ∧ queued.key = key).flatMap (·.items)

def roundReads (first : QueuedWork) (drained : List QueuedWork) : List QueuedWork :=
  let round := (drained.map (·.work)).foldl readerTake (readerFirst first.work)
  round.tokens.flatMap fun token =>
    ((round.holders.lookup token).getD []).filterMap fun holder =>
      (round.works.lookup (holder, token)).map fun work => ⟨work, itemsOf (first :: drained) (holder, token)⟩

def Pool.setWorker (pool : Pool) (i : Nat) (worker : PoolWorker) : Pool :=
  { pool with workers := pool.workers.set i worker }

def Pool.workerReceive (config : PoolConfig) (pool : Pool) (i : Nat) : Pool :=
  match pool.workers[i]? with
  | some .receiving =>
    match pool.input config with
    | [] => if pool.inputClosed config then pool.setWorker i .returned else pool
    | work :: rest =>
      let pool := pool.withInput config rest
      if work.work.address = 0 then pool
      else if 1 < config.readerBatch then pool.setWorker i (.draining work [] 1)
      else { pool with reads := pool.reads ++ [work] }
  | _ => pool

def Pool.workerDrain (config : PoolConfig) (pool : Pool) (i : Nat) : Pool :=
  match pool.workers[i]? with
  | some (.draining first drained taken) =>
    let finished := { pool with reads := pool.reads ++ roundReads first drained }.setWorker i .receiving
    if taken < config.readerBatch then
      match pool.input config with
      | [] => finished
      | work :: rest => (pool.withInput config rest).setWorker i (.draining first (drained ++ [work]) (taken + 1))
    else finished
  | _ => pool

inductive PoolEvent where
  | queue (work : BalanceWork)
  | close
  | tick (now : Nat)
  | receive (now : Nat)
  | sent (now : Nat)
  | workerReceive (worker : Nat)
  | workerDrain (worker : Nat)
  deriving DecidableEq, Repr

def poolStep (config : PoolConfig) (pool : Pool) : PoolEvent → Pool
  | .queue work => pool.queue work
  | .close => { pool with closed := true }
  | .tick now => if 0 < config.dedupWindow ∧ pool.coalescer = .selecting then pool.tick now else pool
  | .receive now => if 0 < config.dedupWindow ∧ pool.coalescer = .selecting then pool.receive config now else pool
  | .sent now => if 0 < config.dedupWindow then pool.sent config now else pool
  | .workerReceive worker => pool.workerReceive config worker
  | .workerDrain worker => pool.workerDrain config worker

def Pool.Drained (config : PoolConfig) (pool : Pool) : Prop :=
  pool.closed = true ∧ (0 < config.dedupWindow → pool.coalescer = .returned) ∧
    ∀ worker ∈ pool.workers, worker = .returned

end OpsIndexer.Indexing
