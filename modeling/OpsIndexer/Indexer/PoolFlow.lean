import OpsIndexer.Indexer.BalanceFlow
import OpsIndexer.Indexer.BalancePoolRuns

/-!
# The pool inside the balance flow

`BalanceFlow.works` is what waits anywhere in the pool, and the flow folds or hands out any of it at any time. The
pool's own steps, with their channels, the dedup window and what a worker drains, are among the flow's.
-/

namespace OpsIndexer.Indexing

open Eth Db Lib.Runs List

def Pool.works (pool : Pool) : List BalanceWork :=
  (pool.waitingWith pool.coalescer.hand).map (·.work)

/-- A work without an address that the pool has dropped may still wait in the flow. -/
structure Feeds (config : PoolConfig) (pool : Pool) (flow : BalanceFlow) : Prop where
  works : pool.works.Subperm flow.works
  workers : flow.workers.length = config.numWorkers

def FlowEvent.ofPool : FlowEvent → Bool
  | .fold _ _ => true
  | .receive _ _ _ _ => true
  | _ => false

variable (keccak256 : Bytes → Hash) (tbcLockKey : BalanceKey → Int) (config : PoolConfig)

/-- By folding and receiving, and with nothing else changed, the flow gets to where these works wait. -/
def Reaches (flow : BalanceFlow) (waiting : List BalanceWork) : Prop :=
  ∃ (events : List FlowEvent) (works : List BalanceWork) (workers : List WorkerState),
    (∀ event ∈ events, event.ofPool = true) ∧
    run (BalanceFlow.step keccak256 tbcLockKey config.readerBatch) flow events =
      { flow with works := works, workers := workers } ∧
    waiting.Subperm works ∧ workers.length = config.numWorkers

def ReachesWaiting (flow : BalanceFlow) (_queued : List BalanceWork) (waiting _reads : List QueuedWork) : Prop :=
  Reaches keccak256 tbcLockKey config flow (waiting.map (·.work))

variable {keccak256 tbcLockKey config} {flow : BalanceFlow} {pool : Pool} {waiting : List BalanceWork}

theorem Reaches.step (reaches : Reaches keccak256 tbcLockKey config flow waiting) {next : List BalanceWork}
    (event : FlowEvent) (own : event.ofPool = true)
    (steps : ∀ works workers, waiting.Subperm works → workers.length = config.numWorkers → ∃ after others,
      BalanceFlow.step keccak256 tbcLockKey config.readerBatch { flow with works := works, workers := workers } event =
        { flow with works := after, workers := others } ∧
      next.Subperm after ∧ others.length = config.numWorkers) : Reaches keccak256 tbcLockKey config flow next := by
  obtain ⟨events, works, workers, before, ran, inside, size⟩ := reaches
  obtain ⟨after, others, stepped, left, same⟩ := steps works workers inside size
  refine ⟨events ++ [event], after, others, ?_, ?_, left, same⟩
  · simpa [or_imp, forall_and, own] using before
  · rw [run_concat, ran, stepped]

theorem subperm_diff {taken rest works : List BalanceWork} (inside : (taken ++ rest).Subperm works) :
    taken.Subperm works ∧ rest.Subperm (works.diff taken) := by
  rw [← Multiset.coe_le, ← Multiset.coe_add] at inside
  rw [← Multiset.coe_le, ← Multiset.coe_le, ← Multiset.coe_sub]
  exact ⟨le_of_add_le_left inside, le_tsub_of_add_le_left inside⟩

theorem reaches_moves (node : NodeAnswers) : PoolMoves config (ReachesWaiting keccak256 tbcLockKey config flow) where
  perm := by
    rintro _ _ _ _ ⟨events, works, workers, own, ran, inside, size⟩ moved
    exact ⟨events, works, workers, own, ran, (moved.map _).subperm.trans inside, size⟩
  skip := by
    rintro _ _ _ _ ⟨events, works, workers, own, ran, inside, size⟩ _
    exact ⟨events, works, workers, own, ran, (List.sublist_cons_self _ _).subperm.trans inside, size⟩
  fold := by
    intro _ waiting _ a b reaches key
    refine reaches.step (.fold a.work b.work) rfl fun works workers inside size => ?_
    obtain ⟨both, rest⟩ := subperm_diff (show ([a.work, b.work] ++ waiting.map (·.work)).Subperm works from inside)
    exact ⟨_, workers, if_pos ⟨both, key⟩, (List.subperm_cons _).mpr rest, size⟩
  read := by
    intro _ waiting _ first drained i bound reaches _ short
    refine reaches.step (.receive i first.work (drained.map (·.work)) node) rfl fun works workers inside size => ?_
    rw [List.map_append, List.map_cons] at inside
    obtain ⟨taken, rest⟩ := subperm_diff inside
    obtain ⟨state, found⟩ : ∃ state, workers[i]? = some state := ⟨_, List.getElem?_eq_getElem (size ▸ bound)⟩
    refine ⟨works.diff (first.work :: drained.map (·.work)), workers.set i (workerStep keccak256 config.readerBatch state
      (.receive first.work (drained.map (·.work)) node)), ?_, rest, List.length_set.trans size⟩
    simp only [BalanceFlow.step, BalanceFlow.receive, found]
    exact if_pos ⟨taken, by rwa [List.length_map]⟩

variable (keccak256 tbcLockKey) in
/-- Until more is queued, what the pool's goroutines do is folding and receiving in the flow. -/
theorem Feeds.run_reaches (feeds : Feeds config pool flow) (folds : PoolFolds config Carries pool) (node : NodeAnswers)
    (events : List PoolEvent) (inner : ∀ work, .queue work ∉ events) :
    Reaches keccak256 tbcLockKey config flow (run (poolStep config) pool events).works := by
  have start : PoolFolds config (ReachesWaiting keccak256 tbcLockKey config flow) pool :=
    { folds with keeps := ⟨[], flow.works, flow.workers, nofun, rfl, feeds.works, feeds.workers⟩ }
  suffices kept : PoolFolds config (ReachesWaiting keccak256 tbcLockKey config flow) (run (poolStep config) pool events)
    from kept.keeps
  induction events using List.reverseRecOn with
  | nil => exact start
  | append_singleton events event ih =>
    rw [run_concat]
    refine poolStep_keeps (reaches_moves node) (ih fun work member => inner work (List.mem_append_left _ member)) event ?_
    rintro work rfl
    exact absurd (List.mem_append_right _ (List.mem_singleton_self _)) (inner work)

/-- The work as `QueueWorkBatchWait` queues it. -/
def stamped (epoch : Nat) (work : BalanceWork) : BalanceWork :=
  if work.epoch = 0 then { work with epoch := epoch } else work

/-- The next work of a call goes into the pool's queue, or waits there while it is full, as it goes into the flow's. -/
theorem Feeds.queueNext (feeds : Feeds config pool flow) {call : Nat} {work : BalanceWork} {rest : List BalanceWork}
    (open_ : flow.epochGate = none) (found : flow.queueing[call]? = some (work :: rest)) :
    Feeds config (pool.queue (stamped flow.epoch work)) (flow.queueNext call) := by
  have queued : flow.queueNext call =
      { flow with queueing := flow.queueing.set call rest, works := flow.works ++ [stamped flow.epoch work] } := by
    unfold BalanceFlow.queueNext stamped
    simp only [found, open_]
    split <;> rfl
  have works : (pool.queue (stamped flow.epoch work)).works.Subperm (pool.works ++ [stamped flow.epoch work]) := by
    unfold Pool.queue Pool.works
    split
    · apply List.Perm.subperm
      simp only [Pool.waitingWith, Pool.heldWorks, List.map_append]
      grind
    · exact (List.sublist_append_left _ _).subperm
  rw [queued]
  exact ⟨works.trans ((List.subperm_append_right _).mpr feeds.works), feeds.workers⟩

end OpsIndexer.Indexing
