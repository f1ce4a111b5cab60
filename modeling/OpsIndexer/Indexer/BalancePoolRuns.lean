import OpsIndexer.Indexer.BalanceFolds

/-!
# Runs of the balance pool

What every state of the pool keeps, over every interleaving of its goroutines, and that a closed queue drains.
-/

namespace OpsIndexer.Indexing

open Eth Lib.Runs Lib.Keyed List

/-! ## Where work waits -/

def AfterSend.hand : AfterSend → List QueuedWork
  | .hold work => [work]
  | _ => []

def CoalescerState.hand : CoalescerState → List QueuedWork
  | .sending work next => work :: next.hand
  | _ => []

def PoolWorker.round : PoolWorker → List QueuedWork
  | .draining first drained _ => first :: drained
  | _ => []

def Pool.heldWorks (pool : Pool) : List QueuedWork :=
  pool.held.entries.map Sigma.snd

def Pool.waitingWith (pool : Pool) (hand : List QueuedWork) : List QueuedWork :=
  pool.workChan ++ pool.heldWorks ++ hand ++ pool.fetchChan ++ pool.workers.flatMap PoolWorker.round

def PoolWorker.Fits (config : PoolConfig) : PoolWorker → Prop
  | .draining first drained taken => first.work.address ≠ 0 ∧ drained.length + 1 = taken ∧ taken ≤ config.readerBatch
  | _ => True

variable (config : PoolConfig) (keeps : List BalanceWork → List QueuedWork → List QueuedWork → Prop)

/-- All that the pool's goroutines do to the work that waits: they move it, fold two works of a key, drop a work
without an address and read a round. -/
structure PoolMoves : Prop where
  perm : ∀ {queued waiting reads other}, keeps queued waiting reads → other.Perm waiting → keeps queued other reads
  fold : ∀ {queued waiting reads a b}, keeps queued (a :: b :: waiting) reads → b.key = a.key →
    keeps queued (a.fold b :: waiting) reads
  skip : ∀ {queued waiting reads work}, keeps queued (work :: waiting) reads → work.work.address = 0 →
    keeps queued waiting reads
  read : ∀ {queued waiting reads first drained} (i : Nat), i < config.numWorkers →
    keeps queued ((first :: drained) ++ waiting) reads → first.work.address ≠ 0 →
    drained.length ≤ config.readerBatch - 1 → keeps queued waiting (reads ++ roundReads first drained)

structure PoolFolds (pool : Pool) : Prop where
  alive : pool.coalescer ≠ .crashed
  sameKeys : (pool.order.map (·.key)).Perm pool.held.keys
  keyed : ∀ entry ∈ pool.held.entries, entry.2.key = entry.1
  pending : ∀ work held, pool.coalescer = .sending work (.hold held) → pool.held.lookup held.key = none
  fits : ∀ worker ∈ pool.workers, worker.Fits config
  keeps : keeps pool.queued (pool.waitingWith pool.coalescer.hand) pool.reads
  finishing : ∀ work, pool.coalescer = .sending work .closing → pool.closed = true ∧ pool.workChan = []
  ended : pool.coalescer = .returned → pool.closed = true ∧ pool.workChan = [] ∧ pool.order = []
  windowless : config.dedupWindow = 0 → pool.coalescer = .selecting ∧ pool.order = [] ∧ pool.fetchChan = []
  returned : .returned ∈ pool.workers → pool.inputClosed config = true ∧ pool.input config = []
  size : pool.workers.length = config.numWorkers

structure Turn (pool : Pool) (hand : List QueuedWork) : Prop where
  window : 0 < config.dedupWindow
  sameKeys : (pool.order.map (·.key)).Perm pool.held.keys
  keyed : ∀ entry ∈ pool.held.entries, entry.2.key = entry.1
  fits : ∀ worker ∈ pool.workers, worker.Fits config
  keeps : keeps pool.queued (pool.waitingWith hand) pool.reads
  running : .returned ∉ pool.workers
  size : pool.workers.length = config.numWorkers

variable {config keeps} {pool : Pool}

theorem start_folds (config : PoolConfig) (empty : keeps [] [] []) : PoolFolds config keeps (Pool.start config) := by
  have none : (Pool.start config).workers.flatMap PoolWorker.round = [] := by
    rw [flatMap_eq_nil_iff]
    intro worker member
    rw [eq_of_mem_replicate member]
    rfl
  constructor
  · exact CoalescerState.noConfusion
  · exact List.Perm.refl _
  · exact fun entry member => absurd member not_mem_nil
  · exact fun _ _ sending => CoalescerState.noConfusion sending
  · intro worker member
    rw [eq_of_mem_replicate member]
    trivial
  · rw [Pool.waitingWith, none]
    exact empty
  · exact fun _ sending => CoalescerState.noConfusion sending
  · exact CoalescerState.noConfusion
  · exact fun _ => ⟨rfl, rfl, rfl⟩
  · exact fun member => PoolWorker.noConfusion (eq_of_mem_replicate member)
  · exact length_replicate

theorem PoolFolds.turn (folds : PoolFolds config keeps pool) (window : 0 < config.dedupWindow)
    (open_ : pool.coalescer ≠ .returned) : Turn config keeps pool pool.coalescer.hand where
  window := window
  sameKeys := folds.sameKeys
  keyed := folds.keyed
  fits := folds.fits
  keeps := folds.keeps
  running := by
    intro member
    have closed := (folds.returned member).1
    rw [Pool.inputClosed, if_pos window, decide_eq_true_eq] at closed
    exact open_ closed
  size := folds.size

variable {hand rest : List QueuedWork} {next : AfterSend} {work : QueuedWork} {workers : List PoolWorker} {i : Nat}
  {old : PoolWorker}

theorem PoolFolds.selects (folds : PoolFolds config keeps pool) (window : 0 < config.dedupWindow)
    (selecting : pool.coalescer = .selecting) : Turn config keeps pool [] := by
  have turn := folds.turn window (by simp [selecting])
  rwa [selecting] at turn

theorem Turn.ends (turn : Turn config keeps pool hand) (next : CoalescerState) (same : next.hand = hand)
    (alive : next ≠ .crashed)
    (pending : ∀ work held, next = .sending work (.hold held) → pool.held.lookup held.key = none)
    (finishing : ∀ work, next = .sending work .closing → pool.closed = true ∧ pool.workChan = [])
    (ended : next = .returned → pool.closed = true ∧ pool.workChan = [] ∧ pool.order = []) :
    PoolFolds config keeps { pool with coalescer := next } where
  alive := alive
  sameKeys := turn.sameKeys
  keyed := turn.keyed
  pending := pending
  fits := turn.fits
  keeps := by
    subst same
    exact turn.keeps
  finishing := finishing
  ended := ended
  windowless := fun none => absurd none turn.window.ne'
  returned := fun member => absurd member turn.running
  size := turn.size

theorem exists_oldest (sameKeys : (pool.order.map (·.key)).Perm pool.held.keys) (some : pool.order ≠ []) :
    ∃ h rest work, pool.order = h :: rest ∧ pool.held.lookup h.key = .some work := by
  obtain ⟨h, rest, order⟩ := exists_cons_of_ne_nil some
  rw [order, map_cons] at sameKeys
  have member : h.key ∈ pool.held := AList.mem_keys.mpr (sameKeys.mem_iff.mp mem_cons_self)
  obtain ⟨work, found⟩ := Option.isSome_iff_exists.mp (AList.lookup_isSome.mpr member)
  exact ⟨h, rest, work, order, found⟩

theorem Turn.waits (turn : Turn config keeps pool []) : PoolFolds config keeps { pool with coalescer := .selecting } :=
  turn.ends .selecting rfl CoalescerState.noConfusion (fun _ _ => CoalescerState.noConfusion)
    (fun _ => CoalescerState.noConfusion) CoalescerState.noConfusion

theorem Turn.stays (turn : Turn config keeps pool []) (selecting : pool.coalescer = .selecting) :
    PoolFolds config keeps pool := by
  have same : { pool with coalescer := .selecting } = pool := by rw [← selecting]
  exact same ▸ turn.waits

section

variable (moves : PoolMoves config keeps)

include moves

theorem Turn.forward (turn : Turn config keeps pool next.hand) (some : pool.order ≠ [])
    (fresh : ∀ held, next = .hold held → pool.held.lookup held.key = none)
    (finishing : next = .closing → pool.closed = true ∧ pool.workChan = []) :
    PoolFolds config keeps (pool.forwardOldest next) := by
  obtain ⟨h, rest, work, order, found⟩ := exists_oldest turn.sameKeys some
  simp only [Pool.forwardOldest, order, found]
  have entries := entries_perm_erase found
  have taken : Turn config keeps { pool with order := rest, held := pool.held.erase h.key } (work :: next.hand) := by
    refine { turn with sameKeys := ?_, keyed := ?_, keeps := ?_ }
    · have keys : pool.held.keys.Perm (h.key :: (pool.held.erase h.key).keys) := entries.map Sigma.fst
      have sameKeys := turn.sameKeys
      rw [order] at sameKeys
      exact (sameKeys.trans keys).cons_inv
    · exact fun entry inside => turn.keyed entry (entries.mem_iff.mpr (mem_cons_of_mem _ inside))
    · apply moves.perm turn.keeps
      have works : pool.heldWorks.Perm (work :: (pool.held.erase h.key).entries.map Sigma.snd) :=
        entries.map fun entry : Sigma fun _ : Address × Address => QueuedWork => entry.2
      simp only [Pool.waitingWith, Pool.heldWorks] at works ⊢
      grind
  refine taken.ends (.sending work next) rfl CoalescerState.noConfusion ?_ ?_ CoalescerState.noConfusion
  · intro _ held sending
    simp only [CoalescerState.sending.injEq] at sending
    have absent := fresh held sending.2
    by_cases own : held.key = h.key
    · rw [own, AList.lookup_erase]
    · rw [AList.lookup_erase_ne own, absent]
  · intro _ sending
    simp only [CoalescerState.sending.injEq] at sending
    exact finishing sending.2

theorem Turn.tick (turn : Turn config keeps pool []) (now : Nat) : PoolFolds config keeps (pool.tick now) := by
  unfold Pool.tick
  split
  · exact turn.waits
  · next h rest order =>
    split
    · have hand : Turn config keeps pool (AfterSend.tick now).hand := turn
      exact hand.forward moves (by simp [order]) (fun _ => AfterSend.noConfusion) AfterSend.noConfusion
    · exact turn.waits

theorem Turn.closing (turn : Turn config keeps pool []) (closed : pool.closed = true) (empty : pool.workChan = []) :
    PoolFolds config keeps pool.closing := by
  unfold Pool.closing
  split
  · next none =>
    exact turn.ends .returned rfl CoalescerState.noConfusion (fun _ _ => CoalescerState.noConfusion)
      (fun _ => CoalescerState.noConfusion) fun _ => ⟨closed, empty, none⟩
  · next some =>
    have hand : Turn config keeps pool AfterSend.closing.hand := turn
    exact hand.forward moves some (fun _ => AfterSend.noConfusion) fun _ => ⟨closed, empty⟩

theorem Turn.hold (turn : Turn config keeps pool [work]) (now : Nat) (fresh : pool.held.lookup work.key = none) :
    PoolFolds config keeps (pool.hold config now work) := by
  have absent : work.key ∉ pool.held := AList.lookup_eq_none.mp fresh
  have entries : (pool.held.insert work.key work).entries = ⟨work.key, work⟩ :: pool.held.entries :=
    AList.entries_insert_of_notMem absent
  have holds : Turn config keeps { pool with
      held := pool.held.insert work.key work
      order := pool.order ++ [⟨work.key, now + config.dedupWindow⟩] } [] := by
    refine { turn with sameKeys := ?_, keyed := ?_, keeps := ?_ }
    · have keys : (pool.held.insert work.key work).keys = work.key :: pool.held.keys := by
        rw [AList.keys, entries]
        rfl
      rw [keys, map_append]
      exact (perm_append_singleton _ _).trans (turn.sameKeys.cons _)
    · dsimp only
      rw [entries]
      intro entry member
      rcases mem_cons.mp member with rfl | before
      · rfl
      · exact turn.keyed entry before
    · apply moves.perm turn.keeps
      simp only [Pool.waitingWith, Pool.heldWorks, entries, map_cons]
      grind
  exact holds.waits

/-! ## The steps -/

theorem PoolFolds.received (folds : PoolFolds config keeps pool) (window : 0 < config.dedupWindow)
    (selecting : pool.coalescer = .selecting) (chan : pool.workChan = work :: rest) :
    Turn config keeps { pool with workChan := rest } [work] := by
  have turn := folds.selects window selecting
  refine { turn with keeps := moves.perm turn.keeps ?_ }
  simp only [Pool.waitingWith, chan, Pool.heldWorks]
  grind

omit moves in
theorem PoolFolds.order_ne_nil (folds : PoolFolds config keeps pool) (full : maxHeldKeys ≤ pool.held.keys.length) :
    pool.order ≠ [] := by
  intro none
  have lengths := folds.sameKeys.length_eq
  rw [none, map_nil, length_nil] at lengths
  exact absurd (lengths ▸ full) (by decide)

theorem Turn.foldHeld (turn : Turn config keeps pool [work]) {held : QueuedWork}
    (found : pool.held.lookup work.key = some held) :
    Turn config keeps { pool with held := pool.held.insert work.key (held.fold work) } [] := by
  have entries := entries_perm_erase found
  have key : held.key = work.key := turn.keyed ⟨work.key, held⟩ (AList.mem_lookup_iff.mp found)
  have inserted : (pool.held.insert work.key (held.fold work)).entries =
      ⟨work.key, held.fold work⟩ :: (pool.held.erase work.key).entries := rfl
  refine { turn with sameKeys := ?_, keyed := ?_, keeps := ?_ }
  · have keys : pool.held.keys.Perm (pool.held.insert work.key (held.fold work)).keys := entries.map Sigma.fst
    exact turn.sameKeys.trans keys
  · dsimp only
    rw [inserted]
    intro entry member
    rcases mem_cons.mp member with rfl | before
    · exact (folded_key held.work work.work key.symm).trans key
    · exact turn.keyed entry (entries.mem_iff.mpr (mem_cons_of_mem _ before))
  · have works : pool.heldWorks.Perm (held :: (pool.held.erase work.key).entries.map Sigma.snd) :=
      entries.map fun entry : Sigma fun _ : Address × Address => QueuedWork => entry.2
    have folded : keeps pool.queued (held.fold work :: (pool.workChan ++
        (pool.held.erase work.key).entries.map Sigma.snd ++ pool.fetchChan ++
        pool.workers.flatMap PoolWorker.round)) pool.reads := by
      refine moves.fold (moves.perm turn.keeps ?_) key.symm
      simp only [Pool.waitingWith, Pool.heldWorks] at works ⊢
      grind
    apply moves.perm folded
    simp only [Pool.waitingWith, Pool.heldWorks, inserted, map_cons]
    grind

theorem PoolFolds.receive (folds : PoolFolds config keeps pool) (window : 0 < config.dedupWindow)
    (selecting : pool.coalescer = .selecting) (now : Nat) : PoolFolds config keeps (pool.receive config now) := by
  unfold Pool.receive
  cases chan : pool.workChan with
  | nil =>
    dsimp only
    split
    · next closed => exact (folds.selects window selecting).closing moves closed chan
    · exact folds
  | cons work rest =>
    have taken := folds.received moves window selecting chan
    dsimp only
    split
    · next zero =>
      refine Turn.stays { taken with keeps := moves.skip (moves.perm taken.keeps ?_) zero } selecting
      simp only [Pool.waitingWith, Pool.heldWorks]
      grind
    · split
      · next held found => exact (taken.foldHeld moves found).stays selecting
      · next fresh =>
        split
        · next full =>
          have hand : Turn config keeps { pool with workChan := rest } (AfterSend.hold work).hand := taken
          refine hand.forward moves (folds.order_ne_nil full) ?_ AfterSend.noConfusion
          intro held same
          rw [← AfterSend.hold.inj same]
          exact fresh
        · exact taken.hold moves now fresh

theorem PoolFolds.handed (folds : PoolFolds config keeps pool) (window : 0 < config.dedupWindow)
    (state : pool.coalescer = .sending work next) :
    Turn config keeps { pool with fetchChan := pool.fetchChan ++ [work] } next.hand := by
  have turn := folds.turn window (by simp [state])
  rw [state] at turn
  refine { turn with keeps := moves.perm turn.keeps ?_ }
  simp only [Pool.waitingWith, Pool.heldWorks, CoalescerState.hand]
  grind

theorem PoolFolds.sent (folds : PoolFolds config keeps pool) (window : 0 < config.dedupWindow) (now : Nat) :
    PoolFolds config keeps (pool.sent config now) := by
  unfold Pool.sent
  cases state : pool.coalescer with
  | selecting => exact folds
  | returned => exact folds
  | crashed => exact folds
  | sending work next =>
    dsimp only
    split
    · have gone := folds.handed moves window state
      cases next with
      | tick since => exact gone.tick moves since
      | closing =>
        obtain ⟨closed, empty⟩ := folds.finishing work state
        have closes := gone.closing moves closed empty
        exact closes
      | hold held => exact gone.hold moves now (folds.pending work held state)
    · exact folds

theorem PoolFolds.queue (folds : PoolFolds config keeps pool) (work : BalanceWork)
    (queued : keeps (pool.queued ++ [work]) (⟨work, [pool.queued.length]⟩ :: pool.waitingWith pool.coalescer.hand)
      pool.reads) : PoolFolds config keeps (pool.queue work) := by
  unfold Pool.queue
  split
  · next room =>
    have open_ : pool.closed ≠ true := by simp [room.1]
    refine { folds with keeps := moves.perm queued ?_, finishing := ?_, ended := ?_, returned := ?_ }
    · simp only [Pool.waitingWith, Pool.heldWorks]
      grind
    · exact fun other sending => absurd (folds.finishing other sending).1 open_
    · exact fun returned => absurd (folds.ended returned).1 open_
    · intro member
      obtain ⟨closed, empty⟩ := folds.returned member
      simp only [Pool.inputClosed, Pool.input] at closed empty ⊢
      split_ifs with window
      · rw [if_pos window] at closed empty
        exact ⟨closed, empty⟩
      · rw [if_neg window] at closed
        exact absurd closed open_
  · exact folds

end

theorem PoolFolds.close (folds : PoolFolds config keeps pool) : PoolFolds config keeps { pool with closed := true } := by
  refine { folds with finishing := ?_, ended := ?_, returned := ?_ }
  · exact fun work sending => ⟨rfl, (folds.finishing work sending).2⟩
  · exact fun returned => ⟨rfl, (folds.ended returned).2⟩
  · intro member
    obtain ⟨closed, empty⟩ := folds.returned member
    simp only [Pool.inputClosed, Pool.input] at closed empty ⊢
    split_ifs with window
    · rw [if_pos window] at closed empty
      exact ⟨closed, empty⟩
    · rw [if_neg window] at empty
      exact ⟨rfl, empty⟩

theorem round_set (found : workers[i]? = some old) :
    ∃ rest, (workers.flatMap PoolWorker.round).Perm (old.round ++ rest) ∧
      ∀ new, ((workers.set i new).flatMap PoolWorker.round).Perm (new.round ++ rest) := by
  obtain ⟨bound, same⟩ := List.getElem?_eq_some_iff.mp found
  refine ⟨(workers.eraseIdx i).flatMap PoolWorker.round, ?_, ?_⟩
  · have perm := (getElem_cons_eraseIdx_perm bound).symm.flatMap_right PoolWorker.round
    rwa [same, flatMap_cons] at perm
  · intro new
    have perm := (set_perm_cons_eraseIdx bound new).flatMap_right PoolWorker.round
    rwa [flatMap_cons] at perm

theorem PoolFolds.fits_set (folds : PoolFolds config keeps pool) (new : PoolWorker) (fits : new.Fits config) :
    ∀ worker ∈ pool.workers.set i new, worker.Fits config := by
  intro worker member
  rcases mem_or_eq_of_mem_set member with before | rfl
  · exact folds.fits worker before
  · exact fits

theorem PoolFolds.moved (folds : PoolFolds config keeps pool) {workChan fetchChan reads : List QueuedWork}
    (fits : ∀ worker ∈ workers, worker.Fits config)
    (waiting : keeps pool.queued (workChan ++ pool.heldWorks ++ pool.coalescer.hand ++ fetchChan ++
      workers.flatMap PoolWorker.round) reads)
    (emptied : pool.workChan = [] → workChan = []) (emptiedFetch : pool.fetchChan = [] → fetchChan = [])
    (returned : .returned ∈ workers → pool.inputClosed config = true ∧
      (if 0 < config.dedupWindow then fetchChan else workChan) = [])
    (size : workers.length = pool.workers.length) : PoolFolds config keeps
      { pool with workChan := workChan, fetchChan := fetchChan, workers := workers, reads := reads } where
  alive := folds.alive
  sameKeys := folds.sameKeys
  keyed := folds.keyed
  pending := folds.pending
  fits := fits
  keeps := waiting
  finishing := fun work sending => ⟨(folds.finishing work sending).1, emptied (folds.finishing work sending).2⟩
  ended := fun ended =>
    ⟨(folds.ended ended).1, emptied (folds.ended ended).2.1, (folds.ended ended).2.2⟩
  windowless := fun none =>
    ⟨(folds.windowless none).1, (folds.windowless none).2.1, emptiedFetch (folds.windowless none).2.2⟩
  returned := returned
  size := size.trans folds.size

/-- A worker takes the first work of its input. -/
theorem PoolFolds.takes (folds : PoolFolds config keeps pool) (input : pool.input config = work :: rest) :
    ∃ workChan fetchChan, pool.withInput config rest = { pool with workChan := workChan, fetchChan := fetchChan } ∧
      (pool.workChan ++ pool.heldWorks ++ pool.coalescer.hand ++ pool.fetchChan).Perm
        (work :: (workChan ++ pool.heldWorks ++ pool.coalescer.hand ++ fetchChan)) ∧
      ∀ workers reads, (∀ worker ∈ workers, worker.Fits config) →
        (∀ worker ∈ workers, worker ∈ pool.workers ∨ worker ≠ .returned) → workers.length = pool.workers.length →
        keeps pool.queued (workChan ++ pool.heldWorks ++ pool.coalescer.hand ++ fetchChan ++
          workers.flatMap PoolWorker.round) reads →
        PoolFolds config keeps
          { pool with workChan := workChan, fetchChan := fetchChan, workers := workers, reads := reads } := by
  have returned {workers : List PoolWorker}
      (running : ∀ worker ∈ workers, worker ∈ pool.workers ∨ worker ≠ .returned) : PoolWorker.returned ∉ workers := by
    intro member
    rcases running .returned member with before | other
    · rw [(folds.returned before).2] at input
      cases input
    · exact other rfl
  unfold Pool.input at input
  unfold Pool.withInput
  by_cases window : 0 < config.dedupWindow
  · rw [if_pos window] at input ⊢
    refine ⟨pool.workChan, rest, rfl, by rw [input]; exact perm_middle, fun workers reads fits running size waiting => ?_⟩
    exact folds.moved fits waiting id (by simp [input]) (fun member => absurd member (returned running)) size
  · rw [if_neg window] at input ⊢
    refine ⟨rest, pool.fetchChan, rfl, by rw [input]; rfl, fun workers reads fits running size waiting => ?_⟩
    exact folds.moved fits waiting (by simp [input]) id (fun member => absurd member (returned running)) size

theorem running_set {new : PoolWorker} (runs : new ≠ .returned) :
    ∀ worker ∈ workers.set i new, worker ∈ workers ∨ worker ≠ .returned := by
  intro worker member
  rcases mem_or_eq_of_mem_set member with before | rfl
  · exact .inl before
  · exact .inr runs

section

variable (moves : PoolMoves config keeps)

include moves

theorem PoolFolds.workerReceive (folds : PoolFolds config keeps pool) (i : Nat) :
    PoolFolds config keeps (pool.workerReceive config i) := by
  unfold Pool.workerReceive
  cases found : pool.workers[i]? with
  | none => exact folds
  | some worker =>
    cases worker with
    | returned => exact folds
    | draining first drained taken => exact folds
    | receiving =>
      obtain ⟨others, before, after⟩ := round_set found
      dsimp only
      cases input : pool.input config with
      | nil =>
        dsimp only
        split
        · next closed =>
          refine folds.moved (folds.fits_set .returned trivial) ?_ id id (fun _ => ⟨closed, input⟩) length_set
          apply moves.perm folds.keeps
          exact List.Perm.append_left _ ((after .returned).trans before.symm)
        · exact folds
      | cons work rest =>
        obtain ⟨workChan, fetchChan, same, channels, taken⟩ := folds.takes input
        have whole : keeps pool.queued (work :: (workChan ++ pool.heldWorks ++ pool.coalescer.hand ++ fetchChan ++
            pool.workers.flatMap PoolWorker.round)) pool.reads :=
          moves.perm folds.keeps (channels.append_right _).symm
        dsimp only
        rw [same]
        split
        · next zero => exact taken pool.workers pool.reads folds.fits (fun _ => .inl) rfl (moves.skip whole zero)
        · next address =>
          split
          · next batched =>
            refine taken (pool.workers.set i (.draining work [] 1)) pool.reads
              (folds.fits_set _ ⟨address, rfl, batched.le⟩) (running_set PoolWorker.noConfusion) length_set
              (moves.perm whole ?_)
            have now := after (.draining work [] 1)
            simp only [PoolWorker.round] at before now
            grind
          · refine taken pool.workers (pool.reads ++ [work]) folds.fits (fun _ => .inl) rfl ?_
            rw [← roundReads_single address]
            exact moves.read i ((List.getElem?_eq_some_iff.mp found).1.trans_eq folds.size) whole address (Nat.zero_le _)

theorem PoolFolds.workerDrain (folds : PoolFolds config keeps pool) (i : Nat) :
    PoolFolds config keeps (pool.workerDrain config i) := by
  unfold Pool.workerDrain
  cases found : pool.workers[i]? with
  | none => exact folds
  | some worker =>
    cases worker with
    | returned => exact folds
    | receiving => exact folds
    | draining first drained count =>
      obtain ⟨others, before, after⟩ := round_set found
      obtain ⟨address, length, bound⟩ := folds.fits _ (mem_of_getElem? found)
      have finished : PoolFolds config keeps
          ({ pool with reads := pool.reads ++ roundReads first drained }.setWorker i .receiving) := by
        refine folds.moved (folds.fits_set .receiving trivial) ?_ id id ?_ length_set
        · refine moves.read i ((List.getElem?_eq_some_iff.mp found).1.trans_eq folds.size)
            (moves.perm folds.keeps ?_) address (by omega)
          have now := after .receiving
          simp only [Pool.waitingWith, PoolWorker.round] at before now ⊢
          grind
        · intro member
          rcases mem_or_eq_of_mem_set member with old | new
          · exact folds.returned old
          · cases new
      dsimp only
      split
      · next room =>
        cases input : pool.input config with
        | nil => exact finished
        | cons work rest =>
          obtain ⟨workChan, fetchChan, same, channels, taken⟩ := folds.takes input
          dsimp only
          rw [same]
          refine taken (pool.workers.set i (.draining first (drained ++ [work]) (count + 1))) pool.reads
            (folds.fits_set _ ⟨address, by simp [length], room⟩) (running_set PoolWorker.noConfusion) length_set
            (moves.perm folds.keeps ?_)
          have now := after (.draining first (drained ++ [work]) (count + 1))
          simp only [Pool.waitingWith, PoolWorker.round] at before now ⊢
          grind
      · exact finished

/-- Queueing apart, the steps keep whatever moving, folding, dropping and reading work keeps. -/
theorem poolStep_keeps (folds : PoolFolds config keeps pool) (event : PoolEvent)
    (queues : ∀ work, event = .queue work → PoolFolds config keeps (pool.queue work)) :
    PoolFolds config keeps (poolStep config pool event) := by
  cases event with
  | queue work => exact queues work rfl
  | close => exact folds.close
  | tick now =>
    simp only [poolStep]
    split
    · next ready => exact (folds.selects ready.1 ready.2).tick moves now
    · exact folds
  | receive now =>
    simp only [poolStep]
    split
    · next ready => exact folds.receive moves ready.1 ready.2 now
    · exact folds
  | sent now =>
    simp only [poolStep]
    split
    · next window => exact folds.sent moves window now
    · exact folds
  | workerReceive worker => exact folds.workerReceive moves worker
  | workerDrain worker => exact folds.workerDrain moves worker

end

theorem carries_moves (config : PoolConfig) : PoolMoves config Carries where
  perm := fun carries same => carries.perm same
  fold := Carries.fold
  skip := Carries.skip
  read := by
    intro queued waiting reads first drained _ _ carries address _
    obtain ⟨sound, same⟩ := roundReads_spec address fun work member =>
      carries.sound work (mem_append_left _ member)
    exact carries.read sound same

theorem poolStep_folds (config : PoolConfig) (pool : Pool) (event : PoolEvent) (folds : PoolFolds config Carries pool) :
    PoolFolds config Carries (poolStep config pool event) := by
  have moves := carries_moves config
  exact poolStep_keeps moves folds event fun work _ => folds.queue moves work (folds.keeps.queue work)

/-! ## A closed queue drains -/

def AfterSend.weight : AfterSend → Nat
  | .hold _ => 5
  | _ => 0

def CoalescerState.weight : CoalescerState → Nat
  | .selecting => 1
  | .sending _ next => 4 + next.weight
  | .returned => 0
  | .crashed => 0

def PoolWorker.weight : PoolWorker → Nat
  | .receiving => 1
  | .draining _ drained _ => 2 + drained.length
  | .returned => 0

/-- The steps the pool has left at most: an item weighs more the further it is from its read. -/
def Pool.left (pool : Pool) : Nat :=
  5 * pool.workChan.length + 4 * pool.order.length + pool.coalescer.weight + 2 * pool.fetchChan.length +
    (pool.workers.map PoolWorker.weight).sum

theorem forward_left (pool : Pool) (sameKeys : (pool.order.map (·.key)).Perm pool.held.keys) (some : pool.order ≠ [])
    (next : AfterSend) :
    (pool.forwardOldest next).left + pool.coalescer.weight = pool.left + next.weight := by
  obtain ⟨h, rest, work, order, found⟩ := exists_oldest sameKeys some
  simp only [Pool.forwardOldest, order, found, Pool.left, CoalescerState.weight, length_cons]
  omega

theorem tick_left (pool : Pool) (sameKeys : (pool.order.map (·.key)).Perm pool.held.keys) (now : Nat) :
    (pool.tick now).left + pool.coalescer.weight ≤ pool.left + 1 := by
  unfold Pool.tick
  split
  · simp only [Pool.left, CoalescerState.weight]
    omega
  · next h rest order =>
    split
    · have forward := forward_left pool sameKeys (by simp [order]) (.tick now)
      simp only [AfterSend.weight] at forward
      omega
    · simp only [Pool.left, CoalescerState.weight]
      omega

theorem closing_left (pool : Pool) (sameKeys : (pool.order.map (·.key)).Perm pool.held.keys) :
    pool.closing.left + pool.coalescer.weight ≤ pool.left := by
  unfold Pool.closing
  split
  · simp only [Pool.left, CoalescerState.weight]
    omega
  · next some =>
    have forward := forward_left pool sameKeys some .closing
    simp only [AfterSend.weight] at forward
    omega

theorem hold_left (config : PoolConfig) (now : Nat) (pool : Pool) (work : QueuedWork) :
    (pool.hold config now work).left + pool.coalescer.weight = pool.left + 5 := by
  simp only [Pool.hold, Pool.left, CoalescerState.weight, length_append, length_singleton]
  omega

/-- The coalescer's `select` makes progress unless there is neither work nor an end to it. -/
theorem PoolFolds.receive_left (folds : PoolFolds config keeps pool)
    (selecting : pool.coalescer = .selecting) (now : Nat) :
    (pool.receive config now).left < pool.left ∨
      (pool.receive config now = pool ∧ pool.workChan = [] ∧ pool.closed = false) := by
  have weight : pool.coalescer.weight = 1 := by rw [selecting]; rfl
  unfold Pool.receive
  cases chan : pool.workChan with
  | nil =>
    dsimp only
    split
    · left
      have closing := closing_left pool folds.sameKeys
      omega
    · next closed => exact .inr ⟨rfl, rfl, by simpa using closed⟩
  | cons work rest =>
    left
    have shorter : pool.left = { pool with workChan := rest }.left + 5 := by
      simp only [Pool.left, chan, length_cons]
      omega
    dsimp only
    split
    · omega
    · split
      · simp only [Pool.left] at shorter ⊢
        omega
      · split
        · next full =>
          have forward := forward_left { pool with workChan := rest } folds.sameKeys
            (folds.order_ne_nil full) (.hold work)
          simp only [AfterSend.weight, weight] at forward
          omega
        · have holds := hold_left config now { pool with workChan := rest } work
          simp only [weight] at holds
          omega

theorem PoolFolds.sent_left (folds : PoolFolds config keeps pool) (now : Nat) :
    (pool.sent config now).left < pool.left ∨ (pool.sent config now = pool ∧
      ((∀ work next, pool.coalescer ≠ .sending work next) ∨ chanCap ≤ pool.fetchChan.length)) := by
  unfold Pool.sent
  cases state : pool.coalescer with
  | selecting => exact .inr ⟨rfl, .inl fun _ _ => CoalescerState.noConfusion⟩
  | returned => exact .inr ⟨rfl, .inl fun _ _ => CoalescerState.noConfusion⟩
  | crashed => exact .inr ⟨rfl, .inl fun _ _ => CoalescerState.noConfusion⟩
  | sending work next =>
    dsimp only
    split
    · left
      have weight : pool.coalescer.weight = 4 + next.weight := by rw [state]; rfl
      have longer : { pool with fetchChan := pool.fetchChan ++ [work] }.left = pool.left + 2 := by
        simp only [Pool.left, length_append, length_singleton]
        omega
      cases next with
      | tick since =>
        have ticks := tick_left { pool with fetchChan := pool.fetchChan ++ [work] } folds.sameKeys since
        simp only [weight, AfterSend.weight] at ticks
        rw [← state]
        dsimp only
        omega
      | closing =>
        have closes := closing_left { pool with fetchChan := pool.fetchChan ++ [work] } folds.sameKeys
        simp only [weight, AfterSend.weight] at closes
        rw [← state]
        dsimp only
        omega
      | hold held =>
        have holds := hold_left config now { pool with fetchChan := pool.fetchChan ++ [work] } held
        simp only [weight, AfterSend.weight] at holds
        rw [← state]
        dsimp only
        omega
    · next full => exact .inr ⟨rfl, .inr (Nat.not_lt.mp full)⟩

theorem weight_set (found : workers[i]? = some old) (new : PoolWorker) :
    ((workers.set i new).map PoolWorker.weight).sum + old.weight = (workers.map PoolWorker.weight).sum + new.weight := by
  obtain ⟨bound, same⟩ := List.getElem?_eq_some_iff.mp found
  have before := ((getElem_cons_eraseIdx_perm bound).map PoolWorker.weight).sum_eq
  have after := ((set_perm_cons_eraseIdx bound new).map PoolWorker.weight).sum_eq
  rw [same, map_cons, sum_cons] at before
  rw [map_cons, sum_cons] at after
  omega

theorem withInput_left (input : pool.input config = work :: rest) :
    (pool.withInput config rest).left + 2 ≤ pool.left ∧ (pool.withInput config rest).workers = pool.workers := by
  unfold Pool.input at input
  unfold Pool.withInput
  by_cases window : 0 < config.dedupWindow
  · rw [if_pos window] at input
    rw [if_pos window]
    simp only [Pool.left, input, length_cons, and_true]
    omega
  · rw [if_neg window] at input
    rw [if_neg window]
    simp only [Pool.left, input, length_cons, and_true]
    omega

theorem setWorker_left (found : pool.workers[i]? = some old) (new : PoolWorker) :
    (pool.setWorker i new).left + old.weight = pool.left + new.weight := by
  have workers := weight_set found new
  simp only [Pool.setWorker, Pool.left]
  omega

theorem workerReceive_left (config : PoolConfig) (pool : Pool) (i : Nat) :
    (pool.workerReceive config i).left < pool.left ∨ (pool.workerReceive config i = pool ∧
      (pool.workers[i]? ≠ some .receiving ∨ (pool.input config = [] ∧ pool.inputClosed config = false))) := by
  unfold Pool.workerReceive
  cases found : pool.workers[i]? with
  | none => exact .inr ⟨rfl, .inl (by simp)⟩
  | some worker =>
    cases worker with
    | returned => exact .inr ⟨rfl, .inl (by simp)⟩
    | draining first drained taken => exact .inr ⟨rfl, .inl (by simp)⟩
    | receiving =>
      dsimp only
      cases input : pool.input config with
      | nil =>
        dsimp only
        split
        · left
          have ends := setWorker_left found .returned
          simp only [PoolWorker.weight] at ends
          omega
        · next closed => exact .inr ⟨rfl, .inr ⟨rfl, by simpa using closed⟩⟩
      | cons work rest =>
        left
        obtain ⟨lighter, workers⟩ := withInput_left input
        dsimp only
        split
        · omega
        · split
          · have starts := setWorker_left (workers.symm ▸ found) (.draining work [] 1)
            simp only [PoolWorker.weight, length_nil] at starts
            omega
          · simp only [Pool.left] at lighter ⊢
            omega

theorem workerDrain_left (config : PoolConfig) (pool : Pool) (i : Nat) :
    (pool.workerDrain config i).left < pool.left ∨ (pool.workerDrain config i = pool ∧
      ∀ first drained taken, pool.workers[i]? ≠ some (.draining first drained taken)) := by
  unfold Pool.workerDrain
  cases found : pool.workers[i]? with
  | none => exact .inr ⟨rfl, by simp⟩
  | some worker =>
    cases worker with
    | returned => exact .inr ⟨rfl, by simp⟩
    | receiving => exact .inr ⟨rfl, by simp⟩
    | draining first drained taken =>
      left
      have finished : ({ pool with reads := pool.reads ++ roundReads first drained }.setWorker i .receiving).left <
          pool.left := by
        have running : { pool with reads := pool.reads ++ roundReads first drained }.workers[i]? =
            some (.draining first drained taken) := found
        have ends := setWorker_left running .receiving
        simp only [PoolWorker.weight, Pool.left] at ends ⊢
        omega
      dsimp only
      split
      · cases input : pool.input config with
        | nil => exact finished
        | cons work rest =>
          obtain ⟨lighter, workers⟩ := withInput_left input
          have goes := setWorker_left (workers.symm ▸ found) (.draining first (drained ++ [work]) (taken + 1))
          simp only [PoolWorker.weight, length_append, length_singleton] at goes
          dsimp only
          omega
      · exact finished

theorem poolStep_left (config : PoolConfig) (pool : Pool) (event : PoolEvent) (folds : PoolFolds config keeps pool)
    (closed : pool.closed = true) : (poolStep config pool event).left ≤ pool.left := by
  cases event with
  | queue work => simp [poolStep, Pool.queue, closed]
  | close => exact le_rfl
  | tick now =>
    simp only [poolStep]
    split
    · next ready =>
      have ticks := tick_left pool folds.sameKeys now
      have weight : pool.coalescer.weight = 1 := by rw [ready.2]; rfl
      omega
    · exact le_rfl
  | receive now =>
    simp only [poolStep]
    split
    · next ready =>
      rcases folds.receive_left ready.2 now with less | ⟨same, _⟩
      · exact less.le
      · rw [same]
    · exact le_rfl
  | sent now =>
    simp only [poolStep]
    split
    · next window =>
      rcases folds.sent_left now with less | ⟨same, _⟩
      · exact less.le
      · rw [same]
    · exact le_rfl
  | workerReceive worker =>
    rcases workerReceive_left config pool worker with less | ⟨same, _⟩
    · exact less.le
    · exact (congrArg Pool.left same).le
  | workerDrain worker =>
    rcases workerDrain_left config pool worker with less | ⟨same, _⟩
    · exact less.le
    · exact (congrArg Pool.left same).le

/-- A closed pool that is not drained can take a step that brings it closer. -/
theorem exists_poolStep_left (folds : PoolFolds config keeps pool) (closed : pool.closed = true)
    (busy : ¬ pool.Drained config) : ∃ event, (poolStep config pool event).left < pool.left := by
  by_contra stuck
  push Not at stuck
  -- No worker is in a round: it could go on draining.
  have noRound (first : QueuedWork) (drained : List QueuedWork) (taken : Nat) :
      PoolWorker.draining first drained taken ∉ pool.workers := by
    intro member
    obtain ⟨i, found⟩ := mem_iff_getElem?.mp member
    rcases workerDrain_left config pool i with less | ⟨_, none⟩
    · exact absurd less (Nat.not_lt.mpr (stuck (.workerDrain i)))
    · exact none first drained taken found
  -- A worker that waits has nothing to take and no end in sight.
  have waits (member : PoolWorker.receiving ∈ pool.workers) :
      pool.input config = [] ∧ pool.inputClosed config = false := by
    obtain ⟨i, found⟩ := mem_iff_getElem?.mp member
    rcases workerReceive_left config pool i with less | ⟨_, other | empty⟩
    · exact absurd less (Nat.not_lt.mpr (stuck (.workerReceive i)))
    · exact absurd found other
    · exact empty
  obtain ⟨worker, member⟩ : ∃ worker, worker ∈ pool.workers :=
    exists_mem_of_length_pos (folds.size ▸ config.hasWorker)
  have input : pool.input config = [] := by
    cases worker with
    | receiving => exact (waits member).1
    | draining first drained taken => exact absurd member (noRound first drained taken)
    | returned => exact (folds.returned member).2
  -- So the coalescer, if there is one, has returned: it has room to send, and the queue is closed.
  have ended : 0 < config.dedupWindow → pool.coalescer = .returned := by
    intro window
    rw [Pool.input, if_pos window] at input
    cases state : pool.coalescer with
    | returned => rfl
    | crashed => exact absurd state folds.alive
    | selecting =>
      rcases folds.receive_left state 0 with less | ⟨_, _, open_⟩
      · have still := stuck (.receive 0)
        simp only [poolStep, if_pos (And.intro window state)] at still
        exact absurd less (Nat.not_lt.mpr still)
      · rw [closed] at open_
        cases open_
    | sending work next =>
      rcases folds.sent_left 0 with less | ⟨_, idle | full⟩
      · have still := stuck (.sent 0)
        simp only [poolStep, if_pos window] at still
        exact absurd less (Nat.not_lt.mpr still)
      · exact absurd state (idle work next)
      · rw [input] at full
        exact absurd full (by decide)
  apply busy
  refine ⟨closed, ended, ?_⟩
  intro worker member
  cases worker with
  | returned => rfl
  | draining first drained taken => exact absurd member (noRound first drained taken)
  | receiving =>
    have open_ := (waits member).2
    rw [Pool.inputClosed] at open_
    split at open_
    · next window => simp [ended window] at open_
    · rw [closed] at open_
      cases open_

/-! ## The pool's runs -/

def Pool.readItems (pool : Pool) : List Nat :=
  pool.reads.flatMap (·.items)

theorem PoolFolds.standing_reads (folds : PoolFolds config Carries pool) : standing pool.reads = pool.readItems := by
  have whole : pool.reads.filter (fun read => read.work.address ≠ 0) = pool.reads :=
    filter_eq_self.mpr fun read member => by simpa using (folds.keeps.soundReads read member).2
  rw [standing, whole, Pool.readItems]

theorem PoolFolds.count_item (folds : PoolFolds config Carries pool) {id : Nat} {item : BalanceWork}
    (queued : pool.queued[id]? = some item) (address : item.address ≠ 0) :
    (standing (pool.waitingWith pool.coalescer.hand)).count id + pool.readItems.count id = 1 := by
  obtain ⟨bound, _⟩ := List.getElem?_eq_some_iff.mp queued
  have listed : id ∈ addressedItems pool.queued :=
    mem_filter.mpr ⟨mem_range.mpr bound, by simpa [queued] using address⟩
  have once : (addressedItems pool.queued).count id = 1 :=
    count_eq_one_of_mem (nodup_range.filter _) listed
  rw [← once, ← Multiset.coe_count, ← Multiset.coe_count, ← folds.keeps.account, folds.standing_reads,
    Multiset.count_add]

theorem PoolFolds.drained (folds : PoolFolds config Carries pool) (drained : pool.Drained config) :
    pool.order = [] ∧ pool.held.keys = [] ∧ pool.waitingWith pool.coalescer.hand = [] := by
  obtain ⟨_, ended, returned⟩ := drained
  obtain ⟨worker, member⟩ : ∃ worker, worker ∈ pool.workers :=
    exists_mem_of_length_pos (folds.size ▸ config.hasWorker)
  have input := (folds.returned (returned worker member ▸ member)).2
  have rounds : pool.workers.flatMap PoolWorker.round = [] := by
    rw [flatMap_eq_nil_iff]
    intro other inside
    rw [returned other inside]
    rfl
  have channels : pool.order = [] ∧ pool.workChan = [] ∧ pool.fetchChan = [] ∧ pool.coalescer.hand = [] := by
    by_cases window : 0 < config.dedupWindow
    · have state := ended window
      rw [Pool.input, if_pos window] at input
      exact ⟨(folds.ended state).2.2, (folds.ended state).2.1, input, by rw [state]; rfl⟩
    · obtain ⟨state, order, fetch⟩ := folds.windowless (Nat.eq_zero_of_not_pos window)
      rw [Pool.input, if_neg window] at input
      exact ⟨order, input, fetch, by rw [state]; rfl⟩
  obtain ⟨order, work, fetch, hand⟩ := channels
  have keys : pool.held.keys = [] := by
    have sameKeys := folds.sameKeys
    rw [order] at sameKeys
    exact sameKeys.nil_eq.symm
  have held : pool.heldWorks = [] := by
    rw [Pool.heldWorks, map_eq_nil_iff]
    exact map_eq_nil_iff.mp keys
  refine ⟨order, keys, ?_⟩
  rw [Pool.waitingWith, work, held, hand, fetch, rounds]
  rfl

/-- In every state of every run: the coalescer has never taken a key it does not hold; the window and its queue name
the same keys, each once; every queued item that has an address waits in one place or takes part in one read; a
read's items were queued before, are of its key, and the read is at the greatest epoch and block among them. A closed
queue only gets shorter, can always get shorter, and leaves nothing held: then every such item has been read once. -/
theorem balancePool_folds (config : PoolConfig) (events : List PoolEvent) :
    let pool := run (poolStep config) (Pool.start config) events
    pool.coalescer ≠ .crashed ∧
    (pool.order.map (·.key)).Nodup ∧
    (∀ key, key ∈ pool.order.map (·.key) ↔ (pool.held.lookup key).isSome) ∧
    (∀ id item, pool.queued[id]? = some item → item.address ≠ 0 →
      (standing (pool.waitingWith pool.coalescer.hand)).count id + pool.readItems.count id = 1) ∧
    (∀ read ∈ pool.reads, (∀ id ∈ read.items, ∃ item, pool.queued[id]? = some item ∧ item.key = read.key) ∧
      IsGreatest { rank | ∃ id ∈ read.items, ∃ item, pool.queued[id]? = some item ∧ item.rank = rank } read.work.rank) ∧
    (pool.closed = true → (∀ event, (poolStep config pool event).left ≤ pool.left) ∧
      (¬ pool.Drained config → ∃ event, (poolStep config pool event).left < pool.left)) ∧
    (pool.Drained config → pool.order = [] ∧ pool.held.keys = [] ∧
      ∀ id item, pool.queued[id]? = some item → item.address ≠ 0 → pool.readItems.count id = 1) := by
  intro pool
  have folds : PoolFolds config Carries pool :=
    run_invariant (PoolFolds config Carries) (start_folds config ⟨nofun, nofun, rfl⟩) (poolStep_folds config) events
  refine ⟨folds.alive, ?_, ?_, fun _ _ => folds.count_item, ?_, ?_, ?_⟩
  · exact folds.sameKeys.nodup_iff.mpr pool.held.keys_nodup
  · intro key
    rw [folds.sameKeys.mem_iff, AList.lookup_isSome, AList.mem_keys]
  · intro read member
    obtain ⟨sound, _⟩ := folds.keeps.soundReads read member
    refine ⟨?_, sound.attained, ?_⟩
    · intro id inside
      obtain ⟨item, found, key, _⟩ := sound.bounded id inside
      exact ⟨item, found, key⟩
    · rintro rank ⟨id, inside, item, found, rfl⟩
      obtain ⟨other, same, _, bound⟩ := sound.bounded id inside
      rw [found] at same
      rw [Option.some.inj same]
      exact bound
  · intro closed
    exact ⟨fun event => poolStep_left config pool event folds closed, exists_poolStep_left folds closed⟩
  · intro drained
    obtain ⟨order, keys, empty⟩ := folds.drained drained
    refine ⟨order, keys, ?_⟩
    intro id item queued address
    have counted := folds.count_item queued address
    rw [empty] at counted
    simpa [standing] using counted

/-- Two items of one key, the second of a later epoch at a lower block, are one read at the later epoch. -/
example :
    (run (poolStep ⟨1, 0, 1, by decide⟩) (Pool.start ⟨1, 0, 1, by decide⟩)
      [.queue ⟨7, 1, 20, 1⟩, .queue ⟨7, 1, 10, 2⟩, .receive 0, .receive 0, .close, .receive 0, .sent 0,
        .workerReceive 0, .workerReceive 0]).reads = [⟨⟨7, 1, 10, 2⟩, [0, 1]⟩] := by
  decide +kernel

end OpsIndexer.Indexing
