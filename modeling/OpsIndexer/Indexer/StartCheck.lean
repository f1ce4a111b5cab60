import OpsIndexer.Indexer.HeadTurns
import OpsIndexer.Indexer.Realtime

/-!
# The start check

`revertStaleHead` walks down from the stored head and measures how deep the stored chain differs from the node's, before
any loop starts. Numbers that are not stored are passed over, so the walk ends `maxReorgDepth` numbers below the head
whether or not a block is stored there.
-/

namespace OpsIndexer.Indexing

open Eth Db Lib.Runs

def staleHeadWindow : Nat := 10

inductive HashAnswer where
  | hash (chainHash : Hash)
  | notAvailable
  | failed
  deriving DecidableEq, Repr

inductive StartError where
  | readStored (number : Nat)
  | checkStored (number : Nat)
  | staleForkTooDeep (top : Nat)
  | revertFailed (top : Nat)
  deriving DecidableEq, Repr

structure StartAnswers where
  /-- Whether `GetBlock` answers. -/
  stored : Nat → Bool
  chain : Nat → HashAnswer
  revert : RevertAnswers

structure HeadWalk where
  depth : Nat := 0
  skipped : List Nat := []
  failure : Option StartError := none
  deriving DecidableEq, Repr

def compareStoredBlock (store : HeadStore) (top : Nat) (answers : StartAnswers) (walk : HeadWalk) (d : Nat) :
    HeadWalk × Bool :=
  let n := top - d
  if answers.stored n then
    match store.getBlock n, answers.chain n with
    | none, _ => (walk, true)
    | some _, .notAvailable =>
      ({ walk with skipped := walk.skipped ++ [n] }, (walk.skipped ++ [n]).length < staleHeadWindow)
    | some _, .failed => ({ walk with failure := some (.checkStored n) }, false)
    | some stored, .hash chainHash =>
      if stored.hash = chainHash then (walk, d + 1 < staleHeadWindow)
      else if maxReorgDepth < d + 1 then
        ({ walk with depth := d + 1, failure := some (.staleForkTooDeep top) }, false)
      else ({ walk with depth := d + 1 }, true)
  else ({ walk with failure := some (.readStored n) }, false)

def walkStoredHead (store : HeadStore) (top : Nat) (answers : StartAnswers) : HeadWalk :=
  foldUntil (compareStoredBlock store top answers) {} (List.range (min top (maxReorgDepth + 1)))

def revertStaleHead (store : HeadStore) (top : Nat) (answers : StartAnswers) :
    HeadStore × Except StartError (Nat × List Nat) :=
  let walk := walkStoredHead store top answers
  match walk.failure with
  | some failure => (store, .error failure)
  | none =>
    if walk.depth = 0 then (store, .ok (top, walk.skipped))
    else
      match handleReorg store (top - walk.depth + 1) answers.revert with
      | (next, false) => (next, .error (.revertFailed top))
      | (next, true) => (next, .ok (top - walk.depth, walk.skipped.filter (· ≤ top - walk.depth)))

/-! ## A node that serves one chain -/

def servingNode (chain : Nat → Hash) : StartAnswers where
  stored := fun _ => true
  chain := fun number => .hash (chain number)
  revert := { latest := true, deletes := fun _ => .ok }

def HeadBlock.Stale (chain : Nat → Hash) (block : HeadBlock) : Prop :=
  block.hash ≠ chain block.number

instance HeadBlock.decidableStale (chain : Nat → Hash) (block : HeadBlock) : Decidable (block.Stale chain) :=
  inferInstanceAs (Decidable (block.hash ≠ chain block.number))

def ForksAt (chain : Nat → Hash) (store : HeadStore) (fork : Nat) : Prop :=
  ∀ block ∈ store.blocks, block.Stale chain ↔ fork < block.number

structure TooDeep (chain : Nat → Hash) (store : HeadStore) (block : HeadBlock) : Prop where
  stored : block ∈ store.blocks
  deep : block.number + maxReorgDepth < store.getLatestBlockNumber
  stale : ∀ other ∈ store.blocks, block.number ≤ other.number → other.Stale chain

section

variable {chain : Nat → Hash} {store : HeadStore} {top : Nat}

variable {d fork : Nat} {block : HeadBlock}

theorem compareStoredBlock_gap (walk : HeadWalk) (gap : store.getBlock (top - d) = none) :
    compareStoredBlock store top (servingNode chain) walk d = (walk, true) := by
  simp [compareStoredBlock, servingNode, gap]

theorem compareStoredBlock_same (walk : HeadWalk) (found : store.getBlock (top - d) = some block)
    (same : ¬block.Stale chain) :
    compareStoredBlock store top (servingNode chain) walk d = (walk, decide (d + 1 < staleHeadWindow)) := by
  have number := (HeadStore.getBlock_eq_some.mp found).2
  rw [HeadBlock.Stale, number, not_not] at same
  simp [compareStoredBlock, servingNode, found, same]

theorem compareStoredBlock_stale (walk : HeadWalk) (found : store.getBlock (top - d) = some block)
    (stale : block.Stale chain) :
    compareStoredBlock store top (servingNode chain) walk d =
      if maxReorgDepth < d + 1 then ({ walk with depth := d + 1, failure := some (.staleForkTooDeep top) }, false)
      else ({ walk with depth := d + 1 }, true) := by
  have number := (HeadStore.getBlock_eq_some.mp found).2
  rw [HeadBlock.Stale, number] at stale
  simp [compareStoredBlock, servingNode, found, stale]

theorem compareStoredBlock_forks (forks : ForksAt chain store fork) (shallow : top - fork ≤ maxReorgDepth)
    (walk : HeadWalk) :
    (compareStoredBlock store top (servingNode chain) walk d = (walk, true) ∧ ¬store.Stored (top - d)) ∨
      (∃ more, compareStoredBlock store top (servingNode chain) walk d = (walk, more) ∧ top - d ≤ fork) ∨
      (compareStoredBlock store top (servingNode chain) walk d = ({ walk with depth := d + 1 }, true) ∧
        fork < top - d) := by
  cases found : store.getBlock (top - d) with
  | none => exact .inl ⟨compareStoredBlock_gap walk found, HeadStore.getBlock_eq_none.mp found⟩
  | some block =>
    obtain ⟨member, number⟩ := HeadStore.getBlock_eq_some.mp found
    by_cases stale : block.Stale chain
    · have above := (forks block member).mp stale
      rw [number] at above
      refine .inr (.inr ⟨?_, above⟩)
      rw [compareStoredBlock_stale walk found stale, if_neg (by omega)]
    · have below := mt (forks block member).mpr stale
      rw [number, not_lt] at below
      exact .inr (.inl ⟨_, compareStoredBlock_same walk found stale, below⟩)

structure Measured (store : HeadStore) (top fork : Nat) (walk : HeadWalk) : Prop where
  failure : walk.failure = none
  above : walk.depth = 0 ∨ fork + walk.depth ≤ top
  reached : ∀ number, store.Stored number → fork < number → top < number + walk.depth

structure Measuring (store : HeadStore) (top fork d : Nat) (walk : HeadWalk) : Prop where
  failure : walk.failure = none
  above : walk.depth = 0 ∨ fork + walk.depth ≤ top
  reached : ∀ number, store.Stored number → fork < number → top < number + d → top < number + walk.depth

theorem range'_eq_cons {count item : Nat} {rest : List Nat} (numbers : item :: rest = List.range' d (count - d)) :
    d < count ∧ item = d ∧ rest = List.range' (d + 1) (count - (d + 1)) := by
  cases left : count - d with
  | zero =>
    rw [left] at numbers
    cases numbers
  | succ more =>
    rw [left, List.range'_succ, List.cons.injEq] at numbers
    refine ⟨by omega, numbers.1, ?_⟩
    rw [numbers.2]
    congr 1
    omega

theorem walkStoredHead_measured (forks : ForksAt chain store fork) (shallow : top - fork ≤ maxReorgDepth) :
    Measured store top fork (walkStoredHead store top (servingNode chain)) := by
  refine foldUntil_induction
    (fun rest walk => ∃ d, rest = List.range' d (min top (maxReorgDepth + 1) - d) ∧ Measuring store top fork d walk)
    (Measured store top fork) ?_ ?_ ?_ _ _ ⟨0, List.range_eq_range', rfl, .inl rfl, ?_⟩
  · rintro item rest walk ⟨d, numbers, measuring⟩ more
    obtain ⟨inside, rfl, rfl⟩ := range'_eq_cons numbers
    refine ⟨item + 1, rfl, ?_⟩
    rcases compareStoredBlock_forks forks shallow walk with ⟨turn, gap⟩ | ⟨_, turn, below⟩ | ⟨turn, above⟩
    · rw [turn]
      refine ⟨measuring.failure, measuring.above, fun number stored higher near => ?_⟩
      refine measuring.reached number stored higher (lt_of_le_of_ne (Nat.lt_succ_iff.mp near) fun same => gap ?_)
      rwa [show top - item = number by omega]
    · rw [turn]
      exact ⟨measuring.failure, measuring.above,
        fun number stored higher _ => measuring.reached number stored higher (by omega)⟩
    · rw [turn]
      exact ⟨measuring.failure, .inr (show fork + (item + 1) ≤ top by omega), fun _ _ _ near => near⟩
  · rintro item rest walk ⟨d, numbers, measuring⟩ stop
    obtain ⟨inside, rfl, rfl⟩ := range'_eq_cons numbers
    rcases compareStoredBlock_forks forks shallow walk with ⟨turn, _⟩ | ⟨_, turn, below⟩ | ⟨turn, _⟩
    · rw [turn] at stop
      cases stop
    · rw [turn]
      exact ⟨measuring.failure, measuring.above,
        fun number stored higher => measuring.reached number stored higher (by omega)⟩
    · rw [turn] at stop
      cases stop
  · rintro walk ⟨d, numbers, measuring⟩
    have count : min top (maxReorgDepth + 1) - d = 0 := by simpa using numbers.symm
    exact ⟨measuring.failure, measuring.above,
      fun number stored higher => measuring.reached number stored higher (by omega)⟩
  · intro number _ _ near
    exact near

theorem handleReorg_ok (store : HeadStore) (fromBlock : Nat) :
    (handleReorg store fromBlock (servingNode chain).revert).2 = true := by
  rw [handleReorg, if_pos (show (servingNode chain).revert.latest = true from rfl)]
  refine foldUntil_induction (fun _ (state : HeadStore × Bool) => state.2 = true) (fun state => state.2 = true)
    ?_ ?_ (fun _ done => done) _ _ rfl
  · intro number rest state _ _
    rfl
  · intro number rest state _ stop
    cases stop

theorem handleReorg_cutAt (store : HeadStore) (fromBlock : Nat) :
    store.CutAt (handleReorg store fromBlock (servingNode chain).revert).1 fromBlock := by
  obtain ⟨cut, reverted⟩ := handleReorg_reverted store fromBlock (servingNode chain).revert
  have done := reverted.done (handleReorg_ok store fromBlock)
  subst done
  exact reverted.left

theorem revertStaleHead_ok (measured : (walkStoredHead store top (servingNode chain)).failure = none) :
    ∃ ended, (revertStaleHead store top (servingNode chain)).2 = .ok ended := by
  rw [revertStaleHead, measured]
  simp only
  split
  · exact ⟨_, rfl⟩
  · have done : (handleReorg store _ (servingNode chain).revert).2 = true := handleReorg_ok store
      (top - (walkStoredHead store top (servingNode chain)).depth + 1)
    split
    · next ended =>
      rw [ended] at done
      cases done
    · exact ⟨_, rfl⟩

theorem mem_revertStaleHead (measured : (walkStoredHead store top (servingNode chain)).failure = none)
    (deep : (walkStoredHead store top (servingNode chain)).depth ≠ 0) (block : HeadBlock) :
    block ∈ (revertStaleHead store top (servingNode chain)).1.blocks ↔
      block ∈ store.blocks ∧ block.number < top - (walkStoredHead store top (servingNode chain)).depth + 1 := by
  have left : store.CutAt (handleReorg store _ (servingNode chain).revert).1 _ := handleReorg_cutAt store
    (top - (walkStoredHead store top (servingNode chain)).depth + 1)
  rw [← left.mem block, revertStaleHead, measured]
  simp only [if_neg deep]
  split
  · next ended => rw [ended]
  · next ended => rw [ended]

/-- All stored blocks above `block` are stale: the walk fails when a block is stored at its last number. -/
theorem walkStoredHead_deep (deep : TooDeep chain store block) :
    (walkStoredHead store store.getLatestBlockNumber (servingNode chain)).failure.isSome ↔
      store.Stored (store.getLatestBlockNumber - maxReorgDepth) := by
  have below := deep.deep
  have stale : ∀ d ≤ maxReorgDepth, ∀ other, store.getBlock (store.getLatestBlockNumber - d) = some other →
      other.Stale chain := by
    intro d bound other found
    obtain ⟨member, number⟩ := HeadStore.getBlock_eq_some.mp found
    exact deep.stale other member (by omega)
  rw [walkStoredHead, show min store.getLatestBlockNumber (maxReorgDepth + 1) = maxReorgDepth + 1 by omega]
  refine foldUntil_induction
    (fun rest walk => walk.failure = none ∧ ∃ d, rest = List.range' d (maxReorgDepth + 1 - d) ∧
      (maxReorgDepth < d → ¬store.Stored (store.getLatestBlockNumber - maxReorgDepth)))
    (fun (walk : HeadWalk) => walk.failure.isSome = true ↔ store.Stored (store.getLatestBlockNumber - maxReorgDepth))
    ?_ ?_ ?_ _ _ ⟨rfl, 0, List.range_eq_range', by omega⟩
  · rintro item rest walk ⟨failure, d, numbers, last⟩ more
    obtain ⟨inside, rfl, rfl⟩ := range'_eq_cons numbers
    cases found : store.getBlock (store.getLatestBlockNumber - item) with
    | none =>
      rw [compareStoredBlock_gap walk found]
      refine ⟨failure, item + 1, rfl, fun passed => ?_⟩
      rw [show maxReorgDepth = item by omega]
      exact HeadStore.getBlock_eq_none.mp found
    | some other =>
      rw [compareStoredBlock_stale walk found (stale item (by omega) other found)] at more ⊢
      split at more
      · cases more
      · next shallow =>
        rw [if_neg shallow]
        exact ⟨failure, item + 1, rfl, fun passed => absurd passed (by omega)⟩
  · rintro item rest walk ⟨failure, d, numbers, last⟩ stop
    obtain ⟨inside, rfl, rfl⟩ := range'_eq_cons numbers
    cases found : store.getBlock (store.getLatestBlockNumber - item) with
    | none =>
      rw [compareStoredBlock_gap walk found] at stop
      cases stop
    | some other =>
      rw [compareStoredBlock_stale walk found (stale item (by omega) other found)] at stop ⊢
      split at stop
      · next passed =>
        rw [if_pos passed, show maxReorgDepth = item by omega]
        obtain ⟨member, number⟩ := HeadStore.getBlock_eq_some.mp found
        exact iff_of_true rfl ⟨other, member, number⟩
      · cases stop
  · rintro walk ⟨failure, d, numbers, last⟩
    have count : maxReorgDepth + 1 - d = 0 := by simpa using numbers.symm
    rw [failure]
    exact iff_of_false (by simp) (last (by omega))

end

/-! ## The start check over every store -/

structure RevertsStaleFork (chain : Nat → Hash) (store : HeadStore) : Prop where
  fork : ∀ fork, ForksAt chain store fork → store.getLatestBlockNumber - fork ≤ maxReorgDepth →
    (∃ ended, (revertStaleHead store store.getLatestBlockNumber (servingNode chain)).2 = .ok ended) ∧
      ∀ block, block ∈ (revertStaleHead store store.getLatestBlockNumber (servingNode chain)).1.blocks ↔
        block ∈ store.blocks ∧ block.number ≤ fork
  deep : ∀ block, TooDeep chain store block →
    ∃ failure, revertStaleHead store store.getLatestBlockNumber (servingNode chain) = (store, .error failure)

theorem revertsStaleFork_iff (chain : Nat → Hash) (store : HeadStore) :
    RevertsStaleFork chain store ↔
      ((∃ block, TooDeep chain store block) → store.Stored (store.getLatestBlockNumber - maxReorgDepth)) := by
  apply Iff.intro
  · rintro right ⟨block, deep⟩
    obtain ⟨failure, refused⟩ := right.deep block deep
    rw [← walkStoredHead_deep deep]
    cases measured : (walkStoredHead store store.getLatestBlockNumber (servingNode chain)).failure with
    | some failure => rfl
    | none =>
      obtain ⟨ended, done⟩ := revertStaleHead_ok measured
      rw [refused] at done
      cases done
  · intro last
    apply RevertsStaleFork.mk
    · intro fork forks shallow
      have measured := walkStoredHead_measured forks shallow
      refine ⟨revertStaleHead_ok measured.failure, fun block => ?_⟩
      by_cases none : (walkStoredHead store store.getLatestBlockNumber (servingNode chain)).depth = 0
      · have unchanged : (revertStaleHead store store.getLatestBlockNumber (servingNode chain)).1 = store := by
          rw [revertStaleHead, measured.failure]
          simp only [if_pos none]
        rw [unchanged, iff_self_and]
        intro member
        by_contra higher
        have reached := measured.reached block.number ⟨block, member, rfl⟩ (not_le.mp higher)
        have latest := HeadStore.Stored.le_latest ⟨block, member, rfl⟩
        omega
      · rw [mem_revertStaleHead measured.failure none]
        apply and_congr_right
        intro member
        have above := measured.above.resolve_left none
        have reached := measured.reached block.number ⟨block, member, rfl⟩
        omega
    · intro block deep
      obtain ⟨failure, refused⟩ := Option.isSome_iff_exists.mp ((walkStoredHead_deep deep).mpr (last ⟨block, deep⟩))
      refine ⟨failure, ?_⟩
      rw [revertStaleHead, refused]

def staleEnds : HeadStore where
  blocks := [⟨1, 1, 0⟩, ⟨200, 200, 199⟩]
  keyed := by decide
  ranges := MissingRanges.empty
  prunedThrough := 0

/-- The node has neither block; the upper one is deleted and no error is returned. -/
theorem stale_block_kept :
    TooDeep (fun number => number + 1000) staleEnds ⟨1, 1, 0⟩ ∧
      (revertStaleHead staleEnds staleEnds.getLatestBlockNumber (servingNode fun number => number + 1000)).2 =
        .ok (199, []) ∧
      (revertStaleHead staleEnds staleEnds.getLatestBlockNumber (servingNode fun number => number + 1000)).1.blocks =
        [⟨1, 1, 0⟩] := by
  refine ⟨⟨by decide, by decide, by decide⟩, by decide, by decide⟩

end OpsIndexer.Indexing
