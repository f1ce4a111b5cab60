import OpsIndexer.Indexer.HeadLoop

/-!
# The pipelined commit

At every turn the sequential loop is where the pipeline will be once its queue is finished: the queue's blocks, written
one after the other, give the sequential loop's state, or the error it stopped at. A block's own `BeginBlockData` does
not depend on when the blocks before it commit, since no two of them have one number.
-/

namespace OpsIndexer.Indexing

open Eth Db Lib.Runs List

/-! ## Writing out a queue -/

def settle (answers : LoopAnswers) : List InFlight → Loop → Loop × Option HeadError
  | [], loop => (loop, none)
  | flight :: rest, loop =>
    match loop.write flight.block (answers.writes flight.block.number) with
    | (next, none) => settle answers rest next
    | (next, some failure) => (next, some failure)

structure Begun (answers : LoopAnswers) (store : HeadStore) (queue : List InFlight) : Prop where
  begun : ∀ flight ∈ queue,
    flight.begun = store.beginBlockData flight.block (answers.writes flight.block.number).begins
  distinct : (queue.map fun flight => flight.block.number).Nodup

section

variable {answers : LoopAnswers}

variable {store : HeadStore} {other : HeadBlock} {loop settled : Loop} {flight : InFlight} {queue : List InFlight}
  {failure : HeadError} {failed : Option HeadError} {blocks : List FetchedBlock}

theorem beginBlockData_addBlock {block : HeadBlock} (differ : other.number ≠ block.number) (begins : Bool) :
    (store.addBlock block).beginBlockData other begins = store.beginBlockData other begins := by
  have same : (store.addBlock block).getBlock other.number = store.getBlock other.number := by
    rw [HeadStore.addBlock]
    split
    · rfl
    · simp [HeadStore.getBlock, List.find?_append, Ne.symm differ]
  rw [HeadStore.beginBlockData, same, HeadStore.beginBlockData]

theorem beginBlockData_finish {block : HeadBlock} {write : HeadWrite} {begins : Bool}
    (begun : store.beginBlockData block begins = .ok write) (ends : Outcome) (differ : other.number ≠ block.number)
    (otherBegins : Bool) :
    (store.finish write ends).1.beginBlockData other otherBegins = store.beginBlockData other otherBegins := by
  cases write with
  | stored => rfl
  | opened added =>
    have same : added = block := by
      rw [HeadStore.beginBlockData] at begun
      split at begun
      · split at begun
        · cases begun
          rfl
        · split at begun <;> cases begun
      · cases begun
    rw [HeadStore.finish, same]
    split
    · exact beginBlockData_addBlock differ otherBegins
    · rfl

theorem beginBlockData_write {block : HeadBlock} (outcome : WriteOutcome) (differ : other.number ≠ block.number)
    (begins : Bool) :
    (loop.write block outcome).1.store.beginBlockData other begins = loop.store.beginBlockData other begins := by
  cases begun : loop.store.beginBlockData block outcome.begins with
  | error failure => simp only [Loop.write, begun]
  | ok write =>
    have same := beginBlockData_finish begun outcome.ends differ begins
    simp only [Loop.write, begun]
    split <;> next finished => rw [← same, finished]

theorem Begun.rest (begun : Begun answers loop.store (flight :: queue)) (outcome : WriteOutcome) :
    Begun answers (loop.write flight.block outcome).1.store queue where
  begun := by
    intro other member
    have distinct := begun.distinct
    rw [map_cons, nodup_cons] at distinct
    rw [beginBlockData_write outcome, begun.begun other (mem_cons_of_mem _ member)]
    intro same
    exact distinct.1 (same ▸ mem_map_of_mem member)
  distinct := (nodup_cons.mp begun.distinct).2

/-! ## Finishing and draining -/

def Pipeline.Accounted (pipeline : Pipeline) : Prop :=
  pipeline.opened = pipeline.ended.map Prod.fst ++
    (pipeline.queue.filter fun flight => flight.begun.toBool).map fun flight => flight.block.number

structure Pipeline.Sound (answers : LoopAnswers) (pipeline : Pipeline) : Prop where
  begun : Begun answers pipeline.store pipeline.queue
  fresh : pipeline.stale = none
  accounted : pipeline.Accounted

/-- The pipeline met the error that the sequential loop stops at. An error of `Finish` names no differing block. -/
structure Pipeline.Stops (pipeline : Pipeline) (loop : Loop) (failure : HeadError) : Prop where
  loop : pipeline.toLoop = loop
  stale : pipeline.stale = some failure ∨ pipeline.stale = none ∧ failure = .other
  accounted : pipeline.Accounted

theorem finishOldest_done {pipeline : Pipeline} {rest : List InFlight} (sound : pipeline.Sound answers)
    (queue : pipeline.queue = flight :: rest)
    (written : pipeline.toLoop.write flight.block (answers.writes flight.block.number) = (loop, none)) :
    ∃ next, pipeline.finishOldest answers = (next, true) ∧ next.toLoop = loop ∧ next.queue = rest ∧
      next.Sound answers := by
  have begun := sound.begun
  rw [queue] at begun
  have own := begun.begun flight mem_cons_self
  have after : Begun answers loop.store rest := by
    have later := begun.rest (answers.writes flight.block.number)
    rwa [written] at later
  have accounted := sound.accounted
  simp only [Pipeline.Accounted, queue] at accounted
  cases began : pipeline.store.beginBlockData flight.block (answers.writes flight.block.number).begins with
  | error failure =>
    simp only [Loop.write, began] at written
    cases written
  | ok write =>
    rw [began] at own
    simp only [Loop.write, began] at written
    simp only [Pipeline.finishOldest, queue, own]
    split at written
    · cases written
      refine ⟨_, rfl, rfl, rfl, after, sound.fresh, ?_⟩
      simpa [Pipeline.Accounted, own, Except.toBool] using accounted
    · cases written

theorem finishOldest_failed {pipeline : Pipeline} {rest : List InFlight} (sound : pipeline.Sound answers)
    (queue : pipeline.queue = flight :: rest)
    (written : pipeline.toLoop.write flight.block (answers.writes flight.block.number) = (loop, some failure)) :
    ∃ next, pipeline.finishOldest answers = (next, false) ∧ next.Stops loop failure := by
  have own := sound.begun.begun flight (queue ▸ mem_cons_self)
  have accounted := sound.accounted
  simp only [Pipeline.Accounted, queue] at accounted
  cases began : pipeline.store.beginBlockData flight.block (answers.writes flight.block.number).begins with
  | error refused =>
    rw [began] at own
    simp only [Loop.write, began] at written
    cases written
    simp only [Pipeline.finishOldest, queue, own]
    refine ⟨_, rfl, rfl, .inl rfl, ?_⟩
    simpa [Pipeline.Accounted, own, Except.toBool] using accounted
  | ok write =>
    rw [began] at own
    simp only [Loop.write, began] at written
    simp only [Pipeline.finishOldest, queue, own]
    split at written
    · cases written
    · cases written
      refine ⟨_, rfl, rfl, .inr ⟨sound.fresh, rfl⟩, ?_⟩
      simpa [Pipeline.Accounted, own, Except.toBool] using accounted

theorem Pipeline.Stops.abort {pipeline : Pipeline} (stops : pipeline.Stops loop failure) :
    pipeline.abort.Stops loop failure where
  loop := stops.loop
  stale := stops.stale
  accounted := by
    have before := stops.accounted
    rw [Pipeline.Accounted] at before ⊢
    simpa [Pipeline.abort, Function.comp_def] using before

theorem drainCount_settle (count : Nat) {pipeline : Pipeline} (sound : pipeline.Sound answers)
    (length : pipeline.queue.length = count) :
    match settle answers pipeline.queue pipeline.toLoop with
    | (loop, none) => ∃ next, Pipeline.drainCount answers count pipeline = (next, true) ∧ next.toLoop = loop ∧
        next.queue = [] ∧ next.Sound answers
    | (loop, some failure) => ∃ next, Pipeline.drainCount answers count pipeline = (next, false) ∧
        next.queue = [] ∧ next.Stops loop failure := by
  induction count generalizing pipeline with
  | zero =>
    have empty := length_eq_zero_iff.mp length
    rw [empty, settle]
    exact ⟨pipeline, rfl, rfl, empty, sound⟩
  | succ count ih =>
    obtain ⟨flight, rest, queue⟩ := exists_cons_of_length_eq_add_one length
    rw [queue, settle]
    cases written : pipeline.toLoop.write flight.block (answers.writes flight.block.number) with
    | mk loop failed =>
      cases failed with
      | none =>
        obtain ⟨next, finished, same, shorter, kept⟩ := finishOldest_done sound queue written
        have later := ih kept (by rw [queue, length_cons] at length; rw [shorter]; omega)
        rw [shorter, same] at later
        simp only [Pipeline.drainCount, finished]
        exact later
      | some failure =>
        obtain ⟨next, finished, stops⟩ := finishOldest_failed sound queue written
        simp only [Pipeline.drainCount, finished]
        exact ⟨next.abort, rfl, rfl, stops.abort⟩

/-! ## The two loops -/

def Loop.result (loop : Loop) : HeadStore × ReceiptSkip × Nat × List (Nat × Landing) :=
  (loop.store, loop.receipts, loop.lastIndexed, loop.log)

def sequel (answers : LoopAnswers) (queue : List InFlight) (loop : Loop) (blocks : List FetchedBlock) : Loop :=
  match settle answers queue loop with
  | (settled, none) => foldUntil (indexPrefetchedBlock answers) settled blocks
  | (settled, some failure) => { settled with store := revertStaleBlock settled.store failure answers.revert }

def Loop.mark (loop : Loop) (prevHash : Hash) (remembered : Bool) : Loop :=
  { loop with prevHash := prevHash, remembered := remembered }

theorem write_mark (loop : Loop) (block : HeadBlock) (outcome : WriteOutcome) (prevHash : Hash) (remembered : Bool) :
    (loop.mark prevHash remembered).write block outcome =
      ((loop.write block outcome).1.mark prevHash remembered, (loop.write block outcome).2) := by
  simp only [Loop.write, Loop.mark]
  split
  · rfl
  · split <;> rfl

variable (answers) in
theorem settle_mark (queue : List InFlight) (loop : Loop) (prevHash : Hash) (remembered : Bool) :
    settle answers queue (loop.mark prevHash remembered) =
      ((settle answers queue loop).1.mark prevHash remembered, (settle answers queue loop).2) := by
  induction queue generalizing loop with
  | nil => rfl
  | cons flight rest ih =>
    simp only [settle, write_mark]
    cases loop.write flight.block (answers.writes flight.block.number) with
    | mk next failed =>
      cases failed with
      | none => exact ih next
      | some failure => rfl

theorem wrote_mark {next : Loop} {block : HeadBlock} {outcome : WriteOutcome}
    (written : loop.write block outcome = (next, failed)) : next.mark loop.prevHash loop.remembered = next := by
  have same := write_mark loop block outcome loop.prevHash loop.remembered
  rw [written] at same
  exact (congrArg Prod.fst (written.symm.trans same)).symm

theorem settled_mark (written : settle answers queue loop = (settled, failed)) :
    settled.mark loop.prevHash loop.remembered = settled := by
  have same := settle_mark answers queue loop loop.prevHash loop.remembered
  rw [written] at same
  exact (congrArg Prod.fst (written.symm.trans same)).symm

variable (answers) in
theorem settle_concat (queue : List InFlight) (flight : InFlight) (loop : Loop) :
    settle answers (queue ++ [flight]) loop =
      match settle answers queue loop with
      | (settled, none) => settled.write flight.block (answers.writes flight.block.number)
      | (settled, some failure) => (settled, some failure) := by
  induction queue generalizing loop with
  | nil =>
    simp only [nil_append, settle]
    cases loop.write flight.block (answers.writes flight.block.number) with
    | mk next failed => cases failed <;> rfl
  | cons head rest ih =>
    simp only [cons_append, settle]
    cases loop.write head.block (answers.writes head.block.number) with
    | mk next failed =>
      cases failed with
      | none => exact ih next
      | some failure => rfl

structure Pipeline.Closes (answers : LoopAnswers) (pipeline : Pipeline) (loop : Loop) : Prop where
  result : (pipeline.revertStale answers).toLoop.result = loop.result
  ended : pipeline.opened = pipeline.ended.map Prod.fst

theorem Pipeline.Accounted.all_ended {pipeline : Pipeline} (accounted : pipeline.Accounted)
    (empty : pipeline.queue = []) : pipeline.opened = pipeline.ended.map Prod.fst := by
  simpa [Pipeline.Accounted, empty] using accounted

theorem Pipeline.Stops.closes {pipeline : Pipeline} (stops : pipeline.Stops loop failure)
    (empty : pipeline.queue = []) :
    pipeline.Closes answers { loop with store := revertStaleBlock loop.store failure answers.revert } where
  result := by
    rw [← stops.loop]
    rcases stops.stale with met | ⟨none, other⟩
    · simp only [Pipeline.revertStale, met]
    · simp only [Pipeline.revertStale, none, other, revertStaleBlock]
  ended := stops.accounted.all_ended empty

theorem Pipeline.Sound.closes {pipeline : Pipeline} (sound : pipeline.Sound answers) (empty : pipeline.queue = []) :
    pipeline.Closes answers pipeline.toLoop where
  result := by simp only [Pipeline.revertStale, sound.fresh]
  ended := sound.accounted.all_ended empty

theorem drain_empty {pipeline : Pipeline} (empty : pipeline.queue = []) :
    pipeline.drain answers = (pipeline, true) := by
  simp [Pipeline.drain, empty, Pipeline.drainCount]

theorem Pipeline.Sound.drain_closes {pipeline : Pipeline} (sound : pipeline.Sound answers) :
    (pipeline.drain answers).1.Closes answers (sequel answers pipeline.queue pipeline.toLoop []) := by
  have drained := drainCount_settle pipeline.queue.length sound rfl
  rw [sequel, Pipeline.drain]
  cases settled : settle answers pipeline.queue pipeline.toLoop with
  | mk loop failed =>
    rw [settled] at drained
    cases failed with
    | none =>
      obtain ⟨next, done, rfl, empty, after⟩ := drained
      rw [done]
      exact after.closes empty
    | some failure =>
      obtain ⟨next, failed, empty, stops⟩ := drained
      rw [failed]
      exact stops.closes empty

structure Pipeline.Follows (answers : LoopAnswers) (target : Loop) (blocks : List FetchedBlock)
    (pipeline : Pipeline) : Prop where
  sound : pipeline.Sound answers
  remembered : pipeline.remembered = true → pipeline.queue = []
  distinct : ((pipeline.queue.map fun flight => flight.block.number) ++ blocks.map FetchedBlock.number).Nodup
  same : (sequel answers pipeline.queue pipeline.toLoop blocks).result = target.result

theorem sequel_settled (written : settle answers queue loop = (settled, none)) :
    sequel answers queue loop blocks = foldUntil (indexPrefetchedBlock answers) settled blocks := by
  rw [sequel, written]

theorem sequel_failed (written : settle answers queue loop = (settled, some failure)) :
    sequel answers queue loop blocks =
      { settled with store := revertStaleBlock settled.store failure answers.revert } := by
  rw [sequel, written]

/-- A block the sequential loop stops at without a write: the queue decides what is left. -/
theorem sequel_stopped {block : FetchedBlock} (rest : List FetchedBlock)
    (stopped : ∀ settled, settle answers queue loop = (settled, none) →
      (indexPrefetchedBlock answers settled block).2 = false ∧
        (indexPrefetchedBlock answers settled block).1.result = settled.result) :
    (sequel answers queue loop (block :: rest)).result = (sequel answers queue loop []).result := by
  cases written : settle answers queue loop with
  | mk settled failed =>
    cases failed with
    | none =>
      obtain ⟨stop, same⟩ := stopped settled written
      rw [sequel_settled written, sequel_settled written]
      simpa [foldUntil, stop] using same
    | some failure => rw [sequel_failed written, sequel_failed written]

theorem settled_prevHash (written : settle answers queue loop = (settled, failed)) : settled.prevHash = loop.prevHash :=
  (congrArg Loop.prevHash (settled_mark written)).symm

theorem settled_remembered (written : settle answers queue loop = (settled, failed)) :
    settled.remembered = loop.remembered :=
  (congrArg Loop.remembered (settled_mark written)).symm

theorem Pipeline.Closes.congr {pipeline : Pipeline} {other : Loop} (closes : pipeline.Closes answers loop)
    (same : loop.result = other.result) : pipeline.Closes answers other :=
  ⟨closes.result.trans same, closes.ended⟩

section

variable {depth : Nat} {target : Loop} {block : FetchedBlock} {rest : List FetchedBlock} {pipeline : Pipeline}

variable (depth) in
/-- With blocks in flight nothing is remembered, so the broken chain only ends the loop. -/
theorem Pipeline.Follows.breaks (follows : pipeline.Follows answers target (block :: rest))
    (breaks : breaksChain pipeline.prevHash block = true) :
    ((indexPipelinedBlock depth answers pipeline block).1.drain answers).1.Closes answers target := by
  simp only [indexPipelinedBlock, breaks, if_true]
  by_cases remembered : pipeline.remembered = true
  · have empty := follows.remembered remembered
    have same := follows.same
    rw [empty, sequel_settled (by rfl)] at same
    rw [if_pos remembered, drain_empty (by exact empty)]
    have sound : Pipeline.Sound answers
        { pipeline with receipts := recheckSkipped pipeline.receipts answers.skippedHash } :=
      ⟨follows.sound.begun, follows.sound.fresh, follows.sound.accounted⟩
    apply (sound.closes empty).congr
    simpa [foldUntil, indexPrefetchedBlock, breaks, remembered] using same
  · rw [if_neg remembered]
    apply follows.sound.drain_closes.congr
    rw [← follows.same]
    refine (sequel_stopped rest ?_).symm
    intro settled written
    have chain := settled_prevHash written
    have forgot := settled_remembered written
    simp [indexPrefetchedBlock, Loop.result, chain, breaks, forgot, remembered]

variable {loop : Loop} {number : Nat} {raw : RawHead}

variable (answers) in
theorem indexPrefetchedBlock_forget (chained : breaksChain loop.prevHash block = false) :
    indexPrefetchedBlock answers (loop.mark loop.prevHash false) block = indexPrefetchedBlock answers loop block := by
  simp [indexPrefetchedBlock, Loop.mark, chained]

theorem Pipeline.Follows.forget (follows : pipeline.Follows answers target (block :: rest))
    (chained : breaksChain pipeline.prevHash block = false) :
    { pipeline with remembered := false : Pipeline }.Follows answers target (block :: rest) where
  sound := ⟨follows.sound.begun, follows.sound.fresh, follows.sound.accounted⟩
  remembered := by intro remembered; cases remembered
  distinct := follows.distinct
  same := by
    rw [← follows.same]
    change (sequel answers pipeline.queue (pipeline.toLoop.mark pipeline.prevHash false) _).result = _
    have marked := settle_mark answers pipeline.queue pipeline.toLoop pipeline.prevHash false
    cases written : settle answers pipeline.queue pipeline.toLoop with
    | mk settled failed =>
      have chain := settled_prevHash written
      rw [written] at marked
      cases failed with
      | none =>
        rw [sequel_settled marked, sequel_settled written, foldUntil, foldUntil]
        have step := indexPrefetchedBlock_forget answers (chain ▸ chained)
        simp only [← chain, step]
      | some failure =>
        rw [sequel_failed marked, sequel_failed written]
        rfl

def Turned (answers : LoopAnswers) (target : Loop) (rest : List FetchedBlock) (turn : Pipeline × Bool) : Prop :=
  if turn.2 then turn.1.Follows answers target rest else (turn.1.drain answers).1.Closes answers target

theorem Turned.goes (follows : pipeline.Follows answers target rest) : Turned answers target rest (pipeline, true) := by
  simpa [Turned] using follows

theorem Turned.stops (closes : pipeline.Closes answers loop) (empty : pipeline.queue = [])
    (same : loop.result = target.result) : Turned answers target rest (pipeline, false) := by
  simp only [Turned, Bool.false_eq_true, if_false, drain_empty empty]
  exact closes.congr same

theorem Pipeline.Follows.unread (follows : pipeline.Follows answers target (.unread number :: rest))
    (chained : breaksChain pipeline.prevHash (.unread number) = false) :
    Turned answers target rest (pipeline, false) := by
  apply follows.sound.drain_closes.congr
  rw [← follows.same]
  refine (sequel_stopped rest ?_).symm
  intro settled written
  rw [← settled_prevHash written] at chained
  simp [indexPrefetchedBlock, Loop.result, chained]

theorem Pipeline.Follows.skips (follows : pipeline.Follows answers target (.noReceipts number raw :: rest))
    (chained : breaksChain pipeline.prevHash (.noReceipts number raw) = false) (forgot : pipeline.remembered = false) :
    Turned answers target rest
      (match pipeline.drain answers with
      | (next, false) => (next, false)
      | (next, true) =>
        let (loop, moved) := next.toLoop.skip number raw (answers.requeues number)
        ({ next with toLoop := loop }, moved)) := by
  have drained := drainCount_settle pipeline.queue.length follows.sound rfl
  have same := follows.same
  cases written : settle answers pipeline.queue pipeline.toLoop with
  | mk settled failed =>
    rw [written] at drained
    cases failed with
    | some failure =>
      obtain ⟨next, failed, empty, stops⟩ := drained
      rw [sequel_failed written] at same
      rw [Pipeline.drain, failed]
      exact Turned.stops (stops.closes empty) empty same
    | none =>
      obtain ⟨next, done, rfl, empty, sound⟩ := drained
      rw [Pipeline.drain, done]
      rw [sequel_settled written, foldUntil] at same
      rw [← settled_prevHash written] at chained
      rw [← settled_remembered written] at forgot
      have step : indexPrefetchedBlock answers next.toLoop (.noReceipts number raw) =
          next.toLoop.skip number raw (answers.requeues number) := by
        simp only [indexPrefetchedBlock, chained]
        simp [← forgot]
      rw [step] at same
      have after (loop : Loop) : Pipeline.Sound answers { next with toLoop := loop } := by
        refine ⟨?_, sound.fresh, sound.accounted⟩
        rw [empty]
        exact ⟨by simp, by simp⟩
      cases skipped : next.toLoop.skip number raw (answers.requeues number) with
      | mk loop moved =>
        rw [skipped] at same
        simp only [skipped]
        cases moved with
        | true =>
          refine Turned.goes ⟨after loop, fun _ => empty, ?_, ?_⟩
          · simp only [empty]
            exact (nodup_cons.mp follows.distinct.of_append_right).2
          · simp only [empty]
            exact same
        | false => exact Turned.stops ((after loop).closes empty) empty same

theorem indexPrefetchedBlock_ready (chained : breaksChain loop.prevHash (.ready number raw) = false)
    (forgot : loop.remembered = false) :
    indexPrefetchedBlock answers loop (.ready number raw) =
      match loop.write (raw.toBlock number) (answers.writes number) with
      | (next, none) => (next.mark raw.hash false, true)
      | (next, some failure) =>
        ({ next with store := revertStaleBlock next.store failure answers.revert }, false) := by
  have same : { loop with remembered := false } = loop := by rw [← forgot]
  simp only [indexPrefetchedBlock, chained, Bool.false_eq_true, if_false, same]
  cases written : loop.write (raw.toBlock number) (answers.writes number) with
  | mk next failed =>
    cases failed with
    | none =>
      rw [← wrote_mark written, forgot]
      rfl
    | some failure => rfl

theorem Pipeline.Follows.accepts (follows : pipeline.Follows answers target (.ready number raw :: rest))
    (chained : breaksChain pipeline.prevHash (.ready number raw) = false) (forgot : pipeline.remembered = false)
    (begun : Except HeadError HeadWrite) :
    (sequel answers (pipeline.queue ++ [⟨raw.toBlock number, begun⟩])
      (pipeline.toLoop.mark raw.hash false) rest).result = target.result := by
  have same := follows.same
  have concat := settle_concat answers pipeline.queue ⟨raw.toBlock number, begun⟩ (pipeline.toLoop.mark raw.hash false)
  rw [settle_mark answers pipeline.queue] at concat
  cases written : settle answers pipeline.queue pipeline.toLoop with
  | mk settled failed =>
    rw [written] at concat
    cases failed with
    | some failure =>
      rw [sequel_failed written] at same
      rw [sequel_failed concat]
      exact same
    | none =>
      rw [sequel_settled written, foldUntil] at same
      rw [← settled_prevHash written] at chained
      rw [← settled_remembered written] at forgot
      rw [indexPrefetchedBlock_ready chained forgot] at same
      simp only [write_mark] at concat
      change _ = (Loop.mark (settled.write (raw.toBlock number) (answers.writes number)).1 _ _,
        (settled.write (raw.toBlock number) (answers.writes number)).2) at concat
      cases wrote : settled.write (raw.toBlock number) (answers.writes number) with
      | mk next failed =>
        rw [wrote] at same concat
        cases failed with
        | none =>
          rw [sequel_settled concat]
          exact same
        | some failure =>
          rw [sequel_failed concat]
          exact same

def Pipeline.accepting (pipeline : Pipeline) (raw : RawHead) : Pipeline :=
  { pipeline with toLoop := pipeline.toLoop.mark raw.hash false }

theorem Pipeline.Sound.accepting (sound : pipeline.Sound answers) (raw : RawHead) :
    (pipeline.accepting raw).Sound answers :=
  ⟨sound.begun, sound.fresh, sound.accounted⟩

theorem Pipeline.Follows.writes (follows : pipeline.Follows answers target (.ready number raw :: rest))
    (chained : breaksChain pipeline.prevHash (.ready number raw) = false) (forgot : pipeline.remembered = false) :
    Turned answers target rest
      (match (pipeline.accepting raw).drain answers with
      | (next, false) => (next, false)
      | (next, true) =>
        match next.toLoop.write (raw.toBlock number) (answers.writes number) with
        | (loop, none) => ({ next with toLoop := loop }, true)
        | (loop, some failure) => ({ next with toLoop := loop, stale := some failure }, false)) := by
  have drained := drainCount_settle pipeline.queue.length (follows.sound.accepting raw) rfl
  have same := follows.accepts chained forgot (.error .other)
  have concat := settle_concat answers pipeline.queue ⟨raw.toBlock number, .error .other⟩
    (pipeline.toLoop.mark raw.hash false)
  change match settle answers pipeline.queue (pipeline.toLoop.mark raw.hash false) with
    | (loop, none) => _
    | (loop, some failure) => _ at drained
  cases written : settle answers pipeline.queue (pipeline.toLoop.mark raw.hash false) with
  | mk settled failed =>
    rw [written] at drained concat
    cases failed with
    | some failure =>
      obtain ⟨next, failed, empty, stops⟩ := drained
      rw [sequel_failed concat] at same
      have drain : (pipeline.accepting raw).drain answers = (next, false) := failed
      rw [drain]
      exact Turned.stops (stops.closes empty) empty same
    | none =>
      obtain ⟨next, done, rfl, empty, sound⟩ := drained
      have drain : (pipeline.accepting raw).drain answers = (next, true) := done
      rw [drain]
      simp only at concat ⊢
      cases wrote : next.toLoop.write (raw.toBlock number) (answers.writes number) with
      | mk loop failed =>
        change _ = next.toLoop.write (raw.toBlock number) (answers.writes number) at concat
        rw [wrote] at concat
        cases failed with
        | none =>
          rw [sequel_settled concat] at same
          refine Turned.goes ⟨⟨?_, sound.fresh, sound.accounted⟩, fun _ => empty, ?_, ?_⟩
          · rw [empty]
            exact ⟨by simp, by simp⟩
          · simp only [empty]
            exact (nodup_cons.mp follows.distinct.of_append_right).2
          · simp only [empty]
            exact same
        | some failure =>
          rw [sequel_failed concat] at same
          have stops : Pipeline.Stops { next with toLoop := loop, stale := some failure } loop failure :=
            ⟨rfl, .inl rfl, sound.accounted⟩
          exact Turned.stops (stops.closes empty) empty same

theorem Begun.concat {store : HeadStore} {queue : List InFlight} (begun : Begun answers store queue)
    (block : HeadBlock) (fresh : block.number ∉ queue.map fun flight => flight.block.number) :
    Begun answers store
      (queue ++ [⟨block, store.beginBlockData block (answers.writes block.number).begins⟩]) where
  begun := by
    intro flight member
    rcases mem_append.mp member with before | last
    · exact begun.begun flight before
    · rw [mem_singleton.mp last]
  distinct := by
    rw [map_append]
    refine begun.distinct.append (nodup_singleton _) ?_
    intro number before last
    have same : number = block.number := mem_singleton.mp last
    exact fresh (same ▸ before)

theorem Pipeline.Accounted.begin (accounted : pipeline.Accounted) (block : HeadBlock) (begins : Bool) :
    (pipeline.begin block begins).Accounted := by
  rw [Pipeline.Accounted] at accounted ⊢
  simp only [Pipeline.begin, filter_append, map_append, ← append_assoc, ← accounted]
  split <;> next opened => simp [opened]

theorem Pipeline.Follows.begins (follows : pipeline.Follows answers target (.ready number raw :: rest))
    (chained : breaksChain pipeline.prevHash (.ready number raw) = false) (forgot : pipeline.remembered = false) :
    ((pipeline.accepting raw).begin (raw.toBlock number) (answers.writes number).begins).Follows
      answers target rest where
  sound := by
    refine ⟨?_, follows.sound.fresh, Pipeline.Accounted.begin (follows.sound.accepting raw).accounted _ _⟩
    refine follows.sound.begun.concat (raw.toBlock number) ?_
    intro before
    exact (disjoint_of_nodup_append follows.distinct) before mem_cons_self
  remembered := by
    intro remembered
    cases remembered
  distinct := by
    have distinct := follows.distinct
    simpa [Pipeline.begin, Pipeline.accepting, RawHead.toBlock, FetchedBlock.number] using distinct
  same := follows.accepts chained forgot _

theorem Pipeline.Follows.finishes (follows : pipeline.Follows answers target rest) (waiting : pipeline.queue ≠ []) :
    Turned answers target rest
      (match pipeline.finishOldest answers with
      | (next, true) => (next, true)
      | (next, false) => (next.abort, false)) := by
  obtain ⟨flight, queue, split⟩ := exists_cons_of_ne_nil waiting
  have same := follows.same
  have distinct := follows.distinct
  rw [split] at same distinct
  cases written : pipeline.toLoop.write flight.block (answers.writes flight.block.number) with
  | mk loop failed =>
    cases failed with
    | none =>
      obtain ⟨next, finished, rfl, shorter, sound⟩ := finishOldest_done follows.sound split written
      rw [finished]
      refine Turned.goes ⟨sound, ?_, ?_, ?_⟩
      · intro remembered
        rw [← wrote_mark written] at remembered
        exact absurd (follows.remembered remembered) waiting
      · rw [shorter]
        exact (nodup_cons.mp distinct).2
      · rw [shorter]
        simpa only [sequel, settle, written] using same
    | some failure =>
      obtain ⟨next, failed, stops⟩ := finishOldest_failed follows.sound split written
      rw [failed]
      refine Turned.stops (stops.abort.closes rfl) rfl ?_
      simpa only [sequel, settle, written] using same

variable (depth) in
theorem Pipeline.Follows.turn (follows : pipeline.Follows answers target (block :: rest)) :
    Turned answers target rest (indexPipelinedBlock depth answers pipeline block) := by
  cases breaks : breaksChain pipeline.prevHash block with
  | true =>
    have closes := follows.breaks depth breaks
    simpa [Turned, indexPipelinedBlock, breaks] using closes
  | false =>
    have forgetful := follows.forget breaks
    simp only [indexPipelinedBlock, breaks, Bool.false_eq_true, if_false]
    cases block with
    | unread number => exact forgetful.unread breaks
    | noReceipts number raw => exact forgetful.skips breaks rfl
    | ready number raw =>
      simp only
      split
      · exact forgetful.writes breaks rfl
      · have begun := forgetful.begins breaks rfl
        split
        · exact begun.finishes (by simp [Pipeline.begin])
        · exact Turned.goes begun

variable (depth) in
theorem Pipeline.Follows.run {blocks : List FetchedBlock} (follows : pipeline.Follows answers target blocks) :
    ((foldUntil (indexPipelinedBlock depth answers) pipeline blocks).drain answers).1.Closes answers target := by
  refine foldUntil_induction (fun rest pipeline => pipeline.Follows answers target rest)
    (fun pipeline => (pipeline.drain answers).1.Closes answers target) ?_ ?_ ?_ blocks pipeline follows
  · intro block rest pipeline follows more
    have turned := follows.turn depth
    rwa [Turned, if_pos more] at turned
  · intro block rest pipeline follows stop
    have turned := follows.turn depth
    rwa [Turned, stop, if_neg Bool.false_ne_true] at turned
  · intro pipeline follows
    exact follows.sound.drain_closes.congr follows.same

end

theorem tickBlocks_distinct (startBlock : Nat) (store : HeadStore) (lastIndexed latest : Nat) (receipts : ReceiptSkip)
    (answers : IndexAnswers) :
    ((tickBlocks startBlock store lastIndexed latest receipts answers).map FetchedBlock.number).Nodup := by
  rw [tickBlocks]
  split
  · exact nodup_nil
  · simp only [prefetchBlocks, map_map, Function.comp_def, fetchBlockAndReceipts_number, map_id']
    exact nodup_range'

theorem Pipeline.revertStale_writes (answers : LoopAnswers) (pipeline : Pipeline) :
    (pipeline.revertStale answers).opened = pipeline.opened ∧
      (pipeline.revertStale answers).ended = pipeline.ended := by
  rw [Pipeline.revertStale]
  split <;> exact ⟨rfl, rfl⟩

/-- Every call of the pipelined loop ends where the sequential one does, with no write left open. -/
theorem indexPipelined_closes (startBlock : Nat) (store : HeadStore) (lastIndexed latest depth : Nat)
    (receipts : ReceiptSkip) (answers : IndexAnswers) :
    let pipelined := indexPipelined startBlock store lastIndexed latest depth receipts answers
    pipelined.toLoop.result = (indexPrefetched startBlock store lastIndexed latest receipts answers).result ∧
      pipelined.opened = pipelined.ended.map Prod.fst := by
  have start : Pipeline.Follows answers.loop (indexPrefetched startBlock store lastIndexed latest receipts answers)
      (tickBlocks startBlock store lastIndexed latest receipts answers)
      { toLoop := startLoop startBlock store lastIndexed receipts answers.reads } :=
    { sound := ⟨⟨by simp, by simp⟩, rfl, by simp [Pipeline.Accounted]⟩
      remembered := fun _ => rfl
      distinct := tickBlocks_distinct startBlock store lastIndexed latest receipts answers
      same := rfl }
  have closes := start.run depth
  have writes := Pipeline.revertStale_writes answers.loop (Pipeline.drain answers.loop (foldUntil
    (indexPipelinedBlock depth answers.loop)
    { toLoop := startLoop startBlock store lastIndexed receipts answers.reads }
    (tickBlocks startBlock store lastIndexed latest receipts answers))).1
  exact ⟨closes.result, writes.1.trans (closes.ended.trans (congrArg _ writes.2.symm))⟩

/-! ## Passed blocks -/

end

end OpsIndexer.Indexing
