import OpsIndexer.Grpcserver.Feeds
import OpsIndexer.Grpcserver.Retention

/-!
# A pruned block is not served as an empty one

What every stage of a request knows about the block it was asked for, while retention moves the watermark and detaches
ranges between its statements.
-/

namespace OpsIndexer.Grpcserver

open OpsIndexer.Types Db Lib.Runs List

def GoneSince (serving : Serving) (time number : Nat) : Prop :=
  ∀ moment through, time ≤ moment → serving.times[moment]? = some through → 0 < through ∧ number ≤ through

def Purpose.Answers (serving : Serving) (number read : Nat) : Purpose → Prop
  | .check asked => asked = number
  | .recheck asked => asked = number ∧ GoneSince serving (serving.starts.getD (read - 1) 0) number
  | .mention => False

/-- By number, a query that found nothing leads to a refresh that began after the watermark had covered the block; by
hash, the block's transactions are there until they are read. -/
def Stage.Answers (serving : Serving) : Selector → Stage → Prop
  | .other, _ => True
  | _, .called => True
  | _, .done .error => True
  | _, .done (.rows rows) => rows ≠ []
  | .number number, .querying asked rechecks => asked = number ∧ rechecks = true
  | .number number, .rechecking asked => asked = number ∧ Gone serving.history number
  | .number number, .refreshing purpose read => purpose.Answers serving number read
  | .number number, .applying purpose read _ _ => purpose.Answers serving number read
  | .number _, .missing => False
  | .hash _, .querying asked rechecks =>
    rechecks = false ∧ ∃ row ∈ serving.history.ledger.store.transactions, row.blockNumber = asked
  | .hash _, .missing => True
  | .hash _, .refreshing purpose _ => purpose = .mention
  | .hash _, .applying purpose _ _ _ => purpose = .mention
  | .hash _, .rechecking _ => False

structure Tracks (serving : Serving) (request : Request) : Prop where
  blocks : ∀ block ∈ serving.history.ledger.store.blocks, block ∈ request.before.blocks
  transactions : ∀ row ∈ request.before.transactions,
    row ∈ serving.history.ledger.store.transactions ∨ Gone serving.history row.blockNumber
  stage : request.HadTransactions → request.stage.Answers serving request.selector

/-! ## Other steps -/

variable {number : Nat}

theorem GoneSince.next {before after : Serving} (timed : Timed before) {time : Nat}
    (gone : GoneSince before time number) (past : time ≤ before.now)
    (times : after.times = before.times ++ [after.history.ledger.prunedThrough])
    (raised : before.history.ledger.prunedThrough ≤ after.history.ledger.prunedThrough) :
    GoneSince after time number := by
  intro moment through later read
  rw [times] at read
  by_cases old : moment < before.times.length
  · rw [List.getElem?_append_left old] at read
    exact gone moment through later read
  · rw [List.getElem?_append_right (Nat.le_of_not_lt old), List.getElem?_singleton] at read
    split at read
    · have now := gone before.now _ past timed.times_now
      rw [← Option.some.inj read]
      exact ⟨now.1.trans_le raised, now.2.trans raised⟩
    · cases read

variable {purpose : Purpose}

theorem Purpose.Answers.next {before after : Serving} (timed : Timed before) {read : Nat}
    (answers : purpose.Answers before number read) (first : 1 ≤ read) (drawn : read ≤ before.watermark.started)
    (grows : Grows before after) (times : after.times = before.times ++ [after.history.ledger.prunedThrough])
    (raised : before.history.ledger.prunedThrough ≤ after.history.ledger.prunedThrough) :
    purpose.Answers after number read := by
  cases purpose with
  | check asked => exact answers
  | mention => exact answers
  | recheck asked =>
    have bound : read - 1 < before.starts.length := by
      have := timed.drawn
      omega
    refine ⟨answers.1, ?_⟩
    rw [grows.getD_starts bound]
    exact answers.2.next timed (timed.reads first drawn) times raised

variable {selector : Selector}

theorem answers_next {before after : Serving} (timed : Timed before) {stage : Stage}
    (answers : stage.Answers before selector) (staged : stage.Timed before) (grows : Grows before after)
    (times : after.times = before.times ++ [after.history.ledger.prunedThrough])
    (prunes : Prunes before.history after.history)
    (kept : ∀ number, stage = .querying number false →
      (∃ row ∈ before.history.ledger.store.transactions, row.blockNumber = number) →
        ∃ row ∈ after.history.ledger.store.transactions, row.blockNumber = number) :
    stage.Answers after selector := by
  cases selector with
  | other => trivial
  | number number =>
    cases stage with
    | called => trivial
    | missing => exact answers
    | querying asked rechecks => exact answers
    | rechecking asked => exact ⟨answers.1, answers.2.prunes prunes⟩
    | refreshing purpose read =>
      exact Purpose.Answers.next timed answers staged.1 staged.2 grows times prunes.watermark
    | applying purpose read through readTime =>
      exact Purpose.Answers.next timed answers staged.1 staged.2.1 grows times prunes.watermark
    | done reply => cases reply <;> exact answers
  | hash hash =>
    cases stage with
    | called => trivial
    | missing => trivial
    | querying asked rechecks =>
      obtain ⟨rfl, row⟩ := answers
      exact ⟨rfl, kept asked rfl row⟩
    | rechecking asked => exact answers
    | refreshing purpose read => exact answers
    | applying purpose read through readTime => exact answers
    | done reply => cases reply <;> exact answers

theorem Tracks.next {before after : Serving} (timed : Timed before) {request : Request}
    (tracks : Tracks before request) (listed : request ∈ before.requests) (grows : Grows before after)
    (times : after.times = before.times ++ [after.history.ledger.prunedThrough])
    (prunes : Prunes before.history after.history)
    (kept : ∀ number, request.stage = .querying number false →
      (∃ row ∈ before.history.ledger.store.transactions, row.blockNumber = number) →
        ∃ row ∈ after.history.ledger.store.transactions, row.blockNumber = number) : Tracks after request := by
  refine ⟨fun block member => tracks.blocks block (prunes.blocks block member), ?_, ?_⟩
  · intro row member
    rcases tracks.transactions row member with stored | gone
    · exact prunes.transactions row stored
    · exact .inr (gone.prunes prunes)
  · intro had
    exact answers_next timed (tracks.stage had) (timed.requests request listed) grows times prunes kept

/-! ## The request's own step -/

theorem getTransactionsByBlock_ne_nil {store : Store} {row : TransactionRow}
    (stored : row ∈ store.transactions) (asked : row.blockNumber = number) :
    getTransactionsByBlock store number ≠ [] := by
  have member : row ∈ getTransactionsByBlock store number := by
    rw [getTransactionsByBlock, mem_insertionSort]
    exact mem_filter.mpr ⟨stored, by simpa using asked⟩
  exact ne_nil_of_mem member

theorem afterWatermark_check (serving : Serving) (number through : Nat) :
    (afterWatermark (.check number) through).Answers serving (.number number) := by
  unfold afterWatermark
  dsimp only
  split
  · trivial
  · exact ⟨rfl, rfl⟩

/-- The watermark a recheck returns was read after the refresh began, when it already covered the block. -/
theorem afterWatermark_recheck {serving : Serving} (timed : Timed serving) (next : Serving)
    {read through readTime : Nat} (first : 1 ≤ read) (drawn : read ≤ serving.watermark.started)
    (at_ : ReadAt serving read through readTime)
    (gone : GoneSince serving (serving.starts.getD (read - 1) 0) number) :
    (afterWatermark (.recheck number) (serving.watermark.apply read through readTime).through).Answers next
      (.number number) := by
  obtain ⟨started, newest, bound, _, cached⟩ := timed.apply first drawn at_
  have earlier : serving.starts.getD (read - 1) 0 ≤
      serving.starts.getD ((serving.watermark.apply read through readTime).applied - 1) 0 :=
    timed.getD_le (Nat.sub_le_sub_right newest 1) (by omega)
  have covered := gone _ _ (earlier.trans cached.1) cached.2
  have refused : outOfRetention number (serving.watermark.apply read through readTime).through = true := by
    simp [outOfRetention, covered.1, covered.2]
  simp only [afterWatermark, refused, ↓reduceIte]
  trivial

theorem Tracks.listed_transactions {serving : Serving} {request : Request} (tracks : Tracks serving request)
    {hash : String} (asked : request.selector = .hash hash) (had : request.HadTransactions) {block : Block}
    (found : getBlockByHash serving.history.ledger.store hash = some block) :
    ∃ row ∈ serving.history.ledger.store.transactions, row.blockNumber = block.number := by
  have listed : block ∈ serving.history.ledger.store.blocks := mem_of_find?_eq_some found
  have named : block.hash = hash := by simpa using List.find?_some found
  unfold Request.HadTransactions at had
  rw [asked] at had
  obtain ⟨row, stored, same⟩ := had.2 block (tracks.blocks block listed) named
  rcases tracks.transactions row stored with kept | gone
  · exact ⟨row, kept, same⟩
  · exact absurd same.symm (gone.unlisted block listed)

/-- By number: a query that finds nothing runs after the watermark has covered the block. -/
theorem Tracks.gone_of_empty {serving : Serving} {request : Request} (tracks : Tracks serving request) (asked : request.selector = .number number) (had : request.HadTransactions)
    (empty : getTransactionsByBlock serving.history.ledger.store number = []) : Gone serving.history number := by
  unfold Request.HadTransactions at had
  rw [asked] at had
  obtain ⟨row, stored, same⟩ := had
  rcases tracks.transactions row stored with kept | gone
  · exact absurd empty (getTransactionsByBlock_ne_nil kept same)
  · exact same ▸ gone

theorem goneSince_start {serving next : Serving} (timed : Timed serving)
    (gone : Gone serving.history number) (same : next.history = serving.history)
    (times : next.times = serving.times ++ [next.history.ledger.prunedThrough]) :
    GoneSince next serving.now number := by
  intro moment through later read
  rw [times] at read
  by_cases old : moment < serving.times.length
  · have now : moment = serving.now := by
      have := timed.now_lt
      omega
    rw [List.getElem?_append_left old, now, timed.times_now] at read
    rw [← Option.some.inj read]
    exact ⟨gone.positive, gone.covered⟩
  · rw [List.getElem?_append_right (Nat.le_of_not_lt old), List.getElem?_singleton] at read
    split at read
    · rw [← Option.some.inj read, same]
      exact ⟨gone.positive, gone.covered⟩
    · cases read

section Own

variable {serving next : Serving} {request : Request}

theorem Tracks.setStage (tracks : Tracks serving request) (same : next.history = serving.history) (index : Nat)
    (stage : Stage) (answers : request.HadTransactions → stage.Answers next request.selector) :
    ∀ other ∈ (serving.setStage index request stage).requests, other ∈ serving.requests ∨ Tracks next other := by
  intro other member
  refine (mem_setStage member).imp_right ?_
  rintro rfl
  exact ⟨fun block stored => tracks.blocks block (same ▸ stored),
    fun row stored => same ▸ tracks.transactions row stored, answers⟩

theorem error_answers (serving : Serving) (selector : Selector) : (Stage.done .error).Answers serving selector := by
  cases selector <;> trivial

theorem mention_answers (read : Nat) (answers : Stage.missing.Answers serving selector) :
    (Stage.refreshing .mention read).Answers next selector := by
  cases selector with
  | number number => exact answers.elim
  | hash hash => rfl
  | other => trivial

theorem Tracks.querying_answers (tracks : Tracks serving request) (same : next.history = serving.history)
    (had : request.HadTransactions) {asked : Nat} {rechecks : Bool}
    (answers : (Stage.querying asked rechecks).Answers serving request.selector) :
    (if (getTransactionsByBlock serving.history.ledger.store asked).isEmpty && rechecks then Stage.rechecking asked
      else .done (.rows (getTransactionsByBlock serving.history.ledger.store asked))).Answers next request.selector := by
  cases selector : request.selector with
  | number number =>
    rw [selector] at answers
    obtain ⟨rfl, rfl⟩ := answers
    split
    · next empty =>
      rw [Bool.and_true, List.isEmpty_iff] at empty
      exact ⟨rfl, same ▸ tracks.gone_of_empty selector had empty⟩
    · next some => simpa [Stage.Answers] using some
  | hash hash =>
    rw [selector] at answers
    obtain ⟨rfl, row, stored, number⟩ := answers
    rw [Bool.and_false, if_neg Bool.false_ne_true]
    exact getTransactionsByBlock_ne_nil stored number
  | other => trivial

theorem rechecking_answers (timed : Timed serving) {asked : Nat}
    (same : next.history = serving.history) (times : next.times = serving.times ++ [next.history.ledger.prunedThrough])
    (starts : next.starts = serving.starts ++ [serving.now])
    (answers : (Stage.rechecking asked).Answers serving selector) :
    (Stage.refreshing (.recheck asked) (serving.watermark.started + 1)).Answers next selector := by
  cases selector with
  | number number =>
    have drawn : next.starts.getD (serving.watermark.started + 1 - 1) 0 = serving.now := by
      rw [starts, Nat.add_sub_cancel, ← timed.drawn]
      simp
    refine ⟨answers.1, ?_⟩
    rw [drawn]
    exact goneSince_start timed answers.2 same times
  | hash hash => exact answers.elim
  | other => trivial

theorem refreshing_answers (timed : Timed serving) {read : Nat}
    (first : 1 ≤ read) (drawn : read ≤ serving.watermark.started) (same : next.history = serving.history)
    (times : next.times = serving.times ++ [next.history.ledger.prunedThrough]) (grows : Grows serving next)
    (answers : (Stage.refreshing purpose read).Answers serving selector) (through readTime : Nat) :
    (Stage.applying purpose read through readTime).Answers next selector := by
  cases selector with
  | number number => exact Purpose.Answers.next timed answers first drawn grows times (same ▸ le_rfl)
  | hash hash => exact answers
  | other => trivial

theorem applying_answers (timed : Timed serving) {read through readTime : Nat}
    (first : 1 ≤ read) (drawn : read ≤ serving.watermark.started) (at_ : ReadAt serving read through readTime)
    (answers : (Stage.applying purpose read through readTime).Answers serving selector) :
    (afterWatermark purpose (serving.watermark.apply read through readTime).through).Answers next selector := by
  cases selector with
  | number number =>
    cases purpose with
    | check asked => exact (answers : asked = number) ▸ afterWatermark_check next asked _
    | recheck asked =>
      obtain ⟨rfl, gone⟩ := (answers : asked = number ∧ _)
      exact afterWatermark_recheck timed next first drawn at_ gone
    | mention => exact answers.elim
  | hash hash =>
    rw [(answers : purpose = .mention)]
    trivial
  | other => trivial

/-- A request's own step, into a state whose records have moved on by one moment. -/
theorem Tracks.proceed (timed : Timed serving) {index : Nat} {ok fresh : Bool} (tracks : Tracks serving request)
    (listed : request ∈ serving.requests) (same : next.history = serving.history)
    (starts : next.starts = (serving.proceed index request ok fresh).starts)
    (times : next.times = serving.times ++ [next.history.ledger.prunedThrough]) (grows : Grows serving next) :
    ∀ other ∈ (serving.proceed index request ok fresh).requests, other ∈ serving.requests ∨ Tracks next other := by
  have staged := timed.requests request listed
  have answered := tracks.stage
  have moved := tracks.setStage same index
  unfold Serving.proceed at starts ⊢
  cases stage : request.stage with
  | called =>
    cases selector : request.selector with
    | number number =>
      dsimp only
      split
      · exact moved _ fun _ => selector ▸ afterWatermark_check next number _
      · exact moved _ fun _ => selector ▸ (rfl : number = number)
    | hash hash =>
      dsimp only
      split
      · split
        · exact moved _ fun _ => selector ▸ trivial
        · next block found =>
          exact moved _ fun had => selector ▸ ⟨rfl, same ▸ tracks.listed_transactions selector had found⟩
      · exact moved _ fun _ => error_answers _ _
    | other =>
      dsimp only
      split
      · exact moved _ fun _ => selector ▸ trivial
      · exact moved _ fun _ => selector ▸ trivial
  | missing =>
    rw [stage] at answered
    dsimp only
    split
    · exact moved _ fun _ => error_answers _ _
    · exact moved _ fun had => mention_answers _ (answered had)
  | querying asked rechecks =>
    rw [stage] at answered
    dsimp only
    split
    · rw [← apply_ite (serving.setStage index request)]
      exact moved _ fun had => tracks.querying_answers same had (answered had)
    · exact moved _ fun _ => error_answers _ _
  | rechecking asked =>
    rw [stage] at answered
    rw [stage] at starts
    exact moved _ fun had => rechecking_answers timed same times starts (answered had)
  | refreshing purpose read =>
    rw [stage] at answered staged
    dsimp only
    split
    · exact moved _ fun had => refreshing_answers timed staged.1 staged.2 same times grows (answered had) _ _
    · exact moved _ fun _ => error_answers _ _
  | applying purpose read through readTime =>
    rw [stage] at answered staged
    dsimp only
    exact moved _ fun had => applying_answers timed staged.1 staged.2.1 staged.2.2 (answered had)
  | done reply => exact fun other member => .inl member

end Own

/-! ## Whole runs -/

structure Served (serving : Serving) : Prop where
  kept : PastWatermark serving.history
  timed : Timed serving
  tracks : ∀ request ∈ serving.requests, Tracks serving request

theorem Served.start {history : History} (past : PastWatermark history) : Served (Serving.start history) where
  kept := past
  timed := Timed.start history
  tracks := by simp [Serving.start]

variable {event : Event}

theorem Served.retention {serving : Serving} (served : Served serving)
    (requests : (serving.step event).requests = serving.requests)
    (next : PastWatermark (serving.step event).history ∧ Prunes serving.history (serving.step event).history)
    (kept : ∀ request ∈ serving.requests, ∀ number, request.stage = .querying number false →
      (∃ row ∈ serving.history.ledger.store.transactions, row.blockNumber = number) →
        ∃ row ∈ (serving.step event).history.ledger.store.transactions, row.blockNumber = number) :
    Served (serving.step event) where
  kept := next.1
  timed := served.timed.step event
  tracks := by
    intro request member
    rw [requests] at member
    exact (served.tracks request member).next served.timed member (served.timed.step_grows event).1 rfl next.2
      (kept request member)

theorem Served.still {serving : Serving} (served : Served serving)
    (requests : (serving.step event).requests = serving.requests)
    (same : (serving.step event).history = serving.history) : Served (serving.step event) := by
  refine served.retention requests ?_ fun _ _ _ _ some => same ▸ some
  rw [same]
  exact ⟨served.kept, Prunes.refl _⟩

theorem detachRange_transactions {history after : History} {lo : Option Nat}
    (done : history.detachRange lo = some after)
    (apart : ∀ range ∈ history.ranges, range.lo = lo → range.detachedTables = 1 → ¬range.holds number)
    (some : ∃ row ∈ history.ledger.store.transactions, row.blockNumber = number) :
    ∃ row ∈ after.ledger.store.transactions, row.blockNumber = number := by
  obtain ⟨range, listed, named, _, steps⟩ := History.detachRange_eq_some done
  obtain ⟨row, stored, rfl⟩ := some
  rcases steps with ⟨table, first, rfl⟩ | finished
  · refine ⟨row, ?_, rfl⟩
    cases table with
    | blocks | logs | tokenTransfers | internalTransactions | balances => exact stored
    | transactions =>
      have second : range.detachedTables = 1 := by
        obtain ⟨bound, found⟩ := List.getElem?_eq_some_iff.mp first
        have small : range.detachedTables < 6 := bound
        interval_cases range.detachedTables <;> first | rfl | cases found
      exact mem_filter.mpr ⟨stored, by simpa using apart range listed named second⟩
  · exact ⟨row, finished.2 ▸ stored, rfl⟩

theorem Served.step {serving : Serving} (served : Served serving)
    (undisturbed : Undisturbed serving event) : Served (serving.step event) := by
  cases event with
  | begin selector =>
    refine ⟨served.kept, served.timed.step _, ?_⟩
    intro request member
    rcases mem_append.mp member with old | new
    · exact (served.tracks request old).next served.timed old (served.timed.step_grows _).1 rfl (Prunes.refl _)
        fun _ _ some => some
    · rw [mem_singleton.mp new]
      refine ⟨fun _ stored => stored, fun _ stored => .inl stored, fun _ => ?_⟩
      cases selector <;> trivial
  | pruneAdvance lo =>
    cases done : serving.history.pruneAdvance lo with
    | none => exact served.still rfl (by simp [Serving.step, Serving.act, done])
    | some after =>
      have moved : (serving.step (.pruneAdvance lo)).history = after := by
        simp [Serving.step, Serving.act, done]
      refine served.retention rfl (moved ▸ served.kept.advance undisturbed done) ?_
      intro _ _ _ _ some
      obtain ⟨_, _, _, _, _, _, rfl⟩ := History.pruneAdvance_eq_some done
      exact moved ▸ some
  | detachRange lo =>
    cases done : serving.history.detachRange lo with
    | none => exact served.still rfl (by simp [Serving.step, Serving.act, done])
    | some after =>
      have moved : (serving.step (.detachRange lo)).history = after := by
        simp [Serving.step, Serving.act, done]
      refine served.retention rfl (moved ▸ served.kept.detach done) ?_
      intro request listed number querying some
      rw [moved]
      have awaits : number ∈ request.awaits := by simp [Request.awaits, querying]
      exact detachRange_transactions done
        (fun range member named second => undisturbed range member named second request listed number awaits) some
  | dropRange lo =>
    cases done : serving.history.dropRange lo with
    | none => exact served.still rfl (by simp [Serving.step, Serving.act, done])
    | some after =>
      have moved : (serving.step (.dropRange lo)).history = after := by
        simp [Serving.step, Serving.act, done]
      refine served.retention rfl (moved ▸ served.kept.drop done) ?_
      intro _ _ _ _ some
      obtain ⟨_, _, _, _, rfl⟩ := History.dropRange_eq_some done
      exact moved ▸ some
  | proceed index ok fresh =>
    cases found : serving.requests[index]? with
    | none =>
      exact served.still (by simp [Serving.step, act_proceed_none found])
        (by simp [Serving.step, act_proceed_none found])
    | some request =>
      have listed : request ∈ serving.requests := mem_of_getElem? found
      have acted : serving.act (.proceed index ok fresh) = serving.proceed index request ok fresh :=
        act_proceed_some found
      have same : (serving.step (.proceed index ok fresh)).history = serving.history := by
        simp [Serving.step, acted, proceed_frame]
      have grows := (served.timed.step_grows (.proceed index ok fresh)).1
      refine ⟨same ▸ served.kept, served.timed.step _, ?_⟩
      intro other member
      have starts : (serving.step (.proceed index ok fresh)).starts =
          (serving.proceed index request ok fresh).starts := by
        simp [Serving.step, acted]
      have own := (served.tracks request listed).proceed served.timed listed same starts rfl grows other
        (by simpa [Serving.step, acted] using member)
      rcases own with old | tracks
      · exact (served.tracks other old).next served.timed old grows rfl (same ▸ Prunes.refl _)
          fun _ _ some => same ▸ some
      · exact tracks

/-- A refresh returns a value read after it began, and a read that started earlier never replaces one that started
later. A block's transactions, asked for while they were stored, are listed or refused, in every run that keeps them
between the two queries of a request by hash and never leaves the watermark at block 0. -/
theorem listTransactions_retained (history : History) (past : PastWatermark history) (events : List Event) :
    (∀ entry ∈ (run Serving.step (Serving.start history) events).refreshed, entry.began ≤ entry.readTime ∧
        (run Serving.step (Serving.start history) events).times[entry.readTime]? = some entry.through) ∧
      (∀ event, ∀ since ∈ (run Serving.step (Serving.start history) events).cachedSince,
        ∃ later ∈ ((run Serving.step (Serving.start history) events).step event).cachedSince, since ≤ later) ∧
      (Admits Serving.step (Serving.start history) Undisturbed events →
        ∀ request ∈ (run Serving.step (Serving.start history) events).requests,
          request.HadTransactions → request.stage ≠ .done (.rows [])) := by
  have timed : Timed (run Serving.step (Serving.start history) events) :=
    run_invariant Timed (Timed.start history) (fun _ event before => before.step event) events
  refine ⟨timed.refreshed, timed.cachedSince_le, ?_⟩
  intro admits request listed had empty
  have served : Served (run Serving.step (Serving.start history) events) :=
    admits.invariant Served (Served.start past) (fun _ _ before allowed => before.step allowed) prefix_rfl
  have answers := (served.tracks request listed).stage had
  rw [empty] at answers
  unfold Request.HadTransactions at had
  cases selector : request.selector with
  | number number =>
    rw [selector] at answers
    exact answers rfl
  | hash hash =>
    rw [selector] at answers
    exact answers rfl
  | other =>
    rw [selector] at had
    exact had

/-! ## A block pruned while it is asked for -/

def prunableHistory : History where
  ledger :=
    { store :=
        { blocks := [{ number := 1, hash := "0x01", parentHash := "" },
            { number := 2, hash := "0x02", parentHash := "0x01", timestamp := 86400 },
            { number := 12802, hash := "0x03", parentHash := "", timestamp := 86400 }]
          transactions := [bareTransaction "0xa" 1 0 "0x1" none] }
      spans := [⟨0, 2, .rows, .unchecked, {}⟩] }
  ranges := [{ lo := none, hi := some 2 }, { lo := some 2, hi := some 20000 }]
  dailyWatermark := some 12801

theorem prunableHistory_past : PastWatermark prunableHistory where
  keyed := by decide
  past := by simp [prunableHistory]
  blocksGone := by simp [prunableHistory]

def prunedMeanwhile (selector : Selector) : List Event :=
  [.begin selector, .proceed 0 true true, .pruneAdvance none, .detachRange none, .detachRange none]

/-- By number the empty answer of the query is checked against a fresh watermark and refused. -/
theorem listTransactions_retained_by_number :
    let events := prunedMeanwhile (.number 1) ++ List.replicate 4 (.proceed 0 true true)
    (run Serving.step (Serving.start prunableHistory) events).requests.map (·.stage) = [.done .error] ∧
      ∀ request ∈ (run Serving.step (Serving.start prunableHistory) events).requests,
        request.HadTransactions → request.stage ≠ .done (.rows []) :=
  ⟨by decide +kernel,
    (listTransactions_retained prunableHistory prunableHistory_past _).2.2 (by decide +kernel)⟩

/-- By hash it is served. -/
theorem pruned_block_served_empty :
    PastWatermark prunableHistory ∧
      ∃ request ∈ (run Serving.step (Serving.start prunableHistory)
          (prunedMeanwhile (.hash "0x01") ++ [.proceed 0 true true])).requests,
        request.HadTransactions ∧ request.stage = .done (.rows []) := by
  refine ⟨prunableHistory_past, ?_⟩
  have served : (run Serving.step (Serving.start prunableHistory)
      (prunedMeanwhile (.hash "0x01") ++ [.proceed 0 true true])).requests =
      [⟨.hash "0x01", prunableHistory.ledger.store, .done (.rows [])⟩] := by
    rfl
  rw [served]
  refine ⟨_, mem_singleton_self _, ?_, rfl⟩
  simp [Request.HadTransactions, prunableHistory, bareTransaction]

end OpsIndexer.Grpcserver
