import OpsIndexer.Lib.Routines
import OpsIndexer.Lib.Runs

/-!
# The throttle of the daily statistics

`dailyStatsThrottle` and the calls around it. Each locked section is one turn of a goroutine, so calls, runs and timers
can come between any two of them. No call is cancelled.
-/

namespace OpsIndexer.Indexing

open Lib.Routines Lib.Runs List

abbrev Day : Type := Int

/-! ## Locked sections -/

structure DailyStatsThrottle where
  /-- When the last run started, unless none did. -/
  last : Option Int := none
  running : Bool := false
  armed : Bool := false
  /-- The keys of the map. -/
  dirty : List Day := []
  deriving DecidableEq, Repr

variable {throttle : DailyStatsThrottle}

namespace DailyStatsThrottle

def markDirty (throttle : DailyStatsThrottle) (day : Day) : DailyStatsThrottle :=
  { throttle with dirty := throttle.dirty.insert day }

def mayStart (throttle : DailyStatsThrottle) (blockNumber : Nat) (minInterval now : Int) : Bool :=
  if minInterval ≤ 0 then blockNumber % 100 = 0
  else throttle.last.all fun last => minInterval ≤ now - last

def due (throttle : DailyStatsThrottle) (blockNumber : Nat) (day : Option Day) (minInterval now : Int) :
    DailyStatsThrottle × Option (List Day) :=
  let marked := day.elim throttle throttle.markDirty
  if marked.running ∨ marked.dirty = [] then (marked, none)
  else if marked.mayStart blockNumber minInterval now then
    ({ marked with dirty := [], last := some now, running := true }, some (marked.dirty.insertionSort (· ≤ ·)))
  else (marked, none)

def done (throttle : DailyStatsThrottle) : DailyStatsThrottle :=
  { throttle with running := false }

/-- How long the timer waits that is to be started; times are in nanoseconds, as a `time.Duration` is. -/
def arm (throttle : DailyStatsThrottle) (minInterval now : Int) : DailyStatsThrottle × Option Int :=
  if minInterval ≤ 0 ∨ throttle.running ∨ throttle.armed ∨ throttle.dirty = [] then (throttle, none)
  else ({ throttle with armed := true }, some (throttle.last.elim 1000000 fun last => max (minInterval - (now - last)) 1000000))

def disarm (throttle : DailyStatsThrottle) : DailyStatsThrottle :=
  { throttle with armed := false }

theorem mem_markDirty {day other : Day} :
    other ∈ (throttle.markDirty day).dirty ↔ other = day ∨ other ∈ throttle.dirty :=
  mem_insert_iff

structure Marked (throttle : DailyStatsThrottle) (day : Option Day) (next : DailyStatsThrottle) : Prop where
  running : next.running = throttle.running
  armed : next.armed = throttle.armed
  dirty : ∀ other, other ∈ next.dirty ↔ day = some other ∨ other ∈ throttle.dirty

theorem marked_elim (throttle : DailyStatsThrottle) (day : Option Day) :
    Marked throttle day (day.elim throttle throttle.markDirty) := by
  cases day with
  | none => exact ⟨rfl, rfl, by simp⟩
  | some day =>
    refine ⟨rfl, rfl, fun other => ?_⟩
    rw [Option.some_inj, eq_comm]
    exact mem_markDirty

theorem due_cases (throttle : DailyStatsThrottle) (blockNumber : Nat) (day : Option Day) (minInterval now : Int) :
    ∃ marked, Marked throttle day marked ∧
      (throttle.due blockNumber day minInterval now = (marked, none) ∨
        marked.running = false ∧ ∃ days, (∀ other, other ∈ days ↔ other ∈ marked.dirty) ∧
          throttle.due blockNumber day minInterval now =
            ({ marked with dirty := [], last := some now, running := true }, some days)) := by
  refine ⟨_, marked_elim throttle day, ?_⟩
  rw [due]
  split
  · exact .inl rfl
  · next idle =>
    split
    · refine .inr ⟨Bool.not_eq_true _ ▸ (not_or.mp idle).1, _, fun other => ?_, rfl⟩
      exact mem_insertionSort (· ≤ ·)
    · exact .inl rfl

end DailyStatsThrottle

/-! ## Goroutines -/

structure DailyRun where
  number : Nat
  days : List Day
  deriving DecidableEq, Repr

inductive DailyRoutine where
  | scheduleDailyStats (blockNumber : Nat) (day : Option Day)
  | scheduleDeferredDailyStats
  | advanceDailyStats (run : DailyRun)
  /-- The run's deferred part, with the days it is still to mark when it failed. -/
  | finishing (run : DailyRun) (failed : List Day)
  | timer (wait : Int)
  deriving DecidableEq, Repr

structure DailySchedule where
  throttle : DailyStatsThrottle := {}
  started : Nat := 0
  /-- The calls that have passed `due` with a day, with how many runs had started before. -/
  passed : List (Day × Nat) := []
  succeeded : List DailyRun := []
  deriving DecidableEq, Repr

structure DailyTurn where
  now : Int
  /-- What `advanceDailyStats` returns. -/
  advanced : Bool
  deriving DecidableEq, Repr

def actDaily (minInterval : Int) (schedule : DailySchedule) (routine : DailyRoutine) (turn : DailyTurn) :
    DailySchedule × List DailyRoutine :=
  match routine with
  | .scheduleDailyStats blockNumber day =>
    let passed := day.toList.map (·, schedule.started) ++ schedule.passed
    match schedule.throttle.due blockNumber day minInterval turn.now with
    | (throttle, none) => ({ schedule with throttle, passed }, [.scheduleDeferredDailyStats])
    | (throttle, some days) =>
      ({ schedule with throttle, passed, started := schedule.started + 1 },
        [.advanceDailyStats ⟨schedule.started, days⟩])
  | .scheduleDeferredDailyStats =>
    match schedule.throttle.arm minInterval turn.now with
    | (throttle, none) => ({ schedule with throttle }, [])
    | (throttle, some wait) => ({ schedule with throttle }, [.timer wait])
  | .advanceDailyStats run =>
    if turn.advanced then ({ schedule with succeeded := run :: schedule.succeeded }, [.finishing run []])
    else (schedule, [.finishing run run.days])
  | .finishing _ [] => ({ schedule with throttle := schedule.throttle.done }, [.scheduleDeferredDailyStats])
  | .finishing run (day :: failed) =>
    ({ schedule with throttle := schedule.throttle.markDirty day }, [.finishing run failed])
  | .timer _ => ({ schedule with throttle := schedule.throttle.disarm }, [.scheduleDailyStats 0 none])

inductive DailyEvent where
  | call (blockNumber : Nat) (day : Option Day)
  | turn (routine : DailyRoutine) (turn : DailyTurn)
  deriving DecidableEq, Repr

def dailyStep (minInterval : Int) (pool : Pool DailySchedule DailyRoutine) : DailyEvent → Pool DailySchedule DailyRoutine
  | .call blockNumber day => pool.spawn (.scheduleDailyStats blockNumber day)
  | .turn routine turn => pool.turn (actDaily minInterval) routine turn

/-! ## Runs and timers -/

namespace DailyRoutine

def run? : DailyRoutine → Option DailyRun
  | .advanceDailyStats run => some run
  | .finishing run _ => some run
  | _ => none

def isTimer : DailyRoutine → Bool
  | .timer _ => true
  | _ => false

def schedules : DailyRoutine → Bool
  | .scheduleDailyStats _ _ => true
  | .scheduleDeferredDailyStats => true
  | _ => false

end DailyRoutine

/-- A call's day is waiting, or in a run that started with the call or later and goes on or succeeded. -/
def KeepsDay (schedule : DailySchedule) (routines : List DailyRoutine) (call : Day × Nat) : Prop :=
  call.1 ∈ schedule.throttle.dirty ∨
    (∃ routine ∈ routines, ∃ run, routine.run? = some run ∧ call.2 ≤ run.number ∧ call.1 ∈ run.days) ∨
    ∃ run ∈ schedule.succeeded, call.2 ≤ run.number ∧ call.1 ∈ run.days

theorem KeepsDay.leave {schedule after : DailySchedule} {routine : DailyRoutine} {rest next : List DailyRoutine}
    {call : Day × Nat} (keeps : KeepsDay schedule (routine :: rest) call) (own : routine.run? = none)
    (dirty : ∀ day ∈ schedule.throttle.dirty, day ∈ after.throttle.dirty)
    (succeeded : after.succeeded = schedule.succeeded) (others : ∀ other ∈ rest, other ∈ next) :
    KeepsDay after next call := by
  rcases keeps with waiting | ⟨other, there, run, runs, taken⟩ | done
  · exact .inl (dirty call.1 waiting)
  · rcases mem_cons.mp there with rfl | there
    · rw [own] at runs
      cases runs
    · exact .inr (.inl ⟨other, others other there, run, runs, taken⟩)
  · exact .inr (.inr (succeeded.symm ▸ done))

structure Scheduled (schedule : DailySchedule) (routines : List DailyRoutine) : Prop where
  oneRun : routines.countP (·.run?.isSome) = schedule.throttle.running.toNat
  oneTimer : routines.countP (·.isTimer) = schedule.throttle.armed.toNat
  before : ∀ call ∈ schedule.passed, call.2 ≤ schedule.started
  /-- What a failed run has not marked yet it still has to mark. -/
  failed : ∀ run left, .finishing run left ∈ routines →
    run ∈ schedule.succeeded ∨ ∀ day ∈ run.days, day ∈ left ∨ day ∈ schedule.throttle.dirty
  keeps : ∀ call ∈ schedule.passed, KeepsDay schedule routines call
  awake : schedule.throttle.dirty ≠ [] → schedule.throttle.running = true ∨ schedule.throttle.armed = true ∨
    ∃ routine ∈ routines, routine.schedules = true

namespace Scheduled

variable {schedule : DailySchedule} {routines rest : List DailyRoutine}

theorem perm {others : List DailyRoutine} (same : routines.Perm others) (scheduled : Scheduled schedule routines) :
    Scheduled schedule others where
  oneRun := by rw [← same.countP_eq, scheduled.oneRun]
  oneTimer := by rw [← same.countP_eq, scheduled.oneTimer]
  before := scheduled.before
  failed := fun run left member => scheduled.failed run left (same.mem_iff.mpr member)
  keeps := by
    intro call member
    simpa only [KeepsDay, same.mem_iff] using scheduled.keeps call member
  awake := by
    intro dirty
    simpa only [same.mem_iff] using scheduled.awake dirty

variable {routine : DailyRoutine} {run : DailyRun} {day : Option Day} {blockNumber : Nat} {marked : DailyStatsThrottle}
  {wait minInterval : Int}

theorem idle (scheduled : Scheduled schedule routines) (idle : schedule.throttle.running = false)
    (member : routine ∈ routines) : routine.run? = none := by
  have none := scheduled.oneRun
  rw [idle, Bool.toNat_false, countP_eq_zero] at none
  simpa using none routine member

theorem others (scheduled : Scheduled schedule (routine :: rest)) (own : routine.run? = some run)
    {other : DailyRoutine} (member : other ∈ rest) : other.run? = none := by
  have one := scheduled.oneRun
  rw [countP_cons_of_pos (by simp [own])] at one
  have none : rest.countP (·.run?.isSome) = 0 := by
    have bound := Bool.toNat_le schedule.throttle.running
    omega
  simpa using countP_eq_zero.mp none other member

theorem mem_passed {call : Day × Nat} (member : call ∈ day.toList.map (·, schedule.started) ++ schedule.passed) :
    (day = some call.1 ∧ call.2 = schedule.started) ∨ call ∈ schedule.passed := by
  rcases mem_append.mp member with own | earlier
  · obtain ⟨other, same, rfl⟩ := mem_map.mp own
    exact .inl ⟨by simpa using same, rfl⟩
  · exact .inr earlier

theorem passesDue (scheduled : Scheduled schedule (.scheduleDailyStats blockNumber day :: rest))
    (marks : schedule.throttle.Marked day marked) :
    Scheduled
      { schedule with throttle := marked, passed := day.toList.map (·, schedule.started) ++ schedule.passed }
      (.scheduleDeferredDailyStats :: rest) where
  oneRun := by
    rw [marks.running, ← scheduled.oneRun]
    rfl
  oneTimer := by
    rw [marks.armed, ← scheduled.oneTimer]
    rfl
  before := by
    intro call member
    rcases mem_passed member with ⟨_, same⟩ | earlier
    · exact same.le
    · exact scheduled.before call earlier
  failed := by
    intro run left member
    have kept : .finishing run left ∈ rest := by simpa using member
    refine (scheduled.failed run left (mem_cons_of_mem _ kept)).imp_right fun every day' there => ?_
    exact (every day' there).imp_right fun dirty => (marks.dirty day').mpr (.inr dirty)
  keeps := by
    intro call member
    rcases mem_passed member with ⟨own, _⟩ | earlier
    · exact .inl ((marks.dirty call.1).mpr (.inl own))
    · exact (scheduled.keeps call earlier).leave rfl (fun other dirty => (marks.dirty other).mpr (.inr dirty)) rfl
        fun other => mem_cons_of_mem _
  awake := fun _ => .inr (.inr ⟨_, mem_cons_self, rfl⟩)

theorem startsRun {days : List Day} {now : Int}
    (scheduled : Scheduled schedule (.scheduleDailyStats blockNumber day :: rest))
    (marks : schedule.throttle.Marked day marked) (idle : marked.running = false)
    (taken : ∀ other, other ∈ days ↔ other ∈ marked.dirty) :
    Scheduled
      { schedule with
        throttle := { marked with dirty := [], last := some now, running := true }
        passed := day.toList.map (·, schedule.started) ++ schedule.passed
        started := schedule.started + 1 }
      (.advanceDailyStats ⟨schedule.started, days⟩ :: rest) where
  oneRun := by
    rw [countP_cons_of_pos rfl, countP_eq_zero.mpr]
    · rfl
    · intro other member
      rw [scheduled.idle (marks.running ▸ idle) (mem_cons_of_mem _ member)]
      simp
  oneTimer := by
    rw [marks.armed, ← scheduled.oneTimer]
    rfl
  before := by
    intro call member
    rcases mem_passed member with ⟨_, same⟩ | earlier
    · exact same.le.trans (Nat.le_succ _)
    · exact (scheduled.before call earlier).trans (Nat.le_succ _)
  failed := by
    intro run left member
    have kept : .finishing run left ∈ rest := by simpa using member
    cases scheduled.idle (marks.running ▸ idle) (mem_cons_of_mem _ kept)
  keeps := by
    intro call member
    rcases mem_passed member with ⟨own, same⟩ | earlier
    · have inRun := (taken call.1).mpr ((marks.dirty call.1).mpr (.inl own))
      exact .inr (.inl ⟨_, mem_cons_self, _, rfl, same.le, inRun⟩)
    · rcases scheduled.keeps call earlier with dirty | ⟨routine, there, run, running⟩ | succeeded
      · have inRun := (taken call.1).mpr ((marks.dirty call.1).mpr (.inr dirty))
        exact .inr (.inl ⟨_, mem_cons_self, _, rfl, scheduled.before call earlier, inRun⟩)
      · rw [scheduled.idle (marks.running ▸ idle) there] at running
        cases running.1
      · exact .inr (.inr succeeded)
  awake := fun _ => .inl rfl

theorem finishes (scheduled : Scheduled schedule (.finishing run [] :: rest)) :
    Scheduled { schedule with throttle := schedule.throttle.done } (.scheduleDeferredDailyStats :: rest) where
  oneRun := by
    refine countP_eq_zero.mpr fun other member => ?_
    rcases mem_cons.mp member with rfl | member
    · simp [DailyRoutine.run?]
    · simp [scheduled.others rfl member]
  oneTimer := scheduled.oneTimer
  before := scheduled.before
  failed := by
    intro other left member
    have kept : .finishing other left ∈ rest := by simpa using member
    cases scheduled.others rfl kept
  keeps := by
    intro call member
    rcases scheduled.keeps call member with dirty | ⟨routine, there, other, running, later, day⟩ | succeeded
    · exact .inl dirty
    · rcases mem_cons.mp there with rfl | there
      · cases running
        rcases scheduled.failed run [] mem_cons_self with success | marked
        · exact .inr (.inr ⟨run, success, later, day⟩)
        · exact .inl ((marked call.1 day).resolve_left not_mem_nil)
      · rw [scheduled.others rfl there] at running
        cases running
    · exact .inr (.inr succeeded)
  awake := fun _ => .inr (.inr ⟨_, mem_cons_self, rfl⟩)

theorem goesOn {left : List Day} {succeeded : List DailyRun}
    (scheduled : Scheduled schedule (routine :: rest)) (own : routine.run? = some run)
    (running : throttle.running = schedule.throttle.running) (armed : throttle.armed = schedule.throttle.armed)
    (dirty : ∀ day ∈ schedule.throttle.dirty, day ∈ throttle.dirty)
    (known : ∀ other ∈ schedule.succeeded, other ∈ succeeded)
    (failed : run ∈ succeeded ∨ ∀ day ∈ run.days, day ∈ left ∨ day ∈ throttle.dirty) :
    Scheduled { schedule with throttle := throttle, succeeded := succeeded } (.finishing run left :: rest) where
  oneRun := by
    rw [running, ← scheduled.oneRun, countP_cons_of_pos rfl, countP_cons_of_pos (by simp [own])]
  oneTimer := by
    rw [armed, ← scheduled.oneTimer, countP_cons_of_neg (by simp [DailyRoutine.isTimer]),
      countP_cons_of_neg]
    cases routine with
    | advanceDailyStats run => simp [DailyRoutine.isTimer]
    | finishing run left => simp [DailyRoutine.isTimer]
    | scheduleDailyStats blockNumber day => cases own
    | scheduleDeferredDailyStats => cases own
    | timer wait => cases own
  before := scheduled.before
  failed := by
    intro other later member
    rcases mem_cons.mp member with same | member
    · cases same
      exact failed
    · cases scheduled.others own member
  keeps := by
    intro call member
    rcases scheduled.keeps call member with waiting | ⟨other, there, started, runs, later, day⟩ | ⟨other, there, taken⟩
    · exact .inl (dirty call.1 waiting)
    · rcases mem_cons.mp there with rfl | there
      · cases own.symm.trans runs
        exact .inr (.inl ⟨_, mem_cons_self, run, rfl, later, day⟩)
      · rw [scheduled.others own there] at runs
        cases runs
    · exact .inr (.inr ⟨other, known other there, taken⟩)
  awake := by
    intro _
    have one := scheduled.oneRun
    rw [countP_cons_of_pos (by simp [own])] at one
    refine .inl (running.trans ?_)
    cases runs : schedule.throttle.running with
    | true => rfl
    | false => simp [runs] at one

theorem disarms (scheduled : Scheduled schedule (.timer wait :: rest)) :
    Scheduled { schedule with throttle := schedule.throttle.disarm } (.scheduleDailyStats 0 none :: rest) where
  oneRun := scheduled.oneRun
  oneTimer := by
    have one := scheduled.oneTimer
    rw [countP_cons_of_pos rfl] at one
    have bound := Bool.toNat_le schedule.throttle.armed
    rw [countP_cons_of_neg (by simp [DailyRoutine.isTimer])]
    change _ = 0
    omega
  before := scheduled.before
  failed := by
    intro run left member
    exact scheduled.failed run left (mem_cons_of_mem _ (by simpa using member))
  keeps := by
    intro call member
    exact (scheduled.keeps call member).leave rfl (fun _ dirty => dirty) rfl fun other => mem_cons_of_mem _
  awake := fun _ => .inr (.inr ⟨_, mem_cons_self, rfl⟩)

theorem leaves (scheduled : Scheduled schedule (.scheduleDeferredDailyStats :: rest))
    (unneeded : schedule.throttle.running ∨ schedule.throttle.armed ∨ schedule.throttle.dirty = []) :
    Scheduled schedule rest where
  oneRun := scheduled.oneRun
  oneTimer := scheduled.oneTimer
  before := scheduled.before
  failed := fun run left member => scheduled.failed run left (mem_cons_of_mem _ member)
  keeps := by
    intro call member
    exact (scheduled.keeps call member).leave rfl (fun _ dirty => dirty) rfl fun _ there => there
  awake := by
    intro dirty
    rcases unneeded with running | armed | clean
    · exact .inl running
    · exact .inr (.inl armed)
    · exact absurd clean dirty

theorem arms (scheduled : Scheduled schedule (.scheduleDeferredDailyStats :: rest))
    (disarmed : schedule.throttle.armed = false) :
    Scheduled { schedule with throttle := { schedule.throttle with armed := true } } (.timer wait :: rest) where
  oneRun := scheduled.oneRun
  oneTimer := by
    have none := scheduled.oneTimer
    rw [disarmed, countP_cons_of_neg (by simp [DailyRoutine.isTimer])] at none
    rw [countP_cons_of_pos rfl, none]
    rfl
  before := scheduled.before
  failed := by
    intro run left member
    exact scheduled.failed run left (mem_cons_of_mem _ (by simpa using member))
  keeps := by
    intro call member
    exact (scheduled.keeps call member).leave rfl (fun _ dirty => dirty) rfl fun other => mem_cons_of_mem _
  awake := fun _ => .inr (.inl rfl)

theorem act (positive : 0 < minInterval) (schedule : DailySchedule) (routine : DailyRoutine)
    (rest : List DailyRoutine) (turn : DailyTurn) (scheduled : Scheduled schedule (routine :: rest)) :
    Scheduled (actDaily minInterval schedule routine turn).1 ((actDaily minInterval schedule routine turn).2 ++ rest) := by
  cases routine with
  | scheduleDailyStats blockNumber day =>
    obtain ⟨marked, marks, passes | ⟨idle, days, taken, starts⟩⟩ :=
      schedule.throttle.due_cases blockNumber day minInterval turn.now
    · rw [actDaily, passes]
      exact scheduled.passesDue marks
    · rw [actDaily, starts]
      exact scheduled.startsRun marks idle taken
  | scheduleDeferredDailyStats =>
    rw [actDaily, DailyStatsThrottle.arm]
    by_cases unneeded : minInterval ≤ 0 ∨ schedule.throttle.running ∨ schedule.throttle.armed ∨
        schedule.throttle.dirty = []
    · rw [if_pos unneeded]
      exact scheduled.leaves (unneeded.resolve_left (not_le.mpr positive))
    · rw [if_neg unneeded]
      simp only [not_or, Bool.not_eq_true] at unneeded
      exact scheduled.arms unneeded.2.2.1
  | advanceDailyStats run =>
    rw [actDaily]
    split
    · exact scheduled.goesOn rfl rfl rfl (fun _ dirty => dirty) (fun _ known => mem_cons_of_mem _ known)
        (.inl mem_cons_self)
    · exact scheduled.goesOn rfl rfl rfl (fun _ dirty => dirty) (fun _ known => known)
        (.inr fun day member => .inl member)
  | finishing run failed =>
    cases failed with
    | nil => exact scheduled.finishes
    | cons day failed =>
      refine scheduled.goesOn rfl rfl rfl (fun other dirty => DailyStatsThrottle.mem_markDirty.mpr (.inr dirty))
        (fun _ known => known) ?_
      refine (scheduled.failed run (day :: failed) mem_cons_self).imp_right fun every other member => ?_
      rcases every other member with left | dirty
      · rcases mem_cons.mp left with rfl | later
        · exact .inr (DailyStatsThrottle.mem_markDirty.mpr (.inl rfl))
        · exact .inl later
      · exact .inr (DailyStatsThrottle.mem_markDirty.mpr (.inr dirty))
  | timer wait => exact scheduled.disarms

theorem call (scheduled : Scheduled schedule routines) (blockNumber : Nat) (day : Option Day) :
    Scheduled schedule (.scheduleDailyStats blockNumber day :: routines) where
  oneRun := scheduled.oneRun
  oneTimer := scheduled.oneTimer
  before := scheduled.before
  failed := by
    intro run left member
    exact scheduled.failed run left (by simpa using member)
  keeps := by
    intro call member
    rcases scheduled.keeps call member with dirty | ⟨routine, there, run, running⟩ | succeeded
    · exact .inl dirty
    · exact .inr (.inl ⟨routine, mem_cons_of_mem _ there, run, running⟩)
    · exact .inr (.inr succeeded)
  awake := fun _ => .inr (.inr ⟨_, mem_cons_self, rfl⟩)

theorem step (positive : 0 < minInterval) (pool : Pool DailySchedule DailyRoutine) (event : DailyEvent)
    (scheduled : Scheduled pool.shared pool.routines) :
    Scheduled (dailyStep minInterval pool event).shared (dailyStep minInterval pool event).routines := by
  cases event with
  | call blockNumber day => exact scheduled.call blockNumber day
  | turn routine turn => exact Pool.turn_invariant Scheduled perm (act positive) scheduled routine turn

end Scheduled

/-! ## Every interleaving -/

def dailyPool (minInterval : Int) (events : List DailyEvent) : Pool DailySchedule DailyRoutine :=
  run (dailyStep minInterval) ⟨{}, []⟩ events

theorem dailyPool_scheduled {minInterval : Int} (positive : 0 < minInterval) (events : List DailyEvent) :
    Scheduled (dailyPool minInterval events).shared (dailyPool minInterval events).routines := by
  refine run_invariant (fun (pool : Pool DailySchedule DailyRoutine) => Scheduled pool.shared pool.routines) ?_ (Scheduled.step positive) events
  exact ⟨rfl, rfl, by simp, by simp, by simp, fun dirty => absurd rfl dirty⟩

/-- Of the throttle with its goroutines: one run at a time, no day of a call lost, and no dirty day without a run or a
timer once every call is through. -/
structure LeavesNoDay (pool : Pool DailySchedule DailyRoutine) : Prop where
  oneRun : pool.routines.countP (·.run?.isSome) ≤ 1
  keeps : ∀ call ∈ pool.shared.passed, KeepsDay pool.shared pool.routines call
  awake : (∀ routine ∈ pool.routines, routine.schedules = false) → pool.shared.throttle.dirty ≠ [] →
    (∃ routine ∈ pool.routines, routine.run?.isSome) ∨ ∃ routine ∈ pool.routines, routine.isTimer

theorem throttle_leaves_no_day (minInterval : Int) (positive : 0 < minInterval) (events : List DailyEvent) :
    LeavesNoDay (dailyPool minInterval events) := by
  have scheduled := dailyPool_scheduled positive events
  apply LeavesNoDay.mk
  · rw [scheduled.oneRun]
    exact Bool.toNat_le _
  · exact scheduled.keeps
  · intro quiet dirty
    rcases scheduled.awake dirty with running | armed | ⟨routine, member, schedules⟩
    · have one := scheduled.oneRun
      rw [running, Bool.toNat_true] at one
      exact .inl (countP_pos_iff.mp (one ▸ Nat.one_pos))
    · have one := scheduled.oneTimer
      rw [armed, Bool.toNat_true] at one
      exact .inr (countP_pos_iff.mp (one ▸ Nat.one_pos))
    · rw [quiet routine member] at schedules
      cases schedules

def failedRun : List DailyEvent :=
  [.call 5 (some 3), .turn (.scheduleDailyStats 5 (some 3)) ⟨0, false⟩, .turn (.advanceDailyStats ⟨0, [3]⟩) ⟨1, false⟩,
    .turn (.finishing ⟨0, [3]⟩ [3]) ⟨1, false⟩, .turn (.finishing ⟨0, [3]⟩ []) ⟨1, false⟩,
    .turn .scheduleDeferredDailyStats ⟨2, false⟩]

theorem throttle_leaves_no_day_failedRun :
    (dailyPool 60000000000 failedRun).shared.throttle.dirty = [3] ∧
      (dailyPool 60000000000 failedRun).routines = [.timer 59999999998] ∧
      LeavesNoDay (dailyPool 60000000000 failedRun) :=
  ⟨by decide, by decide, throttle_leaves_no_day 60000000000 (by decide) failedRun⟩

end OpsIndexer.Indexing
