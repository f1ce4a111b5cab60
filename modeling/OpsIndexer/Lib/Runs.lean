import Mathlib

/-!
# Runs of a step function

A system that takes one step for every event. Histories are lists of events, so a statement about an earlier state is
one about a prefix.
-/

namespace OpsIndexer.Lib.Runs

open List

section

variable {σ ε : Type} (step : σ → ε → σ) (start : σ)

def run (events : List ε) : σ :=
  events.foldl step start

def Once (events : List ε) (holds : σ → Prop) : Prop :=
  ∃ past, past <+: events ∧ holds (run step start past)

theorem run_append (first second : List ε) :
    run step start (first ++ second) = run step (run step start first) second :=
  foldl_append

theorem run_concat (events : List ε) (event : ε) :
    run step start (events ++ [event]) = step (run step start events) event := by
  rw [run, foldl_concat, run]

variable {holds : σ → Prop} {events : List ε} {event : ε} {allowed : σ → ε → Prop}

theorem once_nil : Once step start [] holds ↔ holds start := by
  constructor
  · rintro ⟨past, short, found⟩
    rwa [prefix_nil.mp short] at found
  · intro found
    exact ⟨[], prefix_rfl, found⟩

theorem once_concat :
    Once step start (events ++ [event]) holds ↔
      Once step start events holds ∨ holds (step (run step start events) event) := by
  simp only [Once, prefix_concat_iff]
  constructor
  · rintro ⟨past, rfl | before, found⟩
    · exact .inr (run_concat step start events event ▸ found)
    · exact .inl ⟨past, before, found⟩
  · rintro (⟨past, before, found⟩ | found)
    · exact ⟨past, .inr before, found⟩
    · exact ⟨_, .inl rfl, (run_concat step start events event).symm ▸ found⟩

variable {step start}

theorem Once.now (found : holds (run step start events)) :
    Once step start events holds :=
  ⟨events, prefix_rfl, found⟩

theorem Once.imp {other : σ → Prop} (found : Once step start events holds)
    (implies : ∀ state, holds state → other state) : Once step start events other := by
  obtain ⟨past, before, held⟩ := found
  exact ⟨past, before, implies _ held⟩

theorem run_invariant (invariant : σ → Prop) (first : invariant start)
    (next : ∀ state event, invariant state → invariant (step state event)) (events : List ε) :
    invariant (run step start events) := by
  induction events using List.reverseRecOn with
  | nil => exact first
  | append_singleton events event ih =>
    rw [run_concat]
    exact next _ event ih

/-- Where each step has a twin that keeps two systems related, a run has one, and they stay related all along it. -/
theorem run_simulated {τ ζ : Type} {twinStep : τ → ζ → τ} {twin : ε → ζ → Prop} (related : σ → τ → Prop) (start : σ)
    (image : τ) (first : related start image)
    (next : ∀ event ∈ events, ∀ state image, related state image →
      ∃ other, twin event other ∧ related (step state event) (twinStep image other)) :
    ∃ others, List.Forall₂ twin events others ∧
      ∀ n, related (run step start (events.take n)) (run twinStep image (others.take n)) := by
  induction events generalizing start image with
  | nil =>
    refine ⟨[], .nil, ?_⟩
    intro n
    rwa [take_nil, take_nil]
  | cons event rest ih =>
    obtain ⟨other, named, after⟩ := next event mem_cons_self start image first
    obtain ⟨others, twins, all⟩ := ih _ _ after fun later member => next later (mem_cons_of_mem _ member)
    refine ⟨other :: others, .cons named twins, ?_⟩
    intro n
    cases n with
    | zero => exact first
    | succ n => exact all n

def Admits (step : σ → ε → σ) (start : σ) (allowed : σ → ε → Prop) (events : List ε) : Prop :=
  ∀ past event, past ++ [event] <+: events → allowed (run step start past) event

theorem admits_nil (allowed : σ → ε → Prop) : Admits step start allowed [] := by
  intro past event short
  simpa using prefix_nil.mp short

theorem admits_cons (first : allowed start event) (later : Admits step (step start event) allowed events) :
    Admits step start allowed (event :: events) := by
  intro past last reached
  cases past with
  | nil =>
    rw [nil_append, cons_prefix_cons] at reached
    exact reached.1 ▸ first
  | cons head past =>
    rw [cons_append, cons_prefix_cons] at reached
    rw [reached.1]
    exact later past last reached.2

theorem admits_cons_iff :
    Admits step start allowed (event :: events) ↔
      allowed start event ∧ Admits step (step start event) allowed events := by
  constructor
  · intro admits
    refine ⟨admits [] event (by simp), ?_⟩
    intro past last reached
    exact admits (event :: past) last (by simpa using reached)
  · rintro ⟨first, later⟩
    exact admits_cons first later

instance decidableAdmits (allowed : σ → ε → Prop) [∀ state event, Decidable (allowed state event)] :
    (events : List ε) → (start : σ) → Decidable (Admits step start allowed events)
  | [], _ => isTrue (admits_nil allowed)
  | event :: events, start =>
    have := decidableAdmits allowed events (step start event)
    decidable_of_iff (allowed start event ∧ Admits step (step start event) allowed events) admits_cons_iff.symm

/-- What the allowed steps keep holds in every state of a run of such steps. -/
theorem Admits.invariant (invariant : σ → Prop) (admits : Admits step start allowed events) (first : invariant start)
    (next : ∀ state event, invariant state → allowed state event → invariant (step state event)) {past : List ε}
    (reached : past <+: events) : invariant (run step start past) := by
  induction past using List.reverseRecOn with
  | nil => exact first
  | append_singleton past event ih =>
    rw [run_concat]
    exact next _ event (ih ((prefix_append past [event]).trans reached)) (admits past event reached)

theorem Once.kept (invariant : σ → Prop) (first : invariant start)
    (next : ∀ state event, invariant state → invariant (step state event))
    (keeps : ∀ state event, invariant state → holds state → holds (step state event))
    (found : Once step start events holds) : holds (run step start events) := by
  induction events using List.reverseRecOn with
  | nil => exact (once_nil step start).mp found
  | append_singleton events event ih =>
    rw [run_concat]
    rcases (once_concat step start).mp found with before | now
    · exact keeps _ event (run_invariant invariant first next events) (ih before)
    · exact now

end

/-! ## Loops that stop -/

section

variable {σ α : Type} (step : σ → α → σ × Bool)

def foldUntil (state : σ) : List α → σ
  | [] => state
  | item :: rest => if (step state item).2 then foldUntil (step state item).1 rest else (step state item).1

variable {step}

/-- `running` holds as long as the loop goes on, for what is left of the list, and `ended` once it stops. -/
theorem foldUntil_induction (running : List α → σ → Prop) (ended : σ → Prop)
    (goes : ∀ item rest state, running (item :: rest) state → (step state item).2 = true →
      running rest (step state item).1)
    (stops : ∀ item rest state, running (item :: rest) state → (step state item).2 = false →
      ended (step state item).1)
    (done : ∀ state, running [] state → ended state) (items : List α) (state : σ) (start : running items state) :
    ended (foldUntil step state items) := by
  induction items generalizing state with
  | nil => exact done state start
  | cons item rest ih =>
    rw [foldUntil]
    split
    · next more => exact ih _ (goes item rest state start more)
    · next stop => exact stops item rest state start (Bool.not_eq_true _ ▸ stop)

end

end OpsIndexer.Lib.Runs
