import Mathlib.Tactic.Common
import Mathlib.Algebra.GroupWithZero.Nat

/-! # Labelled transition systems

Reachable states, invariants, and what holds of every step of every run. -/

namespace AiConfig.Lib

structure System (σ ε : Type) where
  initial : σ → Prop
  step : σ → ε → σ → Prop

variable {σ ε : Type}

inductive System.Reachable (system : System σ ε) : σ → Prop where
  | initial {s : σ} (start : system.initial s) : system.Reachable s
  | step {s s' : σ} {e : ε} (before : system.Reachable s) (taken : system.step s e s') :
      system.Reachable s'

/-- An invariant holds initially and is kept by every step. -/
structure System.Invariant (system : System σ ε) (inv : σ → Prop) : Prop where
  initial : ∀ s, system.initial s → inv s
  step : ∀ s e s', inv s → system.step s e s' → inv s'

theorem System.Invariant.reachable {system : System σ ε} {inv : σ → Prop}
    (invariant : system.Invariant inv) {s : σ} (reachable : system.Reachable s) : inv s := by
  induction reachable with
  | initial start => exact invariant.initial _ start
  | step _ taken inductionHypothesis => exact invariant.step _ _ _ inductionHypothesis taken

/-- A run, newest event last. -/
inductive System.Run (system : System σ ε) : σ → List ε → σ → Prop where
  | refl (s : σ) : system.Run s [] s
  | snoc {s t u : σ} {events : List ε} {e : ε} (before : system.Run s events t)
      (taken : system.step t e u) : system.Run s (events ++ [e]) u

theorem System.Run.reachable {system : System σ ε} {s t : σ} {events : List ε}
    (run : system.Run s events t) (reachable : system.Reachable s) : system.Reachable t := by
  induction run with
  | refl => exact reachable
  | snoc _ taken inductionHypothesis => exact .step inductionHypothesis taken

/-- What every step of an invariant's states keeps, every run from them keeps. -/
theorem System.Run.keeps {system : System σ ε} {inv : σ → Prop} (invariant : system.Invariant inv)
    {keeps : σ → σ → Prop} (refl : ∀ s, keeps s s) (trans : ∀ {a b c}, keeps a b → keeps b c →
    keeps a c)
    (step : ∀ s e s', inv s → system.step s e s' → keeps s s')
    {s t : σ} {events : List ε} (run : system.Run s events t) (start : inv s) :
    keeps s t ∧ inv t := by
  induction run with
  | refl => exact ⟨refl _, start⟩
  | snoc _ taken inductionHypothesis =>
    obtain ⟨kept, holds⟩ := inductionHypothesis
    exact ⟨trans kept (step _ _ _ holds taken), invariant.step _ _ _ holds taken⟩

/-- What each counted event takes off a measure bounds how often it happens. -/
theorem System.Run.counted {system : System σ ε} {inv : σ → Prop} {allowed : ε → Prop}
    {counted : ε → Bool}
    (measure : σ → Nat)
    (step : ∀ s e s', inv s → allowed e → system.step s e s' →
      inv s' ∧ measure s' + (if counted e then 1 else 0) ≤ measure s)
    {s t : σ} {events : List ε} (run : system.Run s events t) (start : inv s)
    (all : ∀ e ∈ events, allowed e) :
    inv t ∧ measure t + events.countP counted ≤ measure s := by
  induction run with
  | refl => exact ⟨start, by simp⟩
  | @snoc _ _ events e before taken inductionHypothesis =>
    obtain ⟨holds, below⟩ :=
      inductionHypothesis fun e inside => all e (List.mem_append_left _ inside)
    obtain ⟨after, less⟩ := step _ e _ holds (all e (by simp)) taken
    refine ⟨after, ?_⟩
    have tail : [e].countP counted = if counted e then 1 else 0 := by
      cases counts : counted e <;> simp [counts]
    rw [List.countP_append, tail]
    omega

/-- What each event may add to a measure bounds the measure after a run. -/
theorem System.Run.charged {system : System σ ε} {inv : σ → Prop} {allowed : ε → Prop}
    (measure : σ → Nat)
    (cost : ε → Nat)
    (step : ∀ s e s', inv s → allowed e → system.step s e s' → inv s' ∧
    measure s' ≤ measure s + cost e)
    {s t : σ} {events : List ε} (run : system.Run s events t) (start : inv s)
    (all : ∀ e ∈ events, allowed e) :
    inv t ∧ measure t ≤ measure s + (events.map cost).sum := by
  induction run with
  | refl => exact ⟨start, Nat.le_add_right _ _⟩
  | @snoc _ _ events e before taken inductionHypothesis =>
    obtain ⟨holds, below⟩ :=
      inductionHypothesis fun e inside => all e (List.mem_append_left _ inside)
    obtain ⟨after, more⟩ := step _ e _ holds (all e (by simp)) taken
    refine ⟨after, ?_⟩
    rw [List.map_append, List.sum_append, List.map_singleton, List.sum_singleton]
    omega

/-! ## Runs of a function -/

theorem forall_take_iff {ε : Type} (holds : List ε → Prop) (events : List ε) :
    (∀ n ≤ events.length, holds (events.take n)) ↔ ∀ n, holds (events.take n) := by
  refine ⟨fun all n => ?_, fun all n _ => all n⟩
  obtain low | high := Nat.le_total n events.length
  · exact all n low
  · have whole := all events.length (Nat.le_refl _)
    rwa [List.take_length, ← List.take_of_length_le high] at whole

/-- Every state of a run keeps what holds at first and is kept exactly by the steps that have room. -/
theorem kept_run_iff {step : σ → ε → σ} (sound kept : σ → Prop) (room : σ → ε → Prop)
    (sound_step : ∀ s e, sound s → sound (step s e)) (exact_ : ∀ s e, sound s → kept s → (kept (step s e) ↔ room s e))
    {start : σ} (sound_start : sound start) (holds : kept start) (events : List ε) :
    (∀ n, kept ((events.take n).foldl step start)) ↔
      ∀ n e, events[n]? = some e → room ((events.take n).foldl step start) e := by
  induction events generalizing start with
  | nil => simp [holds]
  | cons first events inductionHypothesis =>
    have later := sound_step start first sound_start
    constructor
    · intro all n e at_
      cases n with
      | zero =>
        obtain rfl : first = e := by simpa using at_
        exact (exact_ start first sound_start holds).mp (all 1)
      | succ n => exact (inductionHypothesis later (all 1)).mp (fun m => all (m + 1)) n e (by simpa using at_)
    · intro all n
      cases n with
      | zero => exact holds
      | succ n =>
        have next : kept (step start first) :=
          (exact_ start first sound_start holds).mpr (all 0 first rfl)
        exact (inductionHypothesis later next).mpr
          (fun m e at_ => all (m + 1) e (by simpa using at_)) n

end AiConfig.Lib
