import Mathlib.Tactic.Common

/-! # Programs over fallible storage

A program runs against a durable state and a list of *outcomes*: what the
storage layer does with the operations the program issues, in order.  A failing
operation aborts the program, and the effects of the operations before it stay.

* `Fallible ε σ α` — the programs, with `attempt`, `attemptWrite` and `caught`.
* `wp calm program post failed state` — the weakest precondition over every list
  of outcomes; under `calm` no operation fails.
* the rules `wp_pure`, `wp_bind`, `wp_throw`, `wp_attempt`, … by which a program
  is executed symbolically.
* `Keeps invariant program` — a property of the state that no run of the program loses.
* `Ends program session post failed` — the end of one run, with the outcomes it
  leaves, and `ends_attempt`, … which count the operations that passed.
-/

namespace AiConfig.Lib

/-- What the storage layer does with one operation.  A failing write may leave a
    prefix of its data behind. -/
inductive Outcome where
  | ok
  | fail (written : Nat) (reason : String)
  deriving DecidableEq, Repr

/-- The durable state, with the outcomes of the operations still to come.  An
    exhausted list stands for storage that no longer fails. -/
structure Session (σ : Type) where
  state : σ
  outcomes : List Outcome

def Calm (outcomes : List Outcome) : Prop := ∀ outcome ∈ outcomes, outcome = .ok

theorem calm_nil : Calm [] := fun _ member => by cases member

theorem Calm.tail {outcome : Outcome} {rest : List Outcome} (calm : Calm (outcome :: rest)) :
    Calm rest :=
  fun other member => calm other (List.mem_cons_of_mem _ member)

def Fallible (ε σ α : Type) : Type := Session σ → Except ε α × Session σ

namespace Fallible

variable {ε ε' σ α β : Type}

protected def pure (value : α) : Fallible ε σ α := fun session => (.ok value, session)

protected def bind (program : Fallible ε σ α) (next : α → Fallible ε σ β) : Fallible ε σ β :=
  fun session =>
    match program session with
    | (.ok value, session) => next value session
    | (.error failure, session) => (.error failure, session)

instance : Monad (Fallible ε σ) where
  pure := Fallible.pure
  bind := Fallible.bind

def throw (failure : ε) : Fallible ε σ α := fun session => (.error failure, session)

/-- The state as the program itself holds it; costs no storage operation. -/
def peek (read : σ → α) : Fallible ε σ α := fun session => (.ok (read session.state), session)

def poke (change : σ → σ) : Fallible ε σ Unit :=
  fun session => (.ok (), { session with state := change session.state })

/-- One storage operation: it either takes effect as a whole or fails as a whole. -/
def attempt (wrap : String → ε) (operation : σ → α × σ) : Fallible ε σ α := fun session =>
  match session.outcomes with
  | [] => (.ok (operation session.state).1, ⟨(operation session.state).2, []⟩)
  | .ok :: rest => (.ok (operation session.state).1, ⟨(operation session.state).2, rest⟩)
  | .fail _ reason :: rest => (.error (wrap reason), ⟨session.state, rest⟩)

/-- One write of a byte range: failing, it may have written some bytes already. -/
def attemptWrite (wrap : String → ε) (write : σ → σ) (torn : Nat → σ → σ) : Fallible ε σ Unit :=
  fun session =>
    match session.outcomes with
    | [] => (.ok (), ⟨write session.state, []⟩)
    | .ok :: rest => (.ok (), ⟨write session.state, rest⟩)
    | .fail written reason :: rest => (.error (wrap reason), ⟨torn written session.state, rest⟩)

/-- Run a program and hand its failure to the caller as a value. -/
def caught (program : Fallible ε σ α) : Fallible ε' σ (Except ε α) := fun session =>
  match program session with
  | (result, session) => (.ok result, session)

def wrapped (wrap : ε → ε') (program : Fallible ε σ α) : Fallible ε' σ α := fun session =>
  match program session with
  | (.ok value, session) => (.ok value, session)
  | (.error failure, session) => (.error (wrap failure), session)

/-! ## Weakest preconditions -/

/-- `program` started in `state` ends in `post`, or fails in `failed`, whatever the
    storage outcomes are; when `calm` holds they are all successes. -/
def wp (calm : Prop) (program : Fallible ε σ α) (post : α → σ → Prop) (failed : ε → σ → Prop)
    (state : σ) : Prop :=
  ∀ outcomes, (calm → Calm outcomes) →
    (match program ⟨state, outcomes⟩ with
      | (.ok value, session) => post value session.state
      | (.error failure, session) => failed failure session.state) ∧
    (calm → Calm (program ⟨state, outcomes⟩).2.outcomes)

variable {calm : Prop} {state : σ}

theorem wp_pure {value : α} {post : α → σ → Prop} {failed : ε → σ → Prop}
    (holds : post value state) : wp calm (pure value : Fallible ε σ α) post failed state :=
  fun _ quiet => ⟨holds, quiet⟩

theorem wp_throw {failure : ε} {post : α → σ → Prop} {failed : ε → σ → Prop}
    (holds : failed failure state) : wp calm (throw failure : Fallible ε σ α) post failed state :=
  fun _ quiet => ⟨holds, quiet⟩

theorem wp_peek {read : σ → α} {post : α → σ → Prop} {failed : ε → σ → Prop}
    (holds : post (read state) state) : wp calm (peek read : Fallible ε σ α) post failed state :=
  fun _ quiet => ⟨holds, quiet⟩

theorem wp_poke {change : σ → σ} {post : Unit → σ → Prop} {failed : ε → σ → Prop}
    (holds : post () (change state)) :
    wp calm (poke change : Fallible ε σ Unit) post failed state :=
  fun _ quiet => ⟨holds, quiet⟩

theorem wp_bind {program : Fallible ε σ α} {next : α → Fallible ε σ β}
    {post : β → σ → Prop} {failed : ε → σ → Prop}
    (first : wp calm program (fun value => wp calm (next value) post failed) failed state) :
    wp calm (program >>= next) post failed state := by
  intro outcomes quiet
  have stepped := first outcomes quiet
  change (match Fallible.bind program next ⟨state, outcomes⟩ with
    | (.ok value, session) => post value session.state
    | (.error failure, session) => failed failure session.state) ∧
    (calm → Calm (Fallible.bind program next ⟨state, outcomes⟩).2.outcomes)
  unfold Fallible.bind
  rcases ran : program ⟨state, outcomes⟩ with ⟨failure | value, session⟩
  · simpa [ran] using stepped
  · simp only [ran] at stepped
    exact stepped.1 session.outcomes stepped.2

theorem wp_mono {program : Fallible ε σ α} {post post' : α → σ → Prop}
    {failed failed' : ε → σ → Prop}
    (holds : wp calm program post failed state)
    (posts : ∀ value state, post value state → post' value state)
    (failures : ∀ failure state, failed failure state → failed' failure state) :
    wp calm program post' failed' state := by
  intro outcomes quiet
  obtain ⟨ended, rest⟩ := holds outcomes quiet
  refine ⟨?_, rest⟩
  rcases ran :
    program ⟨state, outcomes⟩ with ⟨failure | value, session⟩ <;> simp only [ran] at ended ⊢
  · exact failures _ _ ended
  · exact posts _ _ ended

theorem wp_attempt {wrap : String → ε} {operation : σ → α × σ}
    {post : α → σ → Prop} {failed : ε → σ → Prop}
    (succeeds : post (operation state).1 (operation state).2)
    (fails : ¬ calm → ∀ reason, failed (wrap reason) state) :
    wp calm (attempt wrap operation) post failed state := by
  intro outcomes quiet
  match outcomes with
  | [] => exact ⟨succeeds, fun _ => calm_nil⟩
  | .ok :: rest => exact ⟨succeeds, fun holds => (quiet holds).tail⟩
  | .fail written reason :: rest =>
    have disturbed : ¬ calm := fun holds => by
      have := quiet holds _ List.mem_cons_self
      cases this
    exact ⟨fails disturbed reason, fun holds => absurd holds disturbed⟩

theorem wp_attemptWrite {wrap : String → ε} {write : σ → σ} {torn : Nat → σ → σ}
    {post : Unit → σ → Prop} {failed : ε → σ → Prop}
    (succeeds : post () (write state))
    (fails : ¬ calm → ∀ written reason, failed (wrap reason) (torn written state)) :
    wp calm (attemptWrite wrap write torn) post failed state := by
  intro outcomes quiet
  match outcomes with
  | [] => exact ⟨succeeds, fun _ => calm_nil⟩
  | .ok :: rest => exact ⟨succeeds, fun holds => (quiet holds).tail⟩
  | .fail written reason :: rest =>
    have disturbed : ¬ calm := fun holds => by
      have := quiet holds _ List.mem_cons_self
      cases this
    exact ⟨fails disturbed written reason, fun holds => absurd holds disturbed⟩

theorem wp_caught {program : Fallible ε σ α} {post : Except ε α → σ → Prop} {failed : ε' → σ → Prop}
    (holds : wp calm program (fun value => post (.ok value)) (fun failure => post (.error failure))
      state) :
    wp calm (caught program) post failed state := by
  intro outcomes quiet
  obtain ⟨ended, rest⟩ := holds outcomes quiet
  unfold caught
  rcases ran : program ⟨state, outcomes⟩ with ⟨failure | value, session⟩ <;>
    simp only [ran] at ended rest ⊢ <;> exact ⟨ended, rest⟩

theorem wp_wrapped {program : Fallible ε σ α} {wrap : ε → ε'}
    {post : α → σ → Prop} {failed : ε' → σ → Prop}
    (holds : wp calm program post (fun failure => failed (wrap failure)) state) :
    wp calm (wrapped wrap program) post failed state := by
  intro outcomes quiet
  obtain ⟨ended, rest⟩ := holds outcomes quiet
  unfold wrapped
  rcases ran : program ⟨state, outcomes⟩ with ⟨failure | value, session⟩ <;>
    simp only [ran] at ended rest ⊢ <;> exact ⟨ended, rest⟩

/-! ## Invariants of a program -/

/-- Whatever fails, every state the program stops in has the property. -/
def Keeps (invariant : σ → Prop) (program : Fallible ε σ α) : Prop :=
  ∀ state, invariant state → wp False program (fun _ => invariant) (fun _ => invariant) state

section

variable {invariant : σ → Prop}

theorem keeps_pure (value : α) : Keeps invariant (pure value : Fallible ε σ α) :=
  fun _ holds => wp_pure holds

theorem keeps_throw (failure : ε) : Keeps invariant (throw failure : Fallible ε σ α) :=
  fun _ holds => wp_throw holds

theorem keeps_peek (read : σ → α) : Keeps invariant (peek read : Fallible ε σ α) :=
  fun _ holds => wp_peek holds

theorem keeps_poke {change : σ → σ} (kept : ∀ state, invariant state → invariant (change state)) :
    Keeps invariant (poke change : Fallible ε σ Unit) :=
  fun state holds => wp_poke (kept state holds)

theorem keeps_attempt {wrap : String → ε} {operation : σ → α × σ}
    (kept : ∀ state, invariant state → invariant (operation state).2) :
    Keeps invariant (attempt wrap operation) :=
  fun state holds => wp_attempt (kept state holds) fun _ _ => holds

theorem keeps_bind {program : Fallible ε σ α} {next : α → Fallible ε σ β}
    (first : Keeps invariant program) (rest : ∀ value, Keeps invariant (next value)) :
    Keeps invariant (program >>= next) :=
  fun state holds => wp_bind (wp_mono (first state holds) (fun value state => rest value state)
    fun _ _ kept => kept)

end

/-! ## Counting the operations

`wp` says that an operation may fail, not which one.  A session that stands at
`outcomes.drop n` has had `n` operations, all passed as long as `Passed outcomes n`. -/

/-- The first `n` operations succeed. -/
def Passed (outcomes : List Outcome) (n : Nat) : Prop := ∀ outcome ∈ outcomes.take n, outcome = .ok

instance (outcomes : List Outcome) (n : Nat) : Decidable (Passed outcomes n) :=
  inferInstanceAs (Decidable (∀ outcome ∈ outcomes.take n, outcome = .ok))

theorem passed_zero (outcomes : List Outcome) : Passed outcomes 0 :=
  fun _ member => by cases member

theorem Passed.mono {outcomes : List Outcome} {n m : Nat} (passed : Passed outcomes m)
    (less : n ≤ m) :
    Passed outcomes n :=
  fun outcome member => passed outcome ((List.take_prefix_take_left less).subset member)

/-- The program run in this session ends in `post`, or fails in `failed`. -/
def Ends (program : Fallible ε σ α) (session : Session σ) (post : α → Session σ → Prop)
    (failed : ε → σ → Prop) : Prop :=
  match program session with
  | (.ok value, session) => post value session
  | (.error failure, session) => failed failure session.state

section

variable {session : Session σ} {outcomes : List Outcome} {n : Nat}

theorem ends_pure {value : α} {post : α → Session σ → Prop} {failed : ε → σ → Prop}
    (holds : post value session) : Ends (pure value : Fallible ε σ α) session post failed := holds

theorem ends_peek {read : σ → α} {post : α → Session σ → Prop} {failed : ε → σ → Prop}
    (holds : post (read session.state) session) :
    Ends (peek read : Fallible ε σ α) session post failed := holds

theorem ends_poke {change : σ → σ} {post : Unit → Session σ → Prop} {failed : ε → σ → Prop}
    (holds : post () { session with state := change session.state }) :
    Ends (poke change : Fallible ε σ Unit) session post failed := holds

theorem ends_throw {failure : ε} {post : α → Session σ → Prop} {failed : ε → σ → Prop}
    (holds : failed failure session.state) :
    Ends (throw failure : Fallible ε σ α) session post failed := holds

theorem ends_bind {program : Fallible ε σ α} {next : α → Fallible ε σ β}
    {post : β → Session σ → Prop} {failed : ε → σ → Prop}
    (first : Ends program session (fun value session => Ends (next value) session post failed)
    failed) :
    Ends (program >>= next) session post failed := by
  change (match Fallible.bind program next session with
    | (.ok value, session) => post value session
    | (.error failure, session) => failed failure session.state)
  simp only [Ends] at first
  unfold Fallible.bind
  rcases ran : program session with ⟨failure | value, session⟩ <;> simpa [ran] using first

theorem Ends.imp {program : Fallible ε σ α} {post post' : α → Session σ → Prop}
    {failed failed' : ε → σ → Prop} (holds : Ends program session post failed)
    (posts : ∀ value session, post value session → post' value session)
    (failures : ∀ failure state, failed failure state → failed' failure state) :
    Ends program session post' failed' := by
  simp only [Ends] at holds ⊢
  rcases ran : program session with ⟨failure | value, session⟩ <;> simp only [ran] at holds ⊢
  · exact failures _ _ holds
  · exact posts _ _ holds

theorem Ends.and {program : Fallible ε σ α} {post post' : α → Session σ → Prop}
    {failed failed' : ε → σ → Prop} (first : Ends program session post failed)
    (second : Ends program session post' failed') :
    Ends program session (fun value session => post value session ∧ post' value session)
      (fun failure state => failed failure state ∧ failed' failure state) := by
  simp only [Ends] at first second ⊢
  rcases ran : program session with ⟨failure | value, session⟩ <;>
    simp only [ran] at first second ⊢ <;> exact ⟨first, second⟩

/-- What holds whatever the outcomes are holds of this run. -/
theorem ends_of_wp {program : Fallible ε σ α} {post : α → σ → Prop} {failed : ε → σ → Prop}
    (holds : wp False program post failed session.state) :
    Ends program session (fun value session => post value session.state) failed :=
  (holds session.outcomes fun impossible => impossible.elim).1

theorem ends_caught {program : Fallible ε σ α} {post : Except ε α → Session σ → Prop}
    {failed : ε' → σ → Prop}
    (holds : Ends program session (fun value => post (.ok value))
      fun failure state => ∀ outcomes, post (.error failure) ⟨state, outcomes⟩) :
    Ends (caught program) session post failed := by
  simp only [Ends] at holds ⊢
  unfold caught
  rcases ran : program session with ⟨failure | value, session⟩ <;> simp only [ran] at holds ⊢
  · exact holds session.outcomes
  · exact holds

theorem ends_wrapped {program : Fallible ε σ α} {wrap : ε → ε'} {post : α → Session σ → Prop}
    {failed : ε' → σ → Prop}
    (holds : Ends program session post fun failure => failed (wrap failure)) :
    Ends (wrapped wrap program) session post failed := by
  simp only [Ends] at holds ⊢
  unfold wrapped
  rcases ran : program session with ⟨failure | value, session⟩ <;> simp only [ran] at holds ⊢ <;>
    exact holds

/-- The next operation passes, or it is the first that does not. -/
theorem next_outcome (passed : Passed outcomes n) :
    (Passed outcomes (n + 1) ∧
      (outcomes.drop n = [] ∧ outcomes.drop (n + 1) = [] ∨
      outcomes.drop n = .ok :: outcomes.drop (n + 1))) ∨
    (¬ Passed outcomes (n + 1) ∧
      ∃ written reason, outcomes.drop n = .fail written reason :: outcomes.drop (n + 1)) := by
  rcases Nat.lt_or_ge n outcomes.length with inside | beyond
  · have split := List.drop_eq_getElem_cons inside
    have grown : outcomes.take (n + 1) = outcomes.take n ++ [outcomes[n]] :=
      List.take_succ_eq_append_getElem inside
    cases here : outcomes[n] with
    | ok =>
      refine Or.inl ⟨fun outcome member => ?_, Or.inr (here ▸ split)⟩
      rw [grown, here] at member
      rcases List.mem_append.mp member with earlier | last
      · exact passed outcome earlier
      · exact List.mem_singleton.mp last
    | fail written reason =>
      refine Or.inr ⟨fun all => ?_, written, reason, here ▸ split⟩
      rw [Passed, grown, here] at all
      cases all _ (List.mem_append_right _ (List.mem_singleton_self _))
  · have whole : outcomes.take (n + 1) = outcomes.take n := by
      rw [List.take_of_length_le beyond, List.take_of_length_le (by omega)]
    refine Or.inl ⟨fun outcome member => passed outcome (whole ▸ member), Or.inl ?_⟩
    exact ⟨List.drop_eq_nil_of_le beyond, List.drop_eq_nil_of_le (by omega)⟩

theorem ends_attempt {wrap : String → ε} {operation : σ → α × σ} {state : σ}
    {post : α → Session σ → Prop} {failed : ε → σ → Prop} (passed : Passed outcomes n)
    (succeeds : Passed outcomes (n + 1) →
      post (operation state).1 ⟨(operation state).2, outcomes.drop (n + 1)⟩)
    (fails : ¬ Passed outcomes (n + 1) → ∀ reason, failed (wrap reason) state) :
    Ends (attempt wrap operation) ⟨state, outcomes.drop n⟩ post failed := by
  unfold Ends attempt
  rcases next_outcome passed with ⟨more, ⟨stands, rest⟩ | stands⟩ |
    ⟨broken, written, reason, stands⟩
  · have done := succeeds more
    rw [rest] at done
    simpa only [stands] using done
  · simpa only [stands] using succeeds more
  · simpa only [stands] using fails broken reason

theorem ends_attemptWrite {wrap : String → ε} {write : σ → σ} {torn : Nat → σ → σ} {state : σ}
    {post : Unit → Session σ → Prop} {failed : ε → σ → Prop} (passed : Passed outcomes n)
    (succeeds : Passed outcomes (n + 1) → post () ⟨write state, outcomes.drop (n + 1)⟩)
    (fails : ¬ Passed outcomes (n + 1) →
    ∀ written reason, failed (wrap reason) (torn written state)) :
    Ends (attemptWrite wrap write torn) ⟨state, outcomes.drop n⟩ post failed := by
  unfold Ends attemptWrite
  rcases next_outcome passed with ⟨more, ⟨stands, rest⟩ | stands⟩ |
    ⟨broken, written, reason, stands⟩
  · have done := succeeds more
    rw [rest] at done
    simpa only [stands] using done
  · simpa only [stands] using succeeds more
  · simpa only [stands] using fails broken written reason

end

end Fallible

end AiConfig.Lib
