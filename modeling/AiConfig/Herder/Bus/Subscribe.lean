import AiConfig.Lib.Follow

/-! # Subscriptions to the bus

Transcription of `subscribe` of `internal/hcomevents/events.go`, and of the loops of `serve.go` that
call it
again with the same cursor when it returns.  hcom is a parameter: what its queries answer of the
events that
the bus has of a type and a filter.  The bus may gain events before each query.

* `subscribed_once` — what is emitted is every event after the baseline, once and in order, up to
  the cursor. -/

namespace AiConfig.Herder.Bus

open AiConfig.Lib

/-- An event of a query, with what `eventID` makes of its id. -/
structure Event (π : Type) where
  id : Option Int
  payload : π
  deriving DecidableEq

def Event.key {π : Type} (e : Event π) : Int := e.id.getD 0

/-- What `hcom events --last limit` answers of some events: of all of them, or of those after an id.
-/
abbrev Hcom (π : Type) := List (Event π) → Nat → Option Int → List (Event π)

/-- The newest of the events that are asked for, in the order of the bus. -/
structure Hcom.Lawful {π : Type} (hcom : Hcom π) : Prop where
  last : ∀ events limit, hcom events limit none = events.rtake limit
  after : ∀ events limit id, hcom events limit (some id) =
    (AiConfig.Lib.after Event.key events id).rtake limit

/-! ## One call -/

/-- What differs from one subscription to another.  What decides whether `emit` fails is of type
`κ`. -/
structure Subscription (π α κ σ : Type) where
  initialLimit : Nat
  emitInitial : Bool
  project : Event π → Option α
  emit : κ → σ → α → σ × Bool

structure Cursor where
  id : Int
  initialized : Bool

/-- A subscriber, with what its emissions act on and the events that they took. -/
structure Subscriber (π σ : Type) where
  cursor : Cursor
  state : σ
  emitted : List (Event π)

/-- A process and its bus. -/
structure World (π σ : Type) where
  events : List (Event π)
  subscriber : Subscriber π σ

/-- What decides how a query and its emissions end, and what the bus gains before it. -/
structure Conditions (π κ : Type) where
  published : List (Event π)
  answered : Bool
  emits : Event π → κ
  healthy : Bool

/-- How `hcom events --wait` ends. -/
inductive Wait where
  | canceled
  | failed
  | timedOut
  | woken

/-- A call of `subscribe`: its baseline, if it makes one, and its rounds. -/
structure Call (π κ : Type) where
  baseline : Conditions π κ
  rounds : List (Wait × Conditions π κ)

/-- How many events a catch-up asks for. -/
def catchUpLimit : Nat := 10000

section

variable {π α κ σ : Type} (hcom : Hcom π) (subscription : Subscription π α κ σ)

def Subscriber.passed (s : Subscriber π σ) (id : Int) : Subscriber π σ :=
  { s with cursor := { s.cursor with id } }

def Subscriber.took (s : Subscriber π σ) (e : Event π) (id : Int) (state : σ) : Subscriber π σ :=
  { cursor := { s.cursor with id }, state, emitted := s.emitted ++ [e] }

/-- The loop over the events of the baseline; false where it returns an error. -/
def baselineLoop (emits : Event π → κ) : List (Event π) → Subscriber π σ → Subscriber π σ × Bool
  | [], s => (s, true)
  | e :: rest, s =>
    match e.id with
    | none => (s, false)
    | some id =>
      if id ≤ s.cursor.id then baselineLoop emits rest s
      -- What is there at the start is not published, only passed.
      else if !subscription.emitInitial then baselineLoop emits rest (s.passed id)
      else
        match subscription.project e with
        | none => (s, false)
        | some value =>
          match subscription.emit (emits e) s.state value with
          | (state, false) => ({ s with state }, false)
          | (state, true) => baselineLoop emits rest (s.took e id state)

/-- The loop over the events of a catch-up. -/
def catchUpLoop (emits : Event π → κ) : List (Event π) → Subscriber π σ → Subscriber π σ × Bool
  | [], s => (s, true)
  | e :: rest, s =>
    match subscription.project e with
    | none => (s, false)
    | some value =>
      match e.id with
      | none => (s, false)
      | some id =>
        -- The bus may answer with what was passed already.
        if id ≤ s.cursor.id then catchUpLoop emits rest s
        else
          match subscription.emit (emits e) s.state value with
          -- The cursor stays before what was not taken.
          | (state, false) => ({ s with state }, false)
          | (state, true) => catchUpLoop emits rest (s.took e id state)

def World.baseline (w : World π σ) (c : Conditions π κ) : World π σ × Bool :=
  let events := w.events ++ c.published
  if !c.answered then ({ w with events }, false)
  else
    match baselineLoop subscription c.emits (hcom events subscription.initialLimit none)
        w.subscriber with
    | (subscriber, false) => (⟨events, subscriber⟩, false)
    | (subscriber, true) =>
        (⟨events, { subscriber with cursor := { subscriber.cursor with initialized := true } }⟩,
        c.healthy)

def World.round (w : World π σ) (wait : Wait) (c : Conditions π κ) : World π σ × Bool :=
  let events := w.events ++ c.published
  match wait with
  | .canceled | .failed => ({ w with events }, false)
  | .timedOut => ({ w with events }, c.healthy)
  | .woken =>
    if !c.healthy || !c.answered then ({ w with events }, false)
    else
      match catchUpLoop subscription c.emits
          (hcom events catchUpLimit (some w.subscriber.cursor.id)) w.subscriber with
      | (subscriber, ok) => (⟨events, subscriber⟩, ok)

/-- The rounds until one returns. -/
def World.rounds : World π σ → List (Wait × Conditions π κ) → World π σ
  | w, [] => w
  | w, (wait, c) :: rest =>
    match w.round hcom subscription wait c with
    | (w, false) => w
    | (w, true) => World.rounds w rest

def World.subscribe (w : World π σ) (call : Call π κ) : World π σ :=
  if w.subscriber.cursor.initialized then w.rounds hcom subscription call.rounds
  else
    match w.baseline hcom subscription call.baseline with
    | (w, false) => w
    | (w, true) => w.rounds hcom subscription call.rounds

/-- Calls with one cursor, as the serve makes them. -/
def World.calls (w : World π σ) (calls : List (Call π κ)) : World π σ :=
  calls.foldl (World.subscribe hcom subscription) w

end

/-! ## What a loop takes -/

section

variable {π α κ σ : Type} {subscription : Subscription π α κ σ} {emits : Event π → κ}
  {events : List (Event π)} {s : Subscriber π σ}

/-- Events that have ids, which rise. -/
structure Numbered (events : List (Event π)) : Prop where
  ascending : Ascending Event.key events
  ids : ∀ e ∈ events, e.id = some e.key

theorem Numbered.tail {e : Event π} (numbered : Numbered (e :: events)) : Numbered events where
  ascending := (List.pairwise_cons.mp numbered.ascending).2
  ids := fun other inside => numbered.ids other (List.mem_cons_of_mem _ inside)

/-- How far a loop came: it took some first of the events, and all of them unless it failed. -/
structure Came (s s' : Subscriber π σ) (events : List (Event π)) (ok : Bool) : Prop where
  first : ∃ first rest, events = first ++ rest ∧ s'.emitted = s.emitted ++ first ∧
    s'.cursor.id = reached Event.key s.cursor.id first ∧
    (ok = true → rest = [])
  initialized : s'.cursor.initialized = s.cursor.initialized

theorem Came.stop {state : σ} : Came s { s with state } events false := by
  refine ⟨⟨[], events, rfl, ?_, rfl, ?_⟩, rfl⟩
  · simp
  · intro done
    cases done

theorem reached_cons {α : Type} {key : α → Int} {cursor : Int} (entry : α) (first : List α) :
    reached key cursor (entry :: first) = reached key (key entry) first := by
  cases first with
  | nil => rfl
  | cons _ _ =>
    rw [reached, reached, List.getLast?_cons_cons]
    simp [List.getLast?_cons]

theorem Came.cons {e : Event π} {state : σ} {s' : Subscriber π σ} {ok : Bool}
    (came : Came (s.took e e.key state) s' events ok) :
    Came s s' (e :: events) ok := by
  obtain ⟨⟨first, rest, rfl, emitted, at_, done⟩, initialized⟩ := came
  refine ⟨⟨e :: first, rest, rfl, ?_, ?_, done⟩, initialized⟩
  · rw [emitted, Subscriber.took, List.append_assoc]
    rfl
  · rw [at_, reached_cons]
    rfl

theorem catchUpLoop_came (numbered : Numbered events) (above : ∀ e ∈ events, s.cursor.id < e.key) :
    Came s (catchUpLoop subscription emits events s).1 events
      (catchUpLoop subscription emits events s).2 := by
  induction events generalizing s with
  | nil => exact ⟨⟨[], [], rfl, by simp [catchUpLoop], rfl, fun _ => rfl⟩, rfl⟩
  | cons e events inductionHypothesis =>
    unfold catchUpLoop
    split
    · exact .stop
    · rw [numbered.ids e List.mem_cons_self]
      have own := above e List.mem_cons_self
      dsimp only
      rw [if_neg (by omega)]
      split
      · exact .stop
      · next state _ =>
        refine Came.cons (inductionHypothesis numbered.tail ?_)
        exact fun other inside => (List.pairwise_cons.mp numbered.ascending).1 other inside

/-- Events that are behind the cursor are skipped. -/
theorem baselineLoop_after (numbered : Numbered events) :
    baselineLoop subscription emits events s =
      baselineLoop subscription emits (after Event.key events s.cursor.id) s := by
  induction events with
  | nil => rfl
  | cons e events inductionHypothesis =>
    have id := numbered.ids e List.mem_cons_self
    unfold after
    by_cases behind : e.key ≤ s.cursor.id
    · rw [List.filter_cons_of_neg (by simpa using behind), baselineLoop, id]
      dsimp only
      rw [if_pos behind]
      exact inductionHypothesis numbered.tail
    · have all : ∀ other ∈ events, s.cursor.id < other.key := fun other inside => by
        have := (List.pairwise_cons.mp numbered.ascending).1 other inside
        omega
      rw [List.filter_cons_of_pos (by simpa using behind),
        List.filter_eq_self.mpr (by simpa using all)]

theorem Numbered.after (numbered : Numbered events) (cursor : Int) :
    Numbered (after Event.key events cursor) where
  ascending := List.Pairwise.filter _ numbered.ascending
  ids := fun e inside => numbered.ids e (mem_after.mp inside).1

theorem Numbered.sublist {fewer : List (Event π)} (numbered : Numbered events)
    (less : fewer.Sublist events) : Numbered fewer where
  ascending := List.Pairwise.sublist less numbered.ascending
  ids := fun e inside => numbered.ids e (less.subset inside)

/-- A baseline that emits. -/
theorem baselineLoop_came (emits_ : subscription.emitInitial = true) (numbered : Numbered events) :
    Came s (baselineLoop subscription emits events s).1 (after Event.key events s.cursor.id)
      (baselineLoop subscription emits events s).2 := by
  rw [baselineLoop_after numbered]
  have above : ∀ e ∈ after Event.key events s.cursor.id, s.cursor.id < e.key :=
    fun e inside => (mem_after.mp inside).2
  have fresh := numbered.after s.cursor.id
  generalize after Event.key events s.cursor.id = window at *
  clear numbered
  induction window generalizing s with
  | nil => exact ⟨⟨[], [], rfl, by simp [baselineLoop], rfl, fun _ => rfl⟩, rfl⟩
  | cons e window inductionHypothesis =>
    unfold baselineLoop
    rw [fresh.ids e List.mem_cons_self]
    have own := above e List.mem_cons_self
    dsimp only
    rw [if_neg (by omega), if_neg (by simp [emits_])]
    split
    · exact .stop
    · split
      · exact .stop
      · next state _ =>
        refine Came.cons (inductionHypothesis ?_ fresh.tail)
        exact fun other inside => (List.pairwise_cons.mp fresh.ascending).1 other inside

/-- A baseline that does not emit goes to the newest event. -/
theorem baselineLoop_passes (silent : subscription.emitInitial = false)
    (numbered : Numbered events) :
    baselineLoop subscription emits events s =
      (s.passed (reached Event.key s.cursor.id (after Event.key events s.cursor.id)), true) := by
  rw [baselineLoop_after numbered]
  have above : ∀ e ∈ after Event.key events s.cursor.id, s.cursor.id < e.key :=
    fun e inside => (mem_after.mp inside).2
  have fresh := numbered.after s.cursor.id
  generalize after Event.key events s.cursor.id = window at *
  clear numbered
  induction window generalizing s with
  | nil => rfl
  | cons e window inductionHypothesis =>
    unfold baselineLoop
    rw [fresh.ids e List.mem_cons_self]
    have own := above e List.mem_cons_self
    dsimp only
    rw [if_neg (by omega), if_pos (by simp [silent]), inductionHypothesis _ fresh.tail,
      reached_cons]
    · rfl
    · exact fun other inside => (List.pairwise_cons.mp fresh.ascending).1 other inside

end

/-! ## What emissions keep -/

section

variable {π α κ σ : Type} {hcom : Hcom π} {subscription : Subscription π α κ σ}
  {kept : σ → List (Event π) → Prop}

/-- What each emission keeps of the state and the events that were emitted. -/
structure Subscription.Keeps (subscription : Subscription π α κ σ)
    (kept : σ → List (Event π) → Prop) : Prop where
  took : ∀ conditions state emitted e value, kept state emitted →
    subscription.project e = some value →
    (subscription.emit conditions state value).2 = true →
      kept (subscription.emit conditions state value).1 (emitted ++ [e])
  failed : ∀ conditions state emitted value, kept state emitted →
    (subscription.emit conditions state value).2 = false →
    kept (subscription.emit conditions state value).1 emitted

theorem Subscription.Keeps.catchUp (keeps : subscription.Keeps kept) (emits : Event π → κ)
    (events : List (Event π)) {s : Subscriber π σ}
    (start : kept s.state s.emitted) :
    kept (catchUpLoop subscription emits events s).1.state
      (catchUpLoop subscription emits events s).1.emitted := by
  induction events generalizing s with
  | nil => exact start
  | cons e rest inductionHypothesis =>
    unfold catchUpLoop
    split
    · exact start
    · next value own =>
      split
      · exact start
      · next id _ =>
        split
        · exact inductionHypothesis start
        · have took := keeps.took (emits e) s.state s.emitted e value start own
          have failed := keeps.failed (emits e) s.state s.emitted value start
          generalize subscription.emit (emits e) s.state value = ended at took failed ⊢
          obtain ⟨state, ok⟩ := ended
          cases ok with
          | false => exact failed rfl
          | true => exact inductionHypothesis (s := s.took e id state) (took rfl)

theorem Subscription.Keeps.baseline (keeps : subscription.Keeps kept) (emits : Event π → κ)
    (events : List (Event π)) {s : Subscriber π σ}
    (start : kept s.state s.emitted) :
    kept (baselineLoop subscription emits events s).1.state
      (baselineLoop subscription emits events s).1.emitted := by
  induction events generalizing s with
  | nil => exact start
  | cons e rest inductionHypothesis =>
    unfold baselineLoop
    split
    · exact start
    · next id _ =>
      split
      · exact inductionHypothesis start
      · split
        · exact inductionHypothesis (s := s.passed id) start
        · split
          · exact start
          · next value own =>
            have took := keeps.took (emits e) s.state s.emitted e value start own
            have failed := keeps.failed (emits e) s.state s.emitted value start
            generalize subscription.emit (emits e) s.state value = ended at took failed ⊢
            obtain ⟨state, ok⟩ := ended
            cases ok with
            | false => exact failed rfl
            | true => exact inductionHypothesis (s := s.took e id state) (took rfl)

theorem Subscription.Keeps.rounds (keeps : subscription.Keeps kept)
    (rounds : List (Wait × Conditions π κ)) {w : World π σ}
    (start : kept w.subscriber.state w.subscriber.emitted) :
    kept (w.rounds hcom subscription rounds).subscriber.state
      (w.rounds hcom subscription rounds).subscriber.emitted := by
  induction rounds generalizing w with
  | nil => exact start
  | cons first rest inductionHypothesis =>
    obtain ⟨wait, c⟩ := first
    have own : kept (w.round hcom subscription wait c).1.subscriber.state
        (w.round hcom subscription wait c).1.subscriber.emitted := by
      cases wait with
      | woken =>
        unfold World.round
        dsimp only
        split
        · exact start
        · exact keeps.catchUp _ _ start
      | _ => exact start
    unfold World.rounds
    split
    · next world ran =>
      rw [ran] at own
      exact own
    · next world ran =>
      rw [ran] at own
      exact inductionHypothesis own

theorem Subscription.Keeps.subscribe (keeps : subscription.Keeps kept) (call : Call π κ)
    {w : World π σ}
    (start : kept w.subscriber.state w.subscriber.emitted) :
    kept (w.subscribe hcom subscription call).subscriber.state
      (w.subscribe hcom subscription call).subscriber.emitted := by
  unfold World.subscribe
  split
  · exact keeps.rounds _ start
  · have own : kept (w.baseline hcom subscription call.baseline).1.subscriber.state
        (w.baseline hcom subscription call.baseline).1.subscriber.emitted := by
      unfold World.baseline
      dsimp only
      split
      · exact start
      · have ended :=
          keeps.baseline call.baseline.emits
          (hcom (w.events ++ call.baseline.published) subscription.initialLimit none) start
        generalize baselineLoop subscription call.baseline.emits _ w.subscriber = ran at ended ⊢
        obtain ⟨subscriber, ok⟩ := ran
        cases ok with
        | false => exact ended
        | true => exact ended
    split
    · next world ran =>
      rw [ran] at own
      exact own
    · next world ran =>
      rw [ran] at own
      exact keeps.rounds _ own

theorem Subscription.Keeps.calls (keeps : subscription.Keeps kept) (calls : List (Call π κ))
    {w : World π σ}
    (start : kept w.subscriber.state w.subscriber.emitted) :
    kept (w.calls hcom subscription calls).subscriber.state
      (w.calls hcom subscription calls).subscriber.emitted := by
  induction calls generalizing w with
  | nil => exact start
  | cons call rest inductionHypothesis => exact inductionHypothesis (keeps.subscribe call start)

end

/-! ## What a world keeps -/

section

variable {π α κ σ : Type} {hcom : Hcom π} {subscription : Subscription π α κ σ} {w w' : World π σ}

/-- What is emitted is on the bus, in order and not beyond the cursor, which is at an event or at
none. -/
structure Kept (w : World π σ) : Prop where
  numbered : Numbered w.events
  grounded : w.subscriber.cursor.id = 0 ∨ ∃ e ∈ w.events, e.key = w.subscriber.cursor.id
  ascending : Ascending Event.key w.subscriber.emitted
  there : ∀ e ∈ w.subscriber.emitted, e ∈ w.events
  behind : ∀ e ∈ w.subscriber.emitted, e.key ≤ w.subscriber.cursor.id

/-- The bus gains events. -/
theorem Kept.publish (kept : Kept w) {published : List (Event π)}
    (numbered : Numbered (w.events ++ published)) :
    Kept { w with events := w.events ++ published } where
  numbered := numbered
  grounded := by
    obtain none_ | ⟨e, own, same⟩ := kept.grounded
    · exact Or.inl none_
    · exact Or.inr ⟨e, List.mem_append_left _ own, same⟩
  ascending := kept.ascending
  there := fun e own => List.mem_append_left _ (kept.there e own)
  behind := kept.behind

theorem reached_mem {α : Type} (key : α → Int) (cursor : Int) (first : List α) :
    reached key cursor first = cursor ∨ ∃ entry ∈ first, key entry = reached key cursor first := by
  rcases List.eq_nil_or_concat' first with rfl | ⟨front, last, rfl⟩
  · exact Or.inl rfl
  · exact Or.inr ⟨last, by simp, (reached_append front last).symm⟩

theorem reached_of_forall {α : Type} {key : α → Int} {cursor : Int} {first : List α}
    (ascending : Ascending key first)
    (above : ∀ entry ∈ first, cursor < key entry) : cursor ≤ reached key cursor first ∧
    ∀ entry ∈ first, key entry ≤ reached key cursor first := by
  rcases List.eq_nil_or_concat' first with rfl | ⟨front, last, rfl⟩
  · exact ⟨le_rfl, fun _ inside => absurd inside List.not_mem_nil⟩
  · rw [reached_append]
    have own := above last (by simp)
    refine ⟨le_of_lt own, fun entry inside => ?_⟩
    rcases List.mem_append.mp inside with early | same
    · exact le_of_lt ((List.pairwise_append.mp ascending).2.2 entry early last (by simp))
    · rw [List.mem_singleton.mp same]

/-- What a loop takes of a window of the newest events keeps it. -/
theorem Kept.came (kept : Kept w) {window : List (Event π)}
    (within : window.Sublist (after Event.key w.events w.subscriber.cursor.id))
    {subscriber : Subscriber π σ} {ok : Bool} (came : Came w.subscriber subscriber window ok) :
    Kept { w with subscriber } := by
  obtain ⟨⟨first, rest, rfl, emitted, at_, -⟩, -⟩ := came
  have small : first.Sublist (after Event.key w.events w.subscriber.cursor.id) :=
    (List.sublist_append_left first rest).trans within
  have inside : ∀ e ∈ first, e ∈ w.events ∧ w.subscriber.cursor.id < e.key :=
    fun e own => mem_after.mp (small.subset own)
  have sorted : Ascending Event.key first :=
    (List.Pairwise.filter _ kept.numbered.ascending).sublist small
  obtain ⟨forward, all⟩ := reached_of_forall sorted fun e own => (inside e own).2
  refine ⟨kept.numbered, ?_, ?_, ?_, ?_⟩
  · show subscriber.cursor.id = 0 ∨ ∃ e ∈ w.events, e.key = subscriber.cursor.id
    rw [at_]
    obtain same | ⟨e, own, same⟩ := reached_mem Event.key w.subscriber.cursor.id first
    · rw [same]
      exact kept.grounded
    · exact Or.inr ⟨e, (inside e own).1, same⟩
  · show Ascending Event.key subscriber.emitted
    rw [emitted, Ascending, List.pairwise_append]
    refine ⟨kept.ascending, sorted, fun a early b late => ?_⟩
    have := kept.behind a early
    have := (inside b late).2
    omega
  · show ∀ e ∈ subscriber.emitted, e ∈ w.events
    rw [emitted]
    intro e own
    rcases List.mem_append.mp own with early | late
    · exact kept.there e early
    · exact (inside e late).1
  · show ∀ e ∈ subscriber.emitted, e.key ≤ subscriber.cursor.id
    rw [emitted, at_]
    intro e own
    rcases List.mem_append.mp own with early | late
    · exact (kept.behind e early).trans forward
    · exact all e late

theorem Kept.passed (kept : Kept w) {window : List (Event π)}
    (within : window.Sublist (after Event.key w.events w.subscriber.cursor.id)) :
    Kept
      { w with subscriber := w.subscriber.passed (reached Event.key w.subscriber.cursor.id
      window) } := by
  have inside : ∀ e ∈ window, e ∈ w.events ∧ w.subscriber.cursor.id < e.key :=
    fun e own => mem_after.mp (within.subset own)
  have sorted : Ascending Event.key window :=
    (List.Pairwise.filter _ kept.numbered.ascending).sublist within
  obtain ⟨forward, -⟩ := reached_of_forall sorted fun e own => (inside e own).2
  refine ⟨kept.numbered, ?_, kept.ascending, kept.there, fun e own =>
    (kept.behind e own).trans forward⟩
  obtain same | ⟨e, own, same⟩ := reached_mem Event.key w.subscriber.cursor.id window
  · show reached Event.key w.subscriber.cursor.id window = 0 ∨ _
    rw [same]
    exact kept.grounded
  · exact Or.inr ⟨e, (inside e own).1, same⟩

variable (subscription) in
/-- What a round does. -/
theorem round_cases (lawful : hcom.Lawful) (wait : Wait) {c : Conditions π κ}
    (numbered : Numbered (w.events ++ c.published)) :
    ∃ subscriber, (w.round hcom subscription wait c).1 = ⟨w.events ++ c.published, subscriber⟩ ∧
      (subscriber = w.subscriber ∧ (wait = .woken → (w.round hcom subscription wait c).2 = false) ∨
        (wait = .woken ∧ c.healthy = true ∧ c.answered = true) ∧
          Came w.subscriber subscriber
            ((after Event.key (w.events ++ c.published) w.subscriber.cursor.id).rtake catchUpLimit)
            (w.round hcom subscription wait c).2) := by
  cases wait with
  | canceled => exact ⟨w.subscriber, rfl, Or.inl ⟨rfl, fun woken => by cases woken⟩⟩
  | failed => exact ⟨w.subscriber, rfl, Or.inl ⟨rfl, fun woken => by cases woken⟩⟩
  | timedOut => exact ⟨w.subscriber, rfl, Or.inl ⟨rfl, fun woken => by cases woken⟩⟩
  | woken =>
    unfold World.round
    dsimp only
    split
    · exact ⟨w.subscriber, rfl, Or.inl ⟨rfl, fun _ => rfl⟩⟩
    · next queries =>
      have made : c.healthy = true ∧ c.answered = true := by simpa using queries
      rw [lawful.after]
      have window :=
        rtake_sublist (after Event.key (w.events ++ c.published) w.subscriber.cursor.id)
        catchUpLimit
      have came :=
        @catchUpLoop_came _ _ _ _ subscription c.emits _ w.subscriber
        ((numbered.after _).sublist window)
        fun e inside => (mem_after.mp (window.subset inside)).2
      generalize catchUpLoop subscription c.emits _ w.subscriber = ran at came ⊢
      obtain ⟨subscriber, ok⟩ := ran
      exact ⟨subscriber, rfl, Or.inr ⟨⟨rfl, made⟩, came⟩⟩

/-- A subscriber that is initialized. -/
def Subscriber.initialized (s : Subscriber π σ) : Subscriber π σ :=
  { s with cursor := { s.cursor with initialized := true } }

/-- What a baseline does. -/
theorem baseline_cases (lawful : hcom.Lawful) {c : Conditions π κ}
    (numbered : Numbered (w.events ++ c.published)) :
    ∃ subscriber, (w.baseline hcom subscription c).1 = ⟨w.events ++ c.published, subscriber⟩ ∧
      (subscriber = w.subscriber ∧ (w.baseline hcom subscription c).2 = false ∨
        ∃ came ok, (subscriber = came ∧ ok = false ∧ (w.baseline hcom subscription c).2 = false ∨
            subscriber = came.initialized ∧ ok = true ∧
              (w.baseline hcom subscription c).2 = c.healthy) ∧
          if subscription.emitInitial then
            Came w.subscriber came
              ((after Event.key (w.events ++ c.published) w.subscriber.cursor.id).rtake
              subscription.initialLimit) ok
          else came = w.subscriber.passed (reached Event.key w.subscriber.cursor.id
              ((after Event.key (w.events ++ c.published) w.subscriber.cursor.id).rtake
              subscription.initialLimit)) ∧ ok = true) := by
  unfold World.baseline
  dsimp only
  split
  · exact ⟨w.subscriber, rfl, Or.inl ⟨rfl, rfl⟩⟩
  · rw [lawful.last, ← numbered.ascending.after_rtake]
    have window : Numbered ((w.events ++ c.published).rtake subscription.initialLimit) :=
      numbered.sublist (rtake_sublist _ _)
    have ended :
      ∃ came ok, baselineLoop subscription c.emits
      ((w.events ++ c.published).rtake subscription.initialLimit) w.subscriber =
          (came, ok) ∧
        if subscription.emitInitial then
          Came w.subscriber came (after Event.key
            ((w.events ++ c.published).rtake subscription.initialLimit) w.subscriber.cursor.id) ok
        else came = w.subscriber.passed (reached Event.key w.subscriber.cursor.id
            (after Event.key ((w.events ++ c.published).rtake subscription.initialLimit)
                w.subscriber.cursor.id)) ∧ ok = true := by
      cases emits : subscription.emitInitial with
      | true =>
        refine ⟨_, _, rfl, ?_⟩
        rw [if_pos rfl]
        exact baselineLoop_came emits window
      | false =>
        refine ⟨_, _, baselineLoop_passes emits window, ?_⟩
        rw [if_neg Bool.false_ne_true]
        exact ⟨rfl, rfl⟩
    obtain ⟨came, ok, ran, how⟩ := ended
    rw [ran]
    cases ok with
    | false => exact ⟨came, rfl, Or.inr ⟨came, false, Or.inl ⟨rfl, rfl, rfl⟩, how⟩⟩
    | true => exact ⟨came.initialized, rfl, Or.inr ⟨came, true, Or.inr ⟨rfl, rfl, rfl⟩, how⟩⟩

theorem Kept.initialized (kept : Kept w) : Kept { w with subscriber := w.subscriber.initialized } :=
  ⟨kept.numbered, kept.grounded, kept.ascending, kept.there, kept.behind⟩

theorem Kept.round (kept : Kept w) (lawful : hcom.Lawful) (wait : Wait) {c : Conditions π κ}
    (numbered : Numbered (w.events ++ c.published)) :
    Kept (w.round hcom subscription wait c).1 := by
  obtain ⟨subscriber, world, how⟩ := round_cases subscription lawful wait numbered
  have grown := kept.publish numbered
  rw [world]
  obtain ⟨rfl, -⟩ | ⟨-, came⟩ := how
  · exact grown
  · exact grown.came (rtake_sublist _ _) came

theorem Kept.baseline (kept : Kept w) (lawful : hcom.Lawful) {c : Conditions π κ}
    (numbered : Numbered (w.events ++ c.published)) :
    Kept (w.baseline hcom subscription c).1 := by
  obtain ⟨subscriber, world, how⟩ := @baseline_cases π α κ σ hcom subscription w lawful c numbered
  have grown := kept.publish numbered
  rw [world]
  obtain ⟨rfl, -⟩ | ⟨came, ok, ended, how⟩ := how
  · exact grown
  · have own : Kept (⟨w.events ++ c.published, came⟩ : World π σ) := by
      split at how
      · exact grown.came (rtake_sublist _ _) how
      · rw [how.1]
        exact grown.passed (rtake_sublist _ _)
    obtain ⟨rfl, -, -⟩ | ⟨rfl, -, -⟩ := ended
    · exact own
    · exact own.initialized

/-! ## Runs -/

def publishedIn (rounds : List (Wait × Conditions π κ)) : List (Event π) :=
  rounds.flatMap fun round => round.2.published

def Call.published (call : Call π κ) : List (Event π) :=
  call.baseline.published ++ publishedIn call.rounds

def publishedBy (calls : List (Call π κ)) : List (Event π) := calls.flatMap Call.published

/-- A world after some of what may be published was. -/
structure Gained (w w' : World π σ) (published : List (Event π)) : Prop where
  events : ∃ gained, w'.events = w.events ++ gained ∧ gained.Sublist published

theorem Gained.refl (w : World π σ) (published : List (Event π)) : Gained w w published :=
  ⟨[], (List.append_nil _).symm, List.nil_sublist _⟩

theorem Gained.trans {w'' : World π σ} {first second : List (Event π)} (one : Gained w w' first)
    (two : Gained w' w'' second) :
    Gained w w'' (first ++ second) := by
  obtain ⟨gained, events, less⟩ := one
  obtain ⟨gained', events', less'⟩ := two
  exact ⟨gained ++ gained', by rw [events', events, List.append_assoc], less.append less'⟩

/-- What may still be published keeps its order. -/
theorem Gained.numbered {published later : List (Event π)} (gained : Gained w w' published)
    (numbered : Numbered (w.events ++ (published ++ later))) : Numbered (w'.events ++ later) := by
  obtain ⟨more, events, less⟩ := gained
  rw [events, List.append_assoc]
  exact numbered.sublist ((List.Sublist.refl _).append (less.append (List.Sublist.refl _)))

theorem Gained.forall {published later : List (Event π)} {p : Event π → Prop}
    (gained : Gained w w' published)
    (all : ∀ e ∈ w.events ++ (published ++ later), p e) : ∀ e ∈ w'.events ++ later, p e := by
  obtain ⟨more, events, less⟩ := gained
  rw [events, List.append_assoc]
  exact fun e own =>
    all e (((List.Sublist.refl _).append (less.append (List.Sublist.refl _))).subset own)

variable (subscription) in
theorem round_gained (lawful : hcom.Lawful) (wait : Wait) {c : Conditions π κ}
    (numbered : Numbered (w.events ++ c.published)) :
    Gained w (w.round hcom subscription wait c).1 c.published := by
  obtain ⟨subscriber, world, -⟩ := round_cases subscription lawful wait numbered
  rw [world]
  exact ⟨c.published, rfl, List.Sublist.refl _⟩

theorem Numbered.front {events later : List (Event π)} (numbered : Numbered (events ++ later)) :
    Numbered events :=
  numbered.sublist (List.sublist_append_left _ _)

variable (subscription) in
theorem rounds_kept (lawful : hcom.Lawful) (rounds : List (Wait × Conditions π κ)) (kept : Kept w)
    (numbered : Numbered (w.events ++ publishedIn rounds)) :
    Kept (w.rounds hcom subscription rounds) ∧
      Gained w (w.rounds hcom subscription rounds) (publishedIn rounds) := by
  induction rounds generalizing w with
  | nil => exact ⟨kept, .refl _ _⟩
  | cons first rest inductionHypothesis =>
    obtain ⟨wait, c⟩ := first
    have split : publishedIn ((wait, c) :: rest) = c.published ++ publishedIn rest := rfl
    rw [split] at numbered ⊢
    have front : Numbered (w.events ++ c.published) := by
      rw [← List.append_assoc] at numbered
      exact numbered.front
    have own := @Kept.round π α κ σ hcom subscription w kept lawful wait c front
    have gained := round_gained subscription lawful wait front
    unfold World.rounds
    split
    · next world ran =>
      rw [ran] at own gained
      exact ⟨own, by simpa using gained.trans (.refl _ (publishedIn rest))⟩
    · next world ran =>
      rw [ran] at own gained
      obtain ⟨kept', gained'⟩ := inductionHypothesis own (gained.numbered numbered)
      exact ⟨kept', gained.trans gained'⟩

variable (subscription) in
theorem subscribe_kept (lawful : hcom.Lawful) (call : Call π κ) (kept : Kept w)
    (numbered : Numbered (w.events ++ call.published)) :
    Kept (w.subscribe hcom subscription call) ∧
      Gained w (w.subscribe hcom subscription call) call.published := by
  unfold Call.published at numbered ⊢
  unfold World.subscribe
  split
  · have rounds : Numbered (w.events ++ publishedIn call.rounds) :=
      numbered.sublist ((List.Sublist.refl _).append (List.sublist_append_right _ _))
    obtain ⟨kept', events, same, less⟩ :=
      @rounds_kept π α κ σ hcom subscription w lawful call.rounds kept rounds
    exact ⟨kept', events, same, less.trans (List.sublist_append_right _ _)⟩
  · have front : Numbered (w.events ++ call.baseline.published) := by
      rw [← List.append_assoc] at numbered
      exact numbered.front
    have own := @Kept.baseline π α κ σ hcom subscription w kept lawful call.baseline front
    have gained :
        Gained w (w.baseline hcom subscription call.baseline).1 call.baseline.published := by
      obtain ⟨subscriber, world, -⟩ :=
        @baseline_cases π α κ σ hcom subscription w lawful call.baseline front
      rw [world]
      exact ⟨_, rfl, List.Sublist.refl _⟩
    split
    · next world ran =>
      rw [ran] at own gained
      exact ⟨own, by simpa using gained.trans (.refl _ (publishedIn call.rounds))⟩
    · next world ran =>
      rw [ran] at own gained
      obtain ⟨kept', gained'⟩ :=
        rounds_kept subscription lawful call.rounds own (gained.numbered numbered)
      exact ⟨kept', gained.trans gained'⟩

variable (subscription) in
theorem calls_kept (lawful : hcom.Lawful) (calls : List (Call π κ)) (kept : Kept w)
    (numbered : Numbered (w.events ++ publishedBy calls)) :
    Kept (w.calls hcom subscription calls) ∧
      Gained w (w.calls hcom subscription calls) (publishedBy calls) := by
  induction calls generalizing w with
  | nil => exact ⟨kept, .refl _ _⟩
  | cons call rest inductionHypothesis =>
    have split : publishedBy (call :: rest) = call.published ++ publishedBy rest := rfl
    rw [split] at numbered ⊢
    have front : Numbered (w.events ++ call.published) := by
      rw [← List.append_assoc] at numbered
      exact numbered.front
    obtain ⟨own, gained⟩ := subscribe_kept subscription lawful call kept front
    obtain ⟨kept', gained'⟩ := inductionHypothesis own (gained.numbered numbered)
    exact ⟨kept', gained.trans gained'⟩

theorem calls_append (first rest : List (Call π κ)) :
    w.calls hcom subscription (first ++ rest) =
      (w.calls hcom subscription first).calls hcom subscription rest :=
  List.foldl_append

/-! ## Nothing is lost -/

/-- A reader that took the whole of a window of the newest entries is at the end of the log. -/
theorem after_reached_rtake {α : Type} {key : α → Int} {log : List α}
    (ascending : Ascending key log) (cursor : Int) {limit : Nat}
    (some_ : 0 < limit) :
    after key log (reached key cursor ((after key log cursor).rtake limit)) = [] := by
  rcases List.eq_nil_or_concat' (after key log cursor) with none_ | ⟨front, entry, fresh⟩
  · have window : ([] : List α).rtake limit = [] := List.drop_nil
    rw [none_, window, reached_nil, none_]
  · have last : reached key cursor ((after key log cursor).rtake limit) = key entry := by
      have whole : (front ++ [entry]).rtake limit = front.rtake (limit - 1) ++ [entry] := by
        obtain ⟨less, rfl⟩ : ∃ less, limit = less + 1 := ⟨limit - 1, by omega⟩
        exact List.rtake_concat_succ front less entry
      rw [fresh, whole, reached_append]
    rw [last]
    have far :=
      (@Ascending.split _ _ _ _ ascending (front ++ [entry]) [] (by rw [fresh, List.append_nil])
      (by simp)).2
    rwa [reached_append] at far

variable (hcom subscription) in
/-- No query that the rounds make leaves out what is newer than the cursor. -/
def World.RoundsUncut : World π σ → List (Wait × Conditions π κ) → Prop
  | _, [] => True
  | w, (wait, c) :: rest =>
    (wait = .woken → c.healthy = true → c.answered = true →
        (after Event.key (w.events ++ c.published) w.subscriber.cursor.id).length ≤ catchUpLimit) ∧
      ((w.round hcom subscription wait c).2 = true →
        World.RoundsUncut (w.round hcom subscription wait c).1 rest)

variable (hcom subscription) in
def World.Uncut : World π σ → List (Call π κ) → Prop
  | _, [] => True
  | w, call :: rest => w.RoundsUncut hcom subscription call.rounds ∧
      World.Uncut (w.subscribe hcom subscription call) rest

/-- Since some moment, what is emitted is every event after the cursor of that moment. -/
structure Since (base : Int) (before : List (Event π)) (w : World π σ) : Prop where
  initialized : w.subscriber.cursor.initialized = true
  positive : 0 ≤ base
  emitted : ∃ since, Following Event.key w.events base w.subscriber.cursor.id since ∧
    w.subscriber.emitted = before ++ since

/-- Of what is emitted from now on. -/
theorem Kept.since (kept : Kept w) (initialized : w.subscriber.cursor.initialized = true)
    {later : List (Event π)}
    (numbered : Numbered (w.events ++ later)) (positive : ∀ e ∈ w.events ++ later, 0 < e.key) :
    Since w.subscriber.cursor.id w.subscriber.emitted w ∧ ∀ e ∈ later,
      w.subscriber.cursor.id < e.key := by
  have above : 0 ≤ w.subscriber.cursor.id ∧ ∀ e ∈ later, w.subscriber.cursor.id < e.key := by
    obtain none_ | ⟨other, there, same⟩ := kept.grounded
    · rw [none_]
      exact ⟨le_rfl, fun e own => positive e (List.mem_append_right _ own)⟩
    · rw [← same]
      exact ⟨le_of_lt (positive other (List.mem_append_left _ there)),
        (List.pairwise_append.mp numbered.ascending).2.2 other there⟩
  exact ⟨⟨initialized, above.1, [], .start kept.numbered.ascending _, (List.append_nil _).symm⟩,
    above.2⟩

theorem Since.came {base : Int} {before : List (Event π)} {subscriber : Subscriber π σ} {ok : Bool}
    (since : Since base before w)
    (came : Came w.subscriber subscriber (after Event.key w.events w.subscriber.cursor.id) ok) :
    Since base before { w with subscriber } := by
  obtain ⟨initialized, positive, taken, following, emitted⟩ := since
  obtain ⟨⟨first, rest, fresh, more, at_, -⟩, same⟩ := came
  refine ⟨same.trans initialized, positive, taken ++ first, ?_, ?_⟩
  · show Following Event.key w.events base subscriber.cursor.id (taken ++ first)
    rw [at_]
    exact following.take fresh
  · show subscriber.emitted = before ++ (taken ++ first)
    rw [more, emitted, List.append_assoc]

theorem Since.publish {base : Int} {before published : List (Event π)} (since : Since base before w)
    (numbered : Numbered (w.events ++ published)) (above : ∀ e ∈ published, base < e.key) :
    Since base before { w with events := w.events ++ published } := by
  obtain ⟨initialized, positive, taken, following, emitted⟩ := since
  exact ⟨initialized, positive, taken, following.publishAll numbered.ascending above, emitted⟩

theorem rounds_since (lawful : hcom.Lawful) {base : Int} {before : List (Event π)}
    (rounds : List (Wait × Conditions π κ))
    (since : Since base before w) (numbered : Numbered (w.events ++ publishedIn rounds))
    (above : ∀ e ∈ publishedIn rounds, base < e.key)
    (uncut : w.RoundsUncut hcom subscription rounds) :
    Since base before (w.rounds hcom subscription rounds) := by
  induction rounds generalizing w with
  | nil => exact since
  | cons first rest inductionHypothesis =>
    obtain ⟨wait, c⟩ := first
    have split : publishedIn ((wait, c) :: rest) = c.published ++ publishedIn rest := rfl
    rw [split] at numbered above
    have front : Numbered (w.events ++ c.published) := by
      rw [← List.append_assoc] at numbered
      exact numbered.front
    have grown := since.publish front fun e own => above e (List.mem_append_left _ own)
    have gained := round_gained subscription lawful wait front
    have own : Since base before (w.round hcom subscription wait c).1 := by
      obtain ⟨subscriber, world, how⟩ := round_cases subscription lawful wait front
      rw [world]
      obtain ⟨rfl, -⟩ | ⟨⟨woken, healthy, answered⟩, came⟩ := how
      · exact grown
      · rw [rtake_of_le (uncut.1 woken healthy answered)] at came
        exact grown.came came
    unfold World.rounds
    split
    · next world ran =>
      rw [ran] at own
      exact own
    · next world ran =>
      have further := uncut.2
      rw [ran] at own gained further
      exact inductionHypothesis own (gained.numbered numbered)
        (fun e inside => above e (List.mem_append_right _ inside)) (further rfl)

theorem calls_since (lawful : hcom.Lawful) {base : Int} {before : List (Event π)}
    (calls : List (Call π κ)) (since : Since base before w)
    (kept : Kept w) (numbered : Numbered (w.events ++ publishedBy calls))
    (above : ∀ e ∈ publishedBy calls, base < e.key)
    (uncut : w.Uncut hcom subscription calls) :
    Since base before (w.calls hcom subscription calls) := by
  induction calls generalizing w with
  | nil => exact since
  | cons call rest inductionHypothesis =>
    have split : publishedBy (call :: rest) = call.published ++ publishedBy rest := rfl
    rw [split] at numbered above
    have front : Numbered (w.events ++ call.published) := by
      rw [← List.append_assoc] at numbered
      exact numbered.front
    obtain ⟨own, gained⟩ := subscribe_kept subscription lawful call kept front
    have next : Since base before (w.subscribe hcom subscription call) := by
      have rounds : Numbered (w.events ++ publishedIn call.rounds) :=
        front.sublist ((List.Sublist.refl _).append (List.sublist_append_right _ _))
      unfold World.subscribe
      rw [if_pos since.initialized]
      exact rounds_since lawful call.rounds since rounds
        (fun e inside => above e (List.mem_append_left _ (List.mem_append_right _ inside))) uncut.1
    exact inductionHypothesis next own (gained.numbered numbered)
      (fun e inside => above e (List.mem_append_right _ inside)) uncut.2

variable (subscription) in
/-- Whatever fails, what is emitted rises along the bus and is not beyond the cursor; and from any
moment at
which the subscriber is initialized, while no query leaves out newer events, what is emitted is
every event
after that moment's cursor, up to the cursor.  A round that does not return leaves nothing newer. -/
theorem subscribed_once (lawful : hcom.Lawful) {state : σ} {events : List (Event π)}
    {first rest : List (Call π κ)}
    (numbered : Numbered (events ++ publishedBy (first ++ rest)))
    (positive : ∀ e ∈ events ++ publishedBy (first ++ rest), 0 < e.key) :
    let middle := World.calls hcom subscription ⟨events, ⟨⟨0, false⟩, state, []⟩⟩ first
    let last := World.calls hcom subscription ⟨events, ⟨⟨0, false⟩, state, []⟩⟩ (first ++ rest)
    Ascending Event.key last.subscriber.emitted ∧
      (∀ e ∈ last.subscriber.emitted, e ∈ last.events ∧ e.key ≤ last.subscriber.cursor.id) ∧
      (middle.subscriber.cursor.initialized = true → middle.Uncut hcom subscription rest →
        last.subscriber.emitted = middle.subscriber.emitted ++
          between Event.key last.events middle.subscriber.cursor.id last.subscriber.cursor.id) ∧
      ∀ c, Numbered (last.events ++ c.published) →
        (last.round hcom subscription .woken c).2 = true →
        after Event.key (last.events ++ c.published)
            (last.round hcom subscription .woken c).1.subscriber.cursor.id = [] := by
  intro middle last
  have start : Kept (⟨events, ⟨⟨0, false⟩, state, []⟩⟩ : World π σ) :=
    ⟨numbered.front, Or.inl rfl, List.Pairwise.nil, fun _ own => absurd own List.not_mem_nil,
      fun _ own => absurd own List.not_mem_nil⟩
  have split : publishedBy (first ++ rest) = publishedBy first ++ publishedBy rest :=
    List.flatMap_append
  have kept := (calls_kept subscription lawful (first ++ rest) start numbered).1
  rw [split] at numbered positive
  have front : Numbered (events ++ publishedBy first) := by
    rw [← List.append_assoc] at numbered
    exact numbered.front
  obtain ⟨kept', gained⟩ := calls_kept subscription lawful first start front
  have numbered' := gained.numbered numbered
  refine ⟨kept.ascending, fun e own => ⟨kept.there e own, kept.behind e own⟩,
    fun initialized uncut => ?_, fun c further done => ?_⟩
  · obtain ⟨since, above⟩ := kept'.since initialized numbered' (gained.forall positive)
    have final : last = middle.calls hcom subscription rest := calls_append first rest
    obtain ⟨-, -, taken, following, emitted⟩ :=
      calls_since lawful rest since kept' numbered' above uncut
    rw [← final] at following emitted
    rw [emitted, following.taken]
  · obtain ⟨subscriber, world, how⟩ := round_cases subscription lawful .woken further
    rw [world]
    obtain ⟨-, returned⟩ | ⟨-, came⟩ := how
    · rw [returned rfl] at done
      cases done
    · rw [done] at came
      obtain ⟨⟨taken, behind, window, -, at_, whole⟩, -⟩ := came
      rw [whole rfl, List.append_nil] at window
      show after Event.key (last.events ++ c.published) subscriber.cursor.id = []
      rw [at_, ← window]
      exact after_reached_rtake further.ascending _ (by decide)

end

/-! ### A run -/

/-- A bus that answers the newest events of a log. -/
def newest {π : Type} : Hcom π := fun events limit id =>
  match id with
  | none => events.rtake limit
  | some id => (after Event.key events id).rtake limit

/-- A subscription whose emissions fail where they are told to. -/
def collecting : Subscription String String Bool (List String) :=
  ⟨1, false, fun e => some e.payload, fun succeeds state text =>
  if succeeds then (state ++ [text], true) else (state, false)⟩

/-- Nothing goes wrong. -/
def fine {π κ : Type} (emits : κ) (published : List (Event π)) : Conditions π κ :=
  ⟨published, true, fun _ => emits, true⟩

theorem lawful_newest {π : Type} : (newest : Hcom π).Lawful := ⟨fun _ _ => rfl, fun _ _ _ => rfl⟩

/-- An emission fails, and is made again by the next call. -/
theorem subscribed_once_sample :
    (World.calls newest collecting ⟨[⟨some 1, "a"⟩], ⟨⟨0, false⟩, [], []⟩⟩
      ([⟨fine true [⟨some 2, "b"⟩],
      [(.woken,
      { fine true [⟨some 3, "c"⟩, ⟨some 5, "d"⟩] with emits := fun e => e.payload ≠ "d" })]⟩] ++
        [⟨fine true [], [(.woken, fine true [⟨some 8, "e"⟩])]⟩])).subscriber.emitted =
            [⟨some 3, "c"⟩] ++ [⟨some 5, "d"⟩, ⟨some 8, "e"⟩] :=
  (subscribed_once collecting lawful_newest ⟨by decide, by decide⟩ (by decide)).2.2.1 rfl
    ⟨⟨fun _ _ _ => by decide, fun _ => trivial⟩, trivial⟩

end AiConfig.Herder.Bus
