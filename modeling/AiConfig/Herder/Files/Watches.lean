import Mathlib.Data.List.Perm.Basic
import AiConfig.Lib.Transition

/-! # Watchers and a slow reader

Transcription of the loops of `transcriptwatch.go` and `filewatch.go` of `internal/servecmd`: what
the
file system reports is pending until its quiet window ends, and is then sent to the connection's
loop
without waiting for room.  What is taken of the outside is an event.

* `owed` — what has changed since the reader last received it.
* `kept_iff` — in which runs nothing owed is lost. -/

namespace AiConfig.Herder.Watches

open Lib (kept_run_iff forall_take_iff)

/-! ## Maps as lists -/

/-- `m[k] = true` for each key of a list. -/
def insertAll {α : Type} [DecidableEq α] (names into : List α) : List α :=
  names.foldl (fun into name => into.insert name) into

theorem mem_insertAll {α : Type} [DecidableEq α] (names into : List α) (name : α) :
    name ∈ insertAll names into ↔ name ∈ names ∨ name ∈ into := by
  unfold insertAll
  induction names generalizing into with
  | nil => simp
  | cons first names inductionHypothesis =>
    rw [List.foldl_cons, inductionHypothesis, List.mem_insert_iff, List.mem_cons]
    constructor
    · rintro (inside | rfl | old)
      · exact .inl (.inr inside)
      · exact .inl (.inl rfl)
      · exact .inr old
    · rintro ((rfl | inside) | old)
      · exact .inr (.inl rfl)
      · exact .inl inside
      · exact .inr (.inr old)

/-! ## The transcript watcher -/

/-- `pending` are the keys of the map, and `changes` is the batch that waits in the channel. -/
structure TranscriptWatch where
  byPath : String → List String
  pending : List String
  armed : Bool
  changes : Option (List String)
  stopped : Bool
  /-- The agents that had an event since the last received batch that names them. -/
  owed : List String

inductive TranscriptEvent where
  | update (byPath : String → List String)
  /-- An event's cleaned path. -/
  | event (path : String)
  | expire
  /-- The connection's loop takes what waits. -/
  | receive
  /-- The context ends, or the watcher fails and says so. -/
  | stop

namespace TranscriptWatch

def start : TranscriptWatch := ⟨fun _ => [], [], false, none, false, []⟩

def changed (path : String) (s : TranscriptWatch) : TranscriptWatch :=
  if (s.byPath path).isEmpty then s
  else { s with
    pending := insertAll (s.byPath path) s.pending
    armed := true
    owed := insertAll (s.byPath path) s.owed }

/-- The timer's case; a batch that finds no room is dropped. -/
def expire (s : TranscriptWatch) : TranscriptWatch :=
  if !s.armed then s
  else { s with
    armed := false
    pending := []
    changes := s.changes.or (some (s.pending.mergeSort fun a b => decide (a ≤ b))) }

def receive (s : TranscriptWatch) : TranscriptWatch :=
  match s.changes with
  | none => s
  | some names => { s with changes := none, owed := s.owed.filter fun agent => agent ∉ names }

def step (s : TranscriptWatch) (e : TranscriptEvent) : TranscriptWatch :=
  if s.stopped then s
  else match e with
    | .update byPath => { s with byPath := byPath }
    | .event path => s.changed path
    | .expire => s.expire
    | .receive => s.receive
    | .stop => { s with stopped := true }

def run (events : List TranscriptEvent) : TranscriptWatch := events.foldl step start

/-- Every agent that is owed is pending or waits in the channel. -/
def Kept (s : TranscriptWatch) : Prop :=
  s.stopped = false → ∀ agent ∈ s.owed, agent ∈ s.pending ∨ ∃ names, s.changes = some names ∧
    agent ∈ names

/-- When the timer fires, no batch waits, or the one that does names what is pending and owed. -/
def Room (s : TranscriptWatch) (e : TranscriptEvent) : Prop :=
  e = .expire → s.stopped = false → s.armed = true →
    ∀ names, s.changes = some names → ∀ agent ∈ s.pending, agent ∈ s.owed → agent ∈ names

theorem kept_expire {s : TranscriptWatch} (holds : s.Kept) (runs : s.stopped = false) :
    s.expire.Kept ↔ Room s .expire := by
  unfold expire
  cases armed : s.armed with
  | false => simp [Room, armed, holds]
  | true =>
    simp only [Bool.not_true, Bool.false_eq_true, if_false]
    cases waits : s.changes with
    | none =>
      refine iff_of_true (fun _ agent owed => .inr ⟨_, rfl, ?_⟩) (by simp [Room, waits])
      obtain pending | ⟨names, is, -⟩ := holds runs agent owed
      · exact List.mem_mergeSort.mpr pending
      · rw [waits] at is
        cases is
    | some names =>
      constructor
      · intro after _ _ _ names' is agent _ owed
        obtain pending | ⟨names'', is', inside⟩ := after runs agent owed
        · cases pending
        · rw [waits] at is
          obtain rfl := Option.some.inj is
          obtain rfl := Option.some.inj is'
          exact inside
      · intro room _ agent owed
        refine .inr ⟨names, rfl, ?_⟩
        obtain pending | ⟨names', is, inside⟩ := holds runs agent owed
        · exact room rfl runs armed names waits agent pending owed
        · rw [waits] at is
          obtain rfl := Option.some.inj is
          exact inside

theorem kept_changed {s : TranscriptWatch} (holds : s.Kept) (runs : s.stopped = false)
    (path : String) :
    (s.changed path).Kept := by
  unfold changed
  split
  · exact holds
  · intro _ agent owed
    obtain now | before := (mem_insertAll _ _ _).mp owed
    · exact .inl ((mem_insertAll _ _ _).mpr (.inl now))
    · exact (holds runs agent before).imp_left fun pending =>
        (mem_insertAll _ _ _).mpr (.inr pending)

theorem kept_receive {s : TranscriptWatch} (holds : s.Kept) (runs : s.stopped = false) :
    s.receive.Kept := by
  unfold receive
  cases waits : s.changes with
  | none => exact holds
  | some names =>
    intro _ agent owed
    obtain ⟨before, unnamed⟩ := List.mem_filter.mp owed
    obtain pending | ⟨names', is, inside⟩ := holds runs agent before
    · exact .inl pending
    · rw [waits] at is
      obtain rfl := Option.some.inj is
      simp [inside] at unnamed

theorem kept_step (s : TranscriptWatch) (e : TranscriptEvent) (holds : s.Kept) :
    (s.step e).Kept ↔ Room s e := by
  unfold step
  cases runs : s.stopped with
  | true => exact iff_of_true holds fun _ running => by simp [runs] at running
  | false =>
    cases e with
    | update byPath => exact iff_of_true (fun _ => holds runs) nofun
    | event path => exact iff_of_true (kept_changed holds runs path) nofun
    | expire => exact kept_expire holds runs
    | receive => exact iff_of_true (kept_receive holds runs) nofun
    | stop => exact iff_of_true (fun running => by cases running) nofun

theorem kept_iff (events : List TranscriptEvent) :
    (∀ n ≤ events.length, (run (events.take n)).Kept) ↔
    ∀ n e, events[n]? = some e → Room (run (events.take n)) e :=
  (forall_take_iff (fun before => (run before).Kept) events).trans <|
    kept_run_iff (fun _ => True) Kept Room (fun _ _ _ => trivial)
      (fun s e _ => kept_step s e) trivial
      (fun _ _ owed => by cases owed) events

end TranscriptWatch

/-! ## The file watcher -/

structure FileChangeFact where
  kind : String
  root : String
  path : String
deriving DecidableEq

/-- `file` is empty for a folder. -/
structure ResolvedFileWatch where
  fact : FileChangeFact
  directory : String
  file : String

def maxFileWatchTargets : Nat := 256

/-- `pending` has each fact once, with its deadline; `facts` is what waits in the channel. -/
structure FileWatch where
  pending : List (FileChangeFact × Int)
  armed : Bool
  facts : List FileChangeFact
  stopped : Bool
  /-- The facts that matched an event since they were last received. -/
  owed : List FileChangeFact

inductive FileEvent where
  /-- An event's cleaned path, and the time at which each fact that it matches is put. -/
  | event (path : String) (clock : FileChangeFact → Int)
  /-- The timer's value, and the order in which the map is ranged. -/
  | expire (now : Int) (order : List FileChangeFact)
  | receive
  | stop

namespace FileWatch

def start : FileWatch := ⟨[], false, [], false, []⟩

section

variable (dir : String → String) (byDirectory : String → List ResolvedFileWatch) (debounce : Int)

/-- The facts of the targets that an event matches; `dir` is `filepath.Dir`. -/
def matched (path : String) : List FileChangeFact :=
  let directory := dir path
  let candidates := byDirectory directory ++ if path ≠ directory then byDirectory path else []
  (candidates.filter fun target =>
    path = target.directory || if target.file ≠ "" then path = target.file else path ≠
      directory).map ResolvedFileWatch.fact

def keys (pending : List (FileChangeFact × Int)) : List FileChangeFact := pending.map Prod.fst

/-- `pending[fact] = deadline` -/
def put (deadline : FileChangeFact → Int) (pending : List (FileChangeFact × Int))
    (fact : FileChangeFact) :
    List (FileChangeFact × Int) :=
  (fact, deadline fact) :: pending.filter fun entry => entry.1 ≠ fact

def changed (path : String) (clock : FileChangeFact → Int) (s : FileWatch) : FileWatch :=
  let facts := matched dir byDirectory path
  let pending := facts.foldl (put fun fact => clock fact + debounce) s.pending
  { s with pending := pending, armed := !pending.isEmpty, owed := insertAll facts s.owed }

/-- The deadline of a fact is not after the time. -/
def due (now : Int) (pending : List (FileChangeFact × Int)) (fact : FileChangeFact) : Bool :=
  (pending.find? fun entry => entry.1 = fact).any fun entry => entry.2 ≤ now

/-- A fact that is due is sent, where there is room, and is pending no more. -/
def sweep (now : Int) (s : FileWatch) (fact : FileChangeFact) : FileWatch :=
  if due now s.pending fact then
    { s with
      facts := if s.facts.length < maxFileWatchTargets then s.facts ++ [fact] else s.facts
      pending := s.pending.filter fun entry => entry.1 ≠ fact }
  else s

/-- The timer's case; the order is one of the map's keys. -/
def expire (now : Int) (order : List FileChangeFact) (s : FileWatch) : FileWatch :=
  if !s.armed || !order.isPerm (keys s.pending) then s
  else
    let swept := order.foldl (sweep now) s
    { swept with armed := !swept.pending.isEmpty }

def receive (s : FileWatch) : FileWatch :=
  match s.facts with
  | [] => s
  | fact :: facts => { s with facts := facts, owed := s.owed.filter fun other => other ≠ fact }

def step (s : FileWatch) (e : FileEvent) : FileWatch :=
  if s.stopped then s
  else match e with
    | .event path clock => s.changed dir byDirectory debounce path clock
    | .expire now order => s.expire now order
    | .receive => s.receive
    | .stop => { s with stopped := true }

def run (events : List FileEvent) : FileWatch := events.foldl (step dir byDirectory debounce) start

end

/-- Every fact that is owed is pending or waits in the channel. -/
def Kept (s : FileWatch) : Prop := s.stopped = false → ∀ fact ∈ s.owed, fact ∈ keys s.pending ∨
    fact ∈ s.facts

/-- When the timer fires, what is due and owed waits already or is among the first that find room.
-/
def Room (s : FileWatch) (e : FileEvent) : Prop :=
  ∀ now order, e = .expire now order → s.stopped = false → s.armed = true →
    order.Perm (keys s.pending) →
    ∀ fact ∈ order.filter (due now s.pending), fact ∈ s.owed →
      fact ∈ s.facts ∨ fact ∈ (order.filter (due now s.pending)).take
        (maxFileWatchTargets - s.facts.length)

theorem due_other (now : Int) (pending : List (FileChangeFact × Int)) {fact other : FileChangeFact}
    (apart : other ≠ fact) :
    due now (pending.filter fun entry => entry.1 ≠ fact) other = due now pending other := by
  unfold due
  rw [List.find?_filter]
  congr 2
  funext entry
  by_cases same : entry.1 = other <;> simp [same, apart]

theorem sweep_due (now : Int) (s : FileWatch) {fact other : FileChangeFact} (apart : other ≠ fact) :
    due now (sweep now s fact).pending other = due now s.pending other := by
  unfold sweep
  split
  · exact due_other now s.pending apart
  · rfl

theorem sweep_facts (now : Int) (s : FileWatch) {order : List FileChangeFact}
    (distinct : order.Nodup) :
    (order.foldl (sweep now) s).facts =
      s.facts ++ (order.filter (due now s.pending)).take
        (maxFileWatchTargets - s.facts.length) := by
  induction order generalizing s with
  | nil => simp
  | cons fact order inductionHypothesis =>
    obtain ⟨new, distinct⟩ := List.nodup_cons.mp distinct
    have same :
        order.filter (due now (sweep now s fact).pending) = order.filter (due now s.pending) :=
      List.filter_congr fun other inside => sweep_due now s fun is => new (is ▸ inside)
    rw [List.foldl_cons, inductionHypothesis _ distinct, same]
    cases ready : due now s.pending fact with
    | false => simp [sweep, ready]
    | true =>
      by_cases room : s.facts.length < maxFileWatchTargets
      · obtain ⟨left, more⟩ : ∃ left, maxFileWatchTargets - s.facts.length = left + 1 :=
          ⟨maxFileWatchTargets - s.facts.length - 1, by omega⟩
        have less : maxFileWatchTargets - (s.facts ++ [fact]).length = left := by
          rw [List.length_append, List.length_singleton]
          omega
        simp only [sweep, ready, room, if_true, less, more, List.filter_cons_of_pos ready,
          List.take_succ_cons,
          List.append_assoc, List.singleton_append]
      · have full : maxFileWatchTargets - s.facts.length = 0 := by omega
        simp [sweep, ready, room, full]

theorem sweep_keys (now : Int) (s : FileWatch) (fact other : FileChangeFact) :
    other ∈ keys (sweep now s fact).pending ↔
      other ∈ keys s.pending ∧ ¬(other = fact ∧ due now s.pending fact = true) := by
  unfold sweep
  cases ready : due now s.pending fact with
  | false => simp
  | true =>
    simp only [if_true, keys, List.mem_map, List.mem_filter, decide_eq_true_eq]
    constructor
    · rintro ⟨entry, ⟨inside, apart⟩, rfl⟩
      exact ⟨⟨entry, inside, rfl⟩, fun same => apart same.1⟩
    · rintro ⟨⟨entry, inside, rfl⟩, apart⟩
      exact ⟨entry, ⟨inside, fun same => apart ⟨same, trivial⟩⟩, rfl⟩

theorem sweep_pending (now : Int) (s : FileWatch) {order : List FileChangeFact}
    (distinct : order.Nodup) (fact : FileChangeFact) :
    fact ∈ keys (order.foldl (sweep now) s).pending ↔
      fact ∈ keys s.pending ∧ ¬(fact ∈ order ∧ due now s.pending fact = true) := by
  induction order generalizing s with
  | nil => simp
  | cons first order inductionHypothesis =>
    obtain ⟨new, distinct⟩ := List.nodup_cons.mp distinct
    rw [List.foldl_cons, inductionHypothesis _ distinct, sweep_keys]
    by_cases same : fact = first
    · subst same
      simp [new]
    · simp [same, sweep_due now s same]

theorem sweep_owed (now : Int) (s : FileWatch) (order : List FileChangeFact) :
    (order.foldl (sweep now) s).owed = s.owed ∧
    (order.foldl (sweep now) s).stopped = s.stopped := by
  induction order generalizing s with
  | nil => exact ⟨rfl, rfl⟩
  | cons fact order inductionHypothesis =>
    obtain ⟨owed, stopped⟩ := inductionHypothesis (sweep now s fact)
    rw [List.foldl_cons, owed, stopped]
    unfold sweep
    split <;> exact ⟨rfl, rfl⟩

theorem kept_expire {s : FileWatch} (distinct : (keys s.pending).Nodup) (holds : s.Kept)
    (runs : s.stopped = false)
    (now : Int) (order : List FileChangeFact) : (s.expire now order).Kept ↔
    Room s (.expire now order) := by
  unfold expire
  by_cases fires : s.armed = true ∧ order.Perm (keys s.pending)
  · obtain ⟨armed, perm⟩ := fires
    have orderly : order.Nodup := perm.nodup_iff.mpr distinct
    have go : (!s.armed || !order.isPerm (keys s.pending)) = false := by
      simp [armed, List.isPerm_iff.mpr perm]
    rw [go]
    have swept (fact) : fact ∈ keys (order.foldl (sweep now) s).pending ∨
      fact ∈ (order.foldl (sweep now) s).facts ↔
        (fact ∈ keys s.pending ∧ due now s.pending fact = false) ∨ fact ∈ s.facts ∨
          fact ∈ (order.filter (due now s.pending)).take
              (maxFileWatchTargets - s.facts.length) := by
      rw [sweep_pending now s orderly, sweep_facts now s orderly, List.mem_append]
      have all : fact ∈ order ↔ fact ∈ keys s.pending := perm.mem_iff
      by_cases inside : fact ∈ keys s.pending <;> simp [all, inside]
    constructor
    · intro after now' order' is _ _ _ fact ready owed
      obtain ⟨rfl, rfl⟩ : now' = now ∧ order' = order := by
        cases is
        exact ⟨rfl, rfl⟩
      have kept := after ((sweep_owed _ s _).2.trans runs) fact ((sweep_owed _ s _).1.symm ▸ owed)
      obtain ⟨-, later⟩ | kept := (swept fact).mp kept
      · simp [(List.mem_filter.mp ready).2] at later
      · exact kept
    · intro room _ fact owed
      have owed : fact ∈ s.owed := (sweep_owed now s order).1 ▸ owed
      refine (swept fact).mpr ?_
      obtain pending | waits := holds runs fact owed
      · cases ready : due now s.pending fact with
        | false => exact .inl ⟨pending, rfl⟩
        | true =>
          exact .inr (room now order rfl runs armed perm fact
            (List.mem_filter.mpr ⟨perm.mem_iff.mpr pending, ready⟩) owed)
      · exact .inr (.inl waits)
  · have stays : (!s.armed || !order.isPerm (keys s.pending)) = true := by
      cases armed : s.armed with
      | false => rfl
      | true =>
        have other : order.isPerm (keys s.pending) = false := by
          rw [← Bool.not_eq_true, List.isPerm_iff]
          exact fun perm => fires ⟨armed, perm⟩
        simp [other]
    rw [stays]
    refine iff_of_true holds fun now' order' is _ armed perm => ?_
    cases is
    exact absurd ⟨armed, perm⟩ fires

section

variable (dir : String → String) (byDirectory : String → List ResolvedFileWatch) (debounce : Int)

theorem keys_put (deadline : FileChangeFact → Int) (pending : List (FileChangeFact × Int))
    (fact : FileChangeFact) :
    (∀ other, other ∈ keys (put deadline pending fact) ↔ other = fact ∨ other ∈ keys pending) ∧
      ((keys pending).Nodup → (keys (put deadline pending fact)).Nodup) := by
  constructor
  · intro other
    by_cases same : other = fact <;> simp [keys, put, same]
  · intro distinct
    refine List.nodup_cons.mpr ⟨by simp, distinct.sublist (List.filter_sublist.map Prod.fst)⟩

theorem keys_changed (deadline : FileChangeFact → Int) (facts : List FileChangeFact)
    (pending : List (FileChangeFact × Int)) :
    (∀ other, other ∈ keys (facts.foldl (put deadline) pending) ↔ other ∈ facts ∨
    other ∈ keys pending) ∧
      ((keys pending).Nodup → (keys (facts.foldl (put deadline) pending)).Nodup) := by
  induction facts generalizing pending with
  | nil => simp
  | cons fact facts inductionHypothesis =>
    obtain ⟨mem, nodup⟩ := inductionHypothesis (put deadline pending fact)
    obtain ⟨first, distinct⟩ := keys_put deadline pending fact
    refine ⟨fun other => ?_, fun start => nodup (distinct start)⟩
    rw [List.foldl_cons, mem, first, List.mem_cons]
    tauto

theorem sweep_sublist (now : Int) (s : FileWatch) (order : List FileChangeFact) :
    (order.foldl (sweep now) s).pending.Sublist s.pending := by
  induction order generalizing s with
  | nil => exact List.Sublist.refl _
  | cons fact order inductionHypothesis =>
    refine (inductionHypothesis (sweep now s fact)).trans ?_
    unfold sweep
    split
    · exact List.filter_sublist
    · exact List.Sublist.refl _

theorem distinct_step (s : FileWatch) (e : FileEvent) (distinct : (keys s.pending).Nodup) :
    (keys (s.step dir byDirectory debounce e).pending).Nodup := by
  unfold step
  split
  · exact distinct
  · cases e with
    | event path clock => exact (keys_changed _ _ _).2 distinct
    | stop => exact distinct
    | expire now order =>
      show (keys (s.expire now order).pending).Nodup
      unfold expire
      split
      · exact distinct
      · exact distinct.sublist ((sweep_sublist now s order).map Prod.fst)
    | receive =>
      show (keys s.receive.pending).Nodup
      unfold receive
      split <;> exact distinct

theorem kept_changed {s : FileWatch} (holds : s.Kept) (path : String) (clock : FileChangeFact → Int) :
    (s.changed dir byDirectory debounce path clock).Kept := by
  intro runs fact owed
  obtain matched | before := (mem_insertAll _ _ _).mp owed
  · exact .inl (((keys_changed _ _ _).1 fact).mpr (.inl matched))
  · exact (holds runs fact before).imp_left fun pending => ((keys_changed _ _ _).1 fact).mpr (.inr pending)

theorem kept_receive {s : FileWatch} (holds : s.Kept) : s.receive.Kept := by
  unfold receive
  cases waits : s.facts with
  | nil => exact holds
  | cons first rest =>
    intro runs fact owed
    obtain ⟨before, other⟩ := List.mem_filter.mp owed
    obtain pending | waiting := holds runs fact before
    · exact .inl pending
    · rw [waits] at waiting
      exact .inr ((List.mem_cons.mp waiting).resolve_left (of_decide_eq_true other))

theorem kept_step (s : FileWatch) (e : FileEvent) (distinct : (keys s.pending).Nodup) (holds : s.Kept) :
    (s.step dir byDirectory debounce e).Kept ↔ Room s e := by
  unfold step
  cases runs : s.stopped with
  | true => exact iff_of_true holds fun _ _ _ running => by simp [runs] at running
  | false =>
    cases e with
    | event path clock => exact iff_of_true (kept_changed dir byDirectory debounce holds path clock) nofun
    | expire now order => exact kept_expire distinct holds runs now order
    | receive => exact iff_of_true (kept_receive holds) nofun
    | stop => exact iff_of_true (fun running => by cases running) nofun

theorem kept_iff (events : List FileEvent) :
    (∀ n ≤ events.length, (run dir byDirectory debounce (events.take n)).Kept) ↔
      ∀ n e, events[n]? = some e → Room (run dir byDirectory debounce (events.take n)) e := by
  have distinct : (keys start.pending).Nodup := List.nodup_nil
  rw [forall_take_iff (fun before => (run dir byDirectory debounce before).Kept) events]
  exact kept_run_iff (fun s => (keys s.pending).Nodup) Kept Room
    (distinct_step dir byDirectory debounce)
    (kept_step dir byDirectory debounce) distinct (fun _ _ owed => by cases owed) events

end

end FileWatch

/-- Neither watcher loses a change in a run exactly where each timer finds room for what is owed. -/
theorem watchers_keep_iff (dir : String → String) (byDirectory : String → List ResolvedFileWatch)
    (debounce : Int) :
    (∀ events : List TranscriptEvent,
    (∀ n ≤ events.length, (TranscriptWatch.run (events.take n)).Kept) ↔
      ∀ n e, events[n]? = some e → TranscriptWatch.Room (TranscriptWatch.run (events.take n)) e) ∧
    ∀ events :
      List FileEvent, (∀ n ≤ events.length,
      (FileWatch.run dir byDirectory debounce (events.take n)).Kept) ↔
      ∀ n e, events[n]? = some e → FileWatch.Room
        (FileWatch.run dir byDirectory debounce (events.take n)) e :=
  ⟨TranscriptWatch.kept_iff, FileWatch.kept_iff dir byDirectory debounce⟩

/-- Two agents that change in two quiet windows, of which the reader takes no batch. -/
def slowReader : List TranscriptEvent :=
  [.update fun path => if path = "/a.jsonl" then ["a"] else if path = "/b.jsonl" then ["b"] else [],
    .event "/a.jsonl", .expire, .event "/b.jsonl", .expire]

theorem slow_reader_loses :
    ((TranscriptWatch.run slowReader).owed = ["b", "a"] ∧
    (TranscriptWatch.run slowReader).pending = [] ∧
      (TranscriptWatch.run slowReader).changes = some ["a"]) ∧
      ¬(TranscriptWatch.run slowReader).Kept := by
  have owed : (TranscriptWatch.run slowReader).owed = ["b", "a"] := by decide +kernel
  have pending : (TranscriptWatch.run slowReader).pending = [] := by decide +kernel
  have changes : (TranscriptWatch.run slowReader).changes = some ["a"] := by decide +kernel
  refine ⟨⟨owed, pending, changes⟩, fun kept => ?_⟩
  have lost := kept (by decide +kernel) "b" (by simp [owed])
  simp [pending, changes] at lost

end AiConfig.Herder.Watches
