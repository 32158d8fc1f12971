import AiConfig.Herder.Native.Transcript
import Mathlib.Data.List.Nodup

/-! # A transcript's wakes

The reads of one open transcript as they are made and answered, over any sequence of wakes,
answers, timers and resets.

`wake_kept` says that no wake is lost: until a forward read fails, one that was started after the
wake has been answered or is in flight, or the one in flight is followed by one. -/

namespace AiConfig.Herder.NativeTranscript

variable {c : Condense}

/-! ## What an operation starts -/

/-- Which reads are in flight, and which are asked for once they are answered. -/
structure Flags where
  agent : String
  generation : Nat
  reading : Bool
  again : Bool
  detailReading : Bool

def Transcript.flags (t : Transcript c) : Flags :=
  ⟨t.agent, t.generation, t.reading, t.again, t.detailReading⟩

/-- A read of `op` is no longer in flight. -/
def Flags.answered (flags : Flags) : Op → Flags
  | .forward => { flags with reading := false }
  | .detail => { flags with detailReading := false }
  | .back => flags

/-- The reads among the effects. -/
def fetches (out : List Effect) : List Read :=
  out.filterMap fun
    | .fetch read => some read
    | .after .. => none

/-- How many reads of `op` are started. -/
def started (op : Op) (out : List Effect) : Nat := (fetches out).countP (·.what.op = op)

theorem fetches_append (first next : List Effect) :
    fetches (first ++ next) = fetches first ++ fetches next :=
  List.filterMap_append

theorem started_append (op : Op) (first next : List Effect) :
    started op (first ++ next) = started op first + started op next := by
  rw [started, fetches_append, List.countP_append]
  rfl

/-- What an operation does to a transcript whose flags are `f`: the reads it starts are the
transcript's own, the flags say which are in flight, and a wake behind a read stays queued. -/
structure Moves (f : Flags) (after : Transcript c × List Effect) : Prop where
  agent : after.1.agent = f.agent
  generation : after.1.generation = f.generation
  own : ∀ read ∈ fetches after.2, read.agent = f.agent ∧ read.generation = f.generation
  forward : started .forward after.2 + f.reading.toNat = after.1.reading.toNat
  detail : started .detail after.2 + f.detailReading.toNat = after.1.detailReading.toNat
  queued : f.reading = true → f.again = true → after.1.again = true

namespace Transcript

variable {t : Transcript c}

theorem moves_nothing {f : Flags} (same : t.flags = f) : Moves f (t, []) := by
  subst same
  exact ⟨rfl, rfl, fun read inside => absurd inside List.not_mem_nil, Nat.zero_add _,
    Nat.zero_add _, fun _ again => again⟩

theorem moves_andThen {f : Flags} {first : Transcript c × List Effect}
    {next : Transcript c → Transcript c × List Effect}
    (moves : Moves f first) (later : Moves first.1.flags (next first.1)) :
    Moves f (andThen first next) where
  agent := later.agent.trans moves.agent
  generation := later.generation.trans moves.generation
  own read inside := by
    simp only [andThen, fetches_append, List.mem_append] at inside
    cases inside with
    | inl inside => exact moves.own read inside
    | inr inside =>
      have own := later.own read inside
      exact ⟨own.1.trans moves.agent, own.2.trans moves.generation⟩
  forward := by
    have before := moves.forward
    have after := later.forward
    simp only [andThen, started_append, flags] at after ⊢
    omega
  detail := by
    have before := moves.detail
    have after := later.detail
    simp only [andThen, started_append, flags] at after ⊢
    omega
  queued reading again := by
    have still : first.1.reading = true := by
      have count := moves.forward
      rw [reading, Bool.toNat_true] at count
      cases flag : first.1.reading with
      | true => rfl
      | false =>
        rw [flag, Bool.toNat_false] at count
        omega
    exact later.queued still (moves.queued reading again)

theorem nextPage_op (t : Transcript c) : (What.page t.nextPage).op = .forward := by
  unfold nextPage
  split <;> rfl

theorem started_nextPage (t : Transcript c) (op : Op) :
    started op [t.read (.page t.nextPage)] = if op = .forward then 1 else 0 := by
  show List.countP _ [(⟨t.agent, t.generation, .page t.nextPage⟩ : Read)] = _
  rw [List.countP_singleton, nextPage_op]
  cases op <;> rfl

theorem moves_forward (t : Transcript c) : Moves t.flags t.forward := by
  unfold forward
  split
  · exact ⟨rfl, rfl, fun read inside => absurd inside List.not_mem_nil, Nat.zero_add _,
      Nat.zero_add _, fun _ _ => rfl⟩
  · next idle =>
    have none : t.reading = false := by simpa using idle
    constructor
    · rfl
    · rfl
    · intro read inside
      obtain rfl := List.mem_singleton.mp inside
      exact ⟨rfl, rfl⟩
    · show started .forward [t.read (.page t.nextPage)] + t.reading.toNat = 1
      rw [started_nextPage, none]
      rfl
    · show started .detail [t.read (.page t.nextPage)] + t.detailReading.toNat =
        t.detailReading.toNat
      rw [started_nextPage]
      exact Nat.zero_add _
    · intro reading
      exact absurd reading idle

theorem moves_older (t : Transcript c) : Moves t.flags t.older := by
  unfold older
  split
  · split
    · constructor
      · rfl
      · rfl
      · intro read inside
        obtain rfl := List.mem_singleton.mp inside
        exact ⟨rfl, rfl⟩
      · exact Nat.zero_add _
      · exact Nat.zero_add _
      · exact fun _ again => again
    · exact moves_nothing rfl
  · exact moves_nothing rfl

theorem moves_refresh (t : Transcript c) : Moves t.flags t.refresh := by
  unfold refresh
  split
  · exact moves_nothing rfl
  · next idle =>
    have none : t.detailReading = false := by simpa using idle
    constructor
    · rfl
    · rfl
    · intro read inside
      obtain rfl := List.mem_singleton.mp inside
      exact ⟨rfl, rfl⟩
    · exact Nat.zero_add _
    · show started .detail _ + t.detailReading.toNat = _
      rw [none]
      rfl
    · exact fun _ again => again

/-- Asked to read forward, a transcript reads, and remembers that it was asked while it did. -/
theorem asked (t : Transcript c) :
    (andThen t.forward refresh).1.reading = true ∧
    (t.reading = true → (andThen t.forward refresh).1.again = true) := by
  have keeps : ∀ t : Transcript c, t.refresh.1.reading = t.reading ∧
      t.refresh.1.again = t.again := by
    intro t
    unfold refresh
    split <;> exact ⟨rfl, rfl⟩
  simp only [andThen, keeps]
  unfold forward
  split
  · next reading => exact ⟨reading, fun _ => rfl⟩
  · next idle => exact ⟨rfl, fun reading => absurd reading idle⟩

/-! ## What leaves the flags alone -/

theorem flags_succeeded (t : Transcript c) (op : Op) : (t.succeeded op).flags = t.flags := by
  unfold succeeded
  cases op <;> dsimp only <;> split <;> rfl

theorem flags_takeIn (t : Transcript c) (entry : Entry c.Payload) :
    (t.takeIn entry).flags = t.flags := by
  unfold takeIn ingest
  dsimp only
  split
  · rfl
  · split <;> rfl
  · rfl

theorem flags_entries (t : Transcript c) (entries : List (Entry c.Payload)) :
    (entries.foldl takeIn t).flags = t.flags := by
  induction entries generalizing t with
  | nil => rfl
  | cons entry entries inductionHypothesis =>
      exact (inductionHypothesis (t.takeIn entry)).trans (flags_takeIn t entry)

theorem flags_setBackoff (t : Transcript c) (op : Op) (backoff : Backoff) :
    (t.setBackoff op backoff).flags = t.flags := by
  cases op <;> rfl

theorem flags_landed (t : Transcript c) (page : Page) (e : Entries c) :
    (t.landed page e).flags = t.flags := by
  unfold landed
  dsimp only
  rw [flags_entries, flags_succeeded]
  cases page <;> rfl

/-! ## Answers and timers -/

theorem started_older (t : Transcript c) : started .forward t.older.2 = 0 := by
  unfold older
  split
  · split <;> rfl
  · rfl

theorem moves_readBack (t : Transcript c) (page : Page) : Moves t.flags (t.readBack page) := by
  unfold readBack
  split
  · exact moves_older t
  · exact moves_nothing rfl

theorem started_readBack (t : Transcript c) (page : Page) :
    started .forward (t.readBack page).2 = 0 := by
  unfold readBack
  split
  · exact started_older t
  · rfl

/-- With the forward read answered, more is read, or nothing is. -/
theorem moves_readOn {t : Transcript c} {page : Page} (forward : page.isBefore = false)
    (full : Bool) :
    Moves (t.flags.answered .forward) (t.readOn page full) ∧
      (t.again = true → (t.readOn page full).1.reading = true) := by
  unfold readOn
  rw [if_neg (by simp [forward])]
  split
  · exact ⟨⟨rfl, rfl, (moves_forward { t with reading := false, again := false }).own,
      (moves_forward { t with reading := false, again := false }).forward,
      (moves_forward { t with reading := false, again := false }).detail, nofun⟩, fun _ => rfl⟩
  · next nothing => 
    constructor
    · exact ⟨rfl, rfl, fun read inside => absurd inside List.not_mem_nil, Nat.zero_add _,
        Nat.zero_add _, nofun⟩
    · intro again
      exact absurd (.inl again) nothing

theorem moves_page_before (t : Transcript c) {page : Page} (before : page.isBefore = true)
    (e : Entries c) :
    Moves t.flags (t.page page e) := by
  unfold Transcript.page
  have back := moves_readBack (t.landed page e) page
  rw [flags_landed] at back
  refine moves_andThen back ?_
  rw [readOn, if_pos before]
  exact moves_nothing rfl

/-- A page that answers the forward read leaves it answered, and one follows if a wake came
meanwhile. -/
theorem moves_page_forward (t : Transcript c) {page : Page} (forward : page.isBefore = false)
    (e : Entries c) :
    Moves (t.flags.answered .forward) (t.page page e) ∧
      (t.again = true → (t.page page e).1.reading = true) := by
  unfold Transcript.page
  have back := moves_readBack (t.landed page e) page
  have none := started_readBack (t.landed page e) page
  rw [flags_landed] at back
  obtain ⟨on_, wake⟩ :=
    @moves_readOn c ((t.landed page e).readBack page).1 page forward (PAGE ≤ e.entries.length)
  constructor
  · constructor
    · exact on_.agent.trans back.agent
    · exact on_.generation.trans back.generation
    · intro read inside
      simp only [andThen, fetches_append, List.mem_append] at inside
      cases inside with
      | inl inside => exact back.own read inside
      | inr inside =>
        have own := on_.own read inside
        exact ⟨own.1.trans back.agent, own.2.trans back.generation⟩
    · have count := on_.forward
      simp only [andThen, started_append, none, Nat.zero_add]
      exact count
    · have before := back.detail
      have after := on_.detail
      simp only [andThen, started_append, Flags.answered, flags] at after before ⊢
      omega
    · exact nofun
  · intro again
    have kept : ((t.landed page e).readBack page).1.again = true := by
      have same : (t.landed page e).again = t.again := congrArg Flags.again (flags_landed t page e)
      unfold readBack
      split
      · unfold older
        split
        · split <;> exact same.trans again
        · exact same.trans again
      · exact same.trans again
    exact wake kept

theorem moves_failed (t : Transcript c) (op : Op) (error : Option String) :
    Moves (t.flags.answered op) (t.failed op error) := by
  unfold failed
  dsimp only
  split
  · cases op with
    | forward => exact ⟨rfl, rfl, fun read inside => absurd inside List.not_mem_nil, Nat.zero_add _,
        Nat.zero_add _, nofun⟩
    | back => exact ⟨rfl, rfl, fun read inside => absurd inside List.not_mem_nil, Nat.zero_add _,
        Nat.zero_add _, fun _ again => again⟩
    | detail => exact ⟨rfl, rfl, fun read inside => absurd inside List.not_mem_nil, Nat.zero_add _,
        Nat.zero_add _, fun _ again => again⟩
  · cases op with
    | forward => exact ⟨rfl, rfl, fun read inside => absurd inside List.not_mem_nil, Nat.zero_add _,
        Nat.zero_add _, nofun⟩
    | back => exact moves_nothing rfl
    | detail => exact moves_nothing rfl

theorem moves_answer (t : Transcript c) (what : What) (result : Except String (Got c)) :
    Moves (t.flags.answered what.op) (t.answer what result) := by
  cases what with
  | detail =>
    cases result with
    | error e => exact moves_failed t .detail (some e)
    | ok got =>
      cases got with
      | page e => exact moves_failed t .detail none
      | detail d =>
        have same : ({ t with detail := some d, detailReading := false }.succeeded .detail).flags =
            t.flags.answered .detail :=
          flags_succeeded _ _
        show Moves (t.flags.answered .detail) (if _ then _ else _)
        split
        · next again =>
          rw [← same]
          exact moves_refresh
            { ({ t with detail := some d, detailReading := false }.succeeded
            .detail) with detailAgain := false }
        · exact moves_nothing same
  | page page =>
    cases result with
    | error e => exact moves_failed t _ (some e)
    | ok got =>
      cases got with
      | detail d => exact moves_failed t _ none
      | page e =>
        cases page with
        | before offset session limit => exact moves_page_before t rfl e
        | tail limit => exact (moves_page_forward t rfl e).1
        | «from» offset session limit => exact (moves_page_forward t rfl e).1

/-- A wake queued behind a read stays queued when its flag is taken and it is asked for again. -/
theorem moves_forward_again (t : Transcript c) :
    Moves t.flags { t with again := false }.forward := by
  have moves := moves_forward { t with again := false }
  constructor
  · exact moves.agent
  · exact moves.generation
  · exact moves.own
  · exact moves.forward
  · exact moves.detail
  · intro reading _
    have queued : ({ t with again := false } : Transcript c).forward =
      ({ t with again := true }, []) := if_pos reading
    rw [queued]

theorem moves_retry (t : Transcript c) (timer : Timer) : Moves t.flags (t.retry timer) := by
  unfold retry
  split
  · exact moves_nothing rfl
  · next b waiting =>
    have same := flags_setBackoff t timer.op { b with timer := none }
    dsimp only
    split
    · split
      · rw [← same]
        exact moves_forward_again _
      · exact moves_nothing same
    · split
      · rw [← same]
        exact moves_refresh
          { t.setBackoff timer.op { b with timer := none } with detailAgain := false }
      · exact moves_nothing same
    · exact moves_nothing same

end Transcript

/-! ## One open agent -/

structure World (c : Condense) where
  t : Transcript c
  /-- The counter behind every agent's generations. -/
  generations : Nat
  /-- The reads made and not answered yet, numbered in the order they were made. -/
  inFlight : List (Read × Nat)
  made : Nat
  /-- The forward reads of the window of their time that a page answered. -/
  answered : List Nat

namespace World

def emit (w : World c) (after : Transcript c × List Effect) : World c :=
  { w with
    t := after.1
    inFlight := w.inFlight ++ (fetches after.2).zipIdx w.made
    made := w.made + (fetches after.2).length }

/-- A fresh window under the next generation. -/
def restart (w : World c) : World c :=
  { w with generations := w.generations + 1 }.emit (w.t.reset (w.generations + 1))

/-- The reads in flight of the current window. -/
def pending (w : World c) (op : Op) : List (Read × Nat) :=
  w.inFlight.filter fun hit => hit.1.agent = w.t.agent ∧ hit.1.generation = w.t.generation ∧
    hit.1.what.op = op

end World

inductive Event (c : Condense) where
  /-- An entry wake for the agent, or a new `hello`. -/
  | wake (hello : Bool)
  /-- A message addressed to the agent. -/
  | message
  | rewindow
  | answer (number : Nat) (result : Except String (Got c))
  | retry (timer : Timer)
  | older
  | dismiss
  | tail (generation : Nat) (tail : Bool)
  /-- The agent's panel is shown again. -/
  | shown
  /-- Another agent's window begins. -/
  | other

/-- A page answered the read. -/
def World.note (w : World c) (number : Nat) (read : Read) : World c :=
  { w with answered := if read.what.op = .forward then number :: w.answered else w.answered }

/-- `Step::Read` of a read of the agent. -/
def answerRead (w : World c) (number : Nat) (read : Read) (result : Except String (Got c)) :
    World c :=
  if read.agent = w.t.agent ∧ read.generation = w.t.generation then
    match result with
    | .ok (.page e) =>
      -- What is known of a file that was cut is dropped, and it is opened afresh.
      if e.reset then w.restart
      else (w.note number read).emit (w.t.answer read.what (.ok (.page e)))
    | result => w.emit (w.t.answer read.what result)
  else w

def step (w : World c) : Event c → World c
  | .wake hello =>
    let t :=
      if hello then { w.t with notice := none, forwardRetry := ⟨0, none⟩, detailRetry := ⟨0,
      none⟩ } else w.t
    w.emit (Transcript.andThen t.forward Transcript.refresh)
  | .message => w.emit w.t.refresh
  | .rewindow => w.restart
  | .answer number result =>
    match w.inFlight.find? fun hit => hit.2 = number with
    | none => w
    | some (read, _) => answerRead
        { w with inFlight := w.inFlight.filter fun hit => hit.2 ≠ number } number read result
  | .retry timer => if timer.generation = w.t.generation then w.emit (w.t.retry timer) else w
  | .older => w.emit w.t.older
  | .dismiss => { w with t := { w.t with notice := none } }
  | .tail generation tail =>
    if generation = w.t.generation then { w with t := { w.t with tail := tail } } else w
  -- One whose tail never arrived (and is not being read) opens afresh.
  | .shown => if ¬ w.t.loaded ∧ ¬ w.t.reading then
      { w with t := .fresh w.t.agent 0 none }.restart else w
  | .other => { w with generations := w.generations + 1 }

/-- The agent's window begins; reads of earlier windows may still be in flight. -/
def World.begin (agent : String) (generations : Nat) (stale : List Read) : World c :=
  ({ t := .fresh agent 0 none, generations := generations, inFlight := stale.zipIdx, made := stale.length, answered := [] } : World c).restart

inductive Reachable : World c → Prop where
  | begin (agent : String) (generations : Nat) (stale : List Read)
      (older : ∀ read ∈ stale, read.generation ≤ generations) :
      Reachable (.begin agent generations stale)
  | step {w : World c} (reached : Reachable w) (event : Event c) : Reachable (step w event)

/-- A forward read of the current window is answered with anything but a page. -/
def Fails (w : World c) (event : Event c) : Prop :=
  ∃ hit ∈ w.pending .forward, ∃ result, event = .answer hit.2 result ∧ ∀ e, result ≠ .ok (.page e)

/-- Events in which no forward read fails. -/
inductive Quiet : World c → World c → Prop where
  | refl (w : World c) : Quiet w w
  | step {w w' : World c} (quiet : Quiet w w') (event : Event c) (reads : ¬ Fails w' event) :
      Quiet w (step w' event)

/-- Of the reads numbered from `first` on, a forward read of the window of its time was answered
or is in flight, or any page that answers the one in flight is followed by one. -/
def Kept (first : Nat) (w : World c) : Prop :=
  (∃ number ∈ w.answered, first ≤ number) ∨
    (∃ hit ∈ w.pending .forward, first ≤ hit.2) ∨
    ∃ hit ∈ w.pending .forward, ∀ e,
      ∃ next ∈ (step w (.answer hit.2 (.ok (.page e)))).pending .forward, w.made ≤ next.2

/-! ## What every step keeps -/

/-- The reads in flight are as the flags say. -/
structure Holds (w : World c) (f : Flags) : Prop where
  agent : f.agent = w.t.agent
  generation : f.generation = w.t.generation
  behind : w.t.generation ≤ w.generations
  older : ∀ hit ∈ w.inFlight, hit.1.generation ≤ w.generations
  numbered : ∀ hit ∈ w.inFlight, hit.2 < w.made
  distinct : (w.inFlight.map Prod.snd).Nodup
  forward : (w.pending .forward).length = f.reading.toNat
  detail : (w.pending .detail).length = f.detailReading.toNat

theorem zipIdx_snd (reads : List Read) (first : Nat) :
    (reads.zipIdx first).map Prod.snd = List.range' first reads.length :=
  List.zipIdx_map_snd first reads

theorem distinct_emit {inFlight : List (Read × Nat)} {made : Nat}
    (numbered : ∀ hit ∈ inFlight, hit.2 < made)
    (distinct : (inFlight.map Prod.snd).Nodup) (reads : List Read) :
    ((inFlight ++ reads.zipIdx made).map Prod.snd).Nodup := by
  rw [List.map_append, List.nodup_append, zipIdx_snd]
  refine ⟨distinct, List.nodup_range', ?_⟩
  intro number old other new
  obtain ⟨hit, inside, rfl⟩ := List.mem_map.mp old
  have below := numbered hit inside
  rw [List.mem_range'_1] at new
  omega

theorem numbered_emit {inFlight : List (Read × Nat)} {made : Nat}
    (numbered : ∀ hit ∈ inFlight, hit.2 < made) (reads : List Read) :
    ∀ hit ∈ inFlight ++ reads.zipIdx made, hit.2 < made + reads.length := by
  intro hit inside
  rcases List.mem_append.mp inside with old | new
  · have below := numbered hit old
    omega
  · exact List.snd_lt_add_of_mem_zipIdx new

/-- How many of the reads made now are of an operation. -/
theorem length_filter_own {reads : List Read} {agent : String} {generation : Nat} (op : Op)
    (own : ∀ read ∈ reads, read.agent = agent ∧ read.generation = generation) (first : Nat) :
    ((reads.zipIdx first).filter fun hit => hit.1.agent = agent ∧ hit.1.generation = generation ∧
    hit.1.what.op = op).length =
      reads.countP (·.what.op = op) := by
  induction reads generalizing first with
  | nil => rfl
  | cons read reads inductionHypothesis =>
    have mine := own read List.mem_cons_self
    rw [List.zipIdx_cons, List.filter_cons, List.countP_cons, 
      ← inductionHypothesis (fun other inside => own other (List.mem_cons_of_mem _ inside))
        (first + 1)]
    by_cases isOp : read.what.op = op <;> simp [mine.1, mine.2, isOp]

theorem Holds.emit {w : World c} {f : Flags} (holds : Holds w f)
    {after : Transcript c × List Effect} (moves : Moves f after) :
    Holds (w.emit after) after.1.flags := by
  have agent : after.1.agent = w.t.agent := moves.agent.trans holds.agent
  have generation : after.1.generation = w.t.generation := moves.generation.trans holds.generation
  have count :
      ∀ op, ((w.emit after).pending op).length = (w.pending op).length + started op after.2 := by
    intro op
    have own : ∀ read ∈ fetches after.2, read.agent = w.t.agent ∧
        read.generation = w.t.generation := fun read inside =>
      ⟨(moves.own read inside).1.trans holds.agent,
        (moves.own read inside).2.trans holds.generation⟩
    simp only [World.pending, World.emit, agent, generation]
    rw [List.filter_append, List.length_append, length_filter_own op own]
    rfl
  constructor
  · rfl
  · rfl
  · show after.1.generation ≤ w.generations
    rw [generation]
    exact holds.behind
  · intro hit inside
    rcases List.mem_append.mp inside with old | new
    · exact holds.older hit old
    · have own := moves.own hit.1 (List.fst_mem_of_mem_zipIdx new)
      rw [own.2, holds.generation]
      exact holds.behind
  · exact numbered_emit holds.numbered _
  · exact distinct_emit holds.numbered holds.distinct _
  · have before := moves.forward
    rw [count, holds.forward, Nat.add_comm]
    exact before
  · have before := moves.detail
    rw [count, holds.detail, Nat.add_comm]
    exact before

theorem filter_number_absent {hits : List (Read × Nat)} {number : Nat}
    (absent : ∀ hit ∈ hits, hit.2 ≠ number) :
    (hits.filter fun hit => hit.2 ≠ number) = hits :=
  List.filter_eq_self.mpr fun hit inside => by simpa using absent hit inside

theorem filter_number_length {hits : List (Read × Nat)} (distinct : (hits.map Prod.snd).Nodup)
    {hit : Read × Nat} (inside : hit ∈ hits) :
    (hits.filter fun other => other.2 ≠ hit.2).length + 1 = hits.length := by
  obtain ⟨before, after, rfl⟩ := List.append_of_mem inside
  rw [List.map_append, List.map_cons, List.nodup_middle, List.nodup_cons,
    ← List.map_append] at distinct
  have absent : ∀ other ∈ before ++ after, other.2 ≠ hit.2 := fun other member same =>
    distinct.1 (same ▸ List.mem_map_of_mem member)
  have rest := filter_number_absent absent
  rw [List.filter_append] at rest
  rw [List.filter_append, List.filter_cons_of_neg (by simp), rest]
  simp
  omega

section

variable {w : World c}

/-- The world once a read has been answered. -/
def World.remove (w : World c) (number : Nat) : World c :=
  { w with inFlight := w.inFlight.filter fun hit => hit.2 ≠ number }

theorem pending_remove (w : World c) (number : Nat) (op : Op) :
    (w.remove number).pending op = (w.pending op).filter fun hit => hit.2 ≠ number := by
  simp only [World.pending, World.remove, List.filter_filter]
  congr 1
  funext hit
  exact Bool.and_comm _ _

theorem mem_pending {op : Op} {hit : Read × Nat} :
    hit ∈ w.pending op ↔ hit ∈ w.inFlight ∧ hit.1.agent = w.t.agent ∧
      hit.1.generation = w.t.generation ∧ hit.1.what.op = op := by
  rw [World.pending, List.mem_filter, decide_eq_true_eq]

theorem Holds.pending_distinct {f : Flags} (holds : Holds w f) (op : Op) :
    ((w.pending op).map Prod.snd).Nodup :=
  holds.distinct.sublist (List.filter_sublist.map Prod.snd)

theorem Holds.unique {f : Flags} (holds : Holds w f) {hit other : Read × Nat}
    (inside : hit ∈ w.inFlight) (again : other ∈ w.inFlight)
    (same : hit.2 = other.2) : hit = other :=
  List.inj_on_of_nodup_map holds.distinct inside again same

/-- A read that is not pending for an operation is not missed there. -/
theorem Holds.pending_remove_other {f : Flags} (holds : Holds w f) {hit : Read × Nat}
    (inside : hit ∈ w.inFlight) {op : Op}
    (other : hit ∉ w.pending op) : (w.remove hit.2).pending op = w.pending op := by
  rw [pending_remove]
  refine filter_number_absent ?_
  intro pending member same
  have isHit := holds.unique (mem_pending.mp member).1 inside same
  exact other (isHit ▸ member)

theorem Holds.removed {f g : Flags} (holds : Holds w f) (number : Nat) (agent : g.agent = f.agent)
    (generation : g.generation = f.generation)
    (forward : ((w.remove number).pending .forward).length = g.reading.toNat)
    (detail : ((w.remove number).pending .detail).length = g.detailReading.toNat) :
    Holds (w.remove number) g where
  agent := agent.trans holds.agent
  generation := generation.trans holds.generation
  behind := holds.behind
  older hit inside := holds.older hit ((List.mem_filter.mp inside).1)
  numbered hit inside := holds.numbered hit ((List.mem_filter.mp inside).1)
  distinct := holds.distinct.sublist (List.filter_sublist.map Prod.snd)
  forward := forward
  detail := detail

/-- An answer to a read of an earlier window. -/
theorem Holds.stale {f : Flags} (holds : Holds w f) {hit : Read × Nat} (inside : hit ∈ w.inFlight)
    (stale : ¬ (hit.1.agent = w.t.agent ∧ hit.1.generation = w.t.generation)) :
    Holds (w.remove hit.2) f := by
  have other : ∀ op, hit ∉ w.pending op := fun op member =>
    stale ⟨(mem_pending.mp member).2.1, (mem_pending.mp member).2.2.1⟩
  refine holds.removed hit.2 rfl rfl ?_ ?_
  · rw [holds.pending_remove_other inside (other .forward)]
    exact holds.forward
  · rw [holds.pending_remove_other inside (other .detail)]
    exact holds.detail

/-- An answer to a read of the current window. -/
theorem Holds.answered {f : Flags} (holds : Holds w f) {hit : Read × Nat}
    (inside : hit ∈ w.inFlight)
    (current : hit.1.agent = w.t.agent ∧ hit.1.generation = w.t.generation) :
    Holds (w.remove hit.2) (f.answered hit.1.what.op) := by
  have own : ∀ {op}, hit.1.what.op = op →
      ((w.remove hit.2).pending op).length + 1 = (w.pending op).length := by
    intro op isOp
    rw [pending_remove]
    exact filter_number_length (holds.pending_distinct op)
      (mem_pending.mpr ⟨inside, current.1, current.2, isOp⟩)
  have other : ∀ {op}, hit.1.what.op ≠ op → (w.remove hit.2).pending op = w.pending op :=
      fun apart =>
    holds.pending_remove_other inside fun member => apart (mem_pending.mp member).2.2.2
  cases isOp : hit.1.what.op with
  | forward =>
    refine holds.removed hit.2 rfl rfl ?_ ?_
    · have count := own isOp
      have most := Bool.toNat_le f.reading
      rw [holds.forward] at count
      show _ = 0
      omega
    · rw [other (by simp [isOp])]
      exact holds.detail
  | detail =>
    refine holds.removed hit.2 rfl rfl ?_ ?_
    · rw [other (by simp [isOp])]
      exact holds.forward
    · have count := own isOp
      have most := Bool.toNat_le f.detailReading
      rw [holds.detail] at count
      show _ = 0
      omega
  | back =>
    refine holds.removed hit.2 rfl rfl ?_ ?_
    · rw [other (by simp [isOp])]
      exact holds.forward
    · rw [other (by simp [isOp])]
      exact holds.detail

/-- A new window has its own reads in flight and no others. -/
theorem holds_restart (older : ∀ hit ∈ w.inFlight, hit.1.generation ≤ w.generations)
    (numbered : ∀ hit ∈ w.inFlight, hit.2 < w.made) (distinct : (w.inFlight.map Prod.snd).Nodup) :
    Holds w.restart w.restart.t.flags := by
  let fresh : Transcript c := .fresh w.t.agent (w.generations + 1) w.t.detail
  let w' : World c := { w with t := fresh, generations := w.generations + 1 }
  have nothing : ∀ op, w'.pending op = [] := by
    intro op
    refine List.filter_eq_nil_iff.mpr ?_
    intro hit inside
    have below := older hit inside
    have apart : hit.1.generation ≠ w.generations + 1 := by omega
    simp only [decide_eq_true_eq, not_and]
    intro _ same
    exact absurd same apart
  have holds : Holds w' fresh.flags := by
    refine ⟨rfl, rfl, Nat.le_refl _, ?_, numbered, distinct, ?_, ?_⟩
    · intro hit inside
      exact Nat.le_succ_of_le (older hit inside)
    · rw [nothing]
      rfl
    · rw [nothing]
      rfl
  exact holds.emit (Transcript.moves_andThen (Transcript.moves_forward fresh)
    (Transcript.moves_refresh _))

theorem Holds.restart {f : Flags} (holds : Holds w f) : Holds w.restart w.restart.t.flags :=
  holds_restart holds.older holds.numbered holds.distinct

/-- What an answer finds: no such read, or the one with its number. -/
theorem step_answer (w : World c) (number : Nat) (result : Except String (Got c)) :
    step w (.answer number result) = w ∨
      ∃ hit ∈ w.inFlight, hit.2 = number ∧
        step w (.answer number result) = answerRead (w.remove number) number hit.1 result := by
  cases found : w.inFlight.find? fun hit => hit.2 = number with
  | none => exact .inl (by rw [step, found])
  | some hit =>
    refine .inr ⟨hit, List.mem_of_find?_eq_some found, by simpa using List.find?_some found, ?_⟩
    rw [step, found]
    rfl

/-- A read in flight is the one its number finds. -/
theorem Holds.step_inFlight {f : Flags} (holds : Holds w f) {hit : Read × Nat}
    (inside : hit ∈ w.inFlight) (result : Except String (Got c)) :
    step w (.answer hit.2 result) =
      NativeTranscript.answerRead (w.remove hit.2) hit.2 hit.1 result := by
  cases found : w.inFlight.find? fun other => other.2 = hit.2 with
  | none => exact absurd (List.find?_eq_none.mp found hit inside) (by simp)
  | some other =>
    have number : other.2 = hit.2 := by simpa using List.find?_some found
    rw [step, found, holds.unique (List.mem_of_find?_eq_some found) inside number]
    rfl

theorem Holds.answerRead {w : World c} (holds : Holds w w.t.flags) {hit : Read × Nat}
    (inside : hit ∈ w.inFlight)
    (result : Except String (Got c)) :
    Holds (answerRead (w.remove hit.2) hit.2 hit.1 result)
      (answerRead (w.remove hit.2) hit.2 hit.1 result).t.flags := by
  unfold NativeTranscript.answerRead
  split
  · next current =>
    have answered := holds.answered inside current
    split
    · split
      · exact answered.restart
      · have noted : Holds ((w.remove hit.2).note hit.2 hit.1) (w.t.flags.answered hit.1.what.op) :=
          { answered with }
        exact noted.emit (Transcript.moves_answer w.t hit.1.what _)
    · exact answered.emit (Transcript.moves_answer w.t hit.1.what result)
  · next stale => exact holds.stale inside stale

/-- After every step the flags say which reads are in flight. -/
theorem Holds.step {w : World c} (holds : Holds w w.t.flags) (event : Event c) :
    Holds (step w event) (step w event).t.flags := by
  cases event with
  | wake hello =>
    refine holds.emit (Transcript.moves_andThen (f := w.t.flags) ?_ (Transcript.moves_refresh _))
    cases hello
    · exact Transcript.moves_forward w.t
    · exact Transcript.moves_forward
        { w.t with notice := none, forwardRetry := ⟨0, none⟩, detailRetry := ⟨0, none⟩ }
  | message => exact holds.emit (Transcript.moves_refresh w.t)
  | rewindow => exact holds.restart
  | answer number result =>
    rcases step_answer w number result with same | ⟨hit, inside, rfl, equal⟩
    · rw [same]
      exact holds
    · rw [equal]
      exact holds.answerRead inside result
  | retry timer =>
    unfold NativeTranscript.step
    dsimp only
    split
    · exact holds.emit (Transcript.moves_retry w.t timer)
    · exact holds
  | older => exact holds.emit (Transcript.moves_older w.t)
  | dismiss => exact { holds with }
  | tail generation tail =>
    unfold NativeTranscript.step
    dsimp only
    split
    · exact { holds with }
    · exact holds
  | shown =>
    unfold NativeTranscript.step
    dsimp only
    split
    · exact holds_restart holds.older holds.numbered holds.distinct
    · exact holds
  | other =>
    exact { holds with
      behind := Nat.le_succ_of_le holds.behind
      older := fun hit inside => Nat.le_succ_of_le (holds.older hit inside) }

theorem Reachable.holds {w : World c} (reached : Reachable w) : Holds w w.t.flags := by
  induction reached with
  | begin agent generations stale older =>
    refine holds_restart ?_ ?_ ?_
    · exact fun hit inside => older hit.1 (List.fst_mem_of_mem_zipIdx inside)
    · intro hit inside
      have below := List.snd_lt_add_of_mem_zipIdx inside
      rwa [Nat.zero_add] at below
    · show (stale.zipIdx.map Prod.snd).Nodup
      rw [zipIdx_snd]
      exact List.nodup_range'
  | step reached event inductionHypothesis => exact inductionHypothesis.step event

/-! ## What becomes of a wake -/

/-- Of the reads numbered from `first` on a forward read was answered or is in flight, or a wake
is queued behind the one in flight. -/
structure Owed (first : Nat) (w : World c) : Prop where
  made : first ≤ w.made
  owed : (∃ number ∈ w.answered, first ≤ number) ∨ (∃ hit ∈ w.pending .forward, first ≤ hit.2) ∨
    w.t.reading = true ∧ w.t.again = true

/-- A forward read that an operation started is in flight. -/
theorem pending_emit {f : Flags} {after : Transcript c × List Effect} (moves : Moves f after)
    {read : Read}
    (started : read ∈ fetches after.2) (forward : read.what.op = .forward) :
    ∃ hit ∈ (w.emit after).pending .forward, w.made ≤ hit.2 := by
  obtain ⟨index, found⟩ := List.mem_iff_getElem?.mp started
  have own := moves.own read started
  refine ⟨(read, w.made + index), mem_pending.mpr ⟨?_, ?_, ?_, forward⟩, Nat.le_add_right _ _⟩
  · exact List.mem_append_right _ (List.mk_add_mem_zipIdx_iff_getElem?.mpr found)
  · exact own.1.trans moves.agent.symm
  · exact own.2.trans moves.generation.symm

/-- Where a forward read is in flight after an operation and none was before, the operation started
it. -/
theorem pending_started {f : Flags} {after : Transcript c × List Effect} (moves : Moves f after)
    (idle : f.reading = false)
    (reading : after.1.reading = true) : ∃ hit ∈ (w.emit after).pending .forward,
    w.made ≤ hit.2 := by
  have count := moves.forward
  rw [idle, reading] at count
  have positive : 0 < started .forward after.2 := by
    simp at count
    omega
  obtain ⟨read, inside, forward⟩ := List.countP_pos_iff.mp positive
  exact pending_emit moves inside (by simpa using forward)

theorem pending_restart (w : World c) : ∃ hit ∈ w.restart.pending .forward, w.made ≤ hit.2 := by
  let fresh : Transcript c := .fresh w.t.agent (w.generations + 1) w.t.detail
  have moves :=
    Transcript.moves_andThen (Transcript.moves_forward fresh) (Transcript.moves_refresh _)
  exact pending_started (w := { w with generations := w.generations + 1 }) moves rfl rfl

/-- A page that answers the forward read is followed by another one if a wake came meanwhile. -/
theorem page_follows {hit : Read × Nat} (pending : hit ∈ w.pending .forward)
    (again : w.t.again = true) (e : Entries c) :
    ∃ next ∈ (answerRead (w.remove hit.2) hit.2 hit.1 (.ok (.page e))).pending .forward,
      w.made ≤ next.2 := by
  obtain ⟨-, agent, generation, op⟩ := mem_pending.mp pending
  unfold NativeTranscript.answerRead
  rw [if_pos ⟨agent, generation⟩]
  dsimp only
  split
  · exact pending_restart (w.remove hit.2)
  · obtain ⟨⟨_, _, what⟩, number⟩ := hit
    cases what with
    | detail => cases op
    | page page =>
      have forward : page.isBefore = false := by cases page <;> first | rfl | cases op
      obtain ⟨moves, wake⟩ := Transcript.moves_page_forward w.t forward e
      exact pending_started (w := (w.remove number).note number _) moves rfl (wake again)

theorem Holds.only {f : Flags} (holds : Holds w f) {hit other : Read × Nat} (inside : hit ∈ w.pending .forward)
    (again : other ∈ w.pending .forward) : hit = other := by
  have most := Bool.toNat_le f.reading
  rw [← holds.forward] at most
  match w.pending .forward, most, inside, again with
  | [only], _, inside, again => exact (List.mem_singleton.mp inside).trans (List.mem_singleton.mp again).symm

theorem Owed.emit {first : Nat} (owed : Owed first w) {f : Flags} (holds : Holds w f)
    (reading : f.reading = w.t.reading)
    (again : f.again = w.t.again) {after : Transcript c × List Effect} (moves : Moves f after) :
    Owed first (w.emit after) := by
  refine ⟨Nat.le_trans owed.made (Nat.le_add_right _ _), ?_⟩
  rcases owed.owed with answered | ⟨hit, inside, late⟩ | ⟨isReading, isAgain⟩
  · exact .inl answered
  · obtain ⟨inside, agent, generation, op⟩ := mem_pending.mp inside
    refine .inr (.inl ⟨hit, mem_pending.mpr ⟨List.mem_append_left _ inside, ?_, ?_, op⟩, late⟩)
    · exact agent.trans (moves.agent.trans holds.agent).symm
    · exact generation.trans (moves.generation.trans holds.generation).symm
  · refine .inr (.inr ⟨?_, moves.queued (reading.trans isReading) (again.trans isAgain)⟩)
    have count := moves.forward
    rw [reading, isReading, Bool.toNat_true] at count
    show after.1.reading = true
    cases flag : after.1.reading with
    | true => rfl
    | false =>
      rw [flag, Bool.toNat_false] at count
      omega

/-- A fresh window reads forward at once. -/
theorem owed_restart {first : Nat} (made : first ≤ w.made) : Owed first w.restart := by
  obtain ⟨hit, inside, late⟩ := pending_restart w
  exact ⟨Nat.le_trans made (Nat.le_add_right _ _),
    .inr (.inl ⟨hit, inside, Nat.le_trans made late⟩)⟩

/-- Taking a read that is no forward read of the window out of flight owes no less. -/
theorem Owed.remove {first : Nat} (owed : Owed first w) {f : Flags} (holds : Holds w f)
    {hit : Read × Nat} (inside : hit ∈ w.inFlight)
    (other : hit ∉ w.pending .forward) : Owed first (w.remove hit.2) := by
  refine ⟨owed.made, ?_⟩
  rw [holds.pending_remove_other inside other]
  exact owed.owed

theorem Owed.answerRead {first : Nat} (owed : Owed first w) (holds : Holds w w.t.flags)
    {hit : Read × Nat} (inside : hit ∈ w.inFlight)
    {result : Except String (Got c)} (reads : hit ∈ w.pending .forward →
    ∃ e, result = .ok (.page e)) :
    Owed first (answerRead (w.remove hit.2) hit.2 hit.1 result) := by
  by_cases forward : hit ∈ w.pending .forward
  · obtain ⟨e, rfl⟩ := reads forward
    have follows := page_follows forward
    obtain ⟨-, agent, generation, op⟩ := mem_pending.mp forward
    unfold NativeTranscript.answerRead at follows ⊢
    simp only [if_pos (show hit.1.agent = (w.remove hit.2).t.agent ∧
      hit.1.generation = (w.remove hit.2).t.generation from
      ⟨agent, generation⟩)] at follows ⊢
    split
    · exact owed_restart owed.made
    · next page =>
      refine ⟨Nat.le_trans owed.made (Nat.le_add_right _ _), ?_⟩
      have noted : ∀ after, (((w.remove hit.2).note hit.2 hit.1).emit after).answered =
          hit.2 :: w.answered := by
        intro after
        show (if hit.1.what.op = .forward then _ else _) = _
        rw [if_pos op]
        rfl
      rcases owed.owed with ⟨number, answered, late⟩ | ⟨other, pending, late⟩ | ⟨-, again⟩
      · rw [noted]
        exact .inl ⟨number, List.mem_cons_of_mem _ answered, late⟩
      · rw [noted]
        exact .inl ⟨hit.2, List.mem_cons_self, holds.only pending forward ▸ late⟩
      · obtain ⟨next, pending, late⟩ := follows again e
        rw [if_neg page] at pending
        exact .inr (.inl ⟨next, pending, Nat.le_trans owed.made late⟩)
  · have rest := owed.remove holds inside forward
    unfold NativeTranscript.answerRead
    split
    · next current =>
      have answered := holds.answered inside current
      have apart : hit.1.what.op ≠ .forward :=
        fun op => forward (mem_pending.mpr ⟨inside, current.1, current.2, op⟩)
      have same : (w.t.flags.answered hit.1.what.op).reading = w.t.reading ∧
          (w.t.flags.answered hit.1.what.op).again = w.t.again := by
        cases op : hit.1.what.op with
        | forward => exact absurd op apart
        | back => exact ⟨rfl, rfl⟩
        | detail => exact ⟨rfl, rfl⟩
      split
      · split
        · exact owed_restart rest.made
        · have unnoted : (w.remove hit.2).note hit.2 hit.1 = w.remove hit.2 := by
            rw [World.note, if_neg apart]
          rw [unnoted]
          exact rest.emit answered same.1 same.2 (Transcript.moves_answer w.t hit.1.what _)
      · exact rest.emit answered same.1 same.2 (Transcript.moves_answer w.t hit.1.what result)
    · exact rest

/-- As long as no forward read fails, a wake stays owed until it is answered. -/
theorem Owed.step {first : Nat} (owed : Owed first w) (holds : Holds w w.t.flags) {event : Event c}
    (reads : ¬ Fails w event) :
    Owed first (step w event) := by
  cases event with
  | wake hello =>
    refine owed.emit holds rfl rfl
      (Transcript.moves_andThen (f := w.t.flags) ?_ (Transcript.moves_refresh _))
    cases hello
    · exact Transcript.moves_forward w.t
    · exact Transcript.moves_forward
        { w.t with notice := none, forwardRetry := ⟨0, none⟩, detailRetry := ⟨0, none⟩ }
  | message => exact owed.emit holds rfl rfl (Transcript.moves_refresh w.t)
  | rewindow => exact owed_restart owed.made
  | answer number result =>
    rcases step_answer w number result with same | ⟨hit, inside, rfl, equal⟩
    · rw [same]
      exact owed
    · rw [equal]
      refine owed.answerRead holds inside ?_
      intro pending
      by_contra none
      exact reads ⟨hit, pending, result, rfl, fun e page => none ⟨e, page⟩⟩
  | retry timer =>
    unfold NativeTranscript.step
    dsimp only
    split
    · exact owed.emit holds rfl rfl (Transcript.moves_retry w.t timer)
    · exact owed
  | older => exact owed.emit holds rfl rfl (Transcript.moves_older w.t)
  | dismiss => exact { owed with }
  | tail generation tail =>
    unfold NativeTranscript.step
    dsimp only
    split
    · exact { owed with }
    · exact owed
  | shown =>
    unfold NativeTranscript.step
    dsimp only
    split
    · exact owed_restart owed.made
    · exact owed
  | other => exact { owed with }

/-- A wake reads forward, or is queued behind the read in flight. -/
theorem owed_asked (w : World c) (t : Transcript c) :
    Owed w.made (w.emit (Transcript.andThen t.forward Transcript.refresh)) := by
  have moves := Transcript.moves_andThen (Transcript.moves_forward t) (Transcript.moves_refresh _)
  obtain ⟨reading, queued⟩ := Transcript.asked t
  refine ⟨Nat.le_add_right _ _, ?_⟩
  cases busy : t.reading with
  | false => exact .inr (.inl (pending_started moves busy reading))
  | true => exact .inr (.inr ⟨reading, queued busy⟩)

theorem Holds.kept {first : Nat} (holds : Holds w w.t.flags) (owed : Owed first w) :
    Kept first w := by
  rcases owed.owed with answered | pending | ⟨reading, again⟩
  · exact .inl answered
  · exact .inr (.inl pending)
  · have count := holds.forward
    rw [show w.t.flags.reading = true from reading, Bool.toNat_true] at count
    obtain ⟨hit, only⟩ := List.length_eq_one_iff.mp count
    have pending : hit ∈ w.pending .forward := by rw [only]; exact List.mem_singleton_self hit
    refine .inr (.inr ⟨hit, pending, fun e => ?_⟩)
    have follows := page_follows pending again e
    have inside := (mem_pending.mp pending).1
    rw [holds.step_inFlight inside]
    exact follows

end

theorem Quiet.owed {first : Nat} {w w' : World c} (quiet : Quiet w w') (holds : Holds w w.t.flags)
    (owed : Owed first w) :
    Holds w' w'.t.flags ∧ Owed first w' := by
  induction quiet with
  | refl => exact ⟨holds, owed⟩
  | step quiet event reads inductionHypothesis =>
      exact ⟨inductionHypothesis.1.step event,
      inductionHypothesis.2.step inductionHypothesis.1 reads⟩

/-- One read a kind is in flight, an answer to a read of an earlier window changes nothing, and no
wake is lost: for every sequence of events of an open agent. -/
theorem wake_kept {w : World c} (reached : Reachable w) :
    ((w.pending .forward).length ≤ 1 ∧ (w.pending .detail).length ≤ 1) ∧
      (∀ hit ∈ w.inFlight, hit.1.generation ≠ w.t.generation → ∀ result,
        step w (.answer hit.2 result) =
          { w with inFlight := w.inFlight.filter fun other => other.2 ≠ hit.2 }) ∧
      ∀ hello w', Quiet (step w (.wake hello)) w' → Kept w.made w' := by
  have holds := reached.holds
  refine ⟨⟨?_, ?_⟩, ?_, ?_⟩
  · rw [holds.forward]
    exact Bool.toNat_le _
  · rw [holds.detail]
    exact Bool.toNat_le _
  · intro hit inside stale result
    rw [holds.step_inFlight inside]
    exact if_neg fun current => stale current.2
  · intro hello w' quiet
    obtain ⟨holds', owed⟩ := quiet.owed (holds.step _) (owed_asked w _)
    exact holds'.kept owed

/-- Payloads that show nothing. -/
def blank : Condense where
  Payload := Unit
  Row := Unit
  Result := Unit
  Detail := Unit
  toolUseID := fun _ => none
  toolCall := fun _ => ("", "", "")
  toolResult := fun _ _ => ()
  condense := fun _ => []
  epochMs := fun _ => none

/-- A window that began with a read of the one before still in flight, and a wake. -/
def begun : World blank := step (.begin "lua" 1 [⟨"lua", 1, .detail⟩]) (.wake false)

theorem begun_reachable : Reachable begun := .step (.begin "lua" 1 _ (by simp)) _

theorem wake_kept_begun : Reachable begun ∧
    ((begun.pending .forward).length ≤ 1 ∧ (begun.pending .detail).length ≤ 1) ∧
      (∀ hit ∈ begun.inFlight, hit.1.generation ≠ begun.t.generation → ∀ result,
        step begun (.answer hit.2 result) =
          { begun with inFlight := begun.inFlight.filter fun other => other.2 ≠ hit.2 }) ∧
      ∀ hello w', Quiet (step begun (.wake hello)) w' → Kept begun.made w' :=
  ⟨begun_reachable, wake_kept begun_reachable⟩

end AiConfig.Herder.NativeTranscript
