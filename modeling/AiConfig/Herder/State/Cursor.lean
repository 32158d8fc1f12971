import AiConfig.Herder.State.History

/-! # Cursors

A client asks `Since` with the revision of its last answer and merges the rows
last-writer-wins.  After each answer it holds what the server stores, except for a key
whose row a sweep removed: there it may still hold a version the sweep removed, where the
row stored since is not above it. -/

namespace AiConfig.Herder

open AiConfig.Lib

structure Client (V : Type) where
  cursor : Nat
  rows : String → Option (Row V)

structure Session (V : Type) where
  state : NamespaceState V
  client : Client V
  /-- The rows that sweeps took out of the file so far. -/
  removed : List (Row V)

inductive Move (V : Type) where
  | call (call : Call V)
  | pull (faults : Faults)

section

variable {V : Type}

def Client.merge (client : Client V) (snapshot : Snapshot V) : Client V :=
  ⟨snapshot.rev, absorbAll Row.key Row.version client.rows snapshot.rows⟩

def Session.start : Session V := ⟨⟨none, none⟩, ⟨0, fun _ => none⟩, []⟩

section

variable (values : Values V) (limits : Limits) (ns : String)

def Move.run (session : Session V) : Move V → Session V
  | .call made =>
    ⟨made.run values limits ns session.state, session.client,
      session.removed ++ made.removed ns session.state⟩
  | .pull faults =>
    match since session.state session.client.cursor faults with
    | (.ok snapshot, state) => ⟨state, session.client.merge snapshot, session.removed⟩
    | (.error _, state) => ⟨state, session.client, session.removed⟩

def Session.run (moves : List (Move V)) : Session V :=
  moves.foldl (Move.run values limits ns) .start

end

/-- The client holds a version that a sweep removed, at or above the stored row. -/
def Overtaken (session : Session V) (key : String) (stored : Row V) : Prop :=
  ∃ held, session.client.rows key = some held ∧ stored.version ≤ held.version ∧
    Outswept session.removed key held.version

def Session.Holds (session : Session V) (key : String) (stored : StoredRow V) : Prop :=
  session.client.rows key = some stored.toRow ∨ Overtaken session key stored.toRow

/-! ## The invariant -/

structure Session.Caught (session : Session V) : Prop where
  behind : session.client.cursor ≤ session.state.data.revision
  covered : session.state.data.floor ≤ session.client.cursor →
    ∀ key stored, session.state.data.rows.lookup key = some stored →
      stored.revision ≤ session.client.cursor →
      session.Holds key stored
  seen : ∀ key held, session.client.rows key = some held →
    (∃ stored, session.state.data.rows.lookup key = some stored ∧
      (stored.toRow = held ∨ held.version < stored.version)) ∨
        Outswept session.removed key held.version

theorem caught_start : (Session.start : Session V).Caught where
  behind := Nat.zero_le _
  covered := fun _ _ _ found => by cases found
  seen := fun _ _ found => by cases found

theorem Overtaken.mono {session later : Session V} {key : String} {stored : Row V}
    (overtaken : Overtaken session key stored) (client : later.client = session.client)
    (within : ∀ row ∈ session.removed, row ∈ later.removed) : Overtaken later key stored := by
  obtain ⟨held, found, below, outswept⟩ := overtaken
  exact ⟨held, client ▸ found, below, outswept.mono within⟩

/-- The server moves on. -/
theorem Session.Caught.follow {session later : Session V} (caught : session.Caught)
    (client : later.client = session.client) (within : ∀ row ∈ session.removed, row ∈ later.removed)
    (follows : Follows later.removed session.state.data later.state.data) : later.Caught := by
  constructor
  case behind => exact client ▸ le_trans caught.behind follows.revision
  case covered =>
    intro low key stored found below
    rw [client] at low below
    -- a raised floor would be above the cursor
    have same : later.state.data.floor = session.state.data.floor := by
      cases follows.floor with
      | inl same => exact same
      | inr raised => exact absurd (lt_of_lt_of_le raised low) (not_lt.mpr caught.behind)
    have before := follows.old key stored found (le_trans below caught.behind)
    cases caught.covered (same ▸ low) key stored before below with
    | inl holds => exact Or.inl (client ▸ holds)
    | inr overtaken => exact Or.inr (overtaken.mono client within)
  case seen =>
    intro key held found
    rw [client] at found
    cases caught.seen key held found with
    | inr outswept => exact Or.inr (outswept.mono within)
    | inl there =>
      obtain ⟨stored, known, below⟩ := there
      have climbs : held.version ≤ stored.version := below.elim (fun same => same ▸ le_rfl) le_of_lt
      cases follows.kept key stored known with
      | inr outswept =>
        obtain ⟨row, member, own, beyond⟩ := outswept
        exact Or.inr ⟨row, member, own, le_trans climbs beyond⟩
      | inl still =>
        obtain ⟨last, ends, beyond⟩ := still
        refine Or.inl ⟨last, ends, ?_⟩
        cases beyond with
        | inl same => exact same ▸ below
        | inr higher => exact Or.inr (lt_of_le_of_lt climbs higher)

/-- A row that the answer brings: the merge takes it, or keeps a removed version. -/
theorem Session.Caught.merged {session : Session V} (caught : session.Caught)
    (sound : session.state.data.WellFormed) {rows : List (Row V)}
    (brings : ∀ row ∈ rows, ∃ stored ∈ session.state.data.stored, stored.toRow = row) {key : String}
    {stored : StoredRow V} (found : session.state.data.rows.lookup key = some stored)
    (brought : stored.toRow ∈ rows) :
    ∃ held, absorbAll Row.key Row.version session.client.rows rows key = some held ∧
      (held = stored.toRow ∨ stored.version ≤ held.version ∧
      Outswept session.removed key held.version) := by
  have own := sound.keyed key stored found
  have covered :
    Covered (absorbAll Row.key Row.version session.client.rows rows) Row.version stored.key
      stored.toRow.version := absorbAll_covers stored.toRow brought
  obtain ⟨held, holds, above⟩ := covered
  rw [own] at holds
  refine ⟨held, holds, ?_⟩
  cases absorbAll_source holds with
  | inr offered =>
    -- the server stores one row of this key
    obtain ⟨other, member, same⟩ := brings held offered.1
    have again := lookup_of_stored sound member
    rw [show other.key = key from (congrArg Row.key same).trans offered.2, found,
      Option.some.injEq] at again
    exact Or.inl (by rw [again, same])
  | inl kept =>
    cases caught.seen key held kept with
    | inr outswept => exact Or.inr ⟨above, outswept⟩
    | inl there =>
      obtain ⟨current, known, below⟩ := there
      rw [found, Option.some.injEq] at known
      subst known
      cases below with
      | inl same => exact Or.inl same.symm
      | inr under => exact absurd under (not_lt.mpr above)

theorem Session.Caught.pull {session : Session V} (caught : session.Caught)
    (sound : session.state.data.WellFormed)
    {state : NamespaceState V} (same : state.data = session.state.data) :
    let next : Session V :=
      ⟨state, session.client.merge (session.state.data.since session.client.cursor),
        session.removed⟩
    next.Caught ∧ ∀ key stored, next.state.data.rows.lookup key = some stored →
        next.Holds key stored := by
  intro next
  have data : next.state.data = session.state.data := same
  have brings : ∀ row ∈ (session.state.data.since session.client.cursor).rows,
      ∃ stored ∈ session.state.data.stored, stored.toRow = row := by
    intro row member
    obtain ⟨stored, inside, _, same⟩ := mem_since.mp member
    exact ⟨stored, inside, same⟩
  have holds : ∀ key stored, next.state.data.rows.lookup key = some stored →
      next.Holds key stored := by
    intro key stored found
    rw [data] at found
    -- The answer brings every row that changed after the cursor, or all of them below the floor.
    by_cases fresh : session.client.cursor < session.state.data.floor ∨
      session.client.cursor < stored.revision
    · have brought : stored.toRow ∈ (session.state.data.since session.client.cursor).rows :=
        mem_since.mpr ⟨stored, mem_stored found, fresh, rfl⟩
      obtain ⟨held, holds, which⟩ := caught.merged sound brings found brought
      cases which with
      | inl exact => exact Or.inl (exact ▸ holds)
      | inr overtaken => exact Or.inr ⟨held, holds, overtaken.1, overtaken.2⟩
    · -- the answer has no row of this key
      rw [not_or, not_lt, not_lt] at fresh
      have silent : ∀ row ∈ (session.state.data.since session.client.cursor).rows,
          row.key ≠ key := by
        intro row member own
        obtain ⟨other, inside, changed, same⟩ := mem_since.mp member
        have again := lookup_of_stored sound inside
        rw [show other.key = key from (congrArg Row.key same).trans own, found,
          Option.some.injEq] at again
        subst again
        omega
      have still : next.client.rows key = session.client.rows key := absorbAll_other silent
      cases caught.covered fresh.1 key stored found fresh.2 with
      | inl holds => exact Or.inl (still.trans holds)
      | inr overtaken =>
        obtain ⟨held, holds, rest⟩ := overtaken
        exact Or.inr ⟨held, still.trans holds, rest⟩
  refine ⟨?_, holds⟩
  constructor
  case behind => exact le_of_eq (by rw [data]; rfl)
  case covered => exact fun _ key stored found _ => holds key stored found
  case seen =>
    intro key held found
    rw [data]
    -- What the client holds it held before or was brought.
    cases absorbAll_source found with
    | inl kept => exact caught.seen key held kept
    | inr offered =>
      obtain ⟨stored, inside, same⟩ := brings held offered.1
      have known := lookup_of_stored sound inside
      rw [show stored.key = key from (congrArg Row.key same).trans offered.2] at known
      exact Or.inl ⟨stored, known, Or.inl same⟩

/-! ## Runs -/

structure Session.Sound (session : Session V) : Prop where
  server : session.state.Sound session.removed
  client : session.Caught

section

variable (values : Values V) (limits : Limits) (ns : String)

/-- One move keeps the invariant, and the revision does not go back. -/
theorem Session.Sound.move {session : Session V} (sound : session.Sound) (move : Move V) :
    (move.run values limits ns session).Sound ∧
      session.state.data.revision ≤ (move.run values limits ns session).state.data.revision := by
  cases move with
  | call call =>
    obtain ⟨server, follows⟩ := sound.server.run values limits ns call
    exact ⟨⟨server, sound.client.follow rfl (fun _ => List.mem_append_left _) follows⟩,
      follows.revision⟩
  | pull faults =>
    have step := answers session.state session.client.cursor faults
    simp only [Move.run]
    generalize since session.state session.client.cursor faults = answer at step ⊢
    cases step with
    | failed => exact ⟨sound, le_rfl⟩
    | answered =>
      have server :
          NamespaceState.Sound ⟨some session.state.data, session.state.file⟩ session.removed :=
        ⟨sound.server.data, sound.server.onDisk, sound.server.ahead⟩
      have same : (⟨some session.state.data, session.state.file⟩ : NamespaceState V).data =
        session.state.data := rfl
      exact ⟨⟨server, (sound.client.pull sound.server.data same).1⟩, le_rfl⟩

theorem sound_run (moves : List (Move V)) : (Session.run values limits ns moves).Sound := by
  suffices general : ∀ session :
    Session V, session.Sound → (moves.foldl (Move.run values limits ns) session).Sound from
    general .start ⟨sound_absent, caught_start⟩
  induction moves with
  | nil => exact fun _ sound => sound
  | cons move rest inductionHypothesis =>
    exact fun session sound => inductionHypothesis _ (sound.move values limits ns move).1

/-- Right after an answer the client holds each stored row, or, where a sweep removed the
row of that key, a removed version at or above it; revisions only grow and are not shared. -/
theorem cursor_complete (moves : List (Move V)) :
    (∀ faults snapshot,
      (since (Session.run values limits ns moves).state
      (Session.run values limits ns moves).client.cursor faults).1 =
        .ok snapshot →
      ∀ key stored,
        (Session.run values limits ns (moves ++ [.pull faults])).state.data.rows.lookup key =
        some stored →
          (Session.run values limits ns (moves ++ [.pull faults])).client.rows key =
          some stored.toRow ∨
            Overtaken (Session.run values limits ns (moves ++ [.pull faults])) key stored.toRow) ∧
    (∀ move, (Session.run values limits ns moves).state.data.revision ≤
      (Session.run values limits ns (moves ++ [move])).state.data.revision) ∧
    ∀ key stored other stored',
      (Session.run values limits ns moves).state.data.rows.lookup key = some stored →
      (Session.run values limits ns moves).state.data.rows.lookup other = some stored' →
      stored.revision = stored'.revision → key = other := by
  have sound := sound_run values limits ns moves
  have extends_run : ∀ move, Session.run values limits ns (moves ++ [move]) =
      move.run values limits ns (Session.run values limits ns moves) := by
    intro move
    simp [Session.run]
  refine ⟨?_, ?_, sound.server.data.distinct⟩
  · intro faults snapshot answered
    rw [extends_run]
    generalize Session.run values limits ns moves = session at sound answered ⊢
    have step := answers session.state session.client.cursor faults
    simp only [Move.run]
    generalize since session.state session.client.cursor faults = answer at step answered ⊢
    cases step with
    | failed => cases answered
    | answered => exact (sound.client.pull sound.server.data rfl).2
  · intro move
    rw [extends_run]
    exact (sound.move values limits ns move).2

end

end

/-! ## A row swept and written again -/

def markerValues : Values Unit := ⟨fun _ => 4, fun _ => true⟩

def markerLimits : Limits := ⟨65536, 10000⟩

def markerRow (updated : Int) (writeID : String) : Row Unit :=
  ⟨"agent", (), updated, writeID, false⟩

/-- The agent is gone. -/
def agentGone : SweepPolicy Unit :=
  ⟨fun ns => ns = "read.markers", fun _ => false, 0, some fun _ _ => true⟩

/-- Written, pulled, swept and written again by a writer that is behind. -/
def sweptAndWritten : List (Move Unit) :=
  [.call (.upsert [markerRow 100 "one"] .none), .pull .none, .call (.sweep agentGone .none),
    .call (.upsert [markerRow 50 "two"] .none)]

theorem client_keeps_swept_row :
    ¬ ∀ (moves : List (Move Unit)) (faults : Faults) (snapshot : Snapshot Unit),
      (since (Session.run markerValues markerLimits "read.markers" moves).state
        (Session.run markerValues markerLimits "read.markers" moves).client.cursor faults).1 =
        .ok snapshot →
      ∀ key stored,
        (Session.run markerValues markerLimits "read.markers"
        (moves ++ [.pull faults])).state.data.rows.lookup key =
          some stored →
        (Session.run markerValues markerLimits "read.markers" (moves ++ [.pull faults])).client.rows
        key =
          some stored.toRow := by
  intro complete
  have holds :=
    complete sweptAndWritten .none ⟨[markerRow 50 "two"], 3, 0⟩ rfl "agent"
    ⟨markerRow 50 "two", 3⟩ rfl
  revert holds
  decide

def otherRow : Row Unit := ⟨"other", (), 7, "one", false⟩

/-- Two rows are written and pulled, one of them again, and the serve restarts. -/
def writtenTwice : List (Move Unit) :=
  [.call (.upsert [markerRow 100 "one", otherRow] .none), .pull .none,
    .call (.upsert [markerRow 200 "two"] .none), .call .restart]

/-- The second pull is answered with the one row that is new, and leaves the client both. -/
theorem cursor_complete_sample :
    (Session.run markerValues markerLimits "read.markers"
    (writtenTwice ++ [.pull .none])).client.rows "agent" =
        some (markerRow 200 "two") ∧
      (Session.run markerValues markerLimits "read.markers"
      (writtenTwice ++ [.pull .none])).client.rows "other" =
        some otherRow := by
  have complete := (cursor_complete markerValues markerLimits "read.markers" writtenTwice).1 .none
    ⟨[markerRow 200 "two"], 3, 0⟩ rfl
  have unswept : ∀ key row,
      ¬ Overtaken (Session.run markerValues markerLimits "read.markers"
          (writtenTwice ++ [.pull .none])) key row := by
    rintro key row ⟨_, _, _, _, member, _⟩
    cases member
  exact ⟨(complete "agent" ⟨markerRow 200 "two", 3⟩ rfl).resolve_right (unswept _ _),
    (complete "other" ⟨otherRow, 2⟩ rfl).resolve_right (unswept _ _)⟩

end AiConfig.Herder
