import AiConfig.Lib.Sha256
import AiConfig.Herder.Agents.AppendKept
import AiConfig.Herder.Agents.Event
import AiConfig.Herder.Bus.Events
import AiConfig.Herder.Fleet.Roster

/-! # The life mirror

Transcription of `startLifeMirror` of `serve.go` and of `Has` of `internal/agentstore`: the life
events of the
bus are written to the agent journal, by a serve that may stop at any moment, beside others who
append to it.
How the journal reads and writes its lines, how a time is read and what the roster cache answers are
parameters.

* `mirrored_once` — what the mirror has passed is in the journal, once, or was audited. -/

namespace AiConfig.Herder.Bus

open AiConfig.Lib
open Agents (EventKind)
open Fleet (BusRow byUniqueBaseName RosterCache)

/-! ## Ids -/

def hexValue (c : Char) : Nat := if c.toNat < 58 then c.toNat - 48 else c.toNat - 87

/-- `DerivedID`: of the sum's first 16 bytes, version 8 and the RFC variant. -/
def derivedID (source : List UInt8) : String :=
  let sum := (Sha256.sum256Hex source).toList
  let variant := Sha256.hexDigit (hexValue ((sum.drop 16).headD '0') % 4 + 8)
  String.ofList (sum.take 8 ++ '-' :: (sum.drop 8).take 4 ++ '-' :: '8' :: (sum.drop 13).take 3 ++
    '-' :: variant :: (sum.drop 17).take 3 ++ '-' :: (sum.drop 20).take 12)

example : derivedID (bytesOf "hcom-life:7") = "1ee1d8a5-e6ab-839c-b7f6-f59de7423584" := by
  decide +kernel

def lifeID (id : Int) : String := derivedID (bytesOf ("hcom-life:" ++ toString id))

/-! ## An event of the mirror -/

def lifeMirrorKinds (action : String) : Option EventKind :=
  if action = "created" then some .mirrorCreated
  else if action = "ready" then some .mirrorReady
  else if action = "stopped" then some .mirrorStopped
  else if action = "batch_launched" then some .mirrorBatch
  else none

def resolveInRoster (rows : List BusRow) (raw : String) (fallback : String → String) : String :=
  match byUniqueBaseName rows raw with
  | some row => row.name
  | none => if rows.any fun row => row.baseName = raw || row.name = raw then raw else fallback raw

def rosterSessionFor (rows : List BusRow) (name : String) : String :=
  ((rows.find? fun row => row.name = name).map fun row => row.sessionID).getD ""

/-- What `locked` and the scan of `Has` come to. -/
structure HasFaults where
  locked : Bool
  repaired : Bool
  scanned : Bool

/-- What an emission meets. -/
structure MirrorConditions where
  /-- What others append before `Has`, and between it and `Append`. -/
  before : List (Agents.Event × AppendFaults)
  between : List (Agents.Event × AppendFaults)
  has : HasFaults
  /-- The roster cache when it is first read, and after the roster was fetched. -/
  cache : RosterCache
  later : RosterCache
  /-- What `hcom list` answers: where the cache has no roster yet, and for an agent that is ready.
  -/
  seed : Option (List BusRow)
  refresh : Option (List BusRow)
  append : AppendFaults

/-- The event of a life event. -/
def mirrorEvent (c : MirrorConditions) (life : Life) (kind : EventKind) (at_ : Agents.Time)
    (roster : List BusRow) : Agents.Event :=
  let resolve := if c.cache.initialized then c.cache.resolve else c.later.resolve
  let event : Agents.Event :=
    { id := lifeID life.id
      at_
      kind
      by_ := resolve life.by_
      byKind := some .mirror
      name := if kind = .mirrorBatch then "" else resolve life.instance_
      reason := life.reason
      batch := life.batch
      instances := life.instances.map resolve
      parentName := life.parentName
      isHcomLaunched := life.isHcomLaunched
      hcomEvent := toString life.id }
  -- Of an agent that is ready the roster is read afresh, for its full name and session.
  if kind ≠ .mirrorReady then event
  else
    match if c.cache.initialized then c.refresh else some roster with
    | some fresh =>
      let name := resolveInRoster fresh life.instance_ c.later.resolve
      { event with name, session := rosterSessionFor fresh name }
    | none => { event with name := c.later.resolve life.instance_ }

/-! ## Emissions -/

/-- The journal, and the life events that were skipped. -/
structure MirrorState where
  journal : Journal
  skipped : List (Int × AppendError)

section

variable (codec : EventCodec Agents.Event) (parse : String → Option Agents.Time)

/-- `Has`; none where it returns an error. -/
def has (journal : Journal) (id : String) (faults : HasFaults) : Option Bool × Journal :=
  if !faults.locked || !faults.repaired then (none, journal)
  else if !faults.scanned then (none, repairTornTail journal)
  else (some (findID codec (repairTornTail journal).bytes id).isSome, repairTornTail journal)

def appendAll (journal : Journal) (others : List (Agents.Event × AppendFaults)) : Journal :=
  others.foldl (fun journal other => (append codec journal other.1 other.2).2) journal

def startLifeMirrorEmit (c : MirrorConditions) (s : MirrorState) (life : Life) :
    MirrorState × Bool :=
  match lifeMirrorKinds life.action with
  | none => (s, true)
  | some kind =>
    match has codec (appendAll codec s.journal c.before) (lifeID life.id) c.has with
    | (none, journal) => ({ s with journal }, false)
    -- mirrored already, by this serve or another
    | (some true, journal) => ({ s with journal }, true)
    | (some false, journal) =>
      match parse life.ts with
      | none => ({ s with journal }, false)
      | some at_ =>
        match if c.cache.initialized then some c.cache.rows else c.seed with
        | none => ({ s with journal }, false)
        | some roster =>
          match append codec (appendAll codec journal c.between) (mirrorEvent c life kind at_
              roster) c.append with
          | (.ok _, journal) => ({ s with journal }, true)
          -- A journal out of reach holds the event; any other refusal is audited and passed.
          | (.error .unavailable, journal) => ({ s with journal }, false)
          | (.error error, journal) => (⟨journal, s.skipped ++ [(life.id, error)]⟩, true)

def startLifeMirror : Subscription Payload Life MirrorConditions MirrorState :=
  subscribeLife (startLifeMirrorEmit codec parse)

end

/-! ## Runs -/

inductive MirrorAction where
  /-- The serve calls the subscription, with the cursor that it has. -/
  | subscribed (call : Call Payload MirrorConditions)
  /-- Another process appends to the journal. -/
  | appended (e : Agents.Event) (faults : AppendFaults)
  /-- Another serve starts, perhaps after a stop of the machine that kept this many bytes. -/
  | restarted (crash : Option Nat)

def MirrorAction.published : MirrorAction → List HcomEvent
  | .subscribed call => call.published
  | .appended _ _ | .restarted _ => []

def mirrorPublished (actions : List MirrorAction) : List HcomEvent :=
  actions.flatMap MirrorAction.published

abbrev MirrorWorld := World Payload MirrorState

section

variable (hcom : Hcom Payload) (codec : EventCodec Agents.Event)
  (parse : String → Option Agents.Time)

def MirrorWorld.step (w : MirrorWorld) : MirrorAction → MirrorWorld
  | .subscribed call => w.subscribe hcom (startLifeMirror codec parse) call
  | .appended e faults =>
    { w with subscriber := { w.subscriber with state := { w.subscriber.state with
        journal := (append codec w.subscriber.state.journal e faults).2 } } }
  -- The new serve has no cursor; a crash may cut what was not synced.
  | .restarted crash =>
    let journal := w.subscriber.state.journal
    let journal := match crash with
      | none => journal
      | some kept => { journal with bytes := journal.bytes.take (max kept journal.synced) }
    { w with subscriber := ⟨⟨0, false⟩, { w.subscriber.state with journal }, []⟩ }

def MirrorWorld.run (w : MirrorWorld) (actions : List MirrorAction) : MirrorWorld :=
  actions.foldl (MirrorWorld.step hcom codec parse) w

/-- The serve stays up, and no query leaves out newer events. -/
def MirrorWorld.Steady : MirrorWorld → List MirrorAction → Prop
  | _, [] => True
  | _, .restarted _ :: _ => False
  | w, .appended e faults :: rest =>
      MirrorWorld.Steady (w.step hcom codec parse (.appended e faults)) rest
  | w, .subscribed call :: rest =>
    w.RoundsUncut hcom (startLifeMirror codec parse) call.rounds ∧
      MirrorWorld.Steady (w.step hcom codec parse (.subscribed call)) rest

end

/-- The journal has the event of a life event, or the mirror audited why it has not. -/
def Told (codec : EventCodec Agents.Event) (records : List (List UInt8))
    (skipped : List (Int × AppendError)) (e : HcomEvent) : Prop :=
  ∀ life, projectLife e = some life → (lifeMirrorKinds life.action).isSome →
    (∃ line ∈ records, idOf codec line = some (lifeID life.id)) ∨ ∃ error, error ≠ .unavailable ∧
      (life.id, error) ∈ skipped

section

variable {hcom : Hcom Payload} {codec : EventCodec Agents.Event}
  {parse : String → Option Agents.Time}

theorem Told.grow {records : List (List UInt8)} {skipped : List (Int × AppendError)} {e : HcomEvent}
    (told : Told codec records skipped e) (added : List (List UInt8))
    (more : List (Int × AppendError)) : Told codec (records ++ added) (skipped ++ more) e := by
  intro life own mirrored
  obtain ⟨line, inside, same⟩ | ⟨error, refused, inside⟩ := told life own mirrored
  · exact Or.inl ⟨line, List.mem_append_left _ inside, same⟩
  · exact Or.inr ⟨error, refused, List.mem_append_left _ inside⟩

/-- What a journal holds, and what was told of the events that the mirror passed. -/
structure Mirrored (codec : EventCodec Agents.Event) (records : List (List UInt8)) (s : MirrorState)
    (emitted : List HcomEvent) : Prop where
  written : Written codec s.journal.bytes records
  told : ∀ e ∈ emitted, Told codec records s.skipped e

theorem append_grows {journal : Journal} {records : List (List UInt8)}
    (written : Written codec journal.bytes records) (e : Agents.Event)
    (faults : AppendFaults) :
    ∃ added, Written codec (append codec journal e faults).2.bytes (records ++ added) ∧
      ((∃ receipt, (append codec journal e faults).1 = .ok receipt) →
        ∃ line ∈ records ++ added, idOf codec line = some (codec.id e)) := by
  have step := append_spec written e faults
  obtain ⟨added, grown, -⟩ := step.written written
  generalize append codec journal e faults = answer at step grown ⊢
  cases step with
  | refused | stopped | differs | torn | unsynced =>
    refine ⟨added, grown, ?_⟩
    rintro ⟨receipt, ok⟩
    cases ok
  | @replayed before after line existing split read own same =>
    refine ⟨added, grown, fun _ => ⟨line, by simp [split], ?_⟩⟩
    rw [idOf, read, Option.map_some, own]
  | @added line new appendable =>
    exact ⟨[line], written.add new appendable, fun _ => ⟨line, by simp, appendable.idOf⟩⟩

theorem appendAll_grows {journal : Journal} {records : List (List UInt8)}
    (written : Written codec journal.bytes records)
    (others : List (Agents.Event × AppendFaults)) :
    ∃ added, Written codec (appendAll codec journal others).bytes (records ++ added) := by
  induction others generalizing journal records with
  | nil => exact ⟨[], by simpa [appendAll] using written⟩
  | cons other others inductionHypothesis =>
    obtain ⟨added, grown, -⟩ := append_grows written other.1 other.2
    obtain ⟨more, grown'⟩ := inductionHypothesis grown
    exact ⟨added ++ more, by simpa [appendAll, List.append_assoc] using grown'⟩

theorem has_spec {journal : Journal} {records : List (List UInt8)}
    (written : Written codec journal.bytes records) (id : String)
    (faults : HasFaults) : Written codec (has codec journal id faults).2.bytes records ∧
      ((has codec journal id faults).1 = some true →
      ∃ line ∈ records, idOf codec line = some id) := by
  have repaired : Written codec (repairTornTail journal).bytes records := by
    obtain ⟨torn, cut⟩ := written.cut
    rw [repairTornTail_spec cut]
    exact written.trim
  unfold has
  split
  · exact ⟨written, fun found => by cases found⟩
  · split
    · exact ⟨repaired, fun found => by cases found⟩
    · refine ⟨repaired, fun found => ?_⟩
      have found : (findID codec (repairTornTail journal).bytes id).isSome = true := by
        simpa using found
      obtain ⟨before, line, after, existing, split, read, own, -⟩ | ⟨-, none_⟩ :=
        findID_spec repaired id
      · refine ⟨line, by simp [split], ?_⟩
        rw [idOf, read, Option.map_some, own]
      · rw [none_] at found
        cases found

variable (parse) in
/-- What an emission does: it may add records, and it passes an event only if it is told of. -/
theorem emit_spec (ids : ∀ e, codec.id e = e.id) {s : MirrorState} {records : List (List UInt8)}
    (written : Written codec s.journal.bytes records) (c : MirrorConditions) (life : Life) :
    ∃ added more, Written codec (startLifeMirrorEmit codec parse c s life).1.journal.bytes
      (records ++ added) ∧
      (startLifeMirrorEmit codec parse c s life).1.skipped = s.skipped ++ more ∧
      ((startLifeMirrorEmit codec parse c s life).2 = true → (lifeMirrorKinds life.action).isSome →
        (∃ line ∈ records ++ added, idOf codec line = some (lifeID life.id)) ∨ ∃ error,
        error ≠ .unavailable ∧ (life.id, error) ∈ more) := by
  unfold startLifeMirrorEmit
  cases lifeMirrorKinds life.action with
  | none => exact ⟨[], [], by simpa using written, by simp, fun _ some_ => by cases some_⟩
  | some kind =>
    obtain ⟨added, before⟩ := appendAll_grows written c.before
    have asked := has_spec before (lifeID life.id) c.has
    dsimp only
    generalize has codec (appendAll codec s.journal c.before) (lifeID life.id) c.has =
      answer at asked ⊢
    obtain ⟨found, journal⟩ := answer
    obtain ⟨held, known⟩ := asked
    -- The journal is left as it was found.
    have stopped : ∃ added more, Written codec journal.bytes (records ++ added) ∧
      s.skipped = s.skipped ++ more ∧
        (false = true → (some kind).isSome →
          (∃ line ∈ records ++ added, idOf codec line = some (lifeID life.id)) ∨
          ∃ error, error ≠ .unavailable ∧ (life.id, error) ∈ more) :=
      ⟨added, [], held, by simp, fun never => by cases never⟩
    cases found with
    | none => exact stopped
    | some found =>
      cases found with
      | true => exact ⟨added, [], held, by simp, fun _ _ => Or.inl (known rfl)⟩
      | false =>
        dsimp only
        cases parse life.ts with
        | none => exact stopped
        | some at_ =>
          dsimp only
          cases (if c.cache.initialized then some c.cache.rows else c.seed) with
          | none => exact stopped
          | some roster =>
            obtain ⟨added', between⟩ := appendAll_grows held c.between
            obtain ⟨added'', after, ok⟩ :=
              append_grows between (mirrorEvent c life kind at_ roster) c.append
            -- The record is written under the id that `Has` was asked for.
            have own : codec.id (mirrorEvent c life kind at_ roster) = lifeID life.id := by
              rw [ids, mirrorEvent]
              split
              · rfl
              · split <;> rfl
            rw [own] at ok
            rw [List.append_assoc, List.append_assoc] at after ok
            dsimp only
            generalize append codec (appendAll codec journal c.between)
              (mirrorEvent c life kind at_ roster) c.append = ended at after ok ⊢
            obtain ⟨result, journal'⟩ := ended
            cases result with
            | ok receipt => exact ⟨_, [], after, by simp, fun _ _ => Or.inl (ok ⟨receipt, rfl⟩)⟩
            | error error =>
              cases error with
              | unavailable => exact ⟨_, [], after, by simp, fun never => by cases never⟩
              | invalid | tooLong | differs =>
                exact ⟨_, [_], after, rfl, fun _ _ =>
                  Or.inr ⟨_, by simp, List.mem_singleton.mpr rfl⟩⟩

theorem keeps_mirrored (ids : ∀ e, codec.id e = e.id) :
    (startLifeMirror codec parse).Keeps fun s emitted => ∃ records,
    Mirrored codec records s emitted where
  took c s emitted e life mirrored own passed := by
    obtain ⟨records, written, told⟩ := mirrored
    obtain ⟨added, more, grown, skipped, ended⟩ := emit_spec parse ids written c life
    have same : projectLife e = some life := own
    refine ⟨records ++ added, grown, fun other inside => ?_⟩
    show Told codec (records ++ added) (startLifeMirrorEmit codec parse c s life).1.skipped other
    rw [skipped]
    rcases List.mem_append.mp inside with early | last
    · exact (told other early).grow _ _
    · rw [List.mem_singleton.mp last]
      intro parsed own' mirrored
      rw [same] at own'
      cases own'
      obtain there | ⟨error, refused, inside⟩ := ended passed mirrored
      · exact Or.inl there
      · exact Or.inr ⟨error, refused, List.mem_append_right _ inside⟩
  failed c s emitted life mirrored _ := by
    obtain ⟨records, written, told⟩ := mirrored
    obtain ⟨added, more, grown, skipped, -⟩ := emit_spec parse ids written c life
    refine ⟨records ++ added, grown, fun other inside => ?_⟩
    show Told codec (records ++ added) (startLifeMirrorEmit codec parse c s life).1.skipped other
    rw [skipped]
    exact (told other inside).grow _ _

/-! ## Every run -/

variable {w : MirrorWorld}

theorem Kept.state (kept : Kept w) (state : MirrorState) :
    Kept { w with subscriber := { w.subscriber with state } } :=
  ⟨kept.numbered, kept.grounded, kept.ascending, kept.there, kept.behind⟩

theorem Since.state {base : Int} {before : List HcomEvent} (since : Since base before w)
    (state : MirrorState) :
    Since base before { w with subscriber := { w.subscriber with state } } :=
  ⟨since.initialized, since.positive, since.emitted⟩

/-- What holds of a serve at every moment. -/
structure Serving (codec : EventCodec Agents.Event) (w : MirrorWorld) : Prop where
  kept : Kept w
  mirrored : ∃ records, Mirrored codec records w.subscriber.state w.subscriber.emitted

variable (parse) in
theorem Serving.step (lawful : hcom.Lawful) (ids : ∀ e, codec.id e = e.id)
    (serving : Serving codec w) (action : MirrorAction)
    (numbered : Numbered (w.events ++ action.published)) :
    Serving codec (w.step hcom codec parse action) ∧
      Gained w (w.step hcom codec parse action) action.published := by
  obtain ⟨kept, records, written, told⟩ := serving
  cases action with
  | subscribed call =>
    obtain ⟨kept', gained⟩ := subscribe_kept (startLifeMirror codec parse) lawful call kept numbered
    exact ⟨⟨kept', (keeps_mirrored ids).subscribe call ⟨records, written, told⟩⟩, gained⟩
  | appended e faults =>
    obtain ⟨added, grown, -⟩ := append_grows written e faults
    refine ⟨⟨kept.state _, records ++ added, grown, fun other inside => ?_⟩,
      ⟨[], (List.append_nil _).symm, List.nil_sublist _⟩⟩
    have more := (told other inside).grow added []
    rwa [List.append_nil] at more
  | restarted crash =>
    have fresh : Kept (w.step hcom codec parse (.restarted crash)) :=
      ⟨kept.numbered, Or.inl rfl, List.Pairwise.nil, fun _ own => absurd own List.not_mem_nil,
        fun _ own => absurd own List.not_mem_nil⟩
    refine ⟨⟨fresh, ?_⟩, ⟨[], (List.append_nil _).symm, List.nil_sublist _⟩⟩
    cases crash with
    | none => exact ⟨records, written, fun _ own => absurd own List.not_mem_nil⟩
    | some kept_ =>
      have holds : JournalWorld.Holds codec ⟨w.subscriber.state.journal, []⟩ records :=
        ⟨written, fun _ _ inside => absurd inside List.not_mem_nil⟩
      obtain ⟨records', after⟩ := holds.crash (le_max_right kept_ w.subscriber.state.journal.synced)
      exact ⟨records', after.written, fun _ own => absurd own List.not_mem_nil⟩

variable (parse) in
theorem Serving.run (lawful : hcom.Lawful) (ids : ∀ e, codec.id e = e.id)
    (serving : Serving codec w) (actions : List MirrorAction)
    (numbered : Numbered (w.events ++ mirrorPublished actions)) :
    Serving codec (w.run hcom codec parse actions) ∧
      Gained w (w.run hcom codec parse actions) (mirrorPublished actions) := by
  induction actions generalizing w with
  | nil => exact ⟨serving, .refl _ _⟩
  | cons action rest inductionHypothesis =>
    have split : mirrorPublished (action :: rest) = action.published ++ mirrorPublished rest := rfl
    rw [split] at numbered ⊢
    have front : Numbered (w.events ++ action.published) := by
      rw [← List.append_assoc] at numbered
      exact numbered.front
    obtain ⟨own, gained⟩ := serving.step parse lawful ids action front
    obtain ⟨ended, gained'⟩ := inductionHypothesis own (gained.numbered numbered)
    exact ⟨ended, gained.trans gained'⟩

variable (parse) in
theorem run_since (lawful : hcom.Lawful) (ids : ∀ e, codec.id e = e.id) {base : Int}
    {before : List HcomEvent} (actions : List MirrorAction)
    (since : Since base before w) (serving : Serving codec w)
    (numbered : Numbered (w.events ++ mirrorPublished actions))
    (above : ∀ e ∈ mirrorPublished actions, base < e.key) (steady : w.Steady hcom codec parse actions) :
    Since base before (w.run hcom codec parse actions) := by
  induction actions generalizing w with
  | nil => exact since
  | cons action rest inductionHypothesis =>
    have split : mirrorPublished (action :: rest) = action.published ++ mirrorPublished rest := rfl
    rw [split] at numbered above
    have front : Numbered (w.events ++ action.published) := by
      rw [← List.append_assoc] at numbered
      exact numbered.front
    obtain ⟨own, gained⟩ := serving.step parse lawful ids action front
    have late : ∀ e ∈ mirrorPublished rest, base < e.key := fun e inside => above e (List.mem_append_right _ inside)
    cases action with
    | restarted crash => exact steady.elim
    | appended e faults => exact inductionHypothesis (since.state _) own (gained.numbered numbered) late steady
    | subscribed call =>
      have one : publishedBy [call] = call.published := List.append_nil _
      have next := calls_since lawful [call] since serving.kept
        (by rw [one]; exact front)
          (by rw [one]; exact fun e inside => above e (List.mem_append_left _ inside))
          ⟨steady.1, trivial⟩
      exact inductionHypothesis next own (gained.numbered numbered) late steady.2

/-- Whatever fails, whoever else appends, and however often the serve or its machine stops: no two
records of the
journal have one id, and each life event that the present serve has passed has its record or was
audited as skipped.
From any moment at which its subscription is initialized, while it stays up and no query leaves out
newer events,
that is so of every life event that the bus has after that moment's cursor, up to the cursor. -/
theorem mirrored_once (lawful : hcom.Lawful) (ids : ∀ e, codec.id e = e.id)
    {events : List HcomEvent} {first rest : List MirrorAction}
    (numbered : Numbered (events ++ mirrorPublished (first ++ rest)))
    (positive : ∀ e ∈ events ++ mirrorPublished (first ++ rest), 0 < e.key) :
    let middle := MirrorWorld.run hcom codec parse ⟨events, ⟨⟨0, false⟩, ⟨⟨[], 0⟩, []⟩, []⟩⟩ first
    let last :=
      MirrorWorld.run hcom codec parse ⟨events, ⟨⟨0, false⟩, ⟨⟨[], 0⟩, []⟩, []⟩⟩ (first ++ rest)
    ∃ records, Written codec last.subscriber.state.journal.bytes records ∧
      (∀ e ∈ last.subscriber.emitted, Told codec records last.subscriber.state.skipped e) ∧
      (middle.subscriber.cursor.initialized = true → middle.Steady hcom codec parse rest →
        ∀ e ∈ between Event.key last.events middle.subscriber.cursor.id last.subscriber.cursor.id,
          Told codec records last.subscriber.state.skipped e) := by
  intro middle last
  have start : Serving codec (⟨events, ⟨⟨0, false⟩, ⟨⟨[], 0⟩, []⟩, []⟩⟩ : MirrorWorld) :=
    ⟨⟨numbered.front, Or.inl rfl, List.Pairwise.nil, fun _ own => absurd own List.not_mem_nil,
      fun _ own => absurd own List.not_mem_nil⟩,
      [], ⟨⟨[], .empty⟩, by simp, by simp⟩, fun _ own => absurd own List.not_mem_nil⟩
  obtain ⟨⟨-, records, written, told⟩, -⟩ := start.run parse lawful ids (first ++ rest) numbered
  refine ⟨records, written, told, fun initialized steady e inside => told e ?_⟩
  have split : mirrorPublished (first ++ rest) = mirrorPublished first ++ mirrorPublished rest :=
    List.flatMap_append
  rw [split] at numbered positive
  have front : Numbered (events ++ mirrorPublished first) := by
    rw [← List.append_assoc] at numbered
    exact numbered.front
  obtain ⟨serving, gained⟩ := start.run parse lawful ids first front
  have numbered' := gained.numbered numbered
  obtain ⟨since, above⟩ := serving.kept.since initialized numbered' (gained.forall positive)
  have final : last = middle.run hcom codec parse rest := List.foldl_append
  obtain ⟨-, -, taken, following, emitted⟩ :=
    run_since parse lawful ids rest since serving numbered' above steady
  rw [← final] at following emitted
  rw [emitted, following.taken]
  exact List.mem_append_right _ inside

end

/-! ### A created agent -/

def septemberFirst : Agents.Time := ⟨63923817600000000000, by decide⟩

def createdLife : HcomEvent :=
  ⟨some 7,
  { ts := "2026-09-01T00:00:00Z", type := "life", instance_ := "riko", action := "created" }⟩

def createdEvent : Agents.Event :=
  { id := "1ee1d8a5-e6ab-839c-b7f6-f59de7423584", at_ := septemberFirst, kind := .mirrorCreated, byKind := some .mirror, name := "riko",
    hcomEvent := "7" }

def createdBody : List UInt8 :=
  bytesOf
    ("\x7b\"id\":\"1ee1d8a5-e6ab-839c-b7f6-f59de7423584\",\"at\":\"2026-09-01T00:00:00Z\",\"kind\":\"mirror.created\"," ++
    "\"by_kind\":\"mirror\",\"name\":\"riko\",\"hcom_event\":\"7\"\x7d")

/-- The journal's lines, where that event is the only one. -/
def createdCodec : EventCodec Agents.Event where
  id e := e.id
  valid e := e = createdEvent
  encode e := if e = createdEvent then some (createdBody ++ [newline]) else none
  decode line := if line = createdBody ++ [newline] then some createdEvent else none
  withAt e existing := { e with at_ := existing.at_ }
  whole e line written := by
    by_cases own : e = createdEvent
    · rw [if_pos own] at written
      rw [← Option.some.inj written]
      exact ⟨createdBody, rfl, by decide +kernel⟩
    · rw [if_neg own] at written
      cases written
  reads e line valid written := by
    have own : e = createdEvent := by simpa using valid
    rw [if_pos own] at written
    rw [← Option.some.inj written, if_pos rfl, own]
    exact ⟨createdEvent, rfl, rfl, rfl⟩

def readSeptember (ts : String) : Option Agents.Time :=
  if ts = "2026-09-01T00:00:00Z" then some septemberFirst else none

/-- The roster is empty, and this goes wrong in the append. -/
def mirrorFaults (append : AppendFaults) : MirrorConditions :=
  ⟨[], [], ⟨true, true, true⟩, .empty, .empty, some [], some [], append⟩

/-- An append that is cut, and the same event again. -/
def mirrorActions : List MirrorAction :=
  [.subscribed ⟨fine (mirrorFaults .none) [],
    [(.woken, fine (mirrorFaults { AppendFaults.none with synced := false }) [createdLife])]⟩,
    .subscribed ⟨fine (mirrorFaults .none) [], [(.woken, fine (mirrorFaults .none) [])]⟩]

def mirrorStart : List MirrorAction :=
  [.restarted (some 0), .subscribed ⟨fine (mirrorFaults .none) [], []⟩]

def mirrorWorld (actions : List MirrorAction) : MirrorWorld :=
  MirrorWorld.run newest createdCodec readSeptember ⟨[], ⟨⟨0, false⟩, ⟨⟨[], 0⟩, []⟩, []⟩⟩ actions

theorem mirrored_once_sample :
    ∃ records, Written createdCodec
      (mirrorWorld (mirrorStart ++ mirrorActions)).subscriber.state.journal.bytes records ∧
      Told createdCodec records [] createdLife := by
  have initialized : (mirrorWorld mirrorStart).subscriber.cursor.initialized = true := by
    decide +kernel
  have steady : (mirrorWorld mirrorStart).Steady newest createdCodec readSeptember mirrorActions :=
    ⟨⟨fun _ _ _ => by decide +kernel, fun _ => trivial⟩,
      ⟨fun _ _ _ => by decide +kernel, fun _ => trivial⟩, trivial⟩
  have passed : createdLife ∈ between Event.key (mirrorWorld (mirrorStart ++ mirrorActions)).events
      (mirrorWorld mirrorStart).subscriber.cursor.id
          (mirrorWorld (mirrorStart ++ mirrorActions)).subscriber.cursor.id := by
    decide +kernel
  have skipped : (mirrorWorld (mirrorStart ++ mirrorActions)).subscriber.state.skipped = [] := by
    decide +kernel
  rw [← skipped]
  unfold mirrorWorld at initialized steady passed ⊢
  obtain ⟨records, written, -, told⟩ :=
    @mirrored_once newest createdCodec readSeptember lawful_newest (fun _ => rfl) [] mirrorStart
    mirrorActions ⟨by decide +kernel, by decide +kernel⟩ (by decide +kernel)
  with_reducible exact ⟨records, written, told initialized steady createdLife passed⟩

end AiConfig.Herder.Bus
