import AiConfig.Herder.Agents.Sessions

/-! # What a journal keeps of an agent's records

Every part of `Apply` keeps the sessions of a record in order and goes on from what the record
has; so every journal does, in whatever order its times are. -/

namespace AiConfig.Herder.Agents

/-! ## Records -/

structure AgentView.Sound (v : AgentView) : Prop where
  /-- Only the newest session may be without an end. -/
  sessions : ∀ session ∈ v.sessions.tail, session.ended ≠ none
  managed : v.managerAt ≠ none → v.manager ≠ ""

/-- What a record was, it stays; a manager that was assigned is replaced by an assign that is not
earlier. -/
structure AgentView.Onward (assigns : Event → Prop) (v w : AgentView) : Prop where
  closed : ∀ time, v.closed = some time → w.closed = some time ∧ w.closeReason = v.closeReason
  launcher : v.provenance.launcher ≠ "" → v.provenance.launcherKind ≠ some .mirror →
    w.provenance.launcher = v.provenance.launcher ∧
      w.provenance.launcherKind = v.provenance.launcherKind
  manager : ∀ time, v.managerAt = some time →
    w.manager = v.manager ∧ w.managerBy = v.managerBy ∧ w.managerAt = some time ∨
      ∃ e, assigns e ∧ e.kind = .assign ∧ w.manager = e.manager ∧ w.managerBy = e.by_ ∧
        w.managerAt = some e.at_ ∧
        time ≤ e.at_

/-- What a part of the fold does to a record that has listed the event. -/
structure AgentView.Keeps (assigns : Event → Prop) (v w : AgentView) : Prop where
  sound : v.Sound → w.Sound
  onward : v.Sound → v.Onward assigns w
  events : w.events = v.events
  eventCount : w.eventCount = v.eventCount

variable {assigns : Event → Prop} {v w x : AgentView}

theorem AgentView.Onward.trans (first : v.Onward assigns w) (second : w.Onward assigns x) :
    v.Onward assigns x where
  closed time closed := by
    obtain ⟨closed', reason⟩ := first.closed time closed
    obtain ⟨closed'', reason'⟩ := second.closed time closed'
    exact ⟨closed'', reason'.trans reason⟩
  launcher named kind := by
    obtain ⟨launcher, kind'⟩ := first.launcher named kind
    obtain ⟨launcher', kind''⟩ := second.launcher (launcher ▸ named) (kind' ▸ kind)
    exact ⟨launcher'.trans launcher, kind''.trans kind'⟩
  manager time assigned := by
    cases first.manager time assigned with
    | inl same =>
      obtain ⟨manager, managerBy, managerAt⟩ := same
      rw [← manager, ← managerBy]
      exact second.manager time managerAt
    | inr replaced =>
      obtain ⟨e, assigns_e, kind, manager, managerBy, managerAt, later⟩ := replaced
      cases second.manager e.at_ managerAt with
      | inl same =>
        obtain ⟨manager', managerBy', managerAt'⟩ := same
        exact Or.inr ⟨e, assigns_e, kind, manager'.trans manager, managerBy'.trans managerBy,
          managerAt', later⟩
      | inr again =>
        obtain ⟨e', assigns_e', kind', manager', managerBy', managerAt', later'⟩ := again
        exact Or.inr ⟨e', assigns_e', kind', manager', managerBy', managerAt',
          Int.le_trans later later'⟩

theorem AgentView.Keeps.trans (first : v.Keeps assigns w) (second : w.Keeps assigns x) :
    v.Keeps assigns x where
  sound := fun sound => second.sound (first.sound sound)
  onward := fun sound => (first.onward sound).trans (second.onward (first.sound sound))
  events := second.events.trans first.events
  eventCount := second.eventCount.trans first.eventCount

theorem AgentView.Onward.mono {assigns' : Event → Prop} (onward : v.Onward assigns w)
    (more : ∀ e, assigns e → assigns' e) :
    v.Onward assigns' w where
  closed := onward.closed
  launcher := onward.launcher
  manager time assigned := by
    cases onward.manager time assigned with
    | inl same => exact Or.inl same
    | inr replaced =>
      obtain ⟨e, assigns_e, rest⟩ := replaced
      exact Or.inr ⟨e, more e assigns_e, rest⟩

/-- What the clauses read of a record, except the events. -/
structure AgentView.Core where
  closed : Option Time
  closeReason : String
  launcher : String
  launcherKind : Option Attribution
  manager : String
  managerBy : String
  managerAt : Option Time
  sessions : List SessionView

def AgentView.core (v : AgentView) : AgentView.Core :=
  ⟨v.closed, v.closeReason, v.provenance.launcher, v.provenance.launcherKind, v.manager,
    v.managerBy, v.managerAt, v.sessions⟩

theorem AgentView.sound_of_core (same : w.core = v.core) (sound : v.Sound) : w.Sound := by
  simp only [AgentView.core, AgentView.Core.mk.injEq] at same
  obtain ⟨-, -, -, -, manager, -, managerAt, sessions⟩ := same
  exact ⟨sessions ▸ sound.sessions, by rw [managerAt, manager]; exact sound.managed⟩

theorem AgentView.onward_of_core (same : w.core = v.core) : v.Onward assigns w := by
  simp only [AgentView.core, AgentView.Core.mk.injEq] at same
  obtain ⟨closed, closeReason, launcher, launcherKind, manager, managerBy, managerAt, -⟩ := same
  refine ⟨fun time own => ⟨closed.trans own, closeReason⟩, fun _ _ => ⟨launcher, launcherKind⟩,
    fun time own => Or.inl ?_⟩
  exact ⟨manager, managerBy, managerAt.trans own⟩

/-- A change of something else. -/
theorem AgentView.Keeps.plain (same : w.core = v.core) (events : w.events = v.events)
    (eventCount : w.eventCount = v.eventCount) : v.Keeps assigns w :=
  ⟨sound_of_core same, fun _ => onward_of_core same, events, eventCount⟩

theorem AgentView.Keeps.refl : v.Keeps assigns v := .plain rfl rfl rfl

/-! ## Parts of `Apply` -/

theorem AgentView.seen_core (v : AgentView) (e : Event) : (v.seen e).core = v.core := by
  simp only [AgentView.seen]
  split <;> split <;> rfl

theorem AgentView.keeps_setLauncher (v : AgentView) (launcher : String) (kind : Attribution) :
    v.Keeps assigns (v.setLauncher launcher kind) := by
  rw [AgentView.setLauncher]
  split
  · exact .refl
  · next named =>
    split
    · exact .refl
    · next weaker =>
      -- a manager that was assigned is not empty and has a time, so the launcher does not take its
      -- place
      have stays : v.Sound → v.managerAt ≠ none →
          ¬(v.manager = "" ∨ v.managerAt = none ∧ v.manager = v.provenance.launcher) := by
        rintro sound assigned (empty | ⟨unassigned, -⟩)
        · exact sound.managed assigned empty
        · exact assigned unassigned
      constructor
      · intro sound
        refine ⟨sound.sessions, fun assigned => ?_⟩
        show (if _ then launcher else v.manager) ≠ ""
        rw [if_neg (stays sound assigned)]
        exact sound.managed assigned
      · intro sound
        refine ⟨fun time own => ⟨own, rfl⟩, fun recorded strong => ?_, fun time own =>
          Or.inl ⟨?_, rfl, own⟩⟩
        · exact absurd ⟨recorded, fun mirrored => strong mirrored.1⟩ weaker
        · show (if _ then launcher else v.manager) = v.manager
          rw [if_neg (stays sound (by simp [own]))]
      · rfl
      · rfl

theorem AgentView.keeps_closeAt (v : AgentView) (time : Time) (reason : String) :
    v.Keeps assigns (v.closeAt time reason) := by
  rw [AgentView.closeAt]
  split
  · next running =>
    constructor
    · exact fun sound => ⟨sound.sessions, sound.managed⟩
    · refine fun sound => ⟨fun time own => ?_, fun _ _ => ⟨rfl, rfl⟩, fun time own =>
        Or.inl ⟨rfl, rfl, own⟩⟩
      rw [running] at own
      cases own
    · rfl
    · rfl
  · exact .refl

/-- Other sessions, of which only the newest may be without an end. -/
theorem AgentView.Keeps.withSessions {sessions : List SessionView}
    (ended : (∀ session ∈ v.sessions.tail, session.ended ≠ none) →
    ∀ session ∈ sessions.tail, session.ended ≠ none) :
    v.Keeps assigns { v with sessions := sessions } where
  sound := fun sound => ⟨ended sound.sessions, sound.managed⟩
  onward :=
    fun _ => ⟨fun _ own => ⟨own, rfl⟩, fun _ _ => ⟨rfl, rfl⟩, fun _ own => Or.inl ⟨rfl, rfl, own⟩⟩
  events := rfl
  eventCount := rfl

theorem SessionView.endAt_ended (session : SessionView) (time : Time) (reason : String) :
    (session.endAt time reason).ended ≠ none := by
  rw [SessionView.endAt]
  split
  · simp
  · assumption

theorem AgentView.keeps_endSession (v : AgentView) (time : Time) (reason : String) :
    v.Keeps assigns (v.endSession time reason) := by
  rw [AgentView.endSession]
  split
  · exact .refl
  · next first rest held =>
    apply AgentView.Keeps.withSessions
    rw [held]
    exact id

theorem AgentView.keeps_pushSession (v : AgentView) (id tool path : String) (time : Time) :
    v.Keeps assigns (v.pushSession id tool path time) := by
  have ended : v.Keeps assigns (v.endSession time "superseded") := v.keeps_endSession time _
  refine ended.trans (.withSessions fun older session inside => ?_)
  cases held : v.sessions with
  | nil => simp [AgentView.endSession, held] at inside
  | cons first rest =>
    simp only [AgentView.endSession, held, List.tail_cons] at older
    simp only [List.tail_cons, AgentView.endSession, held, List.mem_cons] at inside
    obtain rfl | before := inside
    · exact first.endAt_ended time _
    · exact older session before

theorem AgentView.keeps_openSession (v : AgentView) (id tool path : String) (time : Time) :
    v.Keeps assigns (v.openSession id tool path time) := by
  rw [AgentView.openSession]
  split
  · exact v.keeps_pushSession id tool path time
  · next first rest held =>
    split
    · split
      · apply AgentView.Keeps.withSessions
        rw [held]
        exact fun ended => ended
      · exact .refl
    · exact v.keeps_pushSession id tool path time

theorem endNamed_ended {id : String} {time : Time} {reason : String} {sessions : List SessionView}
    (ended : ∀ session ∈ sessions, session.ended ≠ none) :
    ∀ session ∈ endNamed id time reason sessions, session.ended ≠ none := by
  induction sessions with
  | nil => exact ended
  | cons first rest inductionHypothesis =>
    intro session inside
    rw [endNamed] at inside
    split at inside
    · cases List.mem_cons.mp inside with
      | inl same => exact same ▸ first.endAt_ended time reason
      | inr older => exact ended session (List.mem_cons_of_mem _ older)
    · cases List.mem_cons.mp inside with
      | inl same => exact same ▸ ended first List.mem_cons_self
      | inr older => exact inductionHypothesis (fun other within => ended other (List.mem_cons_of_mem _ within)) session older

theorem AgentView.keeps_endNamedSession (v : AgentView) (id : String) (time : Time) (reason : String) :
    v.Keeps assigns (v.endNamedSession id time reason) := by
  apply AgentView.Keeps.withSessions (v := v)
  intro ended
  cases held : v.sessions with
  | nil => simp [endNamed]
  | cons first rest =>
    rw [held] at ended
    rw [endNamed]
    split
    · exact ended
    · exact endNamed_ended ended

theorem AgentView.keeps_assignManager (v : AgentView) {e : Event} (kind : e.kind = .assign)
    (own : assigns e) :
    v.Keeps assigns (v.assignManager e) := by
  rw [AgentView.assignManager]
  split
  · next takes =>
    simp only [Bool.and_eq_true, decide_eq_true_eq] at takes
    obtain ⟨named, latest⟩ := takes
    constructor
    · exact fun sound => ⟨sound.sessions, fun _ => named⟩
    · refine fun sound => ⟨fun _ closed => ⟨closed, rfl⟩, fun _ _ => ⟨rfl, rfl⟩,
        fun time assigned => Or.inr ?_⟩
      refine ⟨e, own, kind, rfl, rfl, rfl, ?_⟩
      simpa [Agents.latest, assigned] using latest
    · rfl
    · rfl
  · exact .refl

theorem AgentView.keeps_assignGroup (v : AgentView) (e : Event) :
    v.Keeps assigns (v.assignGroup e) := by
  rw [AgentView.assignGroup]
  split <;> exact .plain rfl rfl rfl

theorem AgentView.keeps_assignLane (v : AgentView) (e : Event) :
    v.Keeps assigns (v.assignLane e) := by
  rw [AgentView.assignLane]
  split <;> exact .plain rfl rfl rfl

theorem AgentView.keeps_setPane (v : AgentView) (pane : String) :
    v.Keeps assigns (v.setPane pane) := by
  rw [AgentView.setPane]
  split <;> exact .plain rfl rfl rfl

theorem Provenance.place_launcher (provenance : Provenance) (placement : Option Placement) :
    (provenance.place placement).launcher = provenance.launcher ∧
      (provenance.place placement).launcherKind = provenance.launcherKind := by
  cases placement <;> exact ⟨rfl, rfl⟩

theorem AgentView.keeps_absorb (v : AgentView) (src : Event) : v.Keeps assigns (v.absorb src) := by
  refine AgentView.Keeps.plain ?_ rfl rfl
  simp only [AgentView.core, AgentView.absorb, Provenance.place_launcher]

theorem AgentView.keeps_inherit (v : AgentView) (requested : Event) :
    v.Keeps assigns (v.inherit requested) := by
  have stamped : ∀ w : AgentView, w.Keeps assigns
      { w with provenance := { w.provenance with request := requested.id, requestedAt := some requested.at_ } } :=
    fun _ => .plain rfl rfl rfl
  exact ((v.keeps_absorb requested).trans (stamped _)).trans (AgentView.keeps_setLauncher _ _ _)

theorem AgentView.keeps_launchReady (v : AgentView) (request : Option RequestRecord) (e : Event) :
    v.Keeps assigns (v.launchReady request e) := by
  have registered : v.Keeps assigns v.registered := .plain rfl rfl rfl
  have launched := fun (w : AgentView) (inherited : v.Keeps assigns w) =>
    (inherited.trans (AgentView.keeps_absorb w e)).trans
      (AgentView.keeps_setLauncher _ e.by_ e.launcherKindOf)
  cases request with
  | none =>
    simp only [AgentView.launchReady]
    split
    · refine AgentView.Keeps.trans ?_ (AgentView.keeps_openSession _ _ _ _ _)
      exact (launched _ registered).trans (.plain rfl rfl rfl)
    · exact (launched _ registered).trans (.plain rfl rfl rfl)
  | some request =>
    have inherited := registered.trans (AgentView.keeps_inherit _ request.requested)
    simp only [AgentView.launchReady]
    split
    · refine AgentView.Keeps.trans ?_ (AgentView.keeps_openSession _ _ _ _ _)
      exact (launched _ inherited).trans (.plain rfl rfl rfl)
    · exact (launched _ inherited).trans (.plain rfl rfl rfl)

theorem AgentView.keeps_resume (v : AgentView) (e : Event) : v.Keeps assigns (v.resume e) := by
  have registered : v.Keeps assigns v.registered := .plain rfl rfl rfl
  refine AgentView.Keeps.trans (w := _) ?_ (AgentView.keeps_setPane _ e.pane)
  dsimp only
  split
  · exact registered
  · have ended : v.Keeps assigns
        (if firstNonEmpty [e.fromSession, currentSession v.registered] ≠ "" then
          v.registered.endSession e.at_ "resumed"
        else v.registered) := by
      split
      · exact registered.trans (AgentView.keeps_endSession _ _ _)
      · exact registered
    split
    · exact ended.trans (AgentView.keeps_openSession _ _ _ _ _)
    · exact ended

theorem AgentView.keeps_fork (v : AgentView) (e : Event) : v.Keeps assigns (v.fork e) := by
  have named : v.Keeps assigns { v.registered with fromName := e.fromName } := .plain rfl rfl rfl
  have placed := (named.trans (AgentView.keeps_setLauncher _ e.by_ (e.byKind.getD .agent))).trans
    (AgentView.keeps_setPane _ e.pane)
  simp only [AgentView.fork]
  split
  · exact placed.trans (.plain rfl rfl rfl)
  · exact placed

theorem AgentView.keeps_mirror (v : AgentView) (e : Event) : v.Keeps assigns (v.mirror e) := by
  unfold AgentView.mirror
  extract_lets _ kinded launched parented stated
  have kind : v.Keeps assigns kinded := by
    show v.Keeps assigns (if _ then _ else _)
    split <;> exact .plain rfl rfl rfl
  have launcher : v.Keeps assigns launched := kind.trans (kinded.keeps_setLauncher e.by_ .mirror)
  have parent : launched.Keeps assigns parented := by
    show launched.Keeps assigns (if _ then _ else _)
    split <;> exact .plain rfl rfl rfl
  have state : parented.Keeps assigns stated := by
    show parented.Keeps assigns (if _ then _ else _)
    split <;> exact .plain rfl rfl rfl
  have whole := (launcher.trans parent).trans state
  split
  · exact whole.trans (stated.keeps_openSession _ _ _ _)
  · exact whole

theorem AgentView.keeps_fold (v : AgentView) (request : Option RequestRecord) {e : Event} (own : assigns e) :
    v.Keeps assigns (v.fold request e) := by
  have state : ∀ (w : AgentView) (state : LifeState), w.Keeps assigns (w.setState state) := fun _ _ => .plain rfl rfl rfl
  rw [AgentView.fold.eq_def]
  cases kind : e.kind with
  | launchRequested =>
    have registered : v.Keeps assigns v.registered := .plain rfl rfl rfl
    refine AgentView.Keeps.trans ?_ (AgentView.keeps_setLauncher _ e.by_ e.launcherKindOf)
    exact (registered.trans (AgentView.keeps_absorb _ e)).trans (.plain rfl rfl rfl)
  | launchReady => exact v.keeps_launchReady request e
  | launchFailed => exact (state v .failed).trans (AgentView.keeps_closeAt _ _ _)
  | culled => exact ((state v .culled).trans (AgentView.keeps_closeAt _ _ _)).trans (AgentView.keeps_endSession _ _ _)
  | resume => exact v.keeps_resume e
  | fork => exact v.keeps_fork e
  | assign =>
    exact ((v.keeps_assignGroup e).trans (AgentView.keeps_assignLane _ e)).trans (AgentView.keeps_assignManager _ kind own)
  | annotate => exact .plain rfl rfl rfl
  | mirrorCreated => exact v.keeps_mirror e
  | mirrorReady => exact v.keeps_mirror e
  | mirrorBatch => exact v.keeps_mirror e
  | mirrorStopped =>
    exact ((state v .stopped).trans (AgentView.keeps_closeAt _ _ _)).trans
      (AgentView.keeps_endSession _ _ _)
  | sessionObserved => exact v.keeps_openSession _ _ _ _
  | sessionEnded => exact v.keeps_endNamedSession _ _ _
  | sessionSupersede => exact v.keeps_endNamedSession _ _ _
  | cullRequested => exact .refl
  | compactRequested => exact .refl
  | laneCreated => exact .refl
  | laneUpdated => exact .refl
  | laneLink => exact .refl

/-! ## The events of a record -/

/-- The record has counted these events and lists the last of them. -/
structure AgentView.Lists (own : List Event) (v : AgentView) : Prop where
  count : v.eventCount = own.length
  last : v.events = own.drop (own.length - min own.length eventsKept)

theorem AgentView.Lists.seen {own : List Event} (lists : v.Lists own) (e : Event) :
    (v.seen e).Lists (own ++ [e]) := by
  have count : (v.seen e).eventCount = v.eventCount + 1 := by
    simp only [AgentView.seen]
    split <;> split <;> rfl
  have events :
      (v.seen e).events = (v.events ++ [e]).drop ((v.events ++ [e]).length - eventsKept) := by
    simp only [AgentView.seen]
    split <;> split <;> rfl
  constructor
  · rw [count, lists.count, List.length_append, List.length_singleton]
  · rw [events, lists.last]
    by_cases few : own.length ≤ eventsKept
    · rw [Nat.min_eq_left few, Nat.sub_self, List.drop_zero]
      congr 1
      omega
    · have kept : own.length - min own.length eventsKept = own.length - eventsKept := by omega
      have tail : own.drop (own.length - eventsKept) ++ [e] =
          (own ++ [e]).drop (own.length - eventsKept) := by
        rw [List.drop_append_of_le_length (by omega)]
      rw [kept, tail, List.drop_drop]
      congr 1
      simp only [List.length_drop, List.length_append, List.length_singleton, eventsKept] at few ⊢
      omega

theorem AgentView.Keeps.lists {own : List Event} (keeps : v.Keeps assigns w) (lists : v.Lists own) :
    w.Lists own :=
  ⟨keeps.eventCount.trans lists.count, keeps.events.trans lists.last⟩

/-! ## Projections -/

/-- An event belongs to the latest record, or to a new one after records that are closed. -/
theorem record_cases (views : List AgentView) (e : Event) :
    (∃ earlier v, views = earlier ++ [v] ∧ record views e = (earlier, v)) ∨
      (∀ v ∈ views.getLast?, v.closed ≠ none) ∧
        record views e =
          (views,
          { name := e.name, incarnation := e.at_, firstSeen := e.at_, lastSeen := e.at_ }) := by
  obtain rfl | ⟨earlier, v, rfl⟩ := List.eq_nil_or_concat' views
  · exact Or.inr ⟨by simp, rfl⟩
  · rw [record]
    simp only [List.getLast?_concat, List.dropLast_concat]
    split
    · exact Or.inl ⟨earlier, v, rfl, rfl⟩
    · next other =>
      rw [not_or] at other
      exact Or.inr ⟨by simpa using other.1, rfl⟩

/-- The record that an event belongs to, by its agent's name and place. -/
def Projection.owner (p : Projection) (e : Event) : Option (String × Nat) :=
  if e.kind.isLane || e.name = "" then none else some (e.name, (record (p.views e.name) e).1.length)

theorem views_applyOne (p : Projection) (e : Event) (name : String) :
    (p.applyOne e).views name = p.views name ∧ (∀ i, p.owner e ≠ some (name, i)) ∨
      e.name = name ∧ p.owner e = some (name, (record (p.views name) e).1.length) ∧
        (p.applyOne e).views name = (record (p.views name) e).1 ++
          [((record (p.views name) e).2.seen e).fold
          ((p.request e).requests.lookup e.request) e] := by
  have views : (p.request e).views = p.views := by
    rw [Projection.request]
    split <;> rfl
  rw [Projection.applyOne, Projection.owner]
  by_cases lane : e.kind.isLane = true
  · left
    rw [if_pos lane]
    exact ⟨congrFun views name, by simp [lane]⟩
  · by_cases unnamed : e.name = ""
    · left
      rw [if_neg lane, if_pos unnamed]
      refine ⟨?_, by simp [unnamed]⟩
      rw [← views, Projection.applyUnnamed.eq_def]
      split
      · rfl
      all_goals first | rfl | (split <;> rfl)
    · rw [if_neg lane, if_neg unnamed, Projection.applyNamed, views]
      by_cases own : e.name = name
      · right
        subst own
        refine ⟨rfl, by simp [lane, unnamed], ?_⟩
        simp [Projection.views]
      · left
        refine ⟨?_, by simp [own]⟩
        rw [Projection.views]
        dsimp only
        rw [Finmap.lookup_insert_of_ne _ (Ne.symm own), ← views]
        rfl

structure Projection.WellFormed (p : Projection) (own : String → Nat → List Event) : Prop where
  closed : ∀ name, ∀ v ∈ (p.views name).dropLast, v.closed ≠ none
  records : ∀ name i (v : AgentView), (p.views name)[i]? = some v → v.Sound ∧ v.Lists (own name i)
  beyond : ∀ name i, (p.views name).length ≤ i → own name i = []

/-- The events of each record, and the one that has come. -/
def addTo (owner : Option (String × Nat)) (e : Event) (own : String → Nat → List Event) :
    String → Nat → List Event :=
  fun name i => own name i ++ if owner = some (name, i) then [e] else []

theorem sound_new (e : Event) :
    AgentView.Sound
      { name := e.name, incarnation := e.at_, firstSeen := e.at_, lastSeen := e.at_ } :=
  ⟨by simp, by simp⟩

theorem lists_new (e : Event) :
    AgentView.Lists []
      { name := e.name, incarnation := e.at_, firstSeen := e.at_, lastSeen := e.at_ } :=
  ⟨rfl, rfl⟩

theorem Projection.WellFormed.applyOne {p : Projection} {own : String → Nat → List Event}
    (wellFormed : p.WellFormed own)
    (e : Event) : (p.applyOne e).WellFormed (addTo (p.owner e) e own) := by
  -- what the name's views become, by the record that the event belongs to
  have step : ∀ name,
      (∀ v ∈ ((p.applyOne e).views name).dropLast, v.closed ≠ none) ∧
      (∀ i (v : AgentView), ((p.applyOne e).views name)[i]? = some v → v.Sound ∧
        v.Lists (addTo (p.owner e) e own name i)) ∧
      ∀ i, ((p.applyOne e).views name).length ≤ i → addTo (p.owner e) e own name i = [] := by
    intro name
    obtain ⟨views, apart⟩ | ⟨agent, owner, views⟩ := views_applyOne p e name
    · have same : ∀ i, addTo (p.owner e) e own name i = own name i :=
        fun i => by simp [addTo, apart i]
      simp only [views, same]
      exact ⟨wellFormed.closed name, wellFormed.records name, wellFormed.beyond name⟩
    · have parts : (∀ v ∈ (record (p.views name) e).1, v.closed ≠ none) ∧
          (∀ (i : Nat) (v : AgentView), (record (p.views name) e).1[i]? = some v →
            (p.views name)[i]? = some v) ∧
          (record (p.views name) e).2.Sound ∧
          (record (p.views name) e).2.Lists (own name (record (p.views name) e).1.length) ∧
          ∀ i, (record (p.views name) e).1.length < i → own name i = [] := by
        obtain ⟨earlier, v, split, kept⟩ | ⟨closed, opened⟩ := record_cases (p.views name) e
        · have last := wellFormed.records name earlier.length v (by simp [split])
          rw [kept]
          refine ⟨?_, fun i w found => ?_, last.1, last.2, fun i above =>
            wellFormed.beyond name i ?_⟩
          · have closed := wellFormed.closed name
            rw [split, List.dropLast_concat] at closed
            exact closed
          · rw [split, List.getElem?_append_left (List.getElem?_eq_some_iff.mp found).1]
            exact found
          · rw [split, List.length_append, List.length_singleton]
            exact above
        · rw [opened]
          refine ⟨fun v inside => ?_, fun _ _ found => found, sound_new e, ?_, fun i above => ?_⟩
          · obtain none | ⟨earlier, latest, split⟩ := List.eq_nil_or_concat' (p.views name)
            · rw [none] at inside
              cases inside
            · have older := wellFormed.closed name
              rw [split, List.dropLast_concat] at older
              rw [split] at inside closed
              cases List.mem_append.mp inside with
              | inl before => exact older v before
              | inr last =>
                rw [List.mem_singleton.mp last]
                exact closed latest (by simp)
          · rw [wellFormed.beyond name _ le_rfl]
            exact lists_new e
          · exact wellFormed.beyond name i (Nat.le_of_lt above)
      obtain ⟨closed, older, sound, lists, beyond⟩ := parts
      generalize (record (p.views name) e).1 = earlier at *
      generalize (record (p.views name) e).2 = v at *
      generalize (p.request e).requests.lookup e.request = request at views
      have folded : (v.seen e).Keeps (fun _ => True) ((v.seen e).fold request e) :=
        (v.seen e).keeps_fold request trivial
      have sound' : ((v.seen e).fold request e).Sound :=
        folded.sound (AgentView.sound_of_core (v.seen_core e) sound)
      rw [views, List.dropLast_concat]
      refine ⟨closed, fun i w found => ?_, fun i above => ?_⟩
      · rw [List.getElem?_append] at found
        split at found
        · next inside =>
          have other : p.owner e ≠ some (name, i) := by
            rw [owner]
            simp only [ne_eq, Option.some.injEq, Prod.mk.injEq, true_and]
            omega
          rw [addTo, if_neg other, List.append_nil]
          exact wellFormed.records name i w (older i w found)
        · next outside =>
          have last : i = earlier.length := by
            have bound := (List.getElem?_eq_some_iff.mp found).1
            simp only [List.length_singleton] at bound
            omega
          subst last
          simp only [Nat.sub_self, List.getElem?_cons_zero, Option.some.injEq] at found
          rw [addTo, if_pos owner, ← found]
          exact ⟨sound', folded.lists (lists.seen e)⟩
      · rw [List.length_append, List.length_singleton] at above
        have other : p.owner e ≠ some (name, i) := by
          rw [owner]
          simp only [ne_eq, Option.some.injEq, Prod.mk.injEq, true_and]
          omega
        rw [addTo, if_neg other, List.append_nil]
        exact beyond i above
  exact ⟨fun name => (step name).1, fun name => (step name).2.1, fun name => (step name).2.2⟩

/-- The events of a journal one by one, a batch's instances before it. -/
def applied (journal : List Event) : List Event := journal.flatMap fun e => e.children ++ [e]

/-- The events that belong to a record. -/
def eventsOf (name : String) (i : Nat) : Projection → List Event → List Event
  | _, [] => []
  | p, e :: rest => (if p.owner e = some (name, i) then [e] else []) ++
      eventsOf name i (p.applyOne e) rest

theorem Projection.WellFormed.run {p : Projection} {own : String → Nat → List Event}
    (wellFormed : p.WellFormed own)
    (events : List Event) :
    (events.foldl Projection.applyOne p).WellFormed fun name i =>
    own name i ++ eventsOf name i p events := by
  induction events generalizing p own with
  | nil => simpa [eventsOf] using wellFormed
  | cons e rest inductionHypothesis =>
    have step := inductionHypothesis (wellFormed.applyOne e)
    simp only [addTo, List.append_assoc] at step
    exact step

end AiConfig.Herder.Agents
