import AiConfig.Herder.Agents.Snapshot

/-! # Facts after a manager repair

A replay repairs managers at its end, a snapshot holds them repaired before its tail.  On a
record that a user launched, facts and the repair commute: the repair gives way to an
assignment, and nothing else reads the manager. -/

namespace AiConfig.Herder.Agents

open AiConfig.Lib

/-! ## Records -/

def AgentView.withManager (v : AgentView) (manager : String) : AgentView := { v with manager }

/-- Another manager, where no assignment gave one. -/
def AgentView.remanage (v : AgentView) (manager : Option String) : AgentView :=
  if v.managerAt = none then v.withManager (manager.getD v.manager) else v

/-- No fact changes the launcher any more. -/
structure AgentView.Fixed (v : AgentView) : Prop where
  launcher : v.provenance.launcher ≠ ""
  kind : v.provenance.launcherKind = some .user

def AgentView.Attributed (v : AgentView) : Prop :=
  v.provenance.launcherKind ≠ none → v.provenance.launcher ≠ ""

theorem AgentView.remanage_none (v : AgentView) : v.remanage none = v := by
  simp [remanage, withManager]

theorem AgentView.remanage_provenance (v : AgentView) (manager : Option String) :
    (v.remanage manager).provenance = v.provenance := by
  rw [remanage]
  split <;> rfl

theorem AgentView.Fixed.remanage {v : AgentView} (fixed : v.Fixed) (manager : Option String) :
    (v.remanage manager).Fixed := by
  constructor
  · rw [v.remanage_provenance]
    exact fixed.launcher
  · rw [v.remanage_provenance]
    exact fixed.kind

/-- A record and what the repair makes of it. -/
structure Along (manager : Option String) (v w : AgentView) : Prop where
  attributed : v.Attributed
  fixed : manager ≠ none → v.Fixed
  view : w = v.remanage manager

variable {m : Option String} {v w : AgentView}

/-- What is read of a record, except its manager, is read of the other. -/
theorem Along.same (along : Along m v w) {α : Type} {read : AgentView → α}
    (alike : ∀ v manager, read (v.withManager manager) = read v) : read w = read v := by
  rw [along.view, AgentView.remanage]
  split
  · exact alike v _
  · rfl

/-- A part that touches neither the launcher nor the manager. -/
theorem Along.plain (along : Along m v w) (f : AgentView → AgentView)
    (managerAt : (f v).managerAt = v.managerAt)
    (launcher : (f v).provenance.launcher = v.provenance.launcher)
    (kind : (f v).provenance.launcherKind = v.provenance.launcherKind)
    (manager : ∀ m, f (v.withManager m) = (f v).withManager m) : Along m (f v) (f w) where
  attributed := by
    rw [AgentView.Attributed, launcher, kind]
    exact along.attributed
  fixed given := by
    constructor
    · rw [launcher]
      exact (along.fixed given).launcher
    · rw [kind]
      exact (along.fixed given).kind
  view := by
    have same : (f (v.withManager v.manager)).manager = v.manager := by
      rw [manager v.manager]
      rfl
    change (f v).manager = v.manager at same
    rw [along.view, AgentView.remanage, AgentView.remanage, managerAt, same]
    split
    · exact manager _
    · rfl

/-- A choice by what is read, except the manager. -/
theorem Along.ite (along : Along m v w) (p : AgentView → Prop) [DecidablePred p]
    (alike : ∀ v manager, p (v.withManager manager) = p v) {yes no yes' no' : AgentView}
    (ifYes : Along m yes yes')
    (ifNo : Along m no no') : Along m (if p v then yes else no) (if p w then yes' else no') := by
  have same : p w = p v := along.same alike
  simp only [same]
  split
  · exact ifYes
  · exact ifNo

/-! ## The parts of `Apply` -/

theorem Along.closeAt (along : Along m v w) (time : Time) (reason : String) :
    Along m (v.closeAt time reason) (w.closeAt time reason) :=
  along.ite (fun v => v.closed = none) (fun _ _ => rfl)
    (along.plain (fun v => { v with closed := some time, closeReason := reason }) rfl rfl rfl
      fun _ => rfl) along

theorem Along.setSessions (along : Along m v w) (sessions : List SessionView) :
    Along m { v with sessions } { w with sessions } :=
  along.plain (fun v => { v with sessions }) rfl rfl rfl fun _ => rfl

theorem Along.endSession (along : Along m v w) (time : Time) (reason : String) :
    Along m (v.endSession time reason) (w.endSession time reason) := by
  have sessions : w.sessions = v.sessions := along.same fun _ _ => rfl
  rw [AgentView.endSession, AgentView.endSession, sessions]
  cases v.sessions with
  | nil => exact along
  | cons first rest => exact along.setSessions _

theorem Along.pushSession (along : Along m v w) (id tool path : String) (time : Time) :
    Along m (v.pushSession id tool path time) (w.pushSession id tool path time) := by
  have ended := along.endSession time "superseded"
  have sessions :
      (w.endSession time "superseded").sessions = (v.endSession time "superseded").sessions :=
    ended.same fun _ _ => rfl
  rw [AgentView.pushSession, AgentView.pushSession, sessions]
  exact ended.setSessions _

theorem Along.openSession (along : Along m v w) (id tool path : String) (time : Time) :
    Along m (v.openSession id tool path time) (w.openSession id tool path time) := by
  have sessions : w.sessions = v.sessions := along.same fun _ _ => rfl
  rw [AgentView.openSession, AgentView.openSession, sessions]
  cases v.sessions with
  | nil => exact along.pushSession id tool path time
  | cons first rest =>
    dsimp only
    split
    · split
      · exact along.setSessions _
      · exact along
    · exact along.pushSession id tool path time

theorem Along.endNamedSession (along : Along m v w) (id : String) (time : Time) (reason : String) :
    Along m (v.endNamedSession id time reason) (w.endNamedSession id time reason) :=
  along.plain (fun v => v.endNamedSession id time reason) rfl rfl rfl fun _ => rfl

theorem Along.seen (along : Along m v w) (e : Event) : Along m (v.seen e) (w.seen e) := by
  have counted := along.plain
    (fun v => { v with
      eventCount := v.eventCount + 1, events :=
        (v.events ++ [e]).drop ((v.events ++ [e]).length - eventsKept) })
    rfl rfl rfl fun _ => rfl
  have last := counted.ite (fun v => v.lastSeen < e.at_) (fun _ _ => rfl)
    (counted.plain (fun v => { v with lastSeen := e.at_ }) rfl rfl rfl fun _ => rfl) counted
  exact last.ite (fun v => e.at_ < v.firstSeen) (fun _ _ => rfl)
    (last.plain (fun v => { v with firstSeen := e.at_, incarnation := e.at_ }) rfl rfl rfl fun _ =>
      rfl) last

theorem Along.setLauncher (along : Along m v w) (launcher : String) (kind : Attribution) :
    Along m (v.setLauncher launcher kind) (w.setLauncher launcher kind) := by
  cases m with
  | none =>
    obtain rfl : w = v := along.view.trans v.remanage_none
    have attributed : (w.setLauncher launcher kind).Attributed := by
      rw [AgentView.setLauncher]
      split
      · exact along.attributed
      · split
        · exact along.attributed
        · rename_i given _
          exact fun _ => given
    exact ⟨attributed, fun given => absurd rfl given, (AgentView.remanage_none _).symm⟩
  | some manager =>
    -- The launcher is a user, and stays.
    have stays : ∀ v : AgentView, v.Fixed → v.setLauncher launcher kind = v := by
      intro v fixed
      have kept : v.provenance.launcher ≠ "" ∧
          ¬(v.provenance.launcherKind = some .mirror ∧ kind ≠ .mirror) := by
        refine ⟨fixed.launcher, ?_⟩
        rw [fixed.kind]
        simp
      rw [AgentView.setLauncher, if_pos kept, ite_self]
    have fixed := along.fixed (by simp)
    have other : w.Fixed := along.view ▸ fixed.remanage (some manager)
    rw [stays v fixed, stays w other]
    exact along

theorem Along.registered (along : Along m v w) : Along m v.registered w.registered :=
  along.plain AgentView.registered rfl rfl rfl fun _ => rfl

theorem Along.absorb (along : Along m v w) (src : Event) :
    Along m (v.absorb src) (w.absorb src) := by
  refine along.plain (fun v => v.absorb src) rfl ?_ ?_ fun _ => rfl
  all_goals
    rw [AgentView.absorb]
    cases src.placement <;> rfl

theorem Along.inherit (along : Along m v w) (requested : Event) :
    Along m (v.inherit requested) (w.inherit requested) := by
  have absorbed := along.absorb requested
  have placed := absorbed.plain
    (fun v =>
      { v with provenance := { v.provenance with request := requested.id, requestedAt := some requested.at_ } })
    rfl rfl rfl fun _ => rfl
  exact placed.setLauncher _ _

theorem Along.setState (along : Along m v w) (state : LifeState) :
    Along m (v.setState state) (w.setState state) :=
  along.plain (fun v => v.setState state) rfl rfl rfl fun _ => rfl

theorem Along.setPane (along : Along m v w) (pane : String) :
    Along m (v.setPane pane) (w.setPane pane) :=
  along.ite (fun _ => pane ≠ "") (fun _ _ => rfl)
    (along.plain (fun v => { v with provenance := { v.provenance with pane } }) rfl rfl rfl fun _ =>
      rfl) along

/-- A session is opened with the record's own tool where the event names none. -/
theorem Along.openOwn (along : Along m v w) (e : Event) (path : String) :
    Along m (v.openSession e.session (firstNonEmpty [e.tool, v.tool]) path e.at_)
      (w.openSession e.session (firstNonEmpty [e.tool, w.tool]) path e.at_) := by
  have tool : w.tool = v.tool := along.same fun _ _ => rfl
  rw [tool]
  exact along.openSession _ _ _ _

theorem Along.launchReady (along : Along m v w) (request : Option RequestRecord) (e : Event) :
    Along m (v.launchReady request e) (w.launchReady request e) := by
  have ready := fun (v w : AgentView) (inherited : Along m v w) =>
    ((inherited.absorb e).setLauncher e.by_ e.launcherKindOf).plain
    (fun v =>
      { v with
        provenance :=
          { v.provenance with
            state := some .ready, readyAt := some e.at_
            batch := firstNonEmpty [e.batch, v.provenance.batch]
            pane := firstNonEmpty [e.pane, v.provenance.pane]
            cwd := firstNonEmpty [e.cwd, v.provenance.cwd] } })
    rfl rfl rfl fun _ => rfl
  have opened := fun (v w : AgentView) (inherited : Along m v w) =>
    (ready v w inherited).ite (fun _ => e.session ≠ "") (fun _ _ => rfl)
      ((ready v w inherited).openOwn e "") (ready v w inherited)
  cases request with
  | none => exact opened _ _ along.registered
  | some request => exact opened _ _ (along.registered.inherit request.requested)

theorem Along.resume (along : Along m v w) (e : Event) : Along m (v.resume e) (w.resume e) := by
  have ended := along.registered.ite (fun v => firstNonEmpty [e.fromSession, currentSession v] ≠ "")
    (fun _ _ => rfl)
    (along.registered.endSession e.at_ "resumed") along.registered
  have opened := ended.ite (fun _ => e.session ≠ "") (fun _ _ => rfl) (ended.openOwn e "") ended
  have moved :=
    along.registered.ite (fun v => e.session ≠ "" ∧ e.session = currentSession v) (fun _ _ => rfl)
    along.registered opened
  exact moved.setPane e.pane

theorem Along.fork (along : Along m v w) (e : Event) : Along m (v.fork e) (w.fork e) := by
  have forked :=
    along.registered.plain (fun v => { v with fromName := e.fromName }) rfl rfl rfl fun _ => rfl
  have placed := (forked.setLauncher e.by_ (e.byKind.getD .agent)).setPane e.pane
  exact placed.ite (fun v => v.provenance.state = none) (fun _ _ => rfl)
    (placed.setState .ready) placed

theorem Along.mirror (along : Along m v w) (e : Event) : Along m (v.mirror e) (w.mirror e) := by
  have mirrored := along.ite (fun v => v.provenance.kind = .unregistered) (fun _ _ => rfl)
    (along.plain (fun v => { v with provenance := { v.provenance with kind := .mirrored } }) rfl rfl
      rfl fun _ => rfl)
    along
  have launched := mirrored.setLauncher e.by_ .mirror
  have parented := launched.ite (fun _ => e.parentName ≠ "") (fun _ _ => rfl)
    (launched.plain (fun v => { v with parent := e.parentName }) rfl rfl rfl fun _ => rfl) launched
  have ready :=
    parented.ite (fun v => v.provenance.state = none ∧ e.kind = .mirrorReady) (fun _ _ => rfl)
    (parented.setState .ready) parented
  exact ready.ite (fun v => e.session ≠ "" ∧ (v.sessions = [] ∨ e.session = currentSession v))
    (fun _ _ => rfl)
    (ready.openOwn e "") ready

/-- What an assignment gives replaces what the repair gave. -/
theorem Along.assignManager (along : Along m v w) (e : Event) : Along m (v.assignManager e)
    (w.assignManager e) := by
  have assigned :
    Along m { v with manager := e.manager, managerBy := e.by_, managerAt := some e.at_ }
      { w with manager := e.manager, managerBy := e.by_, managerAt := some e.at_ } := by
    refine ⟨along.attributed, fun given => ⟨(along.fixed given).launcher, (along.fixed given).kind⟩,
      ?_⟩
    have stays :
      AgentView.remanage
      { v with manager := e.manager, managerBy := e.by_, managerAt := some e.at_ } m =
        { v with manager := e.manager, managerBy := e.by_, managerAt := some e.at_ } :=
          if_neg (by simp)
    rw [stays, along.view, AgentView.remanage]
    split <;> rfl
  exact along.ite (fun v => (e.manager ≠ "" && latest v.managerAt e.at_) = true)
    (fun _ _ => rfl) assigned along

theorem Along.assign (along : Along m v w) (e : Event) :
    Along m (((v.assignGroup e).assignLane e).assignManager e)
      (((w.assignGroup e).assignLane e).assignManager e) := by
  have grouped : Along m (v.assignGroup e) (w.assignGroup e) :=
    along.ite
      (fun v => ((e.clearGroup || e.group ≠ "") && latest (v.assignment.map (·.at_)) e.at_) = true)
      (fun _ _ => rfl)
      (along.plain (fun v => { v with assignment := some ⟨e.group, e.by_, e.at_⟩ }) rfl rfl rfl
        fun _ => rfl) along
  have joined : Along m ((v.assignGroup e).assignLane e) ((w.assignGroup e).assignLane e) :=
    grouped.ite (fun v => (e.lane ≠ "" && latest v.laneAt e.at_) = true) (fun _ _ => rfl)
      (grouped.plain (fun v => { v with laneID := e.lane, laneAt := some e.at_ }) rfl rfl rfl
        fun _ => rfl) grouped
  exact joined.assignManager e

theorem Along.launchRequested (along : Along m v w) (e : Event) (request : Option RequestRecord)
    (kind : e.kind = .launchRequested) : Along m (v.fold request e) (w.fold request e) := by
  simp only [AgentView.fold, kind]
  have placed := (along.registered.absorb e).plain
    (fun v =>
      { v with
        provenance :=
          { v.provenance with
            request := e.id, state := some .requested, requestedAt := some e.at_ } })
    rfl rfl rfl fun _ => rfl
  exact placed.setLauncher _ _

theorem Along.fold (along : Along m v w) (request : Option RequestRecord) (e : Event) :
    Along m (v.fold request e) (w.fold request e) := by
  cases kind : e.kind with
  | launchRequested => exact along.launchRequested e request kind
  | launchReady =>
    simp only [AgentView.fold, kind]
    exact along.launchReady request e
  | launchFailed =>
    simp only [AgentView.fold, kind]
    exact (along.setState .failed).closeAt _ _
  | culled =>
    simp only [AgentView.fold, kind]
    exact ((along.setState .culled).closeAt _ _).endSession _ _
  | resume =>
    simp only [AgentView.fold, kind]
    exact along.resume e
  | fork =>
    simp only [AgentView.fold, kind]
    exact along.fork e
  | assign =>
    simp only [AgentView.fold, kind]
    exact along.assign e
  | annotate =>
    simp only [AgentView.fold, kind]
    exact along.plain (fun v => v.annotate e) rfl rfl rfl fun _ => rfl
  | mirrorStopped =>
    simp only [AgentView.fold, kind]
    exact ((along.setState .stopped).closeAt _ _).endSession _ _
  | sessionObserved =>
    simp only [AgentView.fold, kind]
    exact along.openOwn e e.path
  | mirrorCreated | mirrorReady | mirrorBatch =>
    simp only [AgentView.fold, kind]
    exact along.mirror e
  | sessionEnded | sessionSupersede =>
    simp only [AgentView.fold, kind]
    exact along.endNamedSession _ _ _
  | cullRequested | compactRequested | laneCreated | laneUpdated | laneLink =>
    simp only [AgentView.fold, kind]
    exact along

/-! ## Incarnations of a name -/

/-- The incarnations of a name, and with their repairs. -/
structure Paired (repairs : Nat → Option String) (views views' : List AgentView) : Prop where
  size : views'.length = views.length
  along : ∀ (i : Nat) (v w : AgentView), views[i]? = some v → views'[i]? = some w →
    Along (repairs i) v w

variable {repairs : Nat → Option String} {views views' : List AgentView}

theorem Paired.nil : Paired repairs [] [] := ⟨rfl, fun _ _ _ found => by cases found⟩

theorem Paired.concat (paired : Paired repairs views views')
    (along : Along (repairs views.length) v w) :
    Paired repairs (views ++ [v]) (views' ++ [w]) where
  size := by simp [paired.size]
  along i v' w' found found' := by
    rw [List.getElem?_append] at found found'
    rw [paired.size] at found'
    split at found
    · rename_i inside
      rw [if_pos inside] at found'
      exact paired.along i v' w' found found'
    · rename_i outside
      rw [if_neg outside] at found'
      have last : i = views.length := by
        have bound := (List.getElem?_eq_some_iff.mp found).1
        simp only [List.length_singleton] at bound
        omega
      subst last
      simp only [Nat.sub_self, List.getElem?_cons_zero, Option.some.injEq] at found found'
      rw [← found, ← found']
      exact along

theorem Paired.last (paired : Paired repairs (views ++ [v]) views') :
    ∃ others w, views' = others ++ [w] ∧ Paired repairs views others ∧
      Along (repairs views.length) v w := by
  obtain rfl | ⟨others, w, rfl⟩ := List.eq_nil_or_concat' views'
  · simpa using paired.size
  · have size : others.length = views.length := by simpa using paired.size
    refine ⟨others, w, rfl, ⟨size, fun i v' w' found found' => ?_⟩, ?_⟩
    · have inside := (List.getElem?_eq_some_iff.mp found).1
      refine paired.along i v' w' ?_ ?_
      · rw [List.getElem?_append_left inside]
        exact found
      · rw [List.getElem?_append_left (by omega)]
        exact found'
    · exact paired.along views.length v w (by simp) (by simp [← size])

theorem Along.new {v : AgentView} (attributed : v.Attributed) : Along none v v :=
  ⟨attributed, fun given => absurd rfl given, v.remanage_none.symm⟩

/-- An event finds its incarnation, and where it opens one, no repair is of that. -/
theorem Paired.record (paired : Paired repairs views views')
    (within : ∀ i, views.length ≤ i → repairs i = none)
    (e : Event) :
    Paired repairs (record views e).1 (record views' e).1 ∧
      Along (repairs (record views e).1.length) (record views e).2 (record views' e).2 ∧
      views.length ≤ (record views e).1.length + 1 := by
  have fresh : ∀ views : List AgentView, repairs views.length = none →
      Along (repairs views.length)
        { name := e.name, incarnation := e.at_, firstSeen := e.at_, lastSeen := e.at_ }
        { name := e.name, incarnation := e.at_, firstSeen := e.at_, lastSeen := e.at_ } := by
    intro views none
    rw [none]
    exact .new fun given => absurd rfl given
  obtain rfl | ⟨earlier, latest, rfl⟩ := List.eq_nil_or_concat' views
  · have empty : views' = [] := List.eq_nil_of_length_eq_zero paired.size
    subst empty
    exact ⟨.nil, fresh [] (within 0 (Nat.zero_le 0)), Nat.zero_le _⟩
  · obtain ⟨earlier', latest', rfl, paired', along⟩ := paired.last
    have closed : latest'.closed = latest.closed := along.same fun _ _ => rfl
    rw [Agents.record, Agents.record]
    simp only [List.getLast?_concat, List.dropLast_concat, closed]
    split
    · exact ⟨paired', along, by simp⟩
    · exact ⟨paired, fresh _ (within _ le_rfl), by simp⟩

/-! ## Projections -/

def viewsOf (agents : Keyed (List AgentView)) (name : String) : List AgentView :=
  (agents.lookup name).getD []

/-- The agents, and with the repairs of these incarnations. -/
structure Alike (repairs : String → Nat → Option String) (agents agents' : Keyed (List AgentView)) :
    Prop where
  known : ∀ name, name ∈ agents' ↔ name ∈ agents
  paired : ∀ name, Paired (repairs name) (viewsOf agents name) (viewsOf agents' name)
  within : ∀ name i, (viewsOf agents name).length ≤ i → repairs name i = none

theorem viewsOf_insert (agents : Keyed (List AgentView)) (name other : String)
    (views : List AgentView) :
    viewsOf (agents.insert name views) other =
      if other = name then views else viewsOf agents other := by
  by_cases own : other = name
  · rw [own, if_pos rfl, viewsOf, Finmap.lookup_insert, Option.getD_some]
  · rw [if_neg own, viewsOf, Finmap.lookup_insert_of_ne _ own, viewsOf]

variable {repairsOf : String → Nat → Option String} {p q : Projection}
  {agents agents' : Keyed (List AgentView)}

theorem Alike.insert (alike : Alike repairsOf agents agents') {name : String}
    {views views' : List AgentView}
    (paired : Paired (repairsOf name) views views')
    (longer : (viewsOf agents name).length ≤ views.length) :
    Alike repairsOf (agents.insert name views) (agents'.insert name views') where
  known other := by simp only [Finmap.mem_insert, alike.known]
  paired other := by
    rw [viewsOf_insert, viewsOf_insert]
    split
    · rename_i own
      rw [own]
      exact paired
    · exact alike.paired other
  within other i beyond := by
    rw [viewsOf_insert] at beyond
    split at beyond
    · rename_i own
      rw [own]
      exact alike.within name i (le_trans longer beyond)
    · exact alike.within other i beyond

theorem Projection.views_eq (p : Projection) (name : String) :
    p.views name = viewsOf p.agents name := rfl

theorem Alike.applyNamed (alike : Alike repairsOf p.agents agents) (e : Event) :
    ∃ agents', Projection.applyNamed { p with agents } e =
      { p.applyNamed e with agents := agents' } ∧
      Alike repairsOf (p.applyNamed e).agents agents' := by
  obtain ⟨earlier, own, longer⟩ := (alike.paired e.name).record (alike.within e.name) e
  refine ⟨_, rfl, alike.insert (earlier.concat ((own.seen e).fold _ e)) ?_⟩
  rw [List.length_append, List.length_singleton]
  exact longer

/-- One fact, before the repair and after it. -/
theorem Alike.applyOne (alike : Alike repairsOf p.agents agents) (e : Event) :
    ∃ agents', Projection.applyOne { p with agents } e = { p.applyOne e with agents := agents' } ∧
      Alike repairsOf (p.applyOne e).agents agents' := by
  have requested : Projection.request { p with agents } e = { p.request e with agents } := by
    rw [Projection.request, Projection.request]
    split <;> rfl
  have stays : (p.request e).agents = p.agents := by
    rw [Projection.request]
    split <;> rfl
  rw [← stays] at alike
  rw [Projection.applyOne, Projection.applyOne, requested]
  generalize p.request e = p at alike ⊢
  split
  · exact ⟨agents, rfl, alike⟩
  · split
    · rw [Projection.applyUnnamed, Projection.applyUnnamed]
      split
      · exact ⟨agents, rfl, alike⟩
      all_goals first
        | exact ⟨agents, rfl, alike⟩
        | split <;> exact ⟨agents, rfl, alike⟩
    · exact alike.applyNamed e

theorem Alike.foldl {step : Projection → Event → Projection}
    (each : ∀ {p : Projection} {agents : Keyed (List AgentView)}, Alike repairsOf p.agents agents →
    ∀ e : Event,
      ∃ agents', step { p with agents } e = { step p e with agents := agents' } ∧
        Alike repairsOf (step p e).agents agents')
    (alike : Alike repairsOf p.agents agents) (events : List Event) :
    ∃ agents', events.foldl step { p with agents } =
      { events.foldl step p with agents := agents' } ∧
      Alike repairsOf (events.foldl step p).agents agents' := by
  induction events generalizing p agents with
  | nil => exact ⟨agents, rfl, alike⟩
  | cons e rest inductionHypothesis =>
    obtain ⟨agents', same, alike'⟩ := each alike e
    rw [List.foldl_cons, List.foldl_cons, same]
    exact inductionHypothesis alike'

/-- The facts of a journal, before the repair and after it. -/
theorem Alike.run (alike : Alike repairsOf p.agents agents) (events : List Event) :
    ∃ agents', events.foldl Projection.apply { p with agents } =
        { events.foldl Projection.apply p with agents := agents' } ∧
      Alike repairsOf (events.foldl Projection.apply p).agents agents' :=
  alike.foldl (fun alike e => alike.foldl (fun alike e => alike.applyOne e) (e.children ++ [e]))
    events

end AiConfig.Herder.Agents
