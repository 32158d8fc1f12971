import AiConfig.Herder.Agents.Remanage

/-! # A snapshot and its tail

A load of a snapshot and the facts after it against a replay of the whole journal.  The two
fold the same facts where the aliases of the whole journal rename no fact otherwise than the
snapshot and the tail did; what is left is the manager repair. -/

namespace AiConfig.Herder.Agents

open AiConfig.Lib

/-! ## The repair of a record -/

/-- The manager that the last of the windows gives a record. -/
def repairOf (windows : List ReplayAlias) (v : AgentView) : Option String :=
  windows.foldl (fun found window => if window.repairs v then some window.manager else found) none

theorem ReplayAlias.repairs_remanage (window : ReplayAlias) (v : AgentView)
    (found : Option String) :
    window.repairs (v.remanage found) = window.repairs v := by
  rw [AgentView.remanage]
  split <;> rfl

theorem ReplayAlias.repair_remanage (window : ReplayAlias) (v : AgentView) (found : Option String) :
    window.repair (v.remanage found) =
      v.remanage (if window.repairs v then some window.manager else found) := by
  rw [ReplayAlias.repair, window.repairs_remanage]
  split
  · rename_i repairs
    have unassigned : v.managerAt = none := by
      simp only [ReplayAlias.repairs, Bool.and_eq_true, decide_eq_true_eq] at repairs
      exact repairs.1.1.2
    rw [AgentView.remanage, AgentView.remanage, if_pos unassigned, if_pos unassigned]
    rfl
  · rfl

theorem foldl_repair_remanage (windows : List ReplayAlias) (v : AgentView) (found : Option String) :
    windows.foldl (fun v window => window.repair v) (v.remanage found) =
      v.remanage (windows.foldl (fun found window =>
        if window.repairs v then some window.manager else found) found) := by
  induction windows generalizing found with
  | nil => rfl
  | cons window rest inductionHypothesis =>
    rw [List.foldl_cons, List.foldl_cons, window.repair_remanage, inductionHypothesis]

theorem foldl_repair (windows : List ReplayAlias) (v : AgentView) :
    windows.foldl (fun v window => window.repair v) v = v.remanage (repairOf windows v) := by
  have repaired := foldl_repair_remanage windows v none
  rw [v.remanage_none] at repaired
  exact repaired

theorem repairOf_user {windows : List ReplayAlias} {v : AgentView}
    (given : repairOf windows v ≠ none) :
    v.provenance.launcherKind = some .user := by
  have general : ∀ found : Option String, (found ≠ none → v.provenance.launcherKind = some .user) →
      windows.foldl (fun found window => if window.repairs v then some window.manager else found)
        found ≠ none →
      v.provenance.launcherKind = some .user := by
    clear given
    induction windows with
    | nil => exact fun found user given => user given
    | cons window rest inductionHypothesis =>
      intro found user given
      refine inductionHypothesis _ (fun own => ?_) given
      dsimp only at own
      split at own
      · rename_i repairs
        simp only [ReplayAlias.repairs, Bool.and_eq_true, decide_eq_true_eq] at repairs
        exact repairs.1.2
      · exact user own
  exact general none (fun absurd => nomatch absurd rfl) given

/-! ## The repair of a projection -/

theorem agents_ext {agents agents' : Keyed (List AgentView)}
    (known : ∀ name, name ∈ agents ↔ name ∈ agents')
    (views : ∀ name, viewsOf agents name = viewsOf agents' name) : agents = agents' := by
  refine Finmap.ext_lookup fun name => ?_
  have own := views name
  rw [viewsOf, viewsOf] at own
  cases found : agents.lookup name with
  | none =>
    have absent : name ∉ agents' :=
      fun inside => Finmap.lookup_eq_none.mp found ((known name).mpr inside)
    rw [Finmap.lookup_eq_none.mpr absent]
  | some list =>
    obtain ⟨list', found'⟩ :=
      Finmap.mem_iff.mp ((known name).mp (Finmap.mem_of_lookup_eq_some found))
    rw [found, found'] at own
    rw [found']
    exact congrArg some own

/-- What a repair leaves, by name. -/
structure Repaired (windows : List ReplayAlias) (agents agents' : Keyed (List AgentView)) :
    Prop where
  known : ∀ name, name ∈ agents' ↔ name ∈ agents
  views : ∀ name, viewsOf agents' name =
    (viewsOf agents name).map fun v =>
      (windows.filter (·.full = name)).foldl (fun v window => window.repair v) v

theorem Projection.repair_agents (p : Projection) (window : ReplayAlias) :
    ∃ agents, p.repair window = { p with agents } ∧ Repaired [window] p.agents agents := by
  rw [Projection.repair]
  cases found : p.agents.lookup window.full with
  | none =>
    refine ⟨p.agents, rfl, fun _ => Iff.rfl, fun name => ?_⟩
    by_cases own : window.full = name
    · subst own
      simp [viewsOf, found]
    · simp [own]
  | some views =>
    refine ⟨_, rfl, fun name => ?_, fun name => ?_⟩
    · rw [Finmap.mem_insert]
      constructor
      · rintro (rfl | inside)
        · exact Finmap.mem_of_lookup_eq_some found
        · exact inside
      · exact Or.inr
    · rw [viewsOf_insert]
      by_cases own : window.full = name
      · subst own
        simp [viewsOf, found]
      · simp [own, Ne.symm own]

theorem foldl_repair_agents (windows : List ReplayAlias) (p : Projection) :
    ∃ agents, windows.foldl Projection.repair p = { p with agents } ∧
      Repaired windows p.agents agents := by
  induction windows generalizing p with
  | nil => exact ⟨p.agents, rfl, fun _ => Iff.rfl, fun name => by simp⟩
  | cons window rest inductionHypothesis =>
    obtain ⟨agents, same, first⟩ := p.repair_agents window
    obtain ⟨agents', same', others⟩ := inductionHypothesis { p with agents }
    refine ⟨agents', ?_, fun name => (others.known name).trans (first.known name), fun name => ?_⟩
    · rw [List.foldl_cons, same, same']
    · rw [others.views, first.views, List.map_map]
      refine List.map_congr_left fun v _ => ?_
      by_cases own : window.full = name
      · simp [own]
      · simp [own]

/-! ## Replays as repairs of a fold -/

/-- The manager that a replay's repair gives an incarnation of a name. -/
def managerOf (ranging : Ranging) (events : List Event) (name : String) (v : AgentView) :
    Option String :=
  repairOf (((ranging.list (replayAliases events)).map (·.2)).filter (·.full = name)) v

/-- The managers that a replay's repair gives, by name and incarnation. -/
def managersOf (ranging : Ranging) (events : List Event) (name : String) (i : Nat) :
    Option String :=
  ((foldRenamed (replayAliases events) events).views name)[i]?.bind (managerOf ranging events name)

theorem attributed (aliases : Aliases) (events : List Event) {name : String} {i : Nat}
    {v : AgentView}
    (found : ((foldRenamed aliases events).views name)[i]? = some v) : v.Attributed := by
  have start : Alike (fun _ _ => none) Projection.new.agents Projection.new.agents :=
    ⟨fun _ => Iff.rfl, fun _ => .nil, fun _ _ _ => rfl⟩
  obtain ⟨agents, same, alike⟩ := start.run (events.map (rename aliases))
  have own : agents = (foldRenamed aliases events).agents := (congrArg Projection.agents same).symm
  rw [own] at alike
  exact ((alike.paired name).along i v v found found).attributed

theorem replayEvents_alike (ranging : Ranging) (events : List Event) :
    ∃ agents, replayEvents ranging events =
      { foldRenamed (replayAliases events) events with agents } ∧
      Alike (managersOf ranging events)
        (foldRenamed (replayAliases events) events).agents agents := by
  obtain ⟨agents, same, repaired⟩ :=
    foldl_repair_agents ((ranging.list (replayAliases events)).map (·.2))
    (foldRenamed (replayAliases events) events)
  refine ⟨agents, same, repaired.known, fun name => ⟨?_, fun i v w found found' => ?_⟩,
    fun name i beyond => ?_⟩
  · rw [repaired.views, List.length_map]
  · rw [repaired.views, List.getElem?_map, found, Option.map_some, Option.some.injEq,
      foldl_repair] at found'
    have given : managersOf ranging events name i = managerOf ranging events name v := by
      rw [managersOf, Projection.views_eq, found, Option.bind_some]
    rw [given]
    refine ⟨attributed _ _ found, fun some => ?_, found'.symm⟩
    have user := repairOf_user some
    exact ⟨attributed _ _ found (by simp [user]), user⟩
  · rw [managersOf, Projection.views_eq, List.getElem?_eq_none beyond, Option.bind_none]

/-! ## Names -/

/-- The aliases of the whole journal name its facts as the snapshot and the tail do; a lane fact
has no agent. -/
structure SameNames (front back : List Event) : Prop where
  before : ∀ e ∈ front, e.kind.isLane ∨
    rename (replayAliases (front ++ back)) e = rename (replayAliases front) e
  after : ∀ e ∈ back, e.kind.isLane ∨ rename (replayAliases (front ++ back)) e = e

theorem apply_lane {e : Event} (lane : e.kind.isLane) (p : Projection) :
    p.apply e = { p with lanes := applyLane p.lanes e } := by
  have single : e.kind ≠ .mirrorBatch := by
    intro kind
    rw [kind] at lane
    cases lane
  have unrequested : e.kind ≠ .launchRequested := by
    intro kind
    rw [kind] at lane
    cases lane
  rw [Projection.apply, Event.children, if_neg single]
  simp only [List.nil_append, List.foldl_cons, List.foldl_nil, Projection.applyOne,
    Projection.request, if_neg unrequested,
    if_pos lane]

theorem apply_renamed_lane {e : Event} (lane : e.kind.isLane) (aliases : Aliases) (p : Projection) :
    p.apply (rename aliases e) = p.apply e := by
  rw [apply_lane lane, apply_lane (show (rename aliases e).kind.isLane from lane)]
  rfl

theorem foldl_congr {f g : Event → Event} {events : List Event}
    (same : ∀ e ∈ events, ∀ p, Projection.apply p (f e) = p.apply (g e))
    (p : Projection) :
    (events.map f).foldl Projection.apply p = (events.map g).foldl Projection.apply p := by
  induction events generalizing p with
  | nil => rfl
  | cons e rest inductionHypothesis =>
    rw [List.map_cons, List.map_cons, List.foldl_cons, List.foldl_cons, same e List.mem_cons_self]
    exact inductionHypothesis (fun e inside => same e (List.mem_cons_of_mem _ inside)) _

theorem SameNames.fold {front back : List Event} (names : SameNames front back) :
    foldRenamed (replayAliases (front ++ back)) (front ++ back) =
      back.foldl Projection.apply (foldRenamed (replayAliases front) front) := by
  have first : ∀ e ∈ front, ∀ p,
      Projection.apply p (rename (replayAliases (front ++ back)) e) =
          p.apply (rename (replayAliases front) e) := by
    intro e inside p
    obtain lane | same := names.before e inside
    · rw [apply_renamed_lane lane, apply_renamed_lane lane]
    · rw [same]
  have second : ∀ e ∈ back, ∀ p,
      Projection.apply p (rename (replayAliases (front ++ back)) e) = p.apply (id e) := by
    intro e inside p
    obtain lane | same := names.after e inside
    · exact apply_renamed_lane lane _ p
    · rw [same, id]
  rw [foldRenamed, foldRenamed, List.map_append, List.foldl_append, foldl_congr first,
    foldl_congr second, List.map_id]

/-! ## Managers -/

/-- Two repairs give each incarnation that no assignment gave a manager the same one. -/
def SameManagers (repairs repairs' : String → Nat → Option String) (p : Projection) : Prop :=
  ∀ name i v, (p.views name)[i]? = some v → v.managerAt = none →
    (repairs name i).getD v.manager = (repairs' name i).getD v.manager

theorem Paired.views {repairs : Nat → Option String} {views views' : List AgentView}
    (paired : Paired repairs views views') (i : Nat) :
    views'[i]? = views[i]?.map fun v => v.remanage (repairs i) := by
  cases found : views[i]? with
  | none =>
    rw [List.getElem?_eq_none_iff] at found
    simp [paired.size, found]
  | some v =>
    have inside := (List.getElem?_eq_some_iff.mp found).1
    rw [← paired.size] at inside
    have found' : views'[i]? = some (views'.get ⟨i, inside⟩) := List.getElem?_eq_getElem inside
    rw [found', Option.map_some, (paired.along i v _ found found').view]

theorem remanage_congr {v : AgentView} {m m' : Option String} :
    v.remanage m = v.remanage m' ↔ (v.managerAt = none → m.getD v.manager = m'.getD v.manager) := by
  rw [AgentView.remanage, AgentView.remanage]
  split
  · rename_i unassigned
    constructor
    · exact fun same _ => congrArg AgentView.manager same
    · exact fun same => by rw [same unassigned]
  · rename_i assigned
    exact ⟨fun _ unassigned => absurd unassigned assigned, fun _ => rfl⟩

theorem Alike.agents_eq {repairs repairs' : String → Nat → Option String} {p : Projection}
    {agents agents' : Keyed (List AgentView)} (alike : Alike repairs p.agents agents)
    (alike' : Alike repairs' p.agents agents') :
    agents = agents' ↔ SameManagers repairs repairs' p := by
  constructor
  · rintro rfl name i v found unassigned
    have one := (alike.paired name).views i
    rw [(alike'.paired name).views i, ← Projection.views_eq, found, Option.map_some,
      Option.map_some,
      Option.some.injEq] at one
    exact (remanage_congr.mp one unassigned).symm
  · intro same
    refine agents_ext (fun name => (alike.known name).trans (alike'.known name).symm) fun name => ?_
    refine List.ext_getElem? fun i => ?_
    rw [(alike.paired name).views, (alike'.paired name).views]
    cases found : (viewsOf p.agents name)[i]? with
    | none => rfl
    | some v =>
      rw [Option.map_some, Option.map_some, remanage_congr.mpr (same name i v found)]

/-! ## The offset and the version -/

theorem applyOne_at (p : Projection) (e : Event) (offset : Nat) :
    Projection.applyOne { p with eventsOffset := offset } e =
      { p.applyOne e with eventsOffset := offset } ∧
      (p.applyOne e).version = p.version := by
  have requested : Projection.request { p with eventsOffset := offset } e =
    { p.request e with eventsOffset := offset } ∧
      (p.request e).version = p.version := by
    rw [Projection.request, Projection.request]
    split <;> exact ⟨rfl, rfl⟩
  rw [Projection.applyOne, Projection.applyOne, requested.1, ← requested.2]
  generalize p.request e = p
  split
  · exact ⟨rfl, rfl⟩
  · split
    · rw [Projection.applyUnnamed, Projection.applyUnnamed]
      split
      · exact ⟨rfl, rfl⟩
      all_goals first
        | exact ⟨rfl, rfl⟩
        | split <;> exact ⟨rfl, rfl⟩
    · exact ⟨rfl, rfl⟩

theorem foldl_at {step : Projection → Event → Projection} (offset : Nat)
    (each : ∀ p e, step { p with eventsOffset := offset } e =
    { step p e with eventsOffset := offset } ∧
      (step p e).version = p.version) (p : Projection) (events : List Event) :
    events.foldl step { p with eventsOffset := offset } =
      { events.foldl step p with eventsOffset := offset } ∧
      (events.foldl step p).version = p.version := by
  induction events generalizing p with
  | nil => exact ⟨rfl, rfl⟩
  | cons e rest inductionHypothesis =>
    rw [List.foldl_cons, List.foldl_cons, (each p e).1]
    exact ⟨(inductionHypothesis _).1, (inductionHypothesis _).2.trans (each p e).2⟩

theorem run_at (p : Projection) (events : List Event) (offset : Nat) :
    events.foldl Projection.apply { p with eventsOffset := offset } =
        { events.foldl Projection.apply p with eventsOffset := offset } ∧
      (events.foldl Projection.apply p).version = p.version :=
  foldl_at offset (fun p e => foldl_at offset (fun p e => applyOne_at p e offset) p
    (e.children ++ [e])) p events

theorem loadTail_fold (p : Projection) (events : List Event) :
    (loadTail p events).1 = events.foldl Projection.apply p := by
  have general : ∀ asked : Bool,
      (events.foldl (fun from_ e => (Projection.apply from_.1 e,
        from_.2 || unknownMirror from_.1 e)) (p, asked)).1 =
        events.foldl Projection.apply p := by
    induction events generalizing p with
    | nil => exact fun _ => rfl
    | cons e rest inductionHypothesis => exact fun asked => inductionHypothesis _ _
  exact general false

/-! ## The facts that ask for a replay -/

/-- A mirrored fact of the tail names an agent that nothing before it names. -/
def asksReplay (front back : List Event) : Bool :=
  (loadTail (foldRenamed (replayAliases front) front) back).2

theorem Alike.asks {repairs : String → Nat → Option String} {p : Projection}
    {agents : Keyed (List AgentView)}
    (alike : Alike repairs p.agents agents) (offset : Nat) (events : List Event) :
    (loadTail { p with agents, eventsOffset := offset } events).2 = (loadTail p events).2 := by
  have general : ∀ asked : Bool,
      (events.foldl (fun from_ e => (Projection.apply from_.1 e,
        from_.2 || unknownMirror from_.1 e))
        ({ p with agents, eventsOffset := offset }, asked)).2 =
      (events.foldl (fun from_ e => (Projection.apply from_.1 e,
          from_.2 || unknownMirror from_.1 e)) (p, asked)).2 := by
    induction events generalizing p agents with
    | nil => exact fun _ => rfl
    | cons e rest inductionHypothesis =>
      intro asked
      obtain ⟨agents', step, alike'⟩ := alike.run [e]
      have moved := (run_at { p with agents } [e] offset).1
      simp only [List.foldl_cons, List.foldl_nil] at step alike' moved
      have unknown :
          unknownMirror { p with agents, eventsOffset := offset } e = unknownMirror p e := by
        have size := (alike.paired e.name).size
        simp only [unknownMirror, Projection.latest, Projection.views_eq, List.getLast?_eq_getElem?,
          size]
        congr 1
        rw [Bool.eq_iff_iff, Option.isNone_iff_eq_none, Option.isNone_iff_eq_none,
          List.getElem?_eq_none_iff,
          List.getElem?_eq_none_iff, size]
      rw [List.foldl_cons, List.foldl_cons]
      simp only [unknown]
      rw [moved, step]
      exact inductionHypothesis alike' _
  exact general false

/-! ## The journal and a boundary in it -/

section

variable {codec : EventCodec Event} {bytes torn : List UInt8} {front back : List (List UInt8)}

theorem placed_decode (start : Nat) (records : List (List UInt8)) :
    ((placed start records).filterMap fun record => codec.decode record.2) =
    records.filterMap codec.decode := by
  induction records generalizing start with
  | nil => rfl
  | cons record rest inductionHypothesis =>
    rw [placed, List.filterMap_cons, List.filterMap_cons, inductionHypothesis]

theorem scanEnd_boundary (cut : Cut newline bytes (front ++ back) torn) :
    scanEnd codec bytes front.flatten.length =
      (back.filterMap codec.decode, (front ++ back).flatten.length) := by
  rw [scanEnd, cut.drop.scan]
  simp only [placed_decode, placed_end, List.flatten_append, List.length_append]

theorem scanEnd_whole {records : List (List UInt8)} (cut : Cut newline bytes records torn) :
    scanEnd codec bytes 0 = (records.filterMap codec.decode, records.flatten.length) := by
  have boundary := @scanEnd_boundary codec bytes torn [] records cut
  simpa using boundary

/-- The snapshot that a replay up to a boundary takes is read back as it is. -/
theorem readSnapshot_boundary (cut : Cut newline bytes (front ++ back) torn) {p : Projection}
    (version : p.version = projectionVersion) (offset : p.eventsOffset = front.flatten.length) :
    AgentStore.readSnapshot ⟨bytes, some p⟩ = some p := by
  have bound : front.flatten.length ≤ bytes.length := by
    rw [cut.log]
    simp
  have boundary : p.eventsOffset = 0 ∨ bytes[p.eventsOffset - 1]? = some newline := by
    rw [offset]
    obtain empty | ⟨body, ends⟩ := cut.front.ends
    · exact Or.inl (by rw [empty]; rfl)
    · refine Or.inr ?_
      have log : bytes = body ++ newline :: (back.flatten ++ torn) := by
        rw [cut.log, List.flatten_append, ends]
        simp
      rw [ends, log]
      simp
  simp only [AgentStore.readSnapshot]
  rw [if_neg (by rw [version, offset]; omega), if_pos boundary]

/-- The same projection, and so the same view of every name. -/
structure SameProjection (p q : Projection) : Prop where
  projection : p = q
  views : ∀ name roster, p.view name roster = q.view name roster

theorem sameProjection_iff {p q : Projection} : SameProjection p q ↔ p = q :=
  ⟨fun same => same.projection, fun same => ⟨same, fun _ _ => by rw [same]⟩⟩

theorem replay_whole {records : List (List UInt8)} (cut : Cut newline bytes records torn)
    (ranging : Ranging) :
    replay codec ranging bytes =
      { replayEvents ranging (records.filterMap
      codec.decode) with eventsOffset := records.flatten.length } := by
  rw [replay, scanEnd_whole cut]

/-- What a load of a boundary's snapshot gives. -/
theorem load_boundary (cut : Cut newline bytes (front ++ back) torn) (taken loaded : Ranging) :
    AgentStore.load codec ⟨bytes, some (replay codec taken front.flatten)⟩ loaded =
      if asksReplay (front.filterMap codec.decode) (back.filterMap codec.decode) then
        replay codec loaded bytes
      else
        { (back.filterMap codec.decode).foldl Projection.apply (replayEvents taken
        (front.filterMap codec.decode)) with
          eventsOffset := (front ++ back).flatten.length } := by
  obtain ⟨agents, folded, alike⟩ := replayEvents_alike taken (front.filterMap codec.decode)
  have version : (replay codec taken front.flatten).version = projectionVersion := by
    rw [replay_whole cut.front, folded]
    exact (run_at Projection.new _ 0).2
  have offset : (replay codec taken front.flatten).eventsOffset = front.flatten.length := by
    rw [replay_whole cut.front]
  have snapshot : replay codec taken front.flatten =
      { foldRenamed (replayAliases (front.filterMap codec.decode)) (front.filterMap
          codec.decode) with
        agents, eventsOffset := front.flatten.length } := by
    rw [replay_whole cut.front, folded]
  simp only [AgentStore.load]
  rw [readSnapshot_boundary cut version offset]
  simp only [offset, scanEnd_boundary cut, loadTail_fold]
  rw [snapshot, alike.asks, ← asksReplay, folded]
  split
  · rfl
  · rw [(run_at { foldRenamed _ _ with agents } _ _).1]

/-- A load of the snapshot taken at a boundary gives what a replay gives, where a fact of the
tail asks for a replay or the whole journal names its facts as before, exactly if the manager
repairs agree. -/
theorem load_eq_replay (cut : Cut newline bytes (front ++ back) torn)
    (taken loaded replayed : Ranging)
    (names : asksReplay (front.filterMap codec.decode) (back.filterMap codec.decode) ∨
      SameNames (front.filterMap codec.decode) (back.filterMap codec.decode)) :
    SameProjection (AgentStore.load codec ⟨bytes, some (replay codec taken front.flatten)⟩ loaded)
        (replay codec replayed bytes) ↔
      SameManagers
        (if asksReplay (front.filterMap codec.decode) (back.filterMap codec.decode) then
          managersOf loaded ((front ++ back).filterMap codec.decode)
        else managersOf taken (front.filterMap codec.decode))
        (managersOf replayed ((front ++ back).filterMap codec.decode))
        (foldRenamed (replayAliases ((front ++ back).filterMap codec.decode))
          ((front ++ back).filterMap codec.decode)) := by
  obtain ⟨whole, wholeFolded, wholeAlike⟩ :=
    replayEvents_alike replayed ((front ++ back).filterMap codec.decode)
  rw [sameProjection_iff, load_boundary cut, replay_whole cut replayed, wholeFolded]
  have agents_iff : ∀ {p : Projection} {one other : Keyed (List AgentView)} {offset : Nat},
      ({ p with agents := one, eventsOffset := offset } : Projection) =
        { p with agents := other, eventsOffset := offset } ↔ one = other := by
    intro p one other offset
    exact ⟨fun same => congrArg Projection.agents same, fun same => by rw [same]⟩
  cases asked : asksReplay (front.filterMap codec.decode) (back.filterMap codec.decode) with
  | true =>
    obtain ⟨agents, folded, alike⟩ :=
      replayEvents_alike loaded ((front ++ back).filterMap codec.decode)
    rw [if_pos rfl, if_pos rfl, replay_whole cut loaded, folded, ← alike.agents_eq wholeAlike]
    exact agents_iff
  | false =>
    obtain ⟨agents, folded, alike⟩ := replayEvents_alike taken (front.filterMap codec.decode)
    obtain ⟨agents', same, alike'⟩ := alike.run (back.filterMap codec.decode)
    rw [asked] at names
    have named := names.resolve_left (by simp)
    rw [← named.fold, ← List.filterMap_append] at same alike'
    rw [if_neg (by simp), if_neg (by simp), folded, same, ← alike'.agents_eq wholeAlike]
    exact agents_iff

end

/-! ## A base name's mirror before its launch -/

def launchID : String := "01a084cb-0000-7000-8000-000000000001"

def launchAsked : Event where
  id := launchID
  at_ := ⟨63923817611000000000, by decide⟩
  kind := .launchRequested
  by_ := "ubuntu"
  byKind := some .user
  tool := "codex"
  tag := "impl"
  placement := some { workspace := "w80" }

def baseMirrored : Event where
  id := "01a084cb-0000-7000-8000-000000000002"
  at_ := ⟨63923817612000000000, by decide⟩
  kind := .mirrorReady
  by_ := "ziru"
  byKind := some .mirror
  name := "nife"

def launched : Event where
  id := "01a084cb-0000-7000-8000-000000000003"
  at_ := ⟨63923817613000000000, by decide⟩
  kind := .launchReady
  by_ := "ubuntu"
  byKind := some .user
  name := "impl-nife"
  request := launchID

/-- The line without its newline, of these three. -/
def factText (e : Event) : Option String :=
  if e = launchAsked then
    some
      ("\x7b\"id\":\"01a084cb-0000-7000-8000-000000000001\",\"at\":\"2026-09-01T00:00:11Z\",\"kind\":\"launch-requested\"," ++
      "\"by\":\"ubuntu\",\"by_kind\":\"user\",\"tool\":\"codex\",\"tag\":\"impl\",\"placement\":\x7b\"workspace\":\"w80\"\x7d\x7d")
  else if e = baseMirrored then
    some
      ("\x7b\"id\":\"01a084cb-0000-7000-8000-000000000002\",\"at\":\"2026-09-01T00:00:12Z\",\"kind\":\"mirror.ready\"," ++
      "\"by\":\"ziru\",\"by_kind\":\"mirror\",\"name\":\"nife\"\x7d")
  else if e = launched then
    some
      ("\x7b\"id\":\"01a084cb-0000-7000-8000-000000000003\",\"at\":\"2026-09-01T00:00:13Z\",\"kind\":\"launch-ready\"," ++
      "\"by\":\"ubuntu\",\"by_kind\":\"user\",\"name\":\"impl-nife\",\"request\":\"01a084cb-0000-7000-8000-000000000001\"\x7d")
  else none

def factLine (e : Event) : Option (List UInt8) :=
  (factText e).map fun text => bytesOf text ++ [newline]

def facts : List Event := [launchAsked, baseMirrored, launched]

theorem factText_clean (e : Event) :
    (factText e).all (fun text => newline ∉ bytesOf text) = true := by
  rw [factText]
  split
  · decide +kernel
  · split
    · decide +kernel
    · split
      · decide +kernel
      · rfl

def factCodec : EventCodec Event where
  id := Event.id
  valid := fun e => facts.contains e
  encode := factLine
  decode := fun line => facts.find? fun e => factLine e = some line
  withAt := fun e existing => { e with at_ := existing.at_ }
  whole := by
    intro e line encoded
    simp only [factLine, Option.map_eq_some_iff] at encoded
    obtain ⟨text, own, rfl⟩ := encoded
    have clean := factText_clean e
    rw [own] at clean
    exact ⟨_, rfl, by simpa using clean⟩
  reads := by
    intro e line valid encoded
    have inside : e = launchAsked ∨ e = baseMirrored ∨ e = launched := by simpa [facts] using valid
    obtain rfl | rfl | rfl := inside
    all_goals
      rw [← encoded]
      exact ⟨_, by decide +kernel, rfl, rfl⟩

def sourceOrder : Ranging := ⟨id, fun _ => .refl _⟩

def lineOf (e : Event) : List UInt8 := (factLine e).getD []

theorem whole_lineOf {e : Event} (known : e ∈ facts) : Whole newline (lineOf e) := by
  have encoded : factLine e = some (lineOf e) := by
    simp only [facts, List.mem_cons, List.not_mem_nil, or_false] at known
    obtain rfl | rfl | rfl := known
    all_goals rfl
  exact factCodec.whole e _ encoded

theorem cut_facts {front back : List Event} (first : front ⊆ facts) (second : back ⊆ facts) :
    Cut newline (front.map lineOf ++ back.map lineOf).flatten (front.map lineOf ++ back.map lineOf)
      [] where
  whole record inside := by
    rw [← List.map_append] at inside
    obtain ⟨e, member, rfl⟩ := List.mem_map.mp inside
    obtain one | other := List.mem_append.mp member
    · exact whole_lineOf (first one)
    · exact whole_lineOf (second other)
  log := by rw [List.append_nil]
  torn := List.not_mem_nil

/-- The launch is in the snapshot, and the base name's mirror asks for a replay. -/
theorem load_eq_replay_sample :
    SameProjection
      (AgentStore.load factCodec
        ⟨([launchAsked, launched].map lineOf ++ [baseMirrored].map lineOf).flatten,
          some (replay factCodec sourceOrder ([launchAsked, launched].map lineOf).flatten)⟩
            sourceOrder)
      (replay factCodec sourceOrder ([launchAsked, launched].map lineOf ++
      [baseMirrored].map lineOf).flatten) := by
  have cut : Cut newline _ ([launchAsked, launched].map lineOf ++ [baseMirrored].map lineOf) [] :=
    cut_facts (by simp [facts]) (by simp [facts])
  have asked : asksReplay (([launchAsked, launched].map lineOf).filterMap factCodec.decode)
      (([baseMirrored].map lineOf).filterMap factCodec.decode) = true := by decide +kernel
  refine (load_eq_replay cut sourceOrder sourceOrder sourceOrder (Or.inl asked)).mpr ?_
  rw [if_pos asked]
  exact fun _ _ _ _ _ => rfl

/-- The mirror is in the snapshot under the base name; a replay that sees the launch has no
agent of that name. -/
theorem base_name_stays :
    ((AgentStore.load factCodec
        ⟨([launchAsked, baseMirrored, launched].map lineOf).flatten,
          some (replay factCodec sourceOrder ([launchAsked, baseMirrored].map lineOf).flatten)⟩
            sourceOrder).view
        "nife" none).isSome = true ∧
      ((replay factCodec sourceOrder
      ([launchAsked, baseMirrored, launched].map lineOf).flatten).view
        "nife" none).isSome = false := by
  decide +kernel

end AiConfig.Herder.Agents
