import AiConfig.Herder.Lanes.Rules

/-! # The rules of lanes over every run -/

namespace AiConfig.Herder.Agents.Lanes

open AiConfig.Herder.Fleet AiConfig.Lib

section

variable (orbit : Char → Char) (roster : List BusRow)

/-! ## The rules -/

/-- No two lanes with a live member have names that are equal but for case. -/
def NamesDiffer (p : Projection) : Prop :=
  ∀ a b lane lane', p.lanes.lookup a = some lane → p.lanes.lookup b = some lane' →
    p.laneMembers roster a ≠ [] → p.laneMembers roster b ≠ [] →
      equalFold orbit lane.name lane'.name = true → a = b

/-- Every lead's newest record is in the lane. -/
def LeadsInside (p : Projection) : Prop :=
  ∀ id lane, p.lanes.lookup id = some lane → (p.latest lane.lead).map (·.laneID) = some id

/-- What one verb keeps: a refused one the store, and any one the lead of every lane but the one
that `lead` is called for. -/
structure Kept (world : World) (call : Call) : Prop where
  refused : ∀ refusal, (exec orbit roster world.store call).1 = .error refusal →
    (exec orbit roster world.store call).2 = world.store
  leads : ∀ aliases id lane, (world.store.load aliases).lanes.lookup id = some lane →
    (call.verb = .lead → ((call.session roster world.store).aim orbit .lead).map (·.2) ≠ some id) →
      ∃ lane', ((world.after orbit roster call).store.load aliases).lanes.lookup id = some lane' ∧
        lane'.lead = lane.lead

/-- The verb reads of its seat what the seat's newest record says. -/
def Call.Sees (call : Call) (world : World) : Prop :=
  ∀ seat target, (call.session roster world.store).aim orbit call.verb = some (seat, target) →
    (call.session roster world.store).Sees world.store call.verb seat target

/-- The runs whose verbs all do. -/
def seeingSystem : System World Call where
  initial := World.Start
  step world call world' :=
    call.Allowed world ∧ call.Sees orbit roster world ∧ world' = world.after orbit roster call

variable {orbit roster}

theorem load_lanes (store : Store) (aliases : Ranging) :
    (store.load aliases).lanes = store.ledger.lanes :=
  congrArg Ledger.lanes (load_ledger store aliases)

theorem namesDiffer_iff (store : Store) (aliases : Ranging) :
    NamesDiffer orbit roster (store.load aliases) ↔ store.ledger.Differ orbit roster := by
  simp only [NamesDiffer, Ledger.Differ, members_live, load_ledger, load_lanes]

theorem leadsInside_iff (store : Store) (aliases : Ranging) :
    LeadsInside (store.load aliases) ↔
      ∀ id lane, store.ledger.lanes.lookup id = some lane →
        store.ledger.own lane.lead = some id := by
  simp only [LeadsInside, ← own_latest, load_ledger, load_lanes]

/-! ## Runs -/

theorem World.Start.ordered {world : World} (start : world.Start) : world.Ordered orbit roster := by
  have empty : world.store.ledger.lanes = ∅ := start.noLanes _
  have none : ∀ id, world.store.ledger.lanes.lookup id = Option.none := by
    intro id
    rw [empty, Finmap.lookup_empty]
  refine ⟨⟨?_, ?_, ?_, ?_⟩, ?_⟩
  · intro id lane known
    rw [none] at known
    cases known
  · exact fun id known => absurd (none id) known
  · intro name t inside
    obtain ⟨v, recorded, rfl⟩ := List.mem_map.mp inside
    exact start.older _ name v recorded
  · intro a b lane lane' known
    rw [none] at known
    cases known
  · exact fun id known => absurd (none id) known

/-- One verb: the world it leaves, with the ledger of what it wrote. -/
theorem World.Ordered.after {world : World} (ordered : world.Ordered orbit roster) {call : Call}
    (allowed : call.Allowed world) : (world.after orbit roster call).Ordered orbit roster := by
  have later := ordered.ledger.later allowed.later
  obtain ⟨-, same⟩ | ⟨events, accepted, valid, same⟩ :=
    exec_cases orbit roster world.store call ordered.ledger.keyed
  · rw [World.after, same]
    exact ⟨later, ordered.ids⟩
  · rw [World.after, same]
    have read := ledger_append world.store accepted.drafted
    constructor
    · rw [read]
      exact accepted.ordered (session_ledger world.store) later
        (ordered.fresh allowed) world.store valid
    · intro id known
      rw [read] at known
      obtain before | ⟨_, inside, own⟩ := fold_keys known
      · obtain ⟨e, inside, own⟩ := ordered.ids id before
        exact ⟨e, List.mem_append_left _ inside, own⟩
      · obtain ⟨e, written, rfl⟩ := List.mem_map.mp inside
        exact ⟨e, List.mem_append_right _ written, own⟩

theorem ordered : (laneSystem orbit roster).Invariant fun world => world.Ordered orbit roster where
  initial _ start := start.ordered
  step := by
    rintro world call _ ordered ⟨allowed, rfl⟩
    exact ordered.after allowed

theorem World.Ordered.kept {world : World} (ordered : world.Ordered orbit roster) {call : Call}
    (allowed : call.Allowed world) : Kept orbit roster world call := by
  constructor
  · intro refusal refused
    obtain ⟨-, same⟩ | ⟨events, -, -, same⟩ :=
      exec_cases orbit roster world.store call ordered.ledger.keyed
    · exact same
    · rw [same] at refused
      cases refused
  · intro aliases id lane known other
    rw [load_lanes] at known
    simp only [load_lanes, World.after]
    obtain ⟨-, same⟩ | ⟨events, accepted, -, same⟩ :=
      exec_cases orbit roster world.store call ordered.ledger.keyed
    · rw [same]
      exact ⟨lane, known, rfl⟩
    · rw [same]
      dsimp only
      rw [ledger_append world.store accepted.drafted]
      refine accepted.leads (ordered.fresh allowed) world.store known fun lead => ?_
      rw [lead]
      exact other lead

/-- Whatever the verbs see of the seats, live lanes have different names, a refused verb appends
nothing, and a lead is changed by its own lane's `lead` alone. -/
theorem names_differ {world : World} (reachable : (laneSystem orbit roster).Reachable world) :
    (∀ aliases, NamesDiffer orbit roster (world.store.load aliases)) ∧
      ∀ call : Call, call.Allowed world → Kept orbit roster world call := by
  have held := ordered.reachable reachable
  exact ⟨fun aliases => (namesDiffer_iff _ aliases).mpr held.ledger.differ, fun _ allowed =>
    held.kept allowed⟩

theorem led : (seeingSystem orbit roster).Invariant fun world =>
    world.Ordered orbit roster ∧ world.store.ledger.Led roster where
  initial world start := by
    have none : ∀ id lane, world.store.ledger.lanes.lookup id ≠ some lane := by
      intro id lane
      rw [show world.store.ledger.lanes = ∅ from start.noLanes _, Finmap.lookup_empty]
      exact fun known => by cases known
    exact ⟨start.ordered, fun id lane known => absurd known (none id lane),
      fun id lane known => absurd known (none id lane)⟩
  step := by
    rintro world call _ ⟨ordered, led⟩ ⟨allowed, sees, rfl⟩
    refine ⟨ordered.after allowed, ?_⟩
    obtain ⟨-, same⟩ | ⟨events, accepted, valid, same⟩ :=
      exec_cases orbit roster world.store call ordered.ledger.keyed
    · rw [World.after, same]
      exact led
    · rw [World.after, same]
      dsimp only
      rw [ledger_append world.store accepted.drafted]
      exact accepted.led (session_ledger world.store) (ordered.ledger.later allowed.later) led
        (ordered.fresh allowed) world.store valid sees

/-- A run of verbs that see where a leading seat is keeps every rule. -/
theorem lane_rules {world : World} (reachable : (seeingSystem orbit roster).Reachable world) :
    (∀ aliases, NamesDiffer orbit roster (world.store.load aliases) ∧
    LeadsInside (world.store.load aliases)) ∧
      ∀ call : Call, call.Allowed world → Kept orbit roster world call := by
  obtain ⟨ordered, led⟩ := Lanes.led.reachable reachable
  refine ⟨fun aliases => ⟨?_, ?_⟩, fun _ allowed => ordered.kept allowed⟩
  · exact (namesDiffer_iff _ aliases).mpr ordered.ledger.differ
  · exact (leadsInside_iff _ aliases).mpr led.inside

end

/-! ## A seat that a verb does not see -/

/-- By id. -/
def sortedLanes : LaneRanging where
  list lanes := (lanes.keys.sort (· ≤ ·)).filterMap fun id => (lanes.lookup id).map (Prod.mk id)
  mem lanes id lane := by
    simp only [List.mem_filterMap, Finset.mem_sort, Option.map_eq_some_iff, Prod.mk.injEq]
    constructor
    · rintro ⟨_, -, _, known, rfl, rfl⟩
      exact known
    · intro known
      exact ⟨id, by rw [Finmap.mem_keys, ← Finmap.lookup_isSome, known]; rfl, lane, known, rfl, rfl⟩
  once lanes := by
    have kept : ∀ ids : List String, (∀ id ∈ ids, (lanes.lookup id).isSome) →
        (ids.filterMap fun id => (lanes.lookup id).map (Prod.mk id)).map (·.1) = ids := by
      intro ids
      induction ids with
      | nil => exact fun _ => rfl
      | cons id rest inductionHypothesis =>
        intro all
        obtain ⟨lane, known⟩ := Option.isSome_iff_exists.mp (all id List.mem_cons_self)
        simp [known, inductionHypothesis fun id inside => all id (List.mem_cons_of_mem _ inside)]
    rw [kept]
    · exact Finset.sort_nodup _ _
    · intro id inside
      rw [Finset.mem_sort, Finmap.mem_keys] at inside
      exact Finmap.lookup_isSome.mpr inside

def readyAt : Time := ⟨63923817610000000000, by decide⟩

def rosterAt : Time := ⟨63923817620000000000, by decide⟩

def verbAt : Time := ⟨63923817630000000000, by decide⟩

/-- A launch whose session crashed: nothing closes its record. -/
def crashed : Event where
  id := "01a084cb-0000-7000-8000-000000000001"
  at_ := readyAt
  kind := .launchReady
  by_ := "ubuntu"
  byKind := some .user
  name := "scout"
  session := "5d0c7e0a-2f5b-4f6e-9f5c-000000000001"

/-- The name's next life. -/
def scoutRow : BusRow where
  name := "scout"
  baseName := "scout"
  tool := "claude"
  tag := ""
  sessionID := "5d0c7e0a-2f5b-4f6e-9f5c-000000000002"
  parentName := ""
  transcriptPath := ""
  createdAt := rosterAt
  status := "active"
  paneID := ""

def crashedWorld : World := ⟨⟨[crashed], none, fun _ given => by cases given⟩, rosterAt⟩

/-- `herder lane new <name> --lead scout` -/
def newCall (name first second : String) : Call where
  verb := .new
  opts := { lead := "scout", by_ := "ubuntu", byKind := "user", positional := [name] }
  now := verbAt
  ids := (first, second)
  defaultBy := ("unknown", "unknown")
  aliases := sourceOrder
  ranging := sortedLanes

def alphaID : String := "01a084cb-0000-7000-8000-00000000000a"

def newAlpha : Call := newCall "alpha" alphaID "01a084cb-0000-7000-8000-00000000000b"

def newBeta : Call :=
  newCall "beta" "01a084cb-0000-7000-8000-00000000000c" "01a084cb-0000-7000-8000-00000000000d"

def alphaWorld : World := crashedWorld.after Char.toLower [scoutRow] newAlpha

def betaWorld : World := alphaWorld.after Char.toLower [scoutRow] newBeta

/-- Without aliases there is no order to load in. -/
theorem load_unaliased {store : Store} (unaliased : replayAliases store.events = [])
    (aliases : Ranging) :
    store.load aliases = store.load sourceOrder := by
  have none : ∀ aliases : Ranging, aliases.list (replayAliases store.events) = [] := by
    intro aliases
    rw [unaliased]
    exact (aliases.perm []).eq_nil
  simp only [Store.load, replayEvents, none]

theorem crashedWorld_start : crashedWorld.Start where
  noLanes aliases := by
    rw [load_unaliased (by decide +kernel)]
    decide +kernel
  older aliases name v inside := by
    rw [load_unaliased (by decide +kernel)] at inside
    by_cases scout : name = "scout"
    · subst scout
      have all : ∀ v ∈ (crashedWorld.store.load sourceOrder).views "scout",
          v.firstSeen ≤ crashedWorld.clock ∧ ∀ time ∈ v.laneAt, time ≤ crashedWorld.clock := by
            decide +kernel
      exact all v inside
    · have keys : (crashedWorld.store.load sourceOrder).agents.keys = {"scout"} := by decide +kernel
      have unknown : (crashedWorld.store.load sourceOrder).agents.lookup name = none := by
        rw [Finmap.lookup_eq_none, ← Finmap.mem_keys, keys, Finset.mem_singleton]
        exact scout
      rw [Projection.views, unknown] at inside
      cases inside

theorem newAlpha_allowed : newAlpha.Allowed crashedWorld where
  later := by decide
  distinct := by decide
  fresh := by decide

theorem newBeta_allowed : newBeta.Allowed alphaWorld where
  later := by decide +kernel
  distinct := by decide
  fresh := by decide +kernel

/-- `herder lane rename alpha gamma` -/
def renameAlpha : Call where
  verb := .rename
  opts := { by_ := "ubuntu", byKind := "user", positional := ["alpha", "gamma"] }
  now := verbAt
  ids := ("01a084cb-0000-7000-8000-00000000000e", "01a084cb-0000-7000-8000-00000000000f")
  defaultBy := ("unknown", "unknown")
  aliases := sourceOrder
  ranging := sortedLanes

def renamedWorld : World := alphaWorld.after Char.toLower [scoutRow] renameAlpha

/-- `herder lane move scout gamma` -/
def moveScout : Call where
  verb := .move
  opts := { by_ := "ubuntu", byKind := "user", positional := ["scout", "gamma"] }
  now := verbAt
  ids := ("01a084cb-0000-7000-8000-000000000010", "01a084cb-0000-7000-8000-000000000011")
  defaultBy := ("unknown", "unknown")
  aliases := sourceOrder
  ranging := sortedLanes

def movedWorld : World := renamedWorld.after Char.toLower [scoutRow] moveScout

theorem newAlpha_sees : newAlpha.Sees Char.toLower [scoutRow] crashedWorld := by
  have aim : (newAlpha.session [scoutRow] crashedWorld.store).aim Char.toLower newAlpha.verb =
      some ("scout", alphaID) := by decide +kernel
  intro seat target aimed
  obtain ⟨rfl, rfl⟩ := Prod.mk.inj (Option.some.inj (aim.symm.trans aimed))
  constructor
  · decide +kernel
  · intro id lane known
    have none : (newAlpha.session [scoutRow] crashedWorld.store).proj.lanes = ∅ :=
      crashedWorld_start.noLanes _
    rw [none, Finmap.lookup_empty] at known
    cases known
  · intro lead
    cases lead

/-- A lane that is renamed takes no seat. -/
theorem renameAlpha_sees : renameAlpha.Sees Char.toLower [scoutRow] alphaWorld := by
  intro seat target aimed
  cases aimed

theorem moveScout_sees : moveScout.Sees Char.toLower [scoutRow] renamedWorld := by
  have aim : (moveScout.session [scoutRow] renamedWorld.store).aim Char.toLower moveScout.verb =
      some ("scout", alphaID) := by decide +kernel
  intro seat target aimed
  obtain ⟨rfl, rfl⟩ := Prod.mk.inj (Option.some.inj (aim.symm.trans aimed))
  constructor
  · decide +kernel
  · intro id lane known _ other
    have only : (moveScout.session [scoutRow] renamedWorld.store).proj.lanes.keys = {alphaID} := by
      decide +kernel
    have inside : id ∈ (moveScout.session [scoutRow] renamedWorld.store).proj.lanes.keys := by
      rw [Finmap.mem_keys, ← Finmap.lookup_isSome, known]
      rfl
    rw [only, Finset.mem_singleton] at inside
    exact absurd inside other
  · intro lead
    cases lead

/-- A lane is made, renamed, and its lead moved into it again.  The row resolves to no record: the
crashed life has
not ended. -/
theorem lane_rules_sample :
    (movedWorld.store.load sourceOrder).lanes.keys = {alphaID} ∧
      (∀ aliases, NamesDiffer Char.toLower [scoutRow] (movedWorld.store.load aliases) ∧
        LeadsInside (movedWorld.store.load aliases)) ∧
      ∀ call : Call, call.Allowed movedWorld → Kept Char.toLower [scoutRow] movedWorld call := by
  have rename : renameAlpha.Allowed alphaWorld := ⟨by decide +kernel, by decide, by decide +kernel⟩
  have move : moveScout.Allowed renamedWorld := ⟨by decide +kernel, by decide, by decide +kernel⟩
  have alpha : (seeingSystem Char.toLower [scoutRow]).Reachable alphaWorld :=
    .step (.initial crashedWorld_start) (e := newAlpha) ⟨newAlpha_allowed, newAlpha_sees, rfl⟩
  have renamed : (seeingSystem Char.toLower [scoutRow]).Reachable renamedWorld :=
    .step alpha (e := renameAlpha) ⟨rename, renameAlpha_sees, rfl⟩
  exact ⟨by decide +kernel, lane_rules (.step renamed (e := moveScout) ⟨move, moveScout_sees, rfl⟩)⟩

/-- Each row resolves to the newest record of its name, or to none. -/
def Resolves (roster : List BusRow) (p : Projection) : Prop :=
  ∀ row ∈ roster, p.incarnation row.name row.createdAt row.sessionID = none ∨
    p.incarnation row.name row.createdAt row.sessionID = p.latest row.name

instance (roster : List BusRow) (p : Projection) : Decidable (Resolves roster p) :=
  inferInstanceAs (Decidable (∀ row ∈ roster, _ ∨ _))

/-- The runs over a roster that always resolves so. -/
def resolvingSystem (orbit : Char → Char) (roster : List BusRow) : System World Call where
  initial world := world.Start ∧ ∀ aliases, Resolves roster (world.store.load aliases)
  step world call world' :=
    call.Allowed world ∧ world' = world.after orbit roster call ∧ ∀ aliases,
      Resolves roster (world'.store.load aliases)

/-- Two lanes in turn take the seat whose row resolves to no record as their lead. -/
theorem lead_taken_out :
    ¬∀ (orbit : Char → Char) (roster : List BusRow), (roster.map (·.name)).Nodup →
      ∀ world, (resolvingSystem orbit roster).Reachable world → ∀ aliases,
        LeadsInside (world.store.load aliases) := by
  intro claim
  have start : (resolvingSystem Char.toLower [scoutRow]).Reachable crashedWorld :=
    .initial ⟨crashedWorld_start, fun aliases => by
      rw [load_unaliased (by decide +kernel)]
      decide +kernel⟩
  have alpha : (resolvingSystem Char.toLower [scoutRow]).Reachable alphaWorld :=
    .step (e := newAlpha) start ⟨newAlpha_allowed, rfl, fun aliases => by
      rw [load_unaliased (by decide +kernel)]
      decide +kernel⟩
  have beta : (resolvingSystem Char.toLower [scoutRow]).Reachable betaWorld :=
    .step (e := newBeta) alpha ⟨newBeta_allowed, rfl, fun aliases => by
      rw [load_unaliased (by decide +kernel)]
      decide +kernel⟩
  have inside := claim _ _ (by decide) _ beta sourceOrder
  have known :
      ((betaWorld.store.load sourceOrder).lanes.lookup alphaID).map (·.lead) = some "scout" := by
    decide +kernel
  obtain ⟨lane, found, lead⟩ := Option.map_eq_some_iff.mp known
  have own := inside alphaID lane found
  rw [lead] at own
  have elsewhere :
      ((betaWorld.store.load sourceOrder).latest "scout").map (·.laneID) ≠ some alphaID := by
    decide +kernel
  exact elsewhere own

end AiConfig.Herder.Agents.Lanes
