import AiConfig.Herder.Agents.SnapshotTail
import AiConfig.Herder.Lanes.Verbs

/-! # The ledger of lanes

What the lane rules read of a projection: its lanes, and of each record the lane it is in and
what decides whether a roster row resolves to it.  An assignment and a lane's event change a
ledger as they change the projection, and a load after them is the load before them with
their changes. -/

namespace AiConfig.Herder.Agents.Lanes

open AiConfig.Herder.Fleet

/-! ## The journal's bytes -/

section

open AiConfig.Lib

variable {codec : EventCodec Event} {bytes torn : List UInt8}

/-- A load of the journal's bytes, without a snapshot that it accepts. -/
theorem load_replayed {records : List (List UInt8)} (cut : Cut newline bytes records torn)
    (saved : Option Projection)
    (refused : AgentStore.readSnapshot ⟨bytes, saved⟩ = none) (aliases : Ranging) :
    AgentStore.load codec ⟨bytes, saved⟩ aliases =
      { Store.load ⟨records.filterMap codec.decode, none,
      fun _ given => by cases given⟩ aliases with
        eventsOffset := records.flatten.length } := by
  rw [AgentStore.load, refused]
  exact replay_whole cut aliases

/-- A load of the journal's bytes from a snapshot at a boundary of its records. -/
theorem load_saved {front back : List (List UInt8)} (cut : Cut newline bytes (front ++ back) torn)
    {p : Projection}
    (version : p.version = projectionVersion) (offset : p.eventsOffset = front.flatten.length)
    (aliases : Ranging)
    (store : Store) (events : store.events = (front ++ back).filterMap codec.decode)
    (saved : store.snapshot = some ⟨p, (front.filterMap codec.decode).length⟩) :
    AgentStore.load codec ⟨bytes, some p⟩ aliases =
      { store.load aliases with eventsOffset := (front ++ back).flatten.length } := by
  have tail :
      store.events.drop (front.filterMap codec.decode).length = back.filterMap codec.decode := by
    rw [events, List.filterMap_append, List.drop_left]
  have replays : store.replays = (loadTail p (back.filterMap codec.decode)).2 := by
    rw [Store.replays, saved]
    simp only [tail]
  have loaded : store.load aliases =
      if store.replays then replayEvents aliases store.events
      else (loadTail p (back.filterMap codec.decode)).1 := by
    rw [Store.load, saved]
    simp only [tail]
  rw [loaded, replays]
  simp only [AgentStore.load]
  rw [readSnapshot_boundary cut version offset]
  simp only [offset, scanEnd_boundary cut]
  split
  · rw [replay_whole cut, events]
  · rfl

end

/-! ## Ledgers -/

/-- One incarnation of a seat. -/
structure Tenure where
  laneID : String
  laneAt : Option Time
  firstSeen : Time
  closed : Option Time
  session : String

structure Ledger where
  lanes : Keyed LaneView
  /-- Each name's incarnations, oldest first. -/
  tenures : String → List Tenure

def tenure (v : AgentView) : Tenure := ⟨v.laneID, v.laneAt, v.firstSeen, v.closed, currentSession v⟩

def ledger (p : Projection) : Ledger := ⟨p.lanes, fun name => (p.views name).map tenure⟩

/-! ## What is read -/

section

variable (l : Ledger) (roster : List BusRow)

/-- The lane of a seat's newest record. -/
def Ledger.own (seat : String) : Option String := (l.tenures seat).getLast?.map (·.laneID)

def Ledger.incarnation (name : String) (row : RosterRow) : Option Tenure :=
  if row.createdAt = Time.zero then (l.tenures name).getLast?
  else
    match (l.tenures name).find? fun t => !t.closed.any (· < row.createdAt) with
    | none => none
    | some t =>
      if t.firstSeen < row.createdAt ∧ (row.sessionID = "" ∨ t.session ≠ row.sessionID) then none
      else some t

/-- The lane in the view of a row. -/
def Ledger.rowLane (row : BusRow) : Option String :=
  let full := (l.incarnation row.name row.toRosterRow).map (·.laneID)
  match byUniqueBaseName roster row.baseName with
  | none => full
  | some owner =>
    -- The base name is another row's.
    if owner.name ≠ row.name then full
    else
      match full, (l.incarnation row.baseName row.toRosterRow).map (·.laneID) with
      | none, base => base
      | some full, none => some full
      | some full, some base => some (firstNonEmpty [full, base])

def Ledger.laneOf (row : BusRow) : Option String :=
  match l.rowLane roster ((parent roster row).getD row) with
  | none => none
  | some lane => if lane = "" ∨ l.lanes.lookup lane = none then none else some lane

/-- The lane in the view of a seat. -/
def Ledger.seatLane (seat : String) : Option String :=
  match roster.find? (·.name = seat) with
  | some row => l.rowLane roster row
  | none => l.own seat

/-- A lane has a live member. -/
def Ledger.Live (lane : String) : Prop := ∃ row ∈ roster, l.laneOf roster row = some lane

end

section

variable (p : Projection) (roster : List BusRow)

theorem own_latest (seat : String) : (ledger p).own seat = (p.latest seat).map (·.laneID) := by
  simp [Ledger.own, ledger, Projection.latest, tenure, Function.comp_def]

theorem laneID_bind (v : AgentView) (row : RosterRow) : (v.bind row).laneID = v.laneID := by
  simp only [AgentView.bind]
  split
  · split <;> rfl
  · split <;> rfl

theorem view_none_lane (seat : String) :
    (p.view seat none).map (·.laneID) = (ledger p).own seat := by
  simp [own_latest, Projection.view, Function.comp_def]

theorem incarnation_ledger (name : String) (row : RosterRow) :
    (ledger p).incarnation name row =
    (p.incarnation name row.createdAt row.sessionID).map tenure := by
  simp only [Ledger.incarnation, Projection.incarnation, ledger, Projection.latest, List.find?_map,
    List.getLast?_map]
  split
  · rfl
  · have same : ((fun t : Tenure => !t.closed.any (· < row.createdAt)) ∘ tenure) =
        fun v : AgentView => !v.closed.any (· < row.createdAt) := rfl
    rw [same]
    cases (p.views name).find? fun v => !v.closed.any (· < row.createdAt) with
    | none => rfl
    | some v =>
      simp only [Option.map_some, tenure]
      split <;> rfl

theorem view_lane (name : String) (row : RosterRow) :
    (p.view name (some row)).map (·.laneID) = ((ledger p).incarnation name row).map (·.laneID) := by
  rw [incarnation_ledger]
  simp only [Projection.view, Option.map_map]
  congr 1
  funext v
  simp [AgentView.withRoster, laneID_bind, tenure]

theorem viewForRoster_lane (row : BusRow) :
    (p.viewForRoster roster row).map (·.laneID) = (ledger p).rowLane roster row := by
  rw [Projection.viewForRoster, Ledger.rowLane, ← view_lane, ← view_lane]
  cases byUniqueBaseName roster row.baseName with
  | none => rfl
  | some owner =>
    by_cases own : owner.name = row.name
    · simp only [own, ne_eq, not_true_eq_false, if_false]
      cases p.view row.name (some row.toRosterRow) with
      | none =>
        simp only [Option.map_map, Option.map_none]
        rfl
      | some full =>
        cases p.view row.baseName (some row.toRosterRow) with
        | none => rfl
        | some base => rfl
    · simp only [ne_eq, own, not_false_eq_true, if_true]

theorem laneOf_eq (row : BusRow) : p.laneOf roster row = (ledger p).laneOf roster row := by
  rw [Projection.laneOf, Ledger.laneOf, ← viewForRoster_lane]
  cases p.viewForRoster roster ((parent roster row).getD row) with
  | none => rfl
  | some view => rfl

theorem members_live (lane : String) : p.laneMembers roster lane ≠ [] ↔
    (ledger p).Live roster lane := by
  simp [Projection.laneMembers, Ledger.Live, laneOf_eq]

theorem seatView_lane (s : Session) (seat : String) :
    (s.seatView seat).map (·.laneID) = (ledger s.proj).seatLane s.roster seat := by
  rw [Session.seatView, Ledger.seatLane]
  cases s.roster.find? (·.name = seat) with
  | none => exact view_none_lane s.proj seat
  | some row => exact viewForRoster_lane s.proj s.roster row

end

/-! ## What changes it -/

/-- A record that an assignment opens. -/
def Tenure.fresh (time : Time) : Tenure := ⟨"", none, time, none, ""⟩

def Tenure.assign (t : Tenure) (lane : String) (time : Time) : Tenure :=
  let t := if time < t.firstSeen then { t with firstSeen := time } else t
  if lane ≠ "" && latest t.laneAt time then { t with laneID := lane, laneAt := some time } else t

def reassign (tenures : List Tenure) (lane : String) (time : Time) : List Tenure :=
  match tenures.getLast? with
  | some last =>
    if last.closed = none then tenures.dropLast ++ [last.assign lane time]
    else tenures ++ [(Tenure.fresh time).assign lane time]
  | none => tenures ++ [(Tenure.fresh time).assign lane time]

def Ledger.assign (l : Ledger) (seat lane : String) (time : Time) : Ledger :=
  { l with tenures := fun name => if name = seat then reassign (l.tenures seat) lane time else l.tenures name }

def Ledger.apply (l : Ledger) (e : Event) : Ledger :=
  if e.kind.isLane then { l with lanes := applyLane l.lanes e }
  else if e.name = "" then l
  else l.assign e.name e.lane e.at_

/-- What a lane verb writes. -/
def Drafted (e : Event) : Prop := e.kind = .assign ∨ e.kind.isLane

theorem tenure_seen (v : AgentView) (e : Event) :
    tenure (v.seen e) =
      if e.at_ < v.firstSeen then { tenure v with firstSeen := e.at_ } else tenure v := by
  simp only [AgentView.seen]
  split <;> split <;> rfl

theorem tenure_fold_assign (v : AgentView) (request : Option RequestRecord) {e : Event}
    (kind : e.kind = .assign) :
    tenure ((v.seen e).fold request e) = (tenure v).assign e.lane e.at_ := by
  have manager : ∀ w : AgentView, tenure (w.assignManager e) = tenure w := by
    intro w
    simp only [AgentView.assignManager]
    split <;> rfl
  have group : ∀ w : AgentView, tenure (w.assignGroup e) = tenure w := by
    intro w
    simp only [AgentView.assignGroup]
    split <;> rfl
  have lane : ∀ w : AgentView, tenure (w.assignLane e) =
      if e.lane ≠ "" && latest (tenure w).laneAt e.at_ then
        { tenure w with laneID := e.lane, laneAt := some e.at_ }
      else tenure w := by
    intro w
    show _ = if (e.lane ≠ "" && latest w.laneAt e.at_) = true then _ else _
    rw [AgentView.assignLane]
    split <;> rfl
  have folded :
      (v.seen e).fold request e = (((v.seen e).assignGroup e).assignLane e).assignManager e := by
    rw [AgentView.fold, kind]
  rw [folded, manager, lane, group, tenure_seen, Tenure.assign]
  rfl

theorem views_insert (p : Projection) (agents : Keyed (List AgentView))
    (requests : Keyed RequestRecord)
    (name other : String) (views : List AgentView)
    (inserted : agents = p.agents.insert name views) :
    ({ p with agents, requests } : Projection).views other =
      if other = name then views else p.views other := by
  subst inserted
  rw [Projection.views, Projection.views]
  split
  · next same => rw [same, Finmap.lookup_insert, Option.getD_some]
  · next different => rw [Finmap.lookup_insert_of_ne _ different]

theorem ledger_assign (p : Projection) {e : Event} (kind : e.kind = .assign) (named : e.name ≠ "") :
    ledger (p.apply e) = (ledger p).assign e.name e.lane e.at_ := by
  have applied : p.apply e = p.applyNamed e := by
    simp [Projection.apply, Event.children, kind, Projection.applyOne, Projection.request, EventKind.isLane, named]
  rw [applied]
  have views : (record (p.views e.name) e).1.map tenure ++
      [(tenure (record (p.views e.name) e).2).assign e.lane e.at_] =
        reassign ((p.views e.name).map tenure) e.lane e.at_ := by
    rw [reassign, List.getLast?_map, record]
    have attached : attaches e.kind = false := by rw [kind]; rfl
    cases (p.views e.name).getLast? with
    | none => rfl
    | some last =>
      simp only [Option.map_some, attached, Bool.false_eq_true, or_false, tenure]
      split
      · rw [List.map_dropLast]
      · rfl
  simp only [ledger, Projection.applyNamed, Ledger.assign, Ledger.mk.injEq]
  refine ⟨trivial, ?_⟩
  funext name
  rw [views_insert p _ _ e.name name _ rfl]
  split
  · rw [List.map_append, List.map_singleton, tenure_fold_assign _ _ kind, views]
  · rfl

theorem ledger_apply (p : Projection) {e : Event} (drafted : Drafted e) :
    ledger (p.apply e) = (ledger p).apply e := by
  obtain kind | lane := drafted
  · by_cases named : e.name = ""
    · have applied : p.apply e = p := by
        simp [Projection.apply, Event.children, kind, Projection.applyOne, Projection.request,
          EventKind.isLane,
          named, Projection.applyUnnamed]
      rw [applied, Ledger.apply, kind, if_neg (by simp [EventKind.isLane]), if_pos named]
    · rw [ledger_assign p kind named, Ledger.apply, kind, if_neg (by simp [EventKind.isLane]),
        if_neg named]
  · rw [apply_lane lane, Ledger.apply, if_pos lane]
    rfl

/-! ## What a load makes of it -/

theorem tenure_repair (window : ReplayAlias) (v : AgentView) :
    tenure (window.repair v) = tenure v := by
  rw [ReplayAlias.repair]
  split <;> rfl

/-- The repair of managers is not seen in a ledger. -/
theorem ledger_repair (p : Projection) (window : ReplayAlias) :
    ledger (p.repair window) = ledger p := by
  rw [Projection.repair]
  cases known : p.agents.lookup window.full with
  | none => rfl
  | some views =>
    simp only [ledger, Ledger.mk.injEq, true_and]
    funext name
    rw [views_insert p _ p.requests window.full name _ rfl]
    split
    · next same =>
      rw [List.map_map, same, Projection.views, known, Option.getD_some]
      exact List.map_congr_left fun v _ => tenure_repair window v
    · rfl

theorem ledger_repairs (windows : List ReplayAlias) (p : Projection) :
    ledger (windows.foldl Projection.repair p) = ledger p := by
  induction windows generalizing p with
  | nil => rfl
  | cons window rest inductionHypothesis => rw [List.foldl_cons, inductionHypothesis, ledger_repair]

theorem ledger_fold (p : Projection) {events : List Event} (drafted : ∀ e ∈ events, Drafted e) :
    ledger (events.foldl Projection.apply p) = events.foldl Ledger.apply (ledger p) := by
  induction events generalizing p with
  | nil => rfl
  | cons e rest inductionHypothesis =>
    rw [List.foldl_cons, List.foldl_cons, ← ledger_apply p (drafted e List.mem_cons_self)]
    exact inductionHypothesis _ fun e inside => drafted e (List.mem_cons_of_mem _ inside)

/-- A lane verb's events are no launch, no mirror and no close, so they give no alias. -/
theorem replayAliases_append (events : List Event) {added : List Event}
    (drafted : ∀ e ∈ added, Drafted e) :
    replayAliases (events ++ added) = replayAliases events := by
  have kinds : ∀ e ∈ added, e.kind ≠ .launchRequested ∧ e.kind ≠ .launchReady ∧
    e.kind ≠ .mirrorReady ∧
      closes e.kind = false := by
    intro e inside
    obtain kind | lane := drafted e inside
    · simp [kind, closes]
    · cases kind : e.kind <;> simp_all [EventKind.isLane, closes]
  have requests : ∀ id, requestNamed (events ++ added) id = requestNamed events id := by
    intro id
    have none : added.filter (fun e => e.kind = .launchRequested && e.id = id) = [] := by
      rw [List.filter_eq_nil_iff]
      intro e inside
      simp [(kinds e inside).1]
    rw [requestNamed, requestNamed, List.filter_append, none, List.append_nil]
  have windows : ∀ window : ReplayAlias, (events ++ added).foldl ReplayAlias.close window =
      events.foldl ReplayAlias.close window := by
    intro window
    rw [List.foldl_append]
    generalize events.foldl ReplayAlias.close window = window
    clear requests drafted
    induction added with
    | nil => rfl
    | cons e rest inductionHypothesis =>
      have kept : window.close e = window := by
        simp [ReplayAlias.close, (kinds e List.mem_cons_self).2.2.2]
      rw [List.foldl_cons, kept]
      exact inductionHypothesis fun e inside => kinds e (List.mem_cons_of_mem _ inside)
  have candidates : (events ++ added).filterMap (candidate (events ++ added)) =
      events.filterMap (candidate events) := by
    have none : added.filterMap (candidate (events ++ added)) = [] := by
      rw [List.filterMap_eq_nil_iff]
      intro e inside
      simp [candidate, (kinds e inside).2.1]
    rw [List.filterMap_append, none, List.append_nil]
    refine List.filterMap_congr fun e _ => ?_
    simp only [candidate, requests, windows]
  have ready :
      ∀ base window, readyIn (events ++ added) base window = readyIn events base window := by
    intro base window
    have none :
        added.find? (fun e => e.kind = .mirrorReady && e.name = base && window.contains e.at_) =
        none := by
      rw [List.find?_eq_none]
      intro e inside
      simp [(kinds e inside).2.2.1]
    rw [readyIn, readyIn, List.find?_append, none, Option.or_none]
  have matched : matched (events ++ added) = matched events := by
    simp only [Agents.matched, candidates, ready]
  simp only [replayAliases, matched, ready]

theorem loadTail_flag (p : Projection) (events : List Event) {added : List Event}
    (drafted : ∀ e ∈ added, Drafted e) :
    (loadTail p (events ++ added)).2 = (loadTail p events).2 := by
  have still : ∀ (from_ : Projection × Bool), (added.foldl (fun from_ e =>
      (Projection.apply from_.1 e, from_.2 || unknownMirror from_.1 e)) from_).2 = from_.2 := by
    induction added with
    | nil => exact fun _ => rfl
    | cons e rest inductionHypothesis =>
      intro from_
      have plain : e.kind.isMirror = false := by
        obtain kind | lane := drafted e List.mem_cons_self
        · rw [kind]
          rfl
        · cases kind : e.kind <;> simp_all [EventKind.isLane, EventKind.isMirror]
      rw [List.foldl_cons, inductionHypothesis fun e inside =>
        drafted e (List.mem_cons_of_mem _ inside)]
      simp [unknownMirror, plain]
  rw [loadTail, List.foldl_append]
  exact still _

def Store.ledger (store : Store) : Ledger := Lanes.ledger (store.load sourceOrder)

/-- In which order a load ranges through its aliases is not seen in its ledger. -/
theorem load_ledger (store : Store) (aliases : Ranging) :
    ledger (store.load aliases) = store.ledger := by
  rw [Store.ledger, Store.load, Store.load]
  cases store.snapshot with
  | none => rw [replayEvents, replayEvents, ledger_repairs, ledger_repairs]
  | some saved =>
    simp only []
    split
    · rw [replayEvents, replayEvents, ledger_repairs, ledger_repairs]
    · rfl

theorem drop_append (store : Store) {saved : Saved} (given : store.snapshot = some saved)
    (added : List Event) :
    (store.append added).events.drop saved.folded = store.events.drop saved.folded ++ added :=
  List.drop_append_of_le_length (store.inside saved given)

theorem replays_append (store : Store) {added : List Event} (drafted : ∀ e ∈ added, Drafted e) :
    (store.append added).replays = store.replays := by
  rw [Store.replays, Store.replays]
  cases given : store.snapshot with
  | none =>
    have given' : (store.append added).snapshot = none := given
    rw [given']
  | some saved =>
    have given' : (store.append added).snapshot = some saved := given
    simp only [given', drop_append store given, loadTail_flag _ _ drafted]

/-- An event under the name that a load reads it under. -/
def Store.read (store : Store) (e : Event) : Event := { e with name := store.named e.at_ e.name }

/-- A load after the events of a verb is the load before it, with what they change. -/
theorem ledger_append (store : Store) {added : List Event} (drafted : ∀ e ∈ added, Drafted e) :
    (store.append added).ledger = (added.map store.read).foldl Ledger.apply store.ledger := by
  have replayed :
    (ledger (foldRenamed (replayAliases (store.events ++ added)) (store.events ++ added))) =
      (added.map (rename (replayAliases store.events))).foldl Ledger.apply
        (ledger (foldRenamed (replayAliases store.events) store.events)) := by
    rw [foldRenamed, replayAliases_append _ drafted, List.map_append, List.foldl_append,
      ledger_fold]
    · rfl
    · intro read inside
      obtain ⟨e, member, rfl⟩ := List.mem_map.mp inside
      exact drafted e member
  have replay : ∀ aliases, store.replays = true →
      ledger (replayEvents aliases (store.append added).events) =
        (added.map store.read).foldl Ledger.apply (ledger (replayEvents aliases store.events)) := by
    intro aliases replays
    have read : added.map store.read = added.map fun e =>
        { e with name := renamed (replayAliases store.events) e.at_ e.name } := by
      simp [Store.read, Store.named, replays]
    rw [replayEvents, replayEvents, ledger_repairs, ledger_repairs, read]
    show ledger (foldRenamed (replayAliases (store.events ++ added)) (store.events ++ added)) = _
    rw [replayed, List.foldl_map, List.foldl_map]
    rfl
  rw [Store.ledger, Store.ledger, Store.load, Store.load]
  cases given : store.snapshot with
  | none =>
    have given' : (store.append added).snapshot = none := given
    rw [given']
    exact replay _ (by rw [Store.replays, given])
  | some saved =>
    have given' : (store.append added).snapshot = some saved := given
    rw [given']
    simp only [replays_append store drafted]
    split
    · next replays => exact replay _ replays
    · next replays =>
      have read : added.map store.read = added := by
        refine (List.map_congr_left fun e _ => ?_).trans (List.map_id _)
        simp [Store.read, Store.named, replays]
      rw [drop_append store given, loadTail_fold, loadTail_fold, List.foldl_append,
        ledger_fold _ drafted, read]

end AiConfig.Herder.Agents.Lanes
