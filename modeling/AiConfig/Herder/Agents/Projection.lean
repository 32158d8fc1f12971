import AiConfig.Herder.Agents.Event
import Mathlib.Data.Finmap

/-! # The agent projection

Transcription of `Apply` and `View` in `internal/agentstore/projection.go`.  An agent's
record is changed one field group at a time, in the order of the source. -/

namespace AiConfig.Herder.Agents

/-- A Go map with keys that are texts, which `json.Marshal` writes in their order. -/
abbrev Keyed (α : Type) := Finmap fun _ : String => α

def eventsKept : Nat := 32

def projectionVersion : Nat := 8

/-! ## Records -/

inductive ProvenanceKind where
  | registered | mirrored | unregistered
  deriving DecidableEq

inductive LifeState where
  | requested | ready | failed | culled | stopped
  deriving DecidableEq

structure Provenance where
  kind : ProvenanceKind := .unregistered
  launcher : String := ""
  launcherKind : Option Attribution := none
  modelRequested : String := ""
  effort : String := ""
  workspace : String := ""
  paneRequested : String := ""
  pane : String := ""
  cwd : String := ""
  batch : String := ""
  request : String := ""
  requestedAt : Option Time := none
  readyAt : Option Time := none
  state : Option LifeState := none
  deriving DecidableEq

structure Assignment where
  group : String
  by_ : String
  at_ : Time
  deriving DecidableEq

structure Annotation where
  title : String
  note : String
  by_ : String
  at_ : Time
  deriving DecidableEq

inductive BindingState where
  | verified | pending | conflict
  deriving DecidableEq

structure Binding where
  state : BindingState
  claimed : String
  roster : String := ""
  deriving DecidableEq

structure SessionView where
  sessionID : String
  tool : String
  path : String
  started : Option Time := none
  ended : Option Time := none
  endReason : String := ""
  deriving DecidableEq

structure AgentView where
  name : String
  baseName : String := ""
  tool : String := ""
  tag : String := ""
  incarnation : Time
  firstSeen : Time
  lastSeen : Time
  closed : Option Time := none
  closeReason : String := ""
  provenance : Provenance := {}
  assignment : Option Assignment := none
  annotation : Option Annotation := none
  laneID : String := ""
  laneAt : Option Time := none
  manager : String := ""
  managerBy : String := ""
  managerAt : Option Time := none
  parent : String := ""
  fromName : String := ""
  binding : Option Binding := none
  session : Option SessionView := none
  sessions : List SessionView := []
  events : List Event := []
  eventCount : Nat := 0
  deriving DecidableEq

inductive RequestState where
  | requested | ready | failed
  deriving DecidableEq

structure RequestRecord where
  requested : Event
  state : RequestState
  name : String
  reason : String := ""
  deriving DecidableEq

structure LaneView where
  id : String
  name : String
  names : List String := []
  lead : String
  leadAt : Time
  created : Time
  by_ : String
  prs : List String := []
  repos : List String := []
  deriving DecidableEq

structure Projection where
  version : Nat
  eventsOffset : Nat
  /-- Each name's incarnations, oldest first. -/
  agents : Keyed (List AgentView)
  requests : Keyed RequestRecord
  unnamedSessions : Keyed SessionView
  lanes : Keyed LaneView
  deriving DecidableEq

def Projection.new : Projection := ⟨projectionVersion, 0, ∅, ∅, ∅, ∅⟩

/-! ## Sessions of a record -/

def AgentView.closeAt (v : AgentView) (time : Time) (reason : String) : AgentView :=
  if v.closed = none then { v with closed := some time, closeReason := reason } else v

def SessionView.endAt (session : SessionView) (time : Time) (reason : String) : SessionView :=
  if session.ended = none then { session with ended := some time, endReason := reason } else session

def currentSession (v : AgentView) : String :=
  match v.sessions with
  | [] => ""
  | first :: _ => if first.ended = none then first.sessionID else ""

def AgentView.endSession (v : AgentView) (time : Time) (reason : String) : AgentView :=
  match v.sessions with
  | [] => v
  | first :: rest => { v with sessions := first.endAt time reason :: rest }

def AgentView.pushSession (v : AgentView) (id tool path : String) (time : Time) : AgentView :=
  let v := v.endSession time "superseded"
  { v with sessions := { sessionID := id, tool, path, started := some time } :: v.sessions }

def AgentView.openSession (v : AgentView) (id tool path : String) (time : Time) : AgentView :=
  match v.sessions with
  | [] => v.pushSession id tool path time
  | first :: rest =>
    if first.sessionID = id then
      if path ≠ "" then { v with sessions := { first with path } :: rest } else v
    else v.pushSession id tool path time

def endNamed (id : String) (time : Time) (reason : String) : List SessionView → List SessionView
  | [] => []
  | session :: rest =>
    if session.sessionID = id then session.endAt time reason :: rest else session :: endNamed id
      time reason rest

def AgentView.endNamedSession (v : AgentView) (id : String) (time : Time) (reason : String) :
    AgentView :=
  { v with sessions := endNamed id time reason v.sessions }

/-! ## Parts of `Apply` on a record -/

def AgentView.seen (v : AgentView) (e : Event) : AgentView :=
  let events := v.events ++ [e]
  let v :=
    { v with eventCount := v.eventCount + 1, events := events.drop (events.length - eventsKept) }
  let v := if v.lastSeen < e.at_ then { v with lastSeen := e.at_ } else v
  if e.at_ < v.firstSeen then { v with firstSeen := e.at_, incarnation := e.at_ } else v

/-- Fills an empty launcher; a registered fact also supersedes a mirrored one, and the default
manager goes with it. -/
def AgentView.setLauncher (v : AgentView) (launcher : String) (kind : Attribution) : AgentView :=
  if launcher = "" then v
  else if v.provenance.launcher ≠ "" ∧
    ¬(v.provenance.launcherKind = some .mirror ∧ kind ≠ .mirror) then v
  else
    { v with
      provenance := { v.provenance with launcher, launcherKind := some kind }
      manager :=
        if v.manager = "" ∨ v.managerAt = none ∧ v.manager = v.provenance.launcher then launcher
        else v.manager }

def AgentView.registered (v : AgentView) : AgentView :=
  { v with provenance := { v.provenance with kind := .registered } }

def Provenance.place (provenance : Provenance) : Option Placement → Provenance
  | none => provenance
  | some placement =>
    { provenance with
      workspace := firstNonEmpty [provenance.workspace, placement.workspace]
      paneRequested :=
        firstNonEmpty [provenance.paneRequested, placement.pane, placement.splitFrom] }

def AgentView.absorb (v : AgentView) (src : Event) : AgentView :=
  { v with
    tool := firstNonEmpty [v.tool, src.tool]
    tag := firstNonEmpty [v.tag, src.tag]
    provenance :=
      { v.provenance with
        modelRequested := firstNonEmpty [v.provenance.modelRequested, src.model]
        effort := firstNonEmpty [v.provenance.effort, src.effort] }.place src.placement }

def Event.launcherKindOf (e : Event) : Attribution := (e.launcherKind <|> e.byKind).getD .agent

def AgentView.inherit (v : AgentView) (requested : Event) : AgentView :=
  let v := v.absorb requested
  let v :=
    { v with provenance := { v.provenance with request := requested.id, requestedAt := some requested.at_ } }
  v.setLauncher requested.by_ requested.launcherKindOf

def AgentView.launchReady (v : AgentView) (request : Option RequestRecord) (e : Event) :
    AgentView :=
  let v := v.registered
  let v :=
    match request with
    -- What the request said is inherited where the event says nothing.
    | some request => v.inherit request.requested
    | none => v
  let v := (v.absorb e).setLauncher e.by_ e.launcherKindOf
  let v :=
    { v with
      provenance :=
        { v.provenance with
          state := some .ready, readyAt := some e.at_
          batch := firstNonEmpty [e.batch, v.provenance.batch]
          pane := firstNonEmpty [e.pane, v.provenance.pane]
          cwd := firstNonEmpty [e.cwd, v.provenance.cwd] } }
  if e.session ≠ "" then v.openSession e.session (firstNonEmpty [e.tool, v.tool]) "" e.at_ else v

def AgentView.setPane (v : AgentView) (pane : String) : AgentView :=
  if pane ≠ "" then { v with provenance := { v.provenance with pane } } else v

def AgentView.setState (v : AgentView) (state : LifeState) : AgentView :=
  { v with provenance := { v.provenance with state := some state } }

def AgentView.resume (v : AgentView) (e : Event) : AgentView :=
  let v := v.registered
  let v :=
    if e.session ≠ "" ∧ e.session = currentSession v then v
    else
      let v :=
        if firstNonEmpty [e.fromSession, currentSession v] ≠ "" then v.endSession e.at_ "resumed"
        else v
      if e.session ≠ "" then v.openSession e.session
        (firstNonEmpty [e.tool, v.tool]) "" e.at_ else v
  v.setPane e.pane

def AgentView.fork (v : AgentView) (e : Event) : AgentView :=
  let v := { v.registered with fromName := e.fromName }
  let v := (v.setLauncher e.by_ (e.byKind.getD .agent)).setPane e.pane
  if v.provenance.state = none then v.setState .ready else v

/-- Not before a fact that is recorded already. -/
def latest (recorded : Option Time) (time : Time) : Bool := recorded.all (· ≤ time)

def AgentView.assignGroup (v : AgentView) (e : Event) : AgentView :=
  if (e.clearGroup || e.group ≠ "") && latest (v.assignment.map (·.at_)) e.at_ then
    { v with assignment := some ⟨e.group, e.by_, e.at_⟩ }
  else v

def AgentView.assignLane (v : AgentView) (e : Event) : AgentView :=
  if e.lane ≠ "" && latest v.laneAt e.at_ then
    { v with laneID := e.lane, laneAt := some e.at_ } else v

def AgentView.assignManager (v : AgentView) (e : Event) : AgentView :=
  if e.manager ≠ "" && latest v.managerAt e.at_ then
    { v with manager := e.manager, managerBy := e.by_, managerAt := some e.at_ }
  else v

def AgentView.annotate (v : AgentView) (e : Event) : AgentView :=
  let annotation := v.annotation.getD ⟨"", "", "", e.at_⟩
  { v with
    annotation :=
      some ⟨firstNonEmpty [e.title, annotation.title], firstNonEmpty [e.note, annotation.note],
        e.by_, e.at_⟩ }

def AgentView.mirror (v : AgentView) (e : Event) : AgentView :=
  let v :=
    if v.provenance.kind = .unregistered then
      { v with provenance := { v.provenance with kind := .mirrored } } else v
  let v := v.setLauncher e.by_ .mirror
  let v := if e.parentName ≠ "" then { v with parent := e.parentName } else v
  let v := if v.provenance.state = none ∧ e.kind = .mirrorReady then v.setState .ready else v
  -- A mirrored session is bound only where the record has no other.
  if e.session ≠ "" ∧ (v.sessions = [] ∨ e.session = currentSession v) then
    v.openSession e.session (firstNonEmpty [e.tool, v.tool]) "" e.at_
  else v

/-- The `switch` of `Apply`, where `request` is the record of the event's request. -/
def AgentView.fold (v : AgentView) (request : Option RequestRecord) (e : Event) : AgentView :=
  match e.kind with
  | .launchRequested =>
    let v := v.registered.absorb e
    let v :=
      { v with
        provenance :=
          { v.provenance with
            request := e.id, state := some .requested, requestedAt := some e.at_ } }
    v.setLauncher e.by_ e.launcherKindOf
  | .launchReady => v.launchReady request e
  | .launchFailed => (v.setState .failed).closeAt e.at_ ("launch-failed: " ++ e.reason)
  | .culled => ((v.setState .culled).closeAt e.at_ "culled").endSession e.at_ "culled"
  | .resume => v.resume e
  | .fork => v.fork e
  | .assign => ((v.assignGroup e).assignLane e).assignManager e
  | .annotate => v.annotate e
  | .mirrorCreated | .mirrorReady | .mirrorBatch => v.mirror e
  | .mirrorStopped =>
    ((v.setState .stopped).closeAt e.at_ ("stopped: " ++ e.reason)).endSession e.at_
      (firstNonEmpty [e.reason, "stopped"])
  | .sessionObserved => v.openSession e.session (firstNonEmpty [e.tool, v.tool]) e.path e.at_
  | .sessionEnded => v.endNamedSession e.session e.at_ (firstNonEmpty [e.reason, "ended"])
  | .sessionSupersede => v.endNamedSession e.session e.at_ (firstNonEmpty [e.reason, "superseded"])
  -- A request says nothing of the agent yet, and a lane's event nothing at all.
  | .cullRequested | .compactRequested => v
  | .laneCreated | .laneUpdated | .laneLink => v

/-! ## `Apply` -/

/-- The incarnations before the one an event belongs to, and that one. -/
def record (views : List AgentView) (e : Event) : List AgentView × AgentView :=
  match views.getLast? with
  | some latest =>
    if latest.closed = none ∨ attaches e.kind then (views.dropLast, latest)
    else (views, { name := e.name, incarnation := e.at_, firstSeen := e.at_, lastSeen := e.at_ })
  | none => (views, { name := e.name, incarnation := e.at_, firstSeen := e.at_, lastSeen := e.at_ })

def Projection.views (p : Projection) (name : String) : List AgentView :=
  (p.agents.lookup name).getD []

def RequestRecord.settle (request : RequestRecord) (e : Event) : RequestRecord :=
  match e.kind with
  | .launchReady => { request with state := .ready, name := e.name }
  | .launchFailed =>
      { request with state := .failed, reason := e.reason, name := firstNonEmpty [e.name,
      request.name] }
  | _ => request

/-- The outcome of the event's request. -/
def Projection.settle (p : Projection) (e : Event) : Keyed RequestRecord :=
  if e.kind = .launchReady ∨ e.kind = .launchFailed then
    match p.requests.lookup e.request with
    | some request => p.requests.insert e.request (request.settle e)
    | none => p.requests
  else p.requests

def toggle (list : List String) (value : String) (remove : Bool) : List String :=
  if value ∈ list then if remove then list.erase value else list
  else if remove then list else list ++ [value]

def LaneView.update (lane : LaneView) (e : Event) : LaneView :=
  let lane :=
    if e.laneName ≠ "" ∧ e.laneName ≠ lane.name then
      { lane with names := lane.names ++ [lane.name], name := e.laneName }
    else lane
  if e.lead ≠ "" ∧ lane.leadAt ≤ e.at_ then { lane with lead := e.lead, leadAt := e.at_ } else lane

def LaneView.link (lane : LaneView) (e : Event) : LaneView :=
  let lane := if e.pr ≠ "" then { lane with prs := toggle lane.prs e.pr e.remove } else lane
  if e.repo ≠ "" then { lane with repos := toggle lane.repos e.repo e.remove } else lane

def applyLane (lanes : Keyed LaneView) (e : Event) : Keyed LaneView :=
  if e.kind = .laneCreated then
    -- A lane is created once, under the id of its event.
    if lanes.lookup e.id = none then
      lanes.insert e.id
        { id := e.id
          name := e.laneName
          lead := e.lead
          leadAt := e.at_
          created := e.at_
          by_ := e.by_ }
    else lanes
  else
    match lanes.lookup e.lane with
    -- An event of a lane that was never created is dropped.
    | none => lanes
    | some lane =>
      if e.kind = .laneUpdated then lanes.insert e.lane (lane.update e)
      else lanes.insert e.lane (lane.link e)

def unnamedSession (sessions : Keyed SessionView) (e : Event) : Keyed SessionView :=
  let key := e.tool ++ "/" ++ e.session
  let view :=
    (sessions.lookup key).getD
      { sessionID := e.session, tool := e.tool, path := "", started := some e.at_ }
  let view := if e.path ≠ "" then { view with path := e.path } else view
  sessions.insert key
    -- Any other event of a session only makes it known.
    (match e.kind with
    | .sessionEnded => view.endAt e.at_ (firstNonEmpty [e.reason, "ended"])
    | .sessionSupersede => view.endAt e.at_ (firstNonEmpty [e.reason, "superseded"])
    | _ => view)

/-- An event without a name. -/
def Projection.applyUnnamed (p : Projection) (e : Event) : Projection :=
  match e.kind with
  | .launchFailed => { p with requests := p.settle e }
  | .sessionObserved | .sessionEnded | .sessionSupersede =>
    if e.session ≠ "" then { p with unnamedSessions := unnamedSession p.unnamedSessions e } else p
  | _ => p

/-- An event of one agent. -/
def Projection.applyNamed (p : Projection) (e : Event) : Projection :=
  let (earlier, v) := record (p.views e.name) e
  { p with
    agents := p.agents.insert e.name (earlier ++ [(v.seen e).fold (p.requests.lookup e.request) e])
    requests := p.settle e }

def Projection.request (p : Projection) (e : Event) : Projection :=
  if e.kind = .launchRequested then
    { p with requests := p.requests.insert e.id ⟨e, .requested, e.name, ""⟩ } else p

/-- `Apply`, without a batch's instances. -/
def Projection.applyOne (p : Projection) (e : Event) : Projection :=
  let p := p.request e
  if e.kind.isLane then { p with lanes := applyLane p.lanes e }
  else if e.name = "" then p.applyUnnamed e
  else p.applyNamed e

/-- A batch names its subjects in its instances. -/
def Event.children (e : Event) : List Event :=
  if e.kind = .mirrorBatch then
    e.instances.map fun name => { e with name, instances := [], kind := .mirrorCreated }
  else []

def Projection.apply (p : Projection) (e : Event) : Projection :=
  (e.children ++ [e]).foldl Projection.applyOne p

/-! ## Views -/

/-- What `View` reads of a roster row. -/
structure RosterRow where
  name : String
  baseName : String
  tool : String
  tag : String
  sessionID : String
  parentName : String
  transcriptPath : String
  createdAt : Time

def Projection.latest (p : Projection) (name : String) : Option AgentView := (p.views name).getLast?

/-- The record that matches the creation time. -/
def Projection.incarnation (p : Projection) (name : String) (createdAt : Time)
    (rosterSession : String) :
    Option AgentView :=
  if createdAt = Time.zero then p.latest name
  else
    -- The newest record that was not closed before the row was created.
    match (p.views name).find? fun v => !v.closed.any (· < createdAt) with
    | none => none
    | some v =>
      -- One that is older than the row is the same agent only if it has the row's session.
      if v.firstSeen < createdAt ∧ (rosterSession = "" ∨ currentSession v ≠ rosterSession) then none
      else some v

def AgentView.open_ (v : AgentView) : Option SessionView := v.sessions.head?.filter (·.ended = none)

def AgentView.bind (v : AgentView) (row : RosterRow) : AgentView :=
  let claimed := (v.session.map (·.sessionID)).getD ""
  let fresh : SessionView :=
    { sessionID := row.sessionID, tool := row.tool, path := row.transcriptPath }
  -- A row without a session cannot verify the recorded one.
  if row.sessionID = "" then
    if claimed = "" then v else { v with binding := some { state := .pending, claimed } }
  else if claimed = "" ∨ claimed = row.sessionID then
    { v with
      binding := some ⟨.verified, claimed, row.sessionID⟩
      session := (v.sessions.head?.filter (·.sessionID = row.sessionID)) <|> some fresh }
  else { v with binding := some ⟨.conflict, claimed, row.sessionID⟩, session := some fresh }

def AgentView.withRoster (v : AgentView) (row : RosterRow) : AgentView :=
  { v with
    incarnation := if row.createdAt = Time.zero then v.incarnation else row.createdAt
    tool := firstNonEmpty [v.tool, row.tool]
    tag := firstNonEmpty [v.tag, row.tag]
    baseName := row.baseName
    parent := firstNonEmpty [row.parentName, v.parent] }.bind row

def Projection.view (p : Projection) (name : String) (roster : Option RosterRow) :
    Option AgentView :=
  let stored :=
    match roster with
    | some row => p.incarnation name row.createdAt row.sessionID
    | none => p.latest name
  let shown := stored.map fun v => { v with session := v.open_ }
  match roster with
  | some row => shown.map (·.withRoster row)
  | none => shown

end AiConfig.Herder.Agents
