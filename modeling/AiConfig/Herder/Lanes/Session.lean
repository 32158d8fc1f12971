import Mathlib.Data.Finset.Sort
import Mathlib.Data.String.Basic
import AiConfig.Herder.Agents.Snapshot
import AiConfig.Herder.Fleet.Join

/-! # A lane verb's view of the store

Transcription of `ViewForRoster` and `LaneMembers` in `internal/agentstore/projection.go`, of
what `Validate` asks of a lane's events, and of `session` in `internal/lanecmd/lane.go` up to
its verbs. -/

namespace AiConfig.Herder.Agents

open AiConfig.Herder.Fleet (BusRow byUniqueBaseName parent)

/-! ## A roster row's view -/

def firstTime (full base : Time) : Time := if full = Time.zero then base else full

def Provenance.fillZero (full base : Provenance) : Provenance where
  -- `unregistered` is the placeholder of a new record, not a fact.
  kind := if full.kind = .unregistered then base.kind else full.kind
  launcher := firstNonEmpty [full.launcher, base.launcher]
  launcherKind := full.launcherKind <|> base.launcherKind
  modelRequested := firstNonEmpty [full.modelRequested, base.modelRequested]
  effort := firstNonEmpty [full.effort, base.effort]
  workspace := firstNonEmpty [full.workspace, base.workspace]
  paneRequested := firstNonEmpty [full.paneRequested, base.paneRequested]
  pane := firstNonEmpty [full.pane, base.pane]
  cwd := firstNonEmpty [full.cwd, base.cwd]
  batch := firstNonEmpty [full.batch, base.batch]
  request := firstNonEmpty [full.request, base.request]
  requestedAt := full.requestedAt <|> base.requestedAt
  readyAt := full.readyAt <|> base.readyAt
  state := full.state <|> base.state

/-- The last events of both records, by time. -/
def overlayEvents (full base : List Event) : List Event :=
  let events := (base ++ full).mergeSort fun a b => a.at_ ≤ b.at_
  events.drop (events.length - eventsKept)

/-- Fills what the full name's record lacks. -/
def overlayMissing (full base : AgentView) : AgentView where
  name := firstNonEmpty [full.name, base.name]
  baseName := firstNonEmpty [full.baseName, base.baseName]
  tool := firstNonEmpty [full.tool, base.tool]
  tag := firstNonEmpty [full.tag, base.tag]
  incarnation := firstTime full.incarnation base.incarnation
  firstSeen := firstTime full.firstSeen base.firstSeen
  lastSeen := firstTime full.lastSeen base.lastSeen
  closed := full.closed <|> base.closed
  closeReason := firstNonEmpty [full.closeReason, base.closeReason]
  provenance := full.provenance.fillZero base.provenance
  assignment := full.assignment <|> base.assignment
  annotation := full.annotation <|> base.annotation
  laneID := firstNonEmpty [full.laneID, base.laneID]
  laneAt := full.laneAt <|> base.laneAt
  manager := firstNonEmpty [full.manager, base.manager]
  managerBy := firstNonEmpty [full.managerBy, base.managerBy]
  managerAt := full.managerAt <|> base.managerAt
  parent := firstNonEmpty [full.parent, base.parent]
  fromName := firstNonEmpty [full.fromName, base.fromName]
  binding := full.binding <|> base.binding
  session := full.session <|> base.session
  sessions := if full.sessions = [] then base.sessions else full.sessions
  events := overlayEvents full.events base.events
  eventCount := full.eventCount + base.eventCount

/-- The record of the row's full name, filled from the record of its base name when no other
row has it. -/
def Projection.viewForRoster (p : Projection) (roster : List BusRow) (row : BusRow) :
    Option AgentView :=
  let full := p.view row.name (some row.toRosterRow)
  match byUniqueBaseName roster row.baseName with
  | none => full
  | some owner =>
    -- The base name is another row's.
    if owner.name ≠ row.name then full
    else
      match full, p.view row.baseName (some row.toRosterRow) with
      | none, base => base.map fun base => { base with name := row.name }
      | some full, none => some full
      | some full, some base => some (overlayMissing full base)

/-- The lane that a row counts in: its parent's, for a subagent with a proved one. -/
def Projection.laneOf (p : Projection) (roster : List BusRow) (row : BusRow) : Option String :=
  match p.viewForRoster roster ((parent roster row).getD row) with
  | none => none
  | some view =>
    if view.laneID = "" ∨ p.lanes.lookup view.laneID = none then none else some view.laneID

def Projection.laneMembers (p : Projection) (roster : List BusRow) (lane : String) : List String :=
  (roster.filter fun row => p.laneOf roster row = some lane).map (·.name)

end AiConfig.Herder.Agents

namespace AiConfig.Herder.Agents.Lanes

open AiConfig.Herder.Fleet

/-! ## Texts -/

/-- `unicode.IsSpace`. -/
def isSpace (c : Char) : Bool :=
  c.toNat ∈ [0x09, 0x0a, 0x0b, 0x0c, 0x0d, 0x20, 0x85, 0xa0, 0x1680, 0x2028, 0x2029, 0x202f, 0x205f,
    0x3000] ||
    (0x2000 ≤ c.toNat && c.toNat ≤ 0x200a)

def trimSpace (text : String) : String :=
  String.ofList ((text.toList.dropWhile isSpace).reverse.dropWhile isSpace).reverse

/-- `\r`, `\n`, `\t` or a zero byte. -/
def hasControl (text : String) : Bool := text.toList.any fun c => c.toNat ∈ [0x0d, 0x0a, 0x09, 0x00]

def isHex (c : Char) : Bool := ('0' ≤ c && c ≤ '9') || ('a' ≤ c && c ≤ 'f')

/-- `idPattern`: 8, 4, 4, 4 and 12 hexadecimal digits. -/
def validID (id : String) : Bool :=
  id.toList.length = 36 &&
    id.toList.zipIdx.all fun (c, i) => if i ∈ [8, 13, 18, 23] then c = '-' else isHex c

def isRepoChar (c : Char) : Bool :=
  ('A' ≤ c && c ≤ 'Z') || ('a' ≤ c && c ≤ 'z') || ('0' ≤ c && c ≤ '9') || c ∈ ['_', '.', '-']

def isRepo (text : List Char) : Bool :=
  match text.splitOn '/' with
  | [owner, repo] => owner ≠ [] && owner.all isRepoChar && (repo ≠ [] && repo.all isRepoChar)
  | _ => false

/-- `prPattern`: a repository and a number. -/
def isPR (text : List Char) : Bool :=
  match text.splitOn '#' with
  | [repo, first :: digits] => isRepo repo && ('1' ≤ first && first ≤ '9') &&
      digits.all Char.isDigit
  | _ => false

/-- `strings.EqualFold`; runes of one orbit of `unicode.SimpleFold` are equal. -/
def equalFold (orbit : Char → Char) (a b : String) : Bool := a.toList.map orbit = b.toList.map orbit

/-! ## Refusals -/

inductive LaneNameFault where
  | empty | spaces | control | long | likeID
  deriving DecidableEq

/-- What `Validate` finds wrong. -/
inductive Invalid where
  | eventID (id : String)
  | zeroTime
  | byKind (text : String)
  | missing (kind : EventKind) (flag : String)
  | oneOf (kind : EventKind)
  | laneID (lane : String)
  | noChange
  | laneName (fault : LaneNameFault)
  | pr (text : String)
  | repo (text : String)
  | control
  deriving DecidableEq

inductive Refusal where
  | usage (shape : String)
  | noLane (ref : String)
  | ambiguous (ref : String) (ids : List String)
  | taken (name id : String)
  | leads (seat name id : String)
  | leadRequired
  | invalid (fault : Invalid)
  deriving DecidableEq

def require {ε : Type} (holds : Bool) (refusal : ε) : Except ε Unit :=
  if holds then .ok () else .error refusal

/-! ## Validation -/

def attribution : String → Option Attribution
  | "agent" => some .agent
  | "web" => some .web
  | "user" => some .user
  | "unknown" => some .unknown
  | "serve" => some .serve
  | "observer" => some .observer
  | "mirror" => some .mirror
  | _ => none

def validLaneName (name : String) : Except Invalid Unit := do
  require (trimSpace name ≠ "") (.laneName .empty)
  require (trimSpace name = name) (.laneName .spaces)
  require (!hasControl name) (.laneName .control)
  require (name.toList.length ≤ 80) (.laneName .long)
  require (!validID name) (.laneName .likeID)

/-- The flags that the kind of a lane's event, or of an assignment to a lane, requires. -/
def required (e : Event) : List (String × String) :=
  match e.kind with
  | .assign => [("name", e.name)]
  | .laneCreated => [("lane-name", e.laneName), ("lead", e.lead)]
  | .laneUpdated | .laneLink => [("lane", e.lane)]
  | _ => []

/-- `Validate` of what the lane verbs write: a lane's events and assignments to a lane.
`byKind` is the text of the event's `by_kind`. -/
def validate (byKind : String) (e : Event) : Except Invalid Unit := do
  require (validID e.id) (.eventID e.id)
  require (e.at_ ≠ Time.zero) .zeroTime
  require ((attribution byKind).isSome) (.byKind byKind)
  (required e).forM fun (flag, value) => require (value ≠ "") (.missing e.kind flag)
  require (e.kind ≠ .laneLink || (e.pr ≠ "") != (e.repo ≠ "")) (.oneOf e.kind)
  require (e.kind ≠ .assign || e.lane ≠ "") .noChange
  require (e.lane = "" || validID e.lane) (.laneID e.lane)
  require (e.kind ≠ .laneUpdated || e.laneName ≠ "" || e.lead ≠ "") .noChange
  if e.laneName ≠ "" then validLaneName e.laneName
  require (e.pr = "" || isPR e.pr.toList) (.pr e.pr)
  require (e.repo = "" || isRepo e.repo.toList) (.repo e.repo)
  require (!hasControl e.name && !hasControl e.by_ && !hasControl e.lead) .control

/-! ## The session -/

/-- In which order one call ranges through its map of lanes. -/
structure LaneRanging where
  list : Keyed LaneView → List (String × LaneView)
  mem : ∀ lanes id lane, (id, lane) ∈ list lanes ↔ lanes.lookup id = some lane
  once : ∀ lanes, ((list lanes).map (·.1)).Nodup

/-- The flags of the verbs that write. -/
structure Options where
  lead : String := ""
  by_ : String := ""
  byKind : String := ""
  remove : Bool := false
  positional : List String
  deriving DecidableEq

structure Session where
  proj : Projection
  roster : List BusRow
  opts : Options
  now : Time
  /-- What `NewID` answers for the first and the second event. -/
  ids : String × String
  /-- `DefaultBy`, from the environment. -/
  defaultBy : String × String
  ranging : LaneRanging

def Session.lanes (s : Session) : List LaneView := (s.ranging.list s.proj.lanes).map (·.2)

def Session.members (s : Session) (lane : String) : List String := s.proj.laneMembers s.roster lane

section

variable (orbit : Char → Char)

/-- A lane by its id, or by its name where one lane, or one with a live member, has it. -/
def Session.resolve (s : Session) (ref : String) : Except Refusal LaneView :=
  match s.proj.lanes.lookup ref with
  | some lane => .ok lane
  | none =>
    let named := s.lanes.filter fun lane => equalFold orbit lane.name ref
    match named, named.filter fun lane => s.members lane.id ≠ [] with
    | [lane], _ => .ok lane
    | _, [lane] => .ok lane
    | [], _ => .error (.noLane ref)
    | _, _ => .error (.ambiguous ref ((named.map (·.id)).mergeSort fun a b => a ≤ b))

/-- Refuses the name of another lane with a live member. -/
def Session.nameTaken (s : Session) (name except : String) : Except Refusal Unit :=
  match s.lanes.find? fun lane => lane.id ≠ except && equalFold orbit lane.name name && s.members lane.id ≠ [] with
  | some lane => .error (.taken name lane.id)
  | none => .ok ()

end

/-- The full roster name of a seat, which every verb stores and compares. -/
def Session.seat (s : Session) (name : String) : String :=
  if s.roster.any (·.name = name) then name
  else ((byUniqueBaseName s.roster name).map (·.name)).getD name

def Session.seatView (s : Session) (seat : String) : Option AgentView :=
  match s.roster.find? (·.name = seat) with
  | some row => s.proj.viewForRoster s.roster row
  | none => s.proj.view seat none

/-- Refuses to move a seat out of a lane that it leads. -/
def Session.leaving (s : Session) (seat target : String) : Except Refusal Unit :=
  match s.seatView seat with
  | none => .ok ()
  | some view =>
    -- A seat that is in no lane, or already in that one, leaves none.
    if view.laneID = "" ∨ view.laneID = target then .ok ()
    else
      match s.proj.lanes.lookup view.laneID with
      | none => .ok ()
      | some lane =>
        if s.seat lane.lead = seat then .error (.leads seat lane.name lane.id) else .ok ()

def Session.inLane (s : Session) (seat lane : String) : Bool :=
  (s.seatView seat).any (·.laneID = lane)

/-- Who writes; without `--by` the environment also gives the kind. -/
def Session.writer (s : Session) : String × String :=
  let (who, kind) := if s.opts.by_ = "" then s.defaultBy else (s.opts.by_, s.opts.byKind)
  (who, if kind = "" then "agent" else kind)

def Session.event (s : Session) (id : String) (kind : EventKind) : Event :=
  { id, at_ := s.now, kind, by_ := s.writer.1, byKind := attribution s.writer.2 }

def Session.assign (s : Session) (id seat lane : String) : Event :=
  { s.event id .assign with name := seat, lane }

end AiConfig.Herder.Agents.Lanes
