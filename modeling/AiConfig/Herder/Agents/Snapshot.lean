import AiConfig.Herder.Agents.Journal
import AiConfig.Herder.Agents.Projection

/-! # Replay and the snapshot

Transcription of `internal/agentstore/snapshot.go`: a replay folds the whole journal under the
names that `replayAliases` finds in it, a load folds what the journal has after the snapshot. -/

namespace AiConfig.Herder.Agents

open AiConfig.Lib

/-! ## Aliases -/

structure ReplayAlias where
  full : String
  manager : String
  start : Time
  /-- Zero while the window is open. -/
  stop : Time
  deriving DecidableEq

def ReplayAlias.contains (window : ReplayAlias) (time : Time) : Bool :=
  window.start ≤ time && (window.stop = Time.zero || time < window.stop)

/-- The aliases by base name, as a Go map in some order. -/
abbrev Aliases := List (String × ReplayAlias)

/-- The last request of an id. -/
def requestNamed (events : List Event) (id : String) : Option Event :=
  (events.filter fun e => e.kind = .launchRequested && e.id = id).getLast?

/-- What follows the tag and a dash. -/
def baseOf (tag name : String) : Option String :=
  match name.toList.dropPrefix? (tag ++ "-").toList with
  | some (first :: rest) => some (String.ofList (first :: rest))
  | _ => none

/-- The window ends at the first closing fact of the full name after its start. -/
def ReplayAlias.close (window : ReplayAlias) (e : Event) : ReplayAlias :=
  if e.name = window.full && closes e.kind && window.start < e.at_ &&
      (window.stop = Time.zero || e.at_ < window.stop) then
    { window with stop := e.at_ }
  else window

def candidate (events : List Event) (e : Event) : Option (String × ReplayAlias) :=
  if e.kind = .launchReady ∧ e.request ≠ "" then
    match requestNamed events e.request with
    | none => none
    | some request =>
      -- Without a tag the full name is the base name.
      if request.tag = "" then none
      else
        (baseOf request.tag e.name).map fun base =>
          (base, events.foldl ReplayAlias.close ⟨e.name, "", request.at_, Time.zero⟩)
  else none

/-- The first `mirror.ready` of the base name in the window. -/
def readyIn (events : List Event) (base : String) (window : ReplayAlias) : Option Event :=
  events.find? fun e => e.kind = .mirrorReady && e.name = base && window.contains e.at_

def matched (events : List Event) : Aliases :=
  (events.filterMap (candidate events)).filter fun (base, window) =>
    (readyIn events base window).isSome

/-- A base name is eligible when exactly one launch window has a `mirror.ready` of it. -/
def replayAliases (events : List Event) : Aliases :=
  (matched events).filterMap fun (base, window) =>
    if ((matched events).filter (·.1 = base)).length = 1 then
      some (base, { window with manager := ((readyIn events base window).map (·.by_)).getD "" })
    else none

def renamed (aliases : Aliases) (time : Time) (name : String) : String :=
  match aliases.lookup name with
  | some window => if window.contains time then window.full else name
  | none => name

def rename (aliases : Aliases) (e : Event) : Event :=
  { e with name := renamed aliases e.at_ e.name, instances := e.instances.map (renamed aliases
    e.at_) }

/-! ## The manager repair -/

def ReplayAlias.repairs (window : ReplayAlias) (v : AgentView) : Bool :=
  window.contains v.firstSeen && v.managerAt = none && v.provenance.launcherKind = some .user &&
    window.manager ≠ ""

def ReplayAlias.repair (window : ReplayAlias) (v : AgentView) : AgentView :=
  if window.repairs v then { v with manager := window.manager } else v

def Projection.repair (p : Projection) (window : ReplayAlias) : Projection :=
  match p.agents.lookup window.full with
  | some views => { p with agents := p.agents.insert window.full (views.map window.repair) }
  | none => p

/-- In which order one call ranges through its map of aliases. -/
structure Ranging where
  list : Aliases → Aliases
  perm : ∀ aliases, (list aliases).Perm aliases

/-! ## Replay and load -/

def foldRenamed (aliases : Aliases) (events : List Event) : Projection :=
  (events.map (rename aliases)).foldl Projection.apply .new

def replayEvents (ranging : Ranging) (events : List Event) : Projection :=
  ((ranging.list (replayAliases events)).map (·.2)).foldl Projection.repair
    (foldRenamed (replayAliases events) events)

structure AgentStore where
  events : List UInt8
  /-- What `snapshot.json` decodes to: every field of a projection is written and read back. -/
  snapshot : Option Projection

section

variable (codec : EventCodec Event)

/-- The events from an offset on, and the offset after the last complete line. -/
def scanEnd (bytes : List UInt8) (start : Nat) : List Event × Nat :=
  let records := wholeRecords newline start [] (bytes.drop start)
  (records.filterMap fun record => codec.decode record.2,
    ((records.getLast?).map fun record => record.1 + record.2.length).getD start)

def replay (ranging : Ranging) (bytes : List UInt8) : Projection :=
  { replayEvents ranging (scanEnd codec bytes 0).1 with eventsOffset := (scanEnd codec bytes 0).2 }

/-- The snapshot, unless its offset is no record boundary of the file. -/
def AgentStore.readSnapshot (store : AgentStore) : Option Projection :=
  match store.snapshot with
  | none => none
  | some p =>
    if p.version ≠ projectionVersion ∨ p.eventsOffset > store.events.length then none
    else if p.eventsOffset = 0 ∨ store.events[p.eventsOffset - 1]? = some newline then some p
    else none

/-- A mirrored fact of an agent that the snapshot does not know asks for a replay. -/
def unknownMirror (p : Projection) (e : Event) : Bool :=
  e.kind.isMirror && e.name ≠ "" && (p.latest e.name).isNone

def loadTail (p : Projection) (events : List Event) : Projection × Bool :=
  events.foldl (fun (p, replayTail) e => (p.apply e, replayTail || unknownMirror p e)) (p, false)

def AgentStore.load (store : AgentStore) (ranging : Ranging) : Projection :=
  match store.readSnapshot with
  | none => replay codec ranging store.events
  | some p =>
    let (events, stop) := scanEnd codec store.events p.eventsOffset
    let (p, replayTail) := loadTail p events
    if replayTail then replay codec ranging store.events else { p with eventsOffset := stop }

end

end AiConfig.Herder.Agents
