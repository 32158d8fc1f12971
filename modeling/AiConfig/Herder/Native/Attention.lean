import AiConfig.Herder.Markers.Model
import Mathlib.Tactic.Common
import Std.Data.ExtTreeMap
import Std.Data.ExtTreeSet

/-! # What needs the owner

Transcription of the native client's `store/attention.rs`, with the board of `store/fleet.rs`, the
unread rule of `store/markers.rs` and the order of `Store::apply`.  What other events make of the
read markers, the spaces, the prefs and the transcript in view is left open: an event says what it
leaves of them. -/

namespace AiConfig.Herder.NativeAttention

open Std

/-! ## The board -/

inductive Pane where
  | mk (agent herdrStatus busStatus : String) (turnEndID : Option Nat) (subagents : List Pane)

structure Tab where
  panes : List Pane

structure Workspace where
  tabs : List Tab

structure Board where
  workspaces : List Workspace
  unplaced : List Pane

structure Agent where
  name : String
  herdrStatus : String
  busStatus : String
  /-- The id of the latest completed turn. -/
  turnEnd : Option Nat
  deriving DecidableEq

inductive Status where
  | working | done | idle | blocked
  deriving DecidableEq

def Agent.status (a : Agent) : Status :=
  if a.busStatus = "blocked" ∨ a.herdrStatus = "blocked" then .blocked
  else if a.herdrStatus = "working" then .working
  else if a.herdrStatus = "done" then .done
  else .idle

mutual

/-- A row that names a bus agent, then its subagents'. -/
def Pane.walk : Pane → List Agent
  | .mk agent herdrStatus busStatus turnEndID subagents =>
    (if agent ≠ "" ∧ agent ≠ "-" then [⟨agent, herdrStatus, busStatus, turnEndID⟩] else []) ++
      walkAll subagents

def walkAll : List Pane → List Agent
  | [] => []
  | pane :: panes => pane.walk ++ walkAll panes

end

def agentRows (board : Board) : List Agent :=
  walkAll (board.workspaces.flatMap fun workspace => workspace.tabs.flatMap Tab.panes) ++
    walkAll board.unplaced

abbrev Fleet := ExtTreeMap String Agent

/-- The fleet is replaced: agents missing from the board are gone, and a later row of one name wins.
-/
def ingest (board : Board) : Fleet :=
  (agentRows board).foldl (fun agents a => agents.insert a.name a) ∅

/-! ## Unread -/

/-- `markers::turn_end`: none for a retired or stopped agent. -/
def turnEnd (a : Agent) : Option Nat :=
  a.turnEnd.filter fun turn => 0 < turn ∧ a.busStatus ∉ ["retired", "stopped"]

inductive Attention where
  | blocked | unread
  deriving DecidableEq

def attention (a : Option Agent) (m : Option ReadMarker) : Option Attention :=
  if a.any (·.busStatus = "blocked") then some .blocked
  else if m.any (·.unread) then some .unread
  else
    match a.filter (·.busStatus ∈ ["listening", "active"]) with
    | none => none
    | some a =>
      match turnEnd a, m with
      | some turn, some m => if m.turn < turn then some .unread else none
      | _, _ => none

def unread (a : Option Agent) (m : Option ReadMarker) : Bool :=
  m.any (·.unread) || attention a m = some .unread

abbrev Markers := String → Option ReadMarker

/-- Needs-you against the read markers and the viewed blocks. -/
def needs (a : Agent) (read : Markers) (blocks : ExtTreeSet String) : Bool :=
  let block := a.status = .blocked && !blocks.contains a.name
  block || unread (some a) (read a.name)

/-! ## The store -/

/-- Which lens row a space sits in. -/
inductive Row where
  | focus | watch | background
  deriving DecidableEq

structure Space where
  id : String
  name : String
  agents : List String
  /-- `self.row(space)` -/
  row : Row

structure Notice where
  tag : String
  title : String
  body : String
  deriving DecidableEq

/-- An alert needs a move into eligibility and a cause not yet spent. -/
structure Mark where
  eligible : Bool
  /-- The latest turn alerted, or baselined, or seen while looking. -/
  turn : Option Nat
  /-- This block was alerted. -/
  block : Bool
  deriving DecidableEq

structure Alerts where
  marks : ExtTreeMap String Mark
  /-- A live board has been applied. -/
  live : Bool
  /-- Its baseline is taken. -/
  armed : Bool
  /-- Agents that turned to need the owner during the burst, in order. -/
  burst : List String
  /-- The dock count last shown. -/
  badge : Nat
  /-- The app is frontmost. -/
  front : Bool

/-- The transcript in view. -/
structure Focused where
  agent : String
  /-- It follows its tail. -/
  tail : Bool

structure Store where
  fleet : Fleet
  markers : Markers
  /-- The blocks that the owner viewed. -/
  blocks : ExtTreeSet String
  spaces : List Space
  focused : Option Focused
  /-- Live data has arrived: a snapshot is refused. -/
  live : Bool
  alerts : Alerts

def Store.default : Store where
  fleet := ∅
  markers := fun _ => none
  blocks := ∅
  spaces := []
  focused := none
  live := false
  alerts := ⟨∅, false, false, [], 0, false⟩

inductive Effect where
  /-- Wake the end of the burst after this long. -/
  | after (afterMs : Nat)
  | persistPrefs
  | notify (notice : Notice)
  | badge (count : Nat)
  deriving DecidableEq

/-- A burst of agents that turn to need the owner within this long is one notification. -/
def BURST_MS : Nat := 1000

namespace Store

def agentNeedsYou (s : Store) (name : String) : Bool :=
  s.fleet[name]?.any fun a => needs a s.markers s.blocks

def needsYouTotal (s : Store) : Nat := s.fleet.keys.countP s.agentNeedsYou

/-- The agent that the owner looks at is never alerted. -/
def lookingAt (s : Store) : Option String :=
  (s.focused.filter fun _ => s.alerts.front).map Focused.agent

def watched (s : Store) : Option String :=
  (s.focused.filter fun focused => focused.tail && s.alerts.front).map Focused.agent

/-- The space that holds an agent, from the first lens row. -/
def home (s : Store) (agent : String) : Option Space :=
  let holding := s.spaces.filter fun space => agent ∈ space.agents
  [Row.focus, .watch, .background].findSome? fun row => holding.find? fun space => space.row = row

/-! ## After a new board -/

def blocked (fleet : Fleet) (name : String) : Option Bool :=
  fleet[name]?.map fun a => a.status = .blocked

/-- A block mark lapses once its agent is no longer blocked, or neither on the board nor in a space.
-/
def reseen (s : Store) : Store × List Effect :=
  let member := fun name => s.spaces.any fun space => name ∈ space.agents
  let blocks := s.blocks.filter fun name => (blocked s.fleet name).getD true &&
    (s.fleet.contains name || member name)
  ({ s with blocks := blocks }, if blocks.size ≠ s.blocks.size then [.persistPrefs] else [])

def board (s : Store) (board : Board) (live : Bool) : Store × List Effect :=
  { s with fleet := ingest board, alerts.live := s.alerts.live || live }.reseen

/-- The owner has looked: the agent's block, if it is blocked now, is viewed. -/
def viewBlock (s : Store) (name : String) : Store × List Effect :=
  if (blocked s.fleet name).getD false && !s.blocks.contains name then
    ({ s with blocks := s.blocks.insert name }, [.persistPrefs])
  else (s, [])

/-- A block that lands while the owner watches its agent's tail is viewed. -/
def watch (s : Store) : Store × List Effect :=
  match s.watched with
  | some name => s.viewBlock name
  | none => (s, [])

/-! ## Alerts -/

/-- `turn > mark.turn`, where no turn is the least. -/
def later (turn mark : Option Nat) : Bool :=
  match turn, mark with
  | some turn, some mark => mark < turn
  | some _, none => true
  | none, _ => false

end Store

/-- What the loop of `transitions` finds of one agent. -/
structure Seen where
  turn : Option Nat
  blocked : Bool
  eligible : Bool
  armed : Bool
  mark : Mark
  deriving DecidableEq

namespace Seen

/-- Armed, it moves into eligibility. -/
def moved (seen : Seen) : Bool := seen.armed && seen.eligible && !seen.mark.eligible

def forTurn (seen : Seen) : Bool := seen.moved && Store.later seen.turn seen.mark.turn

def forBlock (seen : Seen) : Bool := seen.moved && seen.blocked && !seen.mark.block

def alert (seen : Seen) : Bool := seen.forTurn || seen.forBlock

/-- The mark that is left. -/
def next (seen : Seen) : Mark :=
  let mark :=
    if seen.alert || !seen.armed then
    { seen.mark with turn := seen.turn, block := seen.blocked } else seen.mark
  { mark with eligible := seen.eligible }

end Seen

namespace Store

/-- An agent as the loop finds it: a new one's mark spends the turn it has. -/
def seen (s : Store) (alerts : Alerts) (name : String) (a : Agent) : Seen :=
  let blocked : Bool := a.status = .blocked
  let mark := alerts.marks[name]?.getD ⟨false, a.turnEnd, false⟩
  ⟨a.turnEnd, blocked, needs a s.markers s.blocks, alerts.armed,
    { mark with block := mark.block && blocked }⟩

/-- One agent of the loop: alerted, it joins the burst once, unless the owner looks at it. -/
def see (s : Store) (alerts : Alerts) (name : String) (a : Agent) : Alerts :=
  let seen := s.seen alerts name a
  { alerts with
    burst :=
      if seen.alert && s.lookingAt ≠ some name && !alerts.burst.contains name then alerts.burst ++
        [name] else alerts.burst
    marks := alerts.marks.insert name seen.next }

/-- After every event: an agent that moves into eligibility with an unspent cause joins the burst.
-/
def transitions (s : Store) : Store × List Effect :=
  let alerts := s.fleet.foldl s.see s.alerts
  let alerts :=
    { alerts with marks := alerts.marks.filter fun name _ => s.fleet.contains name, armed := alerts.live }
  ({ s with alerts := alerts },
    if s.alerts.burst.isEmpty && !alerts.burst.isEmpty then [.after BURST_MS] else [])

/-- One notification for those that still need the owner, a summary for several. -/
def burstEnded (s : Store) : Store × List Effect :=
  -- Those looked after meanwhile are left out.
  let due := (s.alerts.burst.filter fun a => s.agentNeedsYou a && s.lookingAt ≠ some a).map fun a =>
    (a, s.home a)
  let name := fun (space : Option Space) => (space.map Space.name).getD "no space"
  let reason := fun a => if (blocked s.fleet a).getD false then "blocked" else "your turn"
  let s := { s with alerts.burst := [] }
  match due with
  | [] => (s, [])
  | [(agent, space)] =>
      (s, [.notify ⟨"agent:" ++ agent, agent ++ " · " ++ name space, reason agent⟩])
  | (_, first) :: _ =>
    let line := fun (a, space) => a ++ " · " ++ name space ++ " (" ++ reason a ++ ")"
    (s, [.notify ⟨(first.map fun space => "space:" ++ space.id).getD "lens",
      toString due.length ++ " agents need you",
      "\n".intercalate (due.map line)⟩])

/-- The dock badge, when it changes, and at boot whatever it is. -/
def showBadge (s : Store) (all : Bool) : Store × List Effect :=
  let n := s.needsYouTotal
  ({ s with alerts.badge := n }, if s.alerts.badge ≠ n || all then [.badge n] else [])

end Store

/-! ## Events -/

/-- What an event that is no board leaves of what the alerts read. -/
structure Rest where
  markers : Markers
  blocks : ExtTreeSet String
  spaces : List Space
  focused : Option Focused
  /-- A pull answered. -/
  live : Bool

inductive Event where
  | boot
  /-- The last board, from the disk, with the spaces of the rows beside it. -/
  | snapshot (board : Board) (spaces : List Space)
  /-- A full board from the stream. -/
  | fleet (board : Board)
  | front (front : Bool)
  /-- The burst's second is up. -/
  | burst
  | other (rest : Rest)

def Event.isFleet : Event → Bool
  | .fleet _ => true
  | _ => false

def Event.isBoot : Event → Bool
  | .boot => true
  | _ => false

/-- An event, and what reading and seeding after it leave of the markers. -/
structure Input where
  event : Event
  read : Markers

namespace Store

def handle (s : Store) : Event → Store × List Effect
  | .boot => (s, [])
  | .snapshot board spaces =>
    if s.live then (s, []) else { s with spaces := spaces }.board board false
  | .fleet board => { s with live := true }.board board true
  | .front front => ({ s with alerts.front := front }, [])
  | .burst => s.burstEnded
  | .other rest =>
    ({ s with
        markers := rest.markers
        blocks := rest.blocks
        spaces := rest.spaces
        focused := rest.focused
        live := s.live || rest.live },
      [])

/-- The store as `transitions` finds it. -/
def ready (s : Store) (input : Input) : Store :=
  { (s.handle input.event).1.watch.1 with markers := input.read }

def apply (s : Store) (input : Input) : Store × List Effect :=
  let handled := s.handle input.event
  let watched := handled.1.watch
  let moved := (s.ready input).transitions
  let shown := moved.1.showBadge input.event.isBoot
  (shown.1, handled.2 ++ watched.2 ++ moved.2 ++ shown.2)

def run (s : Store) (inputs : List Input) : Store :=
  inputs.foldl (fun s input => (s.apply input).1) s

end Store

end AiConfig.Herder.NativeAttention
