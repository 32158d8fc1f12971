import AiConfig.Lib.Forest
import AiConfig.Herder.Fleet.Join

/-! # The board

Transcription of `Build` of `internal/fleetview/fleet.go`.  `attachChildren` has fuel for
its recursion; `none` is a recursion that did not end.  What `FoldBoard` adds is left out. -/

namespace AiConfig.Herder.Fleet

open AiConfig.Lib

/-- `bus` is copied from the row, as its other fields are. -/
structure Pane where
  paneID : String
  label : String
  currentCommand : String
  agentSession : String
  agent : String
  tool : String
  herdrStatus : String
  busStatus : String
  gap : String
  subagents : List Row
  bus : Option BusRow

structure Tab where
  tabID : String
  number : Int
  label : String
  focused : Bool
  paneCount : Int
  agentStatus : String
  panes : List Pane

structure Workspace where
  workspaceID : String
  worktreeOf : String
  number : Int
  label : String
  focused : Bool
  paneCount : Int
  tabCount : Int
  activeTabID : String
  agentStatus : String
  tabs : List Tab

structure Board where
  workspaces : List Workspace
  unplaced : List Row

/-! ## Nesting -/

/-- `rowsByAgent`, `children` and `provenChildren`. -/
structure Nesting where
  rows : String → Option Row
  children : String → List String
  proven : List String

def rowsByAgent (rows : List Row) (agent : String) : Option Row :=
  rows.reverse.find? fun row => row.busStatus ≠ "-" ∧ row.agent = agent

def Nesting.link (roster : List BusRow) (nesting : Nesting) (child : BusRow) : Nesting :=
  match parent roster child with
  | none => nesting
  | some up =>
    -- Both must have a row on the board.
    match nesting.rows child.name, nesting.rows up.name with
    | some row, some _ =>
      { rows := Function.update nesting.rows child.name (some { row with parentAgent := up.name })
        children :=
          Function.update nesting.children up.name (nesting.children up.name ++ [child.name])
        proven := child.name :: nesting.proven }
    | _, _ => nesting

def nestingOf (snapshot : Snapshot) (roster : List BusRow) : Nesting :=
  roster.foldl (Nesting.link roster) ⟨rowsByAgent (joinRows snapshot roster), fun _ => [], []⟩

/-- A key that the map lacks reads as the zero row. -/
def Nesting.row (nesting : Nesting) (agent : String) : Row :=
  (nesting.rows agent).getD ⟨"", "", "", "", "", "", "", [], none⟩

def attachChildren (nesting : Nesting) : Nat → List String → Row → Option Row
  | 0, _, _ => none
  | fuel + 1, ancestors, row =>
    if row.agent ∈ ancestors then some row
    else do
      let nested ← (nesting.children row.agent).mapM fun child =>
        attachChildren nesting fuel (row.agent :: ancestors) (nesting.row child)
      let nested := nested.insertionSort fun a b => ¬ b.agent < a.agent
      some (if nested = [] then row else { row with subagents := nested })

/-! ## Building -/

def Nesting.top (nesting : Nesting) (fuel : Nat) (row : Row) : Option Row :=
  if row.busStatus ≠ "-" then attachChildren nesting fuel [] row else some row

def topRows (nesting : Nesting) (fuel : Nat) (rows : List Row) : Option (List Row) :=
  (rows.filter fun row => ¬ (row.agent ∈ nesting.proven ∧ row.busStatus ≠ "-")).mapM
    (nesting.top fuel)

def SourcePane.plain (source : SourcePane) : Row :=
  if source.agent = "" ∧ source.agentSession = "" then
    { pane := source.paneID
      agent := "-"
      tool := "-"
      herdrStatus := "-"
      busStatus := "-"
      gap := "-" }
  else
    { pane := source.paneID
      agent := display source.label
      tool := display source.agent
      herdrStatus := display (first [source.agentStatus, "visible"])
      busStatus := "-"
      gap := "no bus row" }

def rowAt (top : List Row) (paneID : String) : Option Row :=
  top.reverse.find? fun row => row.pane ≠ "-" ∧ row.pane = paneID

def boardPane (top : List Row) (source : SourcePane) : Pane :=
  let row := (rowAt top source.paneID).getD source.plain
  ⟨source.paneID, source.label, source.currentCommand, source.agentSession, row.agent, row.tool,
    row.herdrStatus, row.busStatus, row.gap, row.subagents, row.bus⟩

def boardTab (snapshot : Snapshot) (top : List Row) (source : SourceTab) : Tab :=
  ⟨source.tabID, source.number, source.label, source.focused, source.paneCount, source.agentStatus,
    (snapshot.panes.filter (·.tabID = source.tabID)).map (boardPane top)⟩

def boardWorkspace (snapshot : Snapshot) (worktreeParents : String → String) (top : List Row)
    (source : SourceWorkspace) : Workspace :=
  ⟨source.workspaceID, worktreeParents source.workspaceID, source.number, source.label,
    source.focused,
    source.paneCount, source.tabCount, source.activeTabID, source.agentStatus,
    (snapshot.tabs.filter (·.workspaceID = source.workspaceID)).map (boardTab snapshot top)⟩

def build (fuel : Nat) (snapshot : Snapshot) (roster : List BusRow)
    (worktreeParents : String → String) :
    Option Board := do
  let top ← topRows (nestingOf snapshot roster) fuel (joinRows snapshot roster)
  some ⟨snapshot.workspaces.map (boardWorkspace snapshot worktreeParents top),
    top.filter (·.pane = "-")⟩

/-! ## What the board shows -/

mutual

/-- A row and the rows nested in it. -/
def Row.all (row : Row) : List Row :=
  match row with
  | ⟨_, _, _, _, _, _, _, subagents, _⟩ => row :: allOf subagents

def allOf : List Row → List Row
  | [] => []
  | row :: rest => row.all ++ allOf rest

end

/-- The row a pane was made from. -/
def Pane.row (pane : Pane) : Row where
  pane := pane.paneID
  agent := pane.agent
  tool := pane.tool
  herdrStatus := pane.herdrStatus
  busStatus := pane.busStatus
  gap := pane.gap
  subagents := pane.subagents
  bus := pane.bus

def Board.panes (board : Board) : List Pane :=
  board.workspaces.flatMap fun workspace => workspace.tabs.flatMap (·.panes)

/-- The panes with their workspaces and tabs. -/
def Board.places (board : Board) : List (String × String × String) :=
  board.workspaces.flatMap fun workspace => workspace.tabs.flatMap fun tab =>
    tab.panes.map fun pane => (workspace.workspaceID, tab.tabID, pane.paneID)

/-- Every row on the board: of a pane, unplaced, or nested in one of these. -/
def Board.rows (board : Board) : List Row := allOf (board.panes.map Pane.row ++ board.unplaced)

end AiConfig.Herder.Fleet
