import AiConfig.Lib.Js

/-! # The native client's docks

Transcription of `restore` and `mark` of the native client's `views/dock.rs`.  A list of agents is
threaded through the saved tree: those that have a tab already. -/

namespace AiConfig.Herder.NativeDock

open AiConfig.Lib

/-! ## Trees -/

inductive Axis where
  | horizontal | vertical
  deriving DecidableEq

inductive PanelInfo (Pixels : Type) where
  | stack (sizes : List Pixels) (axis : Nat)
  | tabs (activeIndex : Nat)
  | panel (info : Js)

/-- The kit's dump of a dock. -/
inductive PanelState (Pixels : Type) where
  | mk (info : PanelInfo Pixels) (children : List (PanelState Pixels))

/-- A dock as laid out by agent. -/
inductive Tree (Pixels : Type) where
  | split (axis : Axis) (children : List (Tree Pixels × Option Pixels))
  | tabs (agents : List String) (active : Nat)

/-- `info.get("agent").and_then(|a| a.as_str())` -/
def agentOf : Js → Option String
  | .object fields =>
    match fieldOf fields "agent" with
    | some (.string agent) => some agent
    | _ => none
  | _ => none

section

variable {Pixels : Type}

def agent : PanelState Pixels → Option String
  | .mk (.panel info) _ => agentOf info
  | _ => none

def marked : PanelState Pixels → Bool
  | .mk (.panel (.object fields)) _ => fieldOf fields "preview" = some (.bool true)
  | _ => false

def axisOf (axis : Nat) : Axis := if axis = 0 then .horizontal else .vertical

/-! ## Groups -/

/-- A tab of an agent that is no member and has no tab yet. -/
def outside (members placed : List String) (tab : PanelState Pixels) : Bool :=
  (agent tab).any fun agent => agent ∉ members ∧ agent ∉ placed

/-- The one agent that is no member and is kept. -/
def previewOf (members placed : List String) (tabs : List (PanelState Pixels)) : Option String :=
  let outside := tabs.filter (outside members placed)
  (outside.find? marked <|> outside.head?).bind agent

structure Walk where
  agents : List String
  active : Nat
  placed : List String
  deriving DecidableEq

def Walk.step (members : List String) (preview : Option String) (activeIndex : Nat) (walk : Walk)
    (tab : PanelState Pixels × Nat) : Walk :=
  match agent tab.1 with
  | none => walk
  | some agent =>
    if agent ∈ walk.placed ∨ agent ∉ members ∧ preview ≠ some agent then walk
    else
      { agents := walk.agents ++ [agent]
        active := if tab.2 ≤ activeIndex then walk.agents.length else walk.active
        placed := walk.placed ++ [agent] }

/-! ## Restoring -/

variable (positive : Pixels → Bool) (members : List String)

mutual

/-- What is left of a node, and the agents placed then. -/
def reconcile : PanelState Pixels → List String → Option (Tree Pixels) × List String
  | .mk (.stack sizes axis) children, placed =>
    let (children, placed) := reconcileAll sizes 0 children placed
    (if children.isEmpty then none else some (.split (axisOf axis) children), placed)
  | .mk (.tabs activeIndex) children, placed =>
    let preview := previewOf members placed children
    let walk := children.zipIdx.foldl (Walk.step members preview activeIndex) ⟨[], 0, placed⟩
    (if walk.agents.isEmpty then none else some (.tabs walk.agents walk.active), walk.placed)
  | .mk (.panel _) _, placed => (none, placed)

def reconcileAll (sizes : List Pixels) : Nat → List (PanelState Pixels) → List String → List
    (Tree Pixels × Option Pixels) × List String
  | _, [], placed => ([], placed)
  | i, child :: children, placed =>
    let size := sizes[i]?.filter positive
    let (tree, placed) := reconcile child placed
    let (trees, placed) := reconcileAll sizes (i + 1) children placed
    ((tree.map fun tree => (tree, size)).toList ++ trees, placed)

end

/-- `first_tabs(&mut tree)?.extend(missing)` -/
def extendFirst (missing : List String) : Tree Pixels → Option (Tree Pixels)
  | .tabs agents active => some (.tabs (agents ++ missing) active)
  | .split _ [] => none
  | .split axis ((child, size) :: children) => (extendFirst missing child).map fun child =>
      .split axis ((child, size) :: children)

def restore (saved : PanelState Pixels) : Option (Tree Pixels) :=
  let (tree, placed) := reconcile positive members saved []
  tree.bind (extendFirst (members.filter (· ∉ placed)))

/-! ## Marking -/

/-- A tab of an agent that is no member is marked. -/
def markInfo : PanelInfo Pixels → PanelInfo Pixels
  | .panel (.object fields) =>
    if (agentOf (.object fields)).any (· ∉ members) then .panel
      (.object (withField fields "preview" (.bool true)))
    else .panel (.object fields)
  | info => info

mutual

def mark : PanelState Pixels → PanelState Pixels
  | .mk info children => .mk (markInfo members info) (markAll children)

def markAll : List (PanelState Pixels) → List (PanelState Pixels)
  | [] => []
  | child :: children => mark child :: markAll children

end

end

end AiConfig.Herder.NativeDock
