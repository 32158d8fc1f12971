import AiConfig.Herder.Layout.Panels
import Mathlib.Algebra.Order.Ring.Unbundled.Rat

/-! # Stored docks

Transcription of the reading side of `dockLayout.ts`: `migrateRetiredPanels`, `sanitizeStoredDock`,
`parseStoredLayoutResult` and `parseStoredSpaceLayout`.  A parser gives null where something throws,
so that `none` is either.  A `Set` of panel ids is a list. -/

namespace AiConfig.Herder.Layout

open AiConfig.Lib

/-! ## Records -/

def stringOf : Js → Option String
  | .string text => some text
  | _ => none

/-- `strings(value)`, with the strings. -/
def strings : Js → Option (List String)
  | .array items => items.mapM stringOf
  | _ => none

def texts (items : List String) : Js := .array (items.map .string)

def stringField (fields : Fields) (name : String) : Option String :=
  (fieldOf fields name).bind stringOf

def recordField (fields : Fields) (name : String) : Option Fields :=
  match fieldOf fields name with
  | some (.object value) => some value
  | _ => none

def arrayField (fields : Fields) (name : String) : Option (List Js) :=
  match fieldOf fields name with
  | some (.array items) => some items
  | _ => none

theorem sizeOf_arrayField {fields : Fields} {name : String} {items : List Js}
    (held : arrayField fields name = some items)
    {item : Js} (inside : item ∈ items) : sizeOf item < sizeOf (Js.object fields) := by
  have found : fieldOf fields name = some (.array items) := by
    unfold arrayField at held
    split at held
    · next found => rw [found, Option.some.inj held]
    · cases held
  have smaller := sizeOf_fieldOf found
  have item := List.sizeOf_lt_of_mem inside
  simp only [Js.array.sizeOf_spec, Js.object.sizeOf_spec] at smaller ⊢
  omega

/-! ## Validity -/

/-- A leaf's data: an id, views that are all panels, and an active one of them, if any. -/
def validLeaf (panelIDs : List String) (data : Fields) : Bool :=
  match stringField data "id", (fieldOf data "views").bind strings with
  | some _, some views =>
    !views.isEmpty && views.all (· ∈ panelIDs) &&
      match fieldOf data "activeView" with
      | none => true
      | some activeView => (stringOf activeView).any (· ∈ views)
  | _, _ => false

def validGridNode (panelIDs : List String) : Js → Bool
  | .object value =>
    if stringField value "type" = some "branch" then
      match _held : arrayField value "data" with
      | some nodes => !nodes.isEmpty && nodes.attach.all fun ⟨child, _⟩ =>
          validGridNode panelIDs child
      | none => false
    else if stringField value "type" = some "leaf" then
      (recordField value "data").any (validLeaf panelIDs)
    else false
  | _ => false
termination_by value => sizeOf value
decreasing_by exact sizeOf_arrayField (by assumption) (by assumption)

/-- `panelParams(serialized.params)` -/
def paramsOf (serialized : Fields) : Option (Option Params) :=
  match fieldOf serialized "params" with
  | none => some none
  | some params => panelParams params

def validPanel (id : String) : Js → Bool
  | .object serialized =>
    stringField serialized "id" = some id &&
      match paramsOf serialized with
      | some (some params) => stringField serialized "contentComponent" = some params.kind &&
          panelID params = id
      | _ => false
  | _ => false

def transientGroups : List String := ["floatingGroups", "popoutGroups", "edgeGroups"]

def validDock (value : Fields) : Bool :=
  match recordField value "panels", (recordField value "grid").bind (fieldOf · "root") with
  | some panels, some (.object root) =>
    stringField root "type" = some "branch" &&
      transientGroups.all (fun name => (fieldOf value name).isNone) &&
      !panels.isEmpty && panels.all (fun panel => validPanel panel.1 panel.2) &&
      validGridNode (panels.map Prod.fst) (.object root)
  | _, _ => false

/-! ## Pruning -/

/-- `size` and `visible` of a node, spread over another. -/
def withAttributes (value out : Fields) : Fields :=
  let out :=
    match fieldOf value "size" with
    | some (.number size) => withField out "size" (.number size)
    | _ => out
  match fieldOf value "visible" with
  | some (.bool visible) => withField out "visible" (.bool visible)
  | _ => out

/-- A tab group with the panels that are kept. -/
def keepTabGroup (keep : List String) : Js → Option Js
  | .object tabGroup =>
    match stringField tabGroup "id", (fieldOf tabGroup "panelIds").bind strings with
    | some _, some panelIds =>
      let panelIds := panelIds.filter (· ∈ keep)
      if panelIds.isEmpty then none
      else some (.object (withField tabGroup "panelIds" (texts panelIds)))
    | _, _ => none
  | _ => none

def sanitizeLeaf (keep : List String) (group : Fields) : Option Fields :=
  match stringField group "id", (fieldOf group "views").bind strings with
  | some _, some views =>
    match views.filter (· ∈ keep) with
    | [] => none
    | first :: rest =>
      -- A leaf whose active view is gone shows its first.
      let activeView := ((stringField group "activeView").filter (· ∈ first :: rest)).getD first
      let data := withField (withField group "views" (texts (first :: rest))) "activeView"
        (.string activeView)
      some <|
        match arrayField group "tabGroups" with
        | some tabGroups => withField data "tabGroups"
            (.array (tabGroups.filterMap (keepTabGroup keep)))
        | none => data
  | _, _ => none

def leafNode (data : Fields) : Fields := [("type", .string "leaf"), ("data", .object data)]

def branchNode (children : List Js) : Fields :=
  [("type", .string "branch"), ("data", .array children)]

/-- A node that is a leaf. -/
def asLeaf : Js → Option Fields
  | .object node => if stringField node "type" = some "leaf" then some node else none
  | _ => none

/-- A branch with what is left of its nodes: a leaf left alone takes its place. -/
def pruneBranch (value : Fields) (children : List Js) : Option Js :=
  match children with
  | [] => none
  | child :: rest =>
    match asLeaf child, rest with
    | some leaf, [] => some (.object (withAttributes value leaf))
    | _, _ => some (.object (withAttributes value (branchNode (child :: rest))))

def pruneGridNode (keep : List String) : Js → Option Js
  | .object value =>
    if stringField value "type" = some "leaf" then
      ((recordField value "data").bind (sanitizeLeaf keep)).map fun data =>
        .object (withAttributes value (leafNode data))
    else if stringField value "type" = some "branch" then
      match _held : arrayField value "data" with
      | some nodes => pruneBranch value
          (nodes.attach.filterMap fun ⟨child, _⟩ => pruneGridNode keep child)
      | none => none
    else none
  | _ => none
termination_by value => sizeOf value
decreasing_by exact sizeOf_arrayField (by assumption) (by assumption)

/-- The root stays a branch. -/
def pruneGridRoot (keep : List String) (value : Fields) : Option Fields := do
  let children := (← arrayField value "data").filterMap (pruneGridNode keep)
  if children.isEmpty then none else some (withAttributes value (branchNode children))

/-! ## Groups -/

/-- The ids of the leaves, which are strings once they are pruned. -/
def groupIDs : Js → List String
  | .object node =>
    if stringField node "type" = some "leaf" then
      ((recordField node "data").bind (stringField · "id")).toList
    else
      match _held : arrayField node "data" with
      | some nodes => nodes.attach.flatMap fun ⟨child, _⟩ => groupIDs child
      | none => []
  | _ => []
termination_by node => sizeOf node
decreasing_by exact sizeOf_arrayField (by assumption) (by assumption)

/-- The first id that is not empty; a leaf's own id may be. -/
def firstGroupID : Js → Option String
  | .object node =>
    if stringField node "type" = some "leaf" then (recordField node "data").bind
      (stringField · "id")
    else
      match _held : arrayField node "data" with
      | some nodes => nodes.attach.findSome? fun ⟨child, _⟩ => (firstGroupID child).filter (· ≠ "")
      | none => none
  | _ => none
termination_by node => sizeOf node
decreasing_by exact sizeOf_arrayField (by assumption) (by assumption)

/-- `{ ...value, panels, grid: { ...grid, root }, activeGroup }` -/
def withGrid (value panels grid root : Fields) (activeGroup : Option String) : Fields :=
  let dock :=
    withField (withField value "panels" (.object panels)) "grid"
    (.object (withField grid "root" (.object root)))
  withOption dock "activeGroup" (activeGroup.map .string)

/-- The active group, or the first one when it is none of the groups. -/
def activeGroupOf (value root : Fields) : Option String :=
  match (stringField value "activeGroup").filter (· ∈ groupIDs (.object root)) with
  | some activeGroup => some activeGroup
  | none => firstGroupID (.object root)

/-! ## Retired panels -/

/-- What an id is renamed to. -/
def rename (renamed : List (String × String)) : Js → Js
  | .string id => .string ((renamed.lookup id).getD id)
  | value => value

/-- A field that is an array, with its items changed. -/
def mapItems (fields : Fields) (name : String) (change : Js → Js) : Fields :=
  match arrayField fields name with
  | some items => withField fields name (.array (items.map change))
  | none => fields

def renameTabGroup (renamed : List (String × String)) : Js → Js
  | .object group => .object (mapItems group "panelIds" (rename renamed))
  | group => group

def renameLeaf (renamed : List (String × String)) (data : Fields) : Fields :=
  let views := mapItems data "views" (rename renamed)
  let active :=
    match fieldOf data "activeView" with
    | some activeView => withField views "activeView" (rename renamed activeView)
    | none => views
  match arrayField data "tabGroups" with
  | some tabGroups => withField active "tabGroups" (.array (tabGroups.map (renameTabGroup renamed)))
  | none => active

def renameGridViews (renamed : List (String × String)) : Js → Js
  | .object node =>
    if stringField node "type" = some "branch" then
      match _held : arrayField node "data" with
      | some nodes => .object (withField node "data"
          (.array (nodes.attach.map fun ⟨child, _⟩ => renameGridViews renamed child)))
      | none => .object node
    else
      match recordField node "data" with
      | some data => .object (withField node "data" (.object (renameLeaf renamed data)))
      | none => .object node
  | node => node
termination_by node => sizeOf node
decreasing_by exact sizeOf_arrayField (by assumption) (by assumption)

/-- The panels of a retired kind, with the params that each is to have. -/
def legacyPanels (panels : Fields) : List (String × Fields × Option Params) :=
  panels.filterMap fun (id, serialized) =>
    match serialized with
    | .object serialized => ((fieldOf serialized "params").bind legacyScreenPanelParams).map
        fun params => (id, serialized, params)
    | _ => none

/-- A retired panel becomes its agent's, unless the agent is not known or has a panel. -/
def migratePanel (migrated : Fields × List (String × String))
    (panel : String × Fields × Option Params) :
    Fields × List (String × String) :=
  match panel with
  | (_, _, none) => migrated
  | (id, serialized, some params) =>
    let next := panelID params
    if (fieldOf migrated.1 next).isSome then migrated
    else
      let serialized :=
        withField (withField serialized "id" (.string next)) "contentComponent"
        (.string params.kind)
      let serialized :=
        withField (withField serialized "title" (.string (panelTitle params))) "params" params.toJs
      (withField migrated.1 next (.object serialized), (id, next) :: migrated.2)

/-- A layout saved before a kind of panel was retired. -/
def migrateRetiredPanels (value : Fields) : Fields :=
  match recordField value "panels", recordField value "grid" with
  | some all, some grid =>
    match recordField grid "root" with
    | some root =>
      let legacy := legacyPanels all
      if legacy.isEmpty then value
      else
        let kept := all.filter fun panel => panel.1 ∉ legacy.map Prod.fst
        -- Two retired panels may become one: the later one is left out, its tab renamed.
        let (panels, renamed) := legacy.foldl migratePanel (kept, [])
        let root :=
          (asRecord (renameGridViews renamed (.object root))).bind
          (pruneGridRoot (panels.map Prod.fst))
        match root with
        | none => withField value "panels" (.object [])
        | some root => withGrid value panels grid root (activeGroupOf value root)
    | none => value
  | _, _ => value
where
  asRecord : Js → Option Fields
    | .object fields => some fields
    | _ => none

/-! ## A stored dock -/

/-- The panel with its params read; `none` when reading them throws, `some none` when it is dropped.
-/
def canonicalSerializedPanel (id : String) : Js → Option (Option Js)
  | .object serialized =>
    if stringField serialized "id" = some id then
      (paramsOf serialized).map fun params =>
        (params.filter fun params => stringField serialized "contentComponent" = some params.kind ∧
          panelID params = id).map
          fun params => .object (withField serialized "params" params.toJs)
    else some none
  | _ => some none

/-- The panels that are kept, each as it is read; `none` when one throws. -/
def canonicalPanels (panels : Fields) : Option (List (String × Js × Option Js)) :=
  panels.mapM fun (id, serialized) => (canonicalSerializedPanel id serialized).map fun canonical =>
    (id, serialized, canonical)

def keptPanels (panels : List (String × Js × Option Js)) : Fields :=
  panels.filterMap fun (id, _, canonical) => canonical.map fun canonical => (id, canonical)

/-- A panel was dropped, or reads otherwise than it is written. -/
def salvagedPanels (panels : List (String × Js × Option Js)) : Bool :=
  panels.any fun (_, serialized, canonical) => canonical.map Js.written ≠ some serialized.written

/-- What is session only. -/
def neutral (dock : Fields) : Fields :=
  withoutField (withoutField (withoutField (withoutField dock "maximizedNode") "floatingGroups")
    "popoutGroups") "edgeGroups"

/-- A group of the session was dropped, or the panels, the grid or the active group changed. -/
def changedDock (value root pruned : Fields) (canonical : List (String × Js × Option Js)) : Bool :=
  transientGroups.any (fun name => (fieldOf value name).isSome) || salvagedPanels canonical ||
    writtenFields pruned ≠ writtenFields root || (activeGroupOf value pruned).map Js.string ≠
      fieldOf value "activeGroup"

/-- The dock, if one is left, and whether anything of it was lost or changed. -/
def sanitizeRecord (value : Fields) : Option (Option Fields × Bool) := do
  let panels ← recordField value "panels"
  let grid ← recordField value "grid"
  let root ← recordField grid "root"
  if stringField root "type" ≠ some "branch" then none
  let canonical ← canonicalPanels panels
  let panels := keptPanels canonical
  match pruneGridRoot (panels.map Prod.fst) root with
  -- None of its panels is left in the grid.
  | none => some (none, true)
  | some pruned =>
    if panels.isEmpty then some (none, true)
    else
      let dock := neutral (withGrid value panels grid pruned (activeGroupOf value pruned))
      if validDock dock then some (some dock, changedDock value root pruned canonical) else none

def sanitizeStoredDock : Js → Option (Option Fields × Bool)
  | .null => some (none, false)
  | .object value => sanitizeRecord (migrateRetiredPanels value)
  | _ => none

/-! ## Stored layouts -/

/-- A stored text, by what `JSON.parse` makes of it. -/
inductive Raw where
  | empty
  | malformed
  | json (value : Js)
  deriving DecidableEq

/-- `JSON.parse(raw ?? '')`, when it does not throw. -/
def Raw.parse : Option Raw → Option Js
  | some (.json value) => some value
  | _ => none

/-- `JSON.stringify(value)` -/
def stringify (value : Js) : Raw := .json value.written

structure StoredSpaceLayout where
  dock : Option Fields
  deriving DecidableEq

def StoredSpaceLayout.toJs (layout : StoredSpaceLayout) : Js :=
  .object [("version", .number (.finite 4)), ("dock", (layout.dock.map .object).getD .null)]

def parseStoredSpaceLayout (raw : Option Raw) : Option (StoredSpaceLayout × Bool) := do
  let .object value ← Raw.parse raw | none
  if fieldOf value "version" ≠ some (.number (.finite 4)) then none
  let (dock, salvaged) ← (fieldOf value "dock").bind sanitizeStoredDock
  some (⟨dock⟩, salvaged)

structure RailPreference where
  width : ℚ
  collapsed : Bool
  deriving DecidableEq

structure RailPreferences where
  fleet : RailPreference
  notes : RailPreference
  deriving DecidableEq

def minimumRailWidth : ℚ := 200

def maximumRailWidth : ℚ := 440

def defaultNotesRailWidth : ℚ := 280

def clampRailWidth (width : ℚ) : ℚ := min maximumRailWidth (max minimumRailWidth width)

def defaultRailPreferences (fleetWidth : ℚ) : RailPreferences :=
  ⟨⟨clampRailWidth fleetWidth, false⟩, ⟨defaultNotesRailWidth, false⟩⟩

def railPreference (value : Fields) : Option RailPreference :=
  match fieldOf value "width", fieldOf value "collapsed" with
  | some (.number (.finite width)), some (.bool collapsed) => some ⟨clampRailWidth width, collapsed⟩
  | _, _ => none

def railPreferences (value : Fields) : Option RailPreferences := do
  let fleet ← recordField value "fleet"
  let notes ← recordField value "notes"
  some ⟨← railPreference fleet, ← railPreference notes⟩

structure StoredLayout where
  dock : Option Fields
  rails : RailPreferences
  expandedItems : Option (List String)
  knownWorkspaceItems : Option (List String)
  deriving DecidableEq

def RailPreference.toJs (rail : RailPreference) : Js :=
  .object [("width", .number (.finite rail.width)), ("collapsed", .bool rail.collapsed)]

def StoredLayout.toJs (layout : StoredLayout) : Js :=
  .object ([("version", .number (.finite 3)), ("dock", (layout.dock.map .object).getD .null),
      ("rails", .object [("fleet", layout.rails.fleet.toJs),
        ("notes", layout.rails.notes.toJs)])] ++
    (layout.expandedItems.map fun items => ("expandedItems", texts items)).toList ++
    (layout.knownWorkspaceItems.map fun items => ("knownWorkspaceItems", texts items)).toList)

/-- A list of strings that may be missing. -/
def optionalStrings (value : Fields) (name : String) : Option (Option (List String)) :=
  match fieldOf value name with
  | none => some none
  | some items => (strings items).map some

/-- The rails of a layout of version 3, or the sidebar of one of version 2. -/
def storedRails (value : Fields) : Option RailPreferences :=
  match fieldOf value "version" with
  | some (.number (.finite version)) =>
    if version = 2 then
      match fieldOf value "sidebarWidth" with
      | some (.number (.finite width)) => some (defaultRailPreferences width)
      | _ => none
    else if version = 3 then (recordField value "rails").bind railPreferences
    else none
  | _ => none

def parseStoredLayoutResult (raw : Option Raw) : Option (StoredLayout × Bool) := do
  let .object value ← Raw.parse raw | none
  let expandedItems ← optionalStrings value "expandedItems"
  let knownWorkspaceItems ← optionalStrings value "knownWorkspaceItems"
  let rails ← storedRails value
  let (dock, salvaged) ← (fieldOf value "dock").bind sanitizeStoredDock
  some (⟨dock, rails, expandedItems, knownWorkspaceItems⟩, salvaged)

end AiConfig.Herder.Layout
