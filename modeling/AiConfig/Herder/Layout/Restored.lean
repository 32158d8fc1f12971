import AiConfig.Herder.Layout.Kept
import Mathlib.Algebra.Order.Ring.Unbundled.Rat

/-! # Restored layouts

What `sanitizeStoredDock` leaves of a stored dock, and what is read of it once it is written.

* `WellFormed` — a restored dock: canonical panels, a grid of their views, an active group of it.
* `Restorable` — what it takes of the stored dock: attributes in order, and a group with an id.
* `restored_iff` — exactly then a restored layout is well formed and is read back as it is. -/

namespace AiConfig.Herder.Layout

open AiConfig.Lib

/-! ## Well-formed docks -/

/-- A grid whose leaves show panels, one of them active, and where no leaf and no branch is empty.
-/
inductive GridOK (panelIDs : List String) : Js → Prop where
  | leaf {node data : Fields} {id active : String} {views : List String}
      (type : stringField node "type" = some "leaf")
      (held : recordField node "data" = some data) (named : stringField data "id" = some id)
      (listed : (fieldOf data "views").bind strings = some views) (some_ : views ≠ [])
        (panels : ∀ view ∈ views, view ∈ panelIDs)
      (activated : stringField data "activeView" = some active) (shown : active ∈ views) :
        GridOK panelIDs (.object node)
  | branch {node : Fields} {children : List Js} (type : stringField node "type" = some "branch")
      (held : arrayField node "data" = some children) (some_ : children ≠ [])
        (each : ∀ child ∈ children, GridOK panelIDs child) :
      GridOK panelIDs (.object node)

/-- Its id is the id of its params, and its component their kind. -/
def CanonicalPanel (id : String) (serialized : Js) : Prop :=
  ∃ fields params, serialized = .object fields ∧ stringField fields "id" = some id ∧
    paramsOf fields = some (some params) ∧
    stringField fields "contentComponent" = some params.kind ∧ panelID params = id

structure Parts (dock panels grid root : Fields) : Prop where
  ofPanels : recordField dock "panels" = some panels
  ofGrid : recordField dock "grid" = some grid
  ofRoot : recordField grid "root" = some root

def WellFormed (dock : Fields) : Prop :=
  ∃ panels grid root, Parts dock panels grid root ∧
    (∀ panel ∈ panels, CanonicalPanel panel.1 panel.2) ∧
    GridOK (panels.map Prod.fst) (.object root) ∧ ∃ id ∈ groupIDs (.object root),
      stringField dock "activeGroup" = some id

/-! ## What it takes -/

def canonicalIDs (panels : Fields) : List String :=
  (panels.filter fun panel => validPanel panel.1 panel.2).map Prod.fst

def steadyRoot (keep : List String) (root : Fields) : Bool :=
  (((arrayField root "data").getD []).filterMap (outline keep)).all Outline.steady &&
    finiteSize root

/-- Some group can be the active one. -/
def hasGroup (value : Fields) (ids : List String) : Bool :=
  (stringField value "activeGroup").any (· ∈ ids) || ids.any (· ≠ "")

/-- Of the nodes that are kept, none that is left alone gets its size from further out than
`visible`,
and none ends with a size too large for a double; some leaf that is kept can be the active group. -/
def Restorable (stored : Fields) : Bool :=
  let value := migrateRetiredPanels stored
  match recordField value "panels", (recordField value "grid").bind (recordField · "root") with
  | some panels, some root =>
    let keep := canonicalIDs panels
    steadyRoot keep root && hasGroup value (keptIDs keep (.object root))
  | _, _ => false

/-! ## The grid -/

section

variable {keep : List String}

theorem Clean.gridOK {node : Js} (clean : Clean keep node) : GridOK keep node := by
  induction clean with
  | leaf clean _ =>
    refine .leaf rfl rfl clean.named ?_ ?_ clean.kept ?_ clean.shown
    · rw [clean.listed, Option.bind_some, strings_texts]
    · exact List.ne_nil_of_mem clean.shown
    · rw [stringField, clean.activated]
      rfl
  | branch some_ _ _ _ inductionHypothesis => exact .branch rfl rfl some_ inductionHypothesis

theorem GridOK.valid {node : Js} (ok : GridOK keep node) : validGridNode keep node = true := by
  induction ok with
  | leaf type held named listed some_ panels activated shown =>
    rw [validGridNode_object, type, if_neg (by decide), if_pos rfl, held, Option.any_some]
    obtain ⟨activeView, heldActive, isActive⟩ := Option.bind_eq_some_iff.mp activated
    unfold validLeaf
    simp only [named, listed, heldActive, isActive, Option.any_some, Bool.and_eq_true,
      Bool.not_eq_true', decide_eq_true_eq]
    exact ⟨⟨by simpa using some_, List.all_eq_true.mpr
      fun view inside => by simpa using panels view inside⟩, shown⟩
  | branch type held some_ _ inductionHypothesis =>
    rw [validGridNode_object, if_pos type, held, Option.any_some, Bool.and_eq_true]
    refine ⟨by simpa using some_, ?_⟩
    exact List.all_eq_true.mpr inductionHypothesis

/-- What pruning leaves of a root. -/
structure Pruned (keep : List String) (root pruned : Fields) : Prop where
  shape : ∃ children, pruned = branchNode children ++ withAttributes root [] ∧ children ≠ [] ∧
    ∀ child ∈ children, Clean keep child
  steady : steadyRoot keep root = true ↔ Steady (.object pruned)
  groups : groupIDs (.object pruned) = ((arrayField root "data").getD []).flatMap (keptIDs keep)

theorem pruneGridRoot_pruned {root pruned : Fields} (kept : pruneGridRoot keep root = some pruned) :
    Pruned keep root pruned := by
  simp only [pruneGridRoot, Option.bind_eq_bind, Option.bind_eq_some_iff] at kept
  obtain ⟨nodes, held, kept⟩ := kept
  split at kept
  · cases kept
  · next some_ =>
    obtain rfl := Option.some.inj kept
    have lefts : List.Forall₂ Outlined (nodes.filterMap (pruneGridNode keep))
        (nodes.filterMap (outline keep)) :=
      outlined_all fun node _ => outlined node
    have ids :
        (nodes.filterMap (pruneGridNode keep)).flatMap groupIDs = nodes.flatMap (keptIDs keep) :=
      groupIDs_all fun node _ => groupIDs_pruned node
    constructor
    · refine ⟨_, withAttributes_branch _ root, by simpa using some_, ?_⟩
      intro child inside
      obtain ⟨before, -, pruned⟩ := List.mem_filterMap.mp inside
      exact pruneGridNode_clean before pruned
    · rw [withAttributes_branch, steady_branch_iff, steadyAttributes_spread, steadyRoot, held,
        Option.getD_some, Bool.and_eq_true,
        all_steady_iff lefts]
    · rw [withAttributes_branch, groupIDs_branch, held, Option.getD_some, ids]

theorem Attributes.spread (value : Fields) : Attributes (Layout.withAttributes value []) :=
  Attributes.none.withAttributes value

/-- A pruned root that is written is read as it is exactly when it is steady. -/
theorem Pruned.again {root pruned : Fields} (own : Pruned keep root pruned) :
    ∃ again, pruneGridRoot keep (writtenFields pruned) = some again ∧
    (Steady (.object pruned) → again = writtenFields pruned) ∧
    (¬ Steady (.object pruned) → writtenFields again ≠ writtenFields pruned) := by
  obtain ⟨children, rfl, some_, clean⟩ := own.shape
  obtain ⟨again, read, kinds, steady, unsteady⟩ :=
    settled_children fun child inside => (clean child inside).settled
  have attributes := Attributes.spread root
  have someAgain : again.isEmpty = false := by
    rw [List.isEmpty_eq_false_iff]
    rintro rfl
    exact some_ (List.map_eq_nil_iff.mp kinds.symm)
  refine ⟨branchNode again ++ withAttributes (writtenFields (withAttributes root [])) [], ?_, ?_,
    ?_⟩
  · have held : arrayField (writtenFields (branchNode children ++ withAttributes root [])) "data" =
      some (writtenItems children) := rfl
    rw [pruneGridRoot, held]
    show (if ((writtenItems children).filterMap (pruneGridNode keep)).isEmpty then none else _) = _
    rw [read, if_neg (by simp [someAgain]), withAttributes_branch, writtenFields_append]
    exact congrArg (fun read => some (branchNode again ++ read))
      (withAttributes_read (writtenFields (branchNode children)) rfl rfl _ [])
  · intro all
    obtain ⟨each, ordered⟩ := steady_branch_iff.mp all
    rw [attributes.read_back.1 ordered, steady each]
    rfl
  · intro off same
    rw [writtenFields_append, writtenFields_append] at same
    obtain ⟨front, back⟩ := List.append_inj same rfl
    refine off (.branch ?_ ?_)
    · refine Classical.byContradiction fun unsteadyChild => unsteady unsteadyChild ?_
      simpa [branchNode, writtenFields, Js.written] using front
    · exact Classical.byContradiction fun unordered =>
        attributes.read_back.2 (Bool.eq_false_iff.mpr unordered) back

end

/-! ## Panels -/

theorem canonicalPanel_iff {id : String} {serialized : Js} : validPanel id serialized = true ↔
    CanonicalPanel id serialized := by
  constructor
  · intro valid
    unfold validPanel at valid
    split at valid
    · next fields =>
      rw [Bool.and_eq_true] at valid
      obtain ⟨named, rest⟩ := valid
      split at rest
      · next params read =>
        rw [Bool.and_eq_true] at rest
        exact ⟨fields, params, rfl, of_decide_eq_true named, read, of_decide_eq_true rest.1,
          of_decide_eq_true rest.2⟩
      · cases rest
    · cases valid
  · rintro ⟨fields, params, rfl, named, read, component, own⟩
    unfold validPanel
    simp [named, read, component, own]

/-- A panel that is kept is canonical, and is written and read as it is. -/
structure KeptPanel (id : String) (canonical : Js) : Prop where
  own : CanonicalPanel id canonical
  again : canonicalSerializedPanel id canonical.written = some (some canonical.written)
  current : ∀ fields, canonical.written = .object fields →
    (fieldOf fields "params").bind legacyScreenPanelParams = none

theorem canonicalSerializedPanel_kept {id : String} {serialized canonical : Js}
    (kept : canonicalSerializedPanel id serialized = some (some canonical)) :
    KeptPanel id canonical ∧ validPanel id serialized = true := by
  unfold canonicalSerializedPanel at kept
  split at kept
  · next fields =>
    split at kept
    · next named =>
      rw [Option.map_eq_some_iff] at kept
      obtain ⟨read, isRead, kept⟩ := kept
      rw [Option.map_eq_some_iff] at kept
      obtain ⟨params, filtered, rfl⟩ := kept
      rw [Option.filter_eq_some_iff, decide_eq_true_eq] at filtered
      obtain ⟨rfl, component, own⟩ := filtered
      have valid : params.valid = true := by
        unfold paramsOf at isRead
        split at isRead
        · cases isRead
        · exact panelParams_valid isRead
      obtain ⟨readAgain, written⟩ := panelParams_toJs valid
      have params_ : fieldOf (withField fields "params" params.toJs) "params" = some params.toJs :=
        fieldOf_withField_self _ _ _
      have named_ : stringField (withField fields "params" params.toJs) "id" = some id := by
        rw [stringField, fieldOf_withField_other _ _ (by decide)]
        exact named
      have component_ : stringField (withField fields "params" params.toJs) "contentComponent" =
          some params.kind := by
        rw [stringField, fieldOf_withField_other _ _ (by decide)]
        exact component
      have writtenParams :
          fieldOf (writtenFields (withField fields "params" params.toJs)) "params" =
          some params.toJs := by
        rw [fieldOf_writtenFields, params_, Option.map_some, written]
      -- Read again, the written params are the same, so the panel is its own canonical form.
      refine ⟨⟨⟨_, params, rfl, named_, ?_, component_, own⟩, ?_, ?_⟩, ?_⟩
      · unfold paramsOf
        rw [params_]
        exact readAgain
      · show canonicalSerializedPanel id (.object (writtenFields _)) =
          some (some (.object (writtenFields _)))
        have readWritten : paramsOf (writtenFields (withField fields "params" params.toJs)) =
            some (some params) := by
          unfold paramsOf
          rw [writtenParams]
          exact readAgain
        unfold canonicalSerializedPanel
        dsimp only
        rw [if_pos (by rw [stringField_written]; exact named_), readWritten, Option.map_some,
            Option.filter_some_pos (by
          rw [decide_eq_true_eq, stringField_written]; exact ⟨component_, own⟩), Option.map_some,
            withField_same writtenParams]
      · intro other same
        obtain rfl := Js.object.inj same
        rw [writtenParams]
        exact legacy_toJs params
      · unfold validPanel
        simp [named, isRead, component, own]
    · cases kept
  · cases kept

theorem CanonicalPanel.kept {id : String} {serialized : Js} (own : CanonicalPanel id serialized) :
    ∃ canonical, canonicalSerializedPanel id serialized = some (some canonical) := by
  obtain ⟨fields, params, rfl, named, read, component, own⟩ := own
  refine ⟨.object (withField fields "params" params.toJs), ?_⟩
  unfold canonicalSerializedPanel
  dsimp only
  rw [if_pos named, read, Option.map_some,
    Option.filter_some_pos (by rw [decide_eq_true_eq]; exact ⟨component, own⟩), Option.map_some]

theorem canonicalPanels_cons (panel : String × Js) (panels : Fields) :
    canonicalPanels (panel :: panels) =
    (canonicalSerializedPanel panel.1 panel.2).bind fun canonical =>
      (canonicalPanels panels).map fun rest => (panel.1, panel.2, canonical) :: rest := by
  obtain ⟨id, serialized⟩ := panel
  unfold canonicalPanels
  rw [List.mapM_cons]
  dsimp only
  cases canonicalSerializedPanel id serialized with
  | none => rfl
  | some canonical =>
    rw [Option.map_some, Option.bind_eq_bind, Option.bind_some, Option.bind_some]
    exact Option.map_eq_bind.symm

/-- The panels that are kept. -/
theorem canonicalPanels_kept {panels : Fields} {canonical : List (String × Js × Option Js)}
    (read : canonicalPanels panels = some canonical) :
    (∀ panel ∈ keptPanels canonical, KeptPanel panel.1 panel.2) ∧
    (keptPanels canonical).map Prod.fst = canonicalIDs panels := by
  induction panels generalizing canonical with
  | nil =>
    obtain rfl := Option.some.inj read
    exact ⟨List.forall_mem_nil _, rfl⟩
  | cons panel panels inductionHypothesis =>
    rw [canonicalPanels_cons, Option.bind_eq_some_iff] at read
    obtain ⟨first, own, following⟩ := read
    obtain ⟨rest, readRest, rfl⟩ := Option.map_eq_some_iff.mp following
    obtain ⟨each, ids⟩ := inductionHypothesis readRest
    cases first with
    | none =>
      have invalid : validPanel panel.1 panel.2 = false := by
        rw [Bool.eq_false_iff]
        intro valid
        obtain ⟨canonical, kept⟩ := (canonicalPanel_iff.mp valid).kept
        rw [own] at kept
        cases kept
      have same : keptPanels ((panel.1, panel.2, none) :: rest) = keptPanels rest := rfl
      rw [same, canonicalIDs, List.filter_cons_of_neg (by simp [invalid])]
      exact ⟨each, ids⟩
    | some canonical =>
      obtain ⟨kept, valid⟩ := canonicalSerializedPanel_kept own
      have same : keptPanels ((panel.1, panel.2, some canonical) :: rest) =
        (panel.1, canonical) :: keptPanels rest := rfl
      rw [same, canonicalIDs, List.filter_cons_of_pos (by simpa using valid), List.map_cons,
        List.map_cons, ids]
      exact ⟨List.forall_mem_cons.mpr ⟨kept, each⟩, rfl⟩

/-- Kept panels are written and read as they are. -/
theorem canonicalPanels_again {panels : Fields}
    (each : ∀ panel ∈ panels, KeptPanel panel.1 panel.2) :
    ∃ canonical, canonicalPanels (writtenFields panels) = some canonical ∧
      keptPanels canonical = writtenFields panels ∧
      salvagedPanels canonical = false := by
  induction panels with
  | nil => exact ⟨[], rfl, rfl, rfl⟩
  | cons panel panels inductionHypothesis =>
    obtain ⟨own, each⟩ := List.forall_mem_cons.mp each
    obtain ⟨rest, read, kept, same⟩ := inductionHypothesis each
    refine ⟨(panel.1, panel.2.written, some panel.2.written) :: rest, ?_, ?_, ?_⟩
    · rw [writtenFields, canonicalPanels_cons, own.again, Option.bind_some, read, Option.map_some]
    · rw [writtenFields, ← kept]
      rfl
    · have first :
          (decide ((some panel.2.written).map Js.written ≠ some panel.2.written.written) ||
          salvagedPanels rest) = false := by
        rw [same, Option.map_some]
        simp
      exact first

/-- No retired panel is left. -/
theorem legacyPanels_again {panels : Fields} (each : ∀ panel ∈ panels, KeptPanel panel.1 panel.2) :
    legacyPanels (writtenFields panels) = [] := by
  unfold legacyPanels
  rw [List.filterMap_eq_nil_iff, writtenFields_map]
  intro written inside
  obtain ⟨panel, ofPanel, rfl⟩ := List.mem_map.mp inside
  dsimp only
  split
  · next fields isRecord => rw [(each panel ofPanel).current fields isRecord, Option.map_none]
  · rfl

/-! ## The dock -/

section

variable {value panels grid root : Fields} {activeGroup : Option String}

theorem activeGroup_withGrid : fieldOf (withGrid value panels grid root activeGroup) "activeGroup" =
    activeGroup.map .string := by
  unfold withGrid
  cases activeGroup with
  | none => exact fieldOf_withoutField_self _ _
  | some id => exact fieldOf_withField_self _ _ _

theorem parts_withGrid : Parts (withGrid value panels grid root activeGroup) panels
    (withField grid "root" (.object root)) root := by
  have both :
    fieldOf (withGrid value panels grid root activeGroup) "panels" = some (.object panels) ∧
      fieldOf (withGrid value panels grid root activeGroup) "grid" =
          some (.object (withField grid "root" (.object root))) := by
    unfold withGrid
    cases activeGroup with
    | none =>
      show fieldOf (withoutField _ "activeGroup") "panels" = _ ∧
        fieldOf (withoutField _ "activeGroup") "grid" = _
      rw [fieldOf_withoutField_other _ (by decide), fieldOf_withoutField_other _ (by decide),
        fieldOf_withField_self,
        fieldOf_withField_other _ _ (by decide), fieldOf_withField_self]
      exact ⟨rfl, rfl⟩
    | some id =>
      show fieldOf (withField _ "activeGroup" _) "panels" = _ ∧
        fieldOf (withField _ "activeGroup" _) "grid" = _
      rw [fieldOf_withField_other _ _ (by decide), fieldOf_withField_other _ _ (by decide),
        fieldOf_withField_self,
        fieldOf_withField_other _ _ (by decide), fieldOf_withField_self]
      exact ⟨rfl, rfl⟩
  constructor
  · rw [recordField, both.1]
  · rw [recordField, both.2]
  · rw [recordField, fieldOf_withField_self]

theorem fieldOf_of_recordField {fields held : Fields} {name : String}
    (own : recordField fields name = some held) :
    fieldOf fields name = some (.object held) := by
  unfold recordField at own
  split at own
  · next found => rw [found, Option.some.inj own]
  · cases own

/-- A dock put together of its own parts is itself. -/
theorem Parts.withGrid {dock : Fields} (parts : Parts dock panels grid root)
    (active : fieldOf dock "activeGroup" = activeGroup.map .string) :
    Layout.withGrid dock panels grid root activeGroup = dock := by
  unfold Layout.withGrid
  rw [withField_same (fieldOf_of_recordField parts.ofPanels),
    withField_same (fieldOf_of_recordField parts.ofRoot),
    withField_same (fieldOf_of_recordField parts.ofGrid)]
  cases activeGroup with
  | none => exact withoutField_absent active
  | some id => exact withField_same active

/-- What a restored dock does not have. -/
def sessionFields : List String := ["maximizedNode", "floatingGroups", "popoutGroups", "edgeGroups"]

theorem fieldOf_neutral {dock : Fields} {name : String} (kept : name ∉ sessionFields) :
    fieldOf (neutral dock) name = fieldOf dock name := by
  simp only [sessionFields, List.mem_cons, List.not_mem_nil, or_false, not_or] at kept
  obtain ⟨maximized, floating, popout, edge⟩ := kept
  unfold neutral
  rw [fieldOf_withoutField_other _ edge, fieldOf_withoutField_other _ popout,
    fieldOf_withoutField_other _ floating,
    fieldOf_withoutField_other _ maximized]

theorem fieldOf_neutral_session {dock : Fields} {name : String} (session : name ∈ sessionFields) :
    fieldOf (neutral dock) name = none := by
  simp only [sessionFields, List.mem_cons, List.not_mem_nil, or_false] at session
  unfold neutral
  rcases session with rfl | rfl | rfl | rfl
  · rw [fieldOf_withoutField_other _ (by decide), fieldOf_withoutField_other _ (by decide),
      fieldOf_withoutField_other _ (by decide),
      fieldOf_withoutField_self]
  · rw [fieldOf_withoutField_other _ (by decide), fieldOf_withoutField_other _ (by decide),
      fieldOf_withoutField_self]
  · rw [fieldOf_withoutField_other _ (by decide), fieldOf_withoutField_self]
  · rw [fieldOf_withoutField_self]

theorem neutral_same {dock : Fields} (absent : ∀ name ∈ sessionFields, fieldOf dock name = none) :
    neutral dock = dock := by
  unfold neutral
  rw [withoutField_absent (absent "maximizedNode" (by decide)),
    withoutField_absent (absent "floatingGroups" (by decide)),
    withoutField_absent (absent "popoutGroups" (by decide)),
      withoutField_absent (absent "edgeGroups" (by decide))]

/-- How a dock was sanitized. -/
structure Sanitized (value dock : Fields) (salvaged : Bool) (panels grid root pruned : Fields)
    (canonical : List (String × Js × Option Js)) :
    Prop where
  parts : Parts value panels grid root
  branch : stringField root "type" = some "branch"
  read : canonicalPanels panels = some canonical
  kept : pruneGridRoot ((keptPanels canonical).map Prod.fst) root = some pruned
  some_ : keptPanels canonical ≠ []
  left :
    dock = neutral (withGrid value (keptPanels canonical) grid pruned (activeGroupOf value pruned))
  changed : salvaged = changedDock value root pruned canonical
  valid : validDock dock = true

theorem sanitizeRecord_some {dock : Fields} {salvaged : Bool}
    (sanitized : sanitizeRecord value = some (some dock, salvaged)) :
    ∃ panels grid root pruned canonical,
      Sanitized value dock salvaged panels grid root pruned canonical := by
  unfold sanitizeRecord at sanitized
  simp only [Option.bind_eq_bind, Option.bind_eq_some_iff] at sanitized
  obtain ⟨panels, ofPanels, grid, ofGrid, root, ofRoot, sanitized⟩ := sanitized
  split at sanitized
  · cases sanitized
  · next branch =>
    obtain ⟨canonical, read, sanitized⟩ := Option.bind_eq_some_iff.mp sanitized
    split at sanitized
    · cases sanitized
    · next pruned kept =>
      split at sanitized
      · cases sanitized
      · next some_ =>
        split at sanitized
        · next valid =>
          simp only [Option.some.injEq, Prod.mk.injEq] at sanitized
          obtain ⟨rfl, rfl⟩ := sanitized
          exact ⟨panels, grid, root, pruned, canonical, ⟨ofPanels, ofGrid, ofRoot⟩,
            not_not.mp branch, read, kept, by simpa using some_,
            rfl, rfl, valid⟩
        · cases sanitized

/-- Where no dock is left, one was lost. -/
theorem sanitizeRecord_none {salvaged : Bool}
    (sanitized : sanitizeRecord value = some (none, salvaged)) : salvaged = true := by
  unfold sanitizeRecord at sanitized
  simp only [Option.bind_eq_bind, Option.bind_eq_some_iff] at sanitized
  obtain ⟨panels, -, grid, -, root, -, sanitized⟩ := sanitized
  split at sanitized
  · cases sanitized
  · obtain ⟨canonical, -, sanitized⟩ := Option.bind_eq_some_iff.mp sanitized
    split at sanitized
    · simpa using sanitized.symm
    · split at sanitized
      · simpa using sanitized.symm
      · split at sanitized <;> simp at sanitized

theorem sanitizeRecord_of {canonical : List (String × Js × Option Js)} {pruned : Fields}
    (parts : Parts value panels grid root)
    (branch : stringField root "type" = some "branch")
    (read : canonicalPanels panels = some canonical)
    (kept : pruneGridRoot ((keptPanels canonical).map Prod.fst) root = some pruned)
    (some_ : keptPanels canonical ≠ [])
    (valid : validDock (neutral (withGrid value (keptPanels canonical) grid pruned
    (activeGroupOf value pruned))) = true) :
    sanitizeRecord value = some (some
      (neutral (withGrid value (keptPanels canonical) grid pruned (activeGroupOf value pruned))),
      changedDock value root pruned canonical) := by
  unfold sanitizeRecord
  simp only [parts.ofPanels, parts.ofGrid, parts.ofRoot, Option.bind_eq_bind, Option.bind_some,
    branch, ne_eq, not_true_eq_false,
    if_false, read, kept]
  rw [if_neg (by simpa using some_), if_pos valid]

theorem validDock_of (parts : Parts value panels grid root)
    (branch : stringField root "type" = some "branch")
    (neutral : ∀ name ∈ transientGroups, fieldOf value name = none) (some_ : panels ≠ [])
    (each : ∀ panel ∈ panels, CanonicalPanel panel.1 panel.2)
    (ok : GridOK (panels.map Prod.fst) (.object root)) :
    validDock value = true := by
  have ofRoot : (recordField value "grid").bind (fieldOf · "root") = some (.object root) := by
    rw [parts.ofGrid, Option.bind_some, fieldOf_of_recordField parts.ofRoot]
  unfold validDock
  simp only [parts.ofPanels, ofRoot, branch, decide_true, Bool.true_and, ok.valid, Bool.and_true,
    Bool.and_eq_true, List.all_eq_true,
    Bool.not_eq_true', List.isEmpty_eq_false_iff]
  exact ⟨⟨fun name session => by rw [neutral name session]; rfl, some_⟩, fun panel inside =>
    canonicalPanel_iff.mpr (each panel inside)⟩

/-- The active group is one of the groups. -/
theorem activeGroupOf_iff (value : Fields) {pruned : Fields} {keep : List String}
    (own : Pruned keep root pruned) :
    (∀ id, activeGroupOf value pruned = some id → id ∈ groupIDs (.object pruned)) ∧
      ((activeGroupOf value pruned).isSome = hasGroup value (groupIDs (.object pruned))) := by
  obtain ⟨children, rfl, -, -⟩ := own.shape
  unfold activeGroupOf hasGroup
  rw [firstGroupID_branch, groupIDs_branch]
  cases active : (stringField value "activeGroup").filter (· ∈ children.flatMap groupIDs) with
  | some id =>
    have inside := Option.filter_eq_some_iff.mp active
    refine ⟨fun id' same => ?_, ?_⟩
    · rw [← Option.some.inj same]
      simpa using inside.2
    · rw [inside.1, Option.any_some, inside.2]
      rfl
  | none =>
    have noActive :
        (stringField value "activeGroup").any (· ∈ children.flatMap groupIDs) = false := by
      cases held : stringField value "activeGroup" with
      | none => rfl
      | some id =>
        rw [held] at active
        rw [Option.any_some]
        simpa using active
    refine ⟨fun id found => List.mem_of_find?_eq_some found, ?_⟩
    rw [noActive, Bool.false_or]
    exact List.isSome_find?

theorem activeGroupOf_branch (children : List Js) (attributes : Fields) :
    activeGroupOf value (branchNode children ++ attributes) =
      match (stringField value "activeGroup").filter (· ∈ children.flatMap groupIDs) with
      | some activeGroup => some activeGroup
      | none => (children.flatMap groupIDs).find? (· ≠ "") := by
  show (match (stringField value "activeGroup").filter (· ∈ groupIDs
      (.object (branchNode children ++ attributes))) with
      | some activeGroup => some activeGroup
      | none => firstGroupID (.object (branchNode children ++ attributes))) = _
  rw [firstGroupID_branch, groupIDs_branch]

theorem Pruned.gridOK {pruned : Fields} {keep : List String} (own : Pruned keep root pruned) :
    GridOK keep (.object pruned) := by
  obtain ⟨children, rfl, some_, clean⟩ := own.shape
  exact .branch rfl rfl some_ fun child inside => (clean child inside).gridOK

theorem recordField_congr {fields fields' : Fields} {name : String}
    (same : fieldOf fields name = fieldOf fields' name) :
    recordField fields name = recordField fields' name := by
  unfold recordField
  rw [same]

theorem Parts.unique {dock panels' grid' root' : Fields} (parts : Parts dock panels grid root)
    (parts' : Parts dock panels' grid' root') :
    panels = panels' ∧ root = root' := by
  have grids := Option.some.inj (parts.ofGrid.symm.trans parts'.ofGrid)
  exact ⟨Option.some.inj (parts.ofPanels.symm.trans parts'.ofPanels),
    Option.some.inj (parts.ofRoot.symm.trans (grids ▸ parts'.ofRoot))⟩

theorem Parts.written {dock : Fields} (parts : Parts dock panels grid root) :
    Parts (writtenFields dock) (writtenFields panels) (writtenFields grid)
      (writtenFields root) := by
  constructor
  · rw [recordField_written, parts.ofPanels, Option.map_some]
  · rw [recordField_written, parts.ofGrid, Option.map_some]
  · rw [recordField_written, parts.ofRoot, Option.map_some]

theorem migrateRetiredPanels_same (parts : Parts value panels grid root)
    (current : legacyPanels panels = []) :
    migrateRetiredPanels value = value := by
  unfold migrateRetiredPanels
  simp [parts.ofPanels, parts.ofGrid, parts.ofRoot, current]

theorem map_fst_written (fields : Fields) :
    (writtenFields fields).map Prod.fst = fields.map Prod.fst := by
  rw [writtenFields_map, List.map_map]
  rfl

section

variable {dock pruned : Fields} {salvaged : Bool} {canonical : List (String × Js × Option Js)}

namespace Sanitized

theorem pruned_ (own : Sanitized value dock salvaged panels grid root pruned canonical) :
    Pruned (canonicalIDs panels) root pruned := by
  have kept := own.kept
  rw [(canonicalPanels_kept own.read).2] at kept
  exact pruneGridRoot_pruned kept

theorem dockParts (own : Sanitized value dock salvaged panels grid root pruned canonical) :
    Parts dock (keptPanels canonical) (withField grid "root" (.object pruned)) pruned := by
  have whole :
    Parts (withGrid value (keptPanels canonical) grid pruned (activeGroupOf value pruned)) _ _ _ :=
    parts_withGrid
  constructor
  · rw [own.left, recordField_congr (fieldOf_neutral (by decide)), whole.ofPanels]
  · rw [own.left, recordField_congr (fieldOf_neutral (by decide)), whole.ofGrid]
  · exact whole.ofRoot

theorem activeGroup_ (own : Sanitized value dock salvaged panels grid root pruned canonical) :
    fieldOf dock "activeGroup" = (activeGroupOf value pruned).map .string := by
  rw [own.left, fieldOf_neutral (by decide), activeGroup_withGrid]

theorem stringField_activeGroup
    (own : Sanitized value dock salvaged panels grid root pruned canonical) :
    stringField dock "activeGroup" = activeGroupOf value pruned := by
  rw [stringField, own.activeGroup_]
  cases activeGroupOf value pruned with
  | none => rfl
  | some id => rfl

theorem session (own : Sanitized value dock salvaged panels grid root pruned canonical)
    {name : String} (session : name ∈ sessionFields) :
    fieldOf dock name = none := by
  rw [own.left]
  exact fieldOf_neutral_session session

/-- The dock is well formed exactly when some group is active in it. -/
theorem wellFormed_iff (own : Sanitized value dock salvaged panels grid root pruned canonical) :
    WellFormed dock ↔ hasGroup value (keptIDs (canonicalIDs panels) (.object root)) = true := by
  have ids : keptIDs (canonicalIDs panels) (.object root) = groupIDs (.object pruned) := by
    rw [keptIDs_object, own.branch, if_neg (by decide), if_pos rfl, own.pruned_.groups]
  obtain ⟨inside, active⟩ := activeGroupOf_iff value own.pruned_
  obtain ⟨each, keys⟩ := canonicalPanels_kept own.read
  rw [ids, ← active, ← own.stringField_activeGroup]
  constructor
  · rintro ⟨-, -, -, -, -, -, id, -, isActive⟩
    rw [isActive, Option.isSome_some]
  · intro isActive
    obtain ⟨id, isActive⟩ := Option.isSome_iff_exists.mp isActive
    refine ⟨_, _, _, own.dockParts, fun panel inside => (each panel inside).own, ?_, id, ?_,
      isActive⟩
    · rw [keys]
      exact own.pruned_.gridOK
    · exact inside id (own.stringField_activeGroup ▸ isActive)

/-- The active group that a written dock is read with. -/
theorem activeGroup_again (own : Sanitized value dock salvaged panels grid root pruned canonical) :
    activeGroupOf (writtenFields dock) (writtenFields pruned) = activeGroupOf value pruned := by
  obtain ⟨inside, -⟩ := activeGroupOf_iff value own.pruned_
  have active := own.stringField_activeGroup
  obtain ⟨children, shape, -, -⟩ := own.pruned_.shape
  have ids : (writtenItems children).flatMap groupIDs = children.flatMap groupIDs := by
    rw [writtenItems_map, List.flatMap_map]
    exact List.flatMap_congr fun child _ => groupIDs_written child
  have again : activeGroupOf (writtenFields dock) (writtenFields pruned) =
      match (stringField dock "activeGroup").filter (· ∈ children.flatMap groupIDs) with
      | some activeGroup => some activeGroup
      | none => (children.flatMap groupIDs).find? (· ≠ "") := by
    rw [shape, writtenFields_append, ← ids, ← stringField_written]
    exact activeGroupOf_branch (writtenItems children) _
  rw [again, active]
  cases held : activeGroupOf value pruned with
  | some id =>
    have isInside := inside id held
    rw [shape, groupIDs_branch] at isInside
    rw [Option.filter_some_pos (by simpa using isInside)]
  | none =>
    rw [shape, activeGroupOf_branch] at held
    split at held
    · cases held
    · exact held

/-- A steady dock is written and read as it is. -/
theorem again_of_steady (own : Sanitized value dock salvaged panels grid root pruned canonical)
    (steady : Steady (.object pruned)) :
    sanitizeStoredDock (.object (writtenFields dock)) =
      some (some (writtenFields dock), false) := by
  have parts := own.dockParts.written
  obtain ⟨each, keys⟩ := canonicalPanels_kept own.read
  obtain ⟨canonical', read, kept, same⟩ := canonicalPanels_again each
  obtain ⟨again, prunedAgain, fixed, -⟩ := own.pruned_.again
  obtain rfl := fixed steady
  obtain ⟨children, shape, -, -⟩ := own.pruned_.shape
  have branch : stringField (writtenFields pruned) "type" = some "branch" := by
    rw [shape, writtenFields_append]
    rfl
  -- What was saved has none of the fields that a session adds.
  have absent : ∀ name ∈ sessionFields, fieldOf (writtenFields dock) name = none := by
    intro name inside
    rw [fieldOf_writtenFields, own.session inside, Option.map_none]
  have active : fieldOf (writtenFields dock) "activeGroup" =
      (activeGroupOf (writtenFields dock) (writtenFields pruned)).map .string := by
    rw [own.activeGroup_again, fieldOf_writtenFields, own.activeGroup_]
    cases activeGroupOf value pruned with
    | none => rfl
    | some id => rfl
  have whole := parts.withGrid active
  have ids : (keptPanels canonical').map Prod.fst = canonicalIDs panels := by
    rw [kept, map_fst_written, keys]
  have some_ : keptPanels canonical' ≠ [] := by
    rw [kept, writtenFields_map]
    exact fun none_ => own.some_ (List.map_eq_nil_iff.mp none_)
  have valid : validDock (writtenFields dock) = true := by
    refine validDock_of parts branch
      (fun name transient => absent name (List.mem_cons_of_mem _ transient)) (kept ▸ some_) ?_ ?_
    · intro panel inside
      rw [writtenFields_map] at inside
      obtain ⟨before, ofPanel, rfl⟩ := List.mem_map.mp inside
      exact (canonicalSerializedPanel_kept (each before ofPanel).again).1.own
    · rw [map_fst_written, keys]
      exact (pruneGridRoot_pruned prunedAgain).gridOK
  have left : neutral (withGrid (writtenFields dock) (keptPanels canonical')
      (writtenFields (withField grid "root" (.object pruned))) (writtenFields pruned)
      (activeGroupOf (writtenFields dock) (writtenFields pruned))) = writtenFields dock := by
    rw [kept, whole, neutral_same absent]
  show sanitizeRecord (migrateRetiredPanels (writtenFields dock)) = _
  rw [migrateRetiredPanels_same parts (legacyPanels_again each),
    sanitizeRecord_of parts branch read (by rw [ids]; exact prunedAgain) some_
      (by rw [left]; exact valid), left]
  -- Nothing is changed by reading it again, so nothing is salvaged.
  have unchanged : changedDock (writtenFields dock) (writtenFields pruned)
      (writtenFields pruned) canonical' = false := by
    have noSession :
        transientGroups.any (fun name => (fieldOf (writtenFields dock) name).isSome) = false := by
      rw [List.any_eq_false]
      intro name transient
      rw [absent name (List.mem_cons_of_mem _ transient)]
      exact Bool.false_ne_true
    unfold changedDock
    rw [noSession, same, active]
    simp
  rw [unchanged]

/-- One that is not is read as salvaged, if at all. -/
theorem again_of_not_steady (own : Sanitized value dock salvaged panels grid root pruned canonical)
    (unsteady : ¬ Steady (.object pruned))
    {dock' : Option Fields} {salvaged' : Bool}
    (read : sanitizeStoredDock (.object (writtenFields dock)) = some (dock', salvaged')) :
    salvaged' = true := by
  have parts := own.dockParts.written
  obtain ⟨each, keys⟩ := canonicalPanels_kept own.read
  obtain ⟨again, prunedAgain, -, apart⟩ := own.pruned_.again
  have same :
      sanitizeStoredDock (.object (writtenFields dock)) = sanitizeRecord (writtenFields dock) := by
    show sanitizeRecord (migrateRetiredPanels _) = _
    rw [migrateRetiredPanels_same parts (legacyPanels_again each)]
  rw [same] at read
  cases dock' with
  | none => exact sanitizeRecord_none read
  | some dock' =>
    obtain ⟨panels', grid', root', pruned', canonical', own'⟩ := sanitizeRecord_some read
    obtain ⟨rfl, rfl⟩ := own'.parts.unique parts
    obtain ⟨canonical'', readAgain, kept, -⟩ := canonicalPanels_again each
    obtain rfl : canonical' = canonical'' := Option.some.inj (own'.read.symm.trans readAgain)
    have left := own'.kept
    rw [kept, map_fst_written, keys, prunedAgain] at left
    obtain rfl := Option.some.inj left
    rw [own'.changed, changedDock, writtenFields_twice, decide_eq_true (apart unsteady)]
    simp

theorem again_iff (own : Sanitized value dock salvaged panels grid root pruned canonical) :
    sanitizeStoredDock (.object (writtenFields dock)) = some (some (writtenFields dock), false) ↔
      steadyRoot (canonicalIDs panels) root = true := by
  rw [own.pruned_.steady]
  refine ⟨fun read => ?_, own.again_of_steady⟩
  by_contra unsteady
  cases own.again_of_not_steady unsteady read

end Sanitized

end

end

/-- A stored dock, restored. -/
theorem sanitizeStoredDock_iff {stored dock : Fields} {salvaged : Bool}
    (read : sanitizeStoredDock (.object stored) = some (some dock, salvaged)) :
    WellFormed dock ∧ sanitizeStoredDock (.object (writtenFields dock)) =
      some (some (writtenFields dock), false) ↔
      Restorable stored = true := by
  have sanitized : sanitizeRecord (migrateRetiredPanels stored) = some (some dock, salvaged) := read
  obtain ⟨panels, grid, root, pruned, canonical, own⟩ := sanitizeRecord_some sanitized
  have ofRoot : (recordField (migrateRetiredPanels stored) "grid").bind (recordField · "root") =
      some root := by
    rw [own.parts.ofGrid, Option.bind_some, own.parts.ofRoot]
  unfold Restorable
  simp only [own.parts.ofPanels, ofRoot]
  rw [own.wellFormed_iff, own.again_iff, Bool.and_eq_true, and_comm]

/-! ## Layouts -/

/-- The dock of a stored text. -/
def storedDock (raw : Option Raw) : Option Js :=
  match Raw.parse raw with
  | some (.object value) => fieldOf value "dock"
  | _ => none

/-- The dock of a stored text is restorable. -/
def restorable (raw : Option Raw) : Bool :=
  match storedDock raw with
  | some (.object stored) => Restorable stored
  | _ => false

theorem parseStoredSpaceLayout_dock {raw : Option Raw} {dock : Option Fields} {salvaged : Bool}
    (parsed : parseStoredSpaceLayout raw = some (⟨dock⟩, salvaged)) :
    (storedDock raw).bind sanitizeStoredDock = some (dock, salvaged) := by
  unfold parseStoredSpaceLayout at parsed
  unfold storedDock
  cases read : Raw.parse raw with
  | none => simp [read] at parsed
  | some value =>
    cases value with
    | object value =>
      simp only [read, Option.bind_eq_bind, Option.bind_some] at parsed
      split at parsed
      · cases parsed
      · obtain ⟨⟨dock', salvaged'⟩, sanitized, same⟩ := Option.bind_eq_some_iff.mp parsed
        simp only [Option.some.injEq, Prod.mk.injEq, StoredSpaceLayout.mk.injEq] at same
        obtain ⟨rfl, rfl⟩ := same
        exact sanitized
    | _ => simp [read] at parsed

theorem clampRailWidth_again (width : ℚ) :
    clampRailWidth (clampRailWidth width) = clampRailWidth width := by
  have ordered : minimumRailWidth ≤ maximumRailWidth := by decide
  have above : max minimumRailWidth (clampRailWidth width) = clampRailWidth width :=
    max_eq_right (le_min ordered (le_max_left _ _))
  show min maximumRailWidth (max minimumRailWidth (clampRailWidth width)) = clampRailWidth width
  rw [above]
  exact min_eq_right (min_le_left _ _)

/-- Widths within bounds. -/
def RailPreferences.Clamped (rails : RailPreferences) : Prop :=
  clampRailWidth rails.fleet.width = rails.fleet.width ∧
    clampRailWidth rails.notes.width = rails.notes.width

theorem railPreference_clamped {value : Fields} {rail : RailPreference}
    (read : railPreference value = some rail) :
    clampRailWidth rail.width = rail.width := by
  unfold railPreference at read
  split at read
  · obtain rfl := Option.some.inj read
    exact clampRailWidth_again _
  · cases read

theorem storedRails_clamped {value : Fields} {rails : RailPreferences}
    (read : storedRails value = some rails) : rails.Clamped := by
  unfold storedRails at read
  split at read
  · split at read
    · split at read
      · obtain rfl := Option.some.inj read
        refine ⟨clampRailWidth_again _, ?_⟩
        show clampRailWidth defaultNotesRailWidth = defaultNotesRailWidth
        decide
      · cases read
    · split at read
      · obtain ⟨record, -, preferences⟩ := Option.bind_eq_some_iff.mp read
        simp only [railPreferences, Option.bind_eq_bind, Option.bind_eq_some_iff] at preferences
        obtain ⟨_, _, _, _, fleet, ofFleet, notes, ofNotes, same⟩ := preferences
        obtain rfl := Option.some.inj same
        exact ⟨railPreference_clamped ofFleet, railPreference_clamped ofNotes⟩
      · cases read
  · cases read

theorem parseStoredLayoutResult_dock {raw : Option Raw} {layout : StoredLayout} {salvaged : Bool}
    (parsed : parseStoredLayoutResult raw = some (layout, salvaged)) :
    (storedDock raw).bind sanitizeStoredDock = some (layout.dock, salvaged) ∧
    layout.rails.Clamped := by
  unfold parseStoredLayoutResult at parsed
  unfold storedDock
  cases read : Raw.parse raw with
  | none => simp [read] at parsed
  | some value =>
    cases value with
    | object value =>
      simp only [read, Option.bind_eq_bind, Option.bind_some, Option.bind_eq_some_iff] at parsed
      obtain ⟨expandedItems, -, known, -, rails, ofRails, ⟨dock, salvaged'⟩, sanitized, same⟩ :=
        parsed
      simp only [Option.some.injEq, Prod.mk.injEq] at same
      obtain ⟨rfl, rfl⟩ := same
      exact ⟨Option.bind_eq_some_iff.mpr sanitized, storedRails_clamped ofRails⟩
    | _ => simp [read] at parsed

/-- A written layout is read as what its dock is read as. -/
theorem parseStoredSpaceLayout_again (dock : Fields) :
    parseStoredSpaceLayout (some (stringify (StoredSpaceLayout.toJs ⟨some dock⟩))) =
      (sanitizeStoredDock (.object (writtenFields dock))).map fun (dock, salvaged) =>
      (⟨dock⟩, salvaged) := by
  have parsed : Raw.parse (some (stringify (StoredSpaceLayout.toJs ⟨some dock⟩))) =
      some (.object [("version", .number (.finite 4)), ("dock", .object (writtenFields dock))]) :=
        rfl
  have version :
    fieldOf [("version", .number (.finite 4)), ("dock", .object (writtenFields dock))] "version" =
      some (.number (.finite 4)) := rfl
  have ofDock :
    fieldOf [("version", .number (.finite 4)), ("dock", .object (writtenFields dock))] "dock" =
      some (.object (writtenFields dock)) := rfl
  unfold parseStoredSpaceLayout
  simp only [parsed, Option.bind_eq_bind, Option.bind_some, version, ne_eq, not_true_eq_false,
    if_false, ofDock]
  exact Option.map_eq_bind.symm

theorem optionalStrings_texts {value : Fields} {name : String} {items : Option (List String)}
    (held : fieldOf value name = items.map texts) : optionalStrings value name = some items := by
  unfold optionalStrings
  rw [held]
  cases items with
  | none => rfl
  | some items => exact congrArg (Option.map some) (strings_texts items)

theorem written_optionalStrings (name : String) (items : Option (List String)) :
    writtenFields (items.map fun items => (name, texts items)).toList =
      (items.map fun items => (name, texts items)).toList := by
  cases items with
  | none => rfl
  | some items => exact congrArg (fun items => [(name, items)]) (written_texts items)

theorem parseStoredLayoutResult_again {layout : StoredLayout} {dock : Fields}
    (held : layout.dock = some dock) (clamped : layout.rails.Clamped) :
    parseStoredLayoutResult (some (stringify layout.toJs)) =
      (sanitizeStoredDock (.object (writtenFields dock))).map fun (dock, salvaged) =>
      ({ layout with dock := dock }, salvaged) := by
  obtain ⟨own, ⟨⟨fleetWidth, fleetCollapsed⟩, ⟨notesWidth, notesCollapsed⟩⟩, expandedItems,
    knownWorkspaceItems⟩ := layout
  obtain rfl : own = some dock := held
  obtain ⟨fleet, notes⟩ := clamped
  let value : Fields := [("version", .number (.finite 3)), ("dock", .object (writtenFields dock)),
      ("rails",
        .object
        [("fleet", .object [("width", .number (.finite fleetWidth)),
        ("collapsed", .bool fleetCollapsed)]),
        ("notes", .object [("width", .number (.finite notesWidth)),
          ("collapsed", .bool notesCollapsed)])])] ++
    (expandedItems.map fun items => ("expandedItems", texts items)).toList ++
    (knownWorkspaceItems.map fun items => ("knownWorkspaceItems", texts items)).toList
  -- The text that was written parses to the layout's fields.
  have parsed :
    Raw.parse
    (some (stringify (StoredLayout.toJs
    ⟨some dock, ⟨⟨fleetWidth, fleetCollapsed⟩, ⟨notesWidth, notesCollapsed⟩⟩,
      expandedItems, knownWorkspaceItems⟩))) = some (.object value) := by
    show some (Js.object (writtenFields _)) = _
    rw [writtenFields_append, writtenFields_append, written_optionalStrings,
      written_optionalStrings]
    rfl
  have expanded : optionalStrings value "expandedItems" = some expandedItems := by
    refine optionalStrings_texts ?_
    cases expandedItems <;> cases knownWorkspaceItems <;> rfl
  have known : optionalStrings value "knownWorkspaceItems" = some knownWorkspaceItems := by
    refine optionalStrings_texts ?_
    cases expandedItems <;> cases knownWorkspaceItems <;> rfl
  -- The widths are clamped already.
  have rails :
      storedRails value = some ⟨⟨fleetWidth, fleetCollapsed⟩, ⟨notesWidth, notesCollapsed⟩⟩ := by
    have version : fieldOf value "version" = some (.number (.finite 3)) := rfl
    have ofRails : (recordField value "rails").bind railPreferences =
      some ⟨⟨clampRailWidth fleetWidth, fleetCollapsed⟩,
        ⟨clampRailWidth notesWidth, notesCollapsed⟩⟩ := rfl
    unfold storedRails
    simp only [version]
    rw [if_neg (by decide), if_pos trivial, ofRails]
    exact congrArg₂ (fun fleet notes =>
      some (RailPreferences.mk ⟨fleet, fleetCollapsed⟩ ⟨notes, notesCollapsed⟩)) fleet notes
  have ofDock : fieldOf value "dock" = some (.object (writtenFields dock)) := rfl
  unfold parseStoredLayoutResult
  simp only [parsed, Option.bind_eq_bind, Option.bind_some, expanded, known, rails, ofDock]
  exact Option.map_eq_bind.symm

theorem restorable_of {raw : Option Raw} {dock : Fields} {salvaged : Bool}
    (read : (storedDock raw).bind sanitizeStoredDock = some (some dock, salvaged)) :
    WellFormed dock ∧ sanitizeStoredDock (.object (writtenFields dock)) =
      some (some (writtenFields dock), false) ↔
      restorable raw = true := by
  obtain ⟨value, held, sanitized⟩ := Option.bind_eq_some_iff.mp read
  unfold restorable
  rw [held]
  cases value with
  | object stored => exact sanitizeStoredDock_iff sanitized
  | null => cases sanitized
  | _ => cases sanitized

/-- A layout that is restored with a dock is well formed, and is read again as it was written and
not as
salvaged, exactly when its dock is restorable. -/
theorem restored_iff (raw : Option Raw) :
    (∀ dock salvaged, parseStoredSpaceLayout raw = some (⟨some dock⟩, salvaged) →
      (WellFormed dock ∧ parseStoredSpaceLayout
      (some (stringify (StoredSpaceLayout.toJs ⟨some dock⟩))) =
          some (⟨some (writtenFields dock)⟩, false) ↔ restorable raw = true)) ∧
    ∀ layout dock salvaged, parseStoredLayoutResult raw = some (layout, salvaged) →
      layout.dock = some dock →
      (WellFormed dock ∧ parseStoredLayoutResult (some (stringify layout.toJs)) =
          some ({ layout with dock := some (writtenFields dock) }, false) ↔
            restorable raw = true) := by
  constructor
  · intro dock salvaged parsed
    rw [← restorable_of (parseStoredSpaceLayout_dock parsed), parseStoredSpaceLayout_again]
    refine and_congr_right fun _ => ?_
    cases sanitizeStoredDock (.object (writtenFields dock)) with
    | none => simp
    | some read => simp [Prod.ext_iff]
  · intro layout dock salvaged parsed held
    obtain ⟨read, clamped⟩ := parseStoredLayoutResult_dock parsed
    rw [held] at read
    rw [← restorable_of read, parseStoredLayoutResult_again held clamped]
    refine and_congr_right fun _ => ?_
    cases sanitizeStoredDock (.object (writtenFields dock)) with
    | none => simp
    | some read => simp [Prod.ext_iff]

/-! ## Examples -/

/-- An agent's panel, as it is stored. -/
def agentPanel (name : String) : String × Js :=
  ("agent:" ++ name, .object [("id", .string ("agent:" ++ name)),
    ("contentComponent", .string "agent"),
    ("params", (Params.agent name false).toJs)])

/-- A leaf that shows one panel. -/
def leafOf (id view : String) : Fields :=
  leafNode [("views", texts [view]), ("activeView", .string view), ("id", .string id)]

/-- A dock whose first group is active. -/
def dockOf (panels : Fields) (children : List Js) : Fields :=
  [("grid", .object [("root", .object (branchNode children))]), ("panels", .object panels),
    ("activeGroup", .string "1")]

/-- The text of a space's layout. -/
def rawOf (dock : Fields) : Raw :=
  .json (.object [("version", .number (.finite 4)), ("dock", .object dock)])

/-- A layout loses a group of an unknown panel, and is then read as it is. -/
theorem restored_iff_unknown_panel :
    WellFormed (dockOf [agentPanel "a"] [.object (leafOf "1" "agent:a")]) ∧
      parseStoredSpaceLayout
        (some (stringify (StoredSpaceLayout.toJs
        ⟨some (dockOf [agentPanel "a"] [.object (leafOf "1" "agent:a")])⟩))) =
        some (⟨some (writtenFields (dockOf [agentPanel "a"] [.object (leafOf "1" "agent:a")]))⟩,
          false) :=
  ((restored_iff (some (rawOf (dockOf [agentPanel "a", ("board", .null)]
    [.object (leafOf "1" "agent:a"), .object (leafOf "2" "board")])))).1
    (dockOf [agentPanel "a"] [.object (leafOf "1" "agent:a")]) true (by decide +kernel)).mpr
      (by decide +kernel)

/-- A hidden leaf alone in a sized branch is read as salvaged each time. -/
theorem restored_again_salvaged : ¬ ∀ raw dock salvaged, parseStoredSpaceLayout raw = some
    (⟨some dock⟩, salvaged) →
    WellFormed dock ∧ parseStoredSpaceLayout
      (some (stringify (StoredSpaceLayout.toJs ⟨some dock⟩))) =
      some (⟨some (writtenFields dock)⟩, false) := by
  intro all
  obtain ⟨-, again⟩ := all
    (some (rawOf (dockOf [agentPanel "a"]
      [.object (branchNode [.object (leafOf "1" "agent:a" ++ [("visible", .bool false)])] ++
      [("size", .number (.finite 300))])])))
    (dockOf [agentPanel "a"] [.object
      (leafOf "1" "agent:a" ++ [("visible", .bool false), ("size", .number (.finite 300))])])
    true (by decide +kernel)
  exact absurd again (by decide +kernel)

end AiConfig.Herder.Layout
