import AiConfig.Herder.Layout.Dock
import Mathlib.Data.List.Basic

/-! # Pruned grids

What `pruneGridNode` leaves of a node, and what is left of that once it is written and read again.

* `Clean` — the shape of what is left; `pruneGridNode_clean` says so.
* `Steady` — the attributes in it are in order; `Clean.settled` says that exactly then it is read as
  it is. -/

namespace AiConfig.Herder.Layout

open AiConfig.Lib

/-! ## Fields of written records -/

theorem stringOf_written (value : Js) : stringOf value.written = stringOf value := by
  cases value with
  | number number => cases number <;> rfl
  | _ => rfl

theorem strings_written (value : Js) : strings value.written = strings value := by
  cases value with
  | array items =>
    show (writtenItems items).mapM stringOf = items.mapM stringOf
    induction items with
    | nil => rfl
    | cons item items inductionHypothesis =>
      rw [writtenItems, List.mapM_cons, List.mapM_cons, stringOf_written, inductionHypothesis]
  | number number => cases number <;> rfl
  | _ => rfl

theorem stringField_written (fields : Fields) (name : String) :
    stringField (writtenFields fields) name = stringField fields name := by
  unfold stringField
  rw [fieldOf_writtenFields]
  cases fieldOf fields name with
  | none => rfl
  | some value => exact stringOf_written value

theorem stringsField_written (fields : Fields) (name : String) :
    (fieldOf (writtenFields fields) name).bind strings = (fieldOf fields name).bind strings := by
  rw [fieldOf_writtenFields]
  cases fieldOf fields name with
  | none => rfl
  | some value => exact strings_written value

theorem recordField_written (fields : Fields) (name : String) :
    recordField (writtenFields fields) name = (recordField fields name).map writtenFields := by
  unfold recordField
  rw [fieldOf_writtenFields]
  cases fieldOf fields name with
  | none => rfl
  | some value =>
    cases value with
    | number number => cases number <;> rfl
    | _ => rfl

theorem arrayField_written (fields : Fields) (name : String) :
    arrayField (writtenFields fields) name = (arrayField fields name).map writtenItems := by
  unfold arrayField
  rw [fieldOf_writtenFields]
  cases fieldOf fields name with
  | none => rfl
  | some value =>
    cases value with
    | number number => cases number <;> rfl
    | _ => rfl

theorem strings_texts (items : List String) : strings (texts items) = some items := by
  show (items.map Js.string).mapM stringOf = some items
  induction items with
  | nil => rfl
  | cons item items inductionHypothesis =>
      rw [List.map_cons, List.mapM_cons, inductionHypothesis]; rfl

theorem written_texts (items : List String) : (texts items).written = texts items := by
  show Js.array (writtenItems (items.map .string)) = _
  rw [writtenItems_map, List.map_map]
  rfl

/-! ## The recursions -/

/-- A branch's nodes come before it. -/
theorem node_induction {motive : Js → Prop}
    (node : ∀ fields, (∀ nodes, arrayField fields "data" = some nodes →
    ∀ child ∈ nodes, motive child) → motive (.object fields))
    (other : ∀ value, (∀ fields, value ≠ .object fields) → motive value) : ∀ value, motive value
  | .object fields => node fields fun _ _held child _inside => node_induction node other child
  | .null => other _ nofun
  | .bool _ => other _ nofun
  | .number _ => other _ nofun
  | .string _ => other _ nofun
  | .array _ => other _ nofun
termination_by value => sizeOf value
decreasing_by exact sizeOf_arrayField _held _inside

theorem validGridNode_object (panelIDs : List String) (value : Fields) :
    validGridNode panelIDs (.object value) =
    if stringField value "type" = some "branch" then
      (arrayField value "data").any fun nodes =>
      !nodes.isEmpty && nodes.all (validGridNode panelIDs)
    else if stringField value "type" = some "leaf" then
      (recordField value "data").any (validLeaf panelIDs)
    else false := by
  rw [validGridNode]
  split
  · split
    · next held => simp [held]
    · next held => simp [held]
  · rfl

theorem pruneGridNode_object (keep : List String) (value : Fields) :
    pruneGridNode keep (.object value) =
    if stringField value "type" = some "leaf" then
      ((recordField value "data").bind (sanitizeLeaf keep)).map fun data =>
      .object (withAttributes value (leafNode data))
    else if stringField value "type" = some "branch" then
      (arrayField value "data").bind fun nodes =>
      pruneBranch value (nodes.filterMap (pruneGridNode keep))
    else none := by
  rw [pruneGridNode]
  split
  · rfl
  · split
    · split
      · next held => simp [held]
      · next held => simp [held]
    · rfl

theorem groupIDs_object (node : Fields) : groupIDs (.object node) =
    if stringField node "type" = some "leaf" then
      ((recordField node "data").bind (stringField · "id")).toList
    else ((arrayField node "data").getD []).flatMap groupIDs := by
  rw [groupIDs]
  split
  · rfl
  · split
    · next held => simp [held]
    · next held => simp [held]

theorem firstGroupID_object (node : Fields) : firstGroupID (.object node) =
    if stringField node "type" = some "leaf" then (recordField node "data").bind
      (stringField · "id")
    else ((arrayField node "data").getD []).findSome? fun child =>
      (firstGroupID child).filter (· ≠ "") := by
  rw [firstGroupID]
  split
  · rfl
  · split
    · next held => simp [held]
    · next held => simp [held]

/-! ## Attributes -/

/-- The attributes of a node, in any order that pruning leaves them in. -/
inductive Attributes : Fields → Prop where
  | none : Attributes []
  | size (size : JsNumber) : Attributes [("size", .number size)]
  | visible (visible : Bool) : Attributes [("visible", .bool visible)]
  | ordered (size : JsNumber) (visible : Bool) :
      Attributes [("size", .number size), ("visible", .bool visible)]
  | swapped (visible : Bool) (size : JsNumber) :
      Attributes [("visible", .bool visible), ("size", .number size)]

theorem Attributes.withAttributes {attributes : Fields} (own : Attributes attributes)
    (value : Fields) :
    Attributes (withAttributes value attributes) := by
  have sized : ∀ size, Attributes (withField attributes "size" (.number size)) := by
    intro size
    cases own with
    | none => exact .size size
    | size _ => exact .size size
    | visible visible => exact .swapped visible size
    | ordered _ visible => exact .ordered size visible
    | swapped visible _ => exact .swapped visible size
  have shown : ∀ {attributes : Fields} (visible : Bool), Attributes attributes →
      Attributes (withField attributes "visible" (.bool visible)) := by
    intro attributes visible own
    cases own with
    | none => exact .visible visible
    | size size => exact .ordered size visible
    | visible _ => exact .visible visible
    | ordered size _ => exact .ordered size visible
    | swapped _ size => exact .swapped visible size
  unfold Layout.withAttributes
  dsimp only
  split
  · split
    · exact shown _ (sized _)
    · exact shown _ own
  · split
    · exact sized _
    · exact own

theorem withAttributes_append (front : Fields) (noSize : fieldOf front "size" = none)
    (noVisible : fieldOf front "visible" = none)
    (value back : Fields) :
    withAttributes value (front ++ back) = front ++ withAttributes value back := by
  unfold withAttributes
  dsimp only
  split
  · split
    · rw [withField_append _ noSize, withField_append _ noVisible]
    · rw [withField_append _ noVisible]
  · split
    · rw [withField_append _ noSize]
    · rfl

/-- Attributes are read from where they are. -/
theorem withAttributes_read (front : Fields) (noSize : fieldOf front "size" = none)
    (noVisible : fieldOf front "visible" = none)
    (back out : Fields) : withAttributes (front ++ back) out = withAttributes back out := by
  unfold withAttributes
  rw [fieldOf_append, fieldOf_append, noSize, noVisible]
  rfl

/-- A size that a text can hold. -/
def finiteSize (fields : Fields) : Bool :=
  match fieldOf fields "size" with
  | some (.number (.infinite _)) => false
  | _ => true

/-- The size comes before `visible`, and has a text. -/
def steadyAttributes (attributes : Fields) : Bool :=
  withAttributes attributes [] = attributes && finiteSize attributes

/-- Steady attributes are read back as they are; others are read back otherwise. -/
theorem Attributes.read_back {attributes : Fields} (own : Attributes attributes) :
    (steadyAttributes attributes = true →
    Layout.withAttributes (writtenFields attributes) [] = writtenFields attributes) ∧
      (steadyAttributes attributes = false →
        writtenFields (Layout.withAttributes (writtenFields attributes) []) ≠ writtenFields attributes) := by
  have kept : ∀ attributes : Fields, steadyAttributes attributes = true →
      Layout.withAttributes (writtenFields attributes) [] = writtenFields attributes →
      (steadyAttributes attributes = true → Layout.withAttributes (writtenFields attributes) [] = writtenFields attributes) ∧
        (steadyAttributes attributes = false →
          writtenFields (Layout.withAttributes (writtenFields attributes) []) ≠ writtenFields attributes) := by
    intro attributes steady same
    exact ⟨fun _ => same, fun unsteady => by rw [steady] at unsteady; cases unsteady⟩
  have lost : ∀ attributes : Fields, steadyAttributes attributes = false →
      writtenFields (Layout.withAttributes (writtenFields attributes) []) ≠ writtenFields attributes →
      (steadyAttributes attributes = true → Layout.withAttributes (writtenFields attributes) [] = writtenFields attributes) ∧
        (steadyAttributes attributes = false →
          writtenFields (Layout.withAttributes (writtenFields attributes) []) ≠ writtenFields attributes) := by
    intro attributes unsteady other
    exact ⟨fun steady => absurd steady (by rw [unsteady]; exact Bool.false_ne_true), fun _ => other⟩
  cases own with
  | none => exact kept _ rfl rfl
  | size size =>
    cases size with
    | finite size => exact kept _ (by simp [steadyAttributes, finiteSize, Layout.withAttributes, fieldOf_cons, withField]) rfl
    | infinite negative => exact lost _ (by simp [steadyAttributes, finiteSize, fieldOf_cons]) fun same => by cases same
  | visible visible => exact kept _ (by simp [steadyAttributes, finiteSize, Layout.withAttributes, fieldOf_cons, withField]) rfl
  | ordered size visible =>
    cases size with
    | finite size => exact kept _ (by simp [steadyAttributes, finiteSize, Layout.withAttributes,
        fieldOf_cons, withField]) rfl
    | infinite negative =>
      refine lost _ (by simp [steadyAttributes, finiteSize, fieldOf_cons]) ?_
      simp [writtenFields, Js.written, Layout.withAttributes, fieldOf_cons, withField]
  | swapped visible size =>
    have unsteady :
        steadyAttributes [("visible", .bool visible), ("size", .number size)] = false := by
      simp [steadyAttributes, Layout.withAttributes, fieldOf_cons, withField]
    cases size with
    | finite size =>
      refine lost _ unsteady ?_
      simp [writtenFields, Js.written, Layout.withAttributes, fieldOf_cons, withField]
    | infinite negative => exact lost _ unsteady fun same => by cases same

/-- Attributes that were spread over nothing are in order. -/
theorem steadyAttributes_spread (value : Fields) :
    steadyAttributes (withAttributes value []) = finiteSize value := by
  unfold steadyAttributes withAttributes finiteSize
  cases fieldOf value "visible" with
  | none =>
    cases fieldOf value "size" with
    | none => rfl
    | some size =>
      cases size with
      | number size => cases size <;> simp [fieldOf_cons, withField]
      | _ => rfl
  | some visible =>
    cases fieldOf value "size" with
    | none => cases visible <;> simp [fieldOf_cons, withField]
    | some size =>
      cases size with
      | number size => cases visible <;> cases size <;> simp [fieldOf_cons, withField]
      | _ => cases visible <;> simp [fieldOf_cons, withField]

/-! ## Leaves -/

/-- The data of a leaf as pruning leaves it. -/
structure CleanLeaf (keep : List String) (data : Fields) (id : String) (views : List String)
    (active : String) : Prop where
  named : stringField data "id" = some id
  listed : fieldOf data "views" = some (texts views)
  kept : ∀ view ∈ views, view ∈ keep
  activated : fieldOf data "activeView" = some (.string active)
  shown : active ∈ views
  groups : ∀ tabGroups, arrayField data "tabGroups" = some tabGroups → ∀ group ∈ tabGroups,
    keepTabGroup keep group = some group

section

variable {keep : List String}

/-- A tab group that was pruned is kept as it is. -/
theorem keepTabGroup_again {tabGroup kept : Js} (pruned : keepTabGroup keep tabGroup = some kept) :
    keepTabGroup keep kept = some kept := by
  unfold keepTabGroup at pruned
  split at pruned
  · next fields =>
    split at pruned
    · next id panelIds named held =>
      dsimp only at pruned
      split at pruned
      · cases pruned
      · next some_ =>
        obtain rfl := Option.some.inj pruned
        have named' :
            stringField (withField fields "panelIds" (texts (panelIds.filter (· ∈ keep)))) "id" =
            some id := by
          unfold stringField
          rw [fieldOf_withField_other _ _ (by decide)]
          exact named
        unfold keepTabGroup
        simp only [named', fieldOf_withField_self, Option.bind_some, strings_texts,
          List.filter_filter, Bool.and_self]
        rw [if_neg some_, withField_same (fieldOf_withField_self _ _ _)]
    · cases pruned
  · cases pruned

theorem keepTabGroup_written {tabGroup : Js} (fixed : keepTabGroup keep tabGroup = some tabGroup) :
    keepTabGroup keep tabGroup.written = some tabGroup.written := by
  unfold keepTabGroup at fixed
  split at fixed
  · next fields =>
    split at fixed
    · next id panelIds named held =>
      dsimp only at fixed
      split at fixed
      · cases fixed
      · next some_ =>
        have same : withField fields "panelIds" (texts (panelIds.filter (· ∈ keep))) = fields :=
          Js.object.inj (Option.some.inj fixed)
        show keepTabGroup keep (.object (writtenFields fields)) =
          some (.object (writtenFields fields))
        unfold keepTabGroup
        simp only [stringField_written, stringsField_written, named, held]
        rw [if_neg some_, ← written_texts, ← writtenFields_withField, same]
    · cases fixed
  · cases fixed

theorem fieldOf_of_arrayField {fields : Fields} {name : String} {items : List Js}
    (held : arrayField fields name = some items) :
    fieldOf fields name = some (.array items) := by
  unfold arrayField at held
  split at held
  · next found => rw [found, Option.some.inj held]
  · cases held

/-- A clean leaf is kept as it is. -/
theorem CleanLeaf.fixed {data : Fields} {id active : String} {views : List String}
    (clean : CleanLeaf keep data id views active) :
    sanitizeLeaf keep data = some data := by
  have all : views.filter (· ∈ keep) = views :=
    List.filter_eq_self.mpr fun view inside => by simpa using clean.kept view inside
  have shown : stringField data "activeView" = some active := by
    rw [stringField, clean.activated]; rfl
  have listed : (fieldOf data "views").bind strings = some views := by
    rw [clean.listed, Option.bind_some, strings_texts]
  unfold sanitizeLeaf
  simp only [clean.named, listed, all, shown]
  cases views with
  | nil => exact absurd clean.shown List.not_mem_nil
  | cons first rest =>
    have same : ((some active).filter fun view => view ∈ first :: rest).getD first = active := by
      rw [Option.filter_some_pos (by simpa using clean.shown), Option.getD_some]
    dsimp only
    rw [same, withField_same clean.listed, withField_same clean.activated]
    cases groups : arrayField data "tabGroups" with
    | none => rfl
    | some tabGroups =>
      have same : tabGroups.filterMap (keepTabGroup keep) = tabGroups := by
        rw [List.filterMap_congr (clean.groups tabGroups groups), List.filterMap_some]
      dsimp only
      rw [same, withField_same (fieldOf_of_arrayField groups)]

theorem CleanLeaf.written {data : Fields} {id active : String} {views : List String}
    (clean : CleanLeaf keep data id views active) :
    CleanLeaf keep (writtenFields data) id views active where
  named := (stringField_written data "id").trans clean.named
  listed := by rw [fieldOf_writtenFields, clean.listed, Option.map_some, written_texts]
  kept := clean.kept
  activated := by rw [fieldOf_writtenFields, clean.activated]; rfl
  shown := clean.shown
  groups tabGroups held group inside := by
    rw [arrayField_written, Option.map_eq_some_iff] at held
    obtain ⟨before, held, rfl⟩ := held
    rw [writtenItems_map, List.mem_map] at inside
    obtain ⟨group, inside, rfl⟩ := inside
    exact keepTabGroup_written (clean.groups before held group inside)

/-- What pruning leaves of a leaf is clean. -/
theorem sanitizeLeaf_clean {group data : Fields} (sanitized : sanitizeLeaf keep group = some data) :
    ∃ id views active, stringField group "id" = some id ∧ CleanLeaf keep data id views active := by
  unfold sanitizeLeaf at sanitized
  cases named : stringField group "id" with
  | none => simp [named] at sanitized
  | some id =>
    cases held : (fieldOf group "views").bind strings with
    | none => simp [named, held] at sanitized
    | some views =>
      simp only [named, held] at sanitized
      cases filtered : views.filter (· ∈ keep) with
      | nil => simp [filtered] at sanitized
      | cons first rest =>
      simp only [filtered, Option.some.injEq] at sanitized
      have kept : ∀ view ∈ first :: rest, view ∈ keep := by
        intro view inside
        rw [← filtered, List.mem_filter] at inside
        simpa using inside.2
      have shown :
          ((stringField group "activeView").filter (· ∈ first :: rest)).getD first ∈ first ::
          rest := by
        cases found : (stringField group "activeView").filter (· ∈ first :: rest) with
        | none => exact List.mem_cons_self
        | some active => simpa using (Option.filter_eq_some_iff.mp found).2
      refine ⟨id, first :: rest, ((stringField group "activeView").filter (· ∈ first :: rest)).getD
        first, rfl, ?_⟩
      subst sanitized
      cases groups : arrayField group "tabGroups" with
      | none =>
        dsimp only
        constructor
        · unfold stringField
          rw [fieldOf_withField_other _ _ (by decide), fieldOf_withField_other _ _ (by decide)]
          exact named
        · rw [fieldOf_withField_other _ _ (by decide), fieldOf_withField_self]
        · exact kept
        · exact fieldOf_withField_self _ _ _
        · exact shown
        · intro tabGroups tabs
          unfold arrayField at groups tabs
          rw [fieldOf_withField_other _ _ (by decide), fieldOf_withField_other _ _ (by decide),
            groups] at tabs
          cases tabs
      | some before =>
        dsimp only
        constructor
        · unfold stringField
          rw [fieldOf_withField_other _ _ (by decide), fieldOf_withField_other _ _ (by decide),
            fieldOf_withField_other _ _ (by decide)]
          exact named
        · rw [fieldOf_withField_other _ _ (by decide), fieldOf_withField_other _ _ (by decide),
            fieldOf_withField_self]
        · exact kept
        · rw [fieldOf_withField_other _ _ (by decide)]
          exact fieldOf_withField_self _ _ _
        · exact shown
        · intro tabGroups held group inside
          unfold arrayField at held
          rw [fieldOf_withField_self] at held
          obtain rfl := Option.some.inj held
          obtain ⟨old, -, pruned⟩ := List.mem_filterMap.mp inside
          exact keepTabGroup_again pruned

/-! ## Nodes -/

/-- A node as pruning leaves it. -/
inductive Clean (keep : List String) : Js → Prop where
  | leaf {data attributes : Fields} {id : String} {views : List String} {active : String}
      (clean : CleanLeaf keep data id views active) (own : Attributes attributes) :
      Clean keep (.object (leafNode data ++ attributes))
  | branch {children : List Js} {attributes : Fields} (some_ : children ≠ [])
      (each : ∀ child ∈ children, Clean keep child)
      (spread : ∀ child, children = [child] → asLeaf child = none) (own : Attributes attributes) :
      Clean keep (.object (branchNode children ++ attributes))

/-- Every node's attributes are in order and have a text. -/
inductive Steady : Js → Prop where
  | leaf {data attributes : Fields} (own : steadyAttributes attributes = true) :
      Steady (.object (leafNode data ++ attributes))
  | branch {children : List Js} {attributes : Fields} (each : ∀ child ∈ children, Steady child)
      (own : steadyAttributes attributes = true) :
      Steady (.object (branchNode children ++ attributes))

theorem steady_leaf_iff {data attributes : Fields} :
    Steady (.object (leafNode data ++ attributes)) ↔ steadyAttributes attributes = true := by
  constructor
  · intro steady
    generalize same : Js.object _ = node at steady
    cases steady with
    | leaf own =>
      have tail := List.append_inj_right (Js.object.inj same) rfl
      exact tail ▸ own
    | branch _ _ => simp [leafNode, branchNode] at same
  · exact .leaf

theorem steady_branch_iff {children : List Js} {attributes : Fields} :
    Steady (.object (branchNode children ++ attributes)) ↔ (∀ child ∈ children, Steady child) ∧
      steadyAttributes attributes = true := by
  constructor
  · intro steady
    generalize same : Js.object _ = node at steady
    cases steady with
    | leaf _ => simp [leafNode, branchNode] at same
    | branch each own =>
      have parts := List.append_inj (Js.object.inj same) rfl
      simp only [branchNode, List.cons.injEq, Prod.mk.injEq, true_and, Js.array.injEq,
        and_true] at parts
      exact ⟨parts.1 ▸ each, parts.2 ▸ own⟩
  · exact fun both => .branch both.1 both.2

theorem withAttributes_leaf (attributes data value : Fields) :
    withAttributes value (leafNode data ++ attributes) =
      leafNode data ++ withAttributes value attributes :=
  withAttributes_append (leafNode data) rfl rfl value attributes

theorem withAttributes_leafNode (data value : Fields) :
    withAttributes value (leafNode data) = leafNode data ++ withAttributes value [] :=
  withAttributes_append (leafNode data) rfl rfl value []

theorem withAttributes_branch (children : List Js) (value : Fields) :
    withAttributes value (branchNode children) = branchNode children ++ withAttributes value [] :=
  withAttributes_append (branchNode children) rfl rfl value []

theorem asLeaf_leaf (data attributes : Fields) :
    asLeaf (.object (leafNode data ++ attributes)) =
      some (leafNode data ++ attributes) := rfl

theorem asLeaf_branch (children : List Js) (attributes : Fields) :
    asLeaf (.object (branchNode children ++ attributes)) = none := rfl

/-- A branch left with one leaf becomes it; else it stays one. -/
theorem pruneBranch_cases {value : Fields} {children : List Js} {node : Js}
    (pruned : pruneBranch value children = some node) :
    (∃ child leaf, children = [child] ∧ asLeaf child = some leaf ∧
    node = .object (withAttributes value leaf)) ∨
    (children ≠ [] ∧ (∀ child, children = [child] → asLeaf child = none) ∧
    node = .object (withAttributes value (branchNode children))) := by
  cases children with
  | nil => cases pruned
  | cons child rest =>
    unfold pruneBranch at pruned
    dsimp only at pruned
    cases rest with
    | nil =>
      cases isLeaf : asLeaf child with
      | some leaf =>
        rw [isLeaf] at pruned
        exact .inl ⟨child, leaf, rfl, isLeaf, (Option.some.inj pruned).symm⟩
      | none =>
        rw [isLeaf] at pruned
        refine .inr ⟨List.cons_ne_nil _ _, ?_, (Option.some.inj pruned).symm⟩
        intro other same
        rw [← (List.cons.inj same).1, isLeaf]
    | cons next rest =>
      refine .inr ⟨List.cons_ne_nil _ _, ?_, ?_⟩
      · intro other same
        cases (List.cons.inj same).2
      · cases isLeaf :
          asLeaf child <;> rw [isLeaf] at pruned <;> exact (Option.some.inj pruned).symm

theorem pruneBranch_none {value : Fields} {children : List Js}
    (pruned : pruneBranch value children = none) : children = [] := by
  cases children with
  | nil => rfl
  | cons child rest =>
    unfold pruneBranch at pruned
    dsimp only at pruned
    split at pruned <;> cases pruned

theorem pruneBranch_spread {children : List Js} (some_ : children ≠ [])
    (spread : ∀ child, children = [child] → asLeaf child = none)
    (value : Fields) :
    pruneBranch value children = some (.object (withAttributes value (branchNode children))) := by
  cases children with
  | nil => exact absurd rfl some_
  | cons child rest =>
    unfold pruneBranch
    dsimp only
    cases rest with
    | nil => rw [spread child rfl]
    | cons next rest => cases asLeaf child <;> rfl

/-- What pruning leaves is clean. -/
theorem pruneGridNode_clean (node : Js) : ∀ {kept : Js}, pruneGridNode keep node = some kept →
    Clean keep kept := by
  induction node using node_induction with
  | other value noObject =>
    intro kept pruned
    cases value with
    | object fields => exact absurd rfl (noObject fields)
    | _ => simp [pruneGridNode] at pruned
  | node value inductionHypothesis =>
    intro kept pruned
    rw [pruneGridNode_object] at pruned
    split at pruned
    · rw [Option.map_eq_some_iff] at pruned
      obtain ⟨data, sanitized, rfl⟩ := pruned
      rw [Option.bind_eq_some_iff] at sanitized
      obtain ⟨group, -, sanitized⟩ := sanitized
      obtain ⟨id, views, active, -, clean⟩ := sanitizeLeaf_clean sanitized
      rw [withAttributes_leafNode]
      exact .leaf clean (Attributes.none.withAttributes value)
    · split at pruned
      · rw [Option.bind_eq_some_iff] at pruned
        obtain ⟨nodes, held, pruned⟩ := pruned
        have each : ∀ child ∈ nodes.filterMap (pruneGridNode keep), Clean keep child := by
          intro child inside
          obtain ⟨before, inside, kept⟩ := List.mem_filterMap.mp inside
          exact inductionHypothesis nodes held before inside kept
        cases pruneBranch_cases pruned with
        | inl alone =>
          obtain ⟨child, leaf, only, isLeaf, rfl⟩ := alone
          have clean := each child (only ▸ List.mem_singleton_self child)
          cases clean with
          | leaf clean own =>
            rw [asLeaf_leaf, Option.some.injEq] at isLeaf
            rw [← isLeaf, withAttributes_leaf]
            exact .leaf clean (own.withAttributes value)
          | branch _ _ _ _ =>
            rw [asLeaf_branch] at isLeaf
            cases isLeaf
        | inr branch =>
          obtain ⟨some_, spread, rfl⟩ := branch
          rw [withAttributes_branch]
          exact .branch some_ each spread (Attributes.none.withAttributes value)
      · cases pruned

/-! ## Read back -/

/-- What a written node is read back as: itself exactly when it is steady. -/
def Settled (keep : List String) (node : Js) : Prop :=
  ∃ again, pruneGridNode keep node.written = some again ∧
    (asLeaf again).isSome = (asLeaf node).isSome ∧
    (Steady node → again = node.written) ∧ (¬ Steady node → again.written ≠ node.written)

theorem settled_leaf {data attributes : Fields} {id active : String} {views : List String}
    (clean : CleanLeaf keep data id views active) (own : Attributes attributes) :
    Settled keep (.object (leafNode data ++ attributes)) := by
  have pruned :
    pruneGridNode keep (.object (leafNode (writtenFields data) ++ writtenFields attributes)) =
      some (.object (leafNode (writtenFields data) ++
          withAttributes (writtenFields attributes) [])) := by
    have isLeaf : stringField (leafNode (writtenFields data) ++ writtenFields attributes) "type" =
      some "leaf" := rfl
    rw [pruneGridNode_object, if_pos isLeaf]
    show ((sanitizeLeaf keep (writtenFields data)).map _) = _
    rw [clean.written.fixed, Option.map_some, withAttributes_leafNode,
      withAttributes_read (leafNode (writtenFields data)) rfl rfl]
  refine ⟨_, pruned, rfl, ?_, ?_⟩
  · intro steady
    rw [own.read_back.1 (steady_leaf_iff.mp steady)]
    rfl
  · intro unsteady same
    have off : steadyAttributes attributes = false :=
      Bool.eq_false_iff.mpr fun steady => unsteady (.leaf steady)
    refine own.read_back.2 off ?_
    have fields :
      writtenFields (leafNode (writtenFields data) ++
      withAttributes (writtenFields attributes) []) =
        writtenFields (leafNode data ++ attributes) := Js.object.inj same
    rw [writtenFields_append, writtenFields_append] at fields
    exact List.append_inj_right fields rfl

theorem settled_children {children : List Js} (each : ∀ child ∈ children, Settled keep child) :
    ∃ again, (writtenItems children).filterMap (pruneGridNode keep) = again ∧
      again.map (fun child => (asLeaf child).isSome) =
        children.map (fun child => (asLeaf child).isSome) ∧
      ((∀ child ∈ children, Steady child) → again = writtenItems children) ∧
      (¬ (∀ child ∈ children, Steady child) → writtenItems again ≠ writtenItems children) := by
  induction children with
  | nil => exact ⟨[], rfl, rfl, fun _ => rfl, fun off => absurd (List.forall_mem_nil _) off⟩
  | cons child children inductionHypothesis =>
    obtain ⟨first, pruned, kind, steady, unsteady⟩ := each child List.mem_cons_self
    obtain ⟨rest, pruneds, kinds, steadies, unsteadies⟩ :=
      inductionHypothesis fun child inside => each child (List.mem_cons_of_mem _ inside)
    refine ⟨first :: rest, ?_, ?_, ?_, ?_⟩
    · rw [writtenItems, List.filterMap_cons_some pruned, pruneds]
    · rw [List.map_cons, List.map_cons, kind, kinds]
    · intro all
      rw [List.forall_mem_cons] at all
      rw [writtenItems, steady all.1, steadies all.2]
    · intro off same
      rw [writtenItems, writtenItems, List.cons.injEq] at same
      refine off (List.forall_mem_cons.mpr ⟨?_, ?_⟩)
      · exact Classical.byContradiction fun off => unsteady off same.1
      · exact Classical.byContradiction fun off => unsteadies off same.2

/-- A clean node that is written and read again. -/
theorem Clean.settled {node : Js} (clean : Clean keep node) : Settled keep node := by
  induction clean with
  | leaf clean own => exact settled_leaf clean own
  | @branch children attributes some_ _ spread own inductionHypothesis =>
    obtain ⟨again, pruned, kinds, steady, unsteady⟩ := settled_children inductionHypothesis
    have length : again.length = children.length := by simpa using congrArg List.length kinds
    have someAgain : again ≠ [] := by
      rintro rfl
      exact some_ (List.map_eq_nil_iff.mp kinds.symm)
    have spreadAgain : ∀ child, again = [child] → asLeaf child = none := by
      rintro child rfl
      obtain ⟨only, single⟩ :=
        List.length_eq_one_iff.mp
        (by simpa using (congrArg List.length kinds).symm : children.length = 1)
      subst single
      have kind : (asLeaf child).isSome = (asLeaf only).isSome := (List.cons.inj kinds).1
      rw [spread only rfl] at kind
      exact Option.isSome_eq_false_iff.mp kind |> Option.isNone_iff_eq_none.mp
    have read :
      pruneGridNode keep
      (.object (branchNode (writtenItems children) ++ writtenFields attributes)) =
        some (.object (branchNode again ++ withAttributes (writtenFields attributes) [])) := by
      have isBranch :
        stringField (branchNode (writtenItems children) ++ writtenFields attributes) "type" =
        some "branch" := rfl
      rw [pruneGridNode_object, isBranch, if_neg (by decide), if_pos rfl]
      show pruneBranch _ ((writtenItems children).filterMap (pruneGridNode keep)) = _
      rw [pruned, pruneBranch_spread someAgain spreadAgain, withAttributes_branch,
        withAttributes_read (branchNode (writtenItems children)) rfl rfl]
    refine ⟨_, read, rfl, ?_, ?_⟩
    · intro all
      obtain ⟨each, ordered⟩ := steady_branch_iff.mp all
      rw [own.read_back.1 ordered, steady each]
      rfl
    · intro off same
      have fields :
        writtenFields (branchNode again ++ withAttributes (writtenFields attributes) []) =
          writtenFields (branchNode children ++ attributes) := Js.object.inj same
      rw [writtenFields_append, writtenFields_append] at fields
      obtain ⟨front, back⟩ := List.append_inj fields rfl
      refine off (.branch ?_ ?_)
      · refine Classical.byContradiction fun unsteadyChild => unsteady unsteadyChild ?_
        simpa [branchNode, writtenFields, Js.written] using front
      · refine Classical.byContradiction fun unordered =>
          own.read_back.2 (Bool.eq_false_iff.mpr unordered) ?_
        exact back

end

end AiConfig.Herder.Layout
