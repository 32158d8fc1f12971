import AiConfig.Herder.Layout.Pruned
import Mathlib.Data.List.Forall2

/-! # What a stored grid keeps

What decides of a stored node how it is restored, without its data.

* `outline` — what is left of it: a lone leaf with its attributes, or a branch.
* `keptIDs` — the ids of the leaves that are left.
* `firstGroupID_branch` — the first group of a branch is the first id that is not empty. -/

namespace AiConfig.Herder.Layout

open AiConfig.Lib

/-! ## What is left of a stored node -/

/-- A leaf with a panel that is kept. -/
def keepsView (keep : List String) (data : Fields) : Bool :=
  match stringField data "id", (fieldOf data "views").bind strings with
  | some _, some views => views.any (· ∈ keep)
  | _, _ => false

inductive Outline where
  /-- One leaf, with the attributes of the nodes it was left alone in, from the inside out. -/
  | leaf (attributes : Fields)
  /-- A branch, and whether the attributes in it are in order. -/
  | branch (steady : Bool)

def Outline.steady : Outline → Bool
  | .leaf attributes => steadyAttributes attributes
  | .branch steady => steady

def outlineBranch (value : Fields) : List Outline → Option Outline
  | [] => none
  | [.leaf attributes] => some (.leaf (withAttributes value attributes))
  | children => some (.branch (children.all Outline.steady && finiteSize value))

def outline (keep : List String) : Js → Option Outline
  | .object value =>
    if stringField value "type" = some "leaf" then
      if (recordField value "data").any (keepsView keep) then some
        (.leaf (withAttributes value [])) else none
    else if stringField value "type" = some "branch" then
      match _held : arrayField value "data" with
      | some nodes => outlineBranch value
          (nodes.attach.filterMap fun ⟨child, _⟩ => outline keep child)
      | none => none
    else none
  | _ => none
termination_by value => sizeOf value
decreasing_by exact sizeOf_arrayField (by assumption) (by assumption)

/-- The ids of the leaves that keep a panel. -/
def keptIDs (keep : List String) : Js → List String
  | .object value =>
    if stringField value "type" = some "leaf" then
      (((recordField value "data").filter (keepsView keep)).bind (stringField · "id")).toList
    else if stringField value "type" = some "branch" then
      match _held : arrayField value "data" with
      | some nodes => nodes.attach.flatMap fun ⟨child, _⟩ => keptIDs keep child
      | none => []
    else []
  | _ => []
termination_by value => sizeOf value
decreasing_by exact sizeOf_arrayField (by assumption) (by assumption)

section

variable {keep : List String}

theorem outline_object (value : Fields) : outline keep (.object value) =
    if stringField value "type" = some "leaf" then
      if (recordField value "data").any (keepsView keep) then
        some (.leaf (withAttributes value []))
      else none
    else if stringField value "type" = some "branch" then
      (arrayField value "data").bind fun nodes =>
      outlineBranch value (nodes.filterMap (outline keep))
    else none := by
  rw [outline]
  split
  · rfl
  · split
    · split
      · next held => simp [held]
      · next held => simp [held]
    · rfl

theorem keptIDs_object (value : Fields) : keptIDs keep (.object value) =
    if stringField value "type" = some "leaf" then
      (((recordField value "data").filter (keepsView keep)).bind (stringField · "id")).toList
    else if stringField value "type" = some "branch" then
      ((arrayField value "data").getD []).flatMap (keptIDs keep)
    else [] := by
  rw [keptIDs]
  split
  · rfl
  · split
    · split
      · next held => simp [held]
      · next held => simp [held]
    · rfl

theorem sanitizeLeaf_isSome (group : Fields) :
    (sanitizeLeaf keep group).isSome = keepsView keep group := by
  unfold sanitizeLeaf keepsView
  cases stringField group "id" with
  | none => rfl
  | some id =>
    cases (fieldOf group "views").bind strings with
    | none => rfl
    | some views =>
      dsimp only
      cases filtered : views.filter (· ∈ keep) with
      | nil =>
        rw [List.filter_eq_nil_iff] at filtered
        exact (List.any_eq_false.mpr filtered).symm
      | cons first rest =>
        have inside : first ∈ views.filter (· ∈ keep) := filtered ▸ List.mem_cons_self
        rw [List.mem_filter] at inside
        exact (List.any_eq_true.mpr ⟨first, inside⟩).symm

theorem groupIDs_leaf (data attributes : Fields) :
    groupIDs (.object (leafNode data ++ attributes)) = (stringField data "id").toList := by
  have isLeaf : stringField (leafNode data ++ attributes) "type" = some "leaf" := rfl
  rw [groupIDs_object, if_pos isLeaf]
  rfl

theorem groupIDs_branch (children : List Js) (attributes : Fields) :
    groupIDs (.object (branchNode children ++ attributes)) = children.flatMap groupIDs := by
  have isBranch : stringField (branchNode children ++ attributes) "type" = some "branch" := rfl
  rw [groupIDs_object, isBranch, if_neg (by decide)]
  rfl

theorem groupIDs_all {nodes : List Js} (each : ∀ node ∈ nodes,
    (∀ kept, pruneGridNode keep node = some kept → groupIDs kept = keptIDs keep node) ∧
      (pruneGridNode keep node = none → keptIDs keep node = [])) :
    (nodes.filterMap (pruneGridNode keep)).flatMap groupIDs = nodes.flatMap (keptIDs keep) := by
  induction nodes with
  | nil => rfl
  | cons node nodes inductionHypothesis =>
    have rest := inductionHypothesis fun child inside => each child (List.mem_cons_of_mem _ inside)
    obtain ⟨some_, none_⟩ := each node List.mem_cons_self
    cases pruned : pruneGridNode keep node with
    | none => rw [List.filterMap_cons_none pruned, List.flatMap_cons, none_ pruned, rest,
        List.nil_append]
    | some kept => rw [List.filterMap_cons_some pruned, List.flatMap_cons, List.flatMap_cons,
        some_ kept pruned, rest]

/-- The groups of a node are the leaves that it keeps. -/
theorem groupIDs_pruned (node : Js) :
    (∀ kept, pruneGridNode keep node = some kept → groupIDs kept = keptIDs keep node) ∧
    (pruneGridNode keep node = none → keptIDs keep node = []) := by
  induction node using node_induction with
  | other value noObject =>
    cases value with
    | object fields => exact absurd rfl (noObject fields)
    | _ => simp [pruneGridNode, keptIDs]
  | node value inductionHypothesis =>
    rw [pruneGridNode_object, keptIDs_object]
    split
    · cases held : recordField value "data" with
      | none => exact ⟨fun _ pruned => (by cases pruned), fun _ => rfl⟩
      | some group =>
        rw [Option.bind_some]
        -- A leaf is kept when one of its views is.
        have same : (sanitizeLeaf keep group).isSome = keepsView keep group :=
          sanitizeLeaf_isSome group
        cases sanitized : sanitizeLeaf keep group with
        | none =>
          rw [sanitized, Option.isSome_none] at same
          rw [Option.filter_some_neg (by simp [← same])]
          exact ⟨fun _ pruned => (by cases pruned), fun _ => rfl⟩
        | some data =>
          rw [sanitized, Option.isSome_some] at same
          rw [Option.filter_some_pos same.symm, Option.map_some, Option.bind_some]
          obtain ⟨id, views, active, named, clean⟩ := sanitizeLeaf_clean sanitized
          refine ⟨fun kept pruned => ?_, fun pruned => (by cases pruned)⟩
          obtain rfl := Option.some.inj pruned
          rw [withAttributes_leafNode, groupIDs_leaf, clean.named, named]
    · split
      · cases held : arrayField value "data" with
        | none => exact ⟨fun _ pruned => (by cases pruned), fun _ => rfl⟩
        | some nodes =>
          have each := inductionHypothesis nodes held
          have all := groupIDs_all each
          rw [Option.bind_some, Option.getD_some, ← all]
          refine ⟨fun kept pruned => ?_, fun pruned => ?_⟩
          · cases pruneBranch_cases pruned with
            | inl alone =>
              obtain ⟨child, leaf, only, isLeaf, rfl⟩ := alone
              have inside : child ∈ nodes.filterMap (pruneGridNode keep) :=
                only ▸ List.mem_singleton_self child
              obtain ⟨before, -, prunedBefore⟩ := List.mem_filterMap.mp inside
              have clean := pruneGridNode_clean before prunedBefore
              rw [only, List.flatMap_singleton]
              cases clean with
              | leaf clean own =>
                obtain rfl := Option.some.inj isLeaf
                rw [withAttributes_leaf, groupIDs_leaf, groupIDs_leaf]
              | branch _ _ _ _ => cases isLeaf
            | inr branch =>
              obtain ⟨-, -, rfl⟩ := branch
              rw [withAttributes_branch, groupIDs_branch]
          · rw [pruneBranch_none pruned]
            rfl
      · exact ⟨fun _ pruned => (by cases pruned), fun _ => rfl⟩

/-- What the outline of a node says of what is left of it. -/
def Outlined (kept : Js) : Outline → Prop
  | .leaf attributes => ∃ data, kept = .object (leafNode data ++ attributes)
  | .branch steady => asLeaf kept = none ∧ (steady = true ↔ Steady kept)

theorem Outlined.steady_iff {kept : Js} {left : Outline} (outlined : Outlined kept left) :
    left.steady = true ↔ Steady kept := by
  cases left with
  | leaf attributes =>
    obtain ⟨data, rfl⟩ := outlined
    exact steady_leaf_iff.symm
  | branch steady => exact outlined.2

theorem all_steady_iff {children : List Js} {lefts : List Outline}
    (each : List.Forall₂ Outlined children lefts) :
    lefts.all Outline.steady = true ↔ ∀ child ∈ children, Steady child := by
  induction each with
  | nil => simp
  | cons first _ inductionHypothesis =>
    rw [List.all_cons, Bool.and_eq_true, List.forall_mem_cons, first.steady_iff,
      inductionHypothesis]

/-- A branch is outlined by the outlines of what is left in it. -/
theorem outlineBranch_outlined {children : List Js} {lefts : List Outline}
    (each : List.Forall₂ Outlined children lefts)
    (value : Fields) :
    (∀ kept, pruneBranch value children = some kept →
    ∃ left, outlineBranch value lefts = some left ∧ Outlined kept left) ∧
      (pruneBranch value children = none → outlineBranch value lefts = none) := by
  refine ⟨fun kept pruned => ?_, fun pruned => ?_⟩
  · cases pruneBranch_cases pruned with
    | inl alone =>
      obtain ⟨child, leaf, rfl, isLeaf, rfl⟩ := alone
      cases each with
      | @cons _ left _ _ first rest =>
        cases rest
        cases left with
        | leaf attributes =>
          obtain ⟨data, rfl⟩ := first
          obtain rfl := Option.some.inj isLeaf
          exact ⟨.leaf (withAttributes value attributes), rfl, data, by rw [withAttributes_leaf]⟩
        | branch steady =>
          rw [first.1] at isLeaf
          cases isLeaf
    | inr branch =>
      obtain ⟨some_, spread, rfl⟩ := branch
      have ordered := steadyAttributes_spread value
      have all := all_steady_iff each
      have left : outlineBranch value lefts =
          some (.branch (lefts.all Outline.steady && finiteSize value)) := by
        cases each with
        | nil => exact absurd rfl some_
        | @cons child left _ _ first rest =>
          cases rest with
          | cons _ _ => cases left <;> rfl
          | nil =>
            cases left with
            | leaf attributes =>
              obtain ⟨data, rfl⟩ := first
              cases spread _ rfl
            | branch _ => rfl
      refine ⟨_, left, ?_, ?_⟩
      · rw [withAttributes_branch]
        rfl
      · rw [withAttributes_branch, steady_branch_iff, ordered, Bool.and_eq_true, all]
  · obtain rfl := pruneBranch_none pruned
    cases each
    rfl

theorem outlined_all {nodes : List Js} (each : ∀ node ∈ nodes,
    (∀ kept, pruneGridNode keep node = some kept → ∃ left, outline keep node = some left ∧
    Outlined kept left) ∧
      (pruneGridNode keep node = none → outline keep node = none)) :
    List.Forall₂ Outlined (nodes.filterMap (pruneGridNode keep))
      (nodes.filterMap (outline keep)) := by
  induction nodes with
  | nil => exact .nil
  | cons node nodes inductionHypothesis =>
    have rest := inductionHypothesis fun child inside => each child (List.mem_cons_of_mem _ inside)
    obtain ⟨some_, none_⟩ := each node List.mem_cons_self
    cases pruned : pruneGridNode keep node with
    | none => rwa [List.filterMap_cons_none pruned, List.filterMap_cons_none (none_ pruned)]
    | some kept =>
      obtain ⟨left, outline, outlined⟩ := some_ kept pruned
      rw [List.filterMap_cons_some pruned, List.filterMap_cons_some outline]
      exact .cons outlined rest

theorem outlined (node : Js) :
    (∀ kept, pruneGridNode keep node = some kept → ∃ left, outline keep node = some left ∧
    Outlined kept left) ∧
      (pruneGridNode keep node = none → outline keep node = none) := by
  induction node using node_induction with
  | other value noObject =>
    cases value with
    | object fields => exact absurd rfl (noObject fields)
    | _ => simp [pruneGridNode, outline]
  | node value inductionHypothesis =>
    rw [pruneGridNode_object, outline_object]
    split
    · cases held : recordField value "data" with
      | none => exact ⟨fun _ pruned => (by cases pruned), fun _ => rfl⟩
      | some group =>
        have same : (sanitizeLeaf keep group).isSome = keepsView keep group :=
          sanitizeLeaf_isSome group
        rw [Option.bind_some, Option.any_some, ← same]
        cases sanitized : sanitizeLeaf keep group with
        | none => exact ⟨fun _ pruned => (by cases pruned), fun _ => rfl⟩
        | some data =>
          refine ⟨fun kept pruned => ⟨_, rfl, data, ?_⟩, fun pruned => (by cases pruned)⟩
          obtain rfl := Option.some.inj pruned
          exact congrArg Js.object (withAttributes_leafNode data value)
    · split
      · cases held : arrayField value "data" with
        | none => exact ⟨fun _ pruned => (by cases pruned), fun _ => rfl⟩
        | some nodes =>
          exact outlineBranch_outlined (outlined_all (inductionHypothesis nodes held)) value
      · exact ⟨fun _ pruned => (by cases pruned), fun _ => rfl⟩

/-! ## The first group -/

theorem firstGroupID_filter (node : Js) :
    (firstGroupID node).filter (· ≠ "") = (groupIDs node).find? (· ≠ "") := by
  induction node using node_induction with
  | other value noObject =>
    cases value with
    | object fields => exact absurd rfl (noObject fields)
    | _ => simp [firstGroupID, groupIDs]
  | node value inductionHypothesis =>
    rw [firstGroupID_object, groupIDs_object]
    split
    · cases (recordField value "data").bind (stringField · "id") with
      | none => rfl
      | some id => by_cases empty : id = "" <;> simp [empty]
    · cases held : arrayField value "data" with
      | none => rfl
      | some nodes =>
        have each := inductionHypothesis nodes held
        rw [Option.getD_some, List.find?_flatMap]
        clear held inductionHypothesis
        induction nodes with
        | nil => rfl
        | cons node nodes inductionHypothesis =>
          have rest :=
            inductionHypothesis fun child inside => each child (List.mem_cons_of_mem _ inside)
          rw [List.findSome?_cons, List.findSome?_cons, ← each node List.mem_cons_self]
          cases found : (firstGroupID node).filter (· ≠ "") with
          | none => exact rest
          | some id =>
            have named := (Option.filter_eq_some_iff.mp found).2
            exact Option.filter_eq_some_iff.mpr ⟨rfl, named⟩

/-- Of a branch, the first group is the first with an id that is not empty. -/
theorem firstGroupID_branch (children : List Js) (attributes : Fields) :
    firstGroupID (.object (branchNode children ++ attributes)) =
      (children.flatMap groupIDs).find? (· ≠ "") := by
  have isBranch : stringField (branchNode children ++ attributes) "type" = some "branch" := rfl
  rw [firstGroupID_object, isBranch, if_neg (by decide), List.find?_flatMap]
  show children.findSome? _ = children.findSome? _
  exact congrArg (children.findSome? ·) (funext firstGroupID_filter)

end

/-- A written node has the same groups. -/
theorem groupIDs_written (node : Js) : groupIDs node.written = groupIDs node := by
  induction node using node_induction with
  | other value noObject =>
    cases value with
    | object fields => exact absurd rfl (noObject fields)
    | number number => cases number <;> simp [Js.written, groupIDs]
    | array items => simp [Js.written, groupIDs]
    | _ => rfl
  | node value inductionHypothesis =>
    show groupIDs (.object (writtenFields value)) = _
    rw [groupIDs_object, groupIDs_object, stringField_written, recordField_written,
      arrayField_written]
    split
    · cases recordField value "data" with
      | none => rfl
      | some data =>
        rw [Option.map_some, Option.bind_some, Option.bind_some]
        exact congrArg Option.toList (stringField_written data "id")
    · cases held : arrayField value "data" with
      | none => rfl
      | some nodes =>
        rw [Option.map_some, Option.getD_some, Option.getD_some, writtenItems_map, List.flatMap_map]
        exact List.flatMap_congr (inductionHypothesis nodes held)

end AiConfig.Herder.Layout
