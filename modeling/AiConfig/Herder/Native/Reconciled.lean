import AiConfig.Herder.Native.Dock
import Mathlib.Data.List.Nodup

/-! # Restored docks of the native client

* `Keeps` — what a group of a saved tree keeps, given the agents placed before it.
* `reconcile_spec` — a tree is restored group by group.
* `Dumps` — a dump that saves a tree; `reconcile_again` — its marked dump is restored as it is. -/

namespace AiConfig.Herder.NativeDock

open AiConfig.Lib

section

variable {Pixels : Type}

/-! ## Groups of a tree -/

mutual

/-- The groups of a saved tree. -/
def groups : PanelState Pixels → List (List (PanelState Pixels))
  | .mk (.stack _ _) children => groupsAll children
  | .mk (.tabs _) children => [children]
  | .mk (.panel _) _ => []

def groupsAll : List (PanelState Pixels) → List (List (PanelState Pixels))
  | [] => []
  | child :: children => groups child ++ groupsAll children

end

mutual

/-- The agents of each group of a tree. -/
def Tree.groups : Tree Pixels → List (List String)
  | .split _ children => treesGroups children
  | .tabs agents _ => [agents]

def treesGroups : List (Tree Pixels × Option Pixels) → List (List String)
  | [] => []
  | (child, _) :: children => child.groups ++ treesGroups children

end

/-- No group and no split is empty, and each group shows one of its tabs. -/
inductive Tree.Full : Tree Pixels → Prop where
  | tabs {agents : List String} {active : Nat} (shown : active < agents.length) :
      Tree.Full (.tabs agents active)
  | split {axis : Axis} {children : List (Tree Pixels × Option Pixels)} (some_ : children ≠ [])
      (each : ∀ child ∈ children, child.1.Full) : Tree.Full (.split axis children)

/-! ## What a group keeps -/

variable {members placed : List String}

/-- The first tab marked as a preview among those that could be one, or else the first such tab. -/
def IsPreview (members placed : List String) (tabs : List (PanelState Pixels)) (preview : String) :
    Prop :=
  ∃ before tab after, tabs = before ++ tab :: after ∧ agent tab = some preview ∧
    outside members placed tab = true ∧
    (marked tab = true ∧ (∀ other ∈ before, outside members placed other = true →
      marked other = false) ∨
      (∀ other ∈ tabs, outside members placed other = true → marked other = false) ∧
        ∀ other ∈ before, outside members placed other = false)

structure Keeps (members placed : List String) (tabs : List (PanelState Pixels))
    (kept : List String) : Prop where
  order : kept.Sublist (tabs.filterMap agent)
  once : kept.Nodup
  exact_ : ∀ name, name ∈ kept ↔ name ∈ tabs.filterMap agent ∧ name ∉ placed ∧
    (name ∈ members ∨ IsPreview members placed tabs name)

/-- What each group keeps, from the first on. -/
inductive KeptGroups (members : List String) : List String → List (List (PanelState Pixels)) → List
    (List String) → Prop where
  | nil (placed : List String) : KeptGroups members placed [] []
  | cons {placed kept : List String} {tabs : List (PanelState Pixels)}
      {rest : List (List (PanelState Pixels))}
      {keptRest : List (List String)} (keeps : Keeps members placed tabs kept)
      (later : KeptGroups members (placed ++ kept) rest keptRest) :
        KeptGroups members placed (tabs :: rest) (kept :: keptRest)

theorem KeptGroups.append {front back : List (List (PanelState Pixels))}
    {kept kept' : List (List String)}
    (first : KeptGroups members placed front kept)
    (second : KeptGroups members (placed ++ kept.flatten) back kept') :
    KeptGroups members placed (front ++ back) (kept ++ kept') := by
  induction first with
  | nil placed => simpa using second
  | cons keeps later inductionHypothesis =>
    refine .cons keeps (inductionHypothesis ?_)
    simpa using second

/-- No agent is kept twice. -/
theorem KeptGroups.nodup {tabs : List (List (PanelState Pixels))} {kept : List (List String)}
    (groups : KeptGroups members placed tabs kept) (once : placed.Nodup) :
    (placed ++ kept.flatten).Nodup := by
  induction groups with
  | nil placed => simpa using once
  | @cons placed kept tabs rest keptRest keeps later inductionHypothesis =>
    have apart : ∀ name ∈ placed, ∀ other ∈ kept, name ≠ other := by
      rintro name before other after rfl
      exact ((keeps.exact_ name).mp after).2.1 before
    have both : (placed ++ kept).Nodup := List.nodup_append.mpr ⟨once, keeps.once, apart⟩
    simpa using inductionHypothesis both

theorem outside_iff {tab : PanelState Pixels} {name : String} (named : agent tab = some name) :
    outside members placed tab = true ↔ name ∉ members ∧ name ∉ placed := by
  simp [outside, named]

/-- The preview that the code chooses. -/
theorem previewOf_iff {tabs : List (PanelState Pixels)} {preview : String} :
    previewOf members placed tabs = some preview ↔ IsPreview members placed tabs preview := by
  have first : previewOf members placed tabs =
      (tabs.find? (fun tab => outside members placed tab && marked tab) <|> tabs.find?
          (outside members placed)).bind agent := by
    show ((tabs.filter (outside members placed)).find? marked <|>
      (tabs.filter (outside members placed)).head?).bind agent = _
    rw [List.find?_filter, List.head?_filter]
    simp only [Bool.decide_and, Bool.decide_eq_true]
  rw [first]
  cases found : tabs.find? (fun tab => outside members placed tab && marked tab) with
  | some tab =>
    obtain ⟨holds, before, after, same, none_⟩ := List.find?_eq_some_iff_append.mp found
    rw [Bool.and_eq_true] at holds
    have unmarked : ∀ other ∈ before, outside members placed other = true →
        marked other = false := by
      intro other inside out
      simpa [out] using none_ other inside
    constructor
    · intro named
      exact ⟨before, tab, after, same, named, holds.1, Or.inl ⟨holds.2, unmarked⟩⟩
    · rintro ⟨before', tab', after', same', named, out, chosen⟩
      cases chosen with
      | inl chosen =>
        have found' :
            tabs.find? (fun tab => outside members placed tab && marked tab) = some tab' := by
          refine List.find?_eq_some_iff_append.mpr
            ⟨by simp [out, chosen.1], before', after', same', ?_⟩
          intro other inside
          cases outsideOther : outside members placed other with
          | false => rfl
          | true => simp [chosen.2 other inside outsideOther]
        rw [found] at found'
        rw [Option.some.inj found']
        exact named
      | inr chosen =>
        have inside : tab ∈ tabs := List.mem_of_find?_eq_some found
        rw [chosen.1 tab inside holds.1] at holds
        cases holds.2
  | none =>
    have unmarked : ∀ other ∈ tabs, outside members placed other = true → marked other = false := by
      intro other inside out
      simpa [out] using List.find?_eq_none.mp found other inside
    show (tabs.find? (outside members placed)).bind agent = some preview ↔ _
    rw [Option.bind_eq_some_iff]
    constructor
    · rintro ⟨tab, foundOutside, named⟩
      obtain ⟨out, before, after, same, none_⟩ := List.find?_eq_some_iff_append.mp foundOutside
      exact ⟨before, tab, after, same, named, out,
        Or.inr ⟨unmarked, fun other inside => by simpa using none_ other inside⟩⟩
    · rintro ⟨before, tab, after, same, named, out, chosen⟩
      cases chosen with
      | inl chosen =>
        have inside : tab ∈ tabs := same ▸ List.mem_append_right _ List.mem_cons_self
        rw [unmarked tab inside out] at chosen
        cases chosen.1
      | inr chosen =>
        refine ⟨tab, List.find?_eq_some_iff_append.mpr ⟨out, before, after, same, ?_⟩, named⟩
        intro other inside
        simp [chosen.2 other inside]

/-! ## One group -/

/-- The tab that is shown is one of the group's. -/
def Walk.Shows (walk : Walk) : Prop :=
  walk.active < walk.agents.length ∨ walk.agents = [] ∧ walk.active = 0

/-- What walking some tabs adds to a group. -/
structure Walked (members : List String) (preview : Option String) (tabs : List (PanelState Pixels))
    (walk walk' : Walk) (added : List String) :
    Prop where
  agents : walk'.agents = walk.agents ++ added
  placed : walk'.placed = walk.placed ++ added
  order : added.Sublist (tabs.filterMap agent)
  once : added.Nodup
  exact_ : ∀ name, name ∈ added ↔ name ∈ tabs.filterMap agent ∧ name ∉ walk.placed ∧
    (name ∈ members ∨ preview = some name)
  shows : walk.Shows → walk'.Shows

theorem walk_step (members : List String) (preview : Option String) (activeIndex : Nat)
    (walk : Walk) (tab : PanelState Pixels × Nat) :
    ∃ added, Walked members preview [tab.1] walk
      (walk.step members preview activeIndex tab) added := by
  unfold Walk.step
  cases named : agent tab.1 with
  | none => exact ⟨[], by simp, by simp, by simp, by simp, by simp [named], id⟩
  | some name =>
    dsimp only
    split
    · next skipped =>
      refine ⟨[], by simp, by simp, by simp, by simp, ?_, id⟩
      intro other
      simp only [List.filterMap_cons, named, List.filterMap_nil, List.mem_singleton,
        List.not_mem_nil, false_iff]
      rintro ⟨rfl, fresh, kept⟩
      cases skipped with
      | inl placed => exact fresh placed
      | inr outside => exact kept.elim outside.1 outside.2
    · next kept =>
      rw [not_or, not_and_or, not_not, not_not] at kept
      refine ⟨[name], rfl, rfl, by simp [named], by simp, ?_, ?_⟩
      · intro other
        simp only [List.filterMap_cons, named, List.filterMap_nil, List.mem_singleton]
        constructor
        · rintro rfl
          exact ⟨rfl, kept⟩
        · exact fun own => own.1
      · intro shows
        left
        simp only [List.length_append, List.length_singleton]
        split
        · omega
        · cases shows with
          | inl below => omega
          | inr none_ =>
            rw [none_.2]
            omega

theorem Walked.trans {preview : Option String} {front back : List (PanelState Pixels)}
    {walk walk' walk'' : Walk}
    {added added' : List String} (first : Walked members preview front walk walk' added)
    (second : Walked members preview back walk' walk'' added') :
    Walked members preview (front ++ back) walk walk'' (added ++ added') where
  agents := by rw [second.agents, first.agents, List.append_assoc]
  placed := by rw [second.placed, first.placed, List.append_assoc]
  order := by
    rw [List.filterMap_append]
    exact first.order.append second.order
  once := by
    refine List.nodup_append.mpr ⟨first.once, second.once, ?_⟩
    rintro name before other after rfl
    refine ((second.exact_ name).mp after).2.1 ?_
    rw [first.placed]
    exact List.mem_append_right _ before
  exact_ := by
    intro name
    rw [List.mem_append, first.exact_, second.exact_, first.placed, List.filterMap_append,
      List.mem_append, List.mem_append, first.exact_]
    tauto
  shows := fun shows => second.shows (first.shows shows)

theorem walk_run (members : List String) (preview : Option String) (activeIndex start : Nat)
    (tabs : List (PanelState Pixels)) (walk : Walk) :
    ∃ added, Walked members preview tabs walk
      ((tabs.zipIdx start).foldl (Walk.step members preview activeIndex) walk) added := by
  induction tabs generalizing start walk with
  | nil => exact ⟨[], by simp, by simp, by simp, by simp, by simp, id⟩
  | cons tab tabs inductionHypothesis =>
    obtain ⟨first, stepped⟩ := walk_step members preview activeIndex walk (tab, start)
    obtain ⟨rest, ran⟩ :=
      inductionHypothesis (start + 1) (walk.step members preview activeIndex (tab, start))
    exact ⟨first ++ rest, stepped.trans ran⟩

/-! ## The tree -/

variable {positive : Pixels → Bool}

/-- A restored tree has the groups that keep a tab. -/
structure Reconciled (members placed : List String) (saved : List (List (PanelState Pixels)))
    (trees : List (Tree Pixels))
    (placed' : List String) (kept : List (List String)) : Prop where
  groups : KeptGroups members placed saved kept
  placed : placed' = placed ++ kept.flatten
  full : ∀ tree ∈ trees, tree.Full
  left : trees.flatMap Tree.groups = kept.filter (· ≠ [])

theorem treesGroups_flatMap (children : List (Tree Pixels × Option Pixels)) :
    treesGroups children = (children.map Prod.fst).flatMap Tree.groups := by
  induction children with
  | nil => rfl
  | cons child children inductionHypothesis =>
    obtain ⟨tree, size⟩ := child
    rw [treesGroups, inductionHypothesis, List.map_cons, List.flatMap_cons]

mutual

theorem reconcile_spec : ∀ (state : PanelState Pixels) (placed : List String), ∃ kept,
    Reconciled members placed (groups state) (reconcile positive members state placed).1.toList
      (reconcile positive members state placed).2 kept
  | .mk (.stack sizes axis) children, placed => by
    obtain ⟨kept, own⟩ := reconcileAll_spec sizes 0 children placed
    have left := own.left
    rw [reconcile]
    generalize reconcileAll positive members sizes 0 children placed = found at own left
    obtain ⟨trees, placed'⟩ := found
    refine ⟨kept, own.groups, own.placed, ?_, ?_⟩
    · cases trees with
      | nil => simp
      | cons child rest =>
        intro tree inside
        obtain rfl : tree = .split (axisOf axis) (child :: rest) := by simpa using inside
        exact .split (List.cons_ne_nil _ _) fun child inside =>
          own.full child.1 (List.mem_map_of_mem inside)
    · rw [← left]
      cases trees with
      | nil => rfl
      | cons child rest => simp [Tree.groups, treesGroups_flatMap]
  | .mk (.tabs activeIndex) children, placed => by
    obtain ⟨added, walked⟩ :=
      walk_run members (previewOf members placed children) activeIndex 0 children ⟨[], 0, placed⟩
    have shows := walked.shows (Or.inr ⟨rfl, rfl⟩)
    have agents := walked.agents
    rw [reconcile]
    generalize (children.zipIdx).foldl
      (Walk.step members (previewOf members placed children) activeIndex) ⟨[], 0, placed⟩ =
      walk at *
    have keeps : Keeps members placed children added := by
      refine ⟨walked.order, walked.once, fun name => ?_⟩
      rw [walked.exact_, previewOf_iff]
    refine ⟨[added], .cons keeps (.nil _), by simpa using walked.placed, ?_, ?_⟩
    · intro tree inside
      obtain ⟨some_, rfl⟩ : walk.agents ≠ [] ∧ .tabs walk.agents walk.active = tree := by
        simpa using inside
      exact .tabs (shows.resolve_right fun none_ => some_ none_.1)
    · rw [List.nil_append] at agents
      by_cases none_ : added = []
      · simp [agents, none_]
      · simp [agents, none_, Tree.groups]
  | .mk (.panel _) _, placed => ⟨[],
      .nil placed, by simp [reconcile], by simp [reconcile], by simp [reconcile]⟩

theorem reconcileAll_spec (sizes : List Pixels) : ∀ (i : Nat) (children : List (PanelState Pixels))
    (placed : List String), ∃ kept,
    Reconciled members placed (groupsAll children)
      ((reconcileAll positive members sizes i children placed).1.map Prod.fst)
      (reconcileAll positive members sizes i children placed).2 kept
  | _, [], placed =>
      ⟨[], .nil placed, by simp [reconcileAll], by simp [reconcileAll], by simp [reconcileAll]⟩
  | i, child :: children, placed => by
    obtain ⟨kept, own⟩ := reconcile_spec child placed
    obtain ⟨rest, later⟩ :=
      reconcileAll_spec sizes (i + 1) children (reconcile positive members child placed).2
    have trees : (reconcileAll positive members sizes i (child :: children) placed).1.map Prod.fst =
        (reconcile positive members child placed).1.toList ++
          (reconcileAll positive members sizes (i + 1) children
              (reconcile positive members child placed).2).1.map Prod.fst := by
      rw [reconcileAll, List.map_append]
      cases (reconcile positive members child placed).1 <;> rfl
    rw [trees]
    refine ⟨kept ++ rest, ?_, ?_, ?_, ?_⟩
    · rw [groupsAll]
      exact own.groups.append (own.placed ▸ later.groups)
    · rw [reconcileAll, List.flatten_append, ← List.append_assoc, ← own.placed]
      exact later.placed
    · intro tree inside
      cases List.mem_append.mp inside with
      | inl first => exact own.full tree first
      | inr rest => exact later.full tree rest
    · rw [List.flatMap_append, own.left, later.left, List.filter_append]

end

/-! ## Missing members -/

/-- Missing members go to the first group. -/
theorem extendFirst_spec (missing : List String) {tree : Tree Pixels} (full : tree.Full) :
    ∃ extended first rest,
    extendFirst missing tree = some extended ∧ extended.Full ∧ tree.groups = first :: rest ∧
      extended.groups = (first ++ missing) :: rest ∧
      (missing = [] → extended = tree) := by
  induction full with
  | @tabs agents active shown =>
    refine ⟨.tabs (agents ++ missing) active, agents, [], by rw [extendFirst], .tabs ?_, rfl, rfl,
      ?_⟩
    · rw [List.length_append]
      omega
    · rintro rfl
      rw [List.append_nil]
  | @split axis children some_ each inductionHypothesis =>
    cases children with
    | nil => exact absurd rfl some_
    | cons child children =>
      obtain ⟨tree, size⟩ := child
      obtain ⟨extended, first, rest, found, full, groups, groups', same⟩ :=
        inductionHypothesis _ List.mem_cons_self
      refine ⟨.split axis ((extended, size) :: children), first, rest ++ treesGroups children, ?_,
        ?_, ?_, ?_, ?_⟩
      · rw [extendFirst, found, Option.map_some]
      · refine .split (List.cons_ne_nil _ _) ?_
        intro child inside
        cases List.mem_cons.mp inside with
        | inl own => exact own ▸ full
        | inr other => exact each child (List.mem_cons_of_mem _ other)
      · rw [Tree.groups, treesGroups, groups, List.cons_append]
      · rw [Tree.groups, treesGroups, groups', List.cons_append]
      · intro none_
        rw [same none_]

/-! ## Dumps -/

mutual

/-- A dump of a tree: the sizes that are known, and a tab for each agent. -/
def Dumps (positive : Pixels → Bool) (tree : Tree Pixels) : PanelState Pixels → Prop
  | .mk (.stack sizes axis) children => ∃ trees, tree = .split (axisOf axis) trees ∧
      DumpsAll positive sizes 0 trees children
  | .mk (.tabs activeIndex) children => ∃ agents, tree = .tabs agents activeIndex ∧
      children.map agent = agents.map some
  | .mk (.panel _) _ => False

def DumpsAll (positive : Pixels → Bool) (sizes : List Pixels) (i : Nat)
    (trees : List (Tree Pixels × Option Pixels)) :
    List (PanelState Pixels) → Prop
  | [] => trees = []
  | child :: children => ∃ tree rest, trees = (tree, sizes[i]?.filter positive) :: rest ∧
      Dumps positive tree child ∧
      DumpsAll positive sizes (i + 1) rest children

end

theorem agent_mark (state : PanelState Pixels) : agent (mark members state) = agent state := by
  obtain ⟨info, children⟩ := state
  rw [mark]
  cases info with
  | panel info =>
    cases info with
    | object fields =>
      rw [markInfo]
      split
      · show agentOf (.object (withField fields "preview" (.bool true))) = agentOf (.object fields)
        have same :
            fieldOf (withField fields "preview" (.bool true)) "agent" = fieldOf fields "agent" :=
          fieldOf_withField_other _ _ (by decide)
        simp only [agentOf, same]
      · rfl
    | _ => rfl
  | _ => rfl

theorem markAll_map (children : List (PanelState Pixels)) : markAll members children = children.map
    (mark members) := by
  induction children with
  | nil => rfl
  | cons child children inductionHypothesis => rw [markAll, inductionHypothesis, List.map_cons]

theorem previewOf_isSome {tabs : List (PanelState Pixels)} {tab : PanelState Pixels}
    (inside : tab ∈ tabs)
    (out : outside members placed tab = true) :
    ∃ preview, previewOf members placed tabs = some preview := by
  have some_ : tabs.filter (outside members placed) ≠ [] :=
    List.ne_nil_of_mem (List.mem_filter.mpr ⟨inside, out⟩)
  obtain ⟨first, head⟩ : ∃ first, ((tabs.filter (outside members placed)).find? marked <|>
      (tabs.filter (outside members placed)).head?) = some first ∧
          first ∈ tabs.filter (outside members placed) := by
    cases found : (tabs.filter (outside members placed)).find? marked with
    | some first => exact ⟨first, rfl, List.mem_of_find?_eq_some found⟩
    | none =>
      obtain ⟨first, rest, same⟩ := List.exists_cons_of_ne_nil some_
      exact ⟨first, by rw [same]; rfl, by rw [same]; exact List.mem_cons_self⟩
  have firstOut := (List.mem_filter.mp head.2).2
  unfold outside at firstOut
  cases named : agent first with
  | none => rw [named] at firstOut; cases firstOut
  | some name => exact ⟨name, by rw [previewOf, head.1, Option.bind_some, named]⟩

/-- Every tab of a group is kept where none is placed and each may be. -/
theorem walk_all (preview : Option String) (activeIndex : Nat) : ∀ (tabs : List (PanelState Pixels))
    (names : List String) (walk : Walk),
    tabs.map agent = names.map some →
      (∀ name ∈ names, name ∉ walk.placed ∧ (name ∈ members ∨ preview = some name)) → names.Nodup →
    activeIndex < walk.agents.length + names.length →
    (tabs.zipIdx walk.agents.length).foldl (Walk.step members preview activeIndex) walk =
      ⟨walk.agents ++ names, if activeIndex < walk.agents.length then walk.active else activeIndex,
        walk.placed ++ names⟩
  | [], [], walk, _, _, _, shown => by
    rw [List.length_nil, Nat.add_zero] at shown
    simp [shown]
  | tab :: tabs, name :: names, walk, same, kept, once, shown => by
    rw [List.map_cons, List.map_cons, List.cons.injEq] at same
    obtain ⟨fresh, allowed⟩ := kept name List.mem_cons_self
    obtain ⟨apart, once⟩ := List.nodup_cons.mp once
    have stepped : Walk.step members preview activeIndex walk (tab, walk.agents.length) =
        ⟨walk.agents ++ [name],
          if walk.agents.length ≤ activeIndex then walk.agents.length else walk.active,
          walk.placed ++ [name]⟩ := by
      have keep : ¬(name ∈ walk.placed ∨ name ∉ members ∧ preview ≠ some name) := by tauto
      simp only [Walk.step, same.1, if_neg keep]
    have rest : ∀ other ∈ names, other ∉ walk.placed ++ [name] ∧
        (other ∈ members ∨ preview = some other) := by
      intro other inside
      obtain ⟨fresh, allowed⟩ := kept other (List.mem_cons_of_mem _ inside)
      refine ⟨?_, allowed⟩
      rw [List.mem_append, List.mem_singleton, not_or]
      exact ⟨fresh, fun own => apart (own ▸ inside)⟩
    have later := walk_all preview activeIndex tabs names ⟨walk.agents ++ [name],
      if walk.agents.length ≤ activeIndex then walk.agents.length else walk.active,
        walk.placed ++ [name]⟩ same.2 rest once
      (by simp only [List.length_append,
        List.length_singleton]; rw [List.length_cons] at shown; omega)
    simp only [List.length_append, List.length_singleton] at later
    rw [List.zipIdx_cons, List.foldl_cons, stepped, later]
    simp only [List.append_assoc, List.singleton_append, Walk.mk.injEq, true_and, and_true]
    split_ifs <;> omega
  | [], _ :: _, _, same, _, _, _ => by cases same
  | _ :: _, [], _, same, _, _, _ => by cases same

/-- A tree whose agents can all be placed, with at most one in a group that is no member. -/
structure Settled (members placed : List String) (groups : List (List String)) : Prop where
  once : (placed ++ groups.flatten).Nodup
  alone : ∀ group ∈ groups, ∀ name ∈ group, ∀ other ∈ group, name ∉ members → other ∉ members →
    name = other

theorem Settled.left {front back : List (List String)}
    (settled : Settled members placed (front ++ back)) :
    Settled members placed front := by
  obtain ⟨once, alone⟩ := settled
  refine ⟨?_, fun group inside => alone group (List.mem_append_left _ inside)⟩
  rw [List.flatten_append, ← List.append_assoc] at once
  exact (List.nodup_append.mp once).1

theorem Settled.right {front back : List (List String)}
    (settled : Settled members placed (front ++ back)) :
    Settled members (placed ++ front.flatten) back := by
  obtain ⟨once, alone⟩ := settled
  refine ⟨?_, fun group inside => alone group (List.mem_append_right _ inside)⟩
  rwa [List.flatten_append, ← List.append_assoc] at once

mutual

/-- A marked dump of a tree is reconciled to the tree. -/
theorem reconcile_again : ∀ (state : PanelState Pixels) (tree : Tree Pixels) (placed : List String),
    Dumps positive tree state → tree.Full →
    Settled members placed tree.groups →
    reconcile positive members (mark members state) placed =
      (some tree, placed ++ tree.groups.flatten)
  | .mk (.stack sizes axis) children, tree, placed, dumps, full, settled => by
    obtain ⟨trees, rfl, all⟩ := dumps
    cases full with
    | split some_ each =>
      have again := reconcileAll_again sizes 0 children trees placed all each settled
      rw [mark]
      show reconcile positive members (.mk (.stack sizes axis) (markAll members children)) placed =
        _
      rw [reconcile]
      simp only [again, List.isEmpty_iff, if_neg some_]
      rfl
  | .mk (.tabs activeIndex) children, tree, placed, dumps, full, settled => by
    obtain ⟨agents, rfl, named⟩ := dumps
    cases full with
    | tabs shown =>
      obtain ⟨once, alone⟩ := settled
      have flat : (Tree.tabs agents activeIndex : Tree Pixels).groups.flatten = agents := by
        simp [Tree.groups]
      rw [flat] at once ⊢
      obtain ⟨-, onceAgents, apart⟩ := List.nodup_append.mp once
      have tabs : (children.map (mark members)).map agent = agents.map some := by
        rw [List.map_map, ← named]
        exact List.map_congr_left fun child _ => agent_mark child
      have mine : ∀ tab ∈ children.map (mark members), ∀ name, agent tab = some name →
          name ∈ agents := by
        intro tab inside name own
        have held : some name ∈ agents.map some := by
          rw [← tabs, ← own]
          exact List.mem_map_of_mem inside
        simpa using held
      have kept : ∀ name ∈ agents, name ∉ placed ∧
          (name ∈ members ∨ previewOf members placed (children.map (mark members)) =
              some name) := by
        intro name inside
        have fresh : name ∉ placed := fun before => apart name before name inside rfl
        refine ⟨fresh, ?_⟩
        by_cases member : name ∈ members
        · exact Or.inl member
        · right
          -- the one agent that is no member is the preview
          have held : some name ∈ (children.map (mark members)).map agent := by
            rw [tabs]
            exact List.mem_map_of_mem inside
          obtain ⟨tab, insideTab, own⟩ := List.mem_map.mp held
          obtain ⟨preview, chosen⟩ :=
            previewOf_isSome insideTab ((outside_iff own).mpr ⟨member, fresh⟩)
          obtain ⟨before, first, after, same, ownFirst, out, -⟩ := previewOf_iff.mp chosen
          have insideFirst : first ∈ children.map (mark members) :=
            same ▸ List.mem_append_right _ List.mem_cons_self
          have same :=
            alone agents (List.mem_singleton_self _) preview
            (mine first insideFirst preview ownFirst) name inside
            ((outside_iff ownFirst).mp out).1 member
          rw [chosen, same]
      have walked := walk_all (previewOf members placed (children.map (mark members))) activeIndex
        (children.map (mark members)) agents
        ⟨[], 0, placed⟩ tabs kept onceAgents (by simpa using shown)
      have some_ : agents ≠ [] := by
        rintro rfl
        cases shown
      rw [mark, markAll_map]
      show reconcile positive members
        (.mk (.tabs activeIndex) (children.map (mark members))) placed = _
      rw [reconcile]
      simp only [List.length_nil, Nat.not_lt_zero, if_false, List.nil_append] at walked
      simp only [walked, List.isEmpty_iff, if_neg some_]
  | .mk (.panel _) _, _, _, dumps, _, _ => absurd dumps id

theorem reconcileAll_again (sizes : List Pixels) : ∀ (i : Nat) (children : List (PanelState Pixels))
    (trees : List (Tree Pixels × Option Pixels)) (placed : List String),
    DumpsAll positive sizes i trees children →
    (∀ tree ∈ trees, tree.1.Full) → Settled members placed (treesGroups trees) →
    reconcileAll positive members sizes i (markAll members children) placed =
      (trees, placed ++ (treesGroups trees).flatten)
  | _, [], trees, placed, dumps, _, _ => by
    obtain rfl : trees = [] := dumps
    simp [markAll, reconcileAll, treesGroups]
  | i, child :: children, trees, placed, dumps, full, settled => by
    obtain ⟨tree, rest, rfl, own, others⟩ := dumps
    obtain ⟨fullTree, fullRest⟩ := List.forall_mem_cons.mp full
    have first := reconcile_again child tree placed own fullTree settled.left
    have later :=
      reconcileAll_again sizes (i + 1) children rest
      (placed ++ tree.groups.flatten) others fullRest settled.right
    rw [markAll, reconcileAll]
    simp only [first, later, treesGroups, List.flatten_append, List.append_assoc]
    rfl

end

/-! ## Restoring -/

theorem KeptGroups.each {tabs : List (List (PanelState Pixels))} {kept : List (List String)}
    (groups : KeptGroups members placed tabs kept) : ∀ own ∈ kept, ∃ placed, ∃ tabs :
    List (PanelState Pixels), Keeps members placed tabs own := by
  induction groups with
  | nil => simp
  | cons keeps _ inductionHypothesis =>
    intro own inside
    cases List.mem_cons.mp inside with
    | inl same => exact ⟨_, _, same ▸ keeps⟩
    | inr later => exact inductionHypothesis own later

/-- A group keeps one agent that is no member at most. -/
theorem Keeps.alone {tabs : List (PanelState Pixels)} {kept : List String}
    (keeps : Keeps members placed tabs kept) :
    ∀ name ∈ kept, ∀ other ∈ kept, name ∉ members → other ∉ members → name = other := by
  intro name inside other insideOther out outOther
  have preview := previewOf_iff.mpr (((keeps.exact_ name).mp inside).2.2.resolve_left out)
  have previewOther :=
    previewOf_iff.mpr (((keeps.exact_ other).mp insideOther).2.2.resolve_left outOther)
  exact Option.some.inj (preview.symm.trans previewOther)

/-- Where nothing is kept, no tab has an agent. -/
theorem KeptGroups.none_ {tabs : List (List (PanelState Pixels))} {kept : List (List String)}
    (groups : KeptGroups members placed tabs kept) (nothing : placed = [])
    (empty : ∀ own ∈ kept, own = []) :
    ∀ group ∈ tabs, ∀ tab ∈ group, agent tab = none := by
  induction groups with
  | nil => simp
  | @cons placed own tabs rest keptRest keeps _ inductionHypothesis =>
    obtain ⟨rfl, others⟩ := List.forall_mem_cons.mp empty
    have later := inductionHypothesis (by rw [nothing, List.append_nil]) others
    refine List.forall_mem_cons.mpr ⟨?_, later⟩
    intro tab inside
    cases named : agent tab with
    | none => rfl
    | some name =>
      have held : name ∈ tabs.filterMap agent := List.mem_filterMap.mpr ⟨tab, inside, named⟩
      have fresh : name ∉ placed := by
        rw [nothing]
        exact List.not_mem_nil
      by_cases member : name ∈ members
      · exact absurd ((keeps.exact_ name).mpr ⟨held, fresh, Or.inl member⟩) List.not_mem_nil
      · obtain ⟨preview, chosen⟩ :=
          previewOf_isSome inside ((outside_iff named).mpr ⟨member, fresh⟩)
        have isPreview := previewOf_iff.mp chosen
        obtain ⟨before, first, after, same, ownFirst, out, -⟩ := isPreview
        have heldFirst : preview ∈ tabs.filterMap agent :=
          List.mem_filterMap.mpr ⟨first, same ▸ List.mem_append_right _ List.mem_cons_self,
            ownFirst⟩
        exact absurd ((keeps.exact_ preview).mpr
          ⟨heldFirst, ((outside_iff ownFirst).mp out).2, Or.inr (previewOf_iff.mp chosen)⟩)
          List.not_mem_nil

theorem length_le_one {names : List String} (once : names.Nodup)
    (same : ∀ name ∈ names, ∀ other ∈ names, name = other) :
    names.length ≤ 1 := by
  cases names with
  | nil => exact Nat.zero_le 1
  | cons first rest =>
    cases rest with
    | nil => exact le_rfl
    | cons second rest =>
      have twice := same first List.mem_cons_self second (List.mem_cons_of_mem _ List.mem_cons_self)
      rw [twice] at once
      simp at once

/-- What a restored tree is. -/
structure Restored (positive : Pixels → Bool) (members : List String) (saved : PanelState Pixels)
    (tree : Tree Pixels) : Prop where
  once : tree.groups.flatten.Nodup
  every : ∀ member ∈ members, member ∈ tree.groups.flatten
  /-- What each saved group keeps, in its order; what no group has goes to the first. -/
  kept : ∃ kept first rest, KeptGroups members [] (groups saved) kept ∧
    kept.filter (· ≠ []) = first :: rest ∧
    tree.groups = (first ++ members.filter (· ∉ kept.flatten)) :: rest
  alone : ∀ group ∈ tree.groups, (group.filter (· ∉ members)).length ≤ 1
  full : tree.Full
  again : ∀ state, Dumps positive tree state →
    restore positive members (mark members state) = some tree

/-- A restored tree has every member once, in order, and is restored as it is; where there is none,
no tab has an agent. -/
theorem restored (positive : Pixels → Bool) {members : List String} (distinct : members.Nodup)
    (saved : PanelState Pixels) :
    match restore positive members saved with
    | some tree => Restored positive members saved tree
    | none => ∀ group ∈ groups saved, ∀ tab ∈ group, agent tab = none := by
  have spec :
    ∃ kept, Reconciled members [] (groups saved) (reconcile positive members saved []).1.toList
      (reconcile positive members saved []).2 kept := reconcile_spec saved []
  obtain ⟨kept, groups, placed, full, left⟩ := spec
  rw [restore]
  generalize reconcile positive members saved [] = found at placed full left
  obtain ⟨tree, placed'⟩ := found
  obtain rfl : placed' = kept.flatten := placed
  cases tree with
  | none =>
    refine groups.none_ rfl ?_
    have empty : kept.filter (· ≠ []) = [] := left.symm
    simpa using empty
  | some tree =>
    obtain ⟨extended, first, rest, found, fullExtended, same, extendedGroups, -⟩ :=
      extendFirst_spec (members.filter (· ∉ kept.flatten)) (full tree (by simp))
    have own : kept.filter (· ≠ []) = first :: rest := by
      rw [← same, ← left]
      simp
    have flat : kept.flatten = first ++ rest.flatten := by
      rw [← List.flatten_cons, ← own, List.flatten_filter_ne_nil]
    have onceKept : kept.flatten.Nodup := groups.nodup List.nodup_nil
    -- Two tabs of no member in one group are one tab: the first group gains members only.
    have alone : ∀ group ∈ extended.groups, ∀ name ∈ group, ∀ other ∈ group, name ∉ members →
        other ∉ members → name = other := by
      have ofKept : ∀ group ∈ first :: rest, ∀ name ∈ group, ∀ other ∈ group, name ∉ members →
          other ∉ members → name = other := by
        intro group inside
        obtain ⟨_, _, keeps⟩ := groups.each group (List.mem_filter.mp (own ▸ inside)).1
        exact keeps.alone
      rw [extendedGroups]
      refine List.forall_mem_cons.mpr
        ⟨?_, fun group inside => ofKept group (List.mem_cons_of_mem _ inside)⟩
      intro name inside other insideOther out outOther
      have ofFirst : ∀ name ∈ first ++ members.filter (· ∉ kept.flatten), name ∉ members →
          name ∈ first := by
        intro name inside out
        exact (List.mem_append.mp inside).resolve_right fun missing =>
          out (List.mem_filter.mp missing).1
      exact ofKept first List.mem_cons_self name (ofFirst name inside out) other
        (ofFirst other insideOther outOther) out outOther
    have once : extended.groups.flatten.Nodup := by
      have both : (kept.flatten ++ members.filter (· ∉ kept.flatten)).Nodup := by
        refine List.nodup_append.mpr ⟨onceKept, distinct.filter _, ?_⟩
        rintro name before other missing rfl
        simpa [before] using (List.mem_filter.mp missing).2
      refine List.Perm.nodup ?_ both
      rw [extendedGroups, List.flatten_cons, flat, List.append_assoc, List.append_assoc]
      exact List.Perm.append_left first List.perm_append_comm
    have every : ∀ member ∈ members, member ∈ extended.groups.flatten := by
      intro member inside
      rw [extendedGroups, List.flatten_cons, List.append_assoc, List.mem_append, List.mem_append]
      by_cases held : member ∈ kept.flatten
      · rw [flat, List.mem_append] at held
        exact held.imp_right Or.inr
      · exact Or.inr (Or.inl (List.mem_filter.mpr ⟨inside, by simpa using held⟩))
    show match extendFirst (members.filter (· ∉ kept.flatten)) tree with
      | some tree => Restored positive members saved tree
      | none => ∀ group ∈ NativeDock.groups saved, ∀ tab ∈ group, agent tab = none
    rw [found]
    refine ⟨once, every, ⟨kept, first, rest, groups, own, extendedGroups⟩, ?_, fullExtended, ?_⟩
    · intro group inside
      refine length_le_one ((List.nodup_flatten.mp once).1 group inside |>.filter _) ?_
      intro name held other heldOther
      obtain ⟨held, out⟩ := List.mem_filter.mp held
      obtain ⟨heldOther, outOther⟩ := List.mem_filter.mp heldOther
      exact alone group inside name held other heldOther (by simpa using out)
        (by simpa using outOther)
    · intro state dumps
      -- What is built is reconciled to itself: no member is missing and no group changes.
      have again :=
        reconcile_again state extended [] dumps fullExtended ⟨by simpa using once, alone⟩
      have none_ : members.filter (· ∉ extended.groups.flatten) = [] := by
        rw [List.filter_eq_nil_iff]
        intro member inside
        simpa using every member inside
      obtain ⟨_, _, _, foundAgain, -, -, -, sameTree⟩ := extendFirst_spec [] fullExtended
      rw [restore, again]
      show extendFirst (members.filter (· ∉ [] ++ extended.groups.flatten)) extended = _
      rw [List.nil_append, none_, foundAgain, sameTree rfl]

end

/-- A tab of an agent. -/
def tabOf (name : String) : PanelState ℚ := .mk (.panel (.object [("agent", .string name)])) []

/-- A group of a member and two others, in a split. -/
theorem restored_preview : Restored (fun size : ℚ => 0 < size) ["a", "b"]
    (.mk (.stack [300] 0) [.mk (.tabs 2) [tabOf "x", tabOf "a", tabOf "y"],
    .mk (.tabs 0) [tabOf "a"]])
    (.split .horizontal [(.tabs ["x", "a", "b"] 1, some 300)]) := by
  have distinct : ["a", "b"].Nodup := by decide
  exact restored (fun size : ℚ => 0 < size) distinct
    (.mk (.stack [300] 0) [.mk (.tabs 2) [tabOf "x", tabOf "a", tabOf "y"],
      .mk (.tabs 0) [tabOf "a"]])

end AiConfig.Herder.NativeDock
