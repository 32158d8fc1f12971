import Mathlib.Tactic.Common
import Mathlib.Data.List.Basic
import Mathlib.Data.List.Perm.Basic
import Mathlib.Data.Fintype.Pigeonhole
import Mathlib.Data.Set.Finite.List
import Mathlib.Logic.Relation
import Mathlib.Algebra.BigOperators.Group.List.Basic
import Mathlib.Algebra.GroupWithZero.Nat

/-! # Walking a parent function from its roots

Every node has at most one parent.  A walk from the roots reaches exactly the nodes
whose ancestors end in a root, each once.

* `Under` — the ancestors of a node up to a root.
* `walk_perm_iff` — the walks reach every node once just if no node is its own ancestor. -/

namespace AiConfig.Lib

section

variable {κ : Type} [DecidableEq κ] (parent : κ → Option κ) (nodes : List κ)

/-- The proper ancestors of a node, from its parent to a root. -/
inductive Under : List κ → κ → Prop where
  | root {node : κ} (top : parent node = none) : Under [] node
  | child {above : List κ} {node up : κ} (edge : parent node = some up) (rest : Under above up) :
      Under (up :: above) node

def childrenOf (node : κ) : List κ := nodes.filter fun child => parent child = some node

def rootsOf : List κ := nodes.filter fun node => parent node = none

/-- The nodes below a node, itself first. -/
def walk : Nat → κ → List κ
  | 0, _ => []
  | fuel + 1, node => node :: (childrenOf parent nodes node).flatMap (walk fuel)

def ancestor : Nat → κ → Option κ
  | 0, node => some node
  | distance + 1, node => (ancestor distance node).bind parent

/-- The nodes, each once, with the parents of nodes among them. -/
structure Closed : Prop where
  nodup : nodes.Nodup
  parent : ∀ {node up}, node ∈ nodes → parent node = some up → up ∈ nodes

end

section

variable {κ : Type} {parent : κ → Option κ} {nodes above above' : List κ} {node up : κ}

/-! ## Ancestors -/

theorem Under.unique (under : Under parent above node) (under' : Under parent above' node) :
    above = above' := by
  induction under generalizing above' with
  | root top =>
    cases under' with
    | root => rfl
    | child edge => cases top.symm.trans edge
  | child edge _ inductionHypothesis =>
    cases under' with
    | root top => cases top.symm.trans edge
    | child edge' rest' =>
      cases edge.symm.trans edge'
      rw [inductionHypothesis rest']

/-- An ancestor is under the rest of the ancestors. -/
theorem Under.of_mem (under : Under parent above node) (member : up ∈ above) :
    ∃ rest, Under parent rest up ∧ rest.length < above.length := by
  induction under with
  | root => cases member
  | @child above node next edge rest inductionHypothesis =>
    rcases List.mem_cons.mp member with rfl | later
    · exact ⟨above, rest, Nat.lt_succ_self _⟩
    · obtain ⟨further, under, shorter⟩ := inductionHypothesis later
      exact ⟨further, under, Nat.lt_succ_of_lt shorter⟩

theorem Under.not_mem (under : Under parent above node) : node ∉ above := by
  intro member
  obtain ⟨rest, under', shorter⟩ := under.of_mem member
  rw [under.unique under'] at shorter
  exact Nat.lt_irrefl _ shorter

theorem Under.nodup (under : Under parent above node) : (node :: above).Nodup := by
  induction under with
  | root => simp
  | child edge rest inductionHypothesis =>
    exact List.nodup_cons.mpr ⟨(Under.child edge rest).not_mem, inductionHypothesis⟩

theorem Under.subset (under : Under parent above node) (closed : Closed parent nodes)
    (member : node ∈ nodes) :
    node :: above ⊆ nodes := by
  induction under with
  | root => simpa using member
  | child edge _ inductionHypothesis =>
    exact List.cons_subset.mpr ⟨member, inductionHypothesis (closed.parent member edge)⟩

/-- There are fewer ancestors than nodes. -/
theorem Under.length_lt (under : Under parent above node) (closed : Closed parent nodes)
    (member : node ∈ nodes) :
    above.length < nodes.length :=
  (List.subperm_of_subset under.nodup (under.subset closed member)).length_le

theorem ancestor_succ (distance : Nat) (node : κ) :
    ancestor parent (distance + 1) node = (parent node).bind (ancestor parent distance) := by
  induction distance generalizing node with
  | zero => cases found : parent node <;> simp [ancestor, found]
  | succ distance inductionHypothesis =>
    rw [ancestor, inductionHypothesis]
    cases parent node <;> rfl

/-- A root is met at the distance of its depth only. -/
theorem root_met_iff {distance : Nat} :
    (∃ top, ancestor parent distance node = some top ∧ parent top = none) ↔
      ∃ above, Under parent above node ∧ above.length = distance := by
  induction distance generalizing node with
  | zero =>
    constructor
    · rintro ⟨top, same, none⟩
      cases same
      exact ⟨[], .root none, rfl⟩
    · rintro ⟨above, under, empty⟩
      cases under with
      | root top => exact ⟨node, rfl, top⟩
      | child => cases empty
  | succ distance inductionHypothesis =>
    rw [ancestor_succ]
    constructor
    · rintro ⟨top, met, none⟩
      obtain ⟨up, edge, met⟩ := Option.bind_eq_some_iff.mp met
      obtain ⟨above, under, length⟩ := inductionHypothesis.mp ⟨top, met, none⟩
      exact ⟨up :: above, .child edge under, congrArg (· + 1) length⟩
    · rintro ⟨above, under, length⟩
      cases under with
      | root => cases length
      | child edge rest =>
        obtain ⟨top, met, none⟩ := inductionHypothesis.mpr ⟨_, rest, Nat.succ.inj length⟩
        exact ⟨top, Option.bind_eq_some_iff.mpr ⟨_, edge, met⟩, none⟩

theorem ancestor_mem (closed : Closed parent nodes) (member : node ∈ nodes) {distance : Nat}
    (met : ancestor parent distance node = some up) : up ∈ nodes := by
  induction distance generalizing up with
  | zero =>
    cases met
    exact member
  | succ distance inductionHypothesis =>
    obtain ⟨below, met, edge⟩ := Option.bind_eq_some_iff.mp met
    exact closed.parent (inductionHypothesis met) edge

theorem Under.shorter (under : Under parent above node)
    (path : Relation.TransGen (fun child up => parent child = some up) node up) :
    ∃ rest, Under parent rest up ∧ rest.length < above.length := by
  induction path with
  | single edge =>
    cases under with
    | root top => cases top.symm.trans edge
    | @child above _ _ edge' rest =>
      cases edge.symm.trans edge'
      exact ⟨above, rest, Nat.lt_succ_self _⟩
  | tail _ edge inductionHypothesis =>
    obtain ⟨rest, under', shorter⟩ := inductionHypothesis
    cases under' with
    | root top => cases top.symm.trans edge
    | @child above' _ _ edge' rest' =>
      cases edge.symm.trans edge'
      exact ⟨above', rest', Nat.lt_of_succ_lt shorter⟩

/-- Where no chain of ancestors ends, one of finitely many nodes comes back. -/
theorem exists_cycle (closed : Closed parent nodes) (member : node ∈ nodes)
    (endless : ∀ above, ¬ Under parent above node) :
    ∃ node ∈ nodes, Relation.TransGen (fun child up => parent child = some up) node node := by
  have goes : ∀ distance, ∃ up, ancestor parent distance node = some up := by
    intro distance
    induction distance with
    | zero => exact ⟨node, rfl⟩
    | succ distance inductionHypothesis =>
      obtain ⟨up, met⟩ := inductionHypothesis
      cases next : parent up with
      | none =>
        obtain ⟨above, under, _⟩ := root_met_iff.mp ⟨up, met, next⟩
        exact absurd under (endless above)
      | some further => exact ⟨further, Option.bind_eq_some_iff.mpr ⟨up, met, next⟩⟩
  choose up met using goes
  have climbs : ∀ {a b}, a < b →
      Relation.TransGen (fun child up => parent child = some up) (up a) (up b) := by
    intro a b less
    have edge : ∀ distance, parent (up distance) = some (up (distance + 1)) := by
      intro distance
      have step := met (distance + 1)
      rw [ancestor, met distance] at step
      exact step
    induction b, less using Nat.le_induction with
    | base => exact .single (edge a)
    | succ b _ inductionHypothesis => exact .tail inductionHypothesis (edge b)
  have finite : Finite { node // node ∈ nodes } := (List.finite_toSet nodes).to_subtype
  obtain ⟨a, b, distinct, same⟩ := Finite.exists_ne_map_eq_of_infinite
    fun distance =>
      (⟨up distance, ancestor_mem closed member (met distance)⟩ : { node // node ∈ nodes })
  have same : up a = up b := congrArg Subtype.val same
  refine ⟨up a, ancestor_mem closed member (met a), ?_⟩
  rcases Nat.lt_or_gt_of_ne distinct with less | less
  · have cycle := climbs less
    rwa [← same] at cycle
  · have cycle := climbs less
    rwa [← same] at cycle

/-! ## Counting a node in the walks -/

section

variable [DecidableEq κ]

theorem sum_indicator {chosen : List κ} (nodup : chosen.Nodup) (node : κ) :
    (chosen.map fun other => if node = other then 1 else 0).sum =
    if node ∈ chosen then 1 else 0 := by
  induction chosen with
  | nil => simp
  | cons head chosen inductionHypothesis =>
    obtain ⟨new, nodup⟩ := List.nodup_cons.mp nodup
    rw [List.map_cons, List.sum_cons, inductionHypothesis nodup]
    by_cases same : node = head
    · subst same
      simp [new]
    · simp [same]

/-- One node of a list without repetitions is the node that was met, if any is. -/
theorem sum_met {chosen : List κ} (nodup : chosen.Nodup) (met : Nat → Option κ)
    (distances : List Nat) :
    (chosen.map fun node => distances.countP fun distance => met distance = some node).sum =
      distances.countP fun distance => (met distance).any (· ∈ chosen) := by
  induction distances with
  | nil => simp
  | cons distance distances inductionHypothesis =>
    simp only [List.countP_cons, List.sum_map_add, inductionHypothesis, Nat.add_left_cancel_iff]
    cases met distance with
    | none => simp
    | some node => simpa using sum_indicator nodup node

theorem count_walk (closed : Closed parent nodes) (member : node ∈ nodes) (fuel : Nat) (top : κ) :
    (walk parent nodes fuel top).count node =
      (List.range fuel).countP fun distance => ancestor parent distance node = some top := by
  induction fuel generalizing top with
  | zero => rfl
  | succ fuel inductionHypothesis =>
    rw [walk, List.count_cons, List.count_flatMap, List.range_succ_eq_map, List.countP_cons,
      List.countP_map]
    have below : ((childrenOf parent nodes top).map
        (List.count node ∘ walk parent nodes fuel)).sum =
          (List.range fuel).countP fun distance => ancestor parent (distance + 1) node =
              some top := by
      have counts : List.count node ∘ walk parent nodes fuel =
          fun child => (List.range fuel).countP fun distance => ancestor parent distance node =
              some child :=
        funext inductionHypothesis
      rw [counts, childrenOf, sum_met (closed.nodup.filter _)]
      refine List.countP_congr fun distance _ => ?_
      cases met : ancestor parent distance node with
      | none => simp [ancestor, met]
      | some up => simp [ancestor, met, ancestor_mem closed member met]
    rw [below]
    refine congrArg₂ (· + ·) rfl ?_
    by_cases same : top = node
    · simp [ancestor, same]
    · simp [ancestor, same, Ne.symm same]

theorem walk_subset (fuel : Nat) {top : κ} (member : top ∈ nodes) :
    walk parent nodes fuel top ⊆ nodes := by
  induction fuel generalizing top with
  | zero => exact List.nil_subset _
  | succ fuel inductionHypothesis =>
    refine List.cons_subset.mpr ⟨member, fun node reached => ?_⟩
    obtain ⟨child, below, reached⟩ := List.mem_flatMap.mp reached
    exact inductionHypothesis (List.mem_filter.mp below).1 reached

/-- With fuel for the longest chain of ancestors, a node is reached once if they end in a
    root and never otherwise. -/
theorem count_walks (closed : Closed parent nodes) (member : node ∈ nodes) {fuel : Nat}
    (enough : nodes.length ≤ fuel) :
    (∃ above, Under parent above node) ∧
        ((rootsOf parent nodes).flatMap (walk parent nodes fuel)).count node = 1 ∨
      (∀ above, ¬ Under parent above node) ∧
        ((rootsOf parent nodes).flatMap (walk parent nodes fuel)).count node = 0 := by
  have counts : List.count node ∘ walk parent nodes fuel =
      fun top => (List.range fuel).countP fun distance => ancestor parent distance node =
          some top :=
    funext (count_walk closed member fuel)
  rw [List.count_flatMap, counts, rootsOf, sum_met (closed.nodup.filter _)]
  have meets : ∀ distance, (ancestor parent distance node).any
      (· ∈ nodes.filter fun node => parent node = none) = true ↔
        ∃ above, Under parent above node ∧ above.length = distance := by
    intro distance
    rw [← root_met_iff, Option.any_eq_true]
    constructor
    · rintro ⟨top, met, isRoot⟩
      exact ⟨top, met, by simpa using (List.mem_filter.mp (of_decide_eq_true isRoot)).2⟩
    · rintro ⟨top, met, none⟩
      exact ⟨top, met, by simp [ancestor_mem closed member met, none]⟩
  by_cases rooted : ∃ above, Under parent above node
  · obtain ⟨above, under⟩ := rooted
    refine Or.inl ⟨⟨above, under⟩, ?_⟩
    have depth : (fun distance => (ancestor parent distance node).any
        (· ∈ nodes.filter fun node => parent node = none)) = fun distance =>
            distance == above.length := by
      funext distance
      rw [Bool.eq_iff_iff, meets, beq_iff_eq]
      constructor
      · rintro ⟨above', under', rfl⟩
        rw [under.unique under']
      · rintro rfl
        exact ⟨above, under, rfl⟩
    have short := Nat.lt_of_lt_of_le (under.length_lt closed member) enough
    rw [depth, ← List.count_eq_countP, List.Nodup.count List.nodup_range,
      if_pos (List.mem_range.mpr short)]
  · right
    refine ⟨fun above under => rooted ⟨above, under⟩, List.countP_eq_zero.mpr fun distance _ met =>
      ?_⟩
    obtain ⟨above, under, _⟩ := (meets distance).mp met
    exact rooted ⟨above, under⟩

/-! ## Cycles -/

/-- The walks from the roots reach every node once just if no node is its own ancestor. -/
theorem walk_perm_iff (closed : Closed parent nodes) {fuel : Nat} (enough : nodes.length ≤ fuel) :
    ((rootsOf parent nodes).flatMap (walk parent nodes fuel)).Perm nodes ↔
      ¬ ∃ node ∈ nodes, Relation.TransGen (fun child up => parent child = some up) node node := by
  constructor
  · rintro perm ⟨node, member, cycle⟩
    rcases count_walks closed member enough with ⟨⟨above, under⟩, _⟩ | ⟨_, missed⟩
    · obtain ⟨rest, under', shorter⟩ := under.shorter cycle
      rw [under.unique under'] at shorter
      exact Nat.lt_irrefl _ shorter
    · have present := List.count_pos_iff.mpr (perm.mem_iff.mpr member)
      exact absurd missed (Nat.ne_of_gt present)
  · intro acyclic
    refine List.perm_iff_count.mpr fun node => ?_
    by_cases member : node ∈ nodes
    · rw [List.count_eq_one_of_mem closed.nodup member]
      rcases count_walks closed member enough with ⟨_, once⟩ | ⟨endless, _⟩
      · exact once
      · exact absurd (exists_cycle closed member endless) acyclic
    · rw [List.count_eq_zero_of_not_mem member, List.count_eq_zero]
      intro reached
      obtain ⟨top, isRoot, reached⟩ := List.mem_flatMap.mp reached
      exact member (walk_subset fuel (List.mem_filter.mp isRoot).1 reached)

end

end

end AiConfig.Lib
