import Mathlib.Data.List.Basic
import Mathlib.Data.List.Induction
import Mathlib.Data.List.Perm.Basic

/-! # Items folded into the first of their key

Each item of a list joins the group of the first item of its key, unless it has no key or is one
that
is always kept: these open groups of their own.

* `groupsOf` — the groups, in the order of their first items.
* `Grouped` — the groups hold every item once, and a key's first group has all that is folded. -/

namespace AiConfig.Lib

structure Cluster (α : Type) where
  first : α
  more : List α

section

variable {α κ : Type}

def Cluster.members (group : Cluster α) : List α := group.first :: group.more

def Cluster.add (item : α) (group : Cluster α) : Cluster α :=
  { group with more := group.more ++ [item] }

variable [DecidableEq κ] (key : α → Option κ) (kept : α → Bool)

def foldIn (groups : List (Cluster α)) (item : α) : List (Cluster α) :=
  if kept item || (key item).isNone then groups ++ [⟨item, []⟩]
  else match groups.findIdx? fun group => key group.first = key item with
    | some index => groups.modify index (Cluster.add item)
    | none => groups ++ [⟨item, []⟩]

def groupsOf (items : List α) : List (Cluster α) := items.foldl (foldIn key kept) []

/-- The items of a key. -/
def ofKey (k : κ) (items : List α) : List α := items.filter fun item => key item = some k

structure Grouped (items : List α) (groups : List (Cluster α)) : Prop where
  whole : (groups.flatMap Cluster.members).Perm items
  order : (groups.map Cluster.first).Sublist items
  absent : ∀ k, ofKey key k items = [] → ∀ group ∈ groups, key group.first ≠ some k
  present : ∀ k first rest, ofKey key k items = first :: rest →
    ∃ index : Nat, groups[index]? = some ⟨first, rest.filter fun item => !kept item⟩ ∧
      ∀ (i : Nat) (group : Cluster α), groups[i]? = some group → key group.first = some k →
        i ≠ index →
        index < i ∧ kept group.first = true ∧ group.more = []
  alone : ∀ group ∈ groups, key group.first = none → group.more = []

variable {key kept}

theorem members_modify (item : α) {groups : List (Cluster α)} {index : Nat}
    (inside : index < groups.length) :
    ((groups.modify index (Cluster.add item)).flatMap Cluster.members).Perm
    (groups.flatMap Cluster.members ++ [item]) := by
  induction groups generalizing index with
  | nil => exact absurd inside (Nat.not_lt_zero _)
  | cons group groups inductionHypothesis =>
    cases index with
    | zero =>
      show ((group.members ++ [item]) ++ groups.flatMap Cluster.members).Perm
        (group.members ++ groups.flatMap Cluster.members ++ [item])
      rw [List.append_assoc, List.append_assoc]
      exact List.perm_append_comm.append_left _
    | succ index =>
      rw [List.modify_succ_cons, List.flatMap_cons, List.flatMap_cons, List.append_assoc]
      exact (inductionHypothesis (Nat.lt_of_succ_lt_succ inside)).append_left _

theorem first_modify (item : α) (groups : List (Cluster α)) (index : Nat) :
    (groups.modify index (Cluster.add item)).map Cluster.first = groups.map Cluster.first := by
  induction groups generalizing index with
  | nil => cases index <;> rfl
  | cons group groups inductionHypothesis =>
    cases index with
    | zero => rfl
    | succ index => rw [List.modify_succ_cons, List.map_cons, List.map_cons, inductionHypothesis]

theorem ofKey_snoc (k : κ) (items : List α) (item : α) :
    ofKey key k (items ++ [item]) = if key item = some k then ofKey key k items ++
      [item] else ofKey key k items := by
  rw [ofKey, ofKey, List.filter_append]
  by_cases own : key item = some k <;> simp [own]

/-- An item opens a group, where it is kept or nothing has its key. -/
theorem Grouped.open {items : List α} {groups : List (Cluster α)}
    (grouped : Grouped key kept items groups) {item : α}
    (opens : kept item = true ∨ ∀ k, key item = some k → ofKey key k items = []) :
    Grouped key kept (items ++ [item]) (groups ++ [⟨item, []⟩]) where
  whole := by
    rw [List.flatMap_append]
    exact grouped.whole.append_right _
  order := by
    rw [List.map_append]
    exact grouped.order.append (List.Sublist.refl _)
  absent k none_ group inside := by
    rw [ofKey_snoc] at none_
    split at none_
    · simp at none_
    · next other =>
      obtain old | new := List.mem_append.mp inside
      · exact grouped.absent k none_ group old
      · rw [List.mem_singleton.mp new]
        exact other
  present k first rest all := by
    rw [ofKey_snoc] at all
    split at all
    · next own =>
      cases before : ofKey key k items with
      | nil =>
        rw [before, List.nil_append, List.cons.injEq] at all
        obtain ⟨rfl, rfl⟩ := all
        refine ⟨groups.length, by simp, fun i group at_ of other => ?_⟩
        obtain low | high := Nat.lt_or_gt_of_ne other
        · rw [List.getElem?_append_left low] at at_
          exact absurd of (grouped.absent k before group (List.mem_of_getElem? at_))
        · rw [List.getElem?_eq_none (by simp; omega)] at at_
          cases at_
      | cons head tail =>
        rw [before, List.cons_append, List.cons.injEq] at all
        obtain ⟨rfl, rfl⟩ := all
        have keeps : kept item = true := by
          obtain keeps | fresh := opens
          · exact keeps
          · simp [fresh k own] at before
        obtain ⟨index, here, others⟩ := grouped.present k head tail before
        have bound := (List.getElem?_eq_some_iff.mp here).1
        refine ⟨index, ?_, fun i group at_ of other => ?_⟩
        · rw [List.getElem?_append_left bound, here, List.filter_append]
          simp [keeps]
        · rw [List.getElem?_append] at at_
          split at at_
          · exact others i group at_ of other
          · obtain rfl := List.mem_singleton.mp (List.mem_of_getElem? at_)
            exact ⟨by omega, keeps, rfl⟩
    · next apart =>
      obtain ⟨index, here, others⟩ := grouped.present k first rest all
      have bound := (List.getElem?_eq_some_iff.mp here).1
      refine ⟨index, by rw [List.getElem?_append_left bound, here], fun i group at_ of other => ?_⟩
      rw [List.getElem?_append] at at_
      split at at_
      · exact others i group at_ of other
      · obtain rfl := List.mem_singleton.mp (List.mem_of_getElem? at_)
        exact absurd of apart
  alone group inside none_ := by
    obtain old | new := List.mem_append.mp inside
    · exact grouped.alone group old none_
    · rw [List.mem_singleton.mp new]

/-- An item that is not kept joins the first group of its key. -/
theorem Grouped.join {items : List α} {groups : List (Cluster α)}
    (grouped : Grouped key kept items groups) {item first : α}
    {k : κ} {rest : List α} {index : Nat} (own : key item = some k) (folds : kept item = false)
    (before : ofKey key k items = first :: rest)
    (here : groups[index]? = some ⟨first, rest.filter fun item => !kept item⟩)
    (others : ∀ (i : Nat) (group : Cluster α), groups[i]? = some group → key group.first = some k →
    i ≠ index →
      index < i ∧ kept group.first = true ∧ group.more = []) :
    Grouped key kept (items ++ [item]) (groups.modify index (Cluster.add item)) := by
  have bound := (List.getElem?_eq_some_iff.mp here).1
  have firstKey : key first = some k := by
    have inside : first ∈ ofKey key k items := by simp [before]
    simpa [ofKey] using (List.mem_filter.mp inside).2
  have unmodified {i : Nat} {group : Cluster α}
    (at_ : (groups.modify index (Cluster.add item))[i]? = some group) :
      i = index ∧ group = ⟨first, rest.filter (fun item => !kept item) ++ [item]⟩ ∨ i ≠ index ∧
          groups[i]? = some group := by
    rw [List.getElem?_modify] at at_
    by_cases same : index = i
    · subst same
      simp only [here, if_true, Option.map_eq_map, Option.map_some, Option.some.injEq] at at_
      exact .inl ⟨rfl, at_.symm⟩
    · simp only [same, if_false, Option.map_eq_map, Option.map_id_fun', id] at at_
      exact .inr ⟨Ne.symm same, at_⟩
  constructor
  · exact (members_modify item bound).trans (grouped.whole.append_right _)
  · rw [first_modify]
    exact grouped.order.trans (List.sublist_append_left _ _)
  · intro k' none_ group inside
    rw [ofKey_snoc] at none_
    split at none_
    · simp at none_
    · obtain ⟨i, at_⟩ := List.mem_iff_getElem?.mp inside
      obtain ⟨-, rfl⟩ | ⟨-, old⟩ := unmodified at_
      · intro same
        exact grouped.absent k' none_ _ (List.mem_of_getElem? here) same
      · exact grouped.absent k' none_ group (List.mem_of_getElem? old)
  · intro k' first' rest' all
    rw [ofKey_snoc] at all
    by_cases same : k' = k
    · subst same
      rw [if_pos own, before, List.cons_append, List.cons.injEq] at all
      obtain ⟨rfl, rfl⟩ := all
      refine ⟨index, ?_, fun i group at_ of other => ?_⟩
      · simp [here, Cluster.add, folds]
      · obtain ⟨is, -⟩ | ⟨-, old⟩ := unmodified at_
        · exact absurd is other
        · exact others i group old of other
    · rw [if_neg (by simp [own, Ne.symm same])] at all
      obtain ⟨index', here', others'⟩ := grouped.present k' first' rest' all
      have apart : index ≠ index' := by
        rintro rfl
        rw [here, Option.some.injEq, Cluster.mk.injEq] at here'
        have inside : first' ∈ ofKey key k' items := by simp [all]
        have key' : key first' = some k' := by simpa [ofKey] using (List.mem_filter.mp inside).2
        rw [← here'.1, firstKey] at key'
        exact same (Option.some.inj key').symm
      refine ⟨index', by simp [apart, here'], fun i group at_ of other => ?_⟩
      obtain ⟨-, rfl⟩ | ⟨-, old⟩ := unmodified at_
      · exact absurd (of.symm.trans firstKey) (by simpa using same)
      · exact others' i group old of other
  · intro group inside none_
    obtain ⟨i, at_⟩ := List.mem_iff_getElem?.mp inside
    obtain ⟨-, rfl⟩ | ⟨-, old⟩ := unmodified at_
    · simp [firstKey] at none_
    · exact grouped.alone group (List.mem_of_getElem? old) none_

theorem Grouped.foldIn {items : List α} {groups : List (Cluster α)}
    (grouped : Grouped key kept items groups) (item : α) :
    Grouped key kept (items ++ [item]) (foldIn key kept groups item) := by
  unfold AiConfig.Lib.foldIn
  split
  · next stays =>
    refine grouped.open ?_
    obtain keeps | keyless := Bool.or_eq_true_iff.mp stays
    · exact .inl keeps
    · exact .inr fun k own => by simp [own] at keyless
  · next folds =>
    simp only [Bool.or_eq_true, not_or, Bool.not_eq_true, Option.isNone_eq_false_iff] at folds
    obtain ⟨k, own⟩ := Option.isSome_iff_exists.mp folds.2
    cases before : ofKey key k items with
    | nil =>
      have nowhere : groups.findIdx? (fun group => key group.first = key item) = none := by
        refine List.findIdx?_eq_none_iff.mpr fun group inside => ?_
        rw [own]
        exact decide_eq_false (grouped.absent k before group inside)
      rw [nowhere]
      refine grouped.open (.inr fun k' own' => ?_)
      obtain rfl := Option.some.inj (own.symm.trans own')
      exact before
    | cons first rest =>
      obtain ⟨index, here, others⟩ := grouped.present k first rest before
      have bound := (List.getElem?_eq_some_iff.mp here).1
      have firstKey : key first = some k := by
        have inside : first ∈ ofKey key k items := by simp [before]
        simpa [ofKey] using (List.mem_filter.mp inside).2
      have found : groups.findIdx? (fun group => key group.first = key item) = some index := by
        refine List.findIdx?_eq_some_iff_getElem.mpr ⟨bound, ?_, fun j low => ?_⟩
        · rw [(List.getElem?_eq_some_iff.mp here).2, firstKey, own]
          exact decide_eq_true rfl
        · rw [own]
          intro same
          have later :=
            (others j _ (List.getElem?_eq_getElem (by omega)) (of_decide_eq_true same) (by omega)).1
          omega
      rw [found]
      exact grouped.join own folds.1 before here others

theorem groupsOf_grouped (items : List α) : Grouped key kept items (groupsOf key kept items) := by
  induction items using List.reverseRecOn with
  | nil => exact ⟨.nil, .slnil, by simp [groupsOf], by simp [ofKey], by simp [groupsOf]⟩
  | append_singleton items item inductionHypothesis =>
    rw [groupsOf, List.foldl_append]
    exact inductionHypothesis.foldIn item

/-- What is folded has its group's key and is not kept. -/
theorem Grouped.folded {items : List α} {groups : List (Cluster α)}
    (grouped : Grouped key kept items groups)
    {group : Cluster α} (on : group ∈ groups) {item : α} (inside : item ∈ group.more) :
    kept item = false ∧ ∃ k, key item = some k ∧ key group.first = some k := by
  cases own : key group.first with
  | none => simp [grouped.alone group on own] at inside
  | some k =>
    cases all : ofKey key k items with
    | nil => exact absurd own (grouped.absent k all group on)
    | cons first rest =>
      obtain ⟨index, here, others⟩ := grouped.present k first rest all
      obtain ⟨i, at_⟩ := List.mem_iff_getElem?.mp on
      by_cases same : i = index
      · subst same
        obtain rfl := Option.some.inj (at_.symm.trans here)
        obtain ⟨later, stays⟩ := List.mem_filter.mp inside
        have ofItem : item ∈ ofKey key k items := by simp [all, later]
        exact ⟨by simpa using stays, k, by simpa [ofKey] using (List.mem_filter.mp ofItem).2, rfl⟩
      · simp [(others i group at_ own same).2.2] at inside

/-- What is kept, and what has no key, opens a group. -/
theorem Grouped.opened {items : List α} {groups : List (Cluster α)}
    (grouped : Grouped key kept items groups) {item : α}
    (inside : item ∈ items) (stays : kept item = true ∨ key item = none) :
    ∃ group ∈ groups, group.first = item := by
  obtain ⟨group, on, member⟩ := List.mem_flatMap.mp (grouped.whole.mem_iff.mpr inside)
  obtain own | folded := List.mem_cons.mp member
  · exact ⟨group, on, own.symm⟩
  · obtain ⟨unkept, k, own, -⟩ := grouped.folded on folded
    simp [unkept, own] at stays

/-- A later group of a key is of a kept item. -/
theorem Grouped.later {items : List α} {groups : List (Cluster α)}
    (grouped : Grouped key kept items groups) :
    groups.Pairwise fun a b => ∀ k, key a.first = some k → key b.first = some k →
      kept b.first = true := by
  rw [List.pairwise_iff_getElem]
  intro i j low high before k left right
  cases all : ofKey key k items with
  | nil => exact absurd left (grouped.absent k all _ (List.getElem_mem low))
  | cons first rest =>
    obtain ⟨index, -, others⟩ := grouped.present k first rest all
    by_cases same : j = index
    · have := (others i _ (List.getElem?_eq_getElem low) left (by omega)).1
      omega
    · exact (others j _ (List.getElem?_eq_getElem high) right same).2.1

end

end AiConfig.Lib
