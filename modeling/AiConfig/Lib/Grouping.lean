import Mathlib.Tactic.Common
import Mathlib.Data.List.Basic
import Mathlib.Data.List.Perm.Basic
import Mathlib.Data.List.Forall2

/-! # Lists taken apart by a key

* `flatMap_filter_perm` — the groups of a list, key by key, are the list.
* `filterMap_find_perm` — so are the finds, where no two items share a key.
* `countP_lt_of_imp` — one item fewer is counted.
* `mapM_eq_some` — a traversal that fails nowhere relates the items one by one. -/

namespace AiConfig.Lib

section

variable {α β κ : Type} [DecidableEq κ] {key : α → κ} {keys : List κ} {items : List α}

theorem flatMap_filter_perm (nodup : keys.Nodup) (known : ∀ item ∈ items, key item ∈ keys) :
    (keys.flatMap fun k => items.filter fun item => key item = k).Perm items := by
  have groups : (keys.flatMap fun k => items.filter fun item => key item = k).Perm
      (items.filter fun item => key item ∈ keys) := by
    clear known
    induction keys with
    | nil => simp
    | cons k keys inductionHypothesis =>
      obtain ⟨new, nodup⟩ := List.nodup_cons.mp nodup
      have rest : (items.filter fun item => key item ∈ k :: keys).filter
        (fun item => !decide (key item = k)) =
          items.filter fun item => key item ∈ keys := by
        rw [List.filter_filter]
        refine List.filter_congr fun item _ => ?_
        by_cases same : key item = k
        · simp [same, new]
        · simp [same]
      have one :
        (items.filter fun item => key item ∈ k :: keys).filter (fun item => decide (key item = k)) =
          items.filter fun item => key item = k := by
        rw [List.filter_filter]
        refine List.filter_congr fun item _ => ?_
        by_cases same : key item = k <;> simp [same]
      rw [List.flatMap_cons]
      refine ((inductionHypothesis nodup).append_left _).trans ?_
      rw [← rest, ← one]
      exact List.filter_append_perm _ _
  have all : (items.filter fun item => key item ∈ keys) = items :=
    List.filter_eq_self.mpr fun item member => decide_eq_true (known item member)
  rwa [all] at groups

/-- Where no two items share a key, the first item of a key is the group. -/
theorem find_toList (distinct : (items.map key).Nodup) (k : κ) :
    (items.find? fun item => key item = k).toList = items.filter fun item => key item = k := by
  induction items with
  | nil => rfl
  | cons item items inductionHypothesis =>
    obtain ⟨new, distinct⟩ := List.nodup_cons.mp distinct
    by_cases same : key item = k
    · have others : items.filter (fun other => key other = k) = [] := by
        refine List.filter_eq_nil_iff.mpr fun other member found => new ?_
        rw [same, ← of_decide_eq_true found]
        exact List.mem_map_of_mem member
      simp [same, others]
    · simp [same, inductionHypothesis distinct]

theorem filterMap_find_perm (nodup : keys.Nodup) (distinct : (items.map key).Nodup)
    (known : ∀ item ∈ items, key item ∈ keys) :
    (keys.filterMap fun k => items.find? fun item => key item = k).Perm items := by
  have groups := flatMap_filter_perm nodup known
  have same : (keys.filterMap fun k => items.find? fun item => key item = k) =
      keys.flatMap fun k => items.filter fun item => key item = k := by
    rw [List.filterMap_eq_flatMap_toList]
    exact List.flatMap_congr fun k _ => find_toList distinct k
  rwa [same]

theorem countP_lt_of_imp {p q : α → Bool} {one : α}
    (imp : ∀ item ∈ items, p item = true → q item = true)
    (member : one ∈ items) (held : q one = true) (gone : p one = false) :
    items.countP p < items.countP q := by
  obtain ⟨before, after, rfl⟩ := List.append_of_mem member
  have left : before.countP p ≤ before.countP q :=
    List.countP_mono_left fun item inside => imp item (List.mem_append_left _ inside)
  have right : after.countP p ≤ after.countP q :=
    List.countP_mono_left fun item inside => imp item (by simp [inside])
  rw [List.countP_append, List.countP_append, List.countP_cons_of_pos held,
    List.countP_cons_of_neg (by simp [gone])]
  omega

theorem mapM_eq_some {f : α → Option β} {out : List β} :
    items.mapM f = some out ↔ List.Forall₂ (fun item result => f item = some result) items out := by
  induction items generalizing out with
  | nil => simp [eq_comm]
  | cons item items inductionHypothesis =>
    rw [List.mapM_cons]
    constructor
    · intro all
      obtain ⟨result, found, all⟩ := Option.bind_eq_some_iff.mp all
      obtain ⟨results, rest, same⟩ := Option.bind_eq_some_iff.mp all
      cases same
      exact .cons found (inductionHypothesis.mp rest)
    · intro related
      cases related with
      | cons found rest =>
        rw [found, inductionHypothesis.mpr rest]
        rfl

theorem mapM_total {f : α → Option β} (total : ∀ item ∈ items, ∃ result, f item = some result) :
    ∃ out, items.mapM f = some out := by
  induction items with
  | nil => exact ⟨[], rfl⟩
  | cons item items inductionHypothesis =>
    obtain ⟨⟨result, found⟩, total⟩ := List.forall_mem_cons.mp total
    obtain ⟨out, rest⟩ := inductionHypothesis total
    exact ⟨result :: out, mapM_eq_some.mpr (.cons found (mapM_eq_some.mp rest))⟩

theorem forall₂_of_mem {R S : α → β → Prop} {out : List β} (related : List.Forall₂ R items out)
    (imp : ∀ item ∈ items, ∀ result, R item result → S item result) : List.Forall₂ S items out := by
  induction related with
  | nil => exact .nil
  | cons head _ inductionHypothesis =>
    obtain ⟨here, later⟩ := List.forall_mem_cons.mp imp
    exact .cons (here _ head) (inductionHypothesis later)

theorem forall₂_right {R : α → β → Prop} {out : List β} (related : List.Forall₂ R items out)
    {result : β}
    (member : result ∈ out) : ∃ item ∈ items, R item result := by
  induction related with
  | nil => cases member
  | cons head _ inductionHypothesis =>
    rcases List.mem_cons.mp member with rfl | later
    · exact ⟨_, List.mem_cons_self, head⟩
    · obtain ⟨item, inside, related⟩ := inductionHypothesis later
      exact ⟨item, List.mem_cons_of_mem _ inside, related⟩

end

end AiConfig.Lib
