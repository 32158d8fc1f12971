import Mathlib.Algebra.Order.BigOperators.Group.List
import Mathlib.Data.List.Nodup
import Mathlib.Data.Int.Basic
import Mathlib.Algebra.Ring.Int.Defs

/-! # Maps in order of insertion

A map that lists its entries in the order in which their keys came, as the language's `Map`
does: setting a key that is there keeps its place.  And an order of texts, as by `localeCompare`.

* `get_set`, `get_delete` — what an entry is after a change.
* `total_set`, `total_delete` — what a sum over the entries is after a change.
* `total_congr` — two sums agree when they agree key by key. -/

namespace AiConfig.Lib

/-- A consistent order, in which texts may tie. -/
structure Collation where
  le : String → String → Bool
  total : ∀ left right, le left right || le right left
  trans : ∀ left middle right, le left middle → le middle right → le left right

structure Entries (κ α : Type) where
  list : List (κ × α)
  distinct : (list.map Prod.fst).Nodup

namespace Entries

variable {κ α β : Type} [DecidableEq κ]

def find (key : κ) : List (κ × α) → Option α
  | [] => none
  | (own, value) :: rest => if own = key then some value else find key rest

def put (key : κ) (value : α) : List (κ × α) → List (κ × α)
  | [] => [(key, value)]
  | (own, held) :: rest =>
    if own = key then (key, value) :: rest else (own, held) :: put key value rest

theorem find_none {key : κ} {list : List (κ × α)} :
    find key list = none ↔ key ∉ list.map Prod.fst := by
  induction list with
  | nil => simp [find]
  | cons entry rest inductionHypothesis =>
    obtain ⟨own, value⟩ := entry
    by_cases same : own = key
    · simp [find, same]
    · simp [find, same, Ne.symm same, inductionHypothesis]

theorem find_put (key other : κ) (value : α) (list : List (κ × α)) :
    find other (put key value list) = if key = other then some value else find other list := by
  induction list with
  | nil => rfl
  | cons entry rest inductionHypothesis =>
    obtain ⟨own, held⟩ := entry
    by_cases same : own = key
    · subst same
      simp only [put, if_true, find]
      split <;> rfl
    · simp only [put, if_neg same, find, inductionHypothesis]
      by_cases here : own = other
      · have apart : key ≠ other := fun same' => same (here.trans same'.symm)
        rw [if_pos here, if_neg apart, if_pos here]
      · rw [if_neg here, if_neg here]

theorem find_filter (key other : κ) (list : List (κ × α)) :
    find other (list.filter fun entry => entry.1 ≠ key) =
      if key = other then none else find other list := by
  induction list with
  | nil => simp [find]
  | cons entry rest inductionHypothesis =>
    obtain ⟨own, held⟩ := entry
    by_cases same : own = key
    · subst same
      rw [List.filter_cons_of_neg (by simp), inductionHypothesis, find]
      split <;> rfl
    · rw [List.filter_cons_of_pos (by simpa using same), find, inductionHypothesis, find]
      by_cases here : own = other
      · have apart : key ≠ other := fun same' => same (here.trans same'.symm)
        rw [if_pos here, if_neg apart, if_pos here]
      · rw [if_neg here, if_neg here]

theorem put_keys (key : κ) (value : α) (list : List (κ × α)) :
    (put key value list).map Prod.fst =
      if key ∈ list.map Prod.fst then list.map Prod.fst else list.map Prod.fst ++ [key] := by
  induction list with
  | nil => simp [put]
  | cons entry rest inductionHypothesis =>
    obtain ⟨own, held⟩ := entry
    by_cases same : own = key
    · simp [put, same]
    · simp only [put, if_neg same, List.map_cons, inductionHypothesis, List.mem_cons, Ne.symm same,
        false_or]
      split <;> rfl

theorem nodup_put {list : List (κ × α)} (distinct : (list.map Prod.fst).Nodup) (key : κ)
    (value : α) :
    ((put key value list).map Prod.fst).Nodup := by
  rw [put_keys]
  split
  · exact distinct
  · next fresh => exact List.nodup_append.mpr ⟨distinct, List.nodup_singleton key, by
      intro one first other second same
      rw [List.mem_singleton] at second
      exact fresh (second ▸ same ▸ first)⟩

def empty : Entries κ α := ⟨[], List.nodup_nil⟩

def get (entries : Entries κ α) (key : κ) : Option α := find key entries.list

def set (entries : Entries κ α) (key : κ) (value : α) : Entries κ α :=
  ⟨put key value entries.list, nodup_put entries.distinct key value⟩

def delete (entries : Entries κ α) (key : κ) : Entries κ α :=
  ⟨entries.list.filter fun entry => entry.1 ≠ key,
    entries.distinct.sublist (List.filter_sublist.map _)⟩

def keys (entries : Entries κ α) : List κ := entries.list.map Prod.fst

def values (entries : Entries κ α) : List α := entries.list.map Prod.snd

def size (entries : Entries κ α) : Nat := entries.list.length

@[simp] theorem get_empty (key : κ) : (empty : Entries κ α).get key = none := rfl

theorem get_set (entries : Entries κ α) (key other : κ) (value : α) :
    (entries.set key value).get other = if key = other then some value else entries.get other :=
  find_put key other value entries.list

@[simp] theorem get_set_self (entries : Entries κ α) (key : κ) (value : α) :
    (entries.set key value).get key = some value := by
  rw [get_set, if_pos rfl]

theorem get_set_other (entries : Entries κ α) {key other : κ} (apart : key ≠ other) (value : α) :
    (entries.set key value).get other = entries.get other := by
  rw [get_set, if_neg apart]

theorem get_delete (entries : Entries κ α) (key other : κ) :
    (entries.delete key).get other = if key = other then none else entries.get other :=
  find_filter key other entries.list

theorem mem_list {entries : Entries κ α} {key : κ} {value : α} : (key, value) ∈ entries.list ↔
    entries.get key = some value := by
  obtain ⟨list, distinct⟩ := entries
  rw [get]
  induction list with
  | nil => simp [find]
  | cons entry rest inductionHypothesis =>
    obtain ⟨own, held⟩ := entry
    rw [List.map_cons, List.nodup_cons] at distinct
    rw [List.mem_cons, inductionHypothesis distinct.2, find]
    by_cases same : own = key
    · subst same
      have absent : find own rest = none := find_none.mpr distinct.1
      simp [absent, eq_comm]
    · simp [same, Ne.symm same]

/-! ## Sums -/

/-- The sum of what the values weigh. -/
def total (weigh : α → Int) (entries : Entries κ α) : Int :=
  (entries.list.map fun entry => weigh entry.2).sum

/-- What the entry of a key weighs, if there is one. -/
def weight (weigh : α → Int) (entries : Entries κ α) (key : κ) : Int :=
  (entries.get key).elim 0 weigh

theorem sum_put (weigh : α → Int) (key : κ) (value : α) (list : List (κ × α)) :
    ((put key value list).map fun entry => weigh entry.2).sum =
      (list.map fun entry => weigh entry.2).sum - (find key list).elim 0 weigh + weigh value := by
  induction list with
  | nil => simp [put, find]
  | cons entry rest inductionHypothesis =>
    obtain ⟨own, held⟩ := entry
    by_cases same : own = key
    · simp only [put, find, if_pos same, List.map_cons, List.sum_cons, Option.elim_some]
      omega
    · simp only [put, find, if_neg same, List.map_cons, List.sum_cons, inductionHypothesis]
      omega

theorem total_set (weigh : α → Int) (entries : Entries κ α) (key : κ) (value : α) :
    (entries.set key value).total weigh =
    entries.total weigh - entries.weight weigh key + weigh value :=
  sum_put weigh key value entries.list

theorem total_delete (weigh : α → Int) (entries : Entries κ α) (key : κ) :
    (entries.delete key).total weigh = entries.total weigh - entries.weight weigh key := by
  obtain ⟨list, distinct⟩ := entries
  show ((list.filter fun entry => entry.1 ≠ key).map fun entry => weigh entry.2).sum =
    (list.map fun entry => weigh entry.2).sum - (find key list).elim 0 weigh
  induction list with
  | nil => simp [find]
  | cons entry rest inductionHypothesis =>
    obtain ⟨own, held⟩ := entry
    rw [List.map_cons, List.nodup_cons] at distinct
    have later := inductionHypothesis distinct.2
    by_cases same : own = key
    · subst same
      rw [find_none.mpr distinct.1] at later
      rw [List.filter_cons_of_neg (by simp), later, find, if_pos rfl]
      simp
    · rw [List.filter_cons_of_pos (by simpa using same), find, if_neg same]
      simp only [List.map_cons, List.sum_cons, later]
      omega

theorem total_congr {weigh : α → Int} {weigh' : β → Int} {entries : Entries κ α}
    {others : Entries κ β}
    (same : ∀ key, entries.weight weigh key = others.weight weigh' key) :
    entries.total weigh = others.total weigh' := by
  obtain ⟨list, distinct⟩ := entries
  induction list generalizing others with
  | nil =>
    -- nothing weighs anything
    obtain ⟨list, distinct'⟩ := others
    refine (List.sum_eq_zero fun weighed inside => ?_).symm
    obtain ⟨⟨key, value⟩, listed, rfl⟩ := List.mem_map.mp inside
    have held : (⟨list, distinct'⟩ : Entries κ β).get key = some value := mem_list.mp listed
    have weighs := same key
    rw [weight, weight, held] at weighs
    exact weighs.symm
  | cons entry rest inductionHypothesis =>
    obtain ⟨own, held⟩ := entry
    have parts := distinct
    rw [List.map_cons, List.nodup_cons] at parts
    have later :
        (⟨rest, parts.2⟩ : Entries κ α).total weigh = (others.delete own).total weigh' := by
      refine inductionHypothesis parts.2 fun key => ?_
      have here := same key
      rw [weight, get, find] at here
      rw [weight, weight, get_delete, get]
      by_cases first : own = key
      · subst first
        rw [if_pos rfl, find_none.mpr parts.1]
        rfl
      · rw [if_neg first] at here
        rw [if_neg first, here, weight]
    have here := same own
    rw [weight, get, find, if_pos rfl, Option.elim_some] at here
    rw [total_delete] at later
    show weigh held + (⟨rest, parts.2⟩ : Entries κ α).total weigh = others.total weigh'
    omega

omit [DecidableEq κ] in
theorem size_eq_total (entries : Entries κ α) :
    (entries.size : Int) = entries.total fun _ => 1 := by
  simp [size, total]

end Entries

end AiConfig.Lib
