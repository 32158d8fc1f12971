import Mathlib.Data.Set.Finite.Basic
import Mathlib.Logic.Function.Basic
import Mathlib.Tactic.Common

/-! # Values of a YAML document

What a YAML document holds when it is decoded without types, and how such a value goes into typed
data.

* `Yaml` — a value; a mapping has no order, it is a function of its keys.
* `Yaml.Plain` — texts, nulls, sequences and mappings, and nothing that its text resolves to.
* `textOf`, `structOf`, `pointerOf`, `sliceOf` — a plain value as a string, a struct, a pointer, a
  slice. -/

namespace AiConfig.Lib

inductive Yaml where
  | null
  | text (value : String)
  /-- A boolean, a number, a time or any other value, as it is written. -/
  | other (source : String)
  | sequence (items : List Yaml)
  | mapping (fields : String → Option Yaml)

abbrev YamlMap := String → Option Yaml

/-! ## Mappings -/

/-- The value of a key, written. -/
def YamlMap.put (fields : YamlMap) (name : String) (value : Yaml) : YamlMap :=
  Function.update fields name (some value)

theorem YamlMap.put_self (fields : YamlMap) (name : String) (value : Yaml) :
    fields.put name value name = some value :=
  Function.update_self ..

theorem YamlMap.put_other (fields : YamlMap) {name other : String} (value : Yaml)
    (apart : other ≠ name) :
    fields.put name value other = fields other :=
  Function.update_of_ne apart ..

/-- The mapping of a list of keys with their values; of one key the first. -/
def entries : List (String × Yaml) → YamlMap
  | [], _ => none
  | (name, value) :: rest, key => if key = name then some value else entries rest key

theorem entries_nil (key : String) : entries [] key = none := rfl

theorem entries_cons (name : String) (value : Yaml) (rest : List (String × Yaml)) (key : String) :
    entries ((name, value) :: rest) key = if key = name then some value else entries rest key := rfl

theorem entries_append (front back : List (String × Yaml)) (key : String) :
    entries (front ++ back) key = (entries front key).or (entries back key) := by
  induction front with
  | nil => rfl
  | cons entry front inductionHypothesis =>
    obtain ⟨name, value⟩ := entry
    rw [List.cons_append, entries_cons, entries_cons, inductionHypothesis]
    split <;> rfl

/-- A key of a list has one of the list's values. -/
theorem mem_of_entries {list : List (String × Yaml)} {key : String} {value : Yaml}
    (found : entries list key = some value) :
    (key, value) ∈ list := by
  induction list with
  | nil => cases found
  | cons entry list inductionHypothesis =>
    obtain ⟨name, first⟩ := entry
    rw [entries_cons] at found
    split at found
    · next same =>
      obtain rfl := Option.some.inj found
      rw [same]
      exact List.mem_cons_self
    · exact List.mem_cons_of_mem _ (inductionHypothesis found)

/-! ## Plain values -/

/-- A null in a sequence is not plain: it may be dropped where the items have a type. -/
inductive Yaml.Plain : Yaml → Prop where
  | null : Plain .null
  | text (value : String) : Plain (.text value)
  | sequence {items : List Yaml} (given : .null ∉ items) (inside : ∀ item ∈ items, Plain item) :
      Plain (.sequence items)
  | mapping {fields : YamlMap} (finite : {key | fields key ≠ none}.Finite)
      (inside : ∀ key value, fields key = some value → Plain value) : Plain (.mapping fields)

attribute [simp] Yaml.Plain.null Yaml.Plain.text

def YamlMap.Plain (fields : YamlMap) : Prop := (Yaml.mapping fields).Plain

theorem YamlMap.Plain.value {fields : YamlMap} (plain : fields.Plain) {key : String} {value : Yaml}
    (found : fields key = some value) : value.Plain := by
  cases plain with
  | mapping _ inside => exact inside key value found

theorem YamlMap.Plain.put {fields : YamlMap} (plain : fields.Plain) (name : String) {value : Yaml}
    (own : value.Plain) :
    (fields.put name value).Plain := by
  have inside : ∀ key held, fields.put name value key = some held → held.Plain := by
    intro key held found
    by_cases same : key = name
    · rw [same, put_self] at found
      rwa [← Option.some.inj found]
    · rw [put_other _ _ same] at found
      exact plain.value found
  cases plain with
  | mapping finite _ =>
    refine .mapping ((finite.insert name).subset fun key some_ => ?_) inside
    by_cases same : key = name
    · exact Set.mem_insert_iff.mpr (Or.inl same)
    · have there : fields.put name value key ≠ none := some_
      rw [put_other _ _ same] at there
      exact Set.mem_insert_of_mem _ there

theorem plain_entries {list : List (String × Yaml)} (own : ∀ entry ∈ list, entry.2.Plain) :
    (entries list).Plain := by
  refine .mapping ((list.map Prod.fst).toFinset.finite_toSet.subset fun key some_ =>
      ?_) fun key value found =>
    own _ (mem_of_entries found)
  obtain ⟨value, found⟩ := Option.ne_none_iff_exists'.mp some_
  exact List.mem_toFinset.mpr (List.mem_map.mpr ⟨_, mem_of_entries found, rfl⟩)

theorem Yaml.Plain.items {items : List Yaml} (plain : (Yaml.sequence items).Plain) :
    .null ∉ items ∧ ∀ item ∈ items, item.Plain := by
  cases plain with
  | sequence given inside => exact ⟨given, inside⟩

theorem Yaml.Plain.append {items : List Yaml} {item : Yaml} (plain : (Yaml.sequence items).Plain)
    (own : item.Plain)
    (given : item ≠ .null) : (Yaml.sequence (items ++ [item])).Plain := by
  obtain ⟨given_, inside⟩ := plain.items
  constructor
  · simp [given_, given.symm]
  · simpa [or_imp, forall_and] using ⟨inside, own⟩

/-- A sequence of written items. -/
theorem plain_map {α : Type} {write : α → Yaml} (own : ∀ item, (write item).Plain)
    (given : ∀ item, write item ≠ .null)
    (items : List α) : (Yaml.sequence (items.map write)).Plain := by
  constructor
  · rintro inside
    obtain ⟨item, -, same⟩ := List.mem_map.mp inside
    exact given item same
  · intro value inside
    obtain ⟨item, -, rfl⟩ := List.mem_map.mp inside
    exact own item

/-! ## Plain values in typed data -/

section

variable {α : Type}

/-- A text in a string; null leaves it empty. -/
def textOf : Option Yaml → Option String
  | none | some .null => some ""
  | some (.text value) => some value
  | _ => none

/-- A mapping in a struct; null leaves its fields as they are without a value. -/
def structOf : Option Yaml → Option YamlMap
  | none | some .null => some fun _ => none
  | some (.mapping fields) => some fields
  | _ => none

def pointerOf (read : Option Yaml → Option α) : Option Yaml → Option (Option α)
  | none | some .null => some none
  | value => (read value).map some

/-- A sequence in a slice; null leaves it nil. -/
def sliceOf (read : Option Yaml → Option α) : Option Yaml → Option (Option (List α))
  | none | some .null => some none
  | some (.sequence items) => (items.mapM fun item => read (some item)).map some
  | _ => none

end

end AiConfig.Lib
