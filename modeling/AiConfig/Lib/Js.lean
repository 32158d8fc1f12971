import Mathlib.Data.Rat.Defs
import Mathlib.Tactic.Common

/-! # JavaScript values of a JSON text

What `JSON.parse` gives and what `JSON.stringify` leaves of it.  An object is the list of its
fields in order, so that two values have one text exactly when they are written as one value.

* `Js` — a value; a number too large for a double is infinite.
* `fieldOf`, `withField`, `withoutField` — a field read, written by a spread, and removed.
* `Js.written` — the value that is read back from the text. -/

namespace AiConfig.Lib

inductive JsNumber where
  | finite (value : ℚ)
  | infinite (negative : Bool)
  deriving DecidableEq

inductive Js where
  | null
  | bool (value : Bool)
  | number (value : JsNumber)
  | string (value : String)
  | array (items : List Js)
  | object (fields : List (String × Js))

abbrev Fields := List (String × Js)

/-! ## Equality -/

mutual

def Js.same : Js → Js → Bool
  | .null, .null => true
  | .bool a, .bool b => a = b
  | .number a, .number b => a = b
  | .string a, .string b => a = b
  | .array items, .array items' => sameItems items items'
  | .object fields, .object fields' => sameFields fields fields'
  | _, _ => false

def sameItems : List Js → List Js → Bool
  | [], [] => true
  | a :: items, b :: items' => a.same b && sameItems items items'
  | _, _ => false

def sameFields : List (String × Js) → List (String × Js) → Bool
  | [], [] => true
  | (name, a) :: fields, (name', b) :: fields' => name = name' && a.same b &&
      sameFields fields fields'
  | _, _ => false

end

mutual

theorem Js.same_iff : ∀ a b : Js, a.same b = true ↔ a = b
  | .null, b => by cases b <;> simp [Js.same]
  | .bool _, b => by cases b <;> simp [Js.same]
  | .number _, b => by cases b <;> simp [Js.same]
  | .string _, b => by cases b <;> simp [Js.same]
  | .array items, b => by
    cases b with
    | array items' => simp [Js.same, sameItems_iff items items']
    | _ => simp [Js.same]
  | .object fields, b => by
    cases b with
    | object fields' => simp [Js.same, sameFields_iff fields fields']
    | _ => simp [Js.same]

theorem sameItems_iff : ∀ items items' : List Js, sameItems items items' = true ↔ items = items'
  | [], items' => by cases items' <;> simp [sameItems]
  | a :: items, [] => by simp [sameItems]
  | a :: items, b :: items' => by simp [sameItems, Js.same_iff a b, sameItems_iff items items']

theorem sameFields_iff : ∀ fields fields' : List (String × Js), sameFields fields fields' = true ↔
    fields = fields'
  | [], fields' => by cases fields' <;> simp [sameFields]
  | (_, _) :: fields, [] => by simp [sameFields]
  | (name, a) :: fields, (name', b) :: fields' => by
    simp [sameFields, Js.same_iff a b, sameFields_iff fields fields']

end

instance : DecidableEq Js := fun a b => decidable_of_iff (a.same b = true) (Js.same_iff a b)

/-! ## Fields -/

/-- A field of an object, none when it is undefined. -/
def fieldOf (fields : Fields) (name : String) : Option Js := fields.lookup name

/-- A field written over a spread: in its place, or at the end. -/
def withField : Fields → String → Js → Fields
  | [], name, value => [(name, value)]
  | (other, held) :: fields, name, value =>
    if other = name then (name, value) :: fields else (other, held) :: withField fields name value

def withoutField (fields : Fields) (name : String) : Fields :=
  fields.filter fun field => field.1 ≠ name

/-- A field that is undefined has no text. -/
def withOption (fields : Fields) (name : String) : Option Js → Fields
  | some value => withField fields name value
  | none => withoutField fields name

section

variable (fields : Fields) {name other : String} (value : Js)

@[simp]
theorem fieldOf_nil (name : String) : fieldOf [] name = none := rfl

theorem fieldOf_cons (field : String × Js) (name : String) :
    fieldOf (field :: fields) name =
      if name = field.1 then some field.2 else fieldOf fields name := by
  obtain ⟨own, held⟩ := field
  simp only [fieldOf, List.lookup_cons]
  by_cases same : name = own
  · simp [same]
  · simp [same, beq_false_of_ne same]

theorem fieldOf_withField_self (name : String) :
    fieldOf (withField fields name value) name = some value := by
  induction fields with
  | nil => simp [withField, fieldOf_cons]
  | cons field fields inductionHypothesis =>
    rw [withField]
    split
    · simp [fieldOf_cons]
    · next apart => rw [fieldOf_cons, if_neg (Ne.symm apart), inductionHypothesis]

theorem fieldOf_withField_other (apart : other ≠ name) :
    fieldOf (withField fields name value) other = fieldOf fields other := by
  induction fields with
  | nil => simp [withField, fieldOf_cons, apart]
  | cons field fields inductionHypothesis =>
    rw [withField]
    split
    · next own => rw [fieldOf_cons, fieldOf_cons, if_neg apart, if_neg (own.symm ▸ apart)]
    · rw [fieldOf_cons, fieldOf_cons, inductionHypothesis]

/-- A field written as it is changes nothing. -/
theorem withField_same {fields : Fields} {value : Js} (held : fieldOf fields name = some value) :
    withField fields name value = fields := by
  induction fields with
  | nil => cases held
  | cons field fields inductionHypothesis =>
    rw [fieldOf_cons] at held
    rw [withField]
    split
    · next own =>
      rw [if_pos own.symm, Option.some.injEq] at held
      rw [← own, ← held]
    · next apart => rw [inductionHypothesis (by rwa [if_neg (Ne.symm apart)] at held)]

/-- A new field of the fields in front goes to those behind. -/
theorem withField_append {front : Fields} (absent : fieldOf front name = none) (back : Fields) :
    withField (front ++ back) name value = front ++ withField back name value := by
  induction front with
  | nil => rfl
  | cons field front inductionHypothesis =>
    rw [fieldOf_cons] at absent
    split at absent
    · cases absent
    · next apart =>
      rw [List.cons_append, withField, if_neg (Ne.symm apart), inductionHypothesis absent]
      rfl

theorem fieldOf_append (front back : Fields) (name : String) :
    fieldOf (front ++ back) name = (fieldOf front name <|> fieldOf back name) := by
  induction front with
  | nil => rfl
  | cons field front inductionHypothesis =>
    rw [List.cons_append, fieldOf_cons, fieldOf_cons]
    split
    · rfl
    · exact inductionHypothesis

theorem fieldOf_withoutField_self (name : String) : fieldOf (withoutField fields name) name = none := by
  induction fields with
  | nil => rfl
  | cons field fields inductionHypothesis =>
    rw [withoutField, List.filter_cons]
    split
    · next apart => rw [fieldOf_cons, if_neg (by simpa using Ne.symm (of_decide_eq_true apart))]; exact inductionHypothesis
    · exact inductionHypothesis

theorem fieldOf_withoutField_other (apart : other ≠ name) : fieldOf (withoutField fields name) other = fieldOf fields other := by
  induction fields with
  | nil => rfl
  | cons field fields inductionHypothesis =>
    rw [withoutField, List.filter_cons]
    split
    · rw [fieldOf_cons, fieldOf_cons]
      split
      · rfl
      · exact inductionHypothesis
    · next own =>
      have same : field.1 = name := by simpa using own
      rw [fieldOf_cons, if_neg (by rw [same]; exact apart)]
      exact inductionHypothesis

theorem withoutField_absent {fields : Fields} (absent : fieldOf fields name = none) :
    withoutField fields name = fields := by
  induction fields with
  | nil => rfl
  | cons field fields inductionHypothesis =>
    rw [fieldOf_cons] at absent
    split at absent
    · cases absent
    · next apart =>
      rw [withoutField, List.filter_cons, if_pos (by simpa using Ne.symm apart)]
      exact congrArg _ (inductionHypothesis absent)

end

theorem sizeOf_fieldOf {fields : Fields} {name : String} {value : Js}
    (held : fieldOf fields name = some value) :
    sizeOf value < sizeOf fields := by
  induction fields with
  | nil => cases held
  | cons field fields inductionHypothesis =>
    obtain ⟨own, first⟩ := field
    rw [fieldOf_cons] at held
    split at held
    · obtain rfl := Option.some.inj held
      simp only [List.cons.sizeOf_spec, Prod.mk.sizeOf_spec]
      omega
    · have smaller := inductionHypothesis held
      simp only [List.cons.sizeOf_spec]
      omega

/-! ## The text -/

mutual

/-- A number that is not finite is written as null. -/
def Js.written : Js → Js
  | .number (.infinite _) => .null
  | .array items => .array (writtenItems items)
  | .object fields => .object (writtenFields fields)
  | value => value

def writtenItems : List Js → List Js
  | [] => []
  | value :: items => value.written :: writtenItems items

def writtenFields : Fields → Fields
  | [] => []
  | (name, value) :: fields => (name, value.written) :: writtenFields fields

end

theorem writtenItems_map (items : List Js) : writtenItems items = items.map Js.written := by
  induction items with
  | nil => rfl
  | cons value items inductionHypothesis => rw [writtenItems, inductionHypothesis, List.map_cons]

theorem writtenFields_map (fields : Fields) :
    writtenFields fields = fields.map fun field => (field.1, field.2.written) := by
  induction fields with
  | nil => rfl
  | cons field fields inductionHypothesis => rw [writtenFields, inductionHypothesis, List.map_cons]

mutual

/-- A text read back is written the same. -/
theorem Js.written_written : ∀ value : Js, value.written.written = value.written
  | .null => rfl
  | .bool _ => rfl
  | .number (.finite _) => rfl
  | .number (.infinite _) => rfl
  | .string _ => rfl
  | .array items => by rw [Js.written, Js.written, writtenItems_twice items]
  | .object fields => by rw [Js.written, Js.written, writtenFields_twice fields]

theorem writtenItems_twice : ∀ items :
    List Js, writtenItems (writtenItems items) = writtenItems items
  | [] => rfl
  | value :: items => by rw [writtenItems, writtenItems, Js.written_written value,
      writtenItems_twice items]

theorem writtenFields_twice : ∀ fields :
    Fields, writtenFields (writtenFields fields) = writtenFields fields
  | [] => rfl
  | (name, value) :: fields => by rw [writtenFields, writtenFields, Js.written_written value,
      writtenFields_twice fields]

end

theorem fieldOf_writtenFields (fields : Fields) (name : String) :
    fieldOf (writtenFields fields) name = (fieldOf fields name).map Js.written := by
  induction fields with
  | nil => rfl
  | cons field fields inductionHypothesis =>
    rw [writtenFields, fieldOf_cons, fieldOf_cons]
    split
    · rfl
    · exact inductionHypothesis

theorem writtenFields_withField (fields : Fields) (name : String) (value : Js) :
    writtenFields (withField fields name value) =
      withField (writtenFields fields) name value.written := by
  induction fields with
  | nil => rfl
  | cons field fields inductionHypothesis =>
    rw [writtenFields, withField, withField]
    split
    · rfl
    · rw [writtenFields, inductionHypothesis]

theorem writtenFields_append (front back : Fields) :
    writtenFields (front ++ back) = writtenFields front ++ writtenFields back := by
  rw [writtenFields_map, List.map_append, ← writtenFields_map, ← writtenFields_map]

end AiConfig.Lib
