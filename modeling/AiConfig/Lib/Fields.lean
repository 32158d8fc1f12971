import Mathlib.Data.List.Basic

/-! # Fields of a text

A text of fields that each end in a mark, one that is cut at its first marks, and one that is cut at
its blanks.

* `splitOn_terminated` — the fields of a text whose every field ends in the mark.
* `splitN_terminated` — the first fields, and a last one that may hold the mark.
* `fields_intercalate` — words between blanks. -/

namespace AiConfig.Lib

section

variable {α : Type}

/-- Each part, and the mark that ends it. -/
def terminated (mark : α) (parts : List (List α)) : List α := parts.flatMap (· ++ [mark])

/-- The text cut at the first marks into at most so many fields. -/
def splitN [DecidableEq α] (mark : α) : Nat → List α → List (List α)
  | 0, _ => []
  | 1, text => [text]
  | n + 2, text =>
    match text.dropWhile (· ≠ mark) with
    | [] => [text]
    | _ :: rest => text.takeWhile (· ≠ mark) :: splitN mark (n + 1) rest

/-- What is between runs of blanks; a blank at the start of a text is as long as `width` says, and 0
is no blank. -/
def fieldsFrom (width : List α → Nat) : Nat → List α → List α → List (List α)
  | _, current, [] => if current.isEmpty then [] else [current]
  | skip + 1, current, _ :: rest => fieldsFrom width skip current rest
  | 0, current, a :: rest =>
    match width (a :: rest) with
    | 0 => fieldsFrom width 0 (current ++ [a]) rest
    | more + 1 =>
      if current.isEmpty then fieldsFrom width more [] rest
      else current :: fieldsFrom width more [] rest

def fields (width : List α → Nat) (text : List α) : List (List α) := fieldsFrom width 0 [] text

@[simp] theorem terminated_cons (mark : α) (part : List α) (parts : List (List α)) :
    terminated mark (part :: parts) = part ++ mark :: terminated mark parts := by simp [terminated]

@[simp] theorem terminated_nil (mark : α) : terminated mark [] = [] := rfl

theorem splitOn_terminated [BEq α] [LawfulBEq α] {mark : α} {parts : List (List α)}
    (clean : ∀ part ∈ parts, mark ∉ part) :
    (terminated mark parts).splitOn mark = parts ++ [[]] := by
  induction parts with
  | nil => rfl
  | cons part parts inductionHypothesis =>
    rw [terminated_cons, List.splitOn_append_cons_self_of_not_mem (clean part List.mem_cons_self),
      inductionHypothesis fun other inside => clean other (List.mem_cons_of_mem _ inside)]
    rfl

theorem splitN_terminated [DecidableEq α] {mark : α} {parts : List (List α)}
    (clean : ∀ part ∈ parts, mark ∉ part)
    (rest : List α) :
    splitN mark (parts.length + 1) (terminated mark parts ++ rest) = parts ++ [rest] := by
  induction parts with
  | nil => rfl
  | cons part parts inductionHypothesis =>
    have apart : ∀ a ∈ part, decide (a ≠ mark) = true := fun a inside =>
      decide_eq_true fun same => clean part List.mem_cons_self (same ▸ inside)
    rw [terminated_cons, List.append_assoc, List.cons_append, List.length_cons, splitN,
      List.dropWhile_append_of_pos apart, List.takeWhile_append_of_pos apart,
        List.dropWhile_cons_of_neg (by simp),
      List.takeWhile_cons_of_neg (by simp)]
    show (part ++ []) :: splitN mark (parts.length + 1) (terminated mark parts ++ rest) = _
    rw [inductionHypothesis fun other inside => clean other (List.mem_cons_of_mem _ inside),
      List.append_nil,
      List.cons_append]

variable {width : List α → Nat}

theorem fieldsFrom_word {word : List α} (plain : ∀ a ∈ word, ∀ rest, width (a :: rest) = 0)
    (current rest : List α) :
    fieldsFrom width 0 current (word ++ rest) = fieldsFrom width 0 (current ++ word) rest := by
  induction word generalizing current with
  | nil => rw [List.nil_append, List.append_nil]
  | cons a word inductionHypothesis =>
    rw [List.cons_append, fieldsFrom]
    simp only [plain a List.mem_cons_self]
    rw [inductionHypothesis (fun other inside => plain other (List.mem_cons_of_mem _ inside)),
      List.append_assoc]
    rfl

theorem fields_intercalate {blank : α} (apart : ∀ rest, width (blank :: rest) = 1)
    {words : List (List α)}
    (plain : ∀ word ∈ words, word ≠ [] ∧ ∀ a ∈ word, ∀ rest, width (a :: rest) = 0) :
    fields width ([blank].intercalate words) = words := by
  induction words with
  | nil => rfl
  | cons word words inductionHypothesis =>
    obtain ⟨some_, own⟩ := plain word List.mem_cons_self
    have later :=
      inductionHypothesis fun other inside => plain other (List.mem_cons_of_mem _ inside)
    cases words with
    | nil =>
      have whole := fieldsFrom_word own [] []
      rw [List.append_nil, List.nil_append] at whole
      rw [List.intercalate_singleton, fields, whole]
      simp [fieldsFrom, some_]
    | cons next words =>
      rw [List.intercalate_cons_cons, fields, List.append_assoc, fieldsFrom_word own,
        List.nil_append,
        List.singleton_append, fieldsFrom]
      simp only [apart, List.isEmpty_iff, some_, if_false]
      rw [← fields, later]

end

end AiConfig.Lib
