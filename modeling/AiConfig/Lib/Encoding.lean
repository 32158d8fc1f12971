import Mathlib.Tactic.Common

/-! # Encodings that keep a mark

An encoding writes each element as some letters.  It leads with a mark when the elements of the mark
are written as one letter of it and no other element starts with such a letter, and keeps the mark
when no other element has such a letter at all: a text can then be cut at the marks before it is
written or after.

* `Leads.takeWhile`, `Leads.twice` — the marks at the start.
* `Keeps.takeWhile`, `Keeps.splitOnP` — what comes before a mark, and the parts between the marks.
  -/

namespace AiConfig.Lib

section

variable {α β : Type}

structure Leads (encode : α → List β) (mark : α → Bool) (letter : β → Bool) : Prop where
  marked : ∀ a, mark a = true → ∃ b, encode a = [b] ∧ letter b = true
  other : ∀ a, mark a = false → ∃ b rest, encode a = b :: rest ∧ letter b = false

structure Keeps (encode : α → List β) (mark : α → Bool) (letter : β → Bool) :
    Prop extends Leads encode mark letter where
  plain : ∀ a, mark a = false → ∀ b ∈ encode a, letter b = false

/-- What comes after two marks. -/
def twice (mark : α → Bool) : List α → Option (List α)
  | a :: b :: rest => if mark a && mark b then some rest else none
  | _ => none

variable {encode : α → List β} {mark : α → Bool} {letter : β → Bool}

namespace Leads

theorem takeWhile (leads : Leads encode mark letter) (list : List α) :
    (list.flatMap encode).takeWhile letter = (list.takeWhile mark).flatMap encode := by
  induction list with
  | nil => rfl
  | cons a rest inductionHypothesis =>
    cases own : mark a with
    | true =>
      obtain ⟨b, written, here⟩ := leads.marked a own
      simp [written, here, own, inductionHypothesis]
    | false =>
      obtain ⟨b, more, written, apart⟩ := leads.other a own
      simp [written, apart, own]

theorem dropWhile (leads : Leads encode mark letter) (list : List α) :
    (list.flatMap encode).dropWhile letter = (list.dropWhile mark).flatMap encode := by
  induction list with
  | nil => rfl
  | cons a rest inductionHypothesis =>
    cases own : mark a with
    | true =>
      obtain ⟨b, written, here⟩ := leads.marked a own
      simp [written, here, own, inductionHypothesis]
    | false =>
      obtain ⟨b, more, written, apart⟩ := leads.other a own
      simp [written, apart, own]

theorem length_takeWhile (leads : Leads encode mark letter) (list : List α) :
    ((list.flatMap encode).takeWhile letter).length = (list.takeWhile mark).length := by
  induction list with
  | nil => rfl
  | cons a rest inductionHypothesis =>
    cases own : mark a with
    | true =>
      obtain ⟨b, written, here⟩ := leads.marked a own
      simp [written, here, own, inductionHypothesis]
    | false =>
      obtain ⟨b, more, written, apart⟩ := leads.other a own
      simp [written, apart, own]

/-- Marks are written letter by letter. -/
theorem take_flatMap (leads : Leads encode mark letter) {list : List α}
    (marks : ∀ a ∈ list, mark a = true) (n : Nat) :
    (list.flatMap encode).take n = (list.take n).flatMap encode ∧
    (list.flatMap encode).drop n = (list.drop n).flatMap encode := by
  induction list generalizing n with
  | nil => simp
  | cons a rest inductionHypothesis =>
    obtain ⟨b, written, -⟩ := leads.marked a (marks a List.mem_cons_self)
    cases n with
    | zero => simp
    | succ n =>
      have later := inductionHypothesis (fun other on => marks other (List.mem_cons_of_mem _ on)) n
      simp [written, later]

theorem eq_nil (leads : Leads encode mark letter) {list : List α} :
    list.flatMap encode = [] ↔ list = [] := by
  cases list with
  | nil => simp
  | cons a rest =>
    cases own : mark a with
    | true =>
      obtain ⟨b, written, -⟩ := leads.marked a own
      simp [written]
    | false =>
      obtain ⟨b, more, written, -⟩ := leads.other a own
      simp [written]

theorem twice (leads : Leads encode mark letter) (list : List α) :
    Lib.twice letter (list.flatMap encode) = (Lib.twice mark list).map (List.flatMap encode) := by
  cases list with
  | nil => rfl
  | cons a rest =>
    cases own : mark a with
    | false =>
      obtain ⟨b, more, written, apart⟩ := leads.other a own
      have none : Lib.twice letter ((a :: rest).flatMap encode) = none := by
        rw [List.flatMap_cons, written, List.cons_append]
        cases more ++ rest.flatMap encode <;> simp [Lib.twice, apart]
      rw [none]
      cases rest <;> simp [Lib.twice, own]
    | true =>
      obtain ⟨b, written, here⟩ := leads.marked a own
      cases rest with
      | nil => simp [Lib.twice, written]
      | cons a' rest =>
        cases own' : mark a' with
        | true =>
          obtain ⟨b', written', here'⟩ := leads.marked a' own'
          simp [Lib.twice, written, written', here, here', own, own']
        | false =>
          obtain ⟨b', more, written', apart⟩ := leads.other a' own'
          simp [Lib.twice, written, written', here, apart, own, own']

end Leads

namespace Keeps

theorem takeWhile (keeps : Keeps encode mark letter) (list : List α) :
    (list.flatMap encode).takeWhile (fun b => !letter b) =
    (list.takeWhile fun a => !mark a).flatMap encode := by
  induction list with
  | nil => rfl
  | cons a rest inductionHypothesis =>
    cases own : mark a with
    | true =>
      obtain ⟨b, written, here⟩ := keeps.marked a own
      simp [written, here, own]
    | false =>
      rw [List.flatMap_cons, List.takeWhile_append_of_pos (by simpa using keeps.plain a own),
        inductionHypothesis]
      simp [own]

theorem dropWhile (keeps : Keeps encode mark letter) (list : List α) :
    (list.flatMap encode).dropWhile (fun b => !letter b) =
    (list.dropWhile fun a => !mark a).flatMap encode := by
  induction list with
  | nil => rfl
  | cons a rest inductionHypothesis =>
    cases own : mark a with
    | true =>
      obtain ⟨b, written, here⟩ := keeps.marked a own
      simp [written, here, own]
    | false =>
      rw [List.flatMap_cons, List.dropWhile_append_of_pos (by simpa using keeps.plain a own),
        inductionHypothesis]
      simp [own]

theorem splitOnP_append {letters : List β} (apart : ∀ b ∈ letters, letter b = false)
    (rest : List β) :
    (letters ++ rest).splitOnP letter = (rest.splitOnP letter).modifyHead (letters ++ ·) := by
  induction letters with
  | nil =>
    rw [List.nil_append]
    cases rest.splitOnP letter <;> rfl
  | cons b more inductionHypothesis =>
    have own : letter b = false := apart b List.mem_cons_self
    rw [List.cons_append, List.splitOnP_cons_eq_if_modifyHead, own,
      inductionHypothesis fun c on => apart c (List.mem_cons_of_mem _ on)]
    cases rest.splitOnP letter <;> rfl

theorem splitOnP (keeps : Keeps encode mark letter) (list : List α) :
    (list.flatMap encode).splitOnP letter = (list.splitOnP mark).map (List.flatMap encode) := by
  induction list with
  | nil => rfl
  | cons a rest inductionHypothesis =>
    rw [List.flatMap_cons, List.splitOnP_cons_eq_if_modifyHead]
    cases own : mark a with
    | true =>
      obtain ⟨b, written, here⟩ := keeps.marked a own
      rw [written, List.singleton_append, List.splitOnP_cons_eq_if_modifyHead, here, inductionHypothesis]
      rfl
    | false =>
      rw [splitOnP_append (keeps.plain a own), inductionHypothesis]
      cases rest.splitOnP mark with
      | nil => rfl
      | cons first more => simp [List.modifyHead]

end Keeps

/-- The parts of a list have elements of the list only. -/
theorem mem_of_mem_splitOnP {list part : List α} (on : part ∈ list.splitOnP mark) {a : α} (inside : a ∈ part) : a ∈ list := by
  induction list generalizing part with
  | nil =>
    rw [List.splitOnP_nil, List.mem_singleton] at on
    rw [on] at inside
    cases inside
  | cons b rest inductionHypothesis =>
    obtain ⟨first, more, split_⟩ := List.exists_cons_of_ne_nil (List.splitOnP_ne_nil mark rest)
    rw [List.splitOnP_cons_eq_if_modifyHead, split_] at on
    rw [split_] at inductionHypothesis
    split at on
    · cases on with
      | head => cases inside
      | tail _ on => exact List.mem_cons_of_mem _ (inductionHypothesis on inside)
    · cases on with
      | head =>
        cases inside with
        | head => exact List.mem_cons_self
        | tail _ inside => exact List.mem_cons_of_mem _ (inductionHypothesis List.mem_cons_self inside)
      | tail _ on => exact List.mem_cons_of_mem _ (inductionHypothesis (List.mem_cons_of_mem _ on) inside)

end

end AiConfig.Lib
