import Mathlib.Data.List.Basic
import Mathlib.Tactic.Common

/-! # Cutting a list by a count

A list is cut where the elements that count have reached a number; the elements that do not
count stay with what comes before them.

* `upTo_add` — a cut of a cut is a cut.
* `upTo_all` — a cut at the number of all that counts is at the end. -/

namespace AiConfig.Lib

section

variable {α : Type} (counts : α → Bool)

/-- What comes before the element that counts after `n` others. -/
def upTo : Nat → List α → List α
  | _, [] => []
  | n, a :: rest =>
    if counts a then
      match n with
      | 0 => []
      | n + 1 => a :: upTo n rest
    else a :: upTo n rest

def beyond : Nat → List α → List α
  | _, [] => []
  | n, a :: rest =>
    if counts a then
      match n with
      | 0 => a :: rest
      | n + 1 => beyond n rest
    else beyond n rest

variable {counts}

theorem upTo_add (m n : Nat) (list : List α) :
    upTo counts m list ++ upTo counts n (beyond counts m list) = upTo counts (m + n) list := by
  induction list generalizing m with
  | nil => rfl
  | cons a rest inductionHypothesis =>
    by_cases own : counts a = true
    · cases m with
      | zero => simp [upTo, beyond, own]
      | succ m =>
        rw [show m + 1 + n = m + n + 1 by omega]
        simp only [upTo, beyond, own, if_true, List.cons_append, inductionHypothesis]
    · simp only [upTo, beyond, own, Bool.false_eq_true, if_false, List.cons_append,
        inductionHypothesis]

theorem countP_upTo (n : Nat) (list : List α) : (upTo counts n list).countP counts = min n
    (list.countP counts) := by
  induction list generalizing n with
  | nil => simp [upTo]
  | cons a rest inductionHypothesis =>
    by_cases own : counts a = true
    · cases n with
      | zero => simp [upTo, own]
      | succ n =>
        simp only [upTo, own, if_true]
        rw [List.countP_cons_of_pos own, List.countP_cons_of_pos own, inductionHypothesis]
        omega
    · simp only [upTo, own, Bool.false_eq_true, if_false]
      rw [List.countP_cons_of_neg own, List.countP_cons_of_neg own, inductionHypothesis]

theorem upTo_all {n : Nat} {list : List α} (all : list.countP counts ≤ n) :
    upTo counts n list = list := by
  induction list generalizing n with
  | nil => rfl
  | cons a rest inductionHypothesis =>
    by_cases own : counts a = true
    · rw [List.countP_cons_of_pos own] at all
      cases n with
      | zero => omega
      | succ n => simp [upTo, own, inductionHypothesis (Nat.le_of_succ_le_succ all)]
    · rw [List.countP_cons_of_neg own] at all
      simp [upTo, own, inductionHypothesis all]

end

end AiConfig.Lib
