import Mathlib.Data.List.Basic

/-! # Successive matches

The matches of an expression in a text, leftmost first and none inside another, where what
matches at an index is read off the rest of the text.

* `findAll` — the matches and where they start.
* `InOrder` — each is there, and starts no earlier than the one before it ends.
* `findAll_covers` — no match is passed over, but for those that one found reaches into.
* `findAll_match` — the first match, and those after it. -/

namespace AiConfig.Lib

section

variable {α β : Type} (matchAt : List α → Option β) (size : β → Nat)

/-- From index `i` on, the next `skip` items belonging to a match. -/
def findAll : Nat → Nat → List α → List (Nat × β)
  | _, _, [] => []
  | i, skip + 1, _ :: rest => findAll (i + 1) skip rest
  | i, 0, item :: rest =>
    match matchAt (item :: rest) with
    | some found => (i, found) :: findAll (i + 1) (size found - 1) rest
    | none => findAll (i + 1) 0 rest

/-- Matches that are where they are said to be, one after the other. -/
inductive InOrder (text : List α) : Nat → List (Nat × β) → Prop where
  | nil (bound : Nat) : InOrder text bound []
  | cons {bound i : Nat} {found : β} {rest : List (Nat × β)} (above : bound ≤ i)
      (there : matchAt (text.drop i) = some found)
      (later : InOrder text (i + size found) rest) : InOrder text bound ((i, found) :: rest)

end

section

variable {α β : Type} {matchAt : List α → Option β} {size : β → Nat} {text : List α}

theorem InOrder.mono {bound lower : Nat} {found : List (Nat × β)}
    (inOrder : InOrder matchAt size text bound found)
    (below : lower ≤ bound) : InOrder matchAt size text lower found := by
  cases inOrder with
  | nil => exact .nil lower
  | cons above there later => exact .cons (Nat.le_trans below above) there later

theorem findAll_inOrder (positive : ∀ rest found, matchAt rest = some found → 0 < size found)
    {i : Nat} (skip : Nat)
    {rest : List α} (here : text.drop i = rest) :
    InOrder matchAt size text (i + skip) (findAll matchAt size i skip rest) := by
  induction rest generalizing i skip with
  | nil => cases skip <;> exact .nil _
  | cons item rest inductionHypothesis =>
    have next : text.drop (i + 1) = rest := by
      rw [← List.drop_drop, here, List.drop_one, List.tail_cons]
    cases skip with
    | succ skip =>
      have inOrder := inductionHypothesis skip next
      rw [findAll]
      rwa [show i + 1 + skip = i + (skip + 1) by omega] at inOrder
    | zero =>
      rw [findAll]
      split
      · next found there =>
        have inOrder := inductionHypothesis (size found - 1) next
        have length := positive _ _ there
        rw [show i + 1 + (size found - 1) = i + size found by omega] at inOrder
        refine .cons (by omega) ?_ inOrder
        rw [here]
        exact there
      · exact (inductionHypothesis 0 next).mono (by omega)

/-- What matches at an index is found there, or reached into by a match found earlier. -/
theorem findAll_covers (positive : ∀ rest found, matchAt rest = some found → 0 < size found)
    {i : Nat} (skip : Nat)
    {rest : List α} (here : text.drop i = rest) {p : Nat} (after : i + skip ≤ p)
    (within : p < text.length)
    (matched : (matchAt (text.drop p)).isSome) :
    ∃ hit ∈ findAll matchAt size i skip rest, hit.1 ≤ p ∧ p < hit.1 + size hit.2 := by
  induction rest generalizing i skip with
  | nil =>
    have ended := List.drop_eq_nil_iff.mp here
    omega
  | cons item rest inductionHypothesis =>
    have next : text.drop (i + 1) = rest := by
      rw [← List.drop_drop, here, List.drop_one, List.tail_cons]
    cases skip with
    | succ skip =>
      rw [findAll]
      exact inductionHypothesis skip next (by omega)
    | zero =>
      rw [findAll]
      split
      · next found there =>
        have length := positive _ _ there
        by_cases inside : p < i + size found
        · exact ⟨(i, found), List.mem_cons_self, after, inside⟩
        · obtain ⟨hit, later, around⟩ := inductionHypothesis (size found - 1) next (by omega)
          exact ⟨hit, List.mem_cons_of_mem _ later, around⟩
      · next silent =>
        have apart : p ≠ i := by
          rintro rfl
          rw [here, silent] at matched
          simp at matched
        exact inductionHypothesis 0 next (by omega)

/-- The items of a match are skipped. -/
theorem findAll_skip (i : Nat) (inside rest : List α) :
    findAll matchAt size i inside.length (inside ++ rest) =
      findAll matchAt size (i + inside.length) 0 rest := by
  induction inside generalizing i with
  | nil => rfl
  | cons item inside inductionHypothesis =>
    rw [List.length_cons, List.cons_append, findAll, inductionHypothesis]
    rw [show i + 1 + inside.length = i + (inside.length + 1) by omega]

theorem findAll_match {i : Nat} {whole rest : List α} {found : β}
    (there : matchAt (whole ++ rest) = some found)
    (length : size found = whole.length) (positive : 0 < size found) :
    findAll matchAt size i 0 (whole ++ rest) =
      (i, found) :: findAll matchAt size (i + whole.length) 0 rest := by
  cases whole with
  | nil =>
    rw [length] at positive
    exact absurd positive (Nat.lt_irrefl 0)
  | cons item whole =>
    rw [List.cons_append] at there ⊢
    rw [findAll, there]
    dsimp only
    rw [length, List.length_cons, Nat.add_sub_cancel, findAll_skip]
    rw [show i + 1 + whole.length = i + (whole.length + 1) by omega]

end

end AiConfig.Lib
