import Mathlib.Data.List.Nodup
import Mathlib.Tactic.Common

/-! # Chains of parents

The way from an element up to a root, over a partial map from each element to its parent.

* `Chain.unique`, `Chain.nodup` — there is one way, and it meets no element twice.
* `Chain.first_has_no_child`, `Chain.child_unique`, `Chain.exists_child` — every element of a chain
  but
  the first is the parent of exactly one other. -/

namespace AiConfig.Lib

section

variable {κ : Type}

inductive Chain (parent : κ → Option κ) (root : κ) : κ → List κ → Prop
  | root : Chain parent root root []
  | link {id up : κ} {path : List κ} (apart : id ≠ root) (known : parent id = some up)
      (above : Chain parent root up path) :
      Chain parent root id (id :: path)

namespace Chain

variable {parent : κ → Option κ} {root id : κ} {path : List κ}

theorem unique (chain : Chain parent root id path) {other : List κ}
    (again : Chain parent root id other) : path = other := by
  induction chain generalizing other with
  | root =>
    cases again with
    | root => rfl
    | link apart _ _ => exact absurd rfl apart
  | link apart known _ inductionHypothesis =>
    cases again with
    | root => exact absurd rfl apart
    | link _ known' above' =>
      rw [known] at known'
      obtain rfl := Option.some.inj known'
      rw [inductionHypothesis above']

theorem eq_cons (chain : Chain parent root id path) (apart : id ≠ root) :
    ∃ rest, path = id :: rest := by
  cases chain with
  | root => exact absurd rfl apart
  | @link _ _ rest _ _ _ => exact ⟨rest, rfl⟩

/-- A chain goes on from each of its elements as that element's own. -/
theorem suffix (chain : Chain parent root id path) {member : κ} (on : member ∈ path) :
    ∃ up rest, parent member = some up ∧ Chain parent root up rest ∧ (member :: rest) <:+ path := by
  induction chain with
  | root => cases on
  | @link id up path apart known above inductionHypothesis =>
    cases on with
    | head => exact ⟨up, path, known, above, List.suffix_refl _⟩
    | tail _ on =>
      obtain ⟨up', rest, known', above', later⟩ := inductionHypothesis on
      exact ⟨up', rest, known', above', later.trans (List.suffix_cons _ _)⟩

theorem known (chain : Chain parent root id path) {member : κ} (on : member ∈ path) :
    ∃ up, parent member = some up := by
  obtain ⟨up, -, known, -, -⟩ := chain.suffix on
  exact ⟨up, known⟩

theorem first_has_no_child (chain : Chain parent root id path) {member : κ} (on : member ∈ path) :
    parent member ≠ some id := by
  intro child
  obtain ⟨up, rest, known, above, later⟩ := chain.suffix on
  rw [known] at child
  obtain rfl := Option.some.inj child
  have short := later.length_le
  rw [above.unique chain, List.length_cons] at short
  omega

theorem nodup (chain : Chain parent root id path) : path.Nodup := by
  induction chain with
  | root => exact List.nodup_nil
  | link apart known above inductionHypothesis =>
    refine List.nodup_cons.mpr ⟨?_, inductionHypothesis⟩
    intro again
    -- a second meeting would go on by a part of the chain that is the whole of it
    obtain ⟨_, rest, known', above', later⟩ := above.suffix again
    rw [known] at known'
    obtain rfl := Option.some.inj known'
    have short := later.length_le
    rw [above'.unique above, List.length_cons] at short
    omega

theorem child_unique (chain : Chain parent root id path) {left right up : κ} (onLeft : left ∈ path)
    (onRight : right ∈ path)
    (ofLeft : parent left = some up) (ofRight : parent right = some up) : left = right := by
  obtain ⟨_, restLeft, knownLeft, aboveLeft, laterLeft⟩ := chain.suffix onLeft
  obtain ⟨_, restRight, knownRight, aboveRight, laterRight⟩ := chain.suffix onRight
  rw [ofLeft] at knownLeft
  rw [ofRight] at knownRight
  obtain rfl := Option.some.inj knownLeft
  obtain rfl := Option.some.inj knownRight
  obtain rfl := aboveLeft.unique aboveRight
  have same :=
    (List.suffix_of_suffix_length_le laterLeft laterRight (Nat.le_refl _)).eq_of_length rfl
  exact (List.cons.inj same).1

theorem exists_child (chain : Chain parent root id path) {up : κ} (on : up ∈ path)
    (later : up ≠ id) :
    ∃ member ∈ path, parent member = some up := by
  induction chain with
  | root => cases on
  | @link id next path apart known above inductionHypothesis =>
    have on' : up ∈ path := (List.mem_cons.mp on).resolve_left later
    by_cases first : up = next
    · exact ⟨id, List.mem_cons_self, first ▸ known⟩
    · obtain ⟨member, inside, child⟩ := inductionHypothesis on' first
      exact ⟨member, List.mem_cons_of_mem _ inside, child⟩

end Chain

end

end AiConfig.Lib
