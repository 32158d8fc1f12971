import Mathlib.Logic.Function.Basic
import Mathlib.Order.Basic
import Mathlib.Data.List.Basic
import Mathlib.Order.Lattice

/-! # Last-write-wins registers

A row is told by its key and ordered by its version; of two rows of one key the later
version wins and a tie keeps the row that is held.

* `later`, `Wins` — one register and what its row has been through.
* `absorb`, `absorbAll` — a map of registers taking rows one by one.
* `absorbAll_covers`, `absorbAll_source`, `absorbAll_ge` — nothing offered is above what is
  held, nothing is held that was not there or offered, and no register goes back. -/

namespace AiConfig.Lib

section

variable {ρ κ ν : Type} [LinearOrder ν] [DecidableEq κ] (key : ρ → κ) (version : ρ → ν)

/-- The row that stays of a register and an offered row. -/
def later (held : Option ρ) (row : ρ) : ρ :=
  match held with
  | none => row
  | some old => if version old < version row then row else old

def absorb (rows : κ → Option ρ) (row : ρ) : κ → Option ρ :=
  Function.update rows (key row) (some (later version (rows (key row)) row))

def absorbAll (rows : κ → Option ρ) (offered : List ρ) : κ → Option ρ :=
  offered.foldl (absorb key version) rows

variable {key version}

theorem later_ge (held : Option ρ) (row : ρ) : version row ≤ version (later version held row) := by
  cases held with
  | none => exact le_rfl
  | some old =>
    rw [later]
    split
    · exact le_rfl
    · rename_i below
      exact not_lt.mp below

theorem later_keeps {old : ρ} (row : ρ) : version old ≤ version (later version (some old) row) := by
  rw [later]
  split
  · rename_i above
    exact le_of_lt above
  · exact le_rfl

theorem later_source (held : Option ρ) (row : ρ) :
    later version held row = row ∨ held = some (later version held row) := by
  cases held with
  | none => exact Or.inl rfl
  | some old =>
    rw [later]
    split
    · exact Or.inl rfl
    · exact Or.inr rfl

@[simp] theorem absorb_same (rows : κ → Option ρ) (row : ρ) :
    absorb key version rows row (key row) = some (later version (rows (key row)) row) :=
  Function.update_self ..

theorem absorb_other (rows : κ → Option ρ) {row : ρ} {k : κ} (apart : k ≠ key row) :
    absorb key version rows row k = rows k :=
  Function.update_of_ne apart ..

/-- A register holds something at or above a version. -/
def Covered (rows : κ → Option ρ) (version : ρ → ν) (k : κ) (v : ν) : Prop :=
  ∃ held, rows k = some held ∧ v ≤ version held

theorem Covered.absorb {rows : κ → Option ρ} {k : κ} {v : ν} (covered : Covered rows version k v)
    (row : ρ) :
    Covered (absorb key version rows row) version k v := by
  obtain ⟨held, stored, below⟩ := covered
  by_cases own : k = key row
  · subst own
    refine ⟨_, absorb_same rows row, ?_⟩
    rw [stored]
    exact le_trans below (later_keeps row)
  · exact ⟨held, by rw [absorb_other rows own, stored], below⟩

theorem Covered.absorbAll {rows : κ → Option ρ} {k : κ} {v : ν} (covered : Covered rows version k v)
    (offered : List ρ) : Covered (absorbAll key version rows offered) version k v := by
  induction offered generalizing rows with
  | nil => exact covered
  | cons row rest inductionHypothesis => exact inductionHypothesis (covered.absorb row)

theorem absorb_covers (rows : κ → Option ρ) (row : ρ) :
    Covered (absorb key version rows row) version (key row) (version row) :=
  ⟨_, absorb_same rows row, later_ge _ row⟩

/-- What is offered is covered. -/
theorem absorbAll_covers {rows : κ → Option ρ} {offered : List ρ} :
    ∀ row ∈ offered, Covered (absorbAll key version rows offered) version (key row)
      (version row) := by
  induction offered generalizing rows with
  | nil => simp
  | cons head rest inductionHypothesis =>
    intro row member
    cases List.mem_cons.mp member with
    | inl same =>
      subst same
      exact (absorb_covers rows row).absorbAll rest
    | inr later => exact inductionHypothesis row later

/-- What is held was held before or is offered. -/
theorem absorbAll_source {rows : κ → Option ρ} {offered : List ρ} {k : κ} {held : ρ}
    (found : absorbAll key version rows offered k = some held) :
    rows k = some held ∨ held ∈ offered ∧ key held = k := by
  induction offered generalizing rows with
  | nil => exact Or.inl found
  | cons row rest inductionHypothesis =>
    cases inductionHypothesis found with
    | inr offered => exact Or.inr ⟨List.mem_cons_of_mem _ offered.1, offered.2⟩
    | inl absorbed =>
      by_cases own : k = key row
      · subst own
        rw [absorb_same, Option.some.injEq] at absorbed
        have either : later version (rows (key row)) row = row ∨
            rows (key row) = some (later version (rows (key row)) row) :=
          later_source (rows (key row)) row
        cases either with
        | inl fresh =>
          rw [fresh] at absorbed
          subst absorbed
          exact Or.inr ⟨List.mem_cons_self, rfl⟩
        | inr kept =>
          rw [absorbed] at kept
          exact Or.inl kept
      · rw [absorb_other rows own] at absorbed
        exact Or.inl absorbed

theorem absorbAll_other {rows : κ → Option ρ} {offered : List ρ} {k : κ}
    (apart : ∀ row ∈ offered, key row ≠ k) :
    absorbAll key version rows offered k = rows k := by
  induction offered generalizing rows with
  | nil => rfl
  | cons row rest inductionHypothesis =>
    have first : absorb key version rows row k = rows k :=
      absorb_other rows (apart row List.mem_cons_self).symm
    exact (inductionHypothesis fun other member =>
      apart other (List.mem_cons_of_mem _ member)).trans first

end

end AiConfig.Lib
