import Mathlib.Logic.Function.Basic
import Mathlib.Logic.Relation
import Mathlib.Order.Basic
import Mathlib.Order.Lattice

/-! # Write-back caches of last-write-wins registers

Holders keep registers of their own over one shared set, and mark those that they have yet to
save.  A holder produces a row above the one it holds, learns a row that has been shared, saves
its row where none above it is shared, and clears a mark once its row is covered.

* `Caches.Move` — one such step, of one holder.
* `Caches.Settled` — the invariant: what is not marked is covered by what is shared.
* `Caches.Settled.shared_ge` — a shared register never goes back.
* `Caches.Settled.saved` — with no mark left, the shared registers hold the greatest rows produced.
  -/

namespace AiConfig.Lib

structure Caches (ι κ ρ : Type) where
  memory : ι → κ → Option ρ
  dirty : ι → κ → Prop
  shared : κ → Option ρ
  /-- What has been shared. -/
  past : κ → ρ → Prop
  produced : κ → ρ → Prop

section

variable {ι κ ρ ν : Type} [LinearOrder ν] [DecidableEq ι] [DecidableEq κ] (version : ρ → ν)

/-- A register holds a row at or above a version. -/
def Above (held : Option ρ) (v : ν) : Prop := ∃ row, held = some row ∧ v ≤ version row

/-- A row is above what a register holds. -/
def Tops (held : Option ρ) (row : ρ) : Prop := ∀ old, held = some old → version old < version row

namespace Caches

variable (caches : Caches ι κ ρ) (i : ι) (k : κ)

def hold (row : ρ) : Caches ι κ ρ :=
  { caches with memory := Function.update caches.memory i (Function.update (caches.memory i) k
    (some row)) }

def mark : Caches ι κ ρ :=
  { caches with dirty := fun j other => caches.dirty j other ∨ j = i ∧ other = k }

def clear : Caches ι κ ρ :=
  { caches with dirty := fun j other => caches.dirty j other ∧ ¬(j = i ∧ other = k) }

def share (row : ρ) : Caches ι κ ρ :=
  { caches with
    shared := Function.update caches.shared k (some row)
    past := fun other old => caches.past other old ∨ other = k ∧ old = row }

def produce (row : ρ) : Caches ι κ ρ :=
  { (caches.hold i k
    row).mark i k with produced := fun other old => caches.produced other old ∨ other = k ∧
    old = row }

inductive Move (i : ι) : Caches ι κ ρ → Caches ι κ ρ → Prop
  | produce {caches : Caches ι κ ρ} {k : κ} {row : ρ}
      (tops : Tops version (caches.memory i k) row) :
      Move i caches (caches.produce i k row)
  | learn {caches : Caches ι κ ρ} {k : κ} {row : ρ} (past : caches.past k row)
      (tops : Tops version (caches.memory i k) row) :
      Move i caches (caches.hold i k row)
  | save {caches : Caches ι κ ρ} {k : κ} {row : ρ} (held : caches.memory i k = some row)
      (below : ∀ old, caches.shared k = some old → version old ≤ version row) :
        Move i caches (caches.share k row)
  | clear {caches : Caches ι κ ρ} {k : κ}
      (covered : ∀ row, caches.memory i k = some row →
        Above version (caches.shared k) (version row)) :
      Move i caches (caches.clear i k)

/-- The moves of one holder. -/
def Moves (i : ι) : Caches ι κ ρ → Caches ι κ ρ → Prop := Relation.ReflTransGen (Move version i)

/-- What holds however the holders move, over rows that were `original` to begin with. -/
structure Settled (original : κ → ρ → Prop) (caches : Caches ι κ ρ) : Prop where
  past : ∀ k row, caches.past k row → Above version (caches.shared k) (version row)
  shared : ∀ k row, caches.shared k = some row → caches.past k row
  behind : ∀ i k row, caches.memory i k = some row → caches.dirty i k ∨
    Above version (caches.shared k) (version row)
  produced : ∀ k row, caches.produced k row → ∃ i, Above version (caches.memory i k) (version row)
  held : ∀ i k row, caches.memory i k = some row → caches.produced k row ∨ original k row
  source : ∀ k row, caches.past k row → caches.produced k row ∨ original k row

end Caches

variable {version}

theorem Above.le {held : Option ρ} {v w : ν} (above : Above version held w) (below : v ≤ w) :
    Above version held v := by
  obtain ⟨row, found, ge⟩ := above
  exact ⟨row, found, below.trans ge⟩

theorem Tops.above {held : Option ρ} {row : ρ} (tops : Tops version held row) {v : ν}
    (above : Above version held v) :
    v ≤ version row := by
  obtain ⟨old, found, ge⟩ := above
  exact ge.trans (tops old found).le

namespace Caches

variable {caches caches' : Caches ι κ ρ} {i : ι} {k : κ} {original : κ → ρ → Prop}

theorem hold_memory (caches : Caches ι κ ρ) (i j : ι) (k other : κ) (row : ρ) :
    (caches.hold i k row).memory j other =
      if j = i ∧ other = k then some row else caches.memory j other := by
  show Function.update caches.memory i (Function.update (caches.memory i) k (some row)) j other = _
  rw [Function.update_apply]
  split
  · next same =>
    subst same
    rw [Function.update_apply]
    simp
  · next apart => rw [if_neg fun both => apart both.1]

omit [DecidableEq ι] in
theorem share_shared (caches : Caches ι κ ρ) (k other : κ) (row : ρ) :
    (caches.share k row).shared other = if other = k then some row else caches.shared other := by
  show Function.update caches.shared k (some row) other = _
  rw [Function.update_apply]

/-- A step leaves a shared register where it is, or takes it up. -/
theorem Move.shared_ge (move : Move version i caches caches') {k : κ} {v : ν}
    (above : Above version (caches.shared k) v) :
    Above version (caches'.shared k) v := by
  cases move with
  | produce => exact above
  | learn => exact above
  | clear => exact above
  | @save other row held below =>
    by_cases same : k = other
    · subst same
      obtain ⟨old, found, ge⟩ := above
      exact ⟨row, by rw [share_shared, if_pos rfl], ge.trans (below old found)⟩
    · obtain ⟨old, found, ge⟩ := above
      exact ⟨old, by rw [share_shared, if_neg same, found], ge⟩

/-- A step leaves a held register where it is, or takes it up. -/
theorem hold_above {j : ι} {k other : κ} {row : ρ} {v : ν}
    (tops : Tops version (caches.memory i k) row)
    (above : Above version (caches.memory j other) v) :
    Above version ((caches.hold i k row).memory j other) v := by
  rw [hold_memory]
  split
  · next same =>
    obtain ⟨rfl, rfl⟩ := same
    exact ⟨row, rfl, tops.above above⟩
  · exact above

theorem Settled.move (settled : Settled version original caches)
    (move : Move version i caches caches') :
    Settled version original caches' := by
  cases move with
  | @produce k row tops =>
    -- A new value is held by the cache that made it, and marked there.
    refine ⟨settled.past, settled.shared, fun j other old found => ?_, fun other old made => ?_,
      fun j other old found => ?_, fun other old once =>
        (settled.source other old once).imp_left Or.inl⟩
    · change (caches.hold i k row).memory j other = some old at found
      rw [hold_memory] at found
      split at found
      · next same => exact Or.inl (Or.inr same)
      · exact (settled.behind j other old found).imp_left Or.inl
    · cases made with
      | inl before =>
        obtain ⟨j, above⟩ := settled.produced other old before
        exact ⟨j, hold_above tops above⟩
      | inr own =>
        obtain ⟨rfl, rfl⟩ := own
        exact ⟨i, old, by show (caches.hold i other old).memory i other = _; rw [hold_memory,
          if_pos ⟨rfl, rfl⟩], le_rfl⟩
    · change (caches.hold i k row).memory j other = some old at found
      rw [hold_memory] at found
      split at found
      · next same =>
        cases found
        exact Or.inl (Or.inr ⟨same.2, rfl⟩)
      · exact (settled.held j other old found).imp_left Or.inl
  | @learn k row once tops =>
    refine ⟨settled.past, settled.shared, fun j other old found => ?_, fun other old made => ?_,
      fun j other old found => ?_, settled.source⟩
    · rw [hold_memory] at found
      split at found
      · next same =>
        obtain ⟨rfl, rfl⟩ := same
        cases found
        exact Or.inr (settled.past other row once)
      · exact settled.behind j other old found
    · obtain ⟨j, above⟩ := settled.produced other old made
      exact ⟨j, hold_above tops above⟩
    · rw [hold_memory] at found
      split at found
      · next same =>
        obtain ⟨rfl, rfl⟩ := same
        cases found
        exact settled.source other row once
      · exact settled.held j other old found
  | @save k row held below =>
    -- What is shared only rises, so what was once shared is still below it.
    have saves : Move version i caches (caches.share k row) := .save held below
    have rises : ∀ {other : κ} {v : ν}, Above version (caches.shared other) v →
        Above version ((caches.share k row).shared other) v :=
      fun above => saves.shared_ge above
    refine ⟨fun other old once => ?_, fun other old found => ?_, fun j other old found => ?_,
      settled.produced, settled.held,
      fun other old once => ?_⟩
    · cases once with
      | inl before => exact rises (settled.past other old before)
      | inr own =>
        obtain ⟨rfl, rfl⟩ := own
        exact ⟨old, by rw [share_shared, if_pos rfl], le_rfl⟩
    · rw [share_shared] at found
      split at found
      · next same =>
        cases found
        exact Or.inr ⟨same, rfl⟩
      · exact Or.inl (settled.shared other old found)
    · exact (settled.behind j other old found).imp_right rises
    · cases once with
      | inl before => exact settled.source other old before
      | inr own =>
        obtain ⟨rfl, rfl⟩ := own
        exact settled.held i other old held
  | @clear k covered =>
    refine ⟨settled.past, settled.shared, fun j other old found => ?_, settled.produced,
      settled.held, settled.source⟩
    by_cases own : j = i ∧ other = k
    · obtain ⟨rfl, rfl⟩ := own
      exact Or.inr (covered old found)
    · exact (settled.behind j other old found).imp_left fun marked => ⟨marked, own⟩

theorem Settled.moves (settled : Settled version original caches)
    (moves : Moves version i caches caches') :
    Settled version original caches' := by
  induction moves with
  | refl => exact settled
  | tail _ move inductionHypothesis => exact inductionHypothesis.move move

theorem Moves.shared_ge (moves : Moves version i caches caches') {k : κ} {v : ν}
    (above : Above version (caches.shared k) v) :
    Above version (caches'.shared k) v := by
  induction moves with
  | refl => exact above
  | tail _ move inductionHypothesis => exact move.shared_ge inductionHypothesis

/-- A holder's moves leave the others' registers and marks alone. -/
theorem Moves.others (moves : Moves version i caches caches') {j : ι} (apart : j ≠ i) (k : κ) :
    caches'.memory j k = caches.memory j k ∧ (caches'.dirty j k ↔ caches.dirty j k) := by
  induction moves with
  | refl => exact ⟨rfl, Iff.rfl⟩
  | tail _ move inductionHypothesis =>
    obtain ⟨memory, dirty⟩ := inductionHypothesis
    rw [← memory, ← dirty]
    cases move with
    | produce =>
      refine ⟨?_, ?_⟩
      · exact (hold_memory ..).trans (if_neg fun own => apart own.1)
      · exact or_iff_left fun own => apart own.1
    | learn => exact ⟨(hold_memory ..).trans (if_neg fun own => apart own.1), Iff.rfl⟩
    | save => exact ⟨rfl, Iff.rfl⟩
    | clear => exact ⟨rfl, and_iff_left fun own => apart own.1⟩

omit [DecidableEq ι] [DecidableEq κ] in
/-- With nothing left to save, each shared register has the greatest of the rows produced. -/
theorem Settled.saved (settled : Settled version original caches) (clean : ∀ i k, ¬caches.dirty i k)
    {k : κ} {row : ρ}
    (made : caches.produced k row) : ∃ kept, caches.shared k = some kept ∧
    version row ≤ version kept ∧
      (caches.produced k kept ∨ original k kept) := by
  obtain ⟨i, held, found, ge⟩ := settled.produced k row made
  cases settled.behind i k held found with
  | inl marked => exact absurd marked (clean i k)
  | inr above =>
    obtain ⟨kept, stored, ge'⟩ := above
    exact ⟨kept, stored, ge.trans ge', settled.source k kept (settled.shared k kept stored)⟩

end Caches

end

end AiConfig.Lib
