import AiConfig.Herder.State.History

/-! # Purge horizons

In a namespace whose tombstones raise the horizon when they are purged, what the store
covers stays covered: a version is at or below the stored row of its key, or at or below
the horizon.  A tombstone keeps its key free of live rows at or below it. -/

namespace AiConfig.Herder

open AiConfig.Lib

section

variable {V : Type}

theorem updated_le_of_version_le {left right : Row V} (below : left.version ≤ right.version) :
    left.updated ≤ right.updated := by
  simp only [Row.version, Prod.Lex.toLex_le_toLex] at below
  cases below with
  | inl less => exact le_of_lt less
  | inr same => exact le_of_eq same.1

theorem version_lt_of_updated_lt {left right : Row V} (below : left.updated < right.updated) :
    left.version < right.version := by
  simp only [Row.version, Prod.Lex.toLex_lt_toLex]
  exact Or.inl below

/-! ## Sweeps -/

theorem raised_cons (policy : SweepPolicy V) (ns : String) (horizon : Int) (row : StoredRow V)
    (rest : List (StoredRow V)) :
    policy.raised ns horizon (row :: rest) =
      policy.raised ns
        (if policy.purges row.toRow && policy.horizon ns && horizon < row.updated then row.updated
        else horizon) rest := rfl

theorem raised_ge (policy : SweepPolicy V) (ns : String) (horizon : Int)
    (rows : List (StoredRow V)) :
    horizon ≤ policy.raised ns horizon rows := by
  induction rows generalizing horizon with
  | nil => exact le_rfl
  | cons row rest inductionHypothesis =>
    rw [raised_cons]
    refine le_trans ?_ (inductionHypothesis _)
    split
    · rename_i purged
      simp only [Bool.and_eq_true, decide_eq_true_eq] at purged
      exact le_of_lt purged.2
    · exact le_rfl

theorem raised_covers {policy : SweepPolicy V} {ns : String} {horizon : Int}
    {rows : List (StoredRow V)}
    (listed : policy.horizon ns = true) :
    ∀ row ∈ rows, policy.purges row.toRow = true → row.updated ≤ policy.raised ns horizon rows := by
  induction rows generalizing horizon with
  | nil => simp
  | cons head rest inductionHypothesis =>
    intro row member purged
    cases List.mem_cons.mp member with
    | inr later => exact inductionHypothesis row later purged
    | inl same =>
      subst same
      rw [raised_cons, purged, listed]
      refine le_trans ?_ (raised_ge policy ns _ rest)
      split
      · exact le_rfl
      · rename_i low
        simpa using low

theorem row_swept {data : NamespaceData V} {ns : String} {policy : SweepPolicy V} {key : String}
    {row : Row V} :
    (data.swept ns policy).row key = some row ↔ data.row key = some row ∧
    policy.removes ns row = false := by
  simp only [NamespaceData.row, Option.map_eq_some_iff]
  constructor
  · rintro ⟨stored, found, same⟩
    obtain ⟨held, stays⟩ := lookup_keepRows.mp found
    exact ⟨⟨stored, held, same⟩, by simpa [same] using stays⟩
  · rintro ⟨⟨stored, found, same⟩, stays⟩
    exact ⟨stored, lookup_keepRows.mpr ⟨found, by simpa [same] using stays⟩, same⟩

theorem mem_stored_of_row {data : NamespaceData V} {key : String} {row : Row V}
    (found : data.row key = some row) :
    ∃ stored ∈ data.stored, stored.toRow = row := by
  obtain ⟨stored, held, same⟩ := Option.map_eq_some_iff.mp found
  exact ⟨stored, mem_stored held, same⟩

/-- A sweep that raises the horizon and takes no live row. -/
structure OwnerSweep (ns : String) (policy : SweepPolicy V) : Prop where
  horizon : policy.horizon ns = true
  live : ∀ row, policy.dismisses ns row = false

theorem OwnerSweep.purges {ns : String} {policy : SweepPolicy V} (owner : OwnerSweep ns policy)
    {row : Row V}
    (removed : policy.removes ns row = true) : policy.purges row = true := by
  simpa [SweepPolicy.removes, owner.live row] using removed

theorem OwnerSweep.updated_le_horizon {ns : String} {policy : SweepPolicy V}
    (owner : OwnerSweep ns policy)
    {data : NamespaceData V} {key : String} {row : Row V} (found : data.row key = some row)
    (removed : policy.removes ns row = true) : row.updated ≤ (data.swept ns policy).horizon := by
  obtain ⟨stored, member, same⟩ := mem_stored_of_row found
  rw [← same]
  exact raised_covers owner.horizon stored member (same ▸ owner.purges removed)

/-! ## Covered rows -/

def NamespaceData.Covers (data : NamespaceData V) (row : Row V) : Prop :=
  Covered data.row Row.version row.key row.version ∨ 0 < data.horizon ∧ row.updated ≤ data.horizon

theorem NamespaceData.Covers.below {data : NamespaceData V} {row other : Row V}
    (covers : data.Covers row)
    (key : other.key = row.key) (below : other.version ≤ row.version) : data.Covers other := by
  cases covers with
  | inl held =>
    obtain ⟨stored, found, above⟩ := held
    exact Or.inl ⟨stored, key ▸ found, le_trans below above⟩
  | inr purged => exact Or.inr ⟨purged.1, le_trans (updated_le_of_version_le below) purged.2⟩

theorem NamespaceData.Covers.landing {data : NamespaceData V} {row : Row V}
    (covers : data.Covers row)
    (rows : List (Row V)) : (data.landing rows).Covers row := by
  cases covers with
  | inl held =>
    left
    rw [NamespaceData.landing, NamespaceData.row_accept]
    exact held.absorbAll _
  | inr purged =>
    right
    rw [NamespaceData.landing, NamespaceData.horizon_accept]
    exact purged

/-- The purged tombstones are of a time after zero. -/
def PositivePurges (data : NamespaceData V) (policy : SweepPolicy V) : Prop :=
  ∀ key row, data.row key = some row → policy.purges row = true → 0 < row.updated

theorem NamespaceData.Covers.swept {data : NamespaceData V} {row : Row V} (covers : data.Covers row)
    {ns : String}
    {policy : SweepPolicy V} (owner : OwnerSweep ns policy)
    (positive : PositivePurges data policy) :
    (data.swept ns policy).Covers row := by
  cases covers with
  | inl held =>
    obtain ⟨stored, found, above⟩ := held
    cases removed : policy.removes ns stored with
    | false => exact Or.inl ⟨stored, row_swept.mpr ⟨found, removed⟩, above⟩
    | true =>
      have raised := owner.updated_le_horizon found removed
      have time := positive row.key stored found (owner.purges removed)
      exact Or.inr ⟨lt_of_lt_of_le time raised, le_trans (updated_le_of_version_le above) raised⟩
  | inr purged =>
    have raised := raised_ge policy ns data.horizon data.stored
    exact Or.inr ⟨lt_of_lt_of_le purged.1 raised, le_trans purged.2 raised⟩

/-- An upsert that answers has stored or refused as stale every row it was given. -/
theorem landing_covers {data : NamespaceData V} {rows : List (Row V)} {row : Row V}
    (member : row ∈ rows) :
    (data.landing rows).Covers row := by
  obtain ⟨candidate, chosen, own, above⟩ := candidates_cover member
  cases stale : data.stale candidate with
  | true =>
    -- nothing is stored of a stale key, and the horizon stays
    simp only [NamespaceData.stale, Bool.and_eq_true, decide_eq_true_eq] at stale
    right
    rw [NamespaceData.landing, NamespaceData.horizon_accept]
    exact ⟨stale.1.2, le_trans (updated_le_of_version_le above) stale.2⟩
  | false =>
    have live : candidate ∈ data.live rows := List.mem_filter.mpr ⟨chosen, by simp [stale]⟩
    have held :
      Covered (absorbAll Row.key Row.version data.row (data.live rows)) Row.version candidate.key
        candidate.version := absorbAll_covers candidate live
    rw [← NamespaceData.row_accept] at held
    exact NamespaceData.Covers.below (Or.inl held) own.symm above

/-! ## Tombstones -/

/-- No live row of the key is at or below the tombstone, nor can one be created. -/
def NamespaceData.Bars (data : NamespaceData V) (tombstone : Row V) : Prop :=
  match data.row tombstone.key with
  | some row => tombstone.version < row.version ∨ tombstone.version = row.version ∧
      row.deleted = true
  | none => tombstone.updated ≤ data.horizon

theorem NamespaceData.Bars.write {data : NamespaceData V} {tombstone row : Row V}
    (bars : data.Bars tombstone)
    (fresh : row.key = tombstone.key → data.row tombstone.key = none → data.horizon < row.updated) :
    (data.write row).Bars tombstone := by
  rw [Bars] at bars ⊢
  rw [NamespaceData.row_write, NamespaceData.horizon_write]
  by_cases own : tombstone.key = row.key
  · rw [own, absorb_same]
    rw [own] at bars fresh
    cases held : data.row row.key with
    | none =>
      rw [held] at bars
      exact Or.inl (version_lt_of_updated_lt (lt_of_le_of_lt bars (fresh rfl held)))
    | some old =>
      rw [held] at bars
      simp only [later] at bars ⊢
      split
      · rename_i above
        have climbs : tombstone.version ≤ old.version :=
          bars.elim le_of_lt fun same => le_of_eq same.1
        exact Or.inl (lt_of_le_of_lt climbs above)
      · exact bars
  · rw [absorb_other _ own]
    exact bars

theorem NamespaceData.Bars.accept {data : NamespaceData V} {tombstone : Row V} {rows : List (Row V)}
    (bars : data.Bars tombstone)
    (fresh : ∀ row ∈ rows, row.key = tombstone.key → data.row tombstone.key = none →
    data.horizon < row.updated) :
    (data.accept rows).1.Bars tombstone := by
  induction rows generalizing data with
  | nil => exact bars
  | cons row rest inductionHypothesis =>
    refine inductionHypothesis (bars.write (fresh row List.mem_cons_self)) ?_
    intro other member own absent
    rw [NamespaceData.horizon_write]
    rw [NamespaceData.row_write] at absent
    by_cases same : tombstone.key = row.key
    · rw [same, absorb_same] at absent
      cases absent
    · rw [absorb_other _ same] at absent
      exact fresh other (List.mem_cons_of_mem _ member) own absent

theorem NamespaceData.Bars.landing {data : NamespaceData V} {tombstone : Row V}
    (bars : data.Bars tombstone)
    (positive : 0 < tombstone.updated) (rows : List (Row V)) :
    (data.landing rows).Bars tombstone := by
  refine bars.accept fun row member own absent => ?_
  -- a row at or below the horizon of a key that is not stored is stale
  have live := (List.mem_filter.mp member).2
  rw [Bars, absent] at bars
  have missing : data.rows.lookup row.key = none := by
    rw [own]
    exact Option.map_eq_none_iff.mp absent
  have high : 0 < data.horizon := lt_of_lt_of_le positive bars
  simpa [NamespaceData.stale, missing, high] using live

theorem NamespaceData.Bars.swept {data : NamespaceData V} {tombstone : Row V}
    (bars : data.Bars tombstone)
    {ns : String} {policy : SweepPolicy V} (owner : OwnerSweep ns policy) :
    (data.swept ns policy).Bars tombstone := by
  rw [Bars] at bars
  rw [Bars]
  cases held : data.row tombstone.key with
  | none =>
    rw [held] at bars
    have gone : (data.swept ns policy).row tombstone.key = none := by
      cases still : (data.swept ns policy).row tombstone.key with
      | none => rfl
      | some row =>
        rw [row_swept, held] at still
        cases still.1
    rw [gone]
    exact le_trans bars (raised_ge policy ns data.horizon data.stored)
  | some row =>
    rw [held] at bars
    have climbs : tombstone.version ≤ row.version := bars.elim le_of_lt fun same => le_of_eq same.1
    cases removed : policy.removes ns row with
    | false =>
      rw [row_swept.mpr ⟨held, removed⟩]
      exact bars
    | true =>
      have gone : (data.swept ns policy).row tombstone.key = none := by
        cases still : (data.swept ns policy).row tombstone.key with
        | none => rfl
        | some other =>
          rw [row_swept, held, Option.some.injEq] at still
          rw [still.1, still.2] at removed
          cases removed
      rw [gone]
      exact le_trans (updated_le_of_version_le climbs) (owner.updated_le_horizon held removed)

/-- A stored row is above the tombstone or deleted. -/
theorem NamespaceData.Bars.no_live_row {data : NamespaceData V} {tombstone : Row V}
    (bars : data.Bars tombstone)
    {row : Row V} (found : data.row tombstone.key = some row) (live : row.deleted = false) :
    tombstone.version < row.version := by
  rw [Bars, found] at bars
  cases bars with
  | inl above => exact above
  | inr same =>
    rw [live] at same
    cases same.2

end

end AiConfig.Herder
