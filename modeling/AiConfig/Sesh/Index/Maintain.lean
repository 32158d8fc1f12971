import AiConfig.Sesh.Index.Node

/-! # What maintenance keeps

Unification writes two columns, `logical_session_id` and `file_ordinal`, and its dedupe
deletes rows that carry a key, never a quarantined one.  `Maintained` is that much of
every statement of it, fast path and full path and rebuild alike. -/

namespace AiConfig.Sesh

open AiConfig.Lib AiConfig.Sesh.Wire

/-- A row without the two columns that maintenance writes. -/
def Row.fixed (row : Row) : Row := { row with logicalSessionID := "", fileOrdinal := 0 }

@[simp] theorem Row.fixed_quarantine (row : Row) : row.fixed.quarantine = row.quarantine := rfl
@[simp] theorem Row.fixed_id (row : Row) : row.fixed.id = row.id := rfl

structure Maintained (before after : List Row) : Prop where
  kept : (after.map Row.fixed).Sublist (before.map Row.fixed)
  quarantined :
    (after.filter (·.quarantine)).map Row.fixed = (before.filter (·.quarantine)).map Row.fixed

section

variable {store : Store} {tool : Tool} {logical canonical : String} {before after rows : List Row}

theorem Maintained.refl (rows : List Row) : Maintained rows rows := ⟨List.Sublist.refl _, rfl⟩

theorem Maintained.trans {first second third : List Row} (one : Maintained first second)
    (two : Maintained second third) : Maintained first third :=
  ⟨two.kept.trans one.kept, two.quarantined.trans one.quarantined⟩

/-- An update of the two columns. -/
theorem maintained_map {change : Row → Row} (keeps : ∀ row, (change row).fixed = row.fixed)
    (rows : List Row) :
    Maintained rows (rows.map change) := by
  have same : (rows.map change).map Row.fixed = rows.map Row.fixed := by
    rw [List.map_map]
    exact List.map_congr_left fun row _ => keeps row
  have flags : ∀ row, (change row).quarantine = row.quarantine := by
    intro row
    calc (change row).quarantine = (change row).fixed.quarantine := rfl
      _ = row.quarantine := by rw [keeps]; rfl
  refine ⟨by rw [same], ?_⟩
  rw [List.filter_map, List.map_map]
  have selected : ((fun row : Row => row.quarantine) ∘ change) = fun row => row.quarantine :=
    funext flags
  rw [selected]
  exact List.map_congr_left fun row _ => keeps row

theorem relabelFile_maintained (gen : GenKey) : Maintained rows (relabelFile canonical gen rows) :=
  maintained_map (fun row => by split <;> rfl) rows

theorem updateFileOrdinal_maintained (ordinal : Nat) (gen : GenKey) :
    Maintained rows (updateFileOrdinal ordinal gen rows) :=
  maintained_map (fun row => by split <;> rfl) rows

theorem relabelFiles_maintained (group : List FileSummary) (rows : List Row) :
    Maintained rows (relabelFiles canonical group rows) := by
  induction group generalizing rows with
  | nil => exact .refl rows
  | cons f rest inductionHypothesis =>
      exact (relabelFile_maintained f.gen).trans (inductionHypothesis _)

theorem updateFileOrdinalsFrom_maintained (ordinal : Nat) (group : List FileSummary)
    (rows : List Row) :
    Maintained rows (updateFileOrdinalsFrom ordinal group rows) := by
  induction group generalizing ordinal rows with
  | nil => exact .refl rows
  | cons f rest inductionHypothesis =>
    exact (updateFileOrdinal_maintained ordinal f.gen).trans (inductionHypothesis _ _)

theorem compact_maintained : Maintained rows (compactLogicalFileOrdinals store tool logical rows) :=
  updateFileOrdinalsFrom_maintained 0 _ rows

/-- A dedupe that selects no quarantined row. -/
theorem dedupeWhere_maintained {scope : Row → Bool}
    (spares : ∀ row, scope row = true → row.quarantine = false)
    (rows : List Row) : Maintained rows (dedupeWhere scope rows) := by
  refine ⟨List.filter_sublist.map _, ?_⟩
  rw [dedupeWhere, List.filter_filter]
  congr 1
  apply List.filter_congr
  intro row _
  cases held : row.quarantine with
  | false => rfl
  | true =>
    have outside : scope row = false := by
      by_contra inside
      rw [spares row (by simpa using inside)] at held
      cases held
    simp [outranked, outside]

theorem keyed_spares {row : IndexedMessage} (keyed : row.keyed = true) :
    row.quarantine = false := by
  simp only [IndexedMessage.keyed, Bool.and_eq_true, Bool.not_eq_true'] at keyed
  exact keyed.1

theorem dedupeAll_maintained (rows : List Row) : Maintained rows (dedupeAll rows) :=
  dedupeWhere_maintained (fun _ keyed => keyed_spares keyed) rows

theorem dedupeLogical_maintained (rows : List Row) :
    Maintained rows (dedupeLogical tool logical rows) :=
  dedupeWhere_maintained (fun row selected => by
    simp only [Bool.and_eq_true] at selected
    exact keyed_spares selected.1.1) rows

theorem dedupeLogicalKey_maintained (entryType messageUUID : String) (rows : List Row) :
    Maintained rows (dedupeLogicalKey tool entryType messageUUID logical rows) :=
  dedupeWhere_maintained (fun row selected => by
    simp only [Bool.and_eq_true, Bool.not_eq_true'] at selected
    exact selected.1.1.1.1) rows

theorem dedupeAppendedKeys_maintained (seen : List String) (appended : List IndexedMessage)
    (rows : List Row) :
    Maintained rows (dedupeAppendedKeys tool logical seen appended rows) := by
  induction appended generalizing seen rows with
  | nil => exact .refl rows
  | cons row rest inductionHypothesis =>
    rw [dedupeAppendedKeys]
    split
    · exact inductionHypothesis seen rows
    · exact (dedupeLogicalKey_maintained _ _ rows).trans (inductionHypothesis _ _)

theorem maintainSettled_maintained (appended : List IndexedMessage) (rows : List Row) :
    Maintained rows (maintainSettled store tool logical appended rows) := by
  have deduped := @dedupeAppendedKeys_maintained tool logical [] appended rows
  simp only [maintainSettled]
  split
  · exact deduped.trans compact_maintained
  · exact deduped

theorem placeComponent_maintained (group : List FileSummary) (rows : List Row) :
    Maintained rows (placeComponent canonical group rows) := by
  unfold placeComponent
  split
  · exact (relabelFiles_maintained group rows).trans (updateFileOrdinalsFrom_maintained 0 group _)
  · exact updateFileOrdinalsFrom_maintained 0 group rows

theorem unifyComponent_maintained (start : FileSummary) (rows : List Row) :
    Maintained rows (unifyComponent store rows start) := by
  unfold unifyComponent
  split
  · exact .refl rows
  · exact ((placeComponent_maintained _ rows).trans (dedupeLogical_maintained _)).trans
      compact_maintained

theorem unifyConnected_maintained (naive : Bool) (gen : GenKey) (appended : List IndexedMessage)
    (placement : Option FilePlacement) (rows : List Row) :
    Maintained rows (unifyConnectedLogicalSessions store naive gen appended placement rows) := by
  unfold unifyConnectedLogicalSessions
  split
  · exact .refl rows
  · split
    · exact maintainSettled_maintained appended rows
    · exact unifyComponent_maintained _ rows

theorem foldl_maintained {α : Type} {step : List Row → α → List Row}
    (keeps : ∀ rows item, Maintained rows (step rows item)) (items : List α) (rows : List Row) :
    Maintained rows (items.foldl step rows) := by
  induction items generalizing rows with
  | nil => exact .refl rows
  | cons item items inductionHypothesis => exact (keeps rows item).trans (inductionHypothesis _)

theorem relabelGroup_maintained (rows : List Row) (group : List FileSummary) :
    Maintained rows (relabelGroup rows group) := by
  unfold relabelGroup
  split
  · exact relabelFiles_maintained _ rows
  · exact .refl rows

theorem updateFileOrdinals_maintained (rows : List Row) :
    Maintained rows (updateFileOrdinals store rows) :=
  foldl_maintained (fun _ _ => updateFileOrdinalsFrom_maintained 0 _ _) _ rows

theorem unifyLogicalSessions_maintained (rows : List Row) :
    Maintained rows (unifyLogicalSessions store rows) := by
  have grouped :
      Maintained rows ((fileGroups rows (fileSummaries store rows)).foldl relabelGroup rows) :=
    foldl_maintained relabelGroup_maintained _ rows
  simp only [unifyLogicalSessions]
  generalize (fileGroups rows (fileSummaries store rows)).foldl relabelGroup rows =
    relabelled at grouped ⊢
  exact grouped.trans ((updateFileOrdinals_maintained relabelled).trans
    ((dedupeAll_maintained _).trans (updateFileOrdinals_maintained _)))

end

end AiConfig.Sesh
