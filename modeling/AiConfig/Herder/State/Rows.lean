import AiConfig.Herder.State.Store

/-! # What one call leaves

Each call is described once by what it can do to the state, and the rows it accepts as
last-write-wins registers; the results about runs cite these and never unfold a call. -/

namespace AiConfig.Herder

open AiConfig.Lib

section

variable {V : Type}

/-! ## Candidates -/

def firstOf (rows : List (Row V)) (key : String) : Option (Row V) :=
  rows.find? fun row => row.key = key

theorem firstOf_cons (head : Row V) (rest : List (Row V)) (key : String) :
    firstOf (head :: rest) key = if head.key = key then some head else firstOf rest key := by
  by_cases own : head.key = key
  · simp [firstOf, own]
  · simp [firstOf, own]

/-- A filter by key keeps the rows of the keys it keeps. -/
theorem firstOf_filter (rows : List (Row V)) (keep : String → Bool) (key : String) :
    firstOf (rows.filter fun row => keep row.key) key =
      if keep key then firstOf rows key else none := by
  induction rows with
  | nil => simp [firstOf]
  | cons head rest inductionHypothesis =>
    rw [List.filter_cons]
    cases stays : keep head.key with
    | false =>
      rw [if_neg Bool.false_ne_true, inductionHypothesis, firstOf_cons]
      by_cases own : head.key = key
      · rw [← own, stays]
        rfl
      · rw [if_neg own]
    | true =>
      rw [if_pos rfl, firstOf_cons, firstOf_cons, inductionHypothesis]
      by_cases own : head.key = key
      · rw [if_pos own, if_pos own, ← own, stays]
        rfl
      · rw [if_neg own, if_neg own]

theorem firstOf_addCandidate (rows : List (Row V)) (row : Row V) :
    firstOf (addCandidate rows row) = absorb Row.key Row.version (firstOf rows) row := by
  induction rows with
  | nil =>
    funext key
    by_cases own : key = row.key
    · subst own
      simp [addCandidate, firstOf, later]
    · rw [absorb_other _ own, addCandidate, firstOf_cons, if_neg (Ne.symm own)]
  | cons head rest inductionHypothesis =>
    funext key
    rw [addCandidate]
    by_cases same : head.key = row.key
    · -- the candidate of this key is the head, before and after
      rw [if_pos same]
      by_cases own : key = row.key
      · subst own
        rw [absorb_same, firstOf_cons, firstOf_cons, if_pos same, later]
        simp only [compare_pos]
        split
        · rw [if_pos rfl]
        · rfl
      · have apart : head.key ≠ key := fun meets => own (meets.symm.trans same)
        rw [absorb_other _ own, firstOf_cons, firstOf_cons, if_neg apart]
        split
        · rw [if_neg (Ne.symm own)]
        · rfl
    · rw [if_neg same, firstOf_cons, inductionHypothesis]
      by_cases own : key = row.key
      · subst own
        rw [if_neg same, absorb_same, absorb_same, firstOf_cons, if_neg same]
      · rw [absorb_other _ own, absorb_other _ own, firstOf_cons]

theorem firstOf_foldl (rows held : List (Row V)) :
    firstOf (rows.foldl addCandidate held) = absorbAll Row.key Row.version (firstOf held) rows := by
  induction rows generalizing held with
  | nil => rfl
  | cons row rest inductionHypothesis =>
    rw [List.foldl_cons, inductionHypothesis, firstOf_addCandidate]
    rfl

theorem firstOf_candidates (rows : List (Row V)) :
    firstOf (candidates rows) = absorbAll Row.key Row.version (fun _ => none) rows :=
  firstOf_foldl rows []

theorem addCandidate_keys (rows : List (Row V)) (row : Row V) :
    (addCandidate rows row).map Row.key =
      if row.key ∈ rows.map Row.key then rows.map Row.key else rows.map Row.key ++ [row.key] := by
  induction rows with
  | nil => simp [addCandidate]
  | cons head rest inductionHypothesis =>
    rw [addCandidate]
    by_cases same : head.key = row.key
    · rw [if_pos same]
      split <;> simp [same]
    · rw [if_neg same, List.map_cons, inductionHypothesis]
      simp only [List.map_cons, List.mem_cons, Ne.symm same, false_or]
      split <;> rfl

theorem candidates_keys_nodup (rows : List (Row V)) : ((candidates rows).map Row.key).Nodup := by
  suffices general : ∀ held : List (Row V), (held.map Row.key).Nodup →
      ((rows.foldl addCandidate held).map Row.key).Nodup from general [] List.nodup_nil
  induction rows with
  | nil => exact fun _ nodup => nodup
  | cons row rest inductionHypothesis =>
    intro held nodup
    apply inductionHypothesis
    rw [addCandidate_keys]
    split
    · exact nodup
    · rename_i fresh
      exact List.nodup_append.mpr ⟨nodup, List.nodup_singleton _, by
        intro one first other second same
        rw [List.mem_singleton] at second
        exact fresh (second ▸ same ▸ first)⟩

theorem firstOf_eq_some {rows : List (Row V)} {key : String} {row : Row V}
    (found : firstOf rows key = some row) :
    row ∈ rows ∧ row.key = key :=
  ⟨List.mem_of_find?_eq_some found, by simpa using List.find?_some found⟩

theorem firstOf_of_mem {rows : List (Row V)} (nodup : (rows.map Row.key).Nodup) {row : Row V}
    (member : row ∈ rows) :
    firstOf rows row.key = some row := by
  induction rows with
  | nil => cases member
  | cons head rest inductionHypothesis =>
    rw [firstOf_cons]
    rw [List.map_cons, List.nodup_cons] at nodup
    cases List.mem_cons.mp member with
    | inl same => rw [same, if_pos rfl]
    | inr later =>
      have apart : head.key ≠ row.key := fun same => nodup.1 (same ▸ List.mem_map_of_mem later)
      rw [if_neg apart]
      exact inductionHypothesis nodup.2 later

/-- A candidate is a row of the batch. -/
theorem mem_of_mem_candidates {rows : List (Row V)} {row : Row V} (member : row ∈ candidates rows) :
    row ∈ rows := by
  have found := firstOf_of_mem (candidates_keys_nodup rows) member
  rw [firstOf_candidates] at found
  cases absorbAll_source found with
  | inl absent => cases absent
  | inr offered => exact offered.1

/-- Each row of the batch has a candidate of its key at or above it. -/
theorem candidates_cover {rows : List (Row V)} {row : Row V} (member : row ∈ rows) :
    ∃ candidate ∈ candidates rows, candidate.key = row.key ∧ row.version ≤ candidate.version := by
  have covered :
      Covered (absorbAll Row.key Row.version (fun _ => none) rows) Row.version row.key
      row.version :=
    absorbAll_covers row member
  obtain ⟨candidate, found, above⟩ := covered
  rw [← firstOf_candidates] at found
  obtain ⟨chosen, own⟩ := firstOf_eq_some found
  exact ⟨candidate, chosen, own, above⟩

/-! ## Accepting rows -/

/-- The stored row of a key. -/
def NamespaceData.row (data : NamespaceData V) (key : String) : Option (Row V) :=
  (data.rows.lookup key).map fun stored => stored.toRow

theorem NamespaceData.accepts_iff (data : NamespaceData V) (row : Row V) :
    data.accepts row = true ↔ ∀ held, data.row row.key = some held →
      held.version < row.version := by
  cases stored : data.rows.lookup row.key with
  | none => simp [accepts, NamespaceData.row, stored]
  | some held => simp [accepts, NamespaceData.row, stored, compare_pos]

theorem NamespaceData.row_write (data : NamespaceData V) (row : Row V) :
    (data.write row).row = absorb Row.key Row.version data.row row := by
  funext key
  rw [write]
  split
  · rename_i accepted
    rw [accepts_iff] at accepted
    by_cases own : key = row.key
    · subst own
      rw [absorb_same]
      simp only [NamespaceData.row, AList.lookup_insert, Option.map_some, Option.some.injEq]
      cases stored : data.rows.lookup row.key with
      | none => rfl
      | some held =>
        have below := accepted held.toRow (by simp [NamespaceData.row, stored])
        simp [later, below]
    · rw [absorb_other _ own]
      simp only [NamespaceData.row, AList.lookup_insert_ne own]
  · rename_i refused
    by_cases own : key = row.key
    · subst own
      rw [absorb_same]
      rw [accepts_iff, not_forall] at refused
      obtain ⟨held, refused⟩ := refused
      rw [Classical.not_imp] at refused
      rw [refused.1, later, if_neg refused.2]
    · rw [absorb_other _ own]

theorem NamespaceData.row_accept (data : NamespaceData V) (rows : List (Row V)) :
    (data.accept rows).1.row = absorbAll Row.key Row.version data.row rows := by
  induction rows generalizing data with
  | nil => rfl
  | cons row rest inductionHypothesis =>
    show ((data.write row).accept rest).1.row = _
    rw [inductionHypothesis, row_write]
    rfl

@[simp] theorem NamespaceData.horizon_write (data : NamespaceData V) (row : Row V) :
    (data.write row).horizon = data.horizon := by
  rw [write]
  split <;> rfl

@[simp] theorem NamespaceData.horizon_accept (data : NamespaceData V) (rows : List (Row V)) :
    (data.accept rows).1.horizon = data.horizon := by
  induction rows generalizing data with
  | nil => rfl
  | cons row rest inductionHypothesis =>
      exact (inductionHypothesis _).trans (horizon_write data row)

@[simp] theorem NamespaceData.floor_write (data : NamespaceData V) (row : Row V) :
    (data.write row).floor = data.floor := by
  rw [write]
  split <;> rfl

@[simp] theorem NamespaceData.floor_accept (data : NamespaceData V) (rows : List (Row V)) :
    (data.accept rows).1.floor = data.floor := by
  induction rows generalizing data with
  | nil => rfl
  | cons row rest inductionHypothesis => exact (inductionHypothesis _).trans (floor_write data row)

/-- A batch that accepts nothing changes nothing. -/
theorem NamespaceData.accept_nothing {data : NamespaceData V} {rows : List (Row V)}
    (nothing : (data.accept rows).2 = []) : (data.accept rows).1 = data := by
  induction rows generalizing data with
  | nil => rfl
  | cons row rest inductionHypothesis =>
    rw [accept] at nothing ⊢
    cases accepted : data.accepts row with
    | true => simp [accepted] at nothing
    | false =>
      have same : data.write row = data := by simp [write, accepted]
      rw [same] at nothing ⊢
      simp only [accepted] at nothing
      exact inductionHypothesis nothing

/-! ## The calls -/

/-- The data a call works on. -/
def NamespaceState.data (state : NamespaceState V) : NamespaceData V := state.visible.getD .empty

/-- The candidates that are not stale. -/
def NamespaceData.live (data : NamespaceData V) (rows : List (Row V)) : List (Row V) :=
  (candidates rows).filter fun row => !data.stale row

/-- The data a batch would leave. -/
def NamespaceData.landing (data : NamespaceData V) (rows : List (Row V)) : NamespaceData V :=
  (data.accept (data.live rows)).1

/-- The rows a batch would make the namespace hold. -/
def NamespaceData.rowCount (data : NamespaceData V) (rows : List (Row V)) : Nat :=
  data.rows.entries.length + ((data.live rows).filter fun row =>
    (data.rows.lookup row.key).isNone).length

/-- A namespace whose file cannot be read, whether or not there is one. -/
def NamespaceState.unreadable (state : NamespaceState V) (faults : Faults) : Prop :=
  state.memory = none ∧ faults.read = true

theorem load_create (state : NamespaceState V) (faults : Faults) :
    state.load true faults = .ok state.data ∧ ¬ state.unreadable faults ∨
      state.load true faults = .error .unavailable ∧ state.unreadable faults := by
  cases memory : state.memory with
  | some held =>
    exact Or.inl ⟨by simp [NamespaceState.load, NamespaceState.data, NamespaceState.visible,
      memory],
      by simp [NamespaceState.unreadable, memory]⟩
  | none =>
    cases read : faults.read with
    | true =>
      exact Or.inr ⟨by simp [NamespaceState.load, memory, read], by simp [NamespaceState.unreadable,
        memory, read]⟩
    | false =>
      have readable : ¬ state.unreadable faults := by simp [NamespaceState.unreadable, read]
      cases file : state.file with
      | none =>
        exact Or.inl ⟨by simp [NamespaceState.load, NamespaceState.data, NamespaceState.visible,
          memory, file, read], readable⟩
      | some held =>
        exact Or.inl ⟨by simp [NamespaceState.load, NamespaceState.data, NamespaceState.visible,
          memory, file, read], readable⟩

section

variable (values : Values V) (limits : Limits)

/-- What an `Upsert` can do. -/
inductive Upserted (state : NamespaceState V) (rows : List (Row V)) (faults : Faults) :
    Answered V UpsertResult → Prop
  | unread (unreadable : state.unreadable faults) :
      Upserted state rows faults (.error .unavailable, state)
  | badRow (read : ¬ state.unreadable faults) (problem : StoreError)
      (found : rows.findSome? (rowError values limits) = some problem) :
      Upserted state rows faults (.error problem, ⟨some state.data, state.file⟩)
  | tooMany (read : ¬ state.unreadable faults)
      (valid : rows.findSome? (rowError values limits) = none)
      (beyond : limits.maxRows < state.data.rowCount rows) :
      Upserted state rows faults
        (.error (.rowLimit (state.data.rowCount rows) limits.maxRows),
          ⟨some state.data, state.file⟩)
  | idle (read : ¬ state.unreadable faults) (valid : rows.findSome? (rowError values limits) = none)
      (fits : state.data.rowCount rows ≤ limits.maxRows)
        (nothing : state.data.landing rows = state.data)
      (stale : List String) :
      Upserted state rows faults (.ok ⟨[], stale, state.data.revision⟩,
        ⟨some state.data, state.file⟩)
  | unsaved (read : ¬ state.unreadable faults)
      (valid : rows.findSome? (rowError values limits) = none)
      (fits : state.data.rowCount rows ≤ limits.maxRows)
        (some_accepted : (state.data.accept (state.data.live rows)).2 ≠ [])
      (step : SaveStep) (fault : faults.save = some step) :
      Upserted state rows faults (.error .unavailable,
        ⟨some state.data, if step.replaced then some (state.data.landing rows) else state.file⟩)
  | saved (read : ¬ state.unreadable faults)
      (valid : rows.findSome? (rowError values limits) = none)
      (fits : state.data.rowCount rows ≤ limits.maxRows)
        (some_accepted : (state.data.accept (state.data.live rows)).2 ≠ [])
      (fault : faults.save = none) (stale : List String) :
      Upserted state rows faults
        (.ok ⟨(state.data.accept (state.data.live rows)).2, stale,
          (state.data.landing rows).revision⟩,
          ⟨some (state.data.landing rows), some (state.data.landing rows)⟩)

theorem upserted (state : NamespaceState V) (rows : List (Row V)) (faults : Faults) :
    Upserted values limits state rows faults (upsert values limits state rows faults) := by
  rw [upsert]
  cases load_create state faults with
  | inr failed =>
    rw [failed.1]
    exact .unread failed.2
  | inl loaded =>
    obtain ⟨loaded, read⟩ := loaded
    rw [loaded]
    dsimp only
    cases valid : rows.findSome? (rowError values limits) with
    | some problem => exact .badRow read problem valid
    | none =>
      have live : ((candidates rows).partition state.data.stale).2 = state.data.live rows := by
        simp [NamespaceData.live, List.partition_eq_filter_filter, Function.comp_def]
      dsimp only
      rw [live]
      change Upserted values limits state rows faults
        (if limits.maxRows < state.data.rowCount rows then _ else _)
      split
      · rename_i beyond
        exact .tooMany read valid beyond
      · rename_i fits
        rw [not_lt] at fits
        split
        · rename_i nothing
          exact .idle read valid fits (NamespaceData.accept_nothing nothing) _
        · rename_i accepted
          cases fault : faults.save with
          | none => exact .saved read valid fits accepted fault _
          | some step => exact .unsaved read valid fits accepted step fault

end

/-- What a `Since` can do. -/
inductive Answers (state : NamespaceState V) (revision : Nat) (faults : Faults) :
    Answered V (Snapshot V) → Prop
  | failed (problem : StoreError) (absent : problem = .namespaceNotFound → state.visible = none) :
      Answers state revision faults (.error problem, state)
  | answered (known : state.visible = some state.data) :
      Answers state revision faults (.ok (state.data.since revision), ⟨some state.data, state.file⟩)

theorem load_plain (state : NamespaceState V) (faults : Faults) :
    (∃ problem, state.load false faults = .error problem ∧
    (problem = .namespaceNotFound → state.visible = none)) ∨
      state.load false faults = .ok state.data ∧ state.visible = some state.data ∧
        ¬ state.unreadable faults := by
  cases memory : state.memory with
  | some held =>
    have known : state.visible = some held := by simp [NamespaceState.visible, memory]
    exact Or.inr ⟨by simp [NamespaceState.load, NamespaceState.data, known, memory],
      by simp [NamespaceState.data, known], by simp [NamespaceState.unreadable, memory]⟩
  | none =>
    cases read : faults.read with
    | true => exact Or.inl ⟨.unavailable, by simp [NamespaceState.load, memory, read],
        fun absent => by cases absent⟩
    | false =>
      cases file : state.file with
      | none =>
        exact Or.inl ⟨.namespaceNotFound, by simp [NamespaceState.load, memory, file, read],
          fun _ => by simp [NamespaceState.visible, memory, file]⟩
      | some held =>
        have known : state.visible = some held := by simp [NamespaceState.visible, memory, file]
        exact Or.inr ⟨by simp [NamespaceState.load, NamespaceState.data, known, memory, file, read],
          by simp [NamespaceState.data, known], by simp [NamespaceState.unreadable, read]⟩

theorem answers (state : NamespaceState V) (revision : Nat) (faults : Faults) :
    Answers state revision faults (since state revision faults) := by
  rw [since]
  cases load_plain state faults with
  | inl failed =>
    obtain ⟨problem, failed, absent⟩ := failed
    rw [failed]
    exact .failed problem absent
  | inr loaded =>
    rw [loaded.1]
    exact .answered loaded.2.1

/-- The sweep comes to the rows of the namespace. -/
structure NamespaceState.Reached (state : NamespaceState V) (ns : String) (policy : SweepPolicy V)
    (faults : Faults) :
    Prop where
  listed : policy.namespaces ns = true
  file : state.file.isSome = true
  loaded : state.load false faults = .ok state.data
  known : state.visible = some state.data

/-- What a `Sweep` can do to one namespace. -/
inductive Swept (state : NamespaceState V) (ns : String) (policy : SweepPolicy V)
    (faults : Faults) :
    Answered V SweepResult → Prop
  | untouched (answer : Except StoreError SweepResult) :
      Swept state ns policy faults (answer, state)
  | nothing (reached : state.Reached ns policy faults) :
      Swept state ns policy faults (.ok ⟨state.data.revision, 0⟩, ⟨some state.data, state.file⟩)
  | unsaved (reached : state.Reached ns policy faults) (step : SaveStep)
      (fault : faults.save = some step) :
      Swept state ns policy faults (.error .unavailable,
        ⟨some state.data, if step.replaced then some (state.data.swept ns policy) else state.file⟩)
  | saved (reached : state.Reached ns policy faults) (fault : faults.save = none) (removed : Nat) :
      Swept state ns policy faults (.ok ⟨state.data.revision + 1, removed⟩,
        ⟨some (state.data.swept ns policy), some (state.data.swept ns policy)⟩)

theorem swept (state : NamespaceState V) (ns : String) (policy : SweepPolicy V) (faults : Faults) :
    Swept state ns policy faults (sweep state ns policy faults) := by
  rw [sweep]
  split
  · rename_i listed
    rw [Bool.and_eq_true] at listed
    rw [sweepNamespace]
    cases load_plain state faults with
    | inl failed =>
      obtain ⟨problem, failed, -⟩ := failed
      rw [failed]
      cases problem <;> exact .untouched _
    | inr loaded =>
      obtain ⟨loaded, known, _⟩ := loaded
      have reached : state.Reached ns policy faults := ⟨listed.1, listed.2, loaded, known⟩
      rw [loaded]
      dsimp only
      split
      · exact .nothing reached
      · cases fault : faults.save with
        | none => exact .saved reached fault _
        | some step => exact .unsaved reached step fault
  · exact .untouched _

theorem lookup_keepRows {keep : StoredRow V → Bool} {rows : AList fun _ : String => StoredRow V}
    {key : String}
    {stored : StoredRow V} :
    (keepRows keep rows).lookup key = some stored ↔ rows.lookup key = some stored ∧
    keep stored = true := by
  rw [← Option.mem_def, ← Option.mem_def, AList.mem_lookup_iff, AList.mem_lookup_iff]
  exact List.mem_filter

end

end AiConfig.Herder
