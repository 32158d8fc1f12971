import AiConfig.Sesh.Index.Numbered

/-! # Dedup keys and their survivors

Every dedupe of the index is `dedupeWhere` of some scope on some table (`Dedupe`): the
whole table for a rebuild, one session for a component, the appended keys for a settled
file.  `unifyDedupe` names the one that an append runs, and `unify_eq` says that the
maintenance does nothing else but write ordinals.  Two things can go wrong: an appended
row may lie outside the scope (`Overlooked`), and texts of timestamps may compare the
other way than their instants (`Comparable`). -/

namespace AiConfig.Sesh

open AiConfig.Lib AiConfig.Sesh.Wire

structure Dedupe where
  scope : Row → Bool
  rows : List Row

def Dedupe.result (d : Dedupe) : List Row := dedupeWhere d.scope d.rows

/-- Whether a row is selected depends on its key only, and selected rows carry one. -/
structure Dedupe.Keyed (d : Dedupe) : Prop where
  keyed : ∀ row, d.scope row = true → row.keyed = true
  same : ∀ a b, a.keyed = true → b.keyed = true → a.dedupKey = b.dedupKey → d.scope a = d.scope b

/-- No two rows with a uuid share a key. -/
def UniqueKeys (rows : List Row) : Prop :=
  rows.Pairwise fun a b => a.keyed = true → b.keyed = true → a.dedupKey ≠ b.dedupKey

instance (rows : List Row) : Decidable (UniqueKeys rows) :=
  inferInstanceAs (Decidable (rows.Pairwise fun a b => a.keyed = true → b.keyed = true →
    a.dedupKey ≠ b.dedupKey))

/-! ## What a dedupe leaves -/

theorem preference_ne {a b : Row} (distinct : a.id ≠ b.id) : a.preference ≠ b.preference := by
  intro same
  simp only [Row.preference, toLex_inj, Prod.mk.injEq] at same
  exact distinct same.2.2.2.2.2.2

theorem mem_dedupeWhere {scope : Row → Bool} {rows : List Row} {row : Row} :
    row ∈ dedupeWhere scope rows ↔ row ∈ rows ∧ (scope row = true →
      ∀ other ∈ rows, scope other = true → other.dedupKey = row.dedupKey →
        ¬ other.preference < row.preference) := by
  simp only [dedupeWhere, outranked, List.mem_filter, Bool.not_eq_true', Bool.and_eq_false_iff, List.any_eq_false,
    Bool.and_eq_true, decide_eq_true_eq, not_and]
  constructor
  · rintro ⟨member, first⟩
    refine ⟨member, fun inside other listed selected same => ?_⟩
    cases first with
    | inl outside => simp [inside] at outside
    | inr first => exact first other listed ⟨selected, same⟩
  · rintro ⟨member, first⟩
    refine ⟨member, ?_⟩
    cases inside : scope row with
    | false => exact Or.inl rfl
    | true => exact Or.inr fun other listed selected => first inside other listed selected.1 selected.2

theorem distinct_ids {rows : List Row} (ids : (rows.map (·.id)).Nodup) :
    rows.Pairwise fun a b => a.id ≠ b.id :=
  List.pairwise_map.mp ids

/-- Keys are unique after a dedupe that selects every pair sharing one. -/
theorem dedupe_unique {d : Dedupe} (ids : (d.rows.map (·.id)).Nodup)
    (covers : d.rows.Pairwise fun a b => a.keyed = true → b.keyed = true → a.dedupKey = b.dedupKey →
      d.scope a = true ∧ d.scope b = true) : UniqueKeys d.result := by
  have pairs := (distinct_ids ids).and covers
  refine (pairs.sublist List.filter_sublist).imp_of_mem fun {a b} first second apart keyedA keyedB
    same => ?_
  obtain ⟨distinct, covered⟩ := apart
  obtain ⟨scopeA, scopeB⟩ := covered keyedA keyedB same
  have keptA := (mem_dedupeWhere.mp first)
  have keptB := (mem_dedupeWhere.mp second)
  rcases lt_or_gt_of_ne (preference_ne distinct) with before | after
  · exact keptB.2 scopeB a keptA.1 scopeA same before
  · exact keptA.2 scopeA b keptB.1 scopeB same.symm after

/-- Two dedupes in a row are one, when they treat the rows of a key alike. -/
theorem dedupeWhere_dedupeWhere {first second : Row → Bool}
    (alike : ∀ a b, a.dedupKey = b.dedupKey → (first a || second a) = true →
    (first b || second b) = true →
      first a = first b ∧ second a = second b) (rows : List Row) :
    dedupeWhere second (dedupeWhere first rows) =
      dedupeWhere (fun row => first row || second row) rows := by
  simp only [dedupeWhere, List.filter_filter]
  apply List.filter_congr
  intro row member
  rw [Bool.eq_iff_iff]
  simp only [outranked, Bool.and_eq_true, Bool.not_eq_true', Bool.and_eq_false_iff,
    List.any_eq_false,
    List.mem_filter, decide_eq_true_eq, not_and, Bool.or_eq_false_iff]
  constructor
  · rintro ⟨late, early⟩
    by_cases chosen : first row = true
    · right
      rintro other listed ⟨selected, same⟩
      have agree := alike other row same selected (by simp [chosen])
      cases early with
      | inl unchosen => simp [chosen] at unchosen
      | inr early => exact early other listed ⟨by rw [agree.1, chosen], same⟩
    · rw [Bool.not_eq_true] at chosen
      cases late with
      | inl outside => exact Or.inl ⟨chosen, outside⟩
      | inr late =>
        by_cases inside : second row = true
        · right
          rintro other listed ⟨selected, same⟩
          have agree := alike other row same selected (by simp [inside])
          exact late other ⟨listed, Or.inl (by rw [agree.1, chosen])⟩
            ⟨by rw [agree.2, inside], same⟩
        · rw [Bool.not_eq_true] at inside
          exact Or.inl ⟨chosen, inside⟩
  · intro kept
    cases kept with
    | inl outside => exact ⟨Or.inl outside.2, Or.inl outside.1⟩
    | inr kept =>
      refine ⟨Or.inr fun other listed selected => ?_, Or.inr fun other listed selected => ?_⟩
      · exact kept other listed.1 ⟨by simp [selected.1], selected.2⟩
      · exact kept other listed ⟨by simp [selected.1], selected.2⟩

/-! ## The dedupe of an append -/

/-- The appended rows whose keys are looked up: one for each text of `seen`. -/
def appendedKeys : List String → List IndexedMessage → List IndexedMessage
  | _, [] => []
  | seen, row :: rest =>
    if !row.keyed || row.seenKey ∈ seen then appendedKeys seen rest
    else row :: appendedKeys (row.seenKey :: seen) rest

def IndexedMessage.sameKey (row other : IndexedMessage) : Bool :=
  row.entryType = other.entryType && row.messageUUID = other.messageUUID

def settledScope (tool : Tool) (logical : String) (keys : List IndexedMessage) (row : Row) : Bool :=
  !row.quarantine && row.tool = tool && row.logicalSessionID = logical && keys.any fun key =>
    row.sameKey key

def logicalScope (tool : Tool) (logical : String) (row : Row) : Bool :=
  row.keyed && row.tool = tool && row.logicalSessionID = logical

theorem appendedKeys_keyed {seen : List String} {appended : List IndexedMessage} :
    ∀ key ∈ appendedKeys seen appended, key.keyed = true := by
  induction appended generalizing seen with
  | nil => simp [appendedKeys]
  | cons row rest inductionHypothesis =>
    intro key member
    rw [appendedKeys] at member
    split at member
    · exact inductionHypothesis key member
    · rename_i chosen
      simp only [Bool.or_eq_true, Bool.not_eq_true', decide_eq_true_eq, not_or,
        Bool.not_eq_false] at chosen
      cases List.mem_cons.mp member with
      | inl same => exact same ▸ chosen.1
      | inr later => exact inductionHypothesis key later

theorem sameKey_iff {row other : IndexedMessage} :
    row.sameKey other = true ↔ row.entryType = other.entryType ∧
      row.messageUUID = other.messageUUID := by
  simp [IndexedMessage.sameKey]

theorem dedupeAppendedKeys_eq (tool : Tool) (logical : String) (seen : List String)
    (appended : List IndexedMessage)
    (rows : List Row) : dedupeAppendedKeys tool logical seen appended rows =
      dedupeWhere (settledScope tool logical (appendedKeys seen appended)) rows := by
  induction appended generalizing seen rows with
  | nil => simp [dedupeAppendedKeys, appendedKeys, dedupeWhere, outranked, settledScope]
  | cons row rest inductionHypothesis =>
    rw [dedupeAppendedKeys, appendedKeys]
    split
    · exact inductionHypothesis seen rows
    · rw [inductionHypothesis, dedupeLogicalKey, dedupeWhere_dedupeWhere]
      · congr 1
        funext other
        simp only [settledScope, List.any_cons, IndexedMessage.sameKey]
        grind
      · intro a b same selectedA selectedB
        simp only [Row.dedupKey, Prod.mk.injEq] at same
        simp only [settledScope, IndexedMessage.sameKey, same.1, same.2.1, same.2.2.1,
          same.2.2.2] at selectedA selectedB ⊢
        grind

/-- What the maintenance of an append selects from, and the table it does so on. -/
def unifyDedupe (store : Store) (naive : Bool) (gen : GenKey) (appended : List IndexedMessage)
    (placement : Option FilePlacement) (rows : List Row) : Option Dedupe :=
  match fileSummary store gen rows with
  | none => none
  | some start =>
    match settledPlacement store naive gen placement rows with
    | some placement =>
      some ⟨settledScope gen.identity.tool placement.logical (appendedKeys [] appended), rows⟩
    | none =>
      match sortFiles (connectedFiles store rows start) with
      | [] => none
      | first :: rest => some ⟨logicalScope first.gen.identity.tool (canonicalID first),
          placeComponent (canonicalID first) (first :: rest) rows⟩

/-- A row without its ordinal. -/
def Row.unnumbered (row : Row) : Row := { row with fileOrdinal := 0 }

theorem updateFileOrdinalsFrom_unnumbered (ordinal : Nat) (group : List FileSummary)
    (rows : List Row) :
    (updateFileOrdinalsFrom ordinal group rows).map Row.unnumbered = rows.map Row.unnumbered := by
  induction group generalizing ordinal rows with
  | nil => rfl
  | cons f rest inductionHypothesis =>
    rw [updateFileOrdinalsFrom, inductionHypothesis, updateFileOrdinal, List.map_map]
    apply List.map_congr_left
    intro row _
    simp only [Function.comp_apply]
    split <;> rfl

/-- The maintenance of an append is its dedupe, ordinals aside. -/
theorem unify_eq (store : Store) (naive : Bool) (gen : GenKey) (appended : List IndexedMessage)
    (placement : Option FilePlacement) (rows : List Row) :
    (unifyConnectedLogicalSessions store naive gen appended placement rows).map Row.unnumbered =
      match unifyDedupe store naive gen appended placement rows with
      | none => rows.map Row.unnumbered
      | some d => d.result.map Row.unnumbered := by
  unfold unifyConnectedLogicalSessions unifyDedupe
  cases fileSummary store gen rows with
  | none => rfl
  | some start =>
    simp only
    cases settledPlacement store naive gen placement rows with
    | some placement =>
      simp only [maintainSettled, Dedupe.result, ← dedupeAppendedKeys_eq]
      split
      · exact updateFileOrdinalsFrom_unnumbered 0 _ _
      · rfl
    | none =>
      simp only [unifyComponent]
      cases sortFiles (connectedFiles store rows start) with
      | nil => rfl
      | cons first rest => exact updateFileOrdinalsFrom_unnumbered 0 _ _

/-! ## Scopes -/

theorem keyed_iff {row : IndexedMessage} : row.keyed = true ↔ row.quarantine = false ∧
    row.messageUUID ≠ "" := by
  simp [IndexedMessage.keyed]

theorem settledScope_keyed (tool : Tool) (logical : String) {keys : List IndexedMessage}
    (carried : ∀ key ∈ keys, key.keyed = true) (rows : List Row) :
    Dedupe.Keyed ⟨settledScope tool logical keys, rows⟩ where
  keyed row selected := by
    simp only [settledScope, Bool.and_eq_true, Bool.not_eq_true', List.any_eq_true] at selected
    obtain ⟨⟨⟨unheld, _⟩, _⟩, key, member, same⟩ := selected
    rw [keyed_iff, (sameKey_iff.mp same).2]
    exact ⟨unheld, (keyed_iff.mp (carried key member)).2⟩
  same a b keyedA keyedB same := by
    simp only [Row.dedupKey, Prod.mk.injEq] at same
    simp [settledScope, IndexedMessage.sameKey, same, (keyed_iff.mp keyedA).1,
      (keyed_iff.mp keyedB).1]

theorem logicalScope_keyed (tool : Tool) (logical : String) (rows : List Row) :
    Dedupe.Keyed ⟨logicalScope tool logical, rows⟩ where
  keyed row selected := by
    simp only [logicalScope, Bool.and_eq_true] at selected
    exact selected.1.1
  same a b keyedA keyedB same := by
    simp only [Row.dedupKey, Prod.mk.injEq] at same
    simp [logicalScope, same, keyedA, keyedB]

/-! ## The component of a file -/

section

variable {store : Store} {rows : List Row}

theorem mem_groups {gen : GenKey} : gen ∈ groups rows ↔ ∃ row ∈ rows, row.gen = gen := by
  simp [groups, List.mem_insertionSort]

theorem mem_summaries {f : FileSummary} (member : f ∈ summaries store rows) :
    ∃ row ∈ rows, row.gen = f.gen := by
  simp only [summaries, List.mem_map] at member
  obtain ⟨gen, listed, rfl⟩ := member
  exact mem_groups.mp listed

/-- Every file of a component has the tool of the file it starts from. -/
theorem connectedFiles_tool (start : FileSummary) :
    ∀ f ∈ connectedFiles store rows start, f.gen.identity.tool = start.gen.identity.tool := by
  refine @explore_induct _ _ _ _ _
    (fun f : FileSummary => f.gen.identity.tool = start.gen.identity.tool) ?_ _ _ _ ?_ ?_
  · intro f known found reached
    rw [← known]
    cases List.mem_append.mp reached with
    | inl same =>
      obtain ⟨row, selected, owned⟩ := mem_summaries same
      simp only [List.mem_filter, Bool.and_eq_true, decide_eq_true_eq] at selected
      rw [← owned]
      exact selected.2.1.2
    | inr overlapping =>
      obtain ⟨row, selected, owned⟩ := mem_summaries (List.mem_filter.mp overlapping).1
      simp only [overlapRows, List.mem_filter, Bool.and_eq_true, List.any_eq_true,
        decide_eq_true_eq,
        IndexedMessage.overlapKey, Prod.mk.injEq] at selected
      obtain ⟨_, _, seed, _, ⟨_, seedOwned⟩, sameTool, _⟩ := selected
      rw [← owned, ← seedOwned]
      exact sameTool.symm
  · simp
  · simp

theorem start_connected (start : FileSummary) : start ∈ connectedFiles store rows start :=
  subset_explore start (List.mem_singleton_self start)

theorem mem_sortFiles {group : List FileSummary} {f : FileSummary} :
    f ∈ sortFiles group ↔ f ∈ group :=
  List.mem_insertionSort _

theorem relabelFiles_eq (canonical : String) (group : List FileSummary) (rows : List Row) :
    relabelFiles canonical group rows = rows.map fun row =>
      if row.gen ∈ group.map (·.gen) then { row with logicalSessionID := canonical } else row := by
  induction group generalizing rows with
  | nil => simp [relabelFiles]
  | cons f rest inductionHypothesis =>
    have step : relabelFiles canonical (f :: rest) rows =
      relabelFiles canonical rest (relabelFile canonical f.gen rows) := rfl
    rw [step, inductionHypothesis, relabelFile, List.map_map]
    apply List.map_congr_left
    intro row _
    simp only [Function.comp_apply, List.map_cons, List.mem_cons]
    by_cases own : row.gen = f.gen
    · simp only [own, if_true, true_or]
      split <;> rfl
    · simp [own]

theorem fileSummary_none {gen : GenKey} (missing : fileSummary store gen rows = none) :
    ∀ row ∈ rows, row.gen = gen → row.quarantine = true := by
  intro row member owned
  by_contra unheld
  have selected : row ∈ rows.filter fun row => !row.quarantine && row.gen = gen :=
    List.mem_filter.mpr ⟨member, by simp [unheld, owned]⟩
  have listed : gen ∈ groups (rows.filter fun row => !row.quarantine && row.gen = gen) :=
    mem_groups.mpr ⟨row, selected, owned⟩
  rw [fileSummary, List.head?_eq_none_iff, summaries, List.map_eq_nil_iff] at missing
  rw [missing] at listed
  exact List.not_mem_nil listed

end

/-! ## Uniqueness across an append -/

/-- An appended row outside the scope shares its key with another row. -/
def Overlooks (seq : Nat) (d : Dedupe) : Prop :=
  ∃ a ∈ d.rows, seq < a.id ∧ a.keyed = true ∧ d.scope a = false ∧
    ∃ b ∈ d.rows, b.id ≠ a.id ∧ b.keyed = true ∧ b.dedupKey = a.dedupKey

theorem UniqueKeys.unnumbered {rows other : List Row} (unique : UniqueKeys rows)
    (same : other.map Row.unnumbered = rows.map Row.unnumbered) : UniqueKeys other := by
  have lifted : ∀ l : List Row, UniqueKeys l ↔ UniqueKeys (l.map Row.unnumbered) := by
    intro l
    rw [UniqueKeys, UniqueKeys, List.pairwise_map]
    rfl
  rw [lifted, same, ← lifted]
  exact unique

end AiConfig.Sesh
