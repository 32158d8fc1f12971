import AiConfig.Herder.State.Rows

/-! # Calls one after another

The calls of a namespace in any order, each with its faults, and processes that stop and
start.  `Follows` says what later data keeps of earlier data; the data in memory never
follows the file, and what the file holds follows what is in memory. -/

namespace AiConfig.Herder

inductive Call (V : Type) where
  | upsert (rows : List (Row V)) (faults : Faults)
  | since (revision : Nat) (faults : Faults)
  | sweep (policy : SweepPolicy V) (faults : Faults)
  | restart

section

variable {V : Type}

def Call.run (values : Values V) (limits : Limits) (ns : String) (state : NamespaceState V) :
    Call V → NamespaceState V
  | .upsert rows faults => (Herder.upsert values limits state rows faults).2
  | .since revision faults => (Herder.since state revision faults).2
  | .sweep policy faults => (Herder.sweep state ns policy faults).2
  | .restart => Herder.restart state

/-- The rows a call takes out of the file. -/
def Call.removed (ns : String) (state : NamespaceState V) : Call V → List (Row V)
  | .sweep policy faults =>
    if policy.namespaces ns && state.file.isSome && faults.save.all SaveStep.replaced then
      match state.load false faults with
      | .ok data => (data.stored.map fun stored => stored.toRow).filter (policy.removes ns)
      | .error _ => []
    else []
  | .upsert _ _ | .since _ _ | .restart => []

/-! ## Well-formed data -/

structure NamespaceData.WellFormed (data : NamespaceData V) : Prop where
  keyed : ∀ key stored, data.rows.lookup key = some stored → stored.key = key
  bounded : ∀ key stored, data.rows.lookup key = some stored → stored.revision ≤ data.revision
  positive : ∀ key stored, data.rows.lookup key = some stored → 0 < stored.revision
  distinct : ∀ key stored other stored', data.rows.lookup key = some stored →
    data.rows.lookup other = some stored' →
    stored.revision = stored'.revision → key = other

theorem NamespaceData.wellFormed_empty : (NamespaceData.empty : NamespaceData V).WellFormed where
  keyed := fun _ _ found => by cases found
  bounded := fun _ _ found => by cases found
  positive := fun _ _ found => by cases found
  distinct := fun _ _ _ _ found => by cases found

theorem NamespaceData.lookup_write {data : NamespaceData V} {row : Row V} {key : String}
    {stored : StoredRow V}
    (found : (data.write row).rows.lookup key = some stored) :
    data.rows.lookup key = some stored ∧ (key ≠ row.key ∨ data.accepts row = false) ∨
      key = row.key ∧ stored = ⟨row, data.revision + 1⟩ ∧ data.accepts row = true := by
  cases accepted : data.accepts row with
  | true =>
    simp only [write, accepted, if_true] at found
    by_cases own : key = row.key
    · subst own
      rw [AList.lookup_insert, Option.some.injEq] at found
      exact Or.inr ⟨rfl, found.symm, rfl⟩
    · rw [AList.lookup_insert_ne own] at found
      exact Or.inl ⟨found, Or.inl own⟩
  | false =>
    simp only [write, accepted] at found
    exact Or.inl ⟨found, Or.inr rfl⟩

theorem NamespaceData.revision_write (data : NamespaceData V) (row : Row V) :
    (data.write row).revision = if data.accepts row then data.revision + 1 else data.revision := by
  rw [write]
  split <;> rfl

theorem NamespaceData.WellFormed.write {data : NamespaceData V} (sound : data.WellFormed)
    (row : Row V) :
    (data.write row).WellFormed := by
  constructor
  case keyed =>
    intro key stored found
    cases lookup_write found with
    | inl old => exact sound.keyed key stored old.1
    | inr new => rw [new.2.1, new.1]
  case bounded =>
    intro key stored found
    rw [revision_write]
    cases lookup_write found with
    | inl old =>
      have below := sound.bounded key stored old.1
      split <;> omega
    | inr new => rw [new.2.1, if_pos new.2.2]
  case positive =>
    intro key stored found
    cases lookup_write found with
    | inl old => exact sound.positive key stored old.1
    | inr new =>
      rw [new.2.1]
      exact Nat.succ_pos _
  case distinct =>
    intro key stored other stored' found found' same
    cases lookup_write found with
    | inl old =>
      have below := sound.bounded key stored old.1
      cases lookup_write found' with
      | inl old' => exact sound.distinct key stored other stored' old.1 old'.1 same
      | inr new' =>
        rw [new'.2.1] at same
        dsimp only at same
        omega
    | inr new =>
      cases lookup_write found' with
      | inl old' =>
        have below := sound.bounded other stored' old'.1
        rw [new.2.1] at same
        dsimp only at same
        omega
      | inr new' => exact new.1.trans new'.1.symm

theorem NamespaceData.WellFormed.accept {data : NamespaceData V} (sound : data.WellFormed)
    (rows : List (Row V)) :
    (data.accept rows).1.WellFormed := by
  induction rows generalizing data with
  | nil => exact sound
  | cons row rest inductionHypothesis => exact inductionHypothesis (sound.write row)

theorem NamespaceData.WellFormed.swept {data : NamespaceData V} (sound : data.WellFormed) (ns : String)
    (policy : SweepPolicy V) : (data.swept ns policy).WellFormed := by
  constructor
  case keyed => exact fun key stored found => sound.keyed key stored (lookup_keepRows.mp found).1
  case bounded =>
    exact fun key stored found => Nat.le_succ_of_le (sound.bounded key stored (lookup_keepRows.mp found).1)
  case positive => exact fun key stored found => sound.positive key stored (lookup_keepRows.mp found).1
  case distinct =>
    exact fun key stored other stored' found found' =>
      sound.distinct key stored other stored' (lookup_keepRows.mp found).1
        (lookup_keepRows.mp found').1

/-! ## Stored rows and answers -/

theorem lookup_of_stored {data : NamespaceData V} (sound : data.WellFormed) {stored : StoredRow V}
    (member : stored ∈ data.stored) : data.rows.lookup stored.key = some stored := by
  obtain ⟨entry, inside, same⟩ := List.mem_map.mp member
  have found : data.rows.lookup entry.1 = some entry.2 := by
    rw [← Option.mem_def, AList.mem_lookup_iff]
    exact inside
  rw [same] at found
  rw [sound.keyed entry.1 stored found]
  exact found

theorem mem_since {data : NamespaceData V} {revision : Nat} {row : Row V} :
    row ∈ (data.since revision).rows ↔
      ∃ stored ∈ data.stored, (revision < data.floor ∨ revision < stored.revision) ∧
        stored.toRow = row := by
  simp [NamespaceData.since, and_assoc]

/-! ## What later data keeps -/

/-- A row at this version of the key was removed. -/
def Outswept (removed : List (Row V)) (key : String) (version : Int ×ₗ String) : Prop :=
  ∃ row ∈ removed, row.key = key ∧ version ≤ row.version

theorem Outswept.mono {removed more : List (Row V)} {key : String} {version : Int ×ₗ String}
    (outswept : Outswept removed key version) (within : ∀ row ∈ removed, row ∈ more) :
    Outswept more key version := by
  obtain ⟨row, member, own, above⟩ := outswept
  exact ⟨row, within row member, own, above⟩

structure Follows (removed : List (Row V)) (before after : NamespaceData V) : Prop where
  revision : before.revision ≤ after.revision
  floor : after.floor = before.floor ∨ before.revision < after.floor
  old : ∀ key stored, after.rows.lookup key = some stored → stored.revision ≤ before.revision →
    before.rows.lookup key = some stored
  kept : ∀ key stored, before.rows.lookup key = some stored →
    (∃ later, after.rows.lookup key = some later ∧
      (later = stored ∨ stored.version < later.version)) ∨
      Outswept removed key stored.version

theorem Follows.refl (removed : List (Row V)) (data : NamespaceData V) :
    Follows removed data data where
  revision := le_rfl
  floor := Or.inl rfl
  old := fun _ _ found _ => found
  kept := fun _ stored found => Or.inl ⟨stored, found, Or.inl rfl⟩

theorem Follows.mono {removed more : List (Row V)} {before after : NamespaceData V}
    (follows : Follows removed before after) (within : ∀ row ∈ removed, row ∈ more) :
    Follows more before after where
  revision := follows.revision
  floor := follows.floor
  old := follows.old
  kept := fun key stored found => (follows.kept key stored found).imp_right fun outswept =>
    outswept.mono within

theorem Follows.trans {removed : List (Row V)} {a b c : NamespaceData V}
    (first : Follows removed a b)
    (second : Follows removed b c) : Follows removed a c := by
  constructor
  case revision => exact le_trans first.revision second.revision
  case floor =>
    cases second.floor with
    | inl same => exact same ▸ first.floor
    | inr raised => exact Or.inr (lt_of_le_of_lt first.revision raised)
  case old =>
    intro key stored found below
    exact first.old key stored (second.old key stored found (le_trans below first.revision)) below
  case kept =>
    intro key stored found
    cases first.kept key stored found with
    | inr outswept => exact Or.inr outswept
    | inl there =>
      obtain ⟨middle, held, above⟩ := there
      have climbs : stored.version ≤ middle.version :=
        above.elim (fun same => same ▸ le_rfl) le_of_lt
      cases second.kept key middle held with
      | inr outswept =>
        obtain ⟨row, member, own, beyond⟩ := outswept
        exact Or.inr ⟨row, member, own, le_trans climbs beyond⟩
      | inl still =>
        obtain ⟨last, ends, beyond⟩ := still
        refine Or.inl ⟨last, ends, ?_⟩
        cases beyond with
        | inl same => exact same ▸ above
        | inr higher => exact Or.inr (lt_of_le_of_lt climbs higher)

theorem follows_write (removed : List (Row V)) (data : NamespaceData V) (row : Row V) :
    Follows removed data (data.write row) := by
  constructor
  case revision =>
    rw [NamespaceData.revision_write]
    split <;> omega
  case floor => exact Or.inl (NamespaceData.floor_write data row)
  case old =>
    intro key stored found below
    cases NamespaceData.lookup_write found with
    | inl old => exact old.1
    | inr new =>
      -- the new row takes the next revision
      rw [new.2.1] at below
      dsimp only at below
      omega
  case kept =>
    intro key stored found
    left
    cases accepted : data.accepts row with
    | false =>
      refine ⟨stored, ?_, Or.inl rfl⟩
      simpa [NamespaceData.write, accepted] using found
    | true =>
      simp only [NamespaceData.write, accepted, if_true]
      by_cases own : key = row.key
      · subst own
        have newer :=
          (data.accepts_iff row).mp accepted stored.toRow (by simp [NamespaceData.row, found])
        exact ⟨_, AList.lookup_insert _, Or.inr newer⟩
      · exact ⟨stored, by rw [AList.lookup_insert_ne own, found], Or.inl rfl⟩

theorem follows_accept (removed : List (Row V)) (data : NamespaceData V) (rows : List (Row V)) :
    Follows removed data (data.accept rows).1 := by
  induction rows generalizing data with
  | nil => exact .refl removed data
  | cons row rest inductionHypothesis =>
    exact (follows_write removed data row).trans (inductionHypothesis (data.write row))

theorem mem_stored {data : NamespaceData V} {stored : StoredRow V} {key : String}
    (found : data.rows.lookup key = some stored) : stored ∈ data.stored := by
  rw [← Option.mem_def, AList.mem_lookup_iff] at found
  exact List.mem_map.mpr ⟨_, found, rfl⟩

theorem follows_swept {data : NamespaceData V} (sound : data.WellFormed) (ns : String)
    (policy : SweepPolicy V)
    {removed : List (Row V)}
    (lists : ∀ stored ∈ data.stored, policy.removes ns stored.toRow = true →
    stored.toRow ∈ removed) :
    Follows removed data (data.swept ns policy) := by
  constructor
  case revision => exact Nat.le_succ _
  case floor => exact Or.inr (Nat.lt_succ_self _)
  case old => exact fun key stored found _ => (lookup_keepRows.mp found).1
  case kept =>
    intro key stored found
    cases removes : policy.removes ns stored.toRow with
    | true => exact Or.inr ⟨stored.toRow, lists stored (mem_stored found) removes,
        sound.keyed key stored found, le_rfl⟩
    | false => exact Or.inl ⟨stored, lookup_keepRows.mpr ⟨found, by simp [removes]⟩, Or.inl rfl⟩

/-! ## Memory and file -/

/-- What a new process would find. -/
def NamespaceState.onDisk (state : NamespaceState V) : NamespaceData V := state.file.getD .empty

structure NamespaceState.Sound (state : NamespaceState V) (removed : List (Row V)) : Prop where
  data : state.data.WellFormed
  onDisk : state.onDisk.WellFormed
  ahead : Follows removed state.data state.onDisk

theorem sound_absent : (⟨none, none⟩ : NamespaceState V).Sound [] where
  data := NamespaceData.wellFormed_empty
  onDisk := NamespaceData.wellFormed_empty
  ahead := .refl _ _

theorem removed_sweep {state : NamespaceState V} {ns : String} {policy : SweepPolicy V}
    {faults : Faults}
    (reached : state.Reached ns policy faults)
    (replaces : faults.save.all SaveStep.replaced = true) :
    ∀ stored ∈ state.data.stored, policy.removes ns stored.toRow = true →
      stored.toRow ∈ (Call.sweep policy faults).removed ns state := by
  intro stored member removes
  simp only [Call.removed, reached.listed, reached.file, replaces, reached.loaded]
  exact List.mem_filter.mpr ⟨List.mem_map_of_mem member, removes⟩

/-- One call: the data seen follows what was seen before. -/
theorem NamespaceState.Sound.run {state : NamespaceState V} {removed : List (Row V)}
    (sound : state.Sound removed)
    (values : Values V) (limits : Limits) (ns : String) (call : Call V) :
    (call.run values limits ns state).Sound (removed ++ call.removed ns state) ∧
      Follows (removed ++ call.removed ns state) state.data
        (call.run values limits ns state).data := by
  have grows : ∀ row ∈ removed, row ∈ removed ++ call.removed ns state :=
    fun _ => List.mem_append_left _
  have ahead := sound.ahead.mono grows
  have taken : ∀ row ∈ call.removed ns state, row ∈ removed ++ call.removed ns state :=
    fun _ => List.mem_append_right _
  cases call with
  | upsert rows faults =>
    have landed := sound.data.accept (state.data.live rows)
    have moved := follows_accept (removed ++ (Call.upsert rows faults).removed ns state) state.data
      (state.data.live rows)
    have step := upserted values limits state rows faults
    simp only [Call.run]
    generalize Herder.upsert values limits state rows faults = answer at step ⊢
    cases step with
    | unread => exact ⟨⟨sound.data, sound.onDisk, ahead⟩, .refl _ _⟩
    | badRow => exact ⟨⟨sound.data, sound.onDisk, ahead⟩, .refl _ _⟩
    | tooMany => exact ⟨⟨sound.data, sound.onDisk, ahead⟩, .refl _ _⟩
    | idle => exact ⟨⟨sound.data, sound.onDisk, ahead⟩, .refl _ _⟩
    -- After the rename the file has what the memory lacks.
    | unsaved _ _ _ _ save =>
      refine ⟨?_, .refl _ _⟩
      cases save.replaced with
      | true => exact ⟨sound.data, landed, moved⟩
      | false => exact ⟨sound.data, sound.onDisk, ahead⟩
    | saved => exact ⟨⟨landed, landed, .refl _ _⟩, moved⟩
  | since revision faults =>
    have step := answers state revision faults
    simp only [Call.run]
    generalize Herder.since state revision faults = answer at step ⊢
    cases step with
    | failed => exact ⟨⟨sound.data, sound.onDisk, ahead⟩, .refl _ _⟩
    | answered => exact ⟨⟨sound.data, sound.onDisk, ahead⟩, .refl _ _⟩
  | sweep policy faults =>
    have step := swept state ns policy faults
    simp only [Call.run]
    generalize Herder.sweep state ns policy faults = answer at step ⊢
    cases step with
    | untouched => exact ⟨⟨sound.data, sound.onDisk, ahead⟩, .refl _ _⟩
    | nothing => exact ⟨⟨sound.data, sound.onDisk, ahead⟩, .refl _ _⟩
    | unsaved reached save fault =>
      refine ⟨?_, .refl _ _⟩
      cases replaced : save.replaced with
      | true =>
        have lists := removed_sweep reached (by simp [fault, replaced])
        exact ⟨sound.data, sound.data.swept ns policy,
          (follows_swept sound.data ns policy lists).mono taken⟩
      | false => exact ⟨sound.data, sound.onDisk, ahead⟩
    | saved reached fault =>
      have lists := removed_sweep reached (by simp [fault])
      have gone := sound.data.swept ns policy
      exact ⟨⟨gone, gone, .refl _ _⟩, (follows_swept sound.data ns policy lists).mono taken⟩
  | restart => exact ⟨⟨sound.onDisk, sound.onDisk, .refl _ _⟩, ahead⟩

/-- A relation that an upsert and a sweep of the data keep holds from the data seen before a
call to the data seen after it, and from there to the file. -/
theorem Call.run_ahead {relates : NamespaceData V → NamespaceData V → Prop}
    (refl : ∀ data, relates data data)
    (values : Values V) (limits : Limits) (ns : String) {state : NamespaceState V} (call : Call V)
    (ahead : relates state.data state.onDisk)
    (lands : ∀ rows, relates state.data (state.data.landing rows))
    (sweeps : ∀ policy faults, call = .sweep policy faults →
    relates state.data (state.data.swept ns policy)) :
    relates state.data (call.run values limits ns state).data ∧
      relates (call.run values limits ns state).data (call.run values limits ns state).onDisk := by
  cases call with
  | upsert rows faults =>
    have step := upserted values limits state rows faults
    simp only [Call.run]
    generalize Herder.upsert values limits state rows faults = answer at step ⊢
    cases step with
    | unread => exact ⟨refl _, ahead⟩
    | badRow => exact ⟨refl _, ahead⟩
    | tooMany => exact ⟨refl _, ahead⟩
    | idle => exact ⟨refl _, ahead⟩
    | unsaved _ _ _ _ save =>
      refine ⟨refl _, ?_⟩
      cases save.replaced with
      | true => exact lands rows
      | false => exact ahead
    | saved => exact ⟨lands rows, refl _⟩
  | since revision faults =>
    have step := answers state revision faults
    simp only [Call.run]
    generalize Herder.since state revision faults = answer at step ⊢
    cases step with
    | failed => exact ⟨refl _, ahead⟩
    | answered => exact ⟨refl _, ahead⟩
  | sweep policy faults =>
    have step := swept state ns policy faults
    simp only [Call.run]
    generalize Herder.sweep state ns policy faults = answer at step ⊢
    cases step with
    | untouched => exact ⟨refl _, ahead⟩
    | nothing => exact ⟨refl _, ahead⟩
    | unsaved _ save =>
      refine ⟨refl _, ?_⟩
      cases save.replaced with
      | true => exact sweeps policy faults rfl
      | false => exact ahead
    | saved => exact ⟨sweeps policy faults rfl, refl _⟩
  | restart => exact ⟨ahead, refl _⟩

end

end AiConfig.Herder
