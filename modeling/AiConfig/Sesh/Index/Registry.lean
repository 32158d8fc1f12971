import AiConfig.Sesh.Index.Node

/-! # What the index reads of the store

The mirrored bytes of a generation below its high-water, which no step of the store
changes (`Advances`). -/

namespace AiConfig.Sesh

open AiConfig.Lib AiConfig.Sesh.Wire

def Store.mirrorOf (store : Store) (gen : GenKey) : Bytes :=
  store.mirrored gen.identity gen.generation

def FileState.key (row : FileState) : GenKey := ⟨row.identity, row.generation⟩

section

variable {store store' : Store} {gen : GenKey} {row : FileState}

theorem isGeneration_iff : row.isGeneration gen.identity gen.generation = true ↔ row.key = gen := by
  cases gen
  simp [FileState.isGeneration, FileState.key]

/-- The rows of `files` have distinct keys. -/
theorem file_unique (wellFormed : store.WellFormed) {other : FileState} (first : row ∈ store.files)
    (second : other ∈ store.files) (same : row.key = other.key) : row = other := by
  simp only [FileState.key, GenKey.mk.injEq] at same
  have viewed : ∀ {r : FileState}, r ∈ store.files → r.identity = row.identity →
      (⟨r, store.mirrored row.identity r.generation⟩ : Generation) ∈ store.view row.identity :=
    fun member owned => mem_view.mpr ⟨member, owned, rfl⟩
  have equal :=
    (wellFormed row.identity).unique (viewed first rfl) (viewed second same.1.symm) same.2
  exact congrArg Generation.row equal

theorem find_file (wellFormed : store.WellFormed) (member : row ∈ store.files) :
    store.files.find? (·.isGeneration row.key.identity row.key.generation) = some row := by
  cases found : store.files.find? (·.isGeneration row.key.identity row.key.generation) with
  | none =>
    have missed := List.find?_eq_none.mp found row member
    exact absurd (isGeneration_iff.mpr rfl) missed
  | some other =>
    have holds := List.find?_some found
    have same := isGeneration_iff.mp holds
    rw [file_unique wellFormed (List.mem_of_find?_eq_some found) member same]

theorem highWater_eq (wellFormed : store.WellFormed) (member : row ∈ store.files) :
    store.highWater row.key = row.highWater := by
  rw [Store.highWater, find_file wellFormed member]
  rfl

/-- A generation without a row has mirrored nothing yet. -/
theorem highWater_cases (store : Store) (gen : GenKey) :
    store.highWater gen = 0 ∨ ∃ row ∈ store.files, row.key = gen ∧
      store.highWater gen = row.highWater := by
  unfold Store.highWater
  cases found : store.files.find? (·.isGeneration gen.identity gen.generation) with
  | none => exact Or.inl rfl
  | some row =>
    have holds := List.find?_some found
    exact Or.inr ⟨row, List.mem_of_find?_eq_some found, isGeneration_iff.mp holds, rfl⟩

theorem highWater_le (wellFormed : store.WellFormed) (gen : GenKey) :
    store.highWater gen ≤ (store.mirrorOf gen).length := by
  rcases highWater_cases store gen with zero | ⟨row, member, rfl, evaluated⟩
  · rw [zero]
    exact Nat.zero_le _
  · rw [evaluated]
    exact (wellFormed row.identity).covered ⟨row, _⟩ (mem_view.mpr ⟨member, rfl, rfl⟩)

/-- What was mirrored stays as it was. -/
def Store.Advances (store store' : Store) : Prop :=
  ∀ gen, store.highWater gen ≤ store'.highWater gen ∧
    (store'.mirrorOf gen).take (store.highWater gen) =
      (store.mirrorOf gen).take (store.highWater gen)

theorem Store.Advances.refl (store : Store) : store.Advances store := fun _ => ⟨Nat.le_refl _, rfl⟩

theorem Store.Advances.trans {first second third : Store} (one : first.Advances second)
    (two : second.Advances third) : first.Advances third := by
  intro gen
  obtain ⟨grows, bytes⟩ := one gen
  obtain ⟨grows', bytes'⟩ := two gen
  refine ⟨Nat.le_trans grows grows', ?_⟩
  have cut := congrArg (List.take (first.highWater gen)) bytes'
  rw [List.take_take, List.take_take, Nat.min_eq_left grows] at cut
  rw [cut, bytes]

theorem apply_advances (wellFormed : store.WellFormed) (op : Op) :
    store.Advances (store.apply op) := by
  intro gen
  rcases highWater_cases store gen with zero | ⟨row, member, rfl, evaluated⟩
  · rw [zero]
    exact ⟨Nat.zero_le _, rfl⟩
  · obtain ⟨row', member', owned, numbered, grows, bytes⟩ :=
      store_extends (fun id => apply_extends wellFormed op id) row member
    have key : row'.key = row.key := by rw [FileState.key, owned, numbered, FileState.key]
    rw [evaluated, ← key, highWater_eq (apply_wellFormed wellFormed op) member', key]
    exact ⟨grows, bytes⟩

/-! ## Marking dirty -/

theorem setDirty_highWater (store : Store) (gen other : GenKey) (dirty : Bool) :
    (store.setDirty gen dirty).highWater other = store.highWater other := by
  simp only [Store.setDirty, Store.updateFiles, Store.highWater, List.find?_map]
  have same :
      ((fun row : FileState => row.isGeneration other.identity other.generation) ∘
      fun row : FileState =>
      if row.isGeneration gen.identity gen.generation then
        { row with dirtyForReindex := dirty } else row) =
      fun row => row.isGeneration other.identity other.generation := by
    funext row
    simp only [Function.comp_apply]
    split <;> rfl
  rw [same]
  cases store.files.find? fun row => row.isGeneration other.identity other.generation with
  | none => rfl
  | some row =>
    simp only [Option.map_some, Option.getD_some]
    split <;> rfl

theorem setDirty_advances (store : Store) (gen : GenKey) (dirty : Bool) :
    store.Advances (store.setDirty gen dirty) :=
  fun other => ⟨Nat.le_of_eq (setDirty_highWater store gen other dirty).symm, rfl⟩

theorem setDirty_wellFormed (wellFormed : store.WellFormed) (gen : GenKey) (dirty : Bool) :
    (store.setDirty gen dirty).WellFormed := by
  intro id
  have sound := wellFormed id
  rw [Store.setDirty, view_updateFiles store _ (fun row => { row with dirtyForReindex := dirty })
    (fun _ => ⟨rfl, rfl⟩)]
  refine ⟨?_, ?_, ?_⟩
  · rw [List.pairwise_map]
    refine sound.ascending.imp fun {a b} less => ?_
    split <;> split <;> exact less
  all_goals
    intro g member
    obtain ⟨old, oldMember, rfl⟩ := List.mem_map.mp member
  · split
    · exact sound.covered old oldMember
    · exact sound.covered old oldMember
  · split
    · exact sound.owned old oldMember
    · exact sound.owned old oldMember

end

end AiConfig.Sesh
