import AiConfig.Sesh.Store.Put

/-! # The generations of one identity

Everything `putBytes` decides for a request depends on the rows of its identity
and on their mirror files.  `Store.view` is that part of the store: the rows in
ascending order, each with its mirrored bytes.  The lemmas here say how each
statement of the write path changes the view of its own identity, and that it
changes no other view. -/

namespace AiConfig.Sesh

open AiConfig.Sesh.Wire

structure Generation where
  row : FileState
  bytes : Bytes
  deriving DecidableEq, Repr

def Store.view (store : Store) (id : Identity) : List Generation :=
  (store.files.filter (·.identity = id)).map fun row => ⟨row, store.mirrored id row.generation⟩

/-- A view a store can hold: generations are numbered upwards, and every recorded
    high-water is covered by mirrored bytes. -/
structure Sound (id : Identity) (gens : List Generation) : Prop where
  ascending : gens.Pairwise fun a b => a.row.generation < b.row.generation
  covered : ∀ g ∈ gens, g.row.highWater ≤ g.bytes.length
  owned : ∀ g ∈ gens, g.row.identity = id

def Store.WellFormed (store : Store) : Prop := ∀ id, Sound id (store.view id)

theorem Store.empty_wellFormed : Store.empty.WellFormed :=
  fun _ => ⟨List.Pairwise.nil, fun _ member => (List.not_mem_nil member).elim,
    fun _ member => (List.not_mem_nil member).elim⟩

theorem Sound.nil (id : Identity) : Sound id [] := Store.empty_wellFormed id

/-! ## Reading through the view -/

theorem view_owned {store : Store} {id : Identity} {g : Generation} (member : g ∈ store.view id) :
    g.row.identity = id := by
  simp only [Store.view, List.mem_map, List.mem_filter, decide_eq_true_eq] at member
  obtain ⟨row, ⟨_, owned⟩, rfl⟩ := member
  exact owned

theorem view_bytes {store : Store} {id : Identity} {g : Generation} (member : g ∈ store.view id) :
    store.mirrored id g.row.generation = g.bytes := by
  simp only [Store.view, List.mem_map] at member
  obtain ⟨row, _, rfl⟩ := member
  rfl

theorem generations_eq_view {store : Store} {id : Identity} (sound : Sound id (store.view id)) :
    store.generations id none = (store.view id).map Generation.row := by
  have rows : (store.view id).map Generation.row = store.files.filter (·.identity = id) := by
    simp [Store.view, Function.comp_def]
  have sorted : (store.files.filter (·.identity = id)).Pairwise sameGeneration := by
    rw [← rows, List.pairwise_map]
    exact sound.ascending.imp fun less => Nat.le_of_lt less
  rw [rows, Store.generations]
  simpa using sorted.insertionSort_eq

theorem any_file_iff (store : Store) (id : Identity) (test : FileState → Bool) :
    (store.files.any fun row => row.identity = id && test row) =
    (store.view id).any (test ·.row) := by
  rw [Bool.eq_iff_iff]
  simp only [List.any_eq_true, Store.view, List.mem_map, List.mem_filter, Bool.and_eq_true,
    decide_eq_true_eq]
  constructor
  · rintro ⟨row, member, owned, holds⟩
    exact ⟨⟨row, _⟩, ⟨row, ⟨member, owned⟩, rfl⟩, holds⟩
  · rintro ⟨_, ⟨row, ⟨member, owned⟩, rfl⟩, holds⟩
    exact ⟨row, member, owned, holds⟩

/-! ## Writing through the view -/

/-- Change the generation numbered `n`. -/
def adjust (n : Nat) (change : Generation → Generation) (gens : List Generation) :
    List Generation :=
  gens.map fun g => if g.row.generation = n then change g else g

theorem view_updateFiles (store : Store) (matching : FileState → Bool)
    (change : FileState → FileState)
    (keeps : ∀ row, (change row).identity = row.identity ∧ (change row).generation = row.generation)
    (id : Identity) :
    (store.updateFiles matching change).view id =
      (store.view id).map fun g => if matching g.row then
      { g with row := change g.row } else g := by
  have lookup : ∀ n, (store.updateFiles matching change).mirrored id n = store.mirrored id n :=
    fun _ => rfl
  simp only [Store.view, lookup, List.map_map]
  simp only [Store.updateFiles]
  induction store.files with
  | nil => rfl
  | cons row rows inductionHypothesis =>
    have owner : (if matching row then change row else row).identity = row.identity := by
      split
      · exact (keeps row).1
      · rfl
    simp only [List.map_cons, List.filter_cons, owner]
    split
    · simp only [List.map_cons, inductionHypothesis, Function.comp_apply, List.cons.injEq, and_true]
      split
      · rw [(keeps row).2]
      · rfl
    · exact inductionHypothesis

theorem view_updateTarget (store : Store) (change : FileState → FileState)
    (keeps : ∀ row, (change row).identity = row.identity ∧ (change row).generation = row.generation)
    (target : FileState) (id : Identity) :
    (store.updateFiles (·.isGeneration target.identity target.generation) change).view id =
      if target.identity = id then
        adjust target.generation (fun g => { g with row := change g.row }) (store.view id)
      else store.view id := by
  rw [view_updateFiles store _ _ keeps]
  split
  · rename_i owner
    apply List.map_congr_left
    intro g member
    simp [FileState.isGeneration, view_owned member, owner]
  · rename_i foreign
    have distinct : ¬ id = target.identity := fun same => foreign same.symm
    calc (store.view id).map _ = (store.view id).map fun g => g := by
          apply List.map_congr_left
          intro g member
          simp [FileState.isGeneration, view_owned member, distinct]
      _ = store.view id := List.map_id' _

theorem view_insertFile (store : Store) (row : FileState) (id : Identity) :
    (store.insertFile row).view id =
      if row.identity = id then store.view id ++ [⟨row, store.mirrored id row.generation⟩]
      else store.view id := by
  have lookup : ∀ n, (store.insertFile row).mirrored id n = store.mirrored id n := fun _ => rfl
  simp only [Store.view, lookup]
  simp only [Store.insertFile, List.filter_append, List.map_append]
  split <;> simp_all

theorem view_setMirror (store : Store) (owner : Identity) (n : Nat) (content : Bytes)
    (id : Identity) :
    (store.setMirror (mirrorPath owner n) content).view id =
      if owner = id then adjust n (fun g => { g with bytes := content }) (store.view id)
      else store.view id := by
  have lookup : ∀ m, (store.setMirror (mirrorPath owner n) content).mirrored id m =
      if owner = id ∧ n = m then content else store.mirrored id m := by
    intro m
    simp only [Store.mirrored, Store.setMirror, Function.update_apply]
    by_cases same : mirrorPath id m = mirrorPath owner n
    · obtain ⟨rfl, rfl⟩ := mirrorPath_injective same
      simp
    · have apart : ¬ (owner = id ∧ n = m) := by
        rintro ⟨rfl, rfl⟩
        exact same rfl
      rw [if_neg same, if_neg apart]
  have kept : (store.setMirror (mirrorPath owner n) content).files = store.files := rfl
  simp only [Store.view, lookup, kept, adjust]
  split
  · rename_i owned
    simp only [List.map_map, owned, true_and]
    apply List.map_congr_left
    intro row _
    simp only [Function.comp_apply]
    by_cases same : n = row.generation
    · simp [same]
    · have apart : ¬ row.generation = n := fun equal => same equal.symm
      simp [same, apart]
  · rename_i foreign
    simp [foreign]

/-! ## The adjusted generation -/

@[simp] theorem adjust_length (n : Nat) (change : Generation → Generation)
    (gens : List Generation) :
    (adjust n change gens).length = gens.length := List.length_map _

theorem mem_adjust {n : Nat} {change : Generation → Generation} {gens : List Generation}
    {g : Generation} :
    g ∈ adjust n change gens ↔
      ∃ old ∈ gens, (old.row.generation = n ∧ g = change old) ∨
        (old.row.generation ≠ n ∧ g = old) := by
  simp only [adjust, List.mem_map]
  constructor
  · rintro ⟨old, member, rfl⟩
    refine ⟨old, member, ?_⟩
    by_cases same : old.row.generation = n <;> simp [same]
  · rintro ⟨old, member, ⟨same, rfl⟩ | ⟨other, rfl⟩⟩
    · exact ⟨old, member, by simp [same]⟩
    · exact ⟨g, member, by simp [other]⟩

theorem adjust_congr {n : Nat} {change change' : Generation → Generation} {gens : List Generation}
    (agree : ∀ g ∈ gens, g.row.generation = n → change g = change' g) :
    adjust n change gens = adjust n change' gens := by
  apply List.map_congr_left
  intro g member
  split
  · exact agree g member ‹_›
  · rfl

theorem adjust_adjust {n : Nat} {change change' : Generation → Generation} {gens : List Generation}
    (keeps : ∀ g ∈ gens, g.row.generation = n → (change g).row.generation = n) :
    adjust n change' (adjust n change gens) = adjust n (fun g => change' (change g)) gens := by
  simp only [adjust, List.map_map]
  apply List.map_congr_left
  intro g member
  simp only [Function.comp_apply]
  by_cases same : g.row.generation = n
  · simp [same, keeps g member same]
  · simp [same]

theorem adjust_numbers {n : Nat} {change : Generation → Generation} {gens : List Generation}
    (keeps : ∀ g ∈ gens, g.row.generation = n → (change g).row.generation = n) :
    (adjust n change gens).map (·.row.generation) = gens.map (·.row.generation) := by
  simp only [adjust, List.map_map]
  apply List.map_congr_left
  intro g member
  simp only [Function.comp_apply]
  split
  · rename_i same
    rw [keeps g member same, same]
  · rfl

/-- In a sound view the number names one generation only. -/
theorem Sound.unique {id : Identity} {gens : List Generation} (sound : Sound id gens)
    {a b : Generation} (first : a ∈ gens) (second : b ∈ gens)
    (same : a.row.generation = b.row.generation) : a = b := by
  have less := List.pairwise_iff_getElem.mp sound.ascending
  obtain ⟨i, hi, rfl⟩ := List.getElem_of_mem first
  obtain ⟨j, hj, rfl⟩ := List.getElem_of_mem second
  rcases Nat.lt_trichotomy i j with before | equal | after
  · have := less i j hi hj before; omega
  · subst equal; rfl
  · have := less j i hj hi after; omega

theorem Sound.le_last {id : Identity} {gens : List Generation} (sound : Sound id gens)
    {active g : Generation} (last : gens.getLast? = some active) (member : g ∈ gens) :
    g.row.generation ≤ active.row.generation := by
  obtain ⟨front, rfl⟩ := List.getLast?_eq_some_iff.mp last
  rcases List.mem_append.mp member with early | final
  · have := List.pairwise_append.mp sound.ascending
    exact Nat.le_of_lt (this.2.2 g early active (List.mem_singleton_self _))
  · rw [List.mem_singleton.mp final]

end AiConfig.Sesh
