import AiConfig.Herder.Notes.Cache
import AiConfig.Lib.WriteBack
import AiConfig.Lib.Transition

/-! # Tabs over one storage

Every tab's store is a write-back cache over the shared storage: reading it and hearing of it
learn what has been stored, an edit and a merge produce rows above the one held, and a flush
saves.  A delete that names an id twice does not. -/

namespace AiConfig.Herder.NotesStore

open AiConfig.Lib

def StoredNoteRecord.version (stored : StoredNoteRecord) : Int ×ₗ String :=
  toLex (stored.record.updated, stored.writeID)

theorem newer_eq (left right : StoredNoteRecord) :
    newer left right = if right.version ≤ left.version then left else right := by
  have order :
    0 ≤ compareVersions left.record.updated left.writeID right.record.updated right.writeID ↔
      right.version ≤ left.version := by
    simp only [compareVersions, StoredNoteRecord.version, Prod.Lex.toLex_le_toLex]
    split
    · simp_all
    · split
      · simp_all
        omega
      · have same : right.record.updated = left.record.updated := by omega
        split
        · next above => simpa [same] using le_of_lt above
        · split
          · next below => simpa [same] using below
          · next low => simpa [same] using not_lt.mp low
  rw [newer]
  by_cases covered : right.version ≤ left.version
  · rw [if_pos covered, if_pos (order.mpr covered)]
  · rw [if_neg covered, if_neg fun ge => covered (order.mp ge)]

/-! ## A storage that works -/

/-- What `recoverRecord` finds of an id. -/
def Disk.persisted (disk : Disk) (id : String) : Option StoredNoteRecord :=
  ((disk.records.get id).bind Raw.good).or ((disk.backups.get id).bind Raw.good)

structure Working (store : Store) (disk : Disk) : Prop where
  persistent : store.persistent = true
  faultless : disk.faults = []

section

variable {options : Options} {store : Store} {disk : Disk} {id : String}

theorem access_working (faultless : disk.faults = []) : disk.access = (false, disk) := by
  obtain ⟨records, backups, faults⟩ := disk
  subst faultless
  rfl

theorem recoverRecord_working (working : Working store disk) (id : String) (raw : Option Raw) :
    recoverRecord store disk id raw =
      ((raw.bind Raw.good).or ((disk.backups.get id).bind Raw.good), store, disk) := by
  have preserved : preserveRaw store disk = (store, disk) := by
    rw [preserveRaw, if_pos working.persistent, access_working working.faultless]
    rfl
  rw [recoverRecord]
  cases good : raw.bind Raw.good with
  | some primary => rfl
  | none =>
    simp only [preserved, ite_self, working.persistent, access_working working.faultless, if_true,
      Option.none_or]
    rfl

theorem reconcile_working (working : Working store disk) (id : String) :
    reconcile options store disk id =
      match disk.persisted id with
      | none => (store.records.get id, store, disk)
      | some persisted =>
        (some (winner (store.records.get id) persisted),
            store.setRecord options id (winner (store.records.get id) persisted), disk) := by
  rw [reconcile, if_pos working.persistent, access_working working.faultless]
  simp only [Bool.false_eq_true, if_false, recoverRecord_working working]
  rw [show ((disk.records.get id).bind Raw.good).or ((disk.backups.get id).bind Raw.good) =
    disk.persisted id from rfl]
  cases disk.persisted id <;> rfl

end

/-! ## A tab among the caches -/

/-- The caches hold what a tab and the storage do. -/
structure Mirrors {ι : Type} (caches : Caches ι String StoredNoteRecord) (tab : ι) (store : Store)
    (disk : Disk) : Prop where
  memory : ∀ id, caches.memory tab id = store.records.get id
  dirty : ∀ id, caches.dirty tab id ↔ id ∈ store.dirty
  shared : ∀ id, caches.shared id = disk.persisted id
  backups : ∀ id stored, (disk.backups.get id).bind Raw.good = some stored → caches.past id stored

section

variable {ι : Type} [DecidableEq ι] {original : String → StoredNoteRecord → Prop}

/-- What a tab does is moves of its cache, which produce what it wrote. -/
structure Follows (tab : ι) (caches : Caches ι String StoredNoteRecord)
    (wrote : List StoredNoteRecord)
    (caches' : Caches ι String StoredNoteRecord) (store' : Store) (disk' : Disk) : Prop where
  moves : Caches.Moves StoredNoteRecord.version tab caches caches'
  mirrors : Mirrors caches' tab store' disk'
  working : Working store' disk'
  produced : ∀ id stored, caches'.produced id stored ↔ caches.produced id stored ∨ stored ∈ wrote ∧
    id = stored.record.id

variable {options : Options} {store store' store'' : Store} {disk disk' disk'' : Disk} {tab : ι}
  {caches caches' caches'' : Caches ι String StoredNoteRecord} {id : String}

theorem Follows.refl (mirrors : Mirrors caches tab store disk) (working : Working store disk) :
    Follows tab caches [] caches store disk :=
  ⟨.refl, mirrors, working, by simp⟩

theorem Follows.trans {wrote wrote' : List StoredNoteRecord}
    (first : Follows tab caches wrote caches' store' disk')
    (second : Follows tab caches' wrote' caches'' store'' disk'') :
    Follows tab caches (wrote ++ wrote') caches'' store'' disk'' where
  moves := first.moves.trans second.moves
  mirrors := second.mirrors
  working := second.working
  produced := by
    intro id stored
    rw [second.produced, first.produced, List.mem_append]
    tauto

/-- A tab takes a record that has been stored. -/
theorem Follows.learn (mirrors : Mirrors caches tab store disk) (working : Working store disk)
    {stored : StoredNoteRecord}
    (past : caches.past id stored)
    (tops : Tops StoredNoteRecord.version (store.records.get id) stored) :
    Follows tab caches [] (caches.hold tab id stored) (store.setRecord options id stored) disk where
  moves := .single (.learn past (by rw [mirrors.memory]; exact tops))
  mirrors := by
    refine ⟨fun other => ?_, fun other => ?_, mirrors.shared, mirrors.backups⟩
    · rw [Caches.hold_memory, get_setRecord, mirrors.memory]
      simp only [true_and, eq_comm]
    · rw [(setRecord_persistent options store id stored).2]
      exact mirrors.dirty other
  working :=
    ⟨(setRecord_persistent options store id stored).1.trans working.persistent, working.faultless⟩
  produced := by simp [Caches.hold]

theorem mem_soil {other : String} : other ∈ (store.soil id).dirty ↔ other ∈ store.dirty ∨
    other = id := by
  show other ∈ (if id ∈ store.dirty then store.dirty else store.dirty ++ [id]) ↔ _
  split
  · next marked =>
    constructor
    · exact Or.inl
    · rintro (before | rfl)
      · exact before
      · exact marked
  · simp

/-- A tab puts a record above the one that it holds. -/
theorem Follows.put (mirrors : Mirrors caches tab store disk) (working : Working store disk)
    {stored : StoredNoteRecord}
    (tops : Tops StoredNoteRecord.version (store.records.get stored.record.id) stored) :
    Follows tab caches [stored] (caches.produce tab stored.record.id stored)
      ((store.setRecord options stored.record.id stored).soil stored.record.id) disk where
  moves := .single (.produce (by rw [mirrors.memory]; exact tops))
  mirrors := by
    refine ⟨fun other => ?_, fun other => ?_, mirrors.shared, mirrors.backups⟩
    · show (caches.hold tab stored.record.id stored).memory tab other =
        (store.setRecord options stored.record.id stored).records.get other
      rw [Caches.hold_memory, get_setRecord, mirrors.memory]
      simp only [true_and, eq_comm]
    · rw [mem_soil, (setRecord_persistent options store stored.record.id stored).2, ← mirrors.dirty]
      show caches.dirty tab other ∨ tab = tab ∧ other = stored.record.id ↔ _
      simp
  working :=
    ⟨(setRecord_persistent options store stored.record.id stored).1.trans working.persistent,
    working.faultless⟩
  produced := by
    intro other old
    show caches.produced other old ∨ other = stored.record.id ∧ old = stored ↔ _
    rw [List.mem_singleton]
    constructor
    · rintro (before | ⟨rfl, rfl⟩)
      · exact Or.inl before
      · exact Or.inr ⟨rfl, rfl⟩
    · rintro (before | ⟨rfl, rfl⟩)
      · exact Or.inl before
      · exact Or.inr ⟨rfl, rfl⟩

/-- A tab has nothing to save of an id. -/
theorem Follows.undirty (mirrors : Mirrors caches tab store disk) (working : Working store disk)
    (covered : ∀ stored, store.records.get id = some stored →
      Above StoredNoteRecord.version (disk.persisted id) stored.version) :
    Follows tab caches [] (caches.clear tab id) (store.undirty id) disk where
  moves := .single (.clear (by rw [mirrors.memory, mirrors.shared]; exact covered))
  mirrors := by
    refine ⟨mirrors.memory, fun other => ?_, mirrors.shared, mirrors.backups⟩
    show caches.dirty tab other ∧ ¬(tab = tab ∧ other = id) ↔ other ∈ store.dirty.filter (· ≠ id)
    rw [mirrors.dirty, List.mem_filter]
    simp
  working := ⟨working.persistent, working.faultless⟩
  produced := by simp [Caches.clear]

/-- A tab saves a record that nothing stored is above. -/
theorem Follows.save (settled : Caches.Settled StoredNoteRecord.version original caches)
    (mirrors : Mirrors caches tab store disk)
    (working : Working store disk) {stored : StoredNoteRecord}
    (held : store.records.get id = some stored)
    (below : ∀ old, disk.persisted id = some old → old.version ≤ stored.version) :
    Follows tab caches [] (caches.share id stored) store
      { disk with backups := backupOf disk.backups id stored (disk.records.get id), records := disk.records.set id (.stored stored) } where
  moves :=
    .single (.save (i := tab) (by rw [mirrors.memory, held]) (by rw [mirrors.shared]; exact below))
  mirrors := by
    refine ⟨mirrors.memory, mirrors.dirty, fun other => ?_, fun other old found => ?_⟩
    · rw [Caches.share_shared, mirrors.shared, Disk.persisted, Disk.persisted]
      dsimp only
      rw [Entries.get_set]
      by_cases same : other = id
      · subst same
        rw [if_pos rfl, if_pos rfl]
        rfl
      · have kept : (backupOf disk.backups id stored (disk.records.get id)).get other =
            disk.backups.get other := by
          rw [backupOf]
          split
          · rw [Entries.get_delete, if_neg (Ne.symm same)]
          · exact Entries.get_set_other _ (Ne.symm same) _
          · exact Entries.get_set_other _ (Ne.symm same) _
        rw [if_neg same, if_neg (Ne.symm same), kept]
    · -- the last good copy was stored before, or is the record itself
      dsimp only [backupOf] at found
      split at found
      · rw [Entries.get_delete] at found
        split at found
        · cases found
        · exact Or.inl (mirrors.backups other old found)
      · next good stored' =>
        rw [Entries.get_set] at found
        split at found
        · next same =>
          subst same
          cases found
          refine Or.inl (settled.shared id old ?_)
          rw [mirrors.shared, Disk.persisted, stored']
          rfl
        · exact Or.inl (mirrors.backups other old found)
      · rw [Entries.get_set] at found
        split at found
        · next same =>
          cases found
          exact Or.inr ⟨same.symm, rfl⟩
        · exact Or.inl (mirrors.backups other old found)
  working := ⟨working.persistent, working.faultless⟩
  produced := by simp [Caches.share]

/-! ## Operations of a tab -/

theorem winner_cases (memory : Option StoredNoteRecord) (found : StoredNoteRecord) :
    (memory = some (winner memory found) ∧ found.version ≤ (winner memory found).version) ∨
      (winner memory found = found ∧ Tops StoredNoteRecord.version memory found) := by
  cases memory with
  | none => exact Or.inr ⟨rfl, fun _ held => nomatch held⟩
  | some memory =>
    show (some memory = some (newer memory found) ∧ _) ∨ (newer memory found = found ∧ _)
    rw [newer_eq]
    by_cases covered : found.version ≤ memory.version
    · rw [if_pos covered]
      refine Or.inl ⟨rfl, ?_⟩
      rw [winner, newer_eq, if_pos covered]
      exact covered
    · rw [if_neg covered]
      exact Or.inr ⟨rfl, fun old held => Option.some.inj held ▸ not_le.mp covered⟩

theorem setRecord_self {stored : StoredNoteRecord} (held : store.records.get id = some stored) :
    store.setRecord options id stored = store := by
  rw [Store.setRecord, if_pos held]

/-- A tab takes the newer of what it holds and what has been stored. -/
theorem Follows.take (mirrors : Mirrors caches tab store disk) (working : Working store disk)
    {found : StoredNoteRecord}
    (past : caches.past id found) :
    ∃ caches', Follows tab caches [] caches'
      (store.setRecord options id (winner (store.records.get id) found)) disk := by
  cases winner_cases (store.records.get id) found with
  | inl stays =>
    rw [setRecord_self stays.1]
    exact ⟨caches, .refl mirrors working⟩
  | inr takes =>
    rw [takes.1]
    exact ⟨_, .learn mirrors working past takes.2⟩

omit [DecidableEq ι] in
theorem Mirrors.past (mirrors : Mirrors caches tab store disk)
    (settled : Caches.Settled StoredNoteRecord.version original caches)
    {stored : StoredNoteRecord} (found : disk.persisted id = some stored) : caches.past id stored :=
  settled.shared id stored (by rw [mirrors.shared, found])

theorem Follows.reconcile (settled : Caches.Settled StoredNoteRecord.version original caches)
    (mirrors : Mirrors caches tab store disk)
    (working : Working store disk) (id : String) :
    ∃ caches', Follows tab caches [] caches' (reconcile options store disk id).2.1
      (reconcile options store disk id).2.2 := by
  rw [reconcile_working working]
  cases persisted : disk.persisted id with
  | none => exact ⟨caches, .refl mirrors working⟩
  | some found => exact Follows.take mirrors working (mirrors.past settled persisted)

theorem flushOne_absent (working : Working store disk) (absent : store.records.get id = none) :
    flushOne options store disk id = (.skipped, store.undirty id, disk) := by
  simp only [flushOne, working.persistent, if_true, access_working working.faultless,
    Bool.false_eq_true, if_false,
    recoverRecord_working working, absent]

/-- A record that nothing stored is above is written. -/
theorem flushOne_held (working : Working store disk) {memory : StoredNoteRecord}
    (held : store.records.get id = some memory)
    (below : ∀ old, disk.persisted id = some old → old.version ≤ memory.version) :
    flushOne options store disk id = (.wrote, store.undirty id,
      { disk with backups := backupOf disk.backups id memory (disk.records.get id), records := disk.records.set id (.stored memory) }) := by
  have stays :
      ((disk.persisted id).map fun persisted => newer memory persisted).getD memory = memory := by
    cases persisted : disk.persisted id with
    | none => rfl
    | some old =>
      show newer memory old = memory
      rw [newer_eq, if_pos (below old persisted)]
  have again :
      ({ disk with backups := backupOf disk.backups id memory (disk.records.get
      id) } : Disk).access = (false, _) :=
    access_working working.faultless
  have found : ((disk.records.get id).bind Raw.good).or ((disk.backups.get id).bind Raw.good) =
    disk.persisted id := rfl
  simp only [flushOne, working.persistent, if_true, access_working working.faultless,
    Bool.false_eq_true, if_false,
    recoverRecord_working working, found, held, stays, setRecord_self held, ne_eq,
      not_true_eq_false, Bool.not_true, again]

/-- A record that is stored above the one that is held is taken. -/
theorem flushOne_newer (working : Working store disk) {memory persisted : StoredNoteRecord}
    (held : store.records.get id = some memory) (stored : disk.persisted id = some persisted)
    (above : memory.version < persisted.version) :
    flushOne options store disk id =
      (.skipped, (store.setRecord options id persisted).undirty id, disk) := by
  have takes : newer memory persisted = persisted := by rw [newer_eq, if_neg above.not_ge]
  have apart : persisted ≠ memory := fun same => absurd (same ▸ above) (lt_irrefl _)
  have found : ((disk.records.get id).bind Raw.good).or ((disk.backups.get id).bind Raw.good) =
    disk.persisted id := rfl
  simp only [flushOne, working.persistent, if_true, access_working working.faultless,
    Bool.false_eq_true, if_false,
    recoverRecord_working working, found, held, stored, Option.map_some, Option.getD_some, takes,
      ne_eq, apart, not_false_eq_true]

variable (options) in
/-- What a flush does with an id: its mark goes, and what is stored is at or above what is held. -/
theorem Follows.flushOne (settled : Caches.Settled StoredNoteRecord.version original caches)
    (mirrors : Mirrors caches tab store disk)
    (working : Working store disk) (id : String) :
    (flushOne options store disk id).1 ≠ .stopped ∧
      (flushOne options store disk id).2.1.dirty = store.dirty.filter (· ≠ id) ∧
      ∃ caches', Follows tab caches [] caches' (flushOne options store disk id).2.1
        (flushOne options store disk id).2.2 := by
  cases held : store.records.get id with
  | none =>
    rw [flushOne_absent working held]
    refine ⟨by simp, rfl, _, Follows.undirty mirrors working fun stored found => ?_⟩
    rw [held] at found
    cases found
  | some memory =>
    by_cases below : ∀ old, disk.persisted id = some old → old.version ≤ memory.version
    · rw [flushOne_held working held below]
      have saved := Follows.save settled mirrors working held below
      refine ⟨by simp, rfl, _, saved.trans (.undirty saved.mirrors saved.working fun stored same =>
        ?_)⟩
      rw [held] at same
      cases same
      exact ⟨memory, by rw [← saved.mirrors.shared, Caches.share_shared, if_pos rfl], le_rfl⟩
    · simp only [not_forall, not_le] at below
      obtain ⟨persisted, stored, above⟩ := below
      rw [flushOne_newer working held stored above]
      have tops : Tops StoredNoteRecord.version (store.records.get id) persisted := by
        intro old found
        rw [held] at found
        exact Option.some.inj found ▸ above
      have takes := @Follows.learn ι _ options store disk tab caches id mirrors working persisted
        (mirrors.past settled stored) tops
      refine ⟨by simp, by rw [Store.undirty, (setRecord_persistent options store id persisted).2],
        _,
        takes.trans (.undirty takes.mirrors takes.working fun record same => ?_)⟩
      rw [get_setRecord, if_pos rfl] at same
      cases same
      exact ⟨persisted, stored, le_rfl⟩

variable (options) in
theorem Follows.flushAll (settled : Caches.Settled StoredNoteRecord.version original caches)
    (mirrors : Mirrors caches tab store disk)
    (working : Working store disk) (ids : List String) (wrote : Bool) :
    (flushAll options ids wrote store disk).2.1.dirty = store.dirty.filter (· ∉ ids) ∧
      ∃ caches', Follows tab caches [] caches' (flushAll options ids wrote store disk).2.1
        (flushAll options ids wrote store disk).2.2 := by
  induction ids generalizing store disk caches wrote with
  | nil => exact ⟨by simp [NotesStore.flushAll], caches, .refl mirrors working⟩
  | cons id rest inductionHypothesis =>
    obtain ⟨goes, marks, caches', first⟩ := Follows.flushOne options settled mirrors working id
    have later := inductionHypothesis (settled.moves first.moves) first.mirrors first.working
    have both : (NotesStore.flushOne options store disk id).2.1.dirty.filter (· ∉ rest) =
        store.dirty.filter (· ∉ id :: rest) := by
      rw [marks, List.filter_filter]
      refine List.filter_congr fun other _ => ?_
      simp only [List.mem_cons, not_or, decide_not, Bool.decide_and]
      exact Bool.and_comm ..
    rw [NotesStore.flushAll]
    generalize NotesStore.flushOne options store disk id = answer at goes first later both
    obtain ⟨flushed, store', disk'⟩ := answer
    cases flushed with
    | stopped => exact absurd rfl goes
    | skipped =>
      obtain ⟨dirty, caches'', second⟩ := later wrote
      exact ⟨dirty.trans both, caches'', first.trans second⟩
    | wrote =>
      obtain ⟨dirty, caches'', second⟩ := later true
      exact ⟨dirty.trans both, caches'', first.trans second⟩

/-- A flush leaves nothing to save. -/
theorem Follows.flush (settled : Caches.Settled StoredNoteRecord.version original caches)
    (mirrors : Mirrors caches tab store disk)
    (working : Working store disk) :
    (flush options store disk).2.1.dirty = [] ∧
      ∃ caches', Follows tab caches [] caches' (flush options store disk).2.1
        (flush options store disk).2.2 := by
  rw [NotesStore.flush]
  split
  · obtain ⟨dirty, follows⟩ := Follows.flushAll options settled mirrors working store.dirty false
    refine ⟨?_, follows⟩
    rw [dirty, List.filter_eq_nil_iff]
    simp
  · next idle =>
    refine ⟨?_, caches, .refl mirrors working⟩
    simpa [working.persistent] using idle

theorem Follows.onEvent (settled : Caches.Settled StoredNoteRecord.version original caches)
    (mirrors : Mirrors caches tab store disk)
    (working : Working store disk) {newValue : Option Raw}
    (past : ∀ stored, newValue.bind Raw.good = some stored → caches.past id stored) :
    ∃ caches', Follows tab caches [] caches' (onEvent options store disk id newValue).1
      (onEvent options store disk id newValue).2 := by
  rw [NotesStore.onEvent, recoverRecord_working working]
  cases heard : (newValue.bind Raw.good).or ((disk.backups.get id).bind Raw.good) with
  | none => exact ⟨caches, .refl mirrors working⟩
  | some incoming =>
    have once : caches.past id incoming := by
      cases Option.or_eq_some_iff.mp heard with
      | inl primary => exact past incoming primary
      | inr backup => exact mirrors.backups id incoming backup.2
    dsimp only
    cases winner_cases (store.records.get id) incoming with
    | inl stays =>
      rw [if_pos stays.1]
      exact ⟨caches, .refl mirrors working⟩
    | inr takes =>
      have newest : store.records.get id ≠ some (winner (store.records.get id) incoming) := by
        intro same
        exact absurd (takes.2 _ (takes.1 ▸ same)) (lt_irrefl _)
      rw [if_neg newest, takes.1]
      have learns :=
        @Follows.learn ι _ options store disk tab caches id mirrors working incoming once takes.2
      refine ⟨_, learns.trans (.undirty learns.mirrors learns.working fun record same => ?_)⟩
      rw [get_setRecord, if_pos rfl] at same
      cases same
      rw [← mirrors.shared]
      exact settled.past id incoming once

theorem Follows.loadOne (settled : Caches.Settled StoredNoteRecord.version original caches)
    (mirrors : Mirrors caches tab store disk)
    (working : Working store disk) {now : Int}
    (kept : ∀ stored, disk.persisted id = some stored → options.expired now stored.record = false) :
    ∃ store', loadOne options now (store, disk) id = (store', disk) ∧ ∃ caches',
      Follows tab caches [] caches' store' disk := by
  have found : ((disk.records.get id).bind Raw.good).or ((disk.backups.get id).bind Raw.good) =
    disk.persisted id := rfl
  simp only [NotesStore.loadOne, working.persistent, if_true, access_working working.faultless,
    Bool.false_eq_true, if_false,
    recoverRecord_working working, found]
  cases persisted : disk.persisted id with
  | none => exact ⟨store, rfl, caches, .refl mirrors working⟩
  | some stored =>
    simp only [kept stored persisted, Bool.false_eq_true, if_false]
    exact ⟨_, rfl, Follows.take mirrors working (mirrors.past settled persisted)⟩

theorem Follows.load (settled : Caches.Settled StoredNoteRecord.version original caches)
    (mirrors : Mirrors caches tab store disk)
    (working : Working store disk) {now : Int}
    (kept : ∀ id stored, disk.persisted id = some stored →
    options.expired now stored.record = false) :
    ∃ caches', Follows tab caches [] caches' (load options now store disk).1
      (load options now store disk).2 := by
  simp only [NotesStore.load, working.persistent, if_true, access_working working.faultless,
    Bool.false_eq_true, if_false]
  induction disk.records.keys generalizing store caches with
  | nil => exact ⟨caches, .refl mirrors working⟩
  | cons id rest inductionHypothesis =>
    obtain ⟨store', loads, caches', first⟩ := Follows.loadOne settled mirrors working (kept id)
    obtain ⟨caches'', second⟩ :=
      inductionHypothesis (settled.moves first.moves) first.mirrors first.working
    rw [List.foldl_cons, loads]
    exact ⟨caches'', first.trans second⟩

/-! ## Writes -/

theorem Follows.add (mirrors : Mirrors caches tab store disk) (working : Working store disk)
    {input : NewNote} {timestamp : Int}
    {writeID : String} (fresh : store.records.get id = none) :
    ∃ caches', Follows tab caches (((add options store input timestamp id writeID).1.toOption.map
        fun note => ⟨writeID, .note note⟩).toList) caches'
          (add options store input timestamp id writeID).2 disk := by
  simp only [NotesStore.add]
  split
  · exact ⟨caches, .refl mirrors working⟩
  · split
    · exact ⟨caches, .refl mirrors working⟩
    · refine ⟨_, Follows.put mirrors working ?_⟩
      intro old held
      rw [show (NoteRecord.note _).id = id from rfl, fresh] at held
      cases held

/-- What `reconcile` answers is what the tab then holds, at or above what it held and what is
stored. -/
theorem reconcile_above (working : Working store disk) (id : String) :
    (reconcile options store disk id).1 = (reconcile options store disk id).2.1.records.get id ∧
      (reconcile options store disk id).2.2 = disk ∧
      (∀ memory, store.records.get id = some memory →
        Above StoredNoteRecord.version (reconcile options store disk id).1 memory.version) ∧
      ∀ persisted, disk.persisted id = some persisted →
        Above StoredNoteRecord.version (reconcile options store disk id).1 persisted.version := by
  rw [reconcile_working working]
  cases persisted : disk.persisted id with
  | none => exact ⟨rfl, rfl, fun memory held => ⟨memory, held, le_rfl⟩, fun _ found =>
      nomatch found⟩
  | some found =>
    refine ⟨by rw [get_setRecord, if_pos rfl], rfl, fun memory held => ⟨_, rfl, ?_⟩,
      fun other same => ⟨_, rfl, ?_⟩⟩
    · rw [held, winner, newer_eq]
      split
      · exact le_rfl
      · next above => exact (not_le.mp above).le
    · cases same
      cases winner_cases (store.records.get id) found with
      | inl stays => exact stays.2
      | inr takes => rw [takes.1]

theorem version_lt {left right : StoredNoteRecord}
    (below : left.record.updated < right.record.updated) :
    left.version < right.version := by
  rw [StoredNoteRecord.version, StoredNoteRecord.version, Prod.Lex.toLex_lt_toLex]
  exact Or.inl below

/-- An edit's note is above what its tab then holds. -/
theorem edit_tops {current : Option StoredNoteRecord} {base note : Note} {now : Int}
    {writeID : String}
    (updated : note.updated = max now
    ((current.map fun current => current.record.updated).getD base.updated + 1)) :
    Tops StoredNoteRecord.version current ⟨writeID, .note note⟩ := by
  intro old held
  subst held
  refine version_lt ?_
  show old.record.updated < note.updated
  rw [updated, Option.map_some, Option.getD_some]
  omega

def editWrote (answer : Except String Note) (writeID : String) : List StoredNoteRecord :=
  (answer.toOption.map fun note => ⟨writeID, .note note⟩).toList

theorem Follows.edit (settled : Caches.Settled StoredNoteRecord.version original caches)
    (mirrors : Mirrors caches tab store disk)
    (working : Working store disk) (sound : Sound options store disk) (id : String)
    (changes : Changes) (fallback : Option Note)
    (now : Int) (writeID : String) :
    ∃ caches', Follows tab caches (editWrote
      (edit options store disk id changes fallback now writeID).1 writeID) caches'
      (edit options store disk id changes fallback now writeID).2.1
      (edit options store disk id changes fallback now writeID).2.2 := by
  obtain ⟨caches', reads⟩ :=
    @Follows.reconcile ι _ original options store disk tab caches settled mirrors working id
  obtain ⟨answers, -⟩ := @reconcile_above options store disk working id
  have middle := sound.reconcile id
  cases edit_cases options store disk id changes fallback now writeID with
  | inl refused =>
    obtain ⟨reason, same⟩ := refused
    rw [same]
    exact ⟨caches', reads⟩
  | inr written =>
    obtain ⟨base, note, from_, own, updated, -, same⟩ := written
    have named : note.id = id :=
      own.trans (editBase_id (fun stored found => middle.counted.keyed id stored (answers ▸ found))
        from_)
    have tops :
        Tops StoredNoteRecord.version ((NotesStore.reconcile options store disk id).2.1.records.get
        note.id) ⟨writeID, .note note⟩ := by
      rw [named, ← answers]
      exact edit_tops updated
    rw [same]
    exact ⟨_, reads.trans (.put reads.mirrors reads.working tops)⟩

theorem Follows.putBatch (mirrors : Mirrors caches tab store disk) (working : Working store disk)
    {values : List StoredNoteRecord}
    (distinct : (values.map fun stored => stored.record.id).Nodup)
    (tops : ∀ stored ∈ values, Tops StoredNoteRecord.version
    (store.records.get stored.record.id) stored) :
    ∃ caches', Follows tab caches values caches' (putBatch options store values) disk := by
  induction values generalizing store caches with
  | nil => exact ⟨caches, .refl mirrors working⟩
  | cons stored rest inductionHypothesis =>
    rw [List.map_cons, List.nodup_cons] at distinct
    have first :=
      @Follows.put ι _ options store disk tab caches mirrors working stored
      (tops stored List.mem_cons_self)
    obtain ⟨caches'', later⟩ := inductionHypothesis first.mirrors first.working distinct.2 (by
      intro other inside
      have apart : stored.record.id ≠ other.record.id :=
        fun same => distinct.1 (same ▸ List.mem_map_of_mem inside)
      show Tops _ ((store.setRecord options stored.record.id stored).records.get other.record.id)
        other
      rw [get_setRecord, if_neg apart]
      exact tops other (List.mem_cons_of_mem _ inside))
    exact ⟨caches'', first.trans later⟩

/-- Reading an id leaves the other records, and takes its own up. -/
theorem reconcile_other (working : Working store disk) (id other : String) :
    (id ≠ other → (reconcile options store disk id).2.1.records.get other =
    store.records.get other) ∧
      ∀ memory, store.records.get other = some memory →
        Above StoredNoteRecord.version
          ((reconcile options store disk id).2.1.records.get other) memory.version := by
  obtain ⟨answers, -, own, -⟩ := @reconcile_above options store disk working id
  have others : id ≠ other → (reconcile options store disk id).2.1.records.get other =
      store.records.get other := by
    intro apart
    rw [reconcile_working working]
    cases disk.persisted id with
    | none => rfl
    | some found => exact (get_setRecord ..).trans (if_neg apart)
  refine ⟨others, fun memory held => ?_⟩
  by_cases same : id = other
  · subst same
    rw [← answers]
    exact own memory held
  · exact ⟨memory, (others same).trans held, le_rfl⟩

theorem tombstoneOf_spec {current : Option StoredNoteRecord} {deletion : Deletion}
    {tombstone : StoredNoteRecord}
    (made : tombstoneOf current deletion = some tombstone) :
    tombstone.record.id = deletion.id ∧ Tops StoredNoteRecord.version current tombstone := by
  rw [tombstoneOf] at made
  obtain ⟨stored, rfl, made⟩ := Option.bind_eq_some_iff.mp made
  obtain ⟨note, live, rfl⟩ := Option.map_eq_some_iff.mp made
  refine ⟨rfl, fun old held => ?_⟩
  cases held
  obtain ⟨wid, record⟩ := stored
  cases record with
  | tombstone => cases live
  | note written =>
    cases live
    refine version_lt ?_
    show note.updated < max deletion.now (note.updated + 1)
    omega

theorem deleteOne_eq (options : Options) (tombstones : List StoredNoteRecord) (store : Store)
    (disk : Disk) (deletion : Deletion) :
    deleteOne options (tombstones, store, disk) deletion =
      (tombstones ++ (tombstoneOf (reconcile options store disk deletion.id).1 deletion).toList,
        (reconcile options store disk deletion.id).2) := rfl

/-- Every tombstone of a delete is above what was held and what was stored of its id. -/
theorem deleteAll_above (working : Working store disk) (tombstones : List StoredNoteRecord) (deletions : List Deletion) :
    ∀ stored ∈ (deletions.foldl (deleteOne options) (tombstones, store, disk)).1, stored ∈ tombstones ∨
      Tops StoredNoteRecord.version (store.records.get stored.record.id) stored ∧
        Tops StoredNoteRecord.version (disk.persisted stored.record.id) stored := by
  induction deletions generalizing store tombstones with
  | nil => exact fun stored inside => Or.inl inside
  | cons deletion rest inductionHypothesis =>
    intro stored inside
    obtain ⟨-, same, held, kept⟩ := @reconcile_above options store disk working deletion.id
    have persistent : (reconcile options store disk deletion.id).2.1.persistent = true := by
      rw [reconcile_working working]
      cases disk.persisted deletion.id with
      | none => exact working.persistent
      | some found => exact (setRecord_persistent options store deletion.id _).1.trans working.persistent
    rw [List.foldl_cons, deleteOne_eq] at inside
    have rises := fun other => (@reconcile_other options store disk working deletion.id other).2
    generalize reconcile options store disk deletion.id =
      answer at same held kept persistent inside rises
    obtain ⟨current, store', disk'⟩ := answer
    obtain rfl : disk' = disk := same
    cases inductionHypothesis ⟨persistent, working.faultless⟩ _ stored inside with
    | inl made =>
      cases List.mem_append.mp made with
      | inl before => exact Or.inl before
      | inr own =>
        obtain ⟨named, tops⟩ := tombstoneOf_spec (Option.mem_toList.mp own)
        rw [named]
        refine Or.inr ⟨fun old found => ?_, fun old found => ?_⟩
        · obtain ⟨row, held, ge⟩ := held old found
          exact lt_of_le_of_lt ge (tops row held)
        · obtain ⟨row, held, ge⟩ := kept old found
          exact lt_of_le_of_lt ge (tops row held)
    | inr later =>
      refine Or.inr ⟨fun old found => ?_, later.2⟩
      obtain ⟨row, held, ge⟩ := rises stored.record.id old found
      exact lt_of_le_of_lt ge (later.1 row held)

/-- Where no id comes twice, each tombstone is above what its tab holds in the end. -/
theorem Follows.deleteAll (settled : Caches.Settled StoredNoteRecord.version original caches)
    (mirrors : Mirrors caches tab store disk)
    (working : Working store disk) {tombstones : List StoredNoteRecord} {deletions : List Deletion}
    (distinct : (tombstones.map (fun stored => stored.record.id) ++
    deletions.map Deletion.id).Nodup)
    (tops : ∀ stored ∈ tombstones,
    Tops StoredNoteRecord.version (store.records.get stored.record.id) stored) :
    let answer := deletions.foldl (deleteOne options) (tombstones, store, disk)
    (answer.1.map fun stored => stored.record.id).Nodup ∧
      (∀ stored ∈ answer.1, Tops StoredNoteRecord.version
        (answer.2.1.records.get stored.record.id) stored) ∧
      ∃ caches', Follows tab caches [] caches' answer.2.1 answer.2.2 := by
  induction deletions generalizing store disk tombstones caches with
  | nil => exact ⟨by simpa using distinct, tops, caches, .refl mirrors working⟩
  | cons deletion rest inductionHypothesis =>
    obtain ⟨caches', reads⟩ :=
      @Follows.reconcile ι _ original options store disk tab caches settled mirrors working
      deletion.id
    obtain ⟨answers, -⟩ := @reconcile_above options store disk working deletion.id
    have others := fun other => (@reconcile_other options store disk working deletion.id other).1
    -- Only a first deletion of an id is made of what the tab holds; ids are distinct here.
    have fresh : deletion.id ∉ tombstones.map fun stored => stored.record.id := by
      intro listed
      rw [List.map_cons, List.nodup_append] at distinct
      exact distinct.2.2 _ listed _ List.mem_cons_self rfl
    rw [List.foldl_cons, deleteOne_eq]
    generalize NotesStore.reconcile options store disk deletion.id = answer at reads answers others
    obtain ⟨current, store', disk'⟩ := answer
    have named : ∀ stored, tombstoneOf current deletion = some stored →
        stored.record.id = deletion.id :=
      fun stored made => (tombstoneOf_spec made).1
    have distinct' :
      ((tombstones ++ (tombstoneOf current deletion).toList).map (fun stored => stored.record.id) ++
        rest.map Deletion.id).Nodup := by
      rw [List.map_cons] at distinct
      cases made : tombstoneOf current deletion with
      | none =>
        rw [Option.toList_none, List.append_nil]
        exact distinct.sublist (List.Sublist.append_left (List.sublist_cons_self _ _) _)
      | some stored =>
        rw [Option.toList_some, List.map_append, List.map_singleton, named stored made,
          List.append_assoc]
        exact distinct
    have kept : ∀ stored ∈ tombstones ++ (tombstoneOf current deletion).toList,
        Tops StoredNoteRecord.version (store'.records.get stored.record.id) stored := by
      intro stored inside
      cases List.mem_append.mp inside with
      | inl before =>
        have apart : deletion.id ≠ stored.record.id :=
          fun same => fresh (same ▸ List.mem_map_of_mem before)
        rw [show store'.records.get stored.record.id =
          store.records.get stored.record.id from others _ apart]
        exact tops stored before
      | inr own =>
        obtain ⟨same, above⟩ := tombstoneOf_spec (Option.mem_toList.mp own)
        rw [same, ← show current = store'.records.get deletion.id from answers]
        exact above
    obtain ⟨nodup, above, caches'', later⟩ :=
      inductionHypothesis (settled.moves reads.moves) reads.mirrors reads.working distinct' kept
    exact ⟨nodup, above, caches'', reads.trans later⟩

def deleteWrote (answer : Except String (List StoredNoteRecord)) : List StoredNoteRecord :=
  answer.toOption.getD []

theorem Follows.delete (settled : Caches.Settled StoredNoteRecord.version original caches)
    (mirrors : Mirrors caches tab store disk)
    (working : Working store disk) {deletions : List Deletion}
    (distinct : (deletions.map Deletion.id).Nodup) :
    ∃ caches', Follows tab caches (deleteWrote (delete options store disk deletions).1) caches'
      (delete options store disk deletions).2.1 (delete options store disk deletions).2.2 := by
  obtain ⟨nodup, tops, caches', reads⟩ :=
    @Follows.deleteAll ι _ original options store disk tab caches settled mirrors working
      [] deletions distinct (by simp)
  simp only [NotesStore.delete]
  split
  · exact ⟨caches', reads⟩
  · obtain ⟨caches'', puts⟩ :=
      @Follows.putBatch ι _ options _ _ tab caches' reads.mirrors reads.working _ nodup tops
    exact ⟨caches'', reads.trans puts⟩

def taken (store : Store) (incoming : StoredNoteRecord) : Bool :=
  !(store.records.get incoming.record.id).any fun current => newer current incoming = current

/-- The records that a merge takes. -/
def merged (options : Options) (now : Int) : Store × Disk → List StoredNoteRecord →
    List StoredNoteRecord
  | _, [] => []
  | state, incoming :: rest =>
    (if taken state.1 incoming then [incoming] else []) ++
      merged options now (mergeOne options now state incoming) rest

theorem Follows.mergeOne (mirrors : Mirrors caches tab store disk) (working : Working store disk)
    {now : Int}
    {incoming : StoredNoteRecord} (kept : options.expired now incoming.record = false) :
    ∃ store' caches', mergeOne options now (store, disk) incoming = (store', disk) ∧
      Follows tab caches (if taken store incoming then [incoming] else []) caches' store' disk := by
  simp only [NotesStore.mergeOne, kept, Bool.false_eq_true, if_false, taken]
  by_cases stays :
    (store.records.get incoming.record.id).any (fun current => newer current incoming = current) =
    true
  · simp only [stays, if_true, Bool.not_true, Bool.false_eq_true, if_false]
    exact ⟨store, caches, rfl, .refl mirrors working⟩
  · simp only [Bool.not_eq_true] at stays
    simp only [stays, Bool.false_eq_true, if_false, Bool.not_false, if_true]
    refine ⟨_, _, rfl, .put mirrors working fun old held => ?_⟩
    rw [held, Option.any_some, decide_eq_false_iff_not, newer_eq] at stays
    by_contra covered
    exact stays (if_pos (not_lt.mp covered))

theorem Follows.merge (settled : Caches.Settled StoredNoteRecord.version original caches)
    (mirrors : Mirrors caches tab store disk)
    (working : Working store disk) {now : Int} {values : List StoredNoteRecord}
    (kept : ∀ incoming ∈ values, options.expired now incoming.record = false) :
    ∃ caches', Follows tab caches (merged options now (store, disk) values) caches'
      (merge options now store disk values).1
      (merge options now store disk values).2 := by
  rw [NotesStore.merge]
  induction values generalizing store caches with
  | nil => exact ⟨caches, .refl mirrors working⟩
  | cons incoming rest inductionHypothesis =>
    obtain ⟨store', caches', step, first⟩ :=
      @Follows.mergeOne ι _ options store disk tab caches mirrors working now incoming
      (kept incoming List.mem_cons_self)
    obtain ⟨caches'', later⟩ :=
      inductionHypothesis (settled.moves first.moves) first.mirrors first.working
      fun other inside => kept other (List.mem_cons_of_mem _ inside)
    rw [List.foldl_cons, step, merged, step]
    exact ⟨caches'', first.trans later⟩

end

/-! ## Many tabs -/

structure World (ι : Type) where
  disk : Disk
  tabs : ι → Option Store
  /-- The storage as each step left it: an event tells of what it held at any time. -/
  history : List Disk
  /-- All that the tabs put. -/
  wrote : List StoredNoteRecord

inductive Act where
  | opens (now : Int)
  | list
  | add (input : NewNote) (timestamp : Int) (id writeID : String)
  | edit (id : String) (changes : Changes) (fallback : Option Note) (now : Int) (writeID : String)
  | delete (deletions : List Deletion)
  | merge (now : Int) (values : List StoredNoteRecord)
  | flush
  | event (id : String) (past : Disk)

/-- A delete names no id twice. -/
def Act.Distinct : Act → Prop
  | delete deletions => (deletions.map Deletion.id).Nodup
  | _ => True

section

variable {ι : Type} [DecidableEq ι]

def World.after (world : World ι) (tab : ι) (state : Store × Disk) (wrote : List StoredNoteRecord) :
    World ι where
  disk := state.2
  tabs := Function.update world.tabs tab (some state.1)
  history := state.2 :: world.history
  wrote := world.wrote ++ wrote

/-- A step of one tab.  No tombstone past the retention is read or merged, and an id that is drawn
is new to its tab. -/
inductive World.Step (options : Options) : World ι → ι × Act → World ι → Prop
  | opens {world : World ι} {tab : ι} {now : Int} (closed : world.tabs tab = none)
      (kept : ∀ id stored, world.disk.persisted id = some stored →
        options.expired now stored.record = false) :
      Step options world (tab, .opens now)
        (world.after tab (createNotesStore options now true world.disk) [])
  | list {world : World ι} {tab : ι} {store : Store} (held : world.tabs tab = some store) :
      Step options world (tab, .list)
        (world.after tab ((currentNotes options store).2, world.disk) [])
  | add {world : World ι} {tab : ι} {store : Store} {input : NewNote} {timestamp : Int}
      {id writeID : String}
      (held : world.tabs tab = some store) (fresh : store.records.get id = none) :
      Step options world (tab, .add input timestamp id writeID)
        (world.after tab ((add options store input timestamp id writeID).2, world.disk)
          (editWrote (add options store input timestamp id writeID).1 writeID))
  | edit {world : World ι} {tab : ι} {store : Store} {id : String} {changes : Changes}
      {fallback : Option Note} {now : Int}
      {writeID : String} (held : world.tabs tab = some store) :
      Step options world (tab, .edit id changes fallback now writeID)
        (world.after tab (edit options store world.disk id changes fallback now writeID).2
          (editWrote (edit options store world.disk id changes fallback now writeID).1 writeID))
  | delete {world : World ι} {tab : ι} {store : Store} {deletions : List Deletion}
      (held : world.tabs tab = some store) :
      Step options world (tab, .delete deletions)
        (world.after tab (delete options store world.disk deletions).2
          (deleteWrote (delete options store world.disk deletions).1))
  | merge {world : World ι} {tab : ι} {store : Store} {now : Int} {values : List StoredNoteRecord}
      (held : world.tabs tab = some store)
        (kept : ∀ incoming ∈ values, options.expired now incoming.record = false) :
      Step options world (tab, .merge now values)
        (world.after tab (merge options now store world.disk values)
          (merged options now (store, world.disk) values))
  | flush {world : World ι} {tab : ι} {store : Store} (held : world.tabs tab = some store) :
      Step options world (tab, .flush) (world.after tab (flush options store world.disk).2 [])
  | event {world : World ι} {tab : ι} {store : Store} {id : String} {past : Disk}
      (held : world.tabs tab = some store)
      (once : past ∈ world.history) :
      Step options world (tab, .event id past)
        (world.after tab (onEvent options store world.disk id (past.records.get id)) [])

/-- No tab is open, and the storage works; its last good copies are not above its records. -/
structure World.Fresh (world : World ι) : Prop where
  closed : ∀ tab, world.tabs tab = none
  faultless : world.disk.faults = []
  keyed : world.disk.Keyed
  backed : ∀ id backup, (world.disk.backups.get id).bind Raw.good = some backup →
    Above StoredNoteRecord.version (world.disk.persisted id) backup.version
  history : world.history = [world.disk]
  wrote : world.wrote = []

def tabSystem (ι : Type) [DecidableEq ι] (options : Options) : System (World ι) (ι × Act) where
  initial := World.Fresh
  step := World.Step options

/-- What the storage held to begin with. -/
def World.Original (world : World ι) (id : String) (stored : StoredNoteRecord) : Prop :=
  world.disk.persisted id = some stored ∨ (world.disk.backups.get id).bind Raw.good = some stored

/-- The caches follow the tabs. -/
structure World.Traced (options : Options) (original : String → StoredNoteRecord → Prop)
    (world : World ι)
    (caches : Caches ι String StoredNoteRecord) : Prop where
  settled : Caches.Settled StoredNoteRecord.version original caches
  held : ∀ tab store, world.tabs tab = some store →
    Mirrors caches tab store world.disk ∧ store.persistent = true ∧ store.Counted options
  closed : ∀ tab, world.tabs tab = none → ∀ id, caches.memory tab id = none ∧ ¬caches.dirty tab id
  shared : ∀ id, caches.shared id = world.disk.persisted id
  backups : ∀ id stored, (world.disk.backups.get id).bind Raw.good = some stored →
    caches.past id stored
  faultless : world.disk.faults = []
  keyed : world.disk.Keyed
  history : ∀ past ∈ world.history, ∀ id stored, (past.records.get id).bind Raw.good = some stored →
    caches.past id stored ∧ stored.record.id = id
  produced : ∀ id stored, caches.produced id stored ↔ stored ∈ world.wrote ∧ id = stored.record.id

variable {options : Options} {original : String → StoredNoteRecord → Prop} {world later : World ι}
  {caches caches' : Caches ι String StoredNoteRecord} {tab : ι}

theorem Caches.Move.past_mono {i : ι} (move : Caches.Move StoredNoteRecord.version i caches caches')
    {id : String}
    {stored : StoredNoteRecord} (once : caches.past id stored) : caches'.past id stored := by
  cases move with
  | produce => exact once
  | learn => exact once
  | save => exact Or.inl once
  | clear => exact once

theorem Caches.Moves.past_mono {i : ι}
    (moves : Caches.Moves StoredNoteRecord.version i caches caches') {id : String}
    {stored : StoredNoteRecord} (once : caches.past id stored) : caches'.past id stored := by
  induction moves with
  | refl => exact once
  | tail _ move inductionHypothesis => exact Caches.Move.past_mono move inductionHypothesis

/-- What a tab does keeps the caches with the tabs. -/
theorem World.Traced.after (traced : world.Traced options original caches)
    {wrote : List StoredNoteRecord} {state : Store × Disk}
    (follows : Follows tab caches wrote caches' state.1 state.2)
    (sound : Sound options state.1 state.2) :
    (world.after tab state wrote).Traced options original caches' where
  settled := traced.settled.moves follows.moves
  held := by
    intro other store held
    change Function.update world.tabs tab (some state.1) other = some store at held
    rw [Function.update_apply] at held
    split at held
    · next same =>
      cases held
      exact ⟨same ▸ follows.mirrors, follows.working.persistent, sound.counted⟩
    · next apart =>
      obtain ⟨mirrors, persistent, counted⟩ := traced.held other store held
      refine ⟨⟨fun id => ?_, fun id => ?_, follows.mirrors.shared, follows.mirrors.backups⟩,
        persistent, counted⟩
      · rw [(follows.moves.others apart id).1, mirrors.memory]
      · rw [(follows.moves.others apart id).2, mirrors.dirty]
  closed := by
    intro other closed id
    change Function.update world.tabs tab (some state.1) other = none at closed
    rw [Function.update_apply] at closed
    split at closed
    · cases closed
    · next apart =>
      rw [(follows.moves.others apart id).1, (follows.moves.others apart id).2]
      exact traced.closed other closed id
  shared := follows.mirrors.shared
  backups := follows.mirrors.backups
  faultless := follows.working.faultless
  keyed := sound.keyed
  history := by
    intro past once id stored found
    cases List.mem_cons.mp once with
    | inl last =>
      subst last
      refine ⟨(traced.settled.moves follows.moves).shared id stored ?_,
        sound.keyed.records id stored found⟩
      rw [follows.mirrors.shared, Disk.persisted, found]
      rfl
    | inr before =>
      obtain ⟨earlier, own⟩ := traced.history past before id stored found
      exact ⟨Caches.Moves.past_mono follows.moves earlier, own⟩
  produced := by
    intro id stored
    rw [follows.produced, traced.produced]
    show _ ↔ stored ∈ world.wrote ++ wrote ∧ id = stored.record.id
    rw [List.mem_append]
    tauto

/-- A step whose delete names no id twice is moves of one cache. -/
theorem World.Traced.step (traced : world.Traced options original caches) {label : ι × Act}
    (taken : World.Step options world label later) (distinct : label.2.Distinct) :
    ∃ caches', Caches.Moves StoredNoteRecord.version label.1 caches caches' ∧
      later.Traced options original caches' := by
  -- A tab that is open mirrors its cache; each operation is then followed in it.
  have opened : ∀ {tab store}, world.tabs tab = some store →
      Mirrors caches tab store world.disk ∧ Working store world.disk ∧
          Sound options store world.disk := by
    intro tab store held
    obtain ⟨mirrors, persistent, counted⟩ := traced.held tab store held
    exact ⟨mirrors, ⟨persistent, traced.faultless⟩, ⟨counted, traced.keyed⟩⟩
  have settled := traced.settled
  cases taken with
  | @opens tab now closed kept =>
    have mirrors : Mirrors caches tab (Store.empty true) world.disk :=
      ⟨fun id => (traced.closed tab closed id).1, fun id =>
        iff_of_false (traced.closed tab closed id).2 (by simp [Store.empty]),
        traced.shared, traced.backups⟩
    obtain ⟨caches', follows⟩ := Follows.load settled mirrors ⟨rfl, traced.faultless⟩ kept
    exact ⟨caches', follows.moves,
      traced.after follows (Sound.load ⟨counted_empty options true, traced.keyed⟩ now)⟩
  | @list tab store held =>
    obtain ⟨mirrors, working, sound⟩ := opened held
    have follows : Follows tab caches [] caches (currentNotes options store).2 world.disk :=
      .refl ⟨mirrors.memory, mirrors.dirty, mirrors.shared, mirrors.backups⟩
        ⟨working.persistent, working.faultless⟩
    exact ⟨caches, follows.moves, traced.after follows ⟨sound.counted.currentNotes.2, traced.keyed⟩⟩
  | @add tab store input timestamp id writeID held fresh =>
    obtain ⟨mirrors, working, sound⟩ := opened held
    obtain ⟨caches', follows⟩ := Follows.add mirrors working fresh
    exact ⟨caches', follows.moves,
      traced.after follows ⟨sound.add input timestamp id writeID, traced.keyed⟩⟩
  | @edit tab store id changes fallback now writeID held =>
    obtain ⟨mirrors, working, sound⟩ := opened held
    obtain ⟨caches', follows⟩ :=
      Follows.edit settled mirrors working sound id changes fallback now writeID
    exact ⟨caches', follows.moves,
      traced.after follows (sound.edit id changes fallback now writeID)⟩
  | @delete tab store deletions held =>
    obtain ⟨mirrors, working, sound⟩ := opened held
    obtain ⟨caches', follows⟩ := Follows.delete settled mirrors working distinct
    exact ⟨caches', follows.moves, traced.after follows (sound.delete deletions)⟩
  | @merge tab store now values held kept =>
    obtain ⟨mirrors, working, sound⟩ := opened held
    obtain ⟨caches', follows⟩ := Follows.merge settled mirrors working kept
    exact ⟨caches', follows.moves, traced.after follows (sound.merge now values)⟩
  | @flush tab store held =>
    obtain ⟨mirrors, working, sound⟩ := opened held
    obtain ⟨-, caches', follows⟩ := Follows.flush settled mirrors working
    exact ⟨caches', follows.moves, traced.after follows sound.flush⟩
  | @event tab store id past held once =>
    obtain ⟨mirrors, working, sound⟩ := opened held
    -- An event tells of what was once written.
    have told := traced.history past once id
    obtain ⟨caches', follows⟩ :=
      Follows.onEvent settled mirrors working fun stored found => (told stored found).1
    exact ⟨caches', follows.moves,
      traced.after follows (sound.onEvent fun stored found => (told stored found).2)⟩

omit [DecidableEq ι] in
theorem World.Fresh.traced (options : Options) (fresh : world.Fresh) :
    world.Traced options world.Original
      ⟨fun _ _ => none, fun _ _ => False, world.disk.persisted, world.Original, fun _ _ =>
        False⟩ where
  settled := by
    refine ⟨fun id stored once => ?_, fun id stored found => Or.inl found, fun _ _ _ held =>
      (nomatch held),
      fun _ _ made => made.elim, fun _ _ _ held => (nomatch held), fun _ _ once => Or.inr once⟩
    cases once with
    | inl persisted => exact ⟨stored, persisted, le_rfl⟩
    | inr backup => exact fresh.backed id stored backup
  held := by
    intro tab store held
    rw [fresh.closed] at held
    cases held
  closed := fun _ _ _ => ⟨rfl, not_false⟩
  shared := fun _ => rfl
  backups := fun _ _ backup => Or.inr backup
  faultless := fresh.faultless
  keyed := fresh.keyed
  history := by
    intro past once id stored found
    rw [fresh.history, List.mem_singleton] at once
    subst once
    refine ⟨Or.inl ?_, fresh.keyed.records id stored found⟩
    rw [Disk.persisted, found]
    rfl
  produced := by simp [fresh.wrote]

/-- A run whose deletes name no id twice keeps the caches with the tabs, and takes no record back.
-/
theorem World.Traced.run {labels : List (ι × Act)} (traced : world.Traced options original caches)
    (run : (tabSystem ι options).Run world labels later)
    (distinct : ∀ label ∈ labels, label.2.Distinct) :
    (∃ caches', later.Traced options original caches') ∧
      ∀ id v, Above StoredNoteRecord.version (world.disk.persisted id) v →
        Above StoredNoteRecord.version (later.disk.persisted id) v := by
  induction run with
  | refl => exact ⟨⟨caches, traced⟩, fun _ _ above => above⟩
  | @snoc middle _ labels label before taken inductionHypothesis =>
    obtain ⟨⟨caches', traced'⟩, rises⟩ :=
      inductionHypothesis fun other inside => distinct other (List.mem_append_left _ inside)
    obtain ⟨caches'', moves, traced''⟩ := traced'.step taken (distinct label (by simp))
    refine ⟨⟨caches'', traced''⟩, fun id v above => ?_⟩
    have middle := rises id v above
    rw [← traced'.shared] at middle
    rw [← traced''.shared]
    exact moves.shared_ge middle

/-- In a run whose deletes name no id twice, no stored record goes back; an edit and a delete are
above
what their tab holds and what is stored; and once all have flushed, the greatest of what the tabs
put
of an id is stored. -/
theorem notes_never_go_back {start : World ι} (fresh : start.Fresh)
    {labels labels' : List (ι × Act)}
    (run : (tabSystem ι options).Run start labels world)
    (run' : (tabSystem ι options).Run world labels' later)
    (distinct : ∀ label ∈ labels ++ labels', label.2.Distinct) :
    (∀ id stored, world.disk.persisted id = some stored →
      Above StoredNoteRecord.version (later.disk.persisted id) stored.version) ∧
    (∀ tab store, later.tabs tab = some store →
      (∀ id changes fallback now writeID note,
        (edit options store later.disk id changes fallback now writeID).1 = .ok note →
        Tops StoredNoteRecord.version (store.records.get id) ⟨writeID, .note note⟩ ∧
          Tops StoredNoteRecord.version (later.disk.persisted id) ⟨writeID, .note note⟩) ∧
      (∀ deletions tombstones, (delete options store later.disk deletions).1 = .ok tombstones →
      ∀ stored ∈ tombstones,
        Tops StoredNoteRecord.version (store.records.get stored.record.id) stored ∧
          Tops StoredNoteRecord.version (later.disk.persisted stored.record.id) stored) ∧
      (flush options store later.disk).2.1.dirty = []) ∧
    ((∀ tab store, later.tabs tab = some store → store.dirty = []) → ∀ stored ∈ later.wrote,
      ∃ kept, later.disk.persisted stored.record.id = some kept ∧ stored.version ≤ kept.version ∧
        (kept ∈ later.wrote ∨ start.Original stored.record.id kept)) := by
  obtain ⟨⟨caches, traced⟩, -⟩ := (fresh.traced options).run run fun label inside =>
    distinct label (List.mem_append_left _ inside)
  obtain ⟨⟨caches', traced'⟩, rises⟩ :=
    traced.run run' fun label inside => distinct label (List.mem_append_right _ inside)
  refine ⟨fun id stored found => rises id _ ⟨stored, found, le_rfl⟩, fun tab store held => ?_,
    fun clean stored made => ?_⟩
  · obtain ⟨mirrors, persistent, counted⟩ := traced'.held tab store held
    have working : Working store later.disk := ⟨persistent, traced'.faultless⟩
    refine ⟨fun id changes fallback now writeID note accepted => ?_,
      fun deletions tombstones accepted stored inside => ?_,
      (Follows.flush traced'.settled mirrors working).1⟩
    · obtain ⟨answers, -, above, above'⟩ := @reconcile_above options store later.disk working id
      cases edit_cases options store later.disk id changes fallback now writeID with
      | inl refused =>
        obtain ⟨reason, same⟩ := refused
        rw [same] at accepted
        cases accepted
      | inr written =>
        obtain ⟨base, written, -, -, updated, -, same⟩ := written
        rw [same] at accepted
        cases accepted
        have tops : Tops StoredNoteRecord.version _ (⟨writeID, .note note⟩ : StoredNoteRecord) :=
          edit_tops updated
        refine ⟨fun old found => ?_, fun old found => ?_⟩
        · obtain ⟨row, held, ge⟩ := above old found
          exact lt_of_le_of_lt ge (tops row held)
        · obtain ⟨row, held, ge⟩ := above' old found
          exact lt_of_le_of_lt ge (tops row held)
    · have all := @deleteAll_above options store later.disk working [] deletions
      simp only [delete] at accepted
      split at accepted
      · cases accepted
      · cases accepted
        cases all stored inside with
        | inl absurd => cases absurd
        | inr both => exact both
  -- With no tab dirty, whatever was written has come to the storage.
  · have unmarked : ∀ tab id, ¬caches'.dirty tab id := by
      intro tab id
      cases open_ : later.tabs tab with
      | none => exact (traced'.closed tab open_ id).2
      | some store =>
        rw [(traced'.held tab store open_).1.dirty, clean tab store open_]
        simp
    obtain ⟨kept, found, ge, source⟩ :=
      traced'.settled.saved unmarked ((traced'.produced _ stored).mpr ⟨made, rfl⟩)
    rw [traced'.shared] at found
    exact ⟨kept, found, ge, source.imp_left fun made => ((traced'.produced _ kept).mp made).1⟩

end

/-! ## A delete that names a note twice -/

def oneTab : World Unit := ⟨noDisk, fun _ => none, [noDisk], []⟩

theorem oneTab_fresh : oneTab.Fresh :=
  ⟨fun _ => rfl, rfl, noDisk_keyed, fun _ _ found => (nomatch found), rfl, rfl⟩

def onlyStore (world : World Unit) : Store := (world.tabs ()).getD (.empty true)

def openedTab : World Unit := oneTab.after () (createNotesStore oneNote 0 true noDisk) []

def addedNote : World Unit :=
  let answer := add oneNote (onlyStore openedTab) ⟨"general", "text", none, none⟩ 1 "a" "m"
  openedTab.after () (answer.2, openedTab.disk) (editWrote answer.1 "m")

theorem addedNote_run :
    (tabSystem Unit oneNote).Run oneTab
    [((), .opens 0), ((), .add ⟨"general", "text", none, none⟩ 1 "a" "m")] addedNote := by
  have first : (tabSystem Unit oneNote).Run oneTab ([] ++ [((), .opens 0)]) openedTab :=
    .snoc (.refl oneTab) (World.Step.opens rfl fun _ _ found => nomatch found)
  exact first.snoc (World.Step.add rfl rfl)

def flushed (world : World Unit) : World Unit :=
  world.after () (flush oneNote (onlyStore world) world.disk).2 []

def twice : List Deletion := [⟨"a", 2, "z"⟩, ⟨"a", 2, "b"⟩]

def deletedTwice : World Unit :=
  let answer := delete oneNote (onlyStore addedNote) addedNote.disk twice
  addedNote.after () answer.2 (deleteWrote answer.1)

/-- The later of the two tombstones takes the place of the greater one. -/
theorem deleted_twice : ∃ labels, (tabSystem Unit oneNote).Run oneTab labels
    (flushed deletedTwice) ∧
    (onlyStore (flushed deletedTwice)).dirty = [] ∧
    ∃ stored ∈ (flushed deletedTwice).wrote, ∃ kept,
      (flushed deletedTwice).disk.persisted stored.record.id = some kept ∧
      kept.version < stored.version := by
  refine ⟨_, (addedNote_run.snoc (World.Step.delete rfl)).snoc
    (World.Step.flush rfl), by decide +kernel,
    ⟨"z", .tombstone "a" 2⟩, by decide +kernel, ⟨"b", .tombstone "a" 2⟩, by decide +kernel, ?_⟩
  simp only [StoredNoteRecord.version, Prod.Lex.toLex_lt_toLex]
  exact Or.inr ⟨trivial, by decide⟩

theorem notes_never_go_back_sample :
    ∃ kept, (flushed addedNote).disk.persisted "a" = some kept ∧
      kept ∈ (flushed addedNote).wrote := by
  have last : (tabSystem Unit oneNote).Run addedNote ([] ++ [((), .flush)]) (flushed addedNote) :=
    .snoc (.refl addedNote) (World.Step.flush rfl)
  obtain ⟨-, -, saved⟩ :=
    notes_never_go_back oneTab_fresh addedNote_run last (by simp [Act.Distinct])
  have clean : ∀ tab store, (flushed addedNote).tabs tab = some store → store.dirty = [] := by
    intro tab store held
    have none_left : ((flushed addedNote).tabs ()).map Store.dirty = some [] := by decide +kernel
    rw [show tab = () from rfl] at held
    rw [held] at none_left
    exact Option.some.inj none_left
  have put : (⟨"m", .note ⟨"a", "general", "text", none, none, 1, 1⟩⟩ : StoredNoteRecord) ∈
      (flushed addedNote).wrote := by
    decide +kernel
  obtain ⟨kept, found, -, source⟩ := saved clean _ put
  refine ⟨kept, found, source.resolve_right ?_⟩
  rintro (absent | absent) <;> cases absent

end AiConfig.Herder.NotesStore
