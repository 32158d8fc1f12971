import AiConfig.Herder.Notes.Store

/-! # The running totals and the sorted list

Records change through `setRecord` and `drop` only, and both keep the totals and forget the
sorted list.  An edit that brings a note back is not counted against the limit of notes. -/

namespace AiConfig.Herder.NotesStore

open AiConfig.Lib

/-! ## What the caches say -/

def liveSize (options : Options) (stored : StoredNoteRecord) : Int :=
  match active stored.record with
  | some _ => options.storedBytes stored
  | none => 0

def isLive (stored : StoredNoteRecord) : Int :=
  match active stored.record with
  | some _ => 1
  | none => 0

def sortedNotes (options : Options) (records : Entries String StoredNoteRecord) : List Note :=
  (activeNotes records).mergeSort (before options.collation)

/-- The serialised sizes are kept of the active records, and the sorted list is theirs. -/
structure Store.Counted (options : Options) (store : Store) : Prop where
  keyed : ∀ id stored, store.records.get id = some stored → stored.record.id = id
  bytes : ∀ id, store.liveBytes.get id =
    (store.records.get id).bind fun stored => (active stored.record).map fun _ =>
      options.storedBytes stored
  total : store.liveTotal = store.liveBytes.total fun bytes : Nat => (bytes : Int)
  notes : ∀ notes, store.liveNotes = some notes → notes = sortedNotes options store.records

section

variable {options : Options} {store store' : Store} {disk : Disk} {id : String}
  {stored : StoredNoteRecord}

theorem Store.Counted.bytes_getD (counted : store.Counted options) (id : String) :
    (((store.liveBytes.get id).getD 0 : Nat) : Int) =
    store.records.weight (liveSize options) id := by
  rw [counted.bytes, Entries.weight]
  cases store.records.get id with
  | none => rfl
  | some stored =>
    show ((((active stored.record).map fun _ => options.storedBytes stored).getD 0 : Nat) : Int) =
      liveSize options stored
    rw [liveSize]
    cases active stored.record <;> rfl

theorem Store.Counted.liveTotal_eq (counted : store.Counted options) :
    store.liveTotal = store.records.total (liveSize options) := by
  rw [counted.total]
  refine Entries.total_congr fun id => ?_
  rw [← counted.bytes_getD, Entries.weight]
  cases store.liveBytes.get id <;> rfl

theorem Store.Counted.size_eq (counted : store.Counted options) :
    (store.liveBytes.size : Int) = store.records.total isLive := by
  rw [Entries.size_eq_total]
  refine Entries.total_congr fun id => ?_
  rw [Entries.weight, Entries.weight, counted.bytes]
  cases store.records.get id with
  | none => rfl
  | some stored =>
    show (((active stored.record).map fun _ => options.storedBytes stored).elim (0 : Int) fun _ =>
      1) = isLive stored
    rw [isLive]
    cases active stored.record <;> rfl

theorem length_activeNotes (records : Entries String StoredNoteRecord) :
    ((activeNotes records).length : Int) = records.total isLive := by
  rw [activeNotes, Entries.values, Entries.total]
  induction records.list with
  | nil => rfl
  | cons entry rest inductionHypothesis =>
    rw [List.map_cons, List.map_cons, List.sum_cons, ← inductionHypothesis, isLive,
      List.filterMap_cons]
    cases active entry.2.record with
    | none => simp
    | some note => simp [add_comm]

/-- The stores hold the same of every cache. -/
structure Store.Alike (store store' : Store) : Prop where
  records : store'.records = store.records
  liveBytes : store'.liveBytes = store.liveBytes
  liveTotal : store'.liveTotal = store.liveTotal
  liveNotes : store'.liveNotes = store.liveNotes

theorem Store.Alike.refl (store : Store) : store.Alike store := ⟨rfl, rfl, rfl, rfl⟩

theorem Store.Counted.alike (counted : store.Counted options) (alike : store.Alike store') :
    store'.Counted options where
  keyed := by rw [alike.records]; exact counted.keyed
  bytes := by rw [alike.records, alike.liveBytes]; exact counted.bytes
  total := by rw [alike.liveTotal, alike.liveBytes]; exact counted.total
  notes := by rw [alike.liveNotes, alike.records]; exact counted.notes

/-! ## Changes -/

theorem get_setRecord (options : Options) (store : Store) (id other : String)
    (stored : StoredNoteRecord) :
    (store.setRecord options id stored).records.get other =
      if id = other then some stored else store.records.get other := by
  rw [Store.setRecord]
  split
  · next held =>
    by_cases same : id = other
    · rw [if_pos same, ← same, held]
    · rw [if_neg same]
  · cases active stored.record <;> exact Entries.get_set ..

theorem setRecord_persistent (options : Options) (store : Store) (id : String)
    (stored : StoredNoteRecord) :
    (store.setRecord options id stored).persistent = store.persistent ∧
    (store.setRecord options id stored).dirty = store.dirty := by
  rw [Store.setRecord]
  split
  · exact ⟨rfl, rfl⟩
  · cases active stored.record <;> exact ⟨rfl, rfl⟩

theorem total_setRecord (options : Options) (store : Store) (weigh : StoredNoteRecord → Int)
    (id : String) (stored : StoredNoteRecord) :
    (store.setRecord options id stored).records.total weigh =
      store.records.total weigh - store.records.weight weigh id + weigh stored := by
  rw [Store.setRecord]
  split
  · next held =>
    rw [Entries.weight, held, Option.elim_some]
    omega
  · cases active stored.record <;> exact Entries.total_set ..

theorem Store.Counted.setRecord (counted : store.Counted options) (own : stored.record.id = id) :
    (store.setRecord options id stored).Counted options := by
  have keyed : ∀ other held, (store.setRecord options id stored).records.get other = some held →
      held.record.id = other := by
    intro other held found
    rw [get_setRecord] at found
    split at found
    · next same =>
      cases found
      exact own.trans same
    · exact counted.keyed other held found
  refine ⟨keyed, fun other => ?_, ?_, ?_⟩
  · rw [get_setRecord, Store.setRecord]
    split
    · next held =>
      rw [counted.bytes]
      split
      · next same => rw [← same, held]
      · rfl
    · cases live : active stored.record with
      | none =>
        show (store.liveBytes.delete id).get other = _
        rw [Entries.get_delete, counted.bytes]
        split
        · simp [live]
        · rfl
      | some note =>
        show ((store.liveBytes.delete id).set id (options.storedBytes stored)).get other = _
        rw [Entries.get_set, Entries.get_delete, counted.bytes]
        split
        · simp [live]
        · rfl
  · have gone : (store.liveBytes.delete id).total (fun bytes : Nat => (bytes : Int)) =
        store.liveTotal - ((store.liveBytes.get id).getD 0 : Nat) := by
      rw [Entries.total_delete, ← counted.total, Entries.weight]
      cases store.liveBytes.get id <;> rfl
    rw [Store.setRecord]
    split
    · exact counted.total
    · cases active stored.record with
      | none => exact gone.symm
      | some note =>
        show store.liveTotal - ((store.liveBytes.get id).getD 0 : Nat) +
          (options.storedBytes stored : Int) =
          ((store.liveBytes.delete id).set id (options.storedBytes stored)).total fun bytes :
            Nat => (bytes : Int)
        have absent :
            (store.liveBytes.delete id).weight (fun bytes : Nat => (bytes : Int)) id = 0 := by
          rw [Entries.weight, Entries.get_delete, if_pos rfl, Option.elim_none]
        rw [Entries.total_set, gone, absent]
        omega
  · intro notes cached
    rw [Store.setRecord] at cached ⊢
    split at cached
    · next held =>
      rw [if_pos held]
      exact counted.notes notes cached
    · -- the sorted list is forgotten
      cases live : active stored.record <;> simp [live, Store.uncount] at cached

/-- `drop` forgets a record and what is kept of it. -/
theorem Store.Counted.deleted (counted : store.Counted options) :
    ({ store with records := store.records.delete id }.uncount id).Counted options where
  keyed := by
    intro other held found
    have found : (store.records.delete id).get other = some held := found
    rw [Entries.get_delete] at found
    split at found
    · cases found
    · exact counted.keyed other held found
  bytes := by
    intro other
    show (store.liveBytes.delete id).get other = ((store.records.delete id).get other).bind _
    rw [Entries.get_delete, Entries.get_delete, counted.bytes]
    split <;> rfl
  total := by
    show store.liveTotal - ((store.liveBytes.get id).getD 0 : Nat) =
      (store.liveBytes.delete id).total fun bytes : Nat => (bytes : Int)
    rw [Entries.total_delete, ← counted.total, Entries.weight]
    cases store.liveBytes.get id <;> rfl
  notes := fun _ cached => nomatch cached

theorem Store.Counted.currentNotes (counted : store.Counted options) :
    (currentNotes options store).1 = sortedNotes options store.records ∧
    (currentNotes options store).2.Counted options := by
  have listed : (NotesStore.currentNotes options store).1 = sortedNotes options store.records := by
    rw [NotesStore.currentNotes]
    cases cached : store.liveNotes with
    | none => rfl
    | some notes => exact counted.notes notes cached
  refine ⟨listed, counted.keyed, counted.bytes, counted.total, fun notes cached => ?_⟩
  show notes = sortedNotes options store.records
  rw [← listed]
  exact (Option.some.inj cached).symm

theorem Store.Alike.trans {store'' : Store} (first : store.Alike store')
    (second : store'.Alike store'') : store.Alike store'' where
  records := second.records.trans first.records
  liveBytes := second.liveBytes.trans first.liveBytes
  liveTotal := second.liveTotal.trans first.liveTotal
  liveNotes := second.liveNotes.trans first.liveNotes

theorem Store.degrade_alike (store : Store) : store.Alike store.degrade := ⟨rfl, rfl, rfl, rfl⟩

theorem Store.undirty_alike (store : Store) (id : String) : store.Alike (store.undirty id) :=
  ⟨rfl, rfl, rfl, rfl⟩

theorem Store.soil_alike (store : Store) (id : String) : store.Alike (store.soil id) :=
  ⟨rfl, rfl, rfl, rfl⟩

/-- What is kept under the keys of an id is of that id: a flush writes nothing else there. -/
structure Disk.Keyed (disk : Disk) : Prop where
  records : ∀ id stored, (disk.records.get id).bind Raw.good = some stored → stored.record.id = id
  backups : ∀ id stored, (disk.backups.get id).bind Raw.good = some stored → stored.record.id = id

theorem Disk.Keyed.same {disk' : Disk} (keyed : disk.Keyed) (records : disk'.records = disk.records)
    (backups : disk'.backups = disk.backups) : disk'.Keyed where
  records := by rw [records]; exact keyed.records
  backups := by rw [backups]; exact keyed.backups

/-! ## Operations -/

/-- An operation that reads the storage, and may give it up. -/
structure Reads (store store' : Store) (disk disk' : Disk) : Prop where
  alike : store.Alike store'
  records : disk'.records = disk.records
  backups : disk'.backups = disk.backups

theorem preserveRaw_reads (store : Store) (disk : Disk) :
    Reads store (preserveRaw store disk).1 disk (preserveRaw store disk).2 := by
  rw [preserveRaw]
  split
  · refine ⟨?_, rfl, rfl⟩
    show store.Alike (if disk.access.1 then store.degrade else store)
    split
    · exact store.degrade_alike
    · exact .refl store
  · exact ⟨.refl store, rfl, rfl⟩

theorem recoverRecord_reads (store : Store) (disk : Disk) (id : String) (raw : Option Raw) :
    Reads store (recoverRecord store disk id raw).2.1 disk (recoverRecord store disk id raw).2.2 ∧
      ∀ stored, (recoverRecord store disk id raw).1 = some stored →
        raw.bind Raw.good = some stored ∨ (disk.backups.get id).bind Raw.good = some stored := by
  rw [recoverRecord]
  split
  · next primary good =>
    refine ⟨⟨.refl store, rfl, rfl⟩, fun stored found => Or.inl ?_⟩
    rw [good]
    exact found
  · have first : Reads store (if raw.isSome then preserveRaw store disk else (store, disk)).1 disk
        (if raw.isSome then preserveRaw store disk else (store, disk)).2 := by
      split
      · exact preserveRaw_reads store disk
      · exact ⟨.refl store, rfl, rfl⟩
    generalize (if raw.isSome then preserveRaw store disk else (store, disk)) = middle at first
    obtain ⟨store', disk'⟩ := middle
    obtain ⟨alike, records, backups⟩ := first
    dsimp only at alike records backups ⊢
    split
    · split
      · exact ⟨⟨alike.trans store'.degrade_alike, records, backups⟩, fun _ found => nomatch found⟩
      · refine ⟨⟨alike, records, backups⟩, fun stored found => Or.inr ?_⟩
        rw [← backups]
        exact found
    · exact ⟨⟨alike, records, backups⟩, fun _ found => nomatch found⟩

theorem recoverRecord_keyed {raw : Option Raw} (keyed : disk.Keyed)
    (own : ∀ stored, raw.bind Raw.good = some stored → stored.record.id = id)
    (found : (recoverRecord store disk id raw).1 = some stored) : stored.record.id = id := by
  cases (recoverRecord_reads store disk id raw).2 stored found with
  | inl primary => exact own stored primary
  | inr backup => exact keyed.backups id stored backup

theorem winner_keyed {memory : Option StoredNoteRecord} {found : StoredNoteRecord}
    (held : ∀ stored, memory = some stored → stored.record.id = id) (own : found.record.id = id) :
    (winner memory found).record.id = id := by
  cases memory with
  | none => exact own
  | some memory =>
    show (newer memory found).record.id = id
    rw [newer]
    split
    · exact held memory rfl
    · exact own

/-- What `reconcile` does: nothing, or it takes a record of the id. -/
theorem reconcile_cases (counted : store.Counted options) (keyed : disk.Keyed) (id : String) :
    let answer := reconcile options store disk id
    answer.1 = answer.2.1.records.get id ∧ answer.2.2.records = disk.records ∧
      answer.2.2.backups = disk.backups ∧
      ∃ middle, store.Alike middle ∧ (answer.2.1 = middle ∨
        ∃ taken, taken.record.id = id ∧ answer.2.1 = middle.setRecord options id taken) := by
  intro answer
  simp only [answer, reconcile]
  split
  · split
    · exact ⟨rfl, rfl, rfl, _, store.degrade_alike, Or.inl rfl⟩
    · have spec := recoverRecord_reads store disk.access.2 id (disk.access.2.records.get id)
      have own := @recoverRecord_keyed store disk.access.2 id
      split
      · next store' disk' recovered =>
        rw [recovered] at spec
        exact ⟨by rw [spec.1.alike.records], spec.1.records, spec.1.backups, store', spec.1.alike,
          Or.inl rfl⟩
      · next persisted store' disk' recovered =>
        rw [recovered] at spec
        have taken : persisted.record.id = id :=
          own (keyed.same rfl rfl) (keyed.records id) (congrArg Prod.fst recovered)
        refine ⟨?_, spec.1.records, spec.1.backups, store', spec.1.alike, Or.inr ⟨_, ?_, rfl⟩⟩
        · rw [get_setRecord, if_pos rfl]
        · refine winner_keyed (fun stored held => counted.keyed id stored ?_) taken
          rw [← spec.1.alike.records]
          exact held
  · exact ⟨rfl, rfl, rfl, store, .refl store, Or.inl rfl⟩

/-- The caches are right, and the storage is keyed. -/
structure Sound (options : Options) (store : Store) (disk : Disk) : Prop where
  counted : store.Counted options
  keyed : disk.Keyed

theorem Sound.reads {store' : Store} {disk' : Disk} (sound : Sound options store disk)
    (reads : Reads store store' disk disk') :
    Sound options store' disk' :=
  ⟨sound.counted.alike reads.alike, sound.keyed.same reads.records reads.backups⟩

theorem Sound.access (sound : Sound options store disk) : Sound options store disk.access.2 :=
  ⟨sound.counted, sound.keyed.same rfl rfl⟩

theorem Sound.degrade (sound : Sound options store disk) : Sound options store.degrade disk :=
  ⟨sound.counted.alike store.degrade_alike, sound.keyed⟩

theorem Sound.reconcile (sound : Sound options store disk) (id : String) :
    Sound options (reconcile options store disk id).2.1 (reconcile options store disk id).2.2 := by
  obtain ⟨-, records, backups, middle, alike, same | ⟨taken, own, same⟩⟩ :=
    reconcile_cases sound.counted sound.keyed id
  · exact ⟨same ▸ sound.counted.alike alike, sound.keyed.same records backups⟩
  · exact ⟨same ▸ (sound.counted.alike alike).setRecord own, sound.keyed.same records backups⟩

theorem keyed_delete {strings : Entries String Raw}
    (keyed : ∀ other stored, (strings.get other).bind Raw.good = some stored →
    stored.record.id = other) (id : String) :
    ∀ other stored, ((strings.delete id).get other).bind Raw.good = some stored →
      stored.record.id = other := by
  intro other stored found
  rw [Entries.get_delete] at found
  split at found
  · cases found
  · exact keyed other stored found

theorem keyed_set {strings : Entries String Raw}
    (keyed : ∀ other stored, (strings.get other).bind Raw.good = some stored →
    stored.record.id = other)
    (own : stored.record.id = id) :
    ∀ other held, ((strings.set id (.stored stored)).get other).bind Raw.good = some held →
      held.record.id = other := by
  intro other held found
  rw [Entries.get_set] at found
  split at found
  · next same =>
    cases found
    exact own.trans same
  · exact keyed other held found

theorem Sound.removeItems (sound : Sound options store disk) (id : String) :
    Sound options (removeItems store disk id).1 (removeItems store disk id).2 := by
  simp only [NotesStore.removeItems]
  split
  · split
    · exact sound.access.degrade
    · have removed :
          Sound options store { disk.access.2 with records := disk.access.2.records.delete id } :=
        ⟨sound.counted, keyed_delete sound.keyed.records id, sound.keyed.backups⟩
      split
      · exact removed.access.degrade
      · exact ⟨sound.counted, removed.keyed.records, keyed_delete sound.keyed.backups id⟩
  · exact sound

theorem Sound.drop (sound : Sound options store disk) (id : String) :
    Sound options (drop store disk id).1 (drop store disk id).2 := by
  rw [NotesStore.drop]
  refine Sound.removeItems ⟨?_, sound.keyed⟩ id
  split
  · exact sound.counted.deleted.alike (Store.undirty_alike _ id)
  · exact sound.counted.alike (store.undirty_alike id)

theorem Sound.loadOne (sound : Sound options store disk) (now : Int) (id : String) :
    Sound options (loadOne options now (store, disk) id).1
      (loadOne options now (store, disk) id).2 := by
  simp only [NotesStore.loadOne]
  split
  · split
    · exact sound.access.degrade
    · have reads := (recoverRecord_reads store disk.access.2 id (disk.access.2.records.get id)).1
      have own := @recoverRecord_keyed store disk.access.2 id
      split
      · next store' disk' recovered =>
        rw [recovered] at reads
        exact sound.access.reads reads
      · next stored store' disk' recovered =>
        rw [recovered] at reads
        have later : Sound options store' disk' := sound.access.reads reads
        have taken : stored.record.id = id :=
          own sound.access.keyed (sound.keyed.records id) (congrArg Prod.fst recovered)
        split
        · exact later.removeItems id
        · exact ⟨later.counted.setRecord (winner_keyed (later.counted.keyed id) taken), later.keyed⟩
  · exact sound

theorem Sound.loadAll (sound : Sound options store disk) (now : Int) (keys : List String) :
    Sound options (keys.foldl (NotesStore.loadOne options now) (store, disk)).1
      (keys.foldl (NotesStore.loadOne options now) (store, disk)).2 := by
  induction keys generalizing store disk with
  | nil => exact sound
  | cons id rest inductionHypothesis => exact inductionHypothesis (sound.loadOne now id)

theorem Sound.load (sound : Sound options store disk) (now : Int) :
    Sound options (load options now store disk).1 (load options now store disk).2 := by
  simp only [NotesStore.load]
  split
  · split
    · exact sound.access.degrade
    · exact sound.access.loadAll now _
  · exact sound

theorem counted_empty (options : Options) (storage : Bool) :
    (Store.empty storage).Counted options where
  keyed := fun _ _ held => nomatch held
  bytes := fun _ => rfl
  total := rfl
  notes := fun _ cached => nomatch cached

theorem keyed_backupOf {backups : Entries String Raw} {memory : StoredNoteRecord} {raw : Option Raw}
    (keyed : ∀ other stored, (backups.get other).bind Raw.good = some stored →
    stored.record.id = other)
    (mine : memory.record.id = id) (own : ∀ stored, raw.bind Raw.good = some stored →
    stored.record.id = id) :
    ∀ other stored, ((backupOf backups id memory raw).get other).bind Raw.good = some stored →
      stored.record.id = other := by
  rw [backupOf]
  split
  · exact keyed_delete keyed id
  · next good _ found => exact keyed_set keyed (own good found)
  · exact keyed_set keyed mine

theorem Sound.flushOne (sound : Sound options store disk) (id : String) :
    Sound options (flushOne options store disk id).2.1 (flushOne options store disk id).2.2 := by
  simp only [NotesStore.flushOne]
  split
  · split
    · exact sound.access.degrade
    · have reads := (recoverRecord_reads store disk.access.2 id (disk.access.2.records.get id)).1
      have own := @recoverRecord_keyed store disk.access.2 id
      cases recovered : recoverRecord store disk.access.2 id (disk.access.2.records.get id) with
      | mk persisted rest =>
        obtain ⟨store', disk'⟩ := rest
        rw [recovered] at reads
        have later : Sound options store' disk' := sound.access.reads reads
        dsimp only
        split
        · exact ⟨later.counted.alike (store'.undirty_alike id), later.keyed⟩
        · next memory held =>
          have mine := later.counted.keyed id memory held
          have kept :
              ((persisted.map fun persisted => newer memory persisted).getD memory).record.id =
              id := by
            cases persisted with
            | none => exact mine
            | some found =>
              have taken : found.record.id = id :=
                own sound.access.keyed (sound.keyed.records id) (congrArg Prod.fst recovered)
              have held : ∀ stored, some memory = some stored → stored.record.id = id :=
                fun stored same => Option.some.inj same ▸ mine
              exact winner_keyed held taken
          have counted := later.counted.setRecord kept
          split
          · exact ⟨counted.alike (Store.undirty_alike _ id), later.keyed⟩
          · split
            · exact ⟨counted.alike (Store.degrade_alike _), later.keyed⟩
            · split
              · exact ⟨counted.alike (Store.degrade_alike _), later.keyed.same rfl rfl⟩
              · have backups := keyed_backupOf later.keyed.backups mine (sound.keyed.records id)
                split
                · exact ⟨counted.alike (Store.degrade_alike _), later.keyed.records, backups⟩
                · exact ⟨counted.alike (Store.undirty_alike _ id),
                    keyed_set later.keyed.records mine, backups⟩
  · exact sound.degrade

theorem Sound.flushAll (sound : Sound options store disk) (ids : List String) (wrote : Bool) :
    Sound options (flushAll options ids wrote store disk).2.1
      (flushAll options ids wrote store disk).2.2 := by
  induction ids generalizing store disk wrote with
  | nil => exact sound
  | cons id rest inductionHypothesis =>
    have first := sound.flushOne id
    rw [NotesStore.flushAll]
    split
    · next stopped =>
      rw [stopped] at first
      exact first
    · next skipped =>
      rw [skipped] at first
      exact inductionHypothesis first wrote
    · next written =>
      rw [written] at first
      exact inductionHypothesis first true

theorem Sound.flush (sound : Sound options store disk) :
    Sound options (flush options store disk).2.1 (flush options store disk).2.2 := by
  rw [NotesStore.flush]
  split
  · exact sound.flushAll store.dirty false
  · exact sound

theorem Sound.onEvent (sound : Sound options store disk) {newValue : Option Raw}
    (own : ∀ stored, newValue.bind Raw.good = some stored → stored.record.id = id) :
    Sound options (onEvent options store disk id newValue).1
      (onEvent options store disk id newValue).2 := by
  have reads := (recoverRecord_reads store disk id newValue).1
  have keyed := @recoverRecord_keyed store disk id
  simp only [NotesStore.onEvent]
  split
  · next store' disk' recovered =>
    rw [recovered] at reads
    exact sound.reads reads
  · next incoming store' disk' recovered =>
    rw [recovered] at reads
    have later : Sound options store' disk' := sound.reads reads
    have taken : incoming.record.id = id := keyed sound.keyed own (congrArg Prod.fst recovered)
    split
    · exact later
    · exact ⟨(later.counted.setRecord (winner_keyed (later.counted.keyed id) taken)).alike
        (Store.undirty_alike _ id), later.keyed⟩

theorem Store.Counted.putBatch (counted : store.Counted options) (values : List StoredNoteRecord) :
    (putBatch options store values).Counted options := by
  induction values generalizing store with
  | nil => exact counted
  | cons stored rest inductionHypothesis =>
    exact inductionHypothesis ((counted.setRecord rfl).alike (Store.soil_alike _ stored.record.id))

theorem Sound.add (sound : Sound options store disk) (input : NewNote) (timestamp : Int)
    (id writeID : String) :
    (add options store input timestamp id writeID).2.Counted options := by
  simp only [NotesStore.add]
  split
  · exact sound.counted
  · split
    · exact sound.counted
    · exact sound.counted.putBatch _

theorem Sound.edit (sound : Sound options store disk) (id : String) (changes : Changes)
    (fallback : Option Note) (now : Int)
    (writeID : String) : Sound options (edit options store disk id changes fallback now writeID).2.1
      (edit options store disk id changes fallback now writeID).2.2 := by
  have middle := sound.reconcile id
  simp only [NotesStore.edit]
  split
  · exact middle
  · split
    · exact middle
    · split
      · exact middle
      · exact ⟨middle.counted.putBatch _, middle.keyed⟩

theorem Sound.deleteAll (sound : Sound options store disk) (tombstones : List StoredNoteRecord)
    (deletions : List Deletion) :
    Sound options (deletions.foldl (deleteOne options) (tombstones, store, disk)).2.1
      (deletions.foldl (deleteOne options) (tombstones, store, disk)).2.2 := by
  induction deletions generalizing store disk tombstones with
  | nil => exact sound
  | cons deletion rest inductionHypothesis =>
      exact inductionHypothesis (sound.reconcile deletion.id) _

theorem Sound.delete (sound : Sound options store disk) (deletions : List Deletion) :
    Sound options (delete options store disk deletions).2.1
      (delete options store disk deletions).2.2 := by
  have middle := sound.deleteAll [] deletions
  simp only [NotesStore.delete]
  split
  · exact middle
  · exact ⟨middle.counted.putBatch _, middle.keyed⟩

theorem Sound.mergeOne (sound : Sound options store disk) (now : Int)
    (incoming : StoredNoteRecord) :
    Sound options (mergeOne options now (store, disk) incoming).1
      (mergeOne options now (store, disk) incoming).2 := by
  simp only [NotesStore.mergeOne]
  split
  · exact sound
  · split
    · split
      · exact sound.drop incoming.record.id
      · exact sound
    · exact ⟨(sound.counted.setRecord rfl).alike (Store.soil_alike _ incoming.record.id),
        sound.keyed⟩

theorem Sound.merge (sound : Sound options store disk) (now : Int)
    (values : List StoredNoteRecord) :
    Sound options (merge options now store disk values).1
      (merge options now store disk values).2 := by
  rw [NotesStore.merge]
  induction values generalizing store disk with
  | nil => exact sound
  | cons incoming rest inductionHypothesis =>
      exact inductionHypothesis (sound.mergeOne now incoming)

theorem Sound.forget (sound : Sound options store disk) (ids : List String) :
    Sound options (forget store disk ids).1 (forget store disk ids).2 := by
  rw [NotesStore.forget]
  induction ids.filter (fun id => (store.records.get id).isSome) generalizing store disk with
  | nil => exact sound
  | cons id rest inductionHypothesis => exact inductionHypothesis (sound.drop id)

end

/-! ## Runs -/

/-- An operation of a store; `pagehide` and `dispose` flush. -/
inductive Call where
  | list
  | add (input : NewNote) (timestamp : Int) (id writeID : String)
  | edit (id : String) (changes : Changes) (fallback : Option Note) (now : Int) (writeID : String)
  | delete (deletions : List Deletion)
  | merge (now : Int) (values : List StoredNoteRecord)
  | forget (ids : List String)
  | flush
  | event (id : String) (newValue : Option Raw)

/-- The store and the storage after an operation. -/
def Call.run (options : Options) (store : Store) (disk : Disk) : Call → Store × Disk
  | list => ((currentNotes options store).2, disk)
  | add input timestamp id writeID =>
      ((NotesStore.add options store input timestamp id writeID).2, disk)
  | edit id changes fallback now writeID =>
      (NotesStore.edit options store disk id changes fallback now writeID).2
  | delete deletions => (NotesStore.delete options store disk deletions).2
  | merge now values => NotesStore.merge options now store disk values
  | forget ids => NotesStore.forget store disk ids
  | flush => (NotesStore.flush options store disk).2
  | event id newValue => onEvent options store disk id newValue

/-- An event tells of a record of its key. -/
def Call.Keyed : Call → Prop
  | event id newValue => ∀ stored, newValue.bind Raw.good = some stored → stored.record.id = id
  | _ => True

/-- A store after its operations, each of which finds the storage as others left it. -/
def runCalls (options : Options) (store : Store) (calls : List (Disk × Call)) : Store :=
  calls.foldl (fun store call => (call.2.run options store call.1).1) store

/-- The number of active notes. -/
def activeCount (store : Store) : Nat := (activeNotes store.records).length

def Store.note (store : Store) (id : String) : Option Note :=
  (store.records.get id).bind fun stored => active stored.record

section

variable {options : Options} {store : Store} {disk : Disk}

theorem Sound.call (sound : Sound options store disk) {call : Call} (keyed : call.Keyed) :
    Sound options (call.run options store disk).1 (call.run options store disk).2 := by
  cases call with
  | list => exact ⟨sound.counted.currentNotes.2, sound.keyed⟩
  | add input timestamp id writeID => exact ⟨sound.add input timestamp id writeID, sound.keyed⟩
  | edit id changes fallback now writeID => exact sound.edit id changes fallback now writeID
  | delete deletions => exact sound.delete deletions
  | merge now values => exact sound.merge now values
  | forget ids => exact sound.forget ids
  | flush => exact sound.flush
  | event id newValue => exact sound.onEvent keyed

theorem Store.Counted.runCalls (counted : store.Counted options) {calls : List (Disk × Call)}
    (keyed : ∀ call ∈ calls, call.1.Keyed ∧ call.2.Keyed) :
    (runCalls options store calls).Counted options := by
  induction calls generalizing store with
  | nil => exact counted
  | cons call rest inductionHypothesis =>
    obtain ⟨storage, own⟩ := keyed call List.mem_cons_self
    exact inductionHypothesis (Sound.call ⟨counted, storage⟩ own).counted fun later inside =>
      keyed later (List.mem_cons_of_mem _ inside)

theorem counted_created (options : Options) (now : Int) (storage : Bool) {disk : Disk}
    (keyed : disk.Keyed) :
    (createNotesStore options now storage disk).1.Counted options :=
  (Sound.load ⟨counted_empty options storage, keyed⟩ now).counted

/-! ## The limits -/

theorem activeCount_eq (store : Store) : (activeCount store : Int) = store.records.total isLive :=
  length_activeNotes store.records

theorem weight_isLive (store : Store) (id : String) :
    store.records.weight isLive id = if (store.note id).isSome then 1 else 0 := by
  rw [Entries.weight, Store.note]
  cases store.records.get id with
  | none => rfl
  | some stored =>
    show isLive stored = _
    rw [isLive]
    cases live : active stored.record <;> simp [live]

/-- A note that is put counts once, whatever its record was. -/
theorem activeCount_put (options : Options) (store : Store) (writeID : String) (note : Note) :
    (activeCount (putBatch options store [⟨writeID, .note note⟩]) : Int) =
      activeCount store - (if (store.note note.id).isSome then 1 else 0) + 1 := by
  rw [activeCount_eq, activeCount_eq, ← weight_isLive]
  exact total_setRecord options store isLive note.id ⟨writeID, .note note⟩

theorem liveTotal_put (counted : store.Counted options) (stored : StoredNoteRecord) :
    (putBatch options store [stored]).liveTotal = totalWith options store stored := by
  rw [(counted.putBatch [stored]).liveTotal_eq, totalWith, counted.liveTotal_eq, counted.bytes_getD]
  refine (total_setRecord options store (liveSize options) stored.record.id stored).trans ?_
  rw [liveSize]
  cases active stored.record <;> rfl

/-- What a candidate that is not refused keeps to. -/
theorem admitted {note : Note} {writeID : String} {adding : Bool} (counted : store.Counted options)
    (passes : refuseCandidate options store ⟨writeID, .note note⟩ adding = none) :
    noteBytes note ≤ options.maxNoteBytes ∧
      (adding = true → activeCount store < options.maxActiveNotes) ∧
      (putBatch options store [⟨writeID, .note note⟩]).liveTotal ≤ options.maxTotalBytes := by
  have counts := counted.size_eq
  rw [← length_activeNotes] at counts
  rw [refuseCandidate] at passes
  split at passes
  · cases passes
  · next short =>
    split at passes
    · cases passes
    · next room =>
      split at passes
      · cases passes
      · next fits =>
        refine ⟨?_, fun adds => ?_, ?_⟩
        · simpa [active] using short
        · simp only [adds, Bool.true_and, decide_eq_true_eq, not_le] at room
          show (activeNotes store.records).length < options.maxActiveNotes
          omega
        · rw [liveTotal_put counted]
          exact not_lt.mp fits

theorem add_limits (counted : store.Counted options) {input : NewNote} {timestamp : Int}
    {id writeID : String} {note : Note}
    (accepted : (add options store input timestamp id writeID).1 = .ok note) :
    noteBytes note ≤ options.maxNoteBytes ∧
      activeCount (add options store input timestamp id writeID).2 ≤ options.maxActiveNotes ∧
      (add options store input timestamp id writeID).2.liveTotal ≤ options.maxTotalBytes := by
  simp only [add] at accepted ⊢
  split at accepted
  · cases accepted
  · next written =>
    rw [if_neg written]
    split at accepted
    · cases accepted
    · next passes =>
      cases accepted
      obtain ⟨short, room, fits⟩ := admitted counted passes
      have counts := activeCount_put options store writeID
        ⟨id, input.group, trim input.text, (input.quote.map trim).filter (· ≠ ""), input.source,
          timestamp, timestamp⟩
      refine ⟨short, ?_, fits⟩
      have free := room rfl
      dsimp only
      split at counts <;> omega

theorem editBase_id {current : Option StoredNoteRecord} {id : String} {fallback : Option Note}
    {base : Note}
    (keyed : ∀ stored, current = some stored → stored.record.id = id)
    (from_ : editBase current id fallback = some base) :
    base.id = id := by
  rw [editBase] at from_
  split at from_
  · next note held =>
    cases from_
    obtain ⟨stored, found, live⟩ := Option.bind_eq_some_iff.mp held
    have own := keyed stored found
    obtain ⟨wid, record⟩ := stored
    cases record with
    | note written =>
      cases live
      exact own
    | tombstone => cases live
  · exact of_decide_eq_true (Option.filter_eq_some_iff.mp from_).2

/-- What an edit does: it reads the storage, and where it is accepted it puts its note. -/
theorem edit_cases (options : Options) (store : Store) (disk : Disk) (id : String)
    (changes : Changes) (fallback : Option Note)
    (now : Int) (writeID : String) :
    let read := reconcile options store disk id
    let answer := edit options store disk id changes fallback now writeID
    (∃ reason, answer = (.error reason, read.2)) ∨
      ∃ base note, editBase read.1 id fallback = some base ∧ note.id = base.id ∧
        note.updated =
          max now ((read.1.map fun current => current.record.updated).getD base.updated + 1) ∧
        refuseCandidate options read.2.1 ⟨writeID, .note note⟩ false = none ∧
        answer = (.ok note, putBatch options read.2.1 [⟨writeID, .note note⟩], read.2.2) := by
  intro read answer
  simp only [answer, edit]
  cases from_ : editBase read.1 id fallback with
  | none => exact Or.inl ⟨_, rfl⟩
  | some base =>
    dsimp only
    split
    · exact Or.inl ⟨_, rfl⟩
    · split
      · exact Or.inl ⟨_, rfl⟩
      · next passes =>
        refine Or.inr ⟨base, _, rfl, ?_, ?_, passes, rfl⟩
        · rfl
        · rfl

/-- An accepted edit leaves its note active, and the other notes as they were. -/
theorem edit_spec (sound : Sound options store disk) {id : String} {changes : Changes}
    {fallback : Option Note} {now : Int}
    {writeID : String} {note : Note}
    (accepted : (edit options store disk id changes fallback now writeID).1 = .ok note) :
    let after := (edit options store disk id changes fallback now writeID).2.1
    noteBytes note ≤ options.maxNoteBytes ∧ after.liveTotal ≤ options.maxTotalBytes ∧
      (activeCount after : Int) = activeCount store -
          (if (store.note id).isSome then 1 else 0) + 1 := by
  have middle := sound.reconcile id
  obtain ⟨answers, -, -, between, alike, taken⟩ := reconcile_cases sound.counted sound.keyed id
  -- reading the storage changes no other record
  have counts : (activeCount (reconcile options store disk id).2.1 : Int) -
        (if ((reconcile options store disk id).2.1.note id).isSome then 1 else 0) =
      activeCount store - (if (store.note id).isSome then 1 else 0) := by
    rw [← weight_isLive, ← weight_isLive, activeCount_eq, activeCount_eq, ← alike.records]
    cases taken with
    | inl same => rw [same]
    | inr takes =>
      obtain ⟨record, -, same⟩ := takes
      have weighs :
          (between.setRecord options id record).records.weight isLive id = isLive record := by
        rw [Entries.weight, get_setRecord, if_pos rfl, Option.elim_some]
      rw [same, total_setRecord, weighs]
      omega
  intro after
  cases edit_cases options store disk id changes fallback now writeID with
  | inl refused =>
    obtain ⟨reason, same⟩ := refused
    rw [same] at accepted
    cases accepted
  | inr written =>
    obtain ⟨base, written, from_, own, -, passes, same⟩ := written
    rw [same] at accepted
    cases accepted
    obtain ⟨short, -, fits⟩ := admitted middle.counted passes
    have named : note.id = id :=
      own.trans (editBase_id (fun stored found => middle.counted.keyed id stored (answers ▸ found))
        from_)
    simp only [after, same]
    refine ⟨short, fits, ?_⟩
    rw [activeCount_put, named, counts]

end

/-- After any operations the totals and the list are those of the active records, and an add keeps
all three limits; an edit keeps the sizes, and the limit of notes when its note is active or there
is room. -/
theorem caches_and_limits (options : Options) (storage : Bool) (now : Int) {disk : Disk}
    (keyed : disk.Keyed)
    {calls : List (Disk × Call)} (each : ∀ call ∈ calls, call.1.Keyed ∧ call.2.Keyed) :
    let store := runCalls options (createNotesStore options now storage disk).1 calls
    (store.liveTotal = store.records.total (liveSize options) ∧
      (∀ id, (store.liveBytes.get id).isSome = (store.note id).isSome) ∧
      (currentNotes options store).1 = sortedNotes options store.records) ∧
    (∀ input timestamp id writeID note, (add options store input timestamp id writeID).1 =
      .ok note →
      let after := (add options store input timestamp id writeID).2
      noteBytes note ≤ options.maxNoteBytes ∧ after.liveTotal ≤ options.maxTotalBytes ∧
        (activeCount store ≤ options.maxActiveNotes → activeCount after ≤ options.maxActiveNotes)) ∧
    ∀ found : Disk, found.Keyed → ∀ id changes fallback now writeID note,
      (edit options store found id changes fallback now writeID).1 = .ok note →
      let after := (edit options store found id changes fallback now writeID).2.1
      noteBytes note ≤ options.maxNoteBytes ∧ after.liveTotal ≤ options.maxTotalBytes ∧
        (activeCount store ≤ options.maxActiveNotes →
          (activeCount after ≤ options.maxActiveNotes ↔
            (store.note id).isSome ∨ activeCount store < options.maxActiveNotes)) := by
  intro store
  have counted : store.Counted options := (counted_created options now storage keyed).runCalls each
  refine ⟨⟨counted.liveTotal_eq, fun id => ?_, counted.currentNotes.1⟩, ?_, ?_⟩
  · rw [counted.bytes, Store.note]
    cases store.records.get id with
    | none => rfl
    | some stored =>
      show ((active stored.record).map fun _ => options.storedBytes stored).isSome =
        (active stored.record).isSome
      exact Option.isSome_map
  · intro input timestamp id writeID note accepted after
    obtain ⟨short, room, fits⟩ := add_limits counted accepted
    exact ⟨short, fits, fun _ => room⟩
  · intro found held id changes fallback now writeID note accepted after
    obtain ⟨short, fits, counts⟩ := edit_spec ⟨counted, held⟩ accepted
    change (activeCount after : Int) = _ at counts
    refine ⟨short, fits, fun within => ?_⟩
    split at counts
    · next live =>
      simp only [live, true_or, iff_true]
      omega
    · next gone =>
      simp only [Bool.not_eq_true] at gone
      simp only [gone, Bool.false_eq_true, false_or]
      omega

/-! ## A note that comes back -/

def oneNote : Options where
  maxActiveNotes := 1
  maxNoteBytes := 100
  maxTotalBytes := 1000
  tombstoneRetentionMs := 1000
  storedBytes _ := 10
  collation := {
    le := fun _ _ => true
    total := fun _ _ => rfl
    trans := fun _ _ _ _ _ => rfl }

def noDisk : Disk := ⟨.empty, .empty, []⟩

theorem noDisk_keyed : noDisk.Keyed :=
  ⟨fun _ _ found => (nomatch found), fun _ _ found => nomatch found⟩

/-- A note whose editor is open. -/
def openNote : Note := ⟨"b", "general", "first", none, none, 1, 1⟩

/-- It is deleted from elsewhere, and another takes its place. -/
def replacedCalls : List (Disk × Call) :=
  [(noDisk, .merge 1 [⟨"v", .note openNote⟩]), (noDisk, .merge 2 [⟨"w", .tombstone "b" 2⟩]),
    (noDisk, .add ⟨"general", "second", none, none⟩ 3 "a" "x")]

def replacedStore : Store :=
  runCalls oneNote (createNotesStore oneNote 0 false noDisk).1 replacedCalls

theorem revived_uncounted :
    activeCount replacedStore = 1 ∧ oneNote.maxActiveNotes = 1 ∧
      (edit oneNote replacedStore noDisk "b" ⟨some "again", none⟩ (some openNote) 4 "y").1 =
        .ok ⟨"b", "general", "again", none, none, 1, 4⟩ ∧
      activeCount (edit oneNote replacedStore noDisk "b" ⟨some "again", none⟩
        (some openNote) 4 "y").2.1 = 2 := by
  decide +kernel

theorem caches_and_limits_sample :
    replacedStore.liveTotal = replacedStore.records.total (liveSize oneNote) ∧
      (activeCount (edit oneNote replacedStore noDisk "a" ⟨some "again", none⟩ none 4 "y").2.1 ≤ 1 ↔
        (replacedStore.note "a").isSome ∨ activeCount replacedStore < 1) := by
  have keyed : ∀ call ∈ replacedCalls, call.1.Keyed ∧ call.2.Keyed := by
    simp [replacedCalls, Call.Keyed, noDisk_keyed]
  obtain ⟨⟨total, -⟩, -, edits⟩ := caches_and_limits oneNote false 0 noDisk_keyed keyed
  have accepted : (edit oneNote replacedStore noDisk "a" ⟨some "again", none⟩ none 4 "y").1 =
      .ok ⟨"a", "general", "again", none, none, 3, 4⟩ := by decide +kernel
  exact ⟨total, (edits noDisk noDisk_keyed "a" _ none 4 "y" _ accepted).2.2 (by decide +kernel)⟩

end AiConfig.Herder.NotesStore
