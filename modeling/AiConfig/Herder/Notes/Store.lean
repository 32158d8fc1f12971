import AiConfig.Herder.State.Store
import AiConfig.Lib.Collections
import Mathlib.Data.List.Sort

/-! # The notes store

Transcription of `createNotesStore` of `notesStore.ts`.  The storage holds a string of each
key, taken for what it parses to; any access of it may throw.  A flush may come at any time,
so its timer is not kept, and neither is what subscribers are told. -/

namespace AiConfig.Herder.NotesStore

open AiConfig.Lib

inductive NoteSource where
  | file (path : String) (start stop : Option Int)
  | diff (path base : String) (start stop : Option Int)
  | transcript (agent : String)
  deriving DecidableEq

structure Note where
  id : String
  group : String
  text : String
  quote : Option String
  source : Option NoteSource
  created : Int
  updated : Int
  deriving DecidableEq

inductive NoteRecord where
  | note (note : Note)
  | tombstone (id : String) (updated : Int)
  deriving DecidableEq

def NoteRecord.id : NoteRecord → String
  | .note written => written.id
  | .tombstone id _ => id

def NoteRecord.updated : NoteRecord → Int
  | .note written => written.updated
  | .tombstone _ updated => updated

structure StoredNoteRecord where
  writeID : String
  record : NoteRecord
  deriving DecidableEq

/-- The note of a record that is no tombstone. -/
def active : NoteRecord → Option Note
  | .note note => some note
  | .tombstone .. => none

def newer (left right : StoredNoteRecord) : StoredNoteRecord :=
  if 0 ≤ compareVersions left.record.updated left.writeID right.record.updated right.writeID then
    left else right

/-- White space of `trim`. -/
def isSpace (c : Char) : Bool :=
  c.toNat ∈ [0x09, 0x0a, 0x0b, 0x0c, 0x0d, 0x20, 0xa0, 0x1680, 0x2028, 0x2029, 0x202f, 0x205f,
    0x3000, 0xfeff] ||
    (0x2000 ≤ c.toNat && c.toNat ≤ 0x200a)

def trim (text : String) : String :=
  String.ofList ((text.toList.dropWhile isSpace).reverse.dropWhile isSpace).reverse

def noteBytes (note : Note) : Nat := (note.quote.getD "" ++ note.text).utf8ByteSize

/-- `storedBytes` is the size of a record's serialisation. -/
structure Options where
  maxActiveNotes : Nat
  maxNoteBytes : Nat
  maxTotalBytes : Nat
  tombstoneRetentionMs : Int
  storedBytes : StoredNoteRecord → Nat
  collation : Collation

def Options.expired (options : Options) (now : Int) : NoteRecord → Bool
  | .note _ => false
  | .tombstone _ updated => options.tombstoneRetentionMs < now - updated

/-- What `parseStored` makes of a string. -/
inductive Raw where
  | stored (record : StoredNoteRecord)
  | unreadable

def Raw.good : Raw → Option StoredNoteRecord
  | .stored record => some record
  | .unreadable => none

/-- The strings at the record and the backup key of an id, and which of the accesses to come throw.
-/
structure Disk where
  records : Entries String Raw
  backups : Entries String Raw
  faults : List Bool

def Disk.access (disk : Disk) : Bool × Disk :=
  (disk.faults.headD false, { disk with faults := disk.faults.tail })

structure Store where
  /-- Whether `storage` is not `null`. -/
  persistent : Bool
  records : Entries String StoredNoteRecord
  liveBytes : Entries String Nat
  liveTotal : Int
  liveNotes : Option (List Note)
  dirty : List String

def Store.empty (persistent : Bool) : Store := ⟨persistent, .empty, .empty, 0, none, []⟩

/-- What the running totals are told of a record that goes. -/
def Store.uncount (store : Store) (id : String) : Store :=
  { store with
    liveNotes := none
    liveTotal := store.liveTotal - ((store.liveBytes.get id).getD 0 : Nat)
    liveBytes := store.liveBytes.delete id }

def Store.setRecord (options : Options) (store : Store) (id : String) (stored : StoredNoteRecord) :
    Store :=
  if store.records.get id = some stored then store
  else
    let store := { store with records := store.records.set id stored }.uncount id
    match active stored.record with
    | none => store
    | some _ =>
      let bytes := options.storedBytes stored
      { store with liveBytes := store.liveBytes.set id bytes, liveTotal := store.liveTotal + bytes }

def Store.undirty (store : Store) (id : String) : Store :=
  { store with dirty := store.dirty.filter (· ≠ id) }

def Store.soil (store : Store) (id : String) : Store :=
  { store with dirty := if id ∈ store.dirty then store.dirty else store.dirty ++ [id] }

def Store.degrade (store : Store) : Store := { store with persistent := false, dirty := [] }

/-- Nothing reads what it keeps. -/
def preserveRaw (store : Store) (disk : Disk) : Store × Disk :=
  if store.persistent then
    let (throws, disk) := disk.access
    (if throws then store.degrade else store, disk)
  else (store, disk)

def recoverRecord (store : Store) (disk : Disk) (id : String) (raw : Option Raw) :
    Option StoredNoteRecord × Store × Disk :=
  match raw.bind Raw.good with
  | some primary => (some primary, store, disk)
  | none =>
    -- What cannot be read is put aside before the backup is tried.
    let (store, disk) := if raw.isSome then preserveRaw store disk else (store, disk)
    if store.persistent then
      let (throws, disk) := disk.access
      if throws then (none, store.degrade, disk)
      else ((disk.backups.get id).bind Raw.good, store, disk)
    else (none, store, disk)

/-- The newer of what is held and what was found. -/
def winner (memory : Option StoredNoteRecord) (found : StoredNoteRecord) : StoredNoteRecord :=
  match memory with
  | some memory => newer memory found
  | none => found

/-- `removeItem` of a record's keys. -/
def removeItems (store : Store) (disk : Disk) (id : String) : Store × Disk :=
  if store.persistent then
    let (throws, disk) := disk.access
    if throws then (store.degrade, disk)
    else
      let disk := { disk with records := disk.records.delete id }
      let (throws, disk) := disk.access
      if throws then (store.degrade, disk)
      else (store, { disk with backups := disk.backups.delete id })
  else (store, disk)

def drop (store : Store) (disk : Disk) (id : String) : Store × Disk :=
  let store :=
    if (store.records.get id).isSome then
    { store with records := store.records.delete id }.uncount id else store
  removeItems (store.undirty id) disk id

/-- One key of `load`; once it has thrown no other is read. -/
def loadOne (options : Options) (now : Int) (state : Store × Disk) (id : String) : Store × Disk :=
  let (store, disk) := state
  if store.persistent then
    let (throws, disk) := disk.access
    if throws then (store.degrade, disk)
    else
      match recoverRecord store disk id (disk.records.get id) with
      | (none, store, disk) => (store, disk)
      | (some stored, store, disk) =>
        if options.expired now stored.record then removeItems store disk id
        else (store.setRecord options id (winner (store.records.get id) stored), disk)
  else (store, disk)

def load (options : Options) (now : Int) (store : Store) (disk : Disk) : Store × Disk :=
  if store.persistent then
    let (throws, disk) := disk.access
    if throws then (store.degrade, disk) else disk.records.keys.foldl (loadOne options now)
      (store, disk)
  else (store, disk)

/-- `createNotesStore`; `storage` may not be there. -/
def createNotesStore (options : Options) (now : Int) (storage : Bool) (disk : Disk) :
    Store × Disk :=
  load options now (.empty storage) disk

/-! ## Reading -/

def before (collation : Collation) (left right : Note) : Bool :=
  left.created < right.created || (left.created = right.created && collation.le left.id right.id)

def activeNotes (records : Entries String StoredNoteRecord) : List Note :=
  records.values.filterMap fun stored => active stored.record

/-- `list` -/
def currentNotes (options : Options) (store : Store) : List Note × Store :=
  let notes :=
    store.liveNotes.getD ((activeNotes store.records).mergeSort (before options.collation))
  (notes, { store with liveNotes := some notes })

def reconcile (options : Options) (store : Store) (disk : Disk) (id : String) :
    Option StoredNoteRecord × Store × Disk :=
  if store.persistent then
    let (throws, disk) := disk.access
    if throws then (store.records.get id, store.degrade, disk)
    else
      match recoverRecord store disk id (disk.records.get id) with
      | (none, store, disk) => (store.records.get id, store, disk)
      | (some persisted, store, disk) =>
        let winner := winner (store.records.get id) persisted
        (some winner, store.setRecord options id winner, disk)
  else (store.records.get id, store, disk)

/-! ## Writing -/

inductive Flushed where
  | stopped
  | skipped
  | wrote
  deriving DecidableEq

/-- The last good copies as a record is written: none goes with a tombstone. -/
def backupOf (backups : Entries String Raw) (id : String) (memory : StoredNoteRecord)
    (raw : Option Raw) : Entries String Raw :=
  match active memory.record, raw.bind Raw.good with
  | none, _ => backups.delete id
  | some _, some good => backups.set id (.stored good)
  | some _, none => backups.set id (.stored memory)

def flushOne (options : Options) (store : Store) (disk : Disk) (id : String) :
    Flushed × Store × Disk :=
  if store.persistent then
    let (throws, disk) := disk.access
    if throws then (.stopped, store.degrade, disk)
    else
      let raw := disk.records.get id
      let (persisted, store, disk) := recoverRecord store disk id raw
      match store.records.get id with
      | none => (.skipped, store.undirty id, disk)
      | some memory =>
        let winner := (persisted.map fun persisted => newer memory persisted).getD memory
        let store := store.setRecord options id winner
        if winner ≠ memory then (.skipped, store.undirty id, disk)
        -- `recoverRecord` may have failed
        else if !store.persistent then (.stopped, store.degrade, disk)
        else
          let (throws, disk) := disk.access
          if throws then (.stopped, store.degrade, disk)
          else
            let disk := { disk with backups := backupOf disk.backups id memory raw }
            let (throws, disk) := disk.access
            if throws then (.stopped, store.degrade, disk)
            else (.wrote, store.undirty id,
              { disk with records := disk.records.set id (.stored memory) })
  -- an earlier id's failure
  else (.stopped, store.degrade, disk)

def flushAll (options : Options) : List String → Bool → Store → Disk → Bool × Store × Disk
  | [], wrote, store, disk => (wrote, store, disk)
  | id :: rest, wrote, store, disk =>
    match flushOne options store disk id with
    | (.stopped, store, disk) => (false, store, disk)
    | (.skipped, store, disk) => flushAll options rest wrote store disk
    | (.wrote, store, disk) => flushAll options rest true store disk

/-- Also what `pagehide` and `dispose` do. -/
def flush (options : Options) (store : Store) (disk : Disk) : Bool × Store × Disk :=
  if store.persistent && !store.dirty.isEmpty then flushAll options store.dirty false store
    disk else (false, store, disk)

/-- A `storage` event of a record key. -/
def onEvent (options : Options) (store : Store) (disk : Disk) (id : String)
    (newValue : Option Raw) : Store × Disk :=
  match recoverRecord store disk id newValue with
  | (none, store, disk) => (store, disk)
  | (some incoming, store, disk) =>
    let current := store.records.get id
    let winner := winner current incoming
    if current = some winner then (store, disk)
    else ((store.setRecord options id winner).undirty id, disk)

def putBatch (options : Options) (store : Store) (values : List StoredNoteRecord) : Store :=
  values.foldl (fun store stored =>
    (store.setRecord options stored.record.id stored).soil stored.record.id) store

def totalWith (options : Options) (store : Store) (candidate : StoredNoteRecord) : Int :=
  store.liveTotal - ((store.liveBytes.get candidate.record.id).getD 0 : Nat) +
    (match active candidate.record with | some _ => options.storedBytes candidate | none => 0 : Nat)

/-- The reason, if there is one. -/
def refuseCandidate (options : Options) (store : Store) (candidate : StoredNoteRecord)
    (adding : Bool) : Option String :=
  if (active candidate.record).any fun note => options.maxNoteBytes < noteBytes note then
    some "This note is too long to save. Shorten it and try again."
  else if adding && options.maxActiveNotes ≤ store.liveBytes.size then
    some ("There is no room for another note. The " ++ toString options.maxActiveNotes ++
      "-note limit refuses new writing rather than deleting older notes.")
  else if (options.maxTotalBytes : Int) < totalWith options store candidate then
    some "There is no room for this note in browser storage. Existing notes were left untouched."
  else none

structure NewNote where
  group : String
  text : String
  quote : Option String
  source : Option NoteSource

/-- `id` and `writeID` are the ids that it draws. -/
def add (options : Options) (store : Store) (input : NewNote) (timestamp : Int)
    (id writeID : String) :
    Except String Note × Store :=
  let value := trim input.text
  let captured := (input.quote.map trim).filter (· ≠ "")
  if value = "" && captured.isNone then (.error "Write something before saving this note.", store)
  else
    let note : Note := ⟨id, input.group, value, captured, input.source, timestamp, timestamp⟩
    let stored : StoredNoteRecord := ⟨writeID, .note note⟩
    match refuseCandidate options store stored true with
    | some reason => (.error reason, store)
    | none => (.ok note, putBatch options store [stored])

structure Changes where
  text : Option String
  group : Option String

/-- The note that an edit starts from. -/
def editBase (current : Option StoredNoteRecord) (id : String) (fallback : Option Note) :
    Option Note :=
  match current.bind fun current => active current.record with
  | some note => some note
  | none => fallback.filter fun fallback => fallback.id = id

def edit (options : Options) (store : Store) (disk : Disk) (id : String) (changes : Changes)
    (fallback : Option Note)
    (now : Int) (writeID : String) : Except String Note × Store × Disk :=
  let (current, store, disk) := reconcile options store disk id
  match editBase current id fallback with
  | none => (.error "This note no longer exists.", store, disk)
  | some base =>
    let text := (changes.text.map trim).getD base.text
    if text = "" && (base.quote.getD "" = "") then (.error "A note cannot be empty.", store, disk)
    else
      -- The edit is newer than what it was made of, whatever the clock says.
      let updated :=
        max now ((current.map fun current => current.record.updated).getD base.updated + 1)
      let note : Note := { base with group := changes.group.getD base.group, text, updated }
      let stored : StoredNoteRecord := ⟨writeID, .note note⟩
      match refuseCandidate options store stored false with
      | some reason => (.error reason, store, disk)
      | none => (.ok note, putBatch options store [stored], disk)

/-- An id that is deleted, the time then and the id of the write. -/
structure Deletion where
  id : String
  now : Int
  writeID : String

/-- The tombstone of a deletion, where there is a note to delete. -/
def tombstoneOf (current : Option StoredNoteRecord) (deletion : Deletion) :
    Option StoredNoteRecord :=
  current.bind fun current => (active current.record).map fun note =>
    ⟨deletion.writeID, .tombstone deletion.id (max deletion.now (note.updated + 1))⟩

def deleteOne (options : Options) (state : List StoredNoteRecord × Store × Disk)
    (deletion : Deletion) :
    List StoredNoteRecord × Store × Disk :=
  let (tombstones, store, disk) := state
  let (current, store, disk) := reconcile options store disk deletion.id
  (tombstones ++ (tombstoneOf current deletion).toList, store, disk)

def delete (options : Options) (store : Store) (disk : Disk) (deletions : List Deletion) :
    Except String (List StoredNoteRecord) × Store × Disk :=
  let (tombstones, store, disk) := deletions.foldl (deleteOne options) ([], store, disk)
  if tombstones.isEmpty then (.error "These notes no longer exist.", store, disk)
  else (.ok tombstones, putBatch options store tombstones, disk)

def mergeOne (options : Options) (now : Int) (state : Store × Disk) (incoming : StoredNoteRecord) :
    Store × Disk :=
  let (store, disk) := state
  let current := store.records.get incoming.record.id
  if current.any fun current => newer current incoming = current then (store, disk)
  else if options.expired now incoming.record then
    if current.isSome then drop store disk incoming.record.id else (store, disk)
  else ((store.setRecord options incoming.record.id incoming).soil incoming.record.id, disk)

def merge (options : Options) (now : Int) (store : Store) (disk : Disk)
    (values : List StoredNoteRecord) : Store × Disk :=
  values.foldl (mergeOne options now) (store, disk)

def forget (store : Store) (disk : Disk) (ids : List String) : Store × Disk :=
  (ids.filter fun id => (store.records.get id).isSome).foldl
    (fun state id => drop state.1 state.2 id) (store, disk)

end AiConfig.Herder.NotesStore
