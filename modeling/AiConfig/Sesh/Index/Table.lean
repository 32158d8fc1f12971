import AiConfig.Sesh.Index.Parse
import Mathlib.Data.List.Dedup

/-! # The index tables and their statements

`sesh_index_messages` is a list of rows in the order of their ids; `GROUP BY` returns
groups in key order.  `INDEXED BY` and the `<>` predicates that skip rows already at
their target value change no result and are left out.  Text compares by code points,
as SQLite and Go compare valid UTF-8. -/

namespace AiConfig.Sesh

open AiConfig.Lib AiConfig.Sesh.Wire

structure Row extends IndexedMessage where
  id : Nat
  deriving DecidableEq

structure LedgerRow where
  observedAt : Timestamp
  gen : GenKey
  lineOrdinal : Nat
  reason : String
  deriving DecidableEq

structure Index where
  messages : List Row
  /-- `sqlite_sequence` of `sesh_index_messages`. -/
  messageSeq : Nat
  /-- `index_file_state`. -/
  completeOffset : GenKey → Option Nat
  ledger : List LedgerRow
  /-- `reindexLedger`, empty outside `Reindex`. -/
  rebuilt : List LedgerRow
  naiveMaintenance : Bool

def Index.empty (naive : Bool) : Index := ⟨[], 0, fun _ => none, [], [], naive⟩

/-! ## Registry columns -/

/-- `COALESCE(f.created_at, '')` of the joined `files` row. -/
def Store.createdAt (store : Store) (gen : GenKey) : String :=
  ((store.files.find? (·.isGeneration gen.identity gen.generation)).map (·.createdAt)).getD ""

def Store.highWater (store : Store) (gen : GenKey) : Nat :=
  ((store.files.find? (·.isGeneration gen.identity gen.generation)).map (·.highWater)).getD 0

def Store.setDirty (store : Store) (gen : GenKey) (dirty : Bool) : Store :=
  store.updateFiles (·.isGeneration gen.identity gen.generation) fun row =>
    { row with dirtyForReindex := dirty }

/-! ## File summaries -/

structure FileSummary where
  gen : GenKey
  logicalID : String
  firstIngest : String
  deriving DecidableEq

/-- `fileSummary.key`. -/
def keyText (gen : GenKey) : String :=
  gen.identity.tool.text ++ "/" ++ gen.identity.sessionID.text ++ "/" ++
    gen.identity.fileUUID.text ++ "/" ++
    gen.generation.repr

/-- The grouping columns in the order `GROUP BY` sorts them. -/
def groupColumns (gen : GenKey) : String ×ₗ String ×ₗ String ×ₗ Nat :=
  toLex (gen.identity.tool.text,
    toLex (gen.identity.sessionID.text, toLex (gen.identity.fileUUID.text,
    gen.generation)))

def groupBefore (a b : GenKey) : Prop := groupColumns a ≤ groupColumns b

instance : DecidableRel groupBefore :=
  fun a b => inferInstanceAs (Decidable (groupColumns a ≤ groupColumns b))

def groups (rows : List Row) : List GenKey := ((rows.map (·.gen)).dedup).insertionSort groupBefore

def minLogical (rows : List Row) : String := ((rows.map (·.logicalSessionID)).min?).getD ""

def minByteStart (rows : List Row) : Nat := ((rows.map (·.byteStart)).min?).getD 0

def firstIngest (created : String) (generation first : Nat) : String :=
  if generation = 0 then created ++ "/" ++ String.ofList (padded 20 first)
  else "z" ++ String.ofList (padded 20 first)

def summarize (store : Store) (gen : GenKey) (rows : List Row) : FileSummary :=
  ⟨gen, minLogical rows, firstIngest (store.createdAt gen) gen.generation (minByteStart rows)⟩

/-- One summary a group of the selected rows. -/
def summaries (store : Store) (rows : List Row) : List FileSummary :=
  (groups rows).map fun gen => summarize store gen (rows.filter (·.gen = gen))

def fileSummary (store : Store) (gen : GenKey) (rows : List Row) : Option FileSummary :=
  (summaries store (rows.filter fun row => !row.quarantine && row.gen = gen)).head?

def fileSummaries (store : Store) (rows : List Row) : List FileSummary :=
  summaries store (rows.filter fun row => !row.quarantine)

def sameLogicalFiles (store : Store) (tool : Tool) (logical : String) (rows : List Row) :
    List FileSummary :=
  summaries store (rows.filter fun row => !row.quarantine && row.tool = tool &&
    row.logicalSessionID = logical)

/-- A row that takes part in unification and dedupe. -/
def IndexedMessage.keyed (row : IndexedMessage) : Bool := !row.quarantine && row.messageUUID ≠ ""

def IndexedMessage.overlapKey (row : IndexedMessage) : Tool × String × String :=
  (row.tool, row.entryType, row.messageUUID)

/-- `m.entry_type || char(31) || m.message_uuid`. -/
def IndexedMessage.distinctText (row : IndexedMessage) : String :=
  row.entryType ++ "\x1f" ++ row.messageUUID

/-- The rows that share a key with a file. -/
def overlapRows (gen : GenKey) (rows : List Row) : List Row :=
  rows.filter fun row => row.keyed &&
    rows.any fun seed => seed.keyed && seed.gen = gen && seed.overlapKey = row.overlapKey

def overlappingFiles (store : Store) (gen : GenKey) (rows : List Row) : List FileSummary :=
  (summaries store (overlapRows gen rows)).filter fun f =>
    2 ≤ ((((overlapRows gen rows).filter (·.gen = f.gen)).map (·.distinctText)).dedup).length

/-! ## Sorting files -/

def fileColumns (f : FileSummary) : String ×ₗ String := toLex (f.firstIngest, keyText f.gen)

def fileBefore (a b : FileSummary) : Prop := fileColumns a ≤ fileColumns b

instance : DecidableRel fileBefore :=
  fun a b => inferInstanceAs (Decidable (fileColumns a ≤ fileColumns b))

def sortFiles (group : List FileSummary) : List FileSummary := group.insertionSort fileBefore

/-! ## Updates -/

def relabelFile (canonical : String) (gen : GenKey) (rows : List Row) : List Row :=
  rows.map fun row => if row.gen = gen then { row with logicalSessionID := canonical } else row

def updateFileOrdinal (ordinal : Nat) (gen : GenKey) (rows : List Row) : List Row :=
  rows.map fun row => if row.gen = gen then { row with fileOrdinal := ordinal } else row

def relabelFiles (canonical : String) (group : List FileSummary) (rows : List Row) : List Row :=
  group.foldl (fun rows f => relabelFile canonical f.gen rows) rows

/-- The files of a group are numbered from `ordinal` on. -/
def updateFileOrdinalsFrom : Nat → List FileSummary → List Row → List Row
  | _, [], rows => rows
  | ordinal, f :: rest, rows => updateFileOrdinalsFrom (ordinal + 1) rest
      (updateFileOrdinal ordinal f.gen rows)

def updateFileOrdinalsForFiles (group : List FileSummary) (rows : List Row) : List Row :=
  updateFileOrdinalsFrom 0 group rows

def compactLogicalFileOrdinals (store : Store) (tool : Tool) (logical : String) (rows : List Row) :
    List Row :=
  updateFileOrdinalsForFiles (sortFiles (sameLogicalFiles store tool logical rows)) rows

/-! ## Dedupe -/

/-- The partition of the dedupe window. -/
def Row.dedupKey (row : Row) : Tool × String × String × String :=
  (row.tool, row.logicalSessionID, row.entryType, row.messageUUID)

/-- `ORDER BY timestamp_utc IS NULL, timestamp_utc, file_ordinal, line_ordinal, file_uuid,
    generation, id`; timestamps compare as texts. -/
def Row.preference (row : Row) : Bool ×ₗ String ×ₗ Nat ×ₗ Nat ×ₗ String ×ₗ Nat ×ₗ Nat :=
  toLex (row.timestampUTC.isNone,
    toLex ((row.timestampUTC.map (·.text)).getD "", toLex (row.fileOrdinal,
    toLex (row.lineOrdinal, toLex (row.gen.identity.fileUUID.text,
      toLex (row.gen.generation, row.id))))))

/-- Another selected row of the same partition comes first: `rn > 1`. -/
def outranked (scope : Row → Bool) (rows : List Row) (row : Row) : Bool :=
  scope row && rows.any fun other => scope other && other.dedupKey = row.dedupKey &&
    other.preference < row.preference

def dedupeWhere (scope : Row → Bool) (rows : List Row) : List Row :=
  rows.filter fun row => !outranked scope rows row

def dedupeAll (rows : List Row) : List Row := dedupeWhere (fun row => row.keyed) rows

def dedupeLogical (tool : Tool) (logical : String) (rows : List Row) : List Row :=
  dedupeWhere (fun row => row.keyed && row.tool = tool && row.logicalSessionID = logical) rows

/-- No condition on the uuid: the caller passes no empty one. -/
def dedupeLogicalKey (tool : Tool) (entryType messageUUID logical : String) (rows : List Row) :
    List Row :=
  dedupeWhere (fun row => !row.quarantine && row.tool = tool && row.entryType = entryType &&
    row.messageUUID = messageUUID && row.logicalSessionID = logical) rows

/-- The key of `seen`, a text in which the separator may occur as well. -/
def IndexedMessage.seenKey (row : IndexedMessage) : String :=
  row.entryType ++ "\x00" ++ row.messageUUID

def dedupeAppendedKeys (tool : Tool) (logical : String) :
    List String → List IndexedMessage → List Row → List Row
  | _, [], rows => rows
  | seen, row :: rest, rows =>
    if !row.keyed || row.seenKey ∈ seen then dedupeAppendedKeys tool logical seen rest rows
    else dedupeAppendedKeys tool logical (row.seenKey :: seen) rest
      (dedupeLogicalKey tool row.entryType row.messageUUID logical rows)

end AiConfig.Sesh
