import AiConfig.Lib.Worklist
import AiConfig.Sesh.Index.Table

/-! # Indexing an append

Transcription of `applyAppend` and what it calls.  The transaction is one step: an
error leaves every table as it was. -/

namespace AiConfig.Sesh

open AiConfig.Lib AiConfig.Sesh.Wire

/-! ## Placement -/

structure FilePlacement where
  logical : String
  ordinal : Nat
  deriving DecidableEq

def IndexedMessage.place (row : IndexedMessage) (placement : FilePlacement) : IndexedMessage :=
  if row.quarantine then row
  else { row with logicalSessionID := placement.logical, fileOrdinal := placement.ordinal }

/-- The placement of a file whose rows were moved to another session once. -/
def movedPlacement (rows : List Row) (gen : GenKey) : Option FilePlacement :=
  (rows.find? fun row => !row.quarantine && row.gen = gen &&
    row.logicalSessionID ≠ row.parsedLogicalSessionID && row.parsedLogicalSessionID ≠ "").map
    fun row => ⟨row.logicalSessionID, row.fileOrdinal⟩

/-- The only session and ordinal of the file's rows. -/
def uniformPlacement (rows : List Row) (gen : GenKey) : Option FilePlacement :=
  let own := rows.filter fun row => !row.quarantine && row.gen = gen
  match (own.map (·.logicalSessionID)).dedup, (own.map (·.fileOrdinal)).dedup with
  | [logical], [ordinal] => some ⟨logical, ordinal⟩
  | _, _ => none

/-- The placement, when the file is settled. -/
def inheritedPlacement (rows : List Row) (gen : GenKey) (new : List IndexedMessage) :
    Option FilePlacement :=
  match movedPlacement rows gen with
  | some placement => some placement
  | none =>
    match uniformPlacement rows gen with
    | none => none
    | some placement =>
      if new.any fun row => !row.quarantine && row.logicalSessionID ≠ placement.logical then none
      else some placement

def inheritFilePlacement (rows : List Row) (gen : GenKey) (new : List IndexedMessage) :
    List IndexedMessage × Option FilePlacement :=
  match inheritedPlacement rows gen new with
  | none => (new, none)
  | some placement => (new.map (·.place placement), some placement)

/-! ## Inserting -/

def withIds : Nat → List IndexedMessage → List Row
  | _, [] => []
  | seq, row :: rest => { row with id := seq + 1 } :: withIds (seq + 1) rest

def LedgerRow.records (entry : LedgerRow) (row : IndexedMessage) : Bool :=
  entry.gen = row.gen && entry.lineOrdinal = row.lineOrdinal && entry.reason = row.quarantineReason

/-- `quarantineObserved`, from the ledger as `Reindex` found it. -/
def observedAt (ledger : List LedgerRow) (row : IndexedMessage) (now : Timestamp) : Timestamp :=
  ((ledger.reverse.find? (·.records row)).map (·.observedAt)).getD now

def ledgerRow (observed : Timestamp) (row : IndexedMessage) : LedgerRow :=
  ⟨observed, row.gen, row.lineOrdinal, row.quarantineReason⟩

/-- Quarantined rows go to the ledger too, in a rebuild to the one being rebuilt. -/
def Index.insertRows (idx : Index) (now : Timestamp) (rebuild : Bool) (rows : List IndexedMessage) :
    Index :=
  let quarantined := rows.filter (·.quarantine)
  { idx with
    messages := idx.messages ++ withIds idx.messageSeq rows
    messageSeq := idx.messageSeq + rows.length
    ledger := if rebuild then idx.ledger else idx.ledger ++ quarantined.map (ledgerRow now)
    rebuilt :=
      if rebuild then idx.rebuilt ++ quarantined.map fun row =>
        ledgerRow (observedAt idx.ledger row now) row
      else idx.rebuilt }

def Index.offset (idx : Index) (gen : GenKey) : Nat := (idx.completeOffset gen).getD 0

def Index.setCompleteOffset (idx : Index) (gen : GenKey) (offset : Nat) : Index :=
  { idx with completeOffset := Function.update idx.completeOffset gen (some offset) }

/-! ## Unifying the touched component -/

def connectedFiles (store : Store) (rows : List Row) (start : FileSummary) : List FileSummary :=
  explore (·.gen)
    (fun f => sameLogicalFiles store f.gen.identity.tool f.logicalID rows ++
      overlappingFiles store f.gen rows)
    (rows.length + 1) [start] [start]

def canonicalID (first : FileSummary) : String :=
  if first.logicalID = "" then first.gen.wireID else first.logicalID

/-- Relabelled and numbered, before the dedupe. -/
def placeComponent (canonical : String) (group : List FileSummary) (rows : List Row) : List Row :=
  updateFileOrdinalsForFiles group
    (if 1 < group.length then relabelFiles canonical group rows else rows)

def unifyComponent (store : Store) (rows : List Row) (start : FileSummary) : List Row :=
  match sortFiles (connectedFiles store rows start) with
  | [] => rows
  | first :: rest =>
    let canonical := canonicalID first
    let tool := first.gen.identity.tool
    compactLogicalFileOrdinals store tool canonical
      (dedupeLogical tool canonical (placeComponent canonical (first :: rest) rows))

/-- The fast path: the file keeps its placement, and only the appended keys can repeat. -/
def maintainSettled (store : Store) (tool : Tool) (logical : String)
    (appended : List IndexedMessage)
    (rows : List Row) : List Row :=
  let deduped := dedupeAppendedKeys tool logical [] appended rows
  if deduped.length < rows.length then compactLogicalFileOrdinals store tool logical deduped
  else deduped

def crossesLogicalBoundary (store : Store) (gen : GenKey) (logical : String) (rows : List Row) :
    Bool :=
  (overlappingFiles store gen rows).any fun f => f.logicalID ≠ logical

/-- The placement under which the fast path is taken. -/
def settledPlacement (store : Store) (naive : Bool) (gen : GenKey)
    (placement : Option FilePlacement)
    (rows : List Row) : Option FilePlacement :=
  if naive then none
  else placement.filter fun placement => !crossesLogicalBoundary store gen placement.logical rows

def unifyConnectedLogicalSessions (store : Store) (naive : Bool) (gen : GenKey)
    (appended : List IndexedMessage)
    (placement : Option FilePlacement) (rows : List Row) : List Row :=
  match fileSummary store gen rows with
  | none => rows
  | some start =>
    match settledPlacement store naive gen placement rows with
    | some placement => maintainSettled store gen.identity.tool placement.logical appended rows
    | none => unifyComponent store rows start

/-! ## `applyAppend` -/

/-- Dedupe removed every placement-bearing row of a file indexed before. -/
def Index.replays (idx : Index) (gen : GenKey) : Bool :=
  0 < idx.offset gen && !idx.messages.any fun row => row.gen = gen && !row.quarantine

/-- `fileRowSpans` has the row's span. -/
def survives (rows : List Row) (row : IndexedMessage) : Bool :=
  rows.any fun old =>
    old.gen = row.gen && old.byteStart = row.byteStart && old.byteEnd = row.byteEnd

/-- The rows an event adds and the offset it leaves. -/
def Index.newRows (decoder : Decoder) (store : Store) (idx : Index) (ev : AppendEvent)
    (rebuild : Bool) :
    Except IndexError (List IndexedMessage × Nat) :=
  if !rebuild && idx.replays ev.gen then
    (parseComplete decoder store ev 0).map fun (rows, complete) =>
      (rows.filter fun row => !survives idx.messages row, complete)
  else parseComplete decoder store ev (idx.offset ev.gen)

/-- The rows of an event into the tables, with the maintenance that follows. -/
def Index.admit (store : Store) (idx : Index) (ev : AppendEvent) (now : Timestamp)
    (rows : List IndexedMessage) :
    Index :=
  let (placed, placement) := inheritFilePlacement idx.messages ev.gen rows
  let inserted := idx.insertRows now false placed
  { inserted with
    messages :=
      unifyConnectedLogicalSessions store idx.naiveMaintenance ev.gen placed placement
        inserted.messages }

/-- What an event does with the rows it found. -/
def Index.take (store : Store) (idx : Index) (ev : AppendEvent) (now : Timestamp) (rebuild : Bool)
    (rows : List IndexedMessage) : Index :=
  if rows = [] then idx
  else if rebuild then idx.insertRows now true rows
  else idx.admit store ev now rows

def Index.applyAppend (decoder : Decoder) (store : Store) (idx : Index) (ev : AppendEvent)
    (now : Timestamp)
    (rebuild : Bool) : Except IndexError Index :=
  (idx.newRows decoder store ev rebuild).map fun (rows, complete) =>
    (idx.take store ev now rebuild rows).setCompleteOffset ev.gen complete

theorem applyAppend_of_newRows {decoder : Decoder} {store : Store} {idx : Index} {ev : AppendEvent}
    {rebuild : Bool} {rows : List IndexedMessage} {complete : Nat}
    (found : idx.newRows decoder store ev rebuild = .ok (rows, complete)) (now : Timestamp) :
    idx.applyAppend decoder store ev now rebuild =
      .ok ((idx.take store ev now rebuild rows).setCompleteOffset ev.gen complete) := by
  rw [Index.applyAppend, found]
  rfl

end AiConfig.Sesh
