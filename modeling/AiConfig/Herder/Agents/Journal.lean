import AiConfig.Lib.Records
import AiConfig.Lib.Transition
import Mathlib.Data.Nat.Basic

/-! # The agent journal

Transcription of `Append` and what it calls in `internal/agentstore/store.go`.  Every call
has the file to itself under the lock; what may go wrong in it, or where its writer dies,
is its `AppendFaults`. -/

namespace AiConfig.Herder

open AiConfig.Lib

def newline : UInt8 := 10

def bytesOf (text : String) : List UInt8 := text.toByteArray.data.toList

/-- What the journal reads of an event, and `Encode` and `json.Unmarshal` for it. -/
structure EventCodec (E : Type) where
  id : E → String
  /-- `Validate` answers no error. -/
  valid : E → Bool
  encode : E → Option (List UInt8)
  /-- The event of a whole line, unless it is blank, malformed or lacks its id or kind. -/
  decode : List UInt8 → Option E
  /-- The event, at the time of another. -/
  withAt : E → E → E
  /-- A line has no newline but its last byte. -/
  whole : ∀ e line, encode e = some line → Whole newline line
  /-- A valid event's line is read as an event of its id and its time. -/
  reads : ∀ e line, valid e = true → encode e = some line →
    ∃ existing, decode line = some existing ∧ id existing = id e ∧ withAt e existing = e

structure Journal where
  bytes : List UInt8
  /-- How many of the bytes a crash of the machine keeps. -/
  synced : Nat
  deriving DecidableEq

structure Receipt (E : Type) where
  event : E
  offset : Nat
  replayed : Bool
  deriving DecidableEq

inductive AppendError where
  | invalid | tooLong | differs | unavailable
  deriving DecidableEq

structure AppendFaults where
  /-- The journal is opened and locked. -/
  locked : Bool
  /-- The torn tail is looked for, and truncated. -/
  repaired : Bool
  scanned : Bool
  /-- The bytes written, of a write that is cut. -/
  written : Option Nat
  synced : Bool

def AppendFaults.none : AppendFaults := ⟨true, true, true, .none, true⟩

def maxLineBytes : Nat := 16 * 1024

/-! ## The torn tail -/

def tailBlock : Nat := 64 * 1024

/-- The byte after the last newline before `pos`. -/
def completeEnd (bytes : List UInt8) (pos : Nat) : Nat :=
  if pos = 0 then 0
  else
    match lastMark newline ((bytes.drop (pos - min pos tailBlock)).take (min pos tailBlock)) with
    | some index => pos - min pos tailBlock + index + 1
    | none => completeEnd bytes (pos - min pos tailBlock)
termination_by pos
decreasing_by
  simp only [tailBlock]
  omega

def repairTornTail (journal : Journal) : Journal :=
  if journal.bytes.getLast? = some newline ∨ journal.bytes = [] then journal
  else { journal with bytes := journal.bytes.take (completeEnd journal.bytes journal.bytes.length) }

section

variable {E : Type} (codec : EventCodec E)

/-! ## Scanning -/

/-- The well-formed records and their offsets. -/
def scan (bytes : List UInt8) : List (Nat × E) :=
  (wholeRecords newline 0 [] bytes).filterMap fun record =>
    (codec.decode record.2).map (Prod.mk record.1)

/-- The last record with this id. -/
def findID (bytes : List UInt8) (id : String) : Option (Nat × E) :=
  (scan codec bytes).foldl (fun found record =>
    if codec.id record.2 = id then some record else found) none

/-! ## Appending -/

/-- The part of `Append` under the lock, past the repair. -/
def appendLocked (journal : Journal) (e : E) (line : List UInt8) (faults : AppendFaults) :
    Except AppendError (Receipt E) × Journal :=
  if !faults.scanned then (.error .unavailable, journal)
  else
    match findID codec journal.bytes (codec.id e) with
    | some (offset, existing) =>
      -- A retry: the same event under its id, whatever its time.
      if codec.encode existing ≠ codec.encode (codec.withAt e existing) then
        (.error .differs, journal)
      else if faults.synced then (.ok ⟨existing, offset, true⟩,
        { journal with synced := journal.bytes.length })
      else (.error .unavailable, journal)
    | none =>
      -- A short write leaves a torn tail for the next call to repair.
      match faults.written.filter (· < line.length) with
      | some written => (.error .unavailable,
          { journal with bytes := journal.bytes ++ line.take written })
      | none =>
        let bytes := journal.bytes ++ line
        if faults.synced then (.ok ⟨e, journal.bytes.length, false⟩, ⟨bytes, bytes.length⟩)
        else (.error .unavailable, { journal with bytes := bytes })

def append (journal : Journal) (e : E) (faults : AppendFaults) :
    Except AppendError (Receipt E) × Journal :=
  if !codec.valid e then (.error .invalid, journal)
  else
    match codec.encode e with
    | none => (.error .invalid, journal)
    | some line =>
      -- A longer line would not be a single write.
      if maxLineBytes < line.length then (.error .tooLong, journal)
      else if !faults.locked || !faults.repaired then (.error .unavailable, journal)
      else appendLocked codec (repairTornTail journal) e line faults

/-! ## Runs -/

/-- The line that stands at an offset. -/
def lineAt (bytes : List UInt8) (offset : Nat) : List UInt8 :=
  (bytes.drop offset).takeWhile (· ≠ newline) ++ [newline]

structure JournalWorld (E : Type) where
  journal : Journal
  /-- Every receipt so far and the line it was given for. -/
  receipts : List (Receipt E × List UInt8)

inductive JournalEvent (E : Type) where
  | append (e : E) (faults : AppendFaults)
  /-- The machine stops: of what was not synced, the first bytes are kept. -/
  | crash (kept : Nat)

def receiptsOf (answer : Except AppendError (Receipt E) × Journal) :
    List (Receipt E × List UInt8) :=
  match answer.1 with
  | .ok receipt => [(receipt, lineAt answer.2.bytes receipt.offset)]
  | .error _ => []

inductive JournalWorld.Moves : JournalWorld E → JournalEvent E → JournalWorld E → Prop
  | append (world : JournalWorld E) (e : E) (faults : AppendFaults) :
      Moves world (.append e faults)
        ⟨(Herder.append codec world.journal e faults).2,
          world.receipts ++ receiptsOf (Herder.append codec world.journal e faults)⟩
  | crash (world : JournalWorld E) (kept : Nat) (synced : world.journal.synced ≤ kept) :
      Moves world (.crash kept)
        { world with journal := { world.journal with bytes := world.journal.bytes.take kept } }

/-- From a journal that is not there yet. -/
def journalSystem : System (JournalWorld E) (JournalEvent E) where
  initial := fun world => world = ⟨⟨[], 0⟩, []⟩
  step := JournalWorld.Moves codec

end

end AiConfig.Herder
