import AiConfig.Sesh.Wire
import Mathlib.Data.List.Sort
import Std.Data.String.ToNat

/-! # The durable state of the store

The tables `files`, `last_seen` and `fact_observations` of `store.sqlite` and the
mirror tree beside it.  Tables are lists in insertion order; the modelled
operations never delete a row of them, so the `rowid` of a `files` row is its
position. -/

namespace AiConfig.Sesh

open AiConfig.Sesh.Wire

/-- A row of `files`, and the in-memory `fileState` scanned from it.  Times are the
    RFC 3339 texts the table holds. -/
structure FileState where
  identity : Identity
  generation : Nat
  fingerprint : Option String
  highWater : Nat
  poisoned : Bool
  dirtyForReindex : Bool
  lastPutAt : Option String
  conflictPending : Bool
  conflictDriven : Bool
  createdAt : String
  deriving DecidableEq, Repr

def FileState.isGeneration (row : FileState) (id : Identity) (generation : Nat) : Bool :=
  row.identity = id && row.generation = generation

def FileState.ack (row : FileState) : Ack :=
  ⟨row.identity, row.generation, row.highWater, row.fingerprint⟩

structure LastSeen where
  hostname : String
  osUser : String
  lastPutAt : String
  shipperVersion : Option String
  deriving DecidableEq, Repr

structure FactObservation where
  id : Nat
  observedAt : String
  identity : Identity
  generation : Nat
  hostname : String
  osUser : String
  sessionOwner : Option String
  tailnetIdentity : Option String
  deriving DecidableEq, Repr

/-- The path of a mirror file below the mirror directory, as its components. -/
abbrev MirrorPath := List String

structure Store where
  files : List FileState
  lastSeen : List LastSeen
  facts : List FactObservation
  /-- `sqlite_sequence` of `fact_observations`. -/
  factSeq : Nat
  mirror : MirrorPath → Option Bytes
  failAppendOnce : Bool

/-- The store right after `Open` on an empty directory. -/
def Store.empty : Store := ⟨[], [], [], 0, fun _ => none, false⟩

/-- `filepath.Join` of the components; ids in canonical form contain neither
    separators nor dots, so joining loses nothing. -/
def mirrorPath (id : Identity) (generation : Nat) : MirrorPath :=
  [id.tool.text, id.sessionID.text, id.fileUUID.text, "generation-" ++ generation.repr ++ ".jsonl"]

theorem mirrorPath_injective {id other : Identity} {n m : Nat}
    (same : mirrorPath id n = mirrorPath other m) : id = other ∧ n = m := by
  simp only [mirrorPath, List.cons.injEq, and_true] at same
  obtain ⟨tool, session, file, name⟩ := same
  have digits : n.repr = m.repr := by
    have lists := congrArg String.toList name
    simp only [String.toList_append, List.append_cancel_left_eq,
      List.append_cancel_right_eq] at lists
    exact String.toList_injective lists
  refine ⟨?_, Nat.repr_injective digits⟩
  cases id; cases other
  cases Tool.text_injective tool; cases UUID.ext session; cases UUID.ext file
  rfl

/-! ## Mirror files -/

/-- `WriteAt`: bytes between the end of the file and `offset` read as zero. -/
def writeAt (file : Bytes) (offset : Nat) (body : Bytes) : Bytes :=
  file.take offset ++ List.replicate (offset - file.length) 0 ++ body ++
    file.drop (offset + body.length)

/-- `ReadAt` of exactly `length` bytes; a short file is an error. -/
def readAt (file : Bytes) (offset length : Nat) : Option Bytes :=
  if offset + length ≤ file.length then some ((file.drop offset).take length) else none

theorem writeAt_length (file : Bytes) (offset : Nat) (body : Bytes) :
    (writeAt file offset body).length = max file.length (offset + body.length) := by
  simp only [writeAt, List.length_append, List.length_take, List.length_replicate, List.length_drop]
  omega

theorem writeAt_take (file : Bytes) (offset : Nat) (body : Bytes) (covered : offset ≤ file.length) :
    (writeAt file offset body).take offset = file.take offset := by
  have nothing : offset - file.length = 0 := by omega
  rw [writeAt, nothing, List.append_assoc, List.append_assoc, List.take_append_of_le_length]
  · rw [List.take_take, Nat.min_self]
  · simp [covered]

theorem writeAt_take_end (file : Bytes) (offset : Nat) (body : Bytes)
    (covered : offset ≤ file.length) :
    (writeAt file offset body).take (offset + body.length) = file.take offset ++ body := by
  have nothing : offset - file.length = 0 := by omega
  have lengths : (file.take offset ++ body).length = offset + body.length := by simp [covered]
  rw [writeAt, nothing, List.replicate_zero, List.append_nil, ← lengths, List.take_left]

/-! ## Statements -/

def sameGeneration (row other : FileState) : Prop := row.generation ≤ other.generation

instance : DecidableRel sameGeneration :=
  fun a b => inferInstanceAs (Decidable (a.generation ≤ b.generation))

/-- `SELECT … FROM files WHERE tool = ? AND session_id = ? AND file_uuid = ?
    ORDER BY generation ASC`, narrowed to one fingerprint when given. -/
def Store.generations (store : Store) (id : Identity) (fp : Option String) : List FileState :=
  ((store.files.filter (·.identity = id)).filter
    (fun row => fp.isNone || row.fingerprint = fp)).insertionSort sameGeneration

def Store.activeGeneration (store : Store) (id : Identity) : Option FileState :=
  (store.generations id none).getLast?

/-- `UPDATE files SET … WHERE tool = ? AND session_id = ? AND file_uuid = ? AND …`. -/
def Store.updateFiles (store : Store) (matching : FileState → Bool)
    (change : FileState → FileState) :
    Store :=
  { store with files := store.files.map fun row => if matching row then change row else row }

def Store.insertFile (store : Store) (row : FileState) : Store :=
  { store with files := store.files ++ [row] }

def Store.setMirror (store : Store) (path : MirrorPath) (content : Bytes) : Store :=
  { store with mirror := Function.update store.mirror path (some content) }

/-- The bytes mirrored for a generation; a missing file holds none. -/
def Store.mirrored (store : Store) (id : Identity) (generation : Nat) : Bytes :=
  (store.mirror (mirrorPath id generation)).getD []

def upsertLastSeen (seen : List LastSeen) (row : LastSeen) : List LastSeen :=
  if seen.any (fun old => old.hostname = row.hostname && old.osUser = row.osUser) then
    seen.map fun old => if old.hostname = row.hostname && old.osUser = row.osUser then row else old
  else seen ++ [row]

end AiConfig.Sesh
