import AiConfig.Lib.LastWrite
import Mathlib.Data.List.AList
import Mathlib.Data.List.Sort
import Mathlib.Data.Prod.Lex
import Mathlib.Data.String.Basic

/-! # The row store of one namespace

Transcription of `internal/webstate`.  A value is what its JSON denotes, so saving and
loading keep it; `Values` says which values are valid and how long they are.  A namespace
has its file and, once loaded, the data in memory, which every call reads and a save
that fails after the rename leaves behind the file. -/

namespace AiConfig.Herder

open AiConfig.Lib

structure Row (V : Type) where
  key : String
  value : V
  updated : Int
  writeID : String
  deleted : Bool
  deriving DecidableEq

/-- `Compare`: positive when the left pair wins. -/
def compareVersions (leftUpdated : Int) (leftWriteID : String) (rightUpdated : Int)
    (rightWriteID : String) : Int :=
  if leftUpdated > rightUpdated then 1
  else if leftUpdated < rightUpdated then -1
  else if leftWriteID > rightWriteID then 1
  else if leftWriteID < rightWriteID then -1
  else 0

def Row.compare {V : Type} (left right : Row V) : Int :=
  compareVersions left.updated left.writeID right.updated right.writeID

/-- What `Compare` orders by. -/
def Row.version {V : Type} (row : Row V) : Int ×ₗ String := toLex (row.updated, row.writeID)

theorem compare_pos {V : Type} (left right : Row V) :
    0 < left.compare right ↔ right.version < left.version := by
  simp only [Row.compare, compareVersions, Row.version, Prod.Lex.toLex_lt_toLex]
  split
  · simp_all
  · split
    · simp_all
      omega
    · have same : right.updated = left.updated := by omega
      split
      · simp_all
      · split <;> simp_all

theorem compare_nonpos {V : Type} (left right : Row V) :
    left.compare right ≤ 0 ↔ left.version ≤ right.version := by
  rw [← not_lt, compare_pos, not_lt]

/-! ## Data -/

structure Values (V : Type) where
  bytes : V → Nat
  valid : V → Bool

structure Limits where
  maxValueBytes : Nat
  maxRows : Nat

structure StoredRow (V : Type) extends Row V where
  revision : Nat
  deriving DecidableEq

structure NamespaceData (V : Type) where
  revision : Nat
  floor : Nat
  horizon : Int
  rows : AList fun _ : String => StoredRow V

def NamespaceData.empty {V : Type} : NamespaceData V := ⟨0, 0, 0, ∅⟩

structure NamespaceState (V : Type) where
  /-- `nil` until loaded. -/
  memory : Option (NamespaceData V)
  file : Option (NamespaceData V)

inductive SaveStep where
  | mkdir | marshal | createTemp | chmod | write | sync | close | rename | openDir | syncDir |
      closeDir
  deriving DecidableEq

/-- The file is replaced by then. -/
def SaveStep.replaced : SaveStep → Bool
  | .openDir | .syncDir | .closeDir => true
  | .mkdir | .marshal | .createTemp | .chmod | .write | .sync | .close | .rename => false

/-- Where a call meets a fault: reading the file, or a step of its save. -/
structure Faults where
  read : Bool
  save : Option SaveStep

def Faults.none : Faults := ⟨false, .none⟩

inductive StoreError where
  | namespaceNotFound
  | unavailable
  | keyAndWriteIDRequired
  | valueTooLarge (key : String) (bytes limit : Nat)
  | invalidValue (key : String)
  | rowLimit (rows limit : Nat)
  deriving DecidableEq

section

variable {V : Type}

/-- What a call sees: the data in memory, or else the file. -/
def NamespaceState.visible (state : NamespaceState V) : Option (NamespaceData V) :=
  state.memory.or state.file

def NamespaceState.load (state : NamespaceState V) (create : Bool) (faults : Faults) :
    Except StoreError (NamespaceData V) :=
  match state.memory with
  | some data => .ok data
  | none =>
    if faults.read then .error .unavailable
    else
      match state.file with
      | none => if create then .ok .empty else .error .namespaceNotFound
      | some data => .ok data

/-- Whether a save succeeds, and the file it leaves. -/
def save (fault : Option SaveStep) (data : NamespaceData V) (file : Option (NamespaceData V)) :
    Bool × Option (NamespaceData V) :=
  match fault with
  | none => (true, some data)
  | some step => (false, if step.replaced then some data else file)

/-! ## `Upsert` -/

def rowError (values : Values V) (limits : Limits) (row : Row V) : Option StoreError :=
  if row.key = "" || row.writeID = "" then some .keyAndWriteIDRequired
  else if limits.maxValueBytes < values.bytes row.value then
    some (.valueTooLarge row.key (values.bytes row.value) limits.maxValueBytes)
  else if !values.valid row.value then some (.invalidValue row.key)
  else none

/-- One candidate a key, at the place of the key's first row. -/
def addCandidate : List (Row V) → Row V → List (Row V)
  | [], row => [row]
  | current :: rest, row =>
    if current.key = row.key then (if 0 < row.compare current then row else current) :: rest
    else current :: addCandidate rest row

def candidates (rows : List (Row V)) : List (Row V) := rows.foldl addCandidate []

/-- A row the store does not hold, at or below the purge horizon. -/
def NamespaceData.stale (data : NamespaceData V) (row : Row V) : Bool :=
  (data.rows.lookup row.key).isNone && 0 < data.horizon && row.updated ≤ data.horizon

def NamespaceData.accepts (data : NamespaceData V) (row : Row V) : Bool :=
  match data.rows.lookup row.key with
  | none => true
  | some current => 0 < row.compare current.toRow

def NamespaceData.write (data : NamespaceData V) (row : Row V) : NamespaceData V :=
  if data.accepts row then
    { data with revision := data.revision + 1, rows := data.rows.insert row.key ⟨row,
      data.revision + 1⟩ }
  else data

/-- The data a batch leaves and the keys it accepts. -/
def NamespaceData.accept : NamespaceData V → List (Row V) → NamespaceData V × List String
  | data, [] => (data, [])
  | data, row :: rest =>
    let (next, accepted) := (data.write row).accept rest
    (next, if data.accepts row then row.key :: accepted else accepted)

structure UpsertResult where
  accepted : List String
  stale : List String
  rev : Nat
  deriving DecidableEq

/-- An answer, and the state it leaves. -/
abbrev Answered (V α : Type) := Except StoreError α × NamespaceState V

def upsert (values : Values V) (limits : Limits) (state : NamespaceState V) (rows : List (Row V))
    (faults : Faults) :
    Answered V UpsertResult :=
  match state.load true faults with
  | .error problem => (.error problem, state)
  | .ok data =>
    let state := { state with memory := some data }
    match rows.findSome? (rowError values limits) with
    | some problem => (.error problem, state)
    | none =>
      -- Stale rows are told but count for no limit.
      let (stale, live) := (candidates rows).partition data.stale
      let newRows := (live.filter fun row => (data.rows.lookup row.key).isNone).length
      if limits.maxRows < data.rows.entries.length + newRows then
        (.error (.rowLimit (data.rows.entries.length + newRows) limits.maxRows), state)
      else
        let (next, accepted) := data.accept live
        if accepted = [] then (.ok ⟨[], stale.map (·.key), data.revision⟩, state)
        else
          match save faults.save next state.file with
          -- A save that fails after its rename has replaced the file.
          | (false, file) => (.error .unavailable, { state with file := file })
          | (true, file) => (.ok ⟨accepted, stale.map (·.key), next.revision⟩, ⟨some next, file⟩)

/-! ## `Since` -/

structure Snapshot (V : Type) where
  rows : List (Row V)
  rev : Nat
  horizon : Int

def changedBefore (a b : StoredRow V) : Prop :=
  toLex (a.revision, a.key) ≤ toLex (b.revision, b.key)

instance : DecidableRel (@changedBefore V) := fun a b =>
  inferInstanceAs (Decidable (toLex (a.revision, a.key) ≤ toLex (b.revision, b.key)))

def NamespaceData.stored (data : NamespaceData V) : List (StoredRow V) :=
  data.rows.entries.map (·.2)

def NamespaceData.since (data : NamespaceData V) (revision : Nat) : Snapshot V :=
  let changed := data.stored.filter fun row => revision < data.floor || revision < row.revision
  ⟨(changed.insertionSort changedBefore).map (·.toRow), data.revision, data.horizon⟩

def since (state : NamespaceState V) (revision : Nat) (faults : Faults) : Answered V (Snapshot V) :=
  match state.load false faults with
  | .error problem => (.error problem, state)
  | .ok data => (.ok (data.since revision), { state with memory := some data })

/-! ## `Sweep` -/

structure SweepPolicy (V : Type) where
  namespaces : String → Bool
  horizon : String → Bool
  tombstonesBefore : Int
  absent : Option (String → Row V → Bool)

def SweepPolicy.purges (policy : SweepPolicy V) (row : Row V) : Bool :=
  row.deleted && row.updated < policy.tombstonesBefore

def SweepPolicy.dismisses (policy : SweepPolicy V) (ns : String) (row : Row V) : Bool :=
  !row.deleted && (policy.absent.map fun absent => absent ns row).getD false

def SweepPolicy.removes (policy : SweepPolicy V) (ns : String) (row : Row V) : Bool :=
  policy.purges row || policy.dismisses ns row

/-- The rows that stay. -/
def keepRows (keep : StoredRow V → Bool) (rows : AList fun _ : String => StoredRow V) :
    AList fun _ : String => StoredRow V :=
  ⟨rows.entries.filter fun entry => keep entry.2, rows.nodupKeys.sublist List.filter_sublist⟩

/-- The newest purged tombstone, where the namespace keeps a horizon. -/
def SweepPolicy.raised (policy : SweepPolicy V) (ns : String) (horizon : Int)
    (rows : List (StoredRow V)) : Int :=
  rows.foldl (fun horizon row =>
    if policy.purges row.toRow && policy.horizon ns && horizon < row.updated then row.updated
    else horizon) horizon

def NamespaceData.swept (data : NamespaceData V) (ns : String) (policy : SweepPolicy V) :
    NamespaceData V :=
  { revision := data.revision + 1
    floor := data.revision + 1
    horizon := policy.raised ns data.horizon data.stored
    rows := keepRows (fun row => !policy.removes ns row.toRow) data.rows }

structure SweepResult where
  rev : Nat
  removed : Nat
  deriving DecidableEq

def sweepNamespace (state : NamespaceState V) (ns : String) (policy : SweepPolicy V)
    (faults : Faults) :
    Answered V SweepResult :=
  match state.load false faults with
  -- A sweep of a namespace without a file is no failure.
  | .error .namespaceNotFound => (.ok ⟨0, 0⟩, state)
  | .error problem => (.error problem, state)
  | .ok data =>
    let state := { state with memory := some data }
    let removed := (data.stored.filter fun row => policy.removes ns row.toRow).length
    if removed = 0 then (.ok ⟨data.revision, 0⟩, state)
    else
      match save faults.save (data.swept ns policy) state.file with
      | (false, file) => (.error .unavailable, { state with file := file })
      | (true, file) => (.ok ⟨data.revision + 1, removed⟩, ⟨some (data.swept ns policy), file⟩)

/-- A sweep reaches the namespaces that the policy lists and that have a file. -/
def sweep (state : NamespaceState V) (ns : String) (policy : SweepPolicy V) (faults : Faults) :
    Answered V SweepResult :=
  if policy.namespaces ns && state.file.isSome then sweepNamespace state ns policy faults
  else (.ok ⟨0, 0⟩, state)

/-- A new process, which loads the file again. -/
def restart (state : NamespaceState V) : NamespaceState V := { state with memory := none }

end

end AiConfig.Herder
