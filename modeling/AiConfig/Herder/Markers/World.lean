import AiConfig.Herder.Markers.Model
import AiConfig.Lib.Transition

/-! # Devices that share a read marker

Transcription of `readMarkerStore.ts` for one key, under what `stateSync.ts` does with
that key, on any number of devices, and of a server that keeps the greatest version.  The
server's revision also counts writes to other keys. -/

namespace AiConfig.Herder

open AiConfig.Lib

/-! ## The marker store -/

/-- `version` of a row to write. -/
def writeVersion (current : Option ReadMarkerRow) (weak : Bool) (now : Int) : Int :=
  if current.isNone && weak then weakUpdated else max now (((current.map (·.updated)).getD 0) + 1)

/-- The row that `apply` writes, if any. -/
def applyMarker (key : String) (current : Option ReadMarkerRow) (marker : ReadMarker) (weak : Bool)
    (now : Int)
    (writeID : String) : Option ReadMarkerRow :=
  let live := current.filter fun row => !row.deleted
  if weak && live.isSome then none
  else if sameMarker (live.map (·.value)) marker then none
  else some ⟨key, marker, writeVersion current weak now, writeID, false⟩

/-- A row merged ahead of the winner, as it is republished. -/
def repairRow (merged : ReadMarkerRow) (now : Int) (writeID : String) : ReadMarkerRow :=
  { merged with updated := writeVersion (some merged) false now, writeID := writeID }

/-- `merge`: the row then held and the row to republish. -/
def mergeIncoming (current incoming : Option ReadMarkerRow) (now : Int) (writeID : String) :
    Option ReadMarkerRow × Option ReadMarkerRow :=
  match incoming with
  | none => (current, none)
  | some incoming =>
    match mergeMarkerRow current incoming with
    | (merged, true) => (some (repairRow merged now writeID), some (repairRow merged now writeID))
    | (merged, false) => (some merged, none)

/-! ## One device -/

structure MarkerPull where
  full : Bool
  since : Nat
  /-- The row, if it is after `since`, and the server's revision. -/
  answer : Option (Option ReadMarkerRow × Nat)

structure Device where
  held : Option ReadMarkerRow
  queued : Bool
  catchUp : Bool
  cursor : Nat
  pull : Option MarkerPull
  /-- The row posted, and whether the server has taken it. -/
  post : Option (ReadMarkerRow × Bool)

def Device.askPull (device : Device) : Device :=
  { device with pull := some ⟨device.catchUp, if device.catchUp then 0 else device.cursor, none⟩ }

def Device.write (device : Device) (row : ReadMarkerRow) : Device :=
  { device with held := some row, queued := true }

/-- What a pull takes off the queue: a key with no row, or whose row the server has. -/
def retires (held incoming : Option ReadMarkerRow) : Bool :=
  match held, incoming with
  | none, _ => true
  | some _, none => false
  | some own, some remote => 0 ≤ remote.compare own

/-- What a full pull shows to be missing or older on the server. -/
def lacks (held incoming : Option ReadMarkerRow) : Bool :=
  match held, incoming with
  | none, _ => false
  | some _, none => true
  | some own, some remote => 0 < own.compare remote

/-- A pull lands, and what it repaired is published. -/
def Device.pullLands (device : Device) (full : Bool) (incoming : Option ReadMarkerRow) (rev : Nat)
    (now : Int)
    (writeID : String) : Device × Option ReadMarkerRow :=
  let (held, repaired) := mergeIncoming device.held incoming now writeID
  ({ device with
      held := held
      queued :=
        device.queued && !retires held incoming || full && lacks held incoming || repaired.isSome
      catchUp := device.catchUp && !full
      cursor := rev
      pull := none },
    repaired)

def Device.send (device : Device) : Device :=
  if device.queued then
    match device.held with
    | some row => { device with post := some (row, false) }
    | none => { device with queued := false }
  else device

/-- The POST of `row` is answered. -/
def Device.postLands (device : Device) (row : ReadMarkerRow) : Device :=
  { device with
    queued := device.queued && device.held.any fun own => 0 < own.compare row
    post := none }

/-! ## The devices and the server -/

structure MarkerWorld (ι : Type) where
  devices : ι → Device
  server : Option ReadMarkerRow
  /-- When the server's row came in. -/
  serverRev : Nat
  rev : Nat
  /-- Posted rows whose POST was given up. -/
  lost : List ReadMarkerRow
  /-- Every row so far. -/
  issued : List ReadMarkerRow

inductive MarkerEvent (ι : Type) where
  | write (device : ι)
  /-- `start` sends everything after a first pull that failed. -/
  | requeue (device : ι)
  | askPull (device : ι)
  | pullServed (device : ι)
  | pullFails (device : ι)
  | pullLands (device : ι)
  | repair (device : ι)
  | send (device : ι)
  | postServed (device : ι)
  | postLands (device : ι)
  | postFails (device : ι)
  /-- The server takes a POST that was given up. -/
  | lostServed
  /-- A write to another key. -/
  | other

def MarkerEvent.isWrite {ι : Type} : MarkerEvent ι → Bool
  | .write _ => true
  | _ => false

def MarkerEvent.isRepair {ι : Type} : MarkerEvent ι → Bool
  | .repair _ => true
  | _ => false

section

variable {ι : Type}

/-- The server keeps the greatest version. -/
def MarkerWorld.take (world : MarkerWorld ι) (row : ReadMarkerRow) : MarkerWorld ι :=
  if world.server.all fun held => 0 < row.compare held then
    { world with server := some row, serverRev := world.rev + 1, rev := world.rev + 1 }
  else world

def MarkerWorld.fresh (world : MarkerWorld ι) (writeID : String) : Prop :=
  ∀ row ∈ world.issued, row.writeID ≠ writeID

variable [DecidableEq ι]

def MarkerWorld.put (world : MarkerWorld ι) (place : ι) (device : Device) : MarkerWorld ι :=
  { world with devices := Function.update world.devices place device }

/-- Of a pull, the row if it is after `since`. -/
def MarkerWorld.since (world : MarkerWorld ι) (since : Nat) : Option ReadMarkerRow :=
  if since < world.serverRev then world.server else none

inductive MarkerWorld.Moves (key : String) : MarkerWorld ι → MarkerEvent ι → MarkerWorld ι → Prop
  | write (world : MarkerWorld ι) (i : ι) (marker : ReadMarker) (weak : Bool) (now : Int)
      {writeID : String}
      (fresh : world.fresh writeID) {row : ReadMarkerRow}
      (written : applyMarker key (world.devices i).held marker weak now writeID = some row) :
      Moves key world (.write i)
        { world.put i ((world.devices i).write row) with issued := world.issued ++ [row] }
  | requeue (world : MarkerWorld ι) (i : ι) (catchUp : (world.devices i).catchUp = true) :
      Moves key world (.requeue i) (world.put i { world.devices i with queued := true })
  | askPull (world : MarkerWorld ι) (i : ι) (idle : (world.devices i).pull = none) :
      Moves key world (.askPull i) (world.put i (world.devices i).askPull)
  | pullServed (world : MarkerWorld ι) (i : ι) {pull : MarkerPull}
      (asked : (world.devices i).pull = some pull)
      (pending : pull.answer = none) :
      Moves key world (.pullServed i)
        (world.put i
          { world.devices i with pull := some { pull with answer := some (world.since pull.since,
            world.rev) } })
  | pullFails (world : MarkerWorld ι) (i : ι) (asked : (world.devices i).pull.isSome) :
      Moves key world (.pullFails i) (world.put i { world.devices i with pull := none })
  | pullLands (world : MarkerWorld ι) (i : ι) {pull : MarkerPull} {incoming : Option ReadMarkerRow}
      {rev : Nat}
      (asked : (world.devices i).pull = some pull) (answered : pull.answer = some (incoming, rev))
        {landed : Device}
      (now : Int) (writeID : String)
      (lands : (world.devices i).pullLands pull.full incoming rev now writeID = (landed, none)) :
      Moves key world (.pullLands i) (world.put i landed)
  | repair (world : MarkerWorld ι) (i : ι) {pull : MarkerPull} {incoming : Option ReadMarkerRow}
      {rev : Nat}
      (asked : (world.devices i).pull = some pull) (answered : pull.answer = some (incoming, rev))
        (now : Int)
      {writeID : String} (fresh : world.fresh writeID) {landed : Device} {row : ReadMarkerRow}
      (lands : (world.devices i).pullLands pull.full incoming rev now writeID =
        (landed, some row)) :
      Moves key world (.repair i) { world.put i landed with issued := world.issued ++ [row] }
  | send (world : MarkerWorld ι) (i : ι) (idle : (world.devices i).post = none) :
      Moves key world (.send i) (world.put i (world.devices i).send)
  | postServed (world : MarkerWorld ι) (i : ι) {row : ReadMarkerRow} {taken : Bool}
      (sent : (world.devices i).post = some (row, taken)) :
      Moves key world (.postServed i)
        ((world.put i { world.devices i with post := some (row, true) }).take row)
  | postLands (world : MarkerWorld ι) (i : ι) {row : ReadMarkerRow}
      (taken : (world.devices i).post = some (row, true)) :
      Moves key world (.postLands i) (world.put i ((world.devices i).postLands row))
  | postFails (world : MarkerWorld ι) (i : ι) {row : ReadMarkerRow} {taken : Bool}
      (sent : (world.devices i).post = some (row, taken)) :
      Moves key world (.postFails i)
        { world.put i { world.devices i with post := none } with lost := world.lost ++ [row] }
  | lostServed (world : MarkerWorld ι) {row : ReadMarkerRow} (given : row ∈ world.lost) :
      Moves key world .lostServed (world.take row)
  | other (world : MarkerWorld ι) : Moves key world .other { world with rev := world.rev + 1 }

/-- The devices start with what they kept, and read everything first. -/
structure MarkerWorld.Starts (world : MarkerWorld ι) : Prop where
  devices : ∀ i, (world.devices i).catchUp = true ∧ (world.devices i).pull = none ∧
    (world.devices i).post = none
  served : world.server.isSome = true → 0 < world.serverRev
  rev : world.serverRev ≤ world.rev
  lost : world.lost = []
  issued : ∀ row, row ∈ world.issued ↔ world.server = some row ∨ ∃ i,
    (world.devices i).held = some row
  /-- A version names one row. -/
  versions : ∀ row ∈ world.issued, ∀ other ∈ world.issued, row.version = other.version → row = other

/-- Starting rows of no version below `least`. -/
def markerSystem (ι : Type) [DecidableEq ι] (key : String) (least : Int) :
    System (MarkerWorld ι) (MarkerEvent ι) where
  initial := fun world => world.Starts ∧ ∀ row ∈ world.issued, least ≤ row.updated
  step := MarkerWorld.Moves key

/-- No pull and no POST is outstanding. -/
structure MarkerWorld.Quiet (world : MarkerWorld ι) : Prop where
  pulled : ∀ i, (world.devices i).pull = none ∧ (world.devices i).catchUp = false ∧
    (world.devices i).cursor = world.rev
  sent : ∀ i, (world.devices i).post = none ∧ (world.devices i).queued = false

end

end AiConfig.Herder
