import AiConfig.Herder.State.Rows
import AiConfig.Lib.Transition

/-! # The native client's sync of a namespace

Transcription of `native/src/store/sync.rs`.  The rule that merges an incoming row into the
held one is a parameter: last-write-wins, or the merge of read markers. -/

namespace AiConfig.Herder

open AiConfig.Lib

inductive Hold where
  /-- 409: not attributed; edits stay local until a pull succeeds. -/
  | localOnly
  /-- 413: held until the next local edit. -/
  | tooLarge
  deriving DecidableEq

/-- The rows of a pull or POST that was answered, a failure with its HTTP status, a backoff
that elapsed, or a local edit. -/
inductive Step (V : Type) where
  | pulled (rows : List (Row V)) (rev : Nat)
  | pullFailed (status : Option Nat)
  | posted
  | postFailed (status : Option Nat)
  | retry
  | edit (rows : List (Row V))

inductive Effect (V : Type) where
  | fetch (since : Nat)
  | post (rows : List (Row V))
  | after (afterMs : Nat)

structure Changes where
  rows : Bool
  outbox : Bool
  deriving DecidableEq

/-- The merged row and whether it is ahead of the winning one; `none` for a row that is refused. -/
abbrev MergeRule (V : Type) := Option (Row V) → Row V → Option (Row V × Bool)

structure Sync (V : Type) where
  rows : List (Row V)
  outbox : List (Row V)
  hold : Option Hold
  pulled : Bool
  repairs : List (Row V)
  cursor : Nat
  pulling : Bool
  pullAgain : Bool
  sending : Option (List (Row V))
  retryPending : Bool
  backoffMs : Nat
  changes : Changes

section

variable {V : Type}

def Sync.new : Sync V where
  rows := []
  outbox := []
  hold := none
  pulled := false
  repairs := []
  cursor := 0
  pulling := false
  pullAgain := false
  sending := none
  retryPending := false
  backoffMs := 500
  changes := ⟨false, false⟩

/-- An insert into a map ordered by key. -/
def putKey : List (Row V) → Row V → List (Row V)
  | [], row => [row]
  | current :: rest, row =>
    if row.key < current.key then row :: current :: rest
    else if current.key = row.key then row :: rest
    else current :: putKey rest row

def removeKey (rows : List (Row V)) (key : String) : List (Row V) :=
  rows.filter fun row => row.key ≠ key

def newer (row : Row V) (current : Option (Row V)) : Bool :=
  current.all fun held => held.version < row.version

def lastWriteWins : MergeRule V :=
  fun current row => if newer row current then some (row, false) else none

section

variable [DecidableEq V] (rule : MergeRule V)

def Sync.mergeRow (sync : Sync V) (row : Row V) : Sync V :=
  match rule (firstOf sync.rows row.key) row with
  | none => sync
  | some (merged, repair) =>
    let sync := if repair then { sync with repairs := sync.repairs ++ [merged] } else sync
    if firstOf sync.rows merged.key ≠ some merged then
      { sync with rows := putKey sync.rows merged, changes := { sync.changes with rows := true } }
    else sync

def Sync.merge (sync : Sync V) (rows : List (Row V)) : Sync V :=
  rows.foldl (Sync.mergeRow rule) sync

/-- What is sent is what merged, at this version. -/
def Sync.queueRow (sync : Sync V) (row : Row V) : Sync V :=
  let held := (firstOf sync.rows row.key).filter fun held => held.version = row.version
  let row := held.getD row
  if newer row (firstOf sync.outbox row.key) then
    { sync with outbox := putKey sync.outbox row, changes := { sync.changes with outbox := true } }
  else sync

def Sync.queue (sync : Sync V) (rows : List (Row V)) : Sync V :=
  rows.foldl Sync.queueRow { sync.merge rule rows with repairs := [] }

def Sync.pull (sync : Sync V) (out : List (Effect V)) : Sync V × List (Effect V) :=
  if sync.pulling then ({ sync with pullAgain := true }, out)
  else ({ sync with pulling := true }, out ++ [.fetch sync.cursor])

/-- A `state-changed` nudge. -/
def Sync.changed (sync : Sync V) (rev : Nat) (out : List (Effect V)) : Sync V × List (Effect V) :=
  if sync.cursor < rev then sync.pull out else (sync, out)

/-- A copy of the whole outbox. -/
def Sync.send (sync : Sync V) (out : List (Effect V)) : Sync V × List (Effect V) :=
  if sync.outbox.isEmpty || sync.sending.isSome || sync.hold.isSome || sync.retryPending then
    (sync, out)
  else ({ sync with sending := some sync.outbox }, out ++ [.post sync.outbox])

/-- The queued row of a key goes where `retires` says so. -/
def Sync.retire (sync : Sync V) (key : String) (retires : Row V → Bool) : Sync V :=
  if (firstOf sync.outbox key).any retires then
    { sync with outbox := removeKey sync.outbox key, changes := { sync.changes with outbox := true } }
  else sync

def Sync.answered (sync : Sync V) (got : List (Row V)) (rev : Nat) (out : List (Effect V)) :
    Sync V × List (Effect V) :=
  let sync := { sync with
    pulling := false
    pulled := true
    hold := if sync.hold = some Hold.localOnly then none else sync.hold
    cursor := max sync.cursor rev }
  -- What the server has at least as new is not queued any more.
  let sync :=
    got.foldl (fun sync remote => sync.retire remote.key fun queued =>
    queued.version ≤ remote.version) sync
  let sync := sync.merge rule got
  let (sync, out) :=
    if sync.pullAgain then { sync with pullAgain := false }.pull out else (sync, out)
  sync.send out

def Sync.posted (sync : Sync V) (out : List (Effect V)) : Sync V × List (Effect V) :=
  let sent := sync.sending.getD []
  let sync :=
    sent.foldl (fun sync sent => sync.retire sent.key fun queued => queued.version ≤ sent.version)
    { sync with sending := none }
  { sync with backoffMs := 500 }.pull out

def Sync.refused (sync : Sync V) (status : Option Nat) (out : List (Effect V)) :
    Sync V × List (Effect V) :=
  if status = some 409 then ({ sync with hold := some .localOnly }, out)
  else if status = some 413 then ({ sync with hold := some .tooLarge }, out)
  else if sync.retryPending then (sync, out)
  else ({ sync with retryPending := true, backoffMs := min (sync.backoffMs * 2) 10000 },
    out ++ [.after sync.backoffMs])

def Sync.reduce (sync : Sync V) (step : Step V) (out : List (Effect V)) :
    Sync V × List (Effect V) :=
  match step with
  | .pulled rows rev => sync.answered rule rows rev out
  | .pullFailed status =>
    -- A namespace that the server does not have is an empty one.
    if status = some 404 then sync.answered rule [] 0 out
    else { sync with pulling := false }.refused status out
  | .posted => sync.posted out
  | .postFailed status => { sync with sending := none }.refused status out
  | .retry =>
    let sync := { sync with retryPending := false }
    if sync.hold = some .localOnly then (sync, out) else sync.pull out
  | .edit rows =>
    let sync := sync.queue rule rows
    -- The edit may have made the row small enough.
    { sync with hold := if sync.hold = some Hold.tooLarge then none else sync.hold }.send out

/-- `apply`: the step's changes are taken. -/
def Sync.apply (sync : Sync V) (step : Step V) (out : List (Effect V)) :
    Sync V × List (Effect V) × Changes :=
  let (sync, out) := sync.reduce rule step out
  ({ sync with changes := ⟨false, false⟩ }, out, sync.changes)

/-- `restore` of the snapshot's rows, then of the outbox's. -/
def Sync.restored (cursor : Nat) (snapshot outbox : List (Row V)) : Sync V :=
  let sync := { Sync.new with cursor := cursor }.merge rule snapshot
  let sync := { sync with repairs := [] }.queue rule outbox
  { sync with changes := ⟨false, false⟩, repairs := [] }

end

/-! ## The server and the requests in flight -/

/-- What the shell has under way. -/
structure Flight (V : Type) where
  /-- A pull, and its rows and revision once answered. -/
  pull : Option (Option (List (Row V) × Nat))
  /-- A POST, and whether the server has taken its rows. -/
  post : Option (List (Row V) × Bool)
  timer : Bool

def Flight.emit (flight : Flight V) : Effect V → Flight V
  | .fetch _ => { flight with pull := some none }
  | .post rows => { flight with post := some (rows, false) }
  | .after _ => { flight with timer := true }

def Flight.issue (flight : Flight V) (out : List (Effect V)) : Flight V :=
  out.foldl Flight.emit flight

/-- A server that keeps the latest row of each key. -/
structure NativeWorld (V : Type) where
  sync : Sync V
  server : String → Option (Row V)
  flight : Flight V
  /-- Every row edited so far. -/
  edited : List (Row V)

inductive NativeEvent (V : Type) where
  | edit (rows : List (Row V))
  | changed (rev : Nat)
  | pullAnswered (rows : List (Row V)) (rev : Nat)
  | pullArrives
  | pullFails (status : Option Nat)
  | postTaken
  | postArrives
  | postFails (status : Option Nat)
  | timerFires
  /-- Rows that other clients post, or a POST given up on that the server still takes. -/
  | others (rows : List (Row V))

section

variable [DecidableEq V]

/-- A step of the sync, whose effects the shell carries out. -/
def NativeWorld.apply (world : NativeWorld V) (flight : Flight V) (step : Step V) : NativeWorld V :=
  let (sync, out, _) := world.sync.apply lastWriteWins step []
  { world with sync := sync, flight := flight.issue out }

/-- The rows are restored and the first pull is made. -/
def NativeWorld.boot (cursor : Nat) (snapshot outbox : List (Row V))
    (server : String → Option (Row V)) :
    NativeWorld V :=
  let (sync, out) := (Sync.restored lastWriteWins cursor snapshot outbox).pull []
  ⟨sync, server, (Flight.mk none none false).issue out, outbox⟩

/-- An answer arrives only for a request in flight. -/
inductive NativeWorld.Moves : NativeWorld V → NativeEvent V → NativeWorld V → Prop
  | edit (world : NativeWorld V) (rows : List (Row V)) :
      Moves world (.edit rows)
        { world.apply world.flight (.edit rows) with edited := world.edited ++ rows }
  | changed (world : NativeWorld V) (rev : Nat) :
      Moves world (.changed rev)
        { world with
          sync := (world.sync.changed rev []).1, flight :=
            world.flight.issue (world.sync.changed rev []).2 }
  | pullAnswered (world : NativeWorld V) (rows : List (Row V)) (rev : Nat)
      (asked : world.flight.pull = some none)
      (current : ∀ row ∈ rows, world.server row.key = some row) :
      Moves world (.pullAnswered rows rev)
        { world with flight := { world.flight with pull := some (some (rows, rev)) } }
  | pullArrives (world : NativeWorld V) {rows : List (Row V)} {rev : Nat}
      (answered : world.flight.pull = some (some (rows, rev))) :
      Moves world .pullArrives (world.apply { world.flight with pull := none } (.pulled rows rev))
  | pullFails (world : NativeWorld V) (status : Option Nat) (asked : world.flight.pull.isSome) :
      Moves world (.pullFails status)
        (world.apply { world.flight with pull := none } (.pullFailed status))
  | postTaken (world : NativeWorld V) {rows : List (Row V)} {taken : Bool}
      (sent : world.flight.post = some (rows, taken)) :
      Moves world .postTaken
        { world with
          server := absorbAll Row.key Row.version world.server rows
          flight := { world.flight with post := some (rows, true) } }
  | postArrives (world : NativeWorld V) {rows : List (Row V)}
      (taken : world.flight.post = some (rows, true)) :
      Moves world .postArrives (world.apply { world.flight with post := none } .posted)
  | postFails (world : NativeWorld V) (status : Option Nat) (sent : world.flight.post.isSome) :
      Moves world (.postFails status)
        (world.apply { world.flight with post := none } (.postFailed status))
  | timerFires (world : NativeWorld V) (set : world.flight.timer = true) :
      Moves world .timerFires (world.apply { world.flight with timer := false } .retry)
  | others (world : NativeWorld V) (rows : List (Row V)) :
      Moves world (.others rows)
        { world with server := absorbAll Row.key Row.version world.server rows }

/-- The client booted over any rows and any server. -/
def nativeSystem (V : Type) [DecidableEq V] : System (NativeWorld V) (NativeEvent V) where
  initial :=
    fun world => ∃ cursor snapshot outbox server, world = .boot cursor snapshot outbox server
  step := NativeWorld.Moves

end

end

end AiConfig.Herder
