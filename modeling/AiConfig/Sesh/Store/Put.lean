import AiConfig.Lib.Fallible
import AiConfig.Lib.Sha256
import AiConfig.Sesh.Store.State

/-! # `putBytes`

The write path of `internal/store/store.go`, statement by statement: routing of a
request to a generation, overlap comparison, divergence handling, the mirror
append and the bookkeeping after it.  Every SQL statement and every mirror access
is one operation of `Fallible`, so any of them may fail and leave the effects of
the earlier ones.  The mutex of the store makes one call one program. -/

namespace AiConfig.Sesh

open AiConfig.Lib AiConfig.Lib.Fallible AiConfig.Sesh.Wire

/-- One PUT, with the identity already in canonical form, and the clock reading the
    call writes into its rows. -/
structure PutRequest where
  identity : Identity
  fingerprint : Option String
  offset : Nat
  body : Bytes
  hostname : String
  osUser : String
  owner : String
  tailnetIdentity : String
  shipperVersion : String
  now : String
  deriving DecidableEq, Repr

inductive StoreError where
  | mirrorStorage (reason : String)
  | storeState (reason : String)
  | other (reason : String)
  deriving DecidableEq, Repr

def StoreError.text : StoreError → String
  | .mirrorStorage reason => "mirror storage: " ++ reason
  | .storeState reason => "store state: " ++ reason
  | .other reason => reason

def classifyStoreError : StoreError → ErrorCode
  | .mirrorStorage _ => .mirrorWriteFailed
  | .storeState _ | .other _ => .storeUnavailable

/-- `fmt.Errorf("%w: %v", errStoreState, err)`. -/
def StoreError.asStoreState (failure : StoreError) : StoreError := .storeState failure.text

/-- The store, and the `fileState` the call points at as its target. -/
structure Putting where
  store : Store
  target : FileState

abbrev StoreM := Fallible StoreError Putting

/-- What `putBytes` returns: an ACK, or a code with the generation it is about. -/
structure PutResult where
  ack : Option Ack
  event : Option AppendEvent
  code : Option ErrorCode
  message : String
  action : String
  deriving DecidableEq, Repr

structure Refusal where
  code : ErrorCode
  message : String
  action : String
  deriving DecidableEq, Repr

def query {α : Type} (read : Store → α) : StoreM α :=
  attempt .other fun putting => (read putting.store, putting)

def exec (change : Store → Store) : StoreM Unit :=
  attempt .other fun putting => ((), { putting with store := change putting.store })

def currentTarget : StoreM FileState := peek (·.target)

def setTarget (target : FileState) : StoreM Unit :=
  poke fun putting => { putting with target := target }

/-- `UPDATE files SET … WHERE` the target's key, and the same change in memory. -/
def updateTarget (change : FileState → FileState) : StoreM Unit := do
  let target ← currentTarget
  exec (·.updateFiles (·.isGeneration target.identity target.generation) change)
  setTarget (change target)

def createGeneration (id : Identity) (generation : Nat) (fp : Option String) (conflictDriven : Bool)
    (now : String) : StoreM Unit := do
  let taken ← peek (·.store.files.any (·.isGeneration id generation))
  -- The table's primary key refuses a number twice.
  if taken then
    throw (.other "UNIQUE constraint failed: files")
  else
    let row : FileState := ⟨id, generation, fp, 0, false, false, none, false, conflictDriven, now⟩
    exec (·.insertFile row)
    setTarget row

def setFingerprint (fp : Option String) : StoreM Unit :=
  updateTarget fun row => { row with fingerprint := fp }

def setConflictPending (pending : Bool) : StoreM Unit :=
  updateTarget fun row => { row with conflictPending := pending }

def conflictDrivenExists (id : Identity) (fp : Option String) : StoreM Bool :=
  query fun store => store.files.any fun row =>
    row.identity = id && row.conflictDriven && row.fingerprint = fp

def poisonFingerprint (id : Identity) (fp : Option String) : StoreM Unit :=
  exec (·.updateFiles (fun row => row.identity = id && row.fingerprint = fp)
    fun row => { row with poisoned := true })

/-- `select the newest generation with this fingerprint`; generations come in
    ascending order. -/
def newestMatch (gens : List FileState) (fp : String) : Option FileState :=
  gens.reverse.find? (·.fingerprint = some fp)

def selectGeneration (req : PutRequest) : StoreM (Option Refusal) := do
  let gens ← query (·.generations req.identity none)
  match gens.getLast? with
  -- An unknown identity: generation 0 is created and answers.
  | none =>
    createGeneration req.identity 0 req.fingerprint false req.now
    pure none
  | some active =>
    match req.fingerprint with
    | none =>
      setTarget active
      pure none
    | some fp =>
      match newestMatch gens fp with
      | some gen =>
        setTarget gen
        pure none
      | none =>
        -- The claim is adopted by the active generation before any byte is compared.
        if active.fingerprint.isNone then
          setTarget active
          setFingerprint (some fp)
          pure none
        else
          createGeneration req.identity (active.generation + 1) (some fp) false req.now
          pure (some ⟨.fingerprintConflict, "request fingerprint selected a different generation",
            ""⟩)

def handleDivergence (now : String) : StoreM Refusal := do
  let target ← currentTarget
  if !target.conflictPending then
    setConflictPending true
    pure ⟨.byteConflict, "bytes diverge from ACKed mirror range", ""⟩
  else
    -- Without a fingerprint the lookup is for generations that have none, too.
    let found ← conflictDrivenExists target.identity target.fingerprint
    if found then
      poisonFingerprint target.identity target.fingerprint
      setTarget { target with poisoned := true }
      pure ⟨.poisonedFile, "conflict recurred for file identity", ""⟩
    else
      let active ← query (·.activeGeneration target.identity)
      match active with
      | none => throw (.other "sql: no rows in result set")
      | some active =>
        -- The target may be an older generation than the active one.
        let next := if target.generation + 1 ≤ active.generation then active.generation + 1
          else target.generation + 1
        setConflictPending false
        createGeneration target.identity next target.fingerprint true now
        pure ⟨.generationOpened, "opened new generation after repeated divergence", ""⟩

/-- The three statements after a successful PUT.  The target's high-water becomes
    durable with the first. -/
def recordSuccess (req : PutRequest) : StoreM Unit := do
  let target ← currentTarget
  updateTarget fun row =>
    { row with highWater := target.highWater, lastPutAt := some req.now, conflictPending := false }
  exec fun store =>
    { store with lastSeen := upsertLastSeen store.lastSeen ⟨req.hostname, req.osUser, req.now,
        if req.shipperVersion = "" then none else some req.shipperVersion⟩ }
  exec fun store =>
    { store with
      facts := store.facts ++ [⟨store.factSeq + 1, req.now, target.identity, target.generation,
        req.hostname, req.osUser, if req.owner = "" then none else some req.owner,
        if req.tailnetIdentity = "" then none else some req.tailnetIdentity⟩]
      factSeq := store.factSeq + 1 }

def writeBytes (target : FileState) (offset : Nat) (body : Bytes) (putting : Putting) : Putting :=
  { putting with
    store := putting.store.setMirror (mirrorPath target.identity target.generation)
      (writeAt (putting.store.mirrored target.identity target.generation) offset body) }

/-- `MkdirAll`, `WriteAt`, `Sync` and the directory sync; failing, the first bytes of
    the body may already be in the file. -/
def writeMirror (target : FileState) (offset : Nat) (body : Bytes) : StoreM Unit :=
  attemptWrite .mirrorStorage (writeBytes target offset body) fun written putting =>
    if written = 0 then putting else writeBytes target offset (body.take written) putting

def readMirror (target : FileState) (offset length : Nat) : StoreM Bytes := do
  let content ← query fun store =>
    (store.mirror (mirrorPath target.identity target.generation)).bind (readAt · offset length)
  match content with
  | some bytes => pure bytes
  | none => throw (.other "EOF")

def compareMirror (target : FileState) (offset : Nat) (want : Bytes) : StoreM Bool :=
  if want = [] then pure true
  else do
    let got ← readMirror target offset want.length
    pure (decide (got = want))

def updateFingerprintFromMirror : StoreM Unit := do
  let target ← currentTarget
  if target.highWater < fingerprintWindowBytes then pure ()
  else
    let window ← readMirror target 0 fingerprintWindowBytes
    let computed := Sha256.sum256Hex window
    if target.fingerprint = some computed then pure ()
    else setFingerprint (some computed)

def appendAtHighWater (req : PutRequest) (body : Bytes) : StoreM (Option AppendEvent) := do
  if body = [] then
    wrapped StoreError.asStoreState (recordSuccess req)
    pure none
  else
    -- `InjectMirrorErrorOnce` of the tests.
    let injected ← peek (·.store.failAppendOnce)
    if injected then
      poke fun putting => { putting with store := { putting.store with failAppendOnce := false } }
      throw (.mirrorStorage "injected mirror write failure")
    else
      let target ← currentTarget
      let start := target.highWater
      -- Three statements that commit one by one: the high-water comes last.
      writeMirror target start body
      setTarget { target with highWater := start + body.length }
      wrapped StoreError.asStoreState updateFingerprintFromMirror
      wrapped StoreError.asStoreState (recordSuccess req)
      pure (some ⟨target.identity, target.generation, start, start + body.length⟩)

def handleOverlap (req : PutRequest) : StoreM (Except Refusal (Option AppendEvent)) := do
  let target ← currentTarget
  let overlap := min req.body.length (target.highWater - req.offset)
  let agrees ← compareMirror target req.offset (req.body.take overlap)
  -- The bytes claimed again are not the mirrored ones.
  if !agrees then
    let refusal ← handleDivergence req.now
    pure (.error refusal)
  -- All of it is mirrored: it is acknowledged, and nothing is indexed again.
  else if req.body.length = overlap then
    wrapped StoreError.asStoreState (recordSuccess req)
    pure (.ok none)
  else
    let event ← appendAtHighWater req (req.body.drop overlap)
    pure (.ok event)

def refused (target : FileState) (code : ErrorCode) (message action : String) : PutResult :=
  ⟨some target.ack, none, some code, message, action⟩

def acknowledged (target : FileState) (event : Option AppendEvent) : PutResult :=
  ⟨some target.ack, event, none, "", ""⟩

/-- The answer to a call that reached a generation, from the target as the call left it. -/
def answer (result : Except StoreError (Except Refusal (Option AppendEvent))) :
    Fallible Empty Putting PutResult := do
  let target ← peek (·.target)
  match result with
  | .error failure => pure (refused target (classifyStoreError failure) failure.text "")
  | .ok (.error refusal) => pure (refused target refusal.code refusal.message refusal.action)
  | .ok (.ok event) => pure (acknowledged target event)

def appendHere (req : PutRequest) : StoreM (Except Refusal (Option AppendEvent)) := do
  let event ← appendAtHighWater req req.body
  pure (.ok event)

def putBytes (req : PutRequest) : Fallible Empty Putting PutResult := do
  let selected ← caught (selectGeneration req)
  match selected with
  -- No target is known yet, so no ACK state is reported.
  | .error failure => pure ⟨none, none, some .storeUnavailable, failure.text, ""⟩
  | .ok (some refusal) => answer (.ok (.error refusal))
  | .ok none =>
    let target ← peek (·.target)
    if target.poisoned then
      pure (refused target .poisonedFile "file identity is poisoned" "")
    else if target.highWater < req.offset then
      pure (refused target .offsetGap "offset beyond high-water" shipperActionRewind)
    else if req.offset < target.highWater then
      let result ← caught (handleOverlap req)
      answer result
    else
      let result ← caught (appendHere req)
      answer result

/-- The zero value of `fileState`, before a generation is selected. -/
def noTarget (id : Identity) : FileState := ⟨id, 0, none, 0, false, false, none, false, false, ""⟩

/-- One call of `putBytes` under the given storage outcomes. -/
def Store.put (store : Store) (req : PutRequest) (outcomes : List Outcome) : PutResult × Store :=
  match putBytes req ⟨⟨store, noTarget req.identity⟩, outcomes⟩ with
  | (.ok result, session) => (result, session.state.store)
  | (.error failure, _) => nomatch failure

/-- `recovery`: what the store holds for an identity, or `none` for `not_found`. -/
def Store.recovery (store : Store) (id : Identity) (fp : Option String) : Option RecoveryResponse :=
  match store.generations id fp with
  | [] => none
  | gens => some ⟨id, gens.map fun gen =>
      ⟨gen.generation, gen.fingerprint, gen.highWater, gen.poisoned, gen.dirtyForReindex,
        gen.lastPutAt⟩⟩

end AiConfig.Sesh
