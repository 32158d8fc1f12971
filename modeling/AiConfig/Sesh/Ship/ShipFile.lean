import AiConfig.Sesh.Store.Runs

/-! # The shipper's cursor and `shipFile`

Transcription of `internal/ship/tail.go` and of the cursor registry it records
into.  Passes run inside a registry batch, where `Put` only changes the map, so
saving a cursor cannot fail here; the flush at the end of a batch is a step of its
own.  One iteration of the `shipFile` loop is split where it waits for the store:
`Loop.prepare` up to the PUT, `Loop.react` from the answer on.  The three reads of
the source file in an iteration see it at three moments. -/

namespace AiConfig.Sesh

open AiConfig.Lib AiConfig.Sesh.Wire

/-! ## The answer on the wire -/

inductive Reply where
  | ack (ack : Ack)
  | refusal (code : ErrorCode) (highWater : Nat) (message : String)
  | transport (reason : String)
  deriving DecidableEq, Repr

def PutResult.reply (res : PutResult) : Reply :=
  match res.code, res.ack with
  | none, some ack => .ack ack
  | some code, ack => .refusal code (ack.elim 0 (·.highWater)) res.message
  | none, none => .transport "malformed ACK body"

/-- `handlePUTBytes` for a well-formed request. -/
def Store.handlePUTBytes (store : Store) (req : PutRequest) (outcomes : List Outcome) :
    Reply × Store :=
  if maxPUTBody < req.body.length then
    (.refusal .bodyTooLarge 0 "PUT body exceeds maximum", store)
  else
    let (res, store) := store.put req outcomes
    (res.reply, store)

/-! ## Cursors -/

/-- An empty fingerprint or owner stands for none, as in the source. -/
structure Cursor where
  identity : Identity
  path : String
  offset : Nat
  fingerprint : String
  poisoned : Bool
  lastAckAt : Option String
  sessionOwner : String
  deriving DecidableEq, Repr

structure Discovered where
  identity : Identity
  path : String
  deriving DecidableEq, Repr

def Discovered.cursor (d : Discovered) : Cursor := ⟨d.identity, d.path, 0, "", false, none, ""⟩

/-- The cursors by identity; a cursor is only ever registered under its own. -/
structure Registry where
  get : Identity → Option Cursor
  keyed : ∀ id cur, get id = some cur → cur.identity = id

def Registry.empty : Registry := ⟨fun _ => none, nofun⟩

def Registry.put (registry : Registry) (cur : Cursor) : Registry where
  get := Function.update registry.get cur.identity (some cur)
  keyed id found registered := by
    by_cases own : id = cur.identity
    · subst own
      rw [Function.update_self] at registered
      cases registered
      rfl
    · rw [Function.update_of_ne own] at registered
      exact registry.keyed id found registered

@[simp] theorem Registry.put_get_self (registry : Registry) (cur : Cursor) :
    (registry.put cur).get cur.identity = some cur := Function.update_self ..

structure Shipper where
  registry : Registry
  held : Identity → Option String
  /-- `MaxBody`; zero means the default. -/
  maxBody : Nat

def Shipper.put (shipper : Shipper) (cur : Cursor) : Shipper :=
  { shipper with registry := shipper.registry.put cur }

def Shipper.holdFile (shipper : Shipper) (id : Identity) (reason : String) : Shipper :=
  { shipper with held := Function.update shipper.held id (some reason) }

def Shipper.bodyCap (shipper : Shipper) : Nat :=
  if 0 < shipper.maxBody then shipper.maxBody else maxPUTBody

/-- `Fingerprint`: ready once the file fills the window. -/
def fingerprint (content : Bytes) : Option String :=
  if content.length < fingerprintWindowBytes then none
  else some (Sha256.sum256Hex (content.take fingerprintWindowBytes))

/-- What one access to the source file finds. -/
inductive Glance where
  | content (bytes : Bytes)
  | missing
  | failed (reason : String)
  deriving DecidableEq, Repr

/-- How a call returns: `nil`, an error wrapping `errHold`, or another error. -/
inductive Returned where
  | ok
  | hold (reason : String)
  | failure (reason : String)
  deriving DecidableEq, Repr

/-- The headers a client sets on each request. -/
structure Client where
  hostname : String
  osUser : String
  version : String
  tailnetIdentity : String
  deriving DecidableEq, Repr

def Client.request (client : Client) (id : Identity) (cur : Cursor) (body : Bytes) (now : String) :
    PutRequest :=
  ⟨id, if cur.fingerprint = "" then none else some cur.fingerprint, cur.offset, body,
    client.hostname, client.osUser, cur.sessionOwner, client.tailnetIdentity, client.version, now⟩

/-! ## One iteration of `shipFile` -/

structure Loop where
  shipper : Shipper
  cur : Cursor
  maxBody : Nat
  conflictRetried : Bool

def Loop.save (loop : Loop) (cur : Cursor) : Loop :=
  { loop with shipper := loop.shipper.put cur, cur := cur }

def Loop.regress (loop : Loop) (size : Nat) : Loop :=
  if size < loop.cur.offset then loop.save
    { loop.cur with offset := 0, fingerprint := "" } else loop

/-- A recreated file: another content window under the same identity. -/
def Cursor.recreated (cur : Cursor) (fp : String) : Cursor :=
  if cur.fingerprint ≠ "" ∧ fp ≠ cur.fingerprint then { cur with offset := 0 } else cur

def Loop.refingerprint (loop : Loop) : Option String → Loop
  | none => loop
  | some fp =>
    let cur := loop.cur.recreated fp
    if cur.fingerprint ≠ fp then loop.save { cur with fingerprint := fp }
    else { loop with cur := cur }

/-- The two resets at the head of an iteration. -/
def Loop.observe (loop : Loop) (stat window : Bytes) : Loop :=
  (loop.regress stat.length).refingerprint (fingerprint window)

inductive Prepared where
  | returns (result : Returned) (shipper : Shipper)
  | again (loop : Loop)
  | sends (loop : Loop) (size : Nat) (body : Bytes)

def Loop.readBody (loop : Loop) (size : Nat) : Glance → Prepared
  | .missing => .returns .ok loop.shipper
  | .failed reason => .returns (.failure reason) loop.shipper
  | .content content =>
    let body := (content.drop loop.cur.offset).take (min (size - loop.cur.offset) loop.maxBody)
    if body = [] then .again loop else .sends loop size body

def Loop.prepare (loop : Loop) (stat window body : Glance) : Prepared :=
  match stat with
  | .missing => .returns .ok loop.shipper
  | .failed reason => .returns (.failure reason) loop.shipper
  | .content found =>
    match window with
    | .missing => .returns .ok (loop.regress found.length).shipper
    | .failed reason => .returns (.failure reason) (loop.regress found.length).shipper
    | .content content =>
      let loop := loop.observe found content
      if found.length ≤ loop.cur.offset then .returns .ok loop.shipper
      else loop.readBody found.length body

inductive Reacted where
  | returns (result : Returned) (shipper : Shipper)
  | again (loop : Loop)

def Loop.react (id : Identity) (loop : Loop) (size : Nat) (now : String) : Reply → Reacted
  | .transport reason => .returns (.hold reason) loop.shipper
  | .ack ack =>
    .again
        { loop.save { loop.cur with offset := min ack.highWater size, lastAckAt := some now } with
      conflictRetried := false }
  | .refusal code highWater message =>
    match code with
    -- The store answered on another high-water: the cursor follows it.
    | .offsetGap | .fingerprintConflict | .generationOpened =>
      .again { loop.save { loop.cur with offset := highWater } with conflictRetried := false }
    | .byteConflict =>
      if loop.conflictRetried then
        .returns (.failure "store repeated byte_conflict after the single retry") loop.shipper
      else .again { loop with conflictRetried := true }
    | .poisonedFile => .returns .ok (loop.save { loop.cur with poisoned := true }).shipper
    -- The cursor stays where it is, and the file is tried again later.
    | .outOfGrant | .storeUnavailable | .mirrorWriteFailed =>
      .returns (.hold (code.text ++ " (" ++ message ++ ")")) loop.shipper
    | .bodyTooLarge =>
      if loop.maxBody ≤ 1 then .returns
        (.failure "store rejects even 1-byte bodies as too large") loop.shipper
      else .again { loop with maxBody := loop.maxBody / 2 }
    -- No retry can help: the file is held until a restart.
    | .malformedRequest | .unknownTool | .notFound =>
      .returns .ok (loop.shipper.holdFile id code.text)

/-- `shipFile` up to its loop: held and poisoned identities are left alone. -/
def Shipper.enter (shipper : Shipper) (d : Discovered) : Reacted :=
  match shipper.held d.identity with
  | some _ => .returns .ok shipper
  | none =>
    let cur := (shipper.registry.get d.identity).getD d.cursor
    if cur.poisoned then .returns .ok shipper
    else
      let loop : Loop := ⟨shipper, cur, shipper.bodyCap, false⟩
      .again (if cur.path = d.path then loop else loop.save { cur with path := d.path })

/-! ## Recovery -/

/-- `recoverCursor` from the answer of the recovery GET on; `window` is what
    `Fingerprint` then reads.  `none` is the answer `not_found`.  Not called for an
    identity that has a cursor. -/
def Shipper.recovered (shipper : Shipper) (d : Discovered) (window : Glance) :
    Option RecoveryResponse → Returned × Shipper
  | none => (.ok, shipper.put d.cursor)
  | some rec =>
    match window with
    | .missing => (.ok, shipper)
    | .failed reason => (.failure reason, shipper)
    | .content content =>
      let local_ := fingerprint content
      -- The newest generation that has the file's fingerprint; without one the file starts over.
      let matched := local_.bind fun fp => rec.generations.reverse.find? (·.fingerprint = some fp)
      let target := matched.or rec.generations.getLast?
      (.ok, shipper.put { d.cursor with
        offset := matched.elim 0 (·.highWater)
        fingerprint := local_.getD ""
        poisoned := target.elim false (·.poisoned) })

/-- `recordOwnerObservations`, for one discovered file. -/
def Shipper.recordOwner (shipper : Shipper) (d : Discovered) (owner : String) : Shipper :=
  let cur := (shipper.registry.get d.identity).getD d.cursor
  if owner = "" ∨ cur.sessionOwner = owner then shipper
  else shipper.put { cur with sessionOwner := owner }

/-! ## A whole call over a file that does not change -/

/-- The clock and the storage outcomes of one PUT. -/
structure PutConditions where
  now : String
  outcomes : List Outcome
  deriving DecidableEq, Repr

/-- The loop, one PUT for each element of `conditions`; `none` when they do not suffice. -/
def shipLoop (client : Client) (id : Identity) (file : Bytes) :
    List PutConditions → Loop → Store → Option (Returned × Shipper × Store)
  | [], _, _ => none
  | here :: rest, loop, store =>
    match loop.prepare (.content file) (.content file) (.content file) with
    | .returns result shipper => some (result, shipper, store)
    | .again loop => shipLoop client id file rest loop store
    | .sends loop size body =>
      match store.handlePUTBytes (client.request id loop.cur body here.now) here.outcomes with
      | (reply, store) =>
        match loop.react id size here.now reply with
        | .returns result shipper => some (result, shipper, store)
        | .again loop => shipLoop client id file rest loop store

def shipFile (client : Client) (file : Bytes) (d : Discovered) (conditions : List PutConditions)
    (shipper : Shipper) (store : Store) : Option (Returned × Shipper × Store) :=
  match shipper.enter d with
  | .returns result shipper => some (result, shipper, store)
  | .again loop => shipLoop client d.identity file conditions loop store

/-! ## A sample shipper -/

def sampleFile : Discovered := ⟨sampleIdentity, "/home/user/session.jsonl"⟩

def sampleClient : Client := ⟨"host", "user", "dev", ""⟩

def newShipper : Shipper := ⟨.empty, fun _ => none, 0⟩

end AiConfig.Sesh
