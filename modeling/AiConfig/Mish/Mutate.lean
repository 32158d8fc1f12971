import AiConfig.Mish.Document

/-! # Changing asks

Transcription of `asks create` and of the operations that change an ask: `applyAskMutation` and
`runAsksCreate` of `internal/cli/asks.go`, `MutateAsk` and `WriteNewAsk` of
`internal/missionfs/asks.go`.
Requests have the asks of a mission to themselves, under its lock; a file is replaced as a whole. -/

namespace AiConfig.Mish

open AiConfig.Lib

/-! ## Generated ids -/

def hexChar (nibble : BitVec 4) : Char := "0123456789abcdef".toList.getD nibble.toNat '0'

def hexByte (byte : BitVec 8) : List Char :=
  [hexChar (byte.extractLsb' 4 4), hexChar (byte.extractLsb' 0 4)]

/-- The bytes of a UUID of version 7; the time is in nanoseconds. -/
def uuidBytes (now : Int) (random : Nat → BitVec 8) (index : Nat) : BitVec 8 :=
  if index < 6 then (BitVec.ofInt 64 (now / 1000000) >>> (40 - 8 * index)).setWidth 8
  else if index = 6 then 0x70#8 ||| (random 6 &&& 0x0f#8)
  else if index = 8 then 0x80#8 ||| (random 8 &&& 0x3f#8)
  else random index

/-- `GenerateAskID`, unless reading random bytes fails with a text. -/
def GenerateAskID (now : Int) (random : Except String (Nat → BitVec 8)) : Except String String :=
  random.map fun random =>
    let hex :=
      fun (indices : List Nat) => indices.flatMap fun index => hexByte (uuidBytes now random index)
    String.ofList ("ask-".toList ++ hex [0, 1, 2, 3] ++ ['-'] ++ hex [4, 5] ++ ['-'] ++
      hex [6, 7] ++ ['-'] ++ hex [8, 9] ++ ['-'] ++
      hex [10, 11, 12, 13, 14, 15])

/-! ## The operations -/

/-- What the requests read of `mission.md`. -/
structure Manifest where
  owner : String
  authority : String

structure SettleInput where
  choice : String
  prose : String

structure CloseInput where
  outcome : String
  reason : String

structure WithdrawInput where
  outcome : String
  reason : String
  citation : TypedRef

structure LinkInput where
  link : TypedRef
  setAnchor : Bool

/-- An operation and its input, none when the input does not unmarshal. -/
inductive Mutation where
  | reply (prose : Option String) (random : Except String (Nat → BitVec 8))
  | settle (input : Option SettleInput)
  | close (input : Option CloseInput)
  | withdrawWithCitation (input : Option WithdrawInput)
  | link (input : Option LinkInput)
  | widenMembership (member : Option String)

/-- Closed asks refuse most operations. -/
def closedFailure : AskFailure :=
  ⟨"invalid_transition", "closed entity cannot be mutated by this operation",
    "read the entity and choose an operation valid for its current state"⟩

def nonSettled (outcome : String) : Bool := outcome ∈ ["no-action", "superseded"]

/-- The actor may close the ask. -/
def mayClose (m : Manifest) (e : AskEntity) (actor : String) : Bool :=
  let allowed := actor = e.addressedTo || actor = m.owner
  let allowed :=
    if actor = m.authority && actor ≠ m.owner && e.expects ∈ ["decide", "reply"] then false
    else allowed
  if actor = m.authority && e.expects ∈ ["", "act", "read"] then true else allowed

section

variable {Text : Type} (yaml : YamlPackage Text) (times : Times) (m : Manifest) (actor at_ : String)
  (doc : AskDocument)

def applyReply (prose : Option String) (random : Except String (Nat → BitVec 8)) :
    Except AskFailure AskDocument :=
  match prose.filter (· ≠ "") with
  | none => .error ⟨"invalid_input", "reply prose is required", "provide non-empty prose"⟩
  | some prose =>
    if actor ∉ doc.entity.members.items then
      .error ⟨"actor_not_member", "only a current member may reply",
        "ask the owner to widen membership"⟩
    else
      -- a stamp that does not parse is the zero time
      match GenerateAskID ((times.instant at_).getD (-62135596800000000000)) random with
      | .error error => .error ⟨"id_generation_failed", "could not generate reply ID", error⟩
      | .ok id => .ok (doc.appendReply yaml ⟨replyID id, actor, at_, prose⟩)

def applySettle (input : Option SettleInput) : Except AskFailure AskDocument :=
  if doc.entity.state ≠ "open" then .error closedFailure
  else
    match input.filter (·.prose ≠ "") with
    | none => .error ⟨"invalid_input", "settlement prose is required",
        "provide the ruling or acknowledgment prose"⟩
    | some input =>
      if actor ≠ doc.entity.addressedTo then
        .error ⟨"actor_not_addressee", "only the addressee may settle",
          "ask the addressed participant to settle"⟩
      else if input.choice ≠ "" && doc.entity.framing.options.items.all (·.id ≠ input.choice) then
        .error ⟨"invalid_choice", "choice is not one of the presented options",
          "choose a presented option ID"⟩
      else
        -- The ruling keeps what was presented when it was made.
        let framing := doc.entity.framing
        .ok (((doc.appendSettlementRuling
          ⟨framing.question, framing.options, input.choice, input.prose, actor, at_⟩).setKind
          "ruling").setClosed "settled")

def applyClose (input : Option CloseInput) : Except AskFailure AskDocument :=
  if doc.entity.state ≠ "open" then .error closedFailure
  else
    match input.filter fun input => nonSettled input.outcome && input.reason ≠ "" with
    | none => .error ⟨"invalid_input",
        "close requires outcome no-action or superseded and a reason",
        "provide the non-settlement close fields"⟩
    | some input =>
      if !mayClose m doc.entity actor then
        .error ⟨"actor_not_authorized", "actor may not close this entity",
          "use the addressee or owner; decide/reply authority withdrawal requires a citation"⟩
      else .ok ((doc.setClosed input.outcome).appendTrace yaml
        ⟨"close", actor, at_, input.outcome, input.reason, none, ""⟩)

def applyWithdraw (input : Option WithdrawInput) : Except AskFailure AskDocument :=
  if doc.entity.state ≠ "open" then .error closedFailure
  else
    match input.filter fun input =>
        nonSettled input.outcome && input.reason ≠ "" && input.citation.type ≠ "" &&
            input.citation.ref ≠ "" with
    | none => .error ⟨"invalid_input", "withdrawal requires outcome, reason, and typed citation",
        "provide a cited no-action or superseded withdrawal"⟩
    | some input =>
      if !validRef input.citation true then
        .error ⟨"invalid_citation", "withdrawal citation type is invalid",
          "use an allowed typed reference"⟩
      else if doc.entity.kind ≠ "ask" then
        .error ⟨"invalid_transition", "only an open ask may be withdrawn",
          "use an operation valid for a ruling"⟩
      -- The authority withdraws what its addressee has not answered.
      else if actor ≠ m.authority then
        .error ⟨"actor_not_authority", "only mission authority may withdraw",
          "use the authority recorded in mission.md"⟩
      else if doc.entity.replies.items.any (·.actor = doc.entity.addressedTo) then
        .error ⟨"answered_ask", "an ask with an addressee reply cannot be withdrawn",
          "settle or close it with the addressee"⟩
      else
        .ok ((doc.setClosed input.outcome).appendTrace yaml
          ⟨"withdraw", actor, at_, input.outcome, input.reason, some input.citation, ""⟩)

def applyLink (input : Option LinkInput) : Except AskFailure AskDocument :=
  match input.filter fun input => input.link.type ≠ "" && input.link.ref ≠ "" with
  | none => .error ⟨"invalid_input", "typed link is required", "provide link.type and link.ref"⟩
  | some input =>
    if actor ∉ doc.entity.members.items && actor ≠ m.authority then
      .error ⟨"actor_not_authorized", "only a member or mission authority may link",
        "use an authorized actor"⟩
    else if !validRef input.link true then
      .error ⟨"invalid_link", "link type is invalid",
        "use task, phase, milestone, artifact, thread, mission, or entity"⟩
    -- Setting an anchor also links it, but an entity is never one.
    else if !input.setAnchor then .ok (doc.linkOnce yaml input.link)
    else if !validRef input.link false then
      .error ⟨"invalid_anchor", "entity links cannot become anchors", "use an anchor-ladder link"⟩
    else .ok ((doc.linkOnce yaml input.link).setAnchor input.link)

def applyWiden (member : Option String) : Except AskFailure AskDocument :=
  if doc.entity.state ≠ "open" then .error closedFailure
  else
    match member.filter (· ≠ "") with
    | none => .error ⟨"invalid_input", "member is required",
        "provide the durable participant label"⟩
    | some member =>
      if actor ≠ m.owner then
        .error ⟨"actor_not_owner", "only mission owner may widen membership",
          "use the owner recorded in mission.md"⟩
      -- One who is a member already is not traced again.
      else if member ∈ doc.entity.members.items then .ok doc
      else .ok ((doc.appendMember member).appendTrace yaml
        ⟨"widen-membership", actor, at_, "", "", none, member⟩)

def applyAskMutation (mutation : Mutation) : Except AskFailure AskDocument :=
  match ValidateAsk times doc.entity m.owner with
  | some failure => .error failure
  | none =>
    match mutation with
    | .reply prose random => applyReply yaml times actor at_ doc prose random
    | .settle input => applySettle actor at_ doc input
    | .close input => applyClose yaml m actor at_ doc input
    | .withdrawWithCitation input => applyWithdraw yaml m actor at_ doc input
    | .link input => applyLink yaml m actor doc input
    | .widenMembership member => applyWiden yaml m actor at_ doc member

end

/-! ## Reading and writing files -/

inductive AskError where
  | failure (failure : AskFailure)
  | io
  deriving DecidableEq

/-- The files of a mission's asks, by id. -/
abbrev Files (Text : Type) := String → Option (AskFile Text)

/-- What fails of reading a file, replacing it, and reading it again. -/
structure Faults where
  read : Bool
  write : Bool
  reread : Bool

def notFound (id : String) : AskFailure :=
  ⟨"entity_not_found", "ask entity " ++ id ++ " was not found",
    "list asks and choose an existing ID"⟩

section

variable {Text : Type} (yaml : YamlPackage Text) (times : Times)

def readAskFile (file : AskFile Text) : Except AskError AskDocument :=
  match yaml.unmarshalMap file.front, yaml.unmarshalAsk file.front with
  | some raw, some entity => .ok ⟨entity, raw, file.body⟩
  | _, _ => .error .io

def ReadAsk (files : Files Text) (id : String) (faults : Faults) : Except AskError AskDocument :=
  if !ValidAskID id then .error (.failure
    ⟨"invalid_id", "ask ID is invalid", "use an ask- UUIDv7 ID"⟩)
  else if faults.read then .error .io
  else
    match files id with
    | none => .error (.failure (notFound id))
    | some file => do
      let doc ← readAskFile yaml file
      if doc.entity.id ≠ id then
        .error (.failure ⟨"filename_id_mismatch", "ask filename and entity ID do not match",
          "repair the entity filename or id before using it"⟩)
      else .ok doc

/-- A time after the one that a stamp shows; one that is made of the stamp's stays in its zone. -/
def strictlyLater (now : Int) (prior : String) : String :=
  match times.parse prior with
  | some (p, zone) => if now ≤ p then times.format (p + 1) zone else times.format now times.utc
  | none => times.format now times.utc

/-- A document that was read, as it is written. -/
def stored (doc : AskDocument) : AskFile Text := ⟨yaml.marshalMap doc.raw, doc.body⟩

/-- What is checked of the ask that was read. -/
def precondition (doc : AskDocument) (ifUpdated : String) : Except AskError Unit :=
  if doc.entity.schema ≠ askSchema then
    .error (.failure ⟨"unsupported_schema_write", "unsupported ask schema cannot be mutated",
      "migrate the entity to mish.ask/v1"⟩)
  else
    -- An ask that is not valid as it stands is not mutated.
    match ValidateAskDocument times doc "" with
    | some failure => .error (.failure failure)
    | none =>
      if ifUpdated = "" then
        .error (.failure ⟨"missing_precondition", "if_updated_at is required",
          "read the entity and retry with its updated_at"⟩)
      -- A request made of an older version is refused.
      else if doc.entity.updatedAt ≠ ifUpdated then
        .error (.failure ⟨"stale_entity", "ask entity changed since it was read",
          "read the latest entity and retry"⟩)
      else .ok ()

/-- The document that is to be written. -/
def changed (files : Files Text) (id ifUpdated : String) (now : Int) (faults : Faults)
    (change : AskDocument → String → Except AskFailure AskDocument) : Except AskError AskDocument :=
  do
  let doc ← ReadAsk yaml files id faults
  precondition times doc ifUpdated
  let stamp := strictlyLater times now doc.entity.updatedAt
  match change doc stamp with
  | .error failure => .error (.failure failure)
  | .ok doc => .ok (doc.setUpdatedAt stamp)

def MutateAsk (files : Files Text) (id ifUpdated : String) (now : Int) (faults : Faults)
    (change : AskDocument → String → Except AskFailure AskDocument) :
    Except AskError AskDocument × Files Text :=
  match changed yaml times files id ifUpdated now faults change with
  | .error error => (.error error, files)
  | .ok doc =>
    if faults.write then (.error .io, files)
    else
      (if faults.reread then .error .io else readAskFile yaml (stored yaml doc),
        Function.update files id (some (stored yaml doc)))

/-- The entities agree but for the times of their creation. -/
def normalizedCreateEqual [DecidableEq Text] (a b : AskEntity) : Bool :=
  let b := { b with createdAt := a.createdAt, updatedAt := a.updatedAt }
  let b := match a.blocking, b.blocking with
    | some held, some blocking => { b with blocking := some { blocking with at_ := held.at_ } }
    | _, _ => b
  let b := match a.rulingTrail.items, b.rulingTrail.items with
    | [held], [ruling] => { b with rulingTrail := some [{ ruling with at_ := held.at_ }] }
    | _, _ => b
  yaml.marshalAsk a = yaml.marshalAsk b

/-- A new ask; one that is there already is returned when it is the same. -/
def WriteNewAsk [DecidableEq Text] (files : Files Text) (entity : AskEntity) (faults : Faults) :
    Except AskError AskEntity × Files Text :=
  if faults.read then (.error .io, files)
  else
    match files entity.id with
    | some file =>
      match readAskFile yaml file with
      | .error error => (.error error, files)
      | .ok existing =>
        if normalizedCreateEqual yaml existing.entity entity then (.ok existing.entity, files)
        else
          (.error (.failure ⟨"entity_exists", "ask entity already exists with different content",
            "choose a new ID or retry the original normalized request"⟩), files)
    | none =>
      -- the frontmatter is written of what is read of the entity's own text
      match yaml.unmarshalMap (yaml.marshalAsk entity) with
      | none => (.error .io, files)
      | some raw =>
        if faults.write then (.error .io, files)
        else (.ok entity, Function.update files entity.id (some (stored yaml ⟨entity, raw, []⟩)))

end

/-! ## Requests -/

structure CreateInput where
  id : String
  kind : String
  actor : String
  addressedTo : String
  expects : String
  /-- The fact that blocks. -/
  blocking : Option String
  anchor : TypedRef
  links : Slice TypedRef
  framing : Framing
  /-- The prose of a direct ruling. -/
  ruling : Option String

def newEntity (input : CreateInput) (stamp : String) : AskEntity where
  schema := askSchema
  id := input.id
  kind := input.kind
  state := "open"
  outcome := none
  asker := input.actor
  addressedTo := input.addressedTo
  createdAt := stamp
  updatedAt := stamp
  expects := input.expects
  blocking := input.blocking.map fun fact => ⟨fact, input.actor, stamp⟩
  anchor := input.anchor
  links := some input.links.items
  members :=
    some
      (if input.addressedTo ≠ input.actor then [input.actor, input.addressedTo]
      else [input.actor])
  framing :=
    { input.framing with
      subDecisions := some input.framing.subDecisions.items
      options := some input.framing.options.items }
  replies := some []
  rulingTrail := some []
  traces := some []

/-- The entity that a request asks for. -/
def createdEntity (m : Manifest) (input : CreateInput) (stamp : String) :
    Except AskFailure AskEntity :=
  let entity := newEntity input stamp
  if input.kind ≠ "ruling" then .ok entity
  else if input.addressedTo ≠ m.owner then
    .error ⟨"invalid_input", "direct ruling must be addressed to mission owner",
      "set addressed_to to mission.md owner"⟩
  else
    match input.ruling.filter (· ≠ "") with
    | none => .error ⟨"invalid_input", "direct ruling requires ruling.prose",
        "provide the delegated ruling prose"⟩
    | some prose =>
        .ok { entity with rulingTrail := some [⟨"", none, "", prose, input.actor, stamp⟩] }

/-- The input with its defaults. -/
def withDefaults (now : Int) (random : Except String (Nat → BitVec 8)) (input : CreateInput) :
    Except AskFailure CreateInput :=
  let input := if input.kind = "" then { input with kind := "ask" } else input
  if input.id ≠ "" then .ok input
  else
    match GenerateAskID now random with
    | .error error => .error ⟨"id_generation_failed", "could not generate ask ID", error⟩
    | .ok id => .ok { input with id }

def checkedEntity (times : Times) (m : Manifest) (now : Int)
    (random : Except String (Nat → BitVec 8)) (input : Option CreateInput) :
    Except AskFailure AskEntity :=
  match input with
  | none => .error ⟨"invalid_input", "create input is invalid", ""⟩
  | some input => do
    if input.actor = "" || input.addressedTo = "" then
      .error ⟨"invalid_input", "actor and addressed_to are required",
        "provide both dyad participants"⟩
    let entity ← createdEntity m (← withDefaults now random input) (times.format now times.utc)
    match ValidateAsk times entity m.owner with
    | some failure => .error failure
    | none => .ok entity

def runAsksCreate {Text : Type} [DecidableEq Text] (yaml : YamlPackage Text) (times : Times)
    (m : Manifest)
    (files : Files Text) (now : Int) (random : Except String (Nat → BitVec 8)) (faults : Faults)
    (input : Option CreateInput) : Except AskError AskEntity × Files Text :=
  match checkedEntity times m now random input with
  | .error failure => (.error (.failure failure), files)
  | .ok entity => WriteNewAsk yaml files entity faults

structure CommonMutation where
  actor : String
  ifUpdatedAt : String

/-- A request at a time of the clock. -/
inductive Request where
  | create (input : Option CreateInput) (now : Int) (random : Except String (Nat → BitVec 8))
      (faults : Faults)
  | mutate (id : String) (common : Option CommonMutation) (mutation : Mutation) (now : Int)
      (faults : Faults)

def Request.now : Request → Int
  | .create _ now _ _ => now
  | .mutate _ _ _ now _ => now

section

variable {Text : Type} [DecidableEq Text] (yaml : YamlPackage Text) (times : Times) (m : Manifest)
  (files : Files Text)

/-- `runAsks` for the operations that write. -/
def runAsks : Request → Except AskError AskEntity × Files Text
  | .create input now random faults => runAsksCreate yaml times m files now random faults input
  | .mutate id common mutation now faults =>
    match common with
    | none => (.error (.failure ⟨"invalid_input", "input is not valid JSON", ""⟩), files)
    | some common =>
      -- This is checked before the ask is read.
      if common.actor = "" then
        (.error (.failure ⟨"missing_actor", "actor is required",
          "set actor to the durable mission participant performing the mutation"⟩), files)
      else
        let (result, files) :=
          MutateAsk yaml times files id common.ifUpdatedAt now faults fun doc stamp =>
            applyAskMutation yaml times m common.actor stamp doc mutation
        (result.map AskDocument.entity, files)

/-- The files after some requests. -/
def afterRequests (requests : List Request) : Files Text :=
  requests.foldl (fun files request => (runAsks yaml times m files request).2) files

end

end AiConfig.Mish
