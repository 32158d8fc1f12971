import AiConfig.Lib.Yaml
import AiConfig.Mish.Ask

/-! # Ask documents

Transcription of `AskDocument` of `internal/missionfs/asks.go`: an entity, and beside it the
frontmatter that
it was read from, which keeps the keys that an entity does not have.  Only the frontmatter is
written.

* `YamlPackage` — `gopkg.in/yaml.v3`, with what is relied on of it.
* `readEntity_iff` — the entity of a plain frontmatter, key by key. -/

namespace AiConfig.Mish

open AiConfig.Lib

/-! ## Reading frontmatter -/

def text (fields : YamlMap) (name : String) : Option String := textOf (fields name)

def readRef (value : Option Yaml) : Option TypedRef := do
  let fields ← structOf value
  some ⟨← text fields "type", ← text fields "ref"⟩

def readBlocking (value : Option Yaml) : Option Blocking := do
  let fields ← structOf value
  some ⟨← text fields "fact", ← text fields "actor", ← text fields "at"⟩

def readOption (value : Option Yaml) : Option DecisionOption := do
  let fields ← structOf value
  some ⟨← text fields "id", ← text fields "label", ← text fields "cost", ← text fields "risk",
    ← text fields "blast_radius"⟩

def readRecommendation (value : Option Yaml) : Option Recommendation := do
  let fields ← structOf value
  some ⟨← text fields "choice", ← text fields "reason"⟩

def readFraming (value : Option Yaml) : Option Framing := do
  let fields ← structOf value
  some ⟨← text fields "context", ← text fields "question",
    ← sliceOf textOf (fields "sub_decisions"),
    ← sliceOf readOption (fields "options"),
      ← pointerOf readRecommendation (fields "recommendation"),
    ← text fields "do_nothing"⟩

def readReply (value : Option Yaml) : Option Reply := do
  let fields ← structOf value
  some ⟨← text fields "id", ← text fields "actor", ← text fields "at", ← text fields "prose"⟩

def readRuling (value : Option Yaml) : Option RulingEntry := do
  let fields ← structOf value
  some ⟨← text fields "question", ← sliceOf readOption (fields "options_as_presented"),
    ← text fields "choice",
    ← text fields "prose", ← text fields "actor", ← text fields "at"⟩

def readTrace (value : Option Yaml) : Option Trace := do
  let fields ← structOf value
  some ⟨← text fields "action", ← text fields "actor", ← text fields "at", ← text fields "outcome",
    ← text fields "reason",
    ← pointerOf readRef (fields "citation"), ← text fields "member"⟩

/-- The entity of a plain frontmatter. -/
def readEntity (raw : YamlMap) : Option AskEntity := do
  let schema ← text raw "schema"
  let id ← text raw "id"
  let kind ← text raw "kind"
  let state ← text raw "state"
  let outcome ← pointerOf textOf (raw "outcome")
  let asker ← text raw "asker"
  let addressedTo ← text raw "addressed_to"
  let createdAt ← text raw "created_at"
  let updatedAt ← text raw "updated_at"
  let expects ← text raw "expects"
  let blocking ← pointerOf readBlocking (raw "blocking")
  let anchor ← readRef (raw "anchor")
  let links ← sliceOf readRef (raw "links")
  let members ← sliceOf textOf (raw "members")
  let framing ← readFraming (raw "framing")
  let replies ← sliceOf readReply (raw "replies")
  let rulingTrail ← sliceOf readRuling (raw "ruling_trail")
  let traces ← sliceOf readTrace (raw "traces")
  some
    { schema, id, kind, state, outcome, asker, addressedTo, createdAt, updatedAt, expects, blocking,
      anchor, links, members, framing, replies, rulingTrail, traces }

/-- What is read of each key. -/
structure Reads (raw : YamlMap) (e : AskEntity) : Prop where
  schema : text raw "schema" = some e.schema
  id : text raw "id" = some e.id
  kind : text raw "kind" = some e.kind
  state : text raw "state" = some e.state
  outcome : pointerOf textOf (raw "outcome") = some e.outcome
  asker : text raw "asker" = some e.asker
  addressedTo : text raw "addressed_to" = some e.addressedTo
  createdAt : text raw "created_at" = some e.createdAt
  updatedAt : text raw "updated_at" = some e.updatedAt
  expects : text raw "expects" = some e.expects
  blocking : pointerOf readBlocking (raw "blocking") = some e.blocking
  anchor : readRef (raw "anchor") = some e.anchor
  links : sliceOf readRef (raw "links") = some e.links
  members : sliceOf textOf (raw "members") = some e.members
  framing : readFraming (raw "framing") = some e.framing
  replies : sliceOf readReply (raw "replies") = some e.replies
  rulingTrail : sliceOf readRuling (raw "ruling_trail") = some e.rulingTrail
  traces : sliceOf readTrace (raw "traces") = some e.traces

theorem readEntity_iff {raw : YamlMap} {e : AskEntity} : readEntity raw = some e ↔ Reads raw e := by
  constructor
  · intro read
    unfold readEntity at read
    obtain ⟨_, schema, read⟩ := Option.bind_eq_some_iff.mp read
    obtain ⟨_, id, read⟩ := Option.bind_eq_some_iff.mp read
    obtain ⟨_, kind, read⟩ := Option.bind_eq_some_iff.mp read
    obtain ⟨_, state, read⟩ := Option.bind_eq_some_iff.mp read
    obtain ⟨_, outcome, read⟩ := Option.bind_eq_some_iff.mp read
    obtain ⟨_, asker, read⟩ := Option.bind_eq_some_iff.mp read
    obtain ⟨_, addressedTo, read⟩ := Option.bind_eq_some_iff.mp read
    obtain ⟨_, createdAt, read⟩ := Option.bind_eq_some_iff.mp read
    obtain ⟨_, updatedAt, read⟩ := Option.bind_eq_some_iff.mp read
    obtain ⟨_, expects, read⟩ := Option.bind_eq_some_iff.mp read
    obtain ⟨_, blocking, read⟩ := Option.bind_eq_some_iff.mp read
    obtain ⟨_, anchor, read⟩ := Option.bind_eq_some_iff.mp read
    obtain ⟨_, links, read⟩ := Option.bind_eq_some_iff.mp read
    obtain ⟨_, members, read⟩ := Option.bind_eq_some_iff.mp read
    obtain ⟨_, framing, read⟩ := Option.bind_eq_some_iff.mp read
    obtain ⟨_, replies, read⟩ := Option.bind_eq_some_iff.mp read
    obtain ⟨_, rulingTrail, read⟩ := Option.bind_eq_some_iff.mp read
    obtain ⟨_, traces, read⟩ := Option.bind_eq_some_iff.mp read
    obtain rfl := Option.some.inj read
    exact ⟨schema, id, kind, state, outcome, asker, addressedTo, createdAt, updatedAt, expects,
      blocking, anchor, links, members,
      framing, replies, rulingTrail, traces⟩
  · intro reads
    simp only [readEntity, reads.schema, reads.id, reads.kind, reads.state, reads.outcome,
      reads.asker, reads.addressedTo,
      reads.createdAt, reads.updatedAt, reads.expects, reads.blocking, reads.anchor, reads.links,
        reads.members, reads.framing,
      reads.replies, reads.rulingTrail, reads.traces, Option.bind_eq_bind, Option.bind_some]

/-! ## Writing frontmatter -/

/-- A field with `omitempty`. -/
def unlessEmpty (name value : String) : List (String × Yaml) :=
  if value = "" then [] else [(name, .text value)]

def orNull (value : Option Yaml) : Yaml := value.getD .null

def TypedRef.toYaml (ref : TypedRef) : Yaml :=
  .mapping (entries [("type", .text ref.type), ("ref", .text ref.ref)])

def Blocking.toYaml (blocking : Blocking) : Yaml :=
  .mapping (entries [("fact", .text blocking.fact), ("actor", .text blocking.actor),
    ("at", .text blocking.at_)])

def DecisionOption.toYaml (option : DecisionOption) : Yaml :=
  .mapping (entries [("id", .text option.id), ("label", .text option.label),
    ("cost", .text option.cost),
    ("risk", .text option.risk), ("blast_radius", .text option.blastRadius)])

def Recommendation.toYaml (recommendation : Recommendation) : Yaml :=
  .mapping (entries [("choice", .text recommendation.choice),
    ("reason", .text recommendation.reason)])

def Framing.toYaml (framing : Framing) : Yaml :=
  .mapping (entries [("context", .text framing.context), ("question", .text framing.question),
    ("sub_decisions", .sequence (framing.subDecisions.items.map .text)),
    ("options", .sequence (framing.options.items.map DecisionOption.toYaml)),
    ("recommendation", orNull (framing.recommendation.map Recommendation.toYaml)),
    ("do_nothing", .text framing.doNothing)])

def Reply.toYaml (reply : Reply) : Yaml :=
  .mapping (entries [("id", .text reply.id), ("actor", .text reply.actor), ("at", .text reply.at_),
    ("prose", .text reply.prose)])

def RulingEntry.toYaml (ruling : RulingEntry) : Yaml :=
  .mapping (entries (unlessEmpty "question" ruling.question ++
    (if ruling.optionsAsPresented.items.isEmpty then []
      else [("options_as_presented",
        .sequence (ruling.optionsAsPresented.items.map DecisionOption.toYaml))]) ++
    unlessEmpty "choice" ruling.choice ++
    [("prose", .text ruling.prose), ("actor", .text ruling.actor), ("at", .text ruling.at_)]))

def Trace.toYaml (trace : Trace) : Yaml :=
  .mapping
    (entries ([("action", .text trace.action), ("actor", .text trace.actor),
    ("at", .text trace.at_)] ++
    unlessEmpty "outcome" trace.outcome ++ unlessEmpty "reason" trace.reason ++
    (trace.citation.map fun citation => ("citation", citation.toYaml)).toList ++
      unlessEmpty "member" trace.member))

/-- The keys of an entity, with their values. -/
def AskEntity.fields (e : AskEntity) : List (String × Yaml) :=
  [("schema", .text e.schema), ("id", .text e.id), ("kind", .text e.kind), ("state", .text e.state),
    ("outcome", orNull (e.outcome.map .text)), ("asker", .text e.asker),
    ("addressed_to", .text e.addressedTo), ("created_at", .text e.createdAt),
    ("updated_at", .text e.updatedAt), ("expects", .text e.expects)] ++
  (e.blocking.map fun blocking => ("blocking", blocking.toYaml)).toList ++
  [("anchor", e.anchor.toYaml), ("links", .sequence (e.links.items.map TypedRef.toYaml)),
    ("members", .sequence (e.members.items.map .text)), ("framing", e.framing.toYaml),
    ("replies", .sequence (e.replies.items.map Reply.toYaml)),
    ("ruling_trail", .sequence (e.rulingTrail.items.map RulingEntry.toYaml)),
    ("traces", .sequence (e.traces.items.map Trace.toYaml))]

def AskEntity.toYaml (e : AskEntity) : YamlMap := entries e.fields

/-! ## The YAML package -/

/-- `Unmarshal` and `Marshal` of `gopkg.in/yaml.v3`, over the texts of frontmatter. -/
structure YamlPackage (Text : Type) where
  /-- Into a `map[string]any`. -/
  unmarshalMap : Text → Option YamlMap
  unmarshalAny : Text → Option Yaml
  unmarshalAsk : Text → Option AskEntity
  marshalMap : YamlMap → Text
  marshalAsk : AskEntity → Text
  marshalReply : Reply → Text
  marshalTrace : Trace → Text
  marshalRef : TypedRef → Text

/-- What the package says of plain values and of the tags of the structs.  Of a text with other
scalars it says
less: `1.10` in a field of type string is that text, and in a `map[string]any` a number. -/
structure YamlPackage.Lawful {Text : Type} (yaml : YamlPackage Text) : Prop where
  typed : ∀ front raw, yaml.unmarshalMap front = some raw → raw.Plain →
    yaml.unmarshalAsk front = readEntity raw
  map : ∀ raw : YamlMap, raw.Plain → yaml.unmarshalMap (yaml.marshalMap raw) = some raw
  ask : ∀ e, yaml.unmarshalMap (yaml.marshalAsk e) = some e.toYaml
  reply : ∀ reply, yaml.unmarshalAny (yaml.marshalReply reply) = some reply.toYaml
  trace : ∀ trace, yaml.unmarshalAny (yaml.marshalTrace trace) = some trace.toYaml
  ref : ∀ ref, yaml.unmarshalAny (yaml.marshalRef ref) = some ref.toYaml

/-! ## Documents -/

/-- A stored file: the text of its frontmatter and its body. -/
structure AskFile (Text : Type) where
  front : Text
  body : List UInt8

structure AskDocument where
  entity : AskEntity
  raw : YamlMap
  body : List UInt8

/-- The keys that an entity has to have. -/
def requiredKeys : List String :=
  ["schema", "id", "kind", "state", "outcome", "asker", "addressed_to", "created_at", "updated_at",
    "expects", "anchor", "links",
    "members", "framing", "replies", "ruling_trail", "traces"]

def ValidateAskDocument (times : Times) (doc : AskDocument) (owner : String) : Option AskFailure :=
  match requiredKeys.find? fun key => (doc.raw key).isNone with
  | some key => some (invalid ("missing required field " ++ key))
  | none => ValidateAsk times doc.entity owner

/-- The items of a key that holds a sequence. -/
def sequence (raw : YamlMap) (key : String) : List Yaml :=
  match raw key with
  | some (.sequence items) => items
  | _ => []

/-- An item at the end of a sequence. -/
def appendItem (raw : YamlMap) (key : String) (item : Yaml) : YamlMap :=
  raw.put key (.sequence (sequence raw key ++ [item]))

/-- The fields of a key that holds a mapping. -/
def mapping (raw : YamlMap) (key : String) : YamlMap :=
  match raw key with
  | some (.mapping fields) => fields
  | _ => fun _ => none

namespace AskDocument

variable {Text : Type} (yaml : YamlPackage Text) (doc : AskDocument)

/-- What is read of the text of an item; of one that is not read nothing remains. -/
def appendRaw (raw : YamlMap) (key : String) (data : Text) : YamlMap :=
  appendItem raw key ((yaml.unmarshalAny data).getD .null)

def appendReply (reply : Reply) : AskDocument :=
  { doc with entity := { doc.entity with replies := doc.entity.replies.append reply }
             raw := appendRaw yaml doc.raw "replies" (yaml.marshalReply reply) }

/-- The framing as it stands in the file is what was presented. -/
def appendSettlementRuling (r : RulingEntry) : AskDocument :=
  let framing := mapping doc.raw "framing"
  let question := (framing "question").getD (.text r.question)
  let options := (framing "options").getD (.sequence [])
  let item :=
    entries ([("question", question), ("options_as_presented", options), ("prose", .text r.prose),
    ("actor", .text r.actor), ("at", .text r.at_)] ++ unlessEmpty "choice" r.choice)
  { doc with
    entity := { doc.entity with rulingTrail := doc.entity.rulingTrail.append r }
    raw := appendItem doc.raw "ruling_trail" (.mapping item) }

def appendTrace (trace : Trace) : AskDocument :=
  { doc with entity := { doc.entity with traces := doc.entity.traces.append trace }
             raw := appendRaw yaml doc.raw "traces" (yaml.marshalTrace trace) }

def appendLink (link : TypedRef) : AskDocument :=
  { doc with entity := { doc.entity with links := doc.entity.links.append link }
             raw := appendRaw yaml doc.raw "links" (yaml.marshalRef link) }

/-- A link that is there already is left. -/
def linkOnce (link : TypedRef) : AskDocument :=
  if link ∈ doc.entity.links.items then doc else doc.appendLink yaml link

def appendMember (member : String) : AskDocument :=
  { doc with entity := { doc.entity with members := doc.entity.members.append member }
             raw := appendItem doc.raw "members" (.text member) }

def setAnchor (anchor : TypedRef) : AskDocument :=
  let fields :=
    ((mapping doc.raw "anchor").put "type" (.text anchor.type)).put "ref" (.text anchor.ref)
  { doc with entity := { doc.entity with anchor }, raw := doc.raw.put "anchor" (.mapping fields) }

/-- The assignments to `State` and `Outcome`, and `SetRaw` of both. -/
def setClosed (outcome : String) : AskDocument :=
  { doc with entity := { doc.entity with state := "closed", outcome := some outcome }
             raw := (doc.raw.put "state" (.text "closed")).put "outcome" (.text outcome) }

def setKind (kind : String) : AskDocument :=
  { doc with entity := { doc.entity with kind }, raw := doc.raw.put "kind" (.text kind) }

def setUpdatedAt (stamp : String) : AskDocument :=
  { doc with entity := { doc.entity with updatedAt := stamp }, raw := doc.raw.put "updated_at" (.text stamp) }

end AskDocument

end AiConfig.Mish
