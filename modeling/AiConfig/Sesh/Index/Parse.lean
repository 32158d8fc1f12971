import AiConfig.Lib.Timestamp
import AiConfig.Sesh.Store.State

/-! # Parsing mirrored lines

Transcription of the parsing half of `internal/index/index.go`.  The JSON decoder and
`time.Parse` of the Go library are parameters (`Decoder`): fixed functions of their
input.  `maxIndexedLineBytes` bounds a line; an empty line reads as a `nil` slice in the
source and is quarantined with the same reason as one that is too long. -/

namespace AiConfig.Sesh

open AiConfig.Lib AiConfig.Sesh.Wire

inductive Json where
  | null
  | bool (value : Bool)
  | number (text : String)
  | string (text : String)
  | array (items : List Json)
  | object (fields : List (String × Json))

/-- What the indexer takes from the Go library. -/
structure Decoder where
  json : Bytes → Option Json
  time : String → Option Timestamp

/-- The fields of a `map[string]json.RawMessage`. -/
abbrev Fields := List (String × Json)

/-- A later field of the same name overwrites an earlier one. -/
def Fields.find (raw : Fields) (key : String) : Option Json :=
  (List.reverse raw).lookup key

/-- Unmarshalling into a map: `null` leaves it empty. -/
def Json.fields : Json → Option Fields
  | .object fields => some fields
  | .null => some []
  | _ => none

def stringField (raw : Fields) (key : String) : String :=
  match raw.find key with
  | some (.string text) => text
  | _ => ""

/-- The object under a key, empty when there is none. -/
def objectField (raw : Fields) (key : String) : Fields :=
  ((raw.find key).bind Json.fields).getD []

structure ParsedLine where
  logicalSessionID : String
  entryType : String
  messageUUID : String
  role : String
  timestampUTC : Option Timestamp
  deriving DecidableEq

def ParsedLine.empty : ParsedLine := ⟨"", "", "", "", none⟩

def isClaudeConversationType (entryType : String) : Bool :=
  entryType ∈ ["assistant", "attachment", "message", "system", "user"]

def isClaudeSidecarType (entryType : String) : Bool :=
  entryType ∈ ["agent-name", "ai-title", "atis-latch", "bridge-session", "file-history-snapshot",
    "last-prompt", "mode", "permission-mode", "pr-link", "queue-operation", "worktree-state"]

def Decoder.parseTime (decoder : Decoder) (raw : String) : Option Timestamp :=
  if raw = "" then none else decoder.time raw

/-- The first text unless it is empty. -/
def orElse (text other : String) : String := if text = "" then other else text

def grokRole (entryType : String) : String :=
  if entryType ∈ ["system", "user", "assistant"] then entryType
  else if entryType = "reasoning" then "assistant"
  else if entryType = "tool_result" then "tool"
  else "unknown"

/-- `none` is the error `invalid_json`. -/
def parseToolLine (decoder : Decoder) (tool : Tool) (line : Bytes) : Option ParsedLine := do
  let raw ← (← decoder.json line).fields
  let out : ParsedLine :=
    ⟨stringField raw "sessionId", stringField raw "type", stringField raw "uuid", "unknown",
      decoder.parseTime (stringField raw "timestamp")⟩
  match tool with
  | .claude =>
    -- A sidecar is meta; of the rest only a conversation's line has a role of its own.
    if isClaudeSidecarType out.entryType then some { out with role := "meta" }
    else if !isClaudeConversationType out.entryType then some out
    else some { out with role := orElse (stringField (objectField raw "message") "role") out.role }
  | .grok => some { out with role := grokRole out.entryType }
  | .pi =>
    let id := stringField raw "id"
    -- The header's id is the session's, any other line's the message's.
    let out := if out.entryType = "session" then { out with logicalSessionID := id }
      else { out with messageUUID := id }
    some { out with role := orElse (stringField (objectField raw "message") "role") out.role }
  | .codex =>
    let payload := objectField raw "payload"
    let item := objectField payload "item"
    some { out with
      -- Only a `session_meta` line with a payload names the session.
      logicalSessionID :=
        if ((raw.find "payload").bind Json.fields).isSome && out.entryType = "session_meta" then
          stringField payload "id" else out.logicalSessionID
      messageUUID :=
        orElse (orElse out.messageUUID (stringField payload "id")) (stringField item "id")
      role := orElse (stringField item "role") (orElse (stringField payload "role") out.role) }

/-! ## Rows -/

/-- `indexedMessage`: the columns of `sesh_index_messages` but the id.  `timestamp_utc`
    holds the RFC 3339 text of the instant. -/
structure IndexedMessage where
  gen : GenKey
  logicalSessionID : String
  parsedLogicalSessionID : String
  entryType : String
  messageUUID : String
  role : String
  timestampUTC : Option Timestamp
  fileOrdinal : Nat
  lineOrdinal : Nat
  byteStart : Nat
  byteEnd : Nat
  quarantine : Bool
  quarantineReason : String
  deriving DecidableEq

def IndexedMessage.tool (row : IndexedMessage) : Tool := row.gen.identity.tool

/-- A complete line of a mirror, without its newline. -/
structure Line where
  ordinal : Nat
  start : Nat
  stop : Nat
  body : Bytes
  deriving DecidableEq, Repr

def quarantineLine (gen : GenKey) (reason : String) (line : Line) : IndexedMessage where
  gen := gen
  logicalSessionID := gen.wireID
  parsedLogicalSessionID := gen.wireID
  entryType := "unparseable"
  messageUUID := ""
  role := "unknown"
  timestampUTC := none
  fileOrdinal := gen.generation
  lineOrdinal := line.ordinal
  byteStart := line.start
  byteEnd := line.stop
  quarantine := true
  quarantineReason := reason

def parseLine (decoder : Decoder) (gen : GenKey) (line : Line) : IndexedMessage :=
  match parseToolLine decoder gen.identity.tool line.body with
  -- A line that is no object is kept as one that cannot be parsed.
  | none => quarantineLine gen "invalid_json" line
  | some parsed =>
    { gen := gen
      logicalSessionID := orElse parsed.logicalSessionID gen.wireID
      parsedLogicalSessionID := orElse parsed.logicalSessionID gen.wireID
      entryType := orElse parsed.entryType "unknown"
      messageUUID := parsed.messageUUID
      role := orElse parsed.role "unknown"
      timestampUTC := parsed.timestampUTC
      fileOrdinal := gen.generation
      lineOrdinal := line.ordinal
      byteStart := line.start
      byteEnd := line.stop
      quarantine := false
      quarantineReason := "" }

/-! ## Lines -/

def newline : UInt8 := 10

/-- 8 MiB. -/
def maxIndexedLineBytes : Nat := 8 * 2 ^ 20

/-- The complete lines; bytes after the last newline are left out. -/
def completeLines : Bytes → List Bytes
  | [] => []
  | byte :: rest =>
    if byte = newline then [] :: completeLines rest
    else
      match completeLines rest with
      | [] => []
      | line :: lines => (byte :: line) :: lines

def numbered : Nat → Nat → List Bytes → List Line
  | _, _, [] => []
  | ordinal, start, body :: rest =>
    ⟨ordinal, start, start + (body.length + 1), body⟩ :: numbered (ordinal + 1)
      (start + (body.length + 1)) rest

def lineOrdinalAt (mirror : Bytes) (offset : Nat) : Nat := (mirror.take offset).count newline

/-- The complete lines of a mirror between two offsets. -/
def linesBetween (mirror : Bytes) (start stop : Nat) : List Line :=
  numbered (lineOrdinalAt mirror start) start (completeLines ((mirror.take stop).drop start))

/-- `readCompleteLine` returns `nil` for an empty line and for one that is too long. -/
def indexLine (decoder : Decoder) (gen : GenKey) (line : Line) : IndexedMessage :=
  if line.body = [] ∨ maxIndexedLineBytes < line.body.length then
    quarantineLine gen "line_too_long" line
  else parseLine decoder gen line

inductive IndexError where
  | mirrorIncomplete (have_ want : Nat)
  deriving DecidableEq, Repr

/-- The rows of the complete lines in `[start, ev.byteEnd)` and where the last one ends.
    A mirror file that does not exist holds no byte. -/
def parseComplete (decoder : Decoder) (store : Store) (ev : AppendEvent) (start : Nat) :
    Except IndexError (List IndexedMessage × Nat) :=
  if ev.byteEnd ≤ start then .ok ([], start)
  else
    let mirror := store.mirrored ev.identity ev.generation
    if mirror.length < ev.byteEnd then .error (.mirrorIncomplete mirror.length ev.byteEnd)
    else
      let lines := linesBetween mirror start ev.byteEnd
      .ok (lines.map (indexLine decoder ev.gen), (lines.getLast?.map (·.stop)).getD start)

end AiConfig.Sesh
