import Mathlib.Tactic.Common
import Mathlib.Algebra.Group.Nat.Defs

/-! # The wire vocabulary of sesh

Transcription of `internal/wire/wire.go`: the closed enums, the constants and the
messages the shipper, the store and the indexer exchange.  Offsets and lengths
are `int64` in the source and never negative here (`parseOffset` refuses them), so
they are natural numbers. -/

namespace AiConfig.Sesh.Wire

abbrev Bytes := List UInt8

def version : Nat := 1

/-- `MaxPUTBody`, 4 MiB. -/
def maxPUTBody : Nat := 4 * 2 ^ 20

def fingerprintWindowBytes : Nat := 1024

inductive Tool where
  | claude
  | codex
  | grok
  | pi
  deriving DecidableEq, Repr

/-- The text of a tool on the wire and in the tables. -/
def Tool.text : Tool → String
  | .claude => "claude"
  | .codex => "codex"
  | .grok => "grok"
  | .pi => "pi"

theorem Tool.text_injective {a b : Tool} (same : a.text = b.text) : a = b := by
  cases a <;> cases b <;> first | rfl | exact absurd same (by decide)

def canonicalUUIDChar (c : Char) : Bool := c.isDigit || ('a' ≤ c && c ≤ 'f') || c == '-'

/-- A session or file id as `canonicalUUID` leaves it: 36 characters, each a
    lowercase hexadecimal digit or a hyphen. -/
structure UUID where
  text : String
  canonical : text.toList.length = 36 ∧ text.toList.all canonicalUUIDChar = true
  deriving DecidableEq

instance : Repr UUID := ⟨fun id _ => repr id.text⟩

@[ext] theorem UUID.ext {a b : UUID} (same : a.text = b.text) : a = b := by
  cases a; cases b; cases same; rfl

/-- The file identity every request, table row and mirror path is keyed by. -/
structure Identity where
  tool : Tool
  sessionID : UUID
  fileUUID : UUID
  deriving DecidableEq, Repr

inductive ErrorCode where
  | malformedRequest
  | unknownTool
  | outOfGrant
  | notFound
  | byteConflict
  | fingerprintConflict
  | generationOpened
  | bodyTooLarge
  | offsetGap
  | poisonedFile
  | mirrorWriteFailed
  | storeUnavailable
  deriving DecidableEq, Repr

def ErrorCode.text : ErrorCode → String
  | .malformedRequest => "malformed_request"
  | .unknownTool => "unknown_tool"
  | .outOfGrant => "out_of_grant"
  | .notFound => "not_found"
  | .byteConflict => "byte_conflict"
  | .fingerprintConflict => "fingerprint_conflict"
  | .generationOpened => "generation_opened"
  | .bodyTooLarge => "body_too_large"
  | .offsetGap => "offset_gap"
  | .poisonedFile => "poisoned_file"
  | .mirrorWriteFailed => "mirror_write_failed"
  | .storeUnavailable => "store_unavailable"

def shipperActionRewind : String := "rewind"

/-- The 200 body of a PUT.  The constant fields `wire_version`, `status` and
    `fingerprint_algorithm` are not repeated in every value. -/
structure Ack where
  identity : Identity
  generation : Nat
  highWater : Nat
  fingerprint : Option String
  deriving DecidableEq, Repr

/-- One generation in a recovery answer. -/
structure GenerationState where
  generation : Nat
  fingerprint : Option String
  highWater : Nat
  poisoned : Bool
  dirtyForReindex : Bool
  lastPutAt : Option String
  deriving DecidableEq, Repr

structure RecoveryResponse where
  identity : Identity
  generations : List GenerationState
  deriving DecidableEq, Repr

/-- Published in process after a successful mirror ACK, for the indexer. -/
structure AppendEvent where
  identity : Identity
  generation : Nat
  byteStart : Nat
  byteEnd : Nat
  deriving DecidableEq, Repr

/-- A file generation, the key of every index table. -/
structure GenKey where
  identity : Identity
  generation : Nat
  deriving DecidableEq, Repr

/-- The session id claimed on the wire. -/
def GenKey.wireID (gen : GenKey) : String := gen.identity.sessionID.text

def AppendEvent.gen (ev : AppendEvent) : GenKey := ⟨ev.identity, ev.generation⟩

end AiConfig.Sesh.Wire
