import AiConfig.Sesh.Wire
import Mathlib.Data.List.Sort

/-! # Rows of a transcript

Transcription of the row orders and the row classes of `internal/surface/transcript.go`. -/

namespace AiConfig.Sesh.Surface

open AiConfig.Sesh.Wire

/-- `wire.IndexMessage`; an instant is a number of nanoseconds. -/
structure IndexMessage where
  wireSessionID : String
  fileUUID : String
  generation : Int
  entryType : String
  messageUUID : String
  role : String
  timestampUTC : Option Int
  fileOrdinal : Int
  lineOrdinal : Int
  byteStart : Int
  byteEnd : Int
  quarantine : Bool
  deriving DecidableEq

def isClaudeSidecarEntryType (entryType : String) : Bool :=
  entryType ∈ ["agent-name", "ai-title", "atis-latch", "bridge-session", "file-history-snapshot",
    "last-prompt", "mode",
    "permission-mode", "pr-link", "queue-operation", "worktree-state"]

def knownTranscriptMeta (tool : Tool) (row : IndexMessage) : Bool :=
  tool = .claude && (row.role = "meta" || row.role = "unknown") &&
    isClaudeSidecarEntryType row.entryType

/-- The order of the rows of one instant. -/
def ordinalLess (a b : IndexMessage) : Bool :=
  if a.fileOrdinal ≠ b.fileOrdinal then a.fileOrdinal < b.fileOrdinal
  else if a.lineOrdinal ≠ b.lineOrdinal then a.lineOrdinal < b.lineOrdinal
  else if a.fileUUID ≠ b.fileUUID then a.fileUUID < b.fileUUID
  else a.generation < b.generation

def transcriptLess (a b : IndexMessage) : Bool :=
  match a.timestampUTC, b.timestampUTC with
  | none, some _ => false
  | some _, none => true
  | some left, some right => if left ≠ right then left < right else ordinalLess a b
  | none, none => ordinalLess a b

/-- `sort.SliceStable` -/
def sortTranscript (rows : List IndexMessage) : List IndexMessage :=
  rows.mergeSort fun a b => !transcriptLess b a

end AiConfig.Sesh.Surface
