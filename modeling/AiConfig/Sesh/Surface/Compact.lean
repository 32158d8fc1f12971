import AiConfig.Lib.Collections

/-! # The compact view of a transcript

Transcription of `compactRows` of `internal/surface/compact.go`.  What a window draws is a list of
steps, which the display entries determine; only the rows and the calls that they are remembered by
change from step to step.  Reading notes out of prose and writing a size are parameters. -/

namespace AiConfig.Sesh.Surface.Compact

open AiConfig.Lib

structure DisplayBlock where
  kind : String
  title : String
  text : String
  truncated : Bool
  pres : String
  label : String
  tone : String
  toolID : String
  isError : Bool
  speaker : String
  hasAlt : Bool
  alt : String
  altTruncated : Bool
  merge : String
  primary : Bool
  deriving DecidableEq

structure DisplayEntry where
  role : String
  timestamp : Option Int
  quarantined : Bool
  quarantineReason : String
  truncated : Bool
  byteSize : Int
  blocks : List DisplayBlock
  branchPoint : String
  branchLabel : String

/-- `stands` and `shows` are not the source's: the steps that the pill was made of, and the step of
the
result that it shows. -/
structure ConvPill where
  label : String
  tone : String
  count : Nat
  detail : String
  detailTruncated : Bool
  hasResult : Bool
  result : String
  resultTruncated : Bool
  merge : String
  primary : Bool
  merged : Bool
  stands : List Nat
  shows : Option Nat
  deriving DecidableEq

def ConvPill.expandable (pill : ConvPill) : Bool := pill.detail ≠ "" || pill.hasResult

structure Message where
  speaker : String
  role : String
  timestamp : Option Int
  text : String
  truncated : Bool
  deriving DecidableEq

inductive ConvRow
  | message (message : Message)
  | run (pills : List ConvPill)
  | divider (text : String) (timestamp : Option Int)
  deriving DecidableEq

def compactPres (b : DisplayBlock) : String :=
  if b.pres ≠ "" then b.pres
  else if b.kind = "text" ∧ b.title = "" then "say"
  else if b.kind = "meta" ∧ b.title = "" ∧ b.text = "" ∧ !b.hasAlt then "hide"
  else "pill"

def kindTone (kind : String) : String :=
  if kind = "tool_use" ∨ kind = "tool_result" then "tool"
  else if kind = "thinking" then "thinking"
  else "other"

def roleClass (speaker : String) : String :=
  if speaker = "user" ∨ speaker = "assistant" ∨ speaker = "hcom" then speaker else "other"

def compactText (b : DisplayBlock) : String × Bool :=
  if b.hasAlt then (b.alt, b.altTruncated) else (b.text, b.truncated)

/-- A pill with a label, a tone and a detail. -/
def notePill (label tone : String) (detail : String × Bool) : ConvPill :=
  ⟨label, tone, 0, detail.1, detail.2, false, "", false, "", false, false, [], none⟩

/-- The pill of a block. -/
def blockPill (b : DisplayBlock) : ConvPill :=
  let label := if b.label ≠ "" then b.label else if b.title ≠ "" then b.title else b.kind
  let tone := if b.isError then "error" else if b.tone ≠ "" then b.tone else kindTone b.kind
  { notePill label tone (compactText b) with merge := b.merge, primary := b.primary }

inductive Step
  | note (label tone : String) (detail : String × Bool)
  | divider (text : String) (timestamp : Option Int)
  | message (merge : String) (row : Message)
  | block (b : DisplayBlock)

section

variable (splitFencing : String → List (String × String × String) × String)
  (trimSpace : String → String) (fmtSize : Int → String)

def blockSteps (e : DisplayEntry) (b : DisplayBlock) : List Step :=
  let pres := compactPres b
  if pres = "hide" then []
  else if pres = "divider" then [.divider (if b.label = "" then b.title else b.label) e.timestamp]
  else if pres = "say" then
    let speaker := if b.speaker = "" then e.role else b.speaker
    let (text, truncated) := compactText b
    -- Only an assistant's text has notes lifted out of it.
    let (notes, text) := if speaker = "assistant" then splitFencing text else ([], text)
    let text := trimSpace text
    notes.map (fun note => .note note.1 note.2.1 (note.2.2, false)) ++
      if text = "" then []
      else [.message b.merge ⟨speaker, roleClass speaker, e.timestamp, text, truncated⟩]
  else [.block b]

def entrySteps (e : DisplayEntry) : List Step :=
  (if e.branchPoint ≠ "" then [.note e.branchPoint "warn" ("", false)] else []) ++
  (if e.branchLabel ≠ "" then [.note ("branch label: " ++ e.branchLabel) "other" ("", false)]
    else []) ++
  if e.quarantined then
    let label :=
      if e.quarantineReason ≠ "" then "quarantined line: " ++ e.quarantineReason
      else "quarantined line"
    [.note label "warn" ((e.blocks.head?.map compactText).getD ("", false))]
  else if e.truncated then
    [.note ("oversized line truncated (" ++ fmtSize e.byteSize ++ ") — full bytes in raw view")
      "warn" ("", false)]
  else e.blocks.flatMap (blockSteps splitFencing trimSpace e)

end

/-- `pillRef`, with the step of the call. -/
structure PillRef where
  row : Nat
  pill : Nat
  call : Nat

/-- The rows before the run that pills are added to, and its pills. -/
def openRun (rows : List ConvRow) : List ConvRow × List ConvPill :=
  match rows.getLast? with
  | some (.run pills) => (rows.dropLast, pills)
  | _ => (rows, [])

/-- `strings.TrimLeft` of newlines. -/
def trimLeft (text : String) : String := String.ofList (text.toList.dropWhile (· = '\n'))

/-- Two pills of one merge key, labelled by the primary one. -/
def mergePills (primary other : ConvPill) (stands : List Nat) : ConvPill :=
  { primary with
    tone := if other.tone = "message" then "message" else primary.tone
    detail := other.detail
    detailTruncated := other.detailTruncated
    merged := true
    count := 1
    stands := stands }

def merges (last p : ConvPill) : Bool :=
  p.merge ≠ "" && last.merge = p.merge && !last.merged && last.primary ≠ p.primary

/-- Context after context. -/
def joins (last p : ConvPill) : Bool :=
  p.tone = "context" && !p.hasResult && last.label = p.label && last.tone = p.tone &&
    !last.hasResult && last.merge = "" && p.merge = ""

/-- A pill without details after one like it. -/
def folds (last p : ConvPill) : Bool :=
  !p.expandable && !last.expandable && last.label = p.label && last.tone = p.tone

def joinDetails (last p : ConvPill) : String :=
  if p.detail ≠ "" then trimLeft (last.detail ++ "\n\n" ++ p.detail) else last.detail

/-- What the last pill of a run becomes if it takes a new one in. -/
def absorb (last p : ConvPill) : Option ConvPill :=
  let stands := last.stands ++ p.stands
  -- Two pills of one merge key, one of them primary, are one pill.
  if merges last p then
    some (if p.primary then mergePills p last stands else mergePills last p stands)
  -- Context is written on, and a repeated call only counted.
  else if joins last p then
    some { last with
      detail := joinDetails last p
      detailTruncated := last.detailTruncated || p.detailTruncated
      count := last.count + 1
      stands := stands }
  else if folds last p then some { last with count := last.count + 1, stands := stands }
  else none

/-- The rows with a pill added, and the place of the pill that stands for it. -/
def addPill (rows : List ConvRow) (p : ConvPill) : List ConvRow × Nat × Nat :=
  let (before, pills) := openRun rows
  match pills.getLast?.bind (absorb · p) with
  | some pill => (before ++ [.run (pills.dropLast ++ [pill])], before.length, pills.length - 1)
  | none => (before ++ [.run (pills ++ [{ p with count := 1 }])], before.length, pills.length)

/-- A notice that a message with its merge key supersedes. -/
def superseded (merge : String) (last : ConvPill) : Bool :=
  merge ≠ "" && last.merge = merge && last.primary && !last.merged

def supersede (merge : String) (rows : List ConvRow) : List ConvRow :=
  let (before, pills) := openRun rows
  match pills.getLast? with
  | some last =>
    if superseded merge last then if pills.dropLast = [] then before else before ++
      [.run pills.dropLast] else rows
  | none => rows

def pillAt (rows : List ConvRow) (ref : PillRef) : Option ConvPill :=
  match rows[ref.row]? with
  | some (.run pills) => pills[ref.pill]?
  | _ => none

def setPill (rows : List ConvRow) (ref : PillRef) (pill : ConvPill) : List ConvRow :=
  match rows[ref.row]? with
  | some (.run pills) => rows.set ref.row (.run (pills.set ref.pill pill))
  | _ => rows

def attach (i : Nat) (b : DisplayBlock) (pill : ConvPill) : ConvPill :=
  { pill with
    hasResult := true
    result := (compactText b).1
    resultTruncated := (compactText b).2
    tone := if b.isError then "error" else pill.tone
    shows := some i }

structure State where
  rows : List ConvRow
  calls : Entries String PillRef

/-- The pill that a block finds remembered. -/
def remembered (calls : Entries String PillRef) (b : DisplayBlock) : Option PillRef :=
  if b.kind = "tool_result" ∧ b.toolID ≠ "" then calls.get b.toolID else none

/-- The `i`th step of a window: a reference to a row or a pill that is not there is a panic. -/
def step (i : Nat) (s : State) : Step → Option State
  | .note label tone detail => some
      { s with rows := (addPill s.rows { notePill label tone detail with stands := [i] }).1 }
  | .divider text timestamp => some { s with rows := s.rows ++ [.divider text timestamp] }
  | .message merge row => some { s with rows := supersede merge s.rows ++ [.message row] }
  | .block b =>
    match remembered s.calls b with
    -- A result whose call came earlier goes to the call's pill.
    | some ref => (pillAt s.rows ref).map fun pill =>
        { s with rows := setPill s.rows ref (attach i b pill) }
    | none =>
      let added := addPill s.rows { blockPill b with stands := [i] }
      some
        { rows := added.1
          calls :=
            if b.kind = "tool_use" ∧ b.toolID ≠ "" then
              s.calls.set b.toolID ⟨added.2.1, added.2.2, i⟩
            else s.calls }

def run : Nat → State → List Step → Option State
  | _, s, [] => some s
  | i, s, one :: rest => (step i s one).bind fun s => run (i + 1) s rest

def State.empty : State := ⟨[], Entries.empty⟩

def compactRows (splitFencing : String → List (String × String × String) × String)
    (trimSpace : String → String)
    (fmtSize : Int → String) (entries : List DisplayEntry) : Option (List ConvRow) :=
  (run 0 State.empty (entries.flatMap (entrySteps splitFencing trimSpace fmtSize))).map State.rows

end AiConfig.Sesh.Surface.Compact
