import Mathlib
import AiConfig.Herder.Transcript.Entries

/-! # The transcripts of an event stream

Transcription of `syncTranscripts`, of the boards and of `applySubscription` in `serveEvents` of
`serve.go`, as
far as the transcripts of the followed agents go: one connection, whose watches, polls, sweeps and
subscription
changes come in any order, over files that change in between.  A transcript id names one file and
its
classifier.

* `Connection.run` — the connection after some events, and what it sent. -/

namespace AiConfig.Herder.EventStream

open SessionEntries (Entry Classifier Cursor tail)
open Observer (Bytes completeEnd reverseBlockSize)

/-! ## Rows -/

structure StreamRow where
  name : String
  tool : String
  agentID : String
  sessionID : String
  deriving DecidableEq

def isSubagent (row : StreamRow) : Bool := row.tool = "claude" && row.agentID ≠ ""

def entryTranscriptID (row : StreamRow) : String :=
  if isSubagent row then "subagent:" ++ row.agentID else row.sessionID

def maxEntryWindow : Nat := 500

/-! ## A connection -/

/-- `eventTranscript`, with a note for the reader: `missed` is that since the last capture the file
was rewritten below the offset, or cut below it and grown past it before it was read again. -/
structure Transcript where
  initialized : Bool
  session : String
  offset : Nat
  retired : Option StreamRow
  missed : Bool
  deriving DecidableEq

def Transcript.new : Transcript := ⟨false, "", 0, none, false⟩

inductive Frame (Body Board : Type) where
  | substrate (source status detail : String)
  | rewindow (agent : String)
  | entry (agent : String) (entry : Entry Body)
  | fleet (board : Board)
  | subscribed (agents : List String)
  deriving DecidableEq

/-- What a connection does: it sends a frame, or captures the end of a transcript's file. -/
inductive Act (Body Board : Type) where
  | sent (frame : Frame Body Board)
  | captured (agent session : String) (end_ : Nat)
  deriving DecidableEq

structure Connection (Body Board : Type) where
  files : String → Bytes
  agents : List String
  transcripts : String → Option Transcript
  unreachable : String → Bool
  roster : List StreamRow
  rosterRead : Bool
  previous : Option Board
  log : List (Act Body Board)

/-- A file gets another content. -/
structure Change where
  session : String
  content : Bytes

/-- What an agent's turn in a sync meets: changes of files before it, no row where the roster has
none, and reads
that fail. -/
structure Turn where
  changes : List Change
  stopped : Except String StreamRow
  endFault : Option String
  tailFault : Option String

/-- No file changes and no read fails. -/
def Turn.quiet (detail : String) : Turn := ⟨[], .error detail, none, none⟩

/-- A content that keeps what was read up to an offset, or that shows that it does not. -/
def keeps (offset : Nat) (content content' : Bytes) : Bool :=
  content'.length < offset || (offset ≤ content.length && content'.take offset =
    content.take offset)

/-- A transcript after its file, or another's, got another content. -/
def Transcript.after (state : Transcript) (changed : Change) (content : Bytes) : Transcript :=
  { state with missed := state.missed || (state.session = changed.session &&
    !keeps state.offset content changed.content) }

section

variable {Body Board : Type}

namespace Connection

def change (c : Connection Body Board) (changed : Change) : Connection Body Board :=
  { c with
    files := Function.update c.files changed.session changed.content
    transcripts := fun name => (c.transcripts name).map fun state =>
      state.after changed (c.files changed.session) }

def send (c : Connection Body Board) (frame : Frame Body Board) : Connection Body Board :=
  { c with log := c.log ++ [.sent frame] }

def put (c : Connection Body Board) (name : String) (state : Transcript) : Connection Body Board :=
  { c with transcripts := Function.update c.transcripts name (some state) }

def capture (c : Connection Body Board) (name : String) (state : Transcript) (session : String) :
    Connection Body Board :=
  let end_ := completeEnd reverseBlockSize (c.files session)
  { c.put name { state with initialized := true, session, offset := end_, missed := false } with
    log := c.log ++ [.captured name session end_] }

def source (name : String) : String := "transcript:" ++ name

/-- A failure of an agent's transcript, told at once or after the sync. -/
def fail (c : Connection Body Board) (initial : Bool) (name detail : String)
    (pending : List (Frame Body Board)) :
    Connection Body Board × List (Frame Body Board) :=
  let frame := Frame.substrate (source name) "unreachable" detail
  if initial then ({ c with unreachable := Function.update c.unreachable name true },
    pending ++ [frame])
  else if c.unreachable name then (c, pending)
  else ({ c with unreachable := Function.update c.unreachable name true }.send frame, pending)

def recover (c : Connection Body Board) (name : String) : Connection Body Board :=
  if c.unreachable name then
    { c with unreachable := Function.update c.unreachable name false }.send
      (.substrate (source name) "recovered" "")
  else c

/-- The row of an agent: the roster's, the one it was retired with, or that of its stopped session.
-/
def evidence (state : Transcript) (roster : List StreamRow) (name : String) (turn : Turn) :
    Except String (Transcript × StreamRow) :=
  match roster.reverse.find? fun row => row.name = name with
  | some row => .ok ({ state with retired := none }, row)
  | none =>
    match state.retired with
    | some row => .ok (state, row)
    | none =>
      match turn.stopped with
      | .ok row => .ok ({ state with retired := some row }, row)
      | .error detail => .error detail

/-! ## Syncs -/

variable (classifier : String → Classifier Body)

/-- An agent's turn in `syncTranscripts`. -/
def syncAgent (initial : Bool) (requested : Option (List String)) (roster : List StreamRow)
    (name : String) (turn : Turn)
    (c : Connection Body Board) (pending : List (Frame Body Board)) :
    Connection Body Board × List (Frame Body Board) :=
  let c := turn.changes.foldl change c
  match c.transcripts name with
  | none => (c, pending)
  | some state =>
    match evidence state roster name turn with
    | .error detail => c.fail initial name detail pending
    | .ok (state, row) =>
      -- A first sight of the agent, or another session under its name: captured, not read.
      let session := entryTranscriptID row
      let c := c.put name state
      if !state.initialized ∨ state.session ≠ session then
        match turn.endFault with
        | some detail => c.fail initial name detail pending
        | none =>
          let c := c.capture name state session
          (if initial then c else c.send (.rewindow name), pending)
      else if initial ∨ (requested.any fun requested => name ∉ requested) then (c, pending)
      else
        match turn.tailFault with
        | some detail => c.fail false name detail pending
        | none =>
          let c := c.recover name
          match tail (classifier session) (c.files session) session ⟨state.session,
              state.offset⟩ maxEntryWindow with
          -- `tail` refuses a cursor beyond the end: the file was cut, and is captured again.
          | .error _ =>
            match turn.endFault with
            | some detail => c.fail false name detail pending
            | none => ((c.capture name state session).send (.rewindow name), pending)
          | .ok read =>
            ((read.entries.foldl (fun c entry => c.send (.entry name entry)) c).put name
              { state with offset := read.nextOffset }, pending)

/-- The loop of `syncTranscripts`. -/
def syncLoop (initial : Bool) (requested : Option (List String)) (roster : List StreamRow)
    (turns : String → Turn) :
    List String → Connection Body Board → List (Frame Body Board) →
      Connection Body Board × List (Frame Body Board)
  | [], c, pending => (c, pending)
  | name :: rest, c, pending =>
    let (c, pending) := syncAgent classifier initial requested roster name (turns name) c pending
    syncLoop initial requested roster turns rest c pending

def syncTranscripts (names : List String) (roster : List StreamRow) (initial : Bool)
    (requested : Option (List String))
    (turns : String → Turn) (c : Connection Body Board) : Connection Body Board :=
  let (c, pending) := syncLoop classifier initial requested roster turns names c []
  pending.foldl send c

/-! ## The loop of a connection -/

variable [DecidableEq Board]

/-- Up to the loop, with the first board or without one. -/
def serveEvents (files : String → Bytes) (agents : List String) (board : Option Board)
    (roster : List StreamRow) (turns : String → Turn) :
    Connection Body Board :=
  let c : Connection Body Board :=
    ⟨files, agents, fun name => if name ∈ agents then some .new else none, fun _ => false, roster,
      false, board, []⟩
  match board with
  | none => c
  | some board =>
    let c := c.syncTranscripts classifier agents roster true (some []) turns
    let c := { c with rosterRead := true }.send (.fleet board)
    if agents ≠ [] then c.send (.subscribed agents) else c

def refreshBoard (board : Option (Board × List StreamRow)) (turns : String → Turn)
    (c : Connection Body Board) : Connection Body Board :=
  match board with
  | none => c
  | some (board, roster) =>
    let c :=
      if c.previous = some board then c else { c with previous := some board }.send (.fleet board)
    { c with roster, rosterRead := true }.syncTranscripts classifier c.agents roster false
      (some []) turns

def applySubscription (agents : List String) (turns : String → Turn) (c : Connection Body Board) :
    Connection Body Board :=
  let added := agents.filter fun name => (c.transcripts name).isNone
  let removed := fun name => name ∈ c.agents && name ∉ agents
  let c := { c with
    agents
    transcripts := fun name =>
      if removed name then none
      else if name ∈ added then some .new
      else c.transcripts name
    unreachable := fun name => if removed name then false else c.unreachable name }
  -- Before the first roster there is nothing to read their transcripts by.
  if added ≠ [] ∧ c.rosterRead then
    (c.syncTranscripts classifier added c.roster true (some []) turns).send (.subscribed added)
  else c

end Connection

/-- What the loop receives: a change of files, a poll or a store change, a watch's batch, a sweep, a
subscription. -/
inductive Received (Board : Type) where
  | changed (change : Change)
  | board (board : Option (Board × List StreamRow)) (turns : String → Turn)
  | watched (names : List String) (turns : String → Turn)
  | swept (turns : String → Turn)
  | subscribed (agents : List String) (turns : String → Turn)

variable (classifier : String → Classifier Body) [DecidableEq Board]

def Connection.receive (c : Connection Body Board) : Received Board → Connection Body Board
  | .changed change => c.change change
  | .board board turns => c.refreshBoard classifier board turns
  | .watched names turns => c.syncTranscripts classifier c.agents c.roster false (some names) turns
  | .swept turns => c.syncTranscripts classifier c.agents c.roster false none turns
  | .subscribed agents turns => c.applySubscription classifier agents turns

def Connection.run (c : Connection Body Board) (received : List (Received Board)) :
    Connection Body Board :=
  received.foldl (Connection.receive classifier) c

end

end AiConfig.Herder.EventStream
