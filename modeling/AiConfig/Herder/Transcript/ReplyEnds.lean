import Mathlib.Data.List.DropRight
import Mathlib.Data.List.Range
import Mathlib.Logic.Function.Basic
import Mathlib.Logic.Relation
import AiConfig.Herder.Transcript.Visible

/-! # Reply ends

Transcription of `lookup` and `judgeTurns` of the serve's `replyends.go`, and of `TurnEnds` of
`internal/hcomevents`: each turn end is judged against its own end marker in the tail of the
transcript, on whichever board comes after the marker.

A lookup holds the lock when it reads what is kept under its key and when it stores what it found,
not between the two: boards are built by many handlers at once, so other lookups come in between.

* `replyOf` — the newest of the turns that ended with plain text.
* `Lookup` — how far a lookup is; `Step` — what happens, in any order.
* `Follows` — what lookups are to find. -/

namespace AiConfig.Herder.ReplyEnds

open Fencing (hasVisibleText)

/-! ## Turn ends -/

structure Turn where
  id : Int
  at_ : Int
deriving DecidableEq

structure TurnEnd where
  session : String
  id : Int
  recent : List Turn

structure Status where
  id : Int
  ts : Int
  instance_ : String
  oldStatus : String
  newStatus : String
  session : String

abbrev TurnEnds := String → Option TurnEnd

def recentTurns : Nat := 16

namespace TurnEnds

def apply (ends : TurnEnds) (status : Status) : TurnEnds :=
  if status.instance_ = "" ∨ status.newStatus ≠ "listening" ∨ status.oldStatus = "listening" then
    ends
  else
    let current := (ends status.instance_).getD ⟨"", 0, []⟩
    -- A new session of the agent starts its turns over.
    let current :=
      if status.session ≠ "" ∧ status.session ≠ current.session then ⟨status.session, 0, []⟩
      else current
    -- A turn ends by going from work to listening.
    let current :=
      if (status.oldStatus = "active" ∨ status.oldStatus = "blocked") ∧ current.id < status.id then
        { current with
          id := status.id
          recent := (current.recent ++ [Turn.mk status.id status.ts]).rtake recentTurns }
      else current
    Function.update ends status.instance_ (some current)

def since (ends : TurnEnds) (instance_ session : String) (after : Int) : List Turn :=
  if session = "" then []
  else match ends instance_ with
    | none => []
    | some current => if current.session ≠ session then [] else current.recent.filter fun turn =>
        after < turn.id

end TurnEnds

/-! ## The transcript -/

inductive Kind where
  | humanPrompt
  | hcomStub
  | hcomDelivery
  | taskNotification
  | channelMessage
  | injectedSystem
  | commandOutput
  | compactDivider
  | assistantText
  | thinking
  | toolUse
  | toolResult
  | turnDuration
  | systemChip
  | unknown
deriving DecidableEq

structure Block where
  type_ : String
  text : List Char

/-- A content: a string, or an array of blocks.  What is neither has no blocks. -/
inductive Content where
  | text (text : List Char)
  | blocks (blocks : List Block)

structure Payload where
  isAPIError : Bool
  content : Option Content
  message : Option Content

/-- A payload is `none` where it does not unmarshal. -/
structure Entry where
  kind : Kind
  time : Int
  payload : Option Payload

def turnActivity : Kind → Bool
  | .assistantText | .thinking | .toolUse | .toolResult | .humanPrompt | .hcomStub | .hcomDelivery
  | .taskNotification | .channelMessage => true
  | _ => false

def assistantText (payload : Option Payload) : List Char :=
  match payload with
  | none => []
  | some entry =>
    if entry.isAPIError then []
    else match entry.message.orElse fun _ => entry.content with
      | none => []
      | some (.text text) => text
      | some (.blocks blocks) =>
        ['\n'].intercalate ((blocks.filter fun block => block.type_ = "text").map Block.text)

/-- The loop of `finalText`, from the last entry back. -/
def finalTextBack : List Entry → Bool
  | [] => false
  | entry :: earlier =>
    if entry.kind = .assistantText then hasVisibleText (assistantText entry.payload)
    else if entry.kind = .turnDuration || turnActivity entry.kind then false
    else finalTextBack earlier

def finalText (entries : List Entry) : Bool := finalTextBack entries.reverse

/-! ## The lookup -/

structure ReplyEnd where
  judged : Int
  reply : Int
deriving DecidableEq

/-- The first end marker from an index on that is not before a time. -/
def markerFrom (entries : List Entry) (next : Nat) (at_ : Int) : Option Nat :=
  ((entries.drop next).findIdx? fun entry => entry.kind = .turnDuration &&
    !decide (entry.time < at_)).map (next + ·)

/-- The loop of `judgeTurns`, with its `next`. -/
def judgeFrom (entries : List Entry) : Nat → List Turn → ReplyEnd → ReplyEnd
  | _, [], current => current
  | next, turn :: turns, current =>
    if entries.head?.any fun entry => !decide (entry.time < turn.at_) then
      judgeFrom entries next turns { current with judged := turn.id }
    else match markerFrom entries next turn.at_ with
      | none => current
      | some marker =>
        judgeFrom entries (marker + 1) turns
          ⟨turn.id, if finalText (entries.take marker) then turn.id else current.reply⟩

def judgeTurns (entries : List Entry) (turns : List Turn) (current : ReplyEnd) : ReplyEnd :=
  judgeFrom entries 0 turns current

structure Row where
  tool : String
  sessionID : String

abbrev Replies := String → ReplyEnd

def replyKey (row : Row) (instance_ : String) : String := instance_ ++ "\x00" ++ row.sessionID

/-- What a lookup makes of the turn ends that it is handed; `none` is a read that fails. -/
def judge (row : Row) (tail : Option (List Entry)) (turns : List Turn) (current : ReplyEnd) :
    ReplyEnd :=
  match if row.tool = "claude" ∨ row.tool = "codex" then tail else none with
  | none => (turns.getLast?.map fun last => ⟨last.id, last.id⟩).getD current
  | some entries => judgeTurns entries turns current

def replyTailEntries : Nat := 40

/-! ## One session -/

/-- A row with a transcript reader. -/
structure Session where
  row : Row
  instance_ : String
  read : row.tool = "claude" ∨ row.tool = "codex"
  begun : row.sessionID ≠ ""
  named : instance_ ≠ ""

/-- The ids of the session's completed turns, their times and the times of their end markers.  The
turns before `first` ended before the serve began. -/
structure Schedule where
  first : Nat
  id : Nat → Int
  endedAt : Nat → Int
  markedAt : Nat → Int
  positive : 0 < id first
  rises (k : Nat) : id k < id (k + 1)
  marks (k : Nat) : endedAt k ≤ markedAt k
  apart (k : Nat) : markedAt k < endedAt (k + 1)

/-- What a lookup finds: it returns the reply.  `leading` counts the turns that had ended when it
was handed the turn ends and whose end markers were in the transcript that it read. -/
structure Answer where
  leading : Nat
  current : ReplyEnd
deriving DecidableEq

/-- How far a lookup is.  It has read what is kept, been handed turn ends (some; `ended` had ended
by then), or judged them and is to store what it found. -/
inductive Lookup where
  | began (kept : ReplyEnd)
  | handed (kept : ReplyEnd) (turns : List Turn) (ended : Nat)
  | judged (kept : ReplyEnd) (turns : List Turn) (found : Answer)
deriving DecidableEq

/-- `ended` turns have ended and `marked` end markers have landed; `judgements` are the ids of the
turns judged, in the order in which the judgements are stored. -/
structure World where
  ends : TurnEnds
  replies : Replies
  transcript : List Entry
  ended : Nat
  marked : Nat
  lookups : Nat → Option Lookup
  judgements : List Int
  answers : List Answer

def World.tail (world : World) : List Entry := world.transcript.rtake replyTailEntries

/-- What the transcript holds before the tail. -/
def World.dropped (world : World) : List Entry := world.transcript.rdrop replyTailEntries

/-- The turns that have ended, with all end markers up to their own. -/
def World.leading (world : World) : Nat := min world.ended world.marked

section

variable (session : Session) (schedule : Schedule)

def World.start : World :=
  ⟨fun _ => none, fun _ => ⟨0, 0⟩, [], schedule.first, 0, fun _ => none, [], []⟩

/-- What is kept of the session. -/
def World.current (world : World) : ReplyEnd :=
  world.replies (replyKey session.row session.instance_)

/-! `lookup`, from lock to lock. -/

def World.begin (world : World) (i : Nat) : World :=
  { world with lookups := Function.update world.lookups i (some (.began (world.current session))) }

/-- A lookup that is handed no turn ends returns the reply that it read. -/
def World.hand (world : World) (i : Nat) (kept : ReplyEnd) : World :=
  let turns := world.ends.since session.instance_ session.row.sessionID kept.judged
  if turns.isEmpty then
    { world with
      lookups := Function.update world.lookups i none
      answers := world.answers ++ [⟨world.leading, kept⟩] }
  else { world with lookups := Function.update world.lookups i (some
    (.handed kept turns world.ended)) }

def World.read (world : World) (i : Nat) (kept : ReplyEnd) (turns : List Turn) (ended : Nat) :
    World :=
  let found : Answer := ⟨min ended world.marked, judge session.row (some world.tail) turns kept⟩
  { world with lookups := Function.update world.lookups i (some (.judged kept turns found)) }

def World.store (world : World) (i : Nat) (turns : List Turn) (found : Answer) : World :=
  { world with
    replies := Function.update world.replies (replyKey session.row session.instance_) found.current
    lookups := Function.update world.lookups i none
    judgements :=
      world.judgements ++ (turns.filter fun turn => turn.id ≤ found.current.judged).map Turn.id
    answers := world.answers ++ [found] }

/-- A status event that completes a turn of the session. -/
structure Completes (k : Nat) (status : Status) : Prop where
  id : status.id = schedule.id k
  time : status.ts = schedule.endedAt k
  agent : status.instance_ = session.instance_
  session : status.session = session.row.sessionID
  listening : status.newStatus = "listening"
  worked : status.oldStatus = "active" ∨ status.oldStatus = "blocked"

/-- A status event of another agent, or one of the session's that completes no turn. -/
def Passes (status : Status) : Prop :=
  status.instance_ ≠ session.instance_ ∨
    (status.session = "" ∨ status.session = session.row.sessionID) ∧
      (status.newStatus ≠ "listening" ∨ status.oldStatus ≠ "active" ∧ status.oldStatus ≠ "blocked")

/-- The turn is the oldest that has ended and is not judged. -/
structure Oldest (world : World) (k : Nat) : Prop where
  seen : schedule.first ≤ k
  ended : k < world.ended
  unjudged : (world.current session).judged < schedule.id k
  judged : ∀ i, schedule.first ≤ i → i < k → schedule.id i ≤ (world.current session).judged

/-- At most 16 turn ends are unjudged. -/
def Few (world : World) : Prop :=
  ∀ k, Oldest session schedule world k → world.ended ≤ k + recentTurns

/-- What happens in any order: lookups are handed turn ends while few are unjudged, and read the
tail and store where that is admitted. -/
inductive Step (reads : World → Prop) (stores : World → ReplyEnd → Prop) (world : World) :
    World → Prop
  | turnEnd (status : Status) (completes : Completes session schedule world.ended status) :
      Step reads stores world
        { world with ends := world.ends.apply status, ended := world.ended + 1 }
  | status (status : Status) (passes : Passes session status) :
      Step reads stores world { world with ends := world.ends.apply status }
  | append (entry : Entry) (plain : entry.kind ≠ .turnDuration) :
      Step reads stores world { world with transcript := world.transcript ++ [entry] }
  | mark (payload : Option Payload) :
      Step reads stores world
        { world with
          transcript :=
            world.transcript ++ [⟨.turnDuration, schedule.markedAt world.marked, payload⟩]
          marked := world.marked + 1 }
  | begin (i : Nat) (free : world.lookups i = none) :
      Step reads stores world (world.begin session i)
  | hand (i : Nat) (kept : ReplyEnd) (on : world.lookups i = some (.began kept))
      (few : Few session schedule world) :
      Step reads stores world (world.hand session i kept)
  | read (i : Nat) (kept : ReplyEnd) (turns : List Turn) (ended : Nat)
      (on : world.lookups i = some (.handed kept turns ended)) (admits : reads world) :
      Step reads stores world (world.read session i kept turns ended)
  | store (i : Nat) (kept : ReplyEnd) (turns : List Turn) (found : Answer)
      (on : world.lookups i = some (.judged kept turns found)) (admits : stores world kept) :
      Step reads stores world (world.store session i turns found)

/-- The world of a serve after steps from its start. -/
def Run (reads : World → Prop) (stores : World → ReplyEnd → Prop) : World → Prop :=
  Relation.ReflTransGen (Step session schedule reads stores) (World.start schedule)

/-- What is kept is still what the lookup read: no other has judged a turn since. -/
def Alone (world : World) (kept : ReplyEnd) : Prop := world.current session = kept

/-! ## What a lookup has to find -/

/-- What comes before the end marker of turn `k`, in entries whose first marker is turn `first`'s.
-/
def before (first k : Nat) : List Entry → List Entry
  | [] => []
  | entry :: later =>
    if entry.kind = .turnDuration then
      if k ≤ first then [] else entry :: before (first + 1) k later
    else entry :: before first k later

def markers (entries : List Entry) : Nat := entries.countP fun entry => entry.kind = .turnDuration

/-- A turn ended with plain text. -/
def endedPlain (transcript : List Entry) (k : Nat) : Bool := finalText (before 0 k transcript)

/-- The newest of the turns below `n` that ended with plain text. -/
def replyOf (transcript : List Entry) : Nat → Int
  | 0 => 0
  | n + 1 =>
    if n < schedule.first then 0
    else if endedPlain transcript n then schedule.id n
    else replyOf transcript n

/-- The newest of the turns below `n`. -/
def newest : Nat → Int
  | 0 => 0
  | n + 1 => if n < schedule.first then 0 else schedule.id n

/-- The tail begins before the oldest turn that is not judged: its first entry is earlier, and the
turn's end marker is not before the tail. -/
structure Reaches (world : World) : Prop where
  earlier : ∀ k, Oldest session schedule world k → ∀ entry ∈ world.tail.head?,
    entry.time < schedule.endedAt k
  holds : ∀ k, Oldest session schedule world k → k < world.marked → markers world.dropped ≤ k

def decides (entry : Entry) : Bool := entry.kind = .turnDuration || turnActivity entry.kind

/-- The tail also reaches back to the final text of the oldest, where it ended with plain text. -/
structure Holds (world : World) : Prop extends Reaches session schedule world where
  final : ∀ k, Oldest session schedule world k → k < world.marked → endedPlain world.transcript k →
    ∃ entry ∈ before (markers world.dropped) k world.tail, decides entry

/-- Every lookup found the newest of the leading turns and the newest of them that ended with plain
text; the turns up to the one kept are judged, each once and in order. -/
structure Follows (world : World) : Prop where
  answers : ∀ answer ∈ world.answers,
    answer.current = ⟨newest schedule answer.leading,
      replyOf schedule world.transcript answer.leading⟩
  once : ∃ n, world.current session = ⟨newest schedule n, replyOf schedule world.transcript n⟩ ∧
    world.judgements = (List.range' schedule.first (n - schedule.first)).map schedule.id
  kept : ∀ answer ∈ world.answers, answer.current.judged ≤ (world.current session).judged

end

end AiConfig.Herder.ReplyEnds
