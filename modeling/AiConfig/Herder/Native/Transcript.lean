import Mathlib.Tactic.Common
import Std.Data.ExtTreeMap
import Mathlib.Algebra.Group.Nat.Defs

/-! # An open agent's transcript

Transcription of `Transcript` in the native client's `store/transcript.rs`: the window of entries
read in, in both directions, and the reads and retries that fill it.  What an entry's payload
shows (`condense.rs`) is a parameter.  Resolving a clicked path is left out. -/

namespace AiConfig.Herder.NativeTranscript

open Std

/-- Entries per read. -/
def PAGE : Nat := 100

/-- Retries of a failed forward or detail read. -/
def RETRIES : Nat := 3

inductive Kind where
  | humanPrompt | hcomDeliveryStub | hcomDelivery | taskNotification | injectedSystem |
      commandStdout | compactDivider
  | assistantText | thinking | toolUse | toolResult | turnDuration | systemChip | unknown
  deriving DecidableEq

structure Entry (Payload : Type) where
  byteOffset : Nat
  timestamp : String
  kind : Kind
  payload : Payload

/-- What compact mode renders: a tool call, or another row. -/
inductive Item (Row Result : Type) where
  | tool (name summary input : String) (result : Option Result)
  | row (row : Row)

/-- How a payload is read. -/
structure Condense where
  Payload : Type
  Row : Type
  Result : Type
  Detail : Type
  /-- `payload.tool_use_id.as_str()` -/
  toolUseID : Payload → Option String
  toolCall : Payload → String × String × String
  toolResult : Payload → String → Result
  condense : Entry Payload → List (Item Row Result)
  epochMs : String → Option Nat

/-! ## Keys -/

/-- An entry's byte offset, and the index of the item within it. -/
abbrev Key := Nat × Nat

abbrev cmpKey : Key → Key → Ordering := compareLex (compareOn Prod.fst) (compareOn Prod.snd)

instance : LawfulEqCmp cmpKey where
  eq_of_compare {a b} same := by
    simp only [cmpKey, compareLex, compareOn, Ordering.then_eq_eq, Std.compare_eq_iff_eq] at same
    exact Prod.ext same.1 same.2

/-! ## Reads -/

inductive Page where
  | tail (limit : Nat)
  | from (offset : Nat) (session : String) (limit : Nat)
  | before (offset : Nat) (session : String) (limit : Nat)
  deriving DecidableEq

def Page.isTail : Page → Bool
  | .tail _ => true
  | _ => false

def Page.isFrom : Page → Bool
  | .from .. => true
  | _ => false

def Page.isBefore : Page → Bool
  | .before .. => true
  | _ => false

inductive What where
  | page (page : Page)
  | detail
  deriving DecidableEq

inductive Op where
  | forward | back | detail
  deriving DecidableEq

def What.op : What → Op
  | .page (.before ..) => .back
  | .page _ => .forward
  | .detail => .detail

structure Read where
  agent : String
  generation : Nat
  what : What
  deriving DecidableEq

structure Timer where
  generation : Nat
  op : Op
  token : Nat
  deriving DecidableEq

inductive Effect where
  | fetch (read : Read)
  | after (afterMs : Nat) (timer : Timer)
  deriving DecidableEq

/-- The answer to a page read. -/
structure Entries (c : Condense) where
  sessionID : String
  windowFrom : Nat
  entries : List (Entry c.Payload)
  nextOffset : Option Nat
  prevOffset : Option Nat
  reset : Bool

inductive Got (c : Condense) where
  | page (entries : Entries c)
  | detail (detail : c.Detail)

/-! ## The transcript -/

structure Backoff where
  failures : Nat
  timer : Option Nat

structure Transcript (c : Condense) where
  agent : String
  generation : Nat
  session : Option String
  items : ExtTreeMap Key (Item c.Row c.Result) cmpKey
  times : ExtTreeMap Nat Nat
  calls : ExtTreeMap String Key
  orphans : ExtTreeMap String c.Result
  nextOffset : Option Nat
  prevOffset : Option Nat
  reading : Bool
  again : Bool
  back : Bool
  detailReading : Bool
  detailAgain : Bool
  detail : Option c.Detail
  tail : Bool
  readIn : ExtTreeMap Nat (Kind × String)
  notice : Option (Op × String)
  forwardRetry : Backoff
  detailRetry : Backoff
  timers : Nat

structure Pos where
  session : String
  offset : Nat
  ts : String
  deriving DecidableEq

variable {c : Condense}

namespace Transcript

/-- `Transcript::default()` with an agent, a generation and a detail. -/
def fresh (agent : String) (generation : Nat) (detail : Option c.Detail) : Transcript c where
  agent := agent
  generation := generation
  session := none
  items := ∅
  times := ∅
  calls := ∅
  orphans := ∅
  nextOffset := none
  prevOffset := none
  reading := false
  again := false
  back := false
  detailReading := false
  detailAgain := false
  detail := detail
  tail := false
  readIn := ∅
  notice := none
  forwardRetry := ⟨0, none⟩
  detailRetry := ⟨0, none⟩
  timers := 0

def loaded (t : Transcript c) : Bool := t.session.isSome

def pos (t : Transcript c) (offset : Nat) (ts : String) : Option Pos :=
  t.session.map fun session => ⟨session, offset, ts⟩

/-- Where reading reaches: the newest entry read in. -/
def end_ (t : Transcript c) : Option Pos := do
  let (offset, _, ts) ← t.readIn.maxEntry?
  t.pos offset ts

def opens (kind : Kind) : Bool :=
  kind ∈ [.humanPrompt, .hcomDeliveryStub, .hcomDelivery, .taskNotification]

/-- Just before the latest turn's opener, else before the newest entry. -/
def turnStart (t : Transcript c) : Option Pos := do
  let above := fun offset => t.readIn.getEntryLT? offset
  let (last, _) ← t.readIn.maxEntry?
  let start :=
    ((t.readIn.toList.reverse.find? fun (_, kind, _) => opens kind).map Prod.fst).getD last
  let stub := (above start).filter fun (_, kind, _) => kind = .hcomDeliveryStub
  -- A delivery and the stub before it open the turn together.
  let start :=
    match stub.filter fun _ => (t.readIn[start]?.map Prod.fst) = some .hcomDelivery with
    | some (offset, _) => offset
    | none => start
  match above start with
  | some (offset, _, ts) => t.pos offset ts
  | none => t.pos (start - 1) ""

def read (t : Transcript c) (what : What) : Effect := .fetch ⟨t.agent, t.generation, what⟩

/-- A failed read holds paging back. -/
def blocked (t : Transcript c) : Bool := t.notice.isSome

/-- The tail when nothing is loaded, else everything after `nextOffset`. -/
def nextPage (t : Transcript c) : Page :=
  match t.session, t.nextOffset with
  | some session, some offset => .from offset session PAGE
  | _, _ => .tail PAGE

/-- The next page, one read at a time. -/
def forward (t : Transcript c) : Transcript c × List Effect :=
  if t.reading then ({ t with again := true }, [])
  else ({ t with reading := true }, [t.read (.page t.nextPage)])

def older (t : Transcript c) : Transcript c × List Effect :=
  match t.session, t.prevOffset with
  | some session, some offset =>
    if 0 < offset ∧ ¬ t.blocked ∧ ¬ t.back then
      ({ t with back := true }, [t.read (.page (.before offset session PAGE))])
    else (t, [])
  | _, _ => (t, [])

def refresh (t : Transcript c) : Transcript c × List Effect :=
  if t.detailReading then ({ t with detailAgain := true }, [])
  else ({ t with detailReading := true }, [t.read .detail])

/-- One after the other, with the effects of both. -/
def andThen (first : Transcript c × List Effect)
    (next : Transcript c → Transcript c × List Effect) :
    Transcript c × List Effect :=
  let (t, out) := next first.1
  (t, first.2 ++ out)

/-- A fresh window under `generation` (the detail stays), reading the tail and the detail. -/
def reset (t : Transcript c) (generation : Nat) : Transcript c × List Effect :=
  andThen (fresh t.agent generation t.detail).forward refresh

/-- `op` read: its retries start over, any pending timer is void, and its own notice goes. -/
def succeeded (t : Transcript c) (op : Op) : Transcript c :=
  let t :=
    match op with
    | .forward => { t with forwardRetry := ⟨0, none⟩ }
    | .detail => { t with detailRetry := ⟨0, none⟩ }
    | .back => t
  if t.notice.map Prod.fst = some op then { t with notice := none } else t

/-! ## Entries -/

/-- The items of one entry, numbered in 16 bits. -/
def insertItems (offset : Nat) (items : List (Item c.Row c.Result))
    (map : ExtTreeMap Key (Item c.Row c.Result) cmpKey) :
    ExtTreeMap Key (Item c.Row c.Result) cmpKey :=
  items.zipIdx.foldl (fun map (item, sub) => map.insert (offset, sub % 2 ^ 16) item) map

/-- The rest of `ingest`: an entry's items, and when they came. -/
def insertEntry (t : Transcript c) (entry : Entry c.Payload) (items : List (Item c.Row c.Result)) :
    Transcript c :=
  { t with
    times :=
      match (c.epochMs entry.timestamp).filter fun _ => !items.isEmpty with
      | some at_ => t.times.insert entry.byteOffset at_
      | none => t.times
    items := insertItems entry.byteOffset items t.items }

def toolID (entry : Entry c.Payload) : String := (c.toolUseID entry.payload).getD ""

def ingest (t : Transcript c) (entry : Entry c.Payload) : Transcript c :=
  let id := toolID entry
  match entry.kind with
  | .toolUse =>
    let (name, summary, input) := c.toolCall entry.payload
    let tool := .tool name summary input t.orphans[id]?
    { t with orphans := t.orphans.erase id, calls := t.calls.insert id (entry.byteOffset,
      0) }.insertEntry entry [tool]
  | .toolResult =>
    let result := c.toolResult entry.payload entry.timestamp
    match t.calls[id]?.bind fun key => t.items[key]?.map fun item => (key, item) with
    -- A call that was read before takes its result in place.
    | some (key, .tool name summary input _) =>
        { t with items := t.items.insert key (.tool name summary input (some result)) }
    | _ => { t with orphans := t.orphans.insert id result }
  | _ => t.insertEntry entry (c.condense entry)

/-- One more entry of a page. -/
def takeIn (t : Transcript c) (entry : Entry c.Payload) : Transcript c :=
  { t with readIn := t.readIn.insert entry.byteOffset (entry.kind, entry.timestamp) }.ingest entry

/-- What a page brings: where it reaches, and its entries. -/
def landed (t : Transcript c) (page : Page) (e : Entries c) : Transcript c :=
  let t :=
    match page with
    | .tail _ =>
        { t with session := some e.sessionID, nextOffset := e.nextOffset, prevOffset := some e.windowFrom }
    | .from .. => { t with nextOffset := e.nextOffset <|> t.nextOffset }
    | .before .. => { t with back := false, prevOffset := some (e.prevOffset.getD 0) }
  let t := t.succeeded (if page.isBefore then .back else .forward)
  e.entries.foldl takeIn t

/-- A window of only hidden entries shows nothing: keep reading back until rows or the start. -/
def readBack (t : Transcript c) (page : Page) : Transcript c × List Effect :=
  if t.items.isEmpty ∧ ¬ page.isFrom then t.older else (t, [])

/-- More may be waiting: a wake came meanwhile, or a catch-up filled its window. -/
def readOn (t : Transcript c) (page : Page) (full : Bool) : Transcript c × List Effect :=
  if page.isBefore then (t, [])
  else if t.again ∨ full ∧ page.isFrom then { t with reading := false, again := false }.forward
  else ({ t with reading := false, again := false }, [])

def page (t : Transcript c) (page : Page) (e : Entries c) : Transcript c × List Effect :=
  andThen ((t.landed page e).readBack page) fun t => t.readOn page (PAGE ≤ e.entries.length)

/-! ## Answers and timers -/

def backoff (t : Transcript c) : Op → Option Backoff
  | .forward => some t.forwardRetry
  | .detail => some t.detailRetry
  | .back => none

def setBackoff (t : Transcript c) (op : Op) (backoff : Backoff) : Transcript c :=
  match op with
  | .forward => { t with forwardRetry := backoff }
  | .detail => { t with detailRetry := backoff }
  | .back => t

/-- A failed read; `error` is `none` for an answer of another kind. -/
def failed (t : Transcript c) (op : Op) (error : Option String) : Transcript c × List Effect :=
  let t :=
    match op with
    | .forward => { t with reading := false, again := true }
    | .back => { t with back := false }
    | .detail => { t with detailReading := false, detailAgain := true }
  let notice := error.map fun e => (op, "could not read: " ++ e)
  -- At most one timer is running, and after `RETRIES` failures none is started.
  match (t.backoff op).filter fun b => b.timer.isNone ∧ b.failures < RETRIES with
  | some b =>
    let token := t.timers + 1
    ({ t.setBackoff op ⟨b.failures + 1, some token⟩ with timers := token, notice := notice },
      [.after (1000 * 2 ^ b.failures) ⟨t.generation, op, token⟩])
  | none => ({ t with notice := notice }, [])

def answer (t : Transcript c) (what : What) (result : Except String (Got c)) :
    Transcript c × List Effect :=
  match what, result with
  | .page page, .ok (.page e) => t.page page e
  | .detail, .ok (.detail d) =>
    let t := { t with detail := some d, detailReading := false }.succeeded .detail
    if t.detailAgain then { t with detailAgain := false }.refresh else (t, [])
  | what, .error e => t.failed what.op (some e)
  | what, .ok _ => t.failed what.op none

/-- The op's pending timer fired: read again what failed, and any wake queued behind it. -/
def retry (t : Transcript c) (timer : Timer) : Transcript c × List Effect :=
  match (t.backoff timer.op).filter fun b => b.timer = some timer.token with
  | none => (t, [])
  | some b =>
    let t := t.setBackoff timer.op { b with timer := none }
    match timer.op with
    | .forward => if t.again then { t with again := false }.forward else (t, [])
    | .detail => if t.detailAgain then { t with detailAgain := false }.refresh else (t, [])
    | .back => (t, [])

end Transcript

end AiConfig.Herder.NativeTranscript
