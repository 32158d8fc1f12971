import AiConfig.Herder.Lanes.Session
import AiConfig.Lib.Transition

/-! # Lane verbs

Transcription of the verbs of `internal/lanecmd/lane.go` that write, and of `exec`.  The store
is the events of its journal's whole lines, with the snapshot that a load accepts. -/

namespace AiConfig.Herder.Agents.Lanes

open AiConfig.Herder.Fleet AiConfig.Lib

/-! ## The store -/

structure Saved where
  proj : Projection
  /-- How many events stand before the snapshot's offset. -/
  folded : Nat

structure Store where
  events : List Event
  /-- What `readSnapshot` answers. -/
  snapshot : Option Saved
  inside : ∀ saved ∈ snapshot, saved.folded ≤ events.length

def Store.append (store : Store) (events : List Event) : Store where
  events := store.events ++ events
  snapshot := store.snapshot
  inside saved given := by
    have inside := store.inside saved given
    simp only [List.length_append]
    omega

/-- A load folds the whole journal anew. -/
def Store.replays (store : Store) : Bool :=
  match store.snapshot with
  | none => true
  | some saved => (loadTail saved.proj (store.events.drop saved.folded)).2

/-- `LoadNoSnapshot`. -/
def Store.load (store : Store) (aliases : Ranging) : Projection :=
  match store.snapshot with
  | none => replayEvents aliases store.events
  | some saved =>
    if store.replays then replayEvents aliases store.events
    else (loadTail saved.proj (store.events.drop saved.folded)).1

/-- Under which name a load reads a fact. -/
def Store.named (store : Store) (time : Time) (name : String) : String :=
  if store.replays then renamed (replayAliases store.events) time name else name

/-! ## The verbs -/

inductive Verb where
  | new | rename | lead | move | link | unlink | repo
  deriving DecidableEq

section

variable (orbit : Char → Char)

def Session.newLane (s : Session) : Except Refusal (List Event) :=
  match s.opts.positional with
  | [name] => do
    let lead := s.seat (trimSpace s.opts.lead)
    require (lead ≠ "") .leadRequired
    s.nameTaken orbit name ""
    let created := { s.event s.ids.1 .laneCreated with laneName := name, lead }
    s.leaving lead created.id
    return [created, s.assign s.ids.2 lead created.id]
  | _ => .error (.usage "new <name> --lead <seat>")

def Session.rename (s : Session) : Except Refusal (List Event) :=
  match s.opts.positional with
  | [ref, name] => do
    let lane ← s.resolve orbit ref
    s.nameTaken orbit name lane.id
    return [{ s.event s.ids.1 .laneUpdated with lane := lane.id, laneName := name }]
  | _ => .error (.usage "rename <lane> <name>")

def Session.setLead (s : Session) : Except Refusal (List Event) :=
  match s.opts.positional with
  | [ref, seat] => do
    let lane ← s.resolve orbit ref
    let seat := s.seat seat
    if s.inLane seat lane.id then
      return [{ s.event s.ids.1 .laneUpdated with lane := lane.id, lead := seat }]
    else
      s.leaving seat lane.id
      -- A dormant lane rejoins the lanes with a live member.
      s.nameTaken orbit lane.name lane.id
      return [s.assign s.ids.1 seat lane.id,
        { s.event s.ids.2 .laneUpdated with lane := lane.id, lead := seat }]
  | _ => .error (.usage "lead <lane> <seat>")

def Session.move (s : Session) : Except Refusal (List Event) :=
  match s.opts.positional with
  | [name, ref] => do
    let seat := s.seat name
    let lane ← s.resolve orbit ref
    s.leaving seat lane.id
    s.nameTaken orbit lane.name lane.id
    return [s.assign s.ids.1 seat lane.id]
  | _ => .error (.usage "move <seat> <lane>")

def Session.link (s : Session) (remove : Bool) : Except Refusal (List Event) :=
  match s.opts.positional with
  | [ref, pr] => do
    let lane ← s.resolve orbit ref
    return [{ s.event s.ids.1 .laneLink with lane := lane.id, pr, remove }]
  | _ => .error (.usage ((if remove then "unlink" else "link") ++ " <lane> <owner/repo#n>"))

def Session.repo (s : Session) : Except Refusal (List Event) :=
  match s.opts.positional with
  | [ref, repo] => do
    let lane ← s.resolve orbit ref
    return [{ s.event s.ids.1 .laneLink with lane := lane.id, repo, remove := s.opts.remove }]
  | _ => .error (.usage "repo <lane> <owner/repo> [--remove]")

/-- What a verb hands to `append`. -/
def Session.drafts (s : Session) : Verb → Except Refusal (List Event)
  | .new => s.newLane orbit
  | .rename => s.rename orbit
  | .lead => s.setLead orbit
  | .move => s.move orbit
  | .link => s.link orbit false
  | .unlink => s.link orbit true
  | .repo => s.repo orbit

/-- Every event is validated before the first is written. -/
def Session.append (s : Session) (store : Store) (events : List Event) :
    Except Refusal Unit × Store :=
  match events.forM (validate s.writer.2) with
  | .error fault => (.error (.invalid fault), store)
  | .ok () => (.ok (), store.append events)

/-! ## Runs -/

structure Call where
  verb : Verb
  opts : Options
  now : Time
  ids : String × String
  defaultBy : String × String
  aliases : Ranging
  ranging : LaneRanging

variable (roster : List BusRow)

def Call.session (call : Call) (store : Store) : Session where
  proj := store.load call.aliases
  roster := roster
  opts := call.opts
  now := call.now
  ids := call.ids
  defaultBy := call.defaultBy
  ranging := call.ranging

def exec (store : Store) (call : Call) : Except Refusal Unit × Store :=
  let s := call.session roster store
  match s.drafts orbit call.verb with
  | .error refusal => (.error refusal, store)
  | .ok events => s.append store events

structure World where
  store : Store
  /-- When the last verb ran. -/
  clock : Time

/-- The clock does not go back, and what `NewID` answers is new. -/
structure Call.Allowed (call : Call) (world : World) : Prop where
  later : world.clock ≤ call.now
  distinct : call.ids.1 ≠ call.ids.2
  fresh : ∀ e ∈ world.store.events, e.id ≠ call.ids.1 ∧ e.id ≠ call.ids.2

def World.after (world : World) (call : Call) : World :=
  ⟨(exec orbit roster world.store call).2, call.now⟩

/-- No lanes yet, and no record newer than the clock. -/
structure World.Start (world : World) : Prop where
  noLanes : ∀ aliases, (world.store.load aliases).lanes = ∅
  older : ∀ aliases name, ∀ v ∈ (world.store.load aliases).views name,
    v.firstSeen ≤ world.clock ∧ ∀ time ∈ v.laneAt, time ≤ world.clock

/-- Every run of lane verbs, each on what the ones before it left. -/
def laneSystem : System World Call where
  initial := World.Start
  step world call world' := call.Allowed world ∧ world' = world.after orbit roster call

end

end AiConfig.Herder.Agents.Lanes
