import Mathlib.Data.Int.Order.Basic

/-! # Agent events

The lines of `events.jsonl`, as in `internal/agentstore/event.go`.  A text that a line omits
is empty, as the code reads it. -/

namespace AiConfig.Herder.Agents

/-- Of a year from 0 to 9999, which is what RFC 3339 writes; in nanoseconds since `time.Time`'s
zero. -/
structure Time where
  ns : Int
  inYears : -31622400000000000 ≤ ns ∧ ns < 315537897600000000000
  deriving DecidableEq

instance : LE Time := ⟨fun a b => a.ns ≤ b.ns⟩

instance : LT Time := ⟨fun a b => a.ns < b.ns⟩

instance : DecidableLE Time := fun a b => inferInstanceAs (Decidable (a.ns ≤ b.ns))

instance : DecidableLT Time := fun a b => inferInstanceAs (Decidable (a.ns < b.ns))

def Time.zero : Time := ⟨0, by decide⟩

inductive EventKind where
  | launchRequested | launchReady | launchFailed | cullRequested | culled | resume | fork |
      compactRequested
  | assign | annotate | mirrorCreated | mirrorReady | mirrorStopped | mirrorBatch |
      sessionObserved | sessionEnded
  | sessionSupersede | laneCreated | laneUpdated | laneLink
  deriving DecidableEq

def EventKind.isLane : EventKind → Bool
  | .laneCreated | .laneUpdated | .laneLink => true
  | _ => false

def EventKind.isMirror : EventKind → Bool
  | .mirrorCreated | .mirrorReady | .mirrorStopped | .mirrorBatch => true
  | _ => false

def closes (kind : EventKind) : Bool :=
  kind = .culled || kind = .launchFailed || kind = .mirrorStopped

/-- Kinds that never open a new incarnation. -/
def attaches (kind : EventKind) : Bool :=
  closes kind || kind = .cullRequested || kind = .sessionEnded || kind = .sessionSupersede

/-- `by_kind` and `launcher_kind`. -/
inductive Attribution where
  | agent | web | user | unknown | serve | observer | mirror
  deriving DecidableEq

structure Placement where
  workspace : String := ""
  pane : String := ""
  splitFrom : String := ""
  worktreeBranch : String := ""
  repo : String := ""
  deriving DecidableEq

structure Event where
  id : String
  at_ : Time
  kind : EventKind
  by_ : String := ""
  byKind : Option Attribution := none
  name : String := ""
  request : String := ""
  tool : String := ""
  model : String := ""
  effort : String := ""
  tag : String := ""
  placement : Option Placement := none
  promptRef : String := ""
  launcherKind : Option Attribution := none
  batch : String := ""
  pane : String := ""
  cwd : String := ""
  session : String := ""
  reason : String := ""
  close : String := ""
  fromSession : String := ""
  fromName : String := ""
  steerChars : Option Int := none
  group : String := ""
  clearGroup : Bool := false
  title : String := ""
  note : String := ""
  manager : String := ""
  hcomEvent : String := ""
  instances : List String := []
  parentName : String := ""
  isHcomLaunched : Option Bool := none
  path : String := ""
  lane : String := ""
  laneName : String := ""
  lead : String := ""
  pr : String := ""
  repo : String := ""
  remove : Bool := false
  deriving DecidableEq

def firstNonEmpty : List String → String
  | [] => ""
  | value :: rest => if value ≠ "" then value else firstNonEmpty rest

end AiConfig.Herder.Agents
