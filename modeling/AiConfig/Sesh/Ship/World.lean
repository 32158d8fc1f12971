import AiConfig.Lib.Transition
import AiConfig.Sesh.Ship.ShipFile

/-! # One shipper, one identity, one store

The world of a source file that only grows: passes of `recoverCursor` and
`shipFile` in any order, requests that are processed late, twice or not at all,
lost answers, failing storage, and restarts of either party.  A shipper restart
keeps any copy of the registry that was saved before, or none. -/

namespace AiConfig.Sesh

open AiConfig.Lib AiConfig.Sesh.Wire

inductive Phase where
  | idle
  /-- The recovery GET is out; then its answer is on the way. -/
  | recovering (answer : Option (Option RecoveryResponse))
  | shipping (loop : Loop)
  /-- The PUT is out; then its answer is on the way. -/
  | waiting (loop : Loop) (size : Nat) (req : PutRequest) (reply : Option Reply)

structure World where
  source : Bytes
  store : Store
  shipper : Shipper
  /-- The copies of the registry that were flushed so far. -/
  saved : List Registry
  phase : Phase
  /-- Requests the store may still process, with nobody waiting for the answer. -/
  strays : List PutRequest

inductive Event where
  | silent
  | answered (reply : Reply)
  /-- `shipFile` returned; `observed` is the size its last `Stat` saw. -/
  | returned (result : Returned) (observed : Option Nat)
  deriving DecidableEq, Repr

def Phase.sent : Phase → List PutRequest
  | .waiting _ _ req _ => [req]
  | _ => []

inductive World.Step (client : Client) (d : Discovered) : World → Event → World → Prop where
  | grow (w : World) (more : Bytes) : Step client d w .silent { w with source := w.source ++ more }
  /-- Restarts of the store, armed mirror errors, and PUTs of other identities. -/
  | elsewhere (w : World) (op : Op) (foreign : ∀ req outcomes, op = .put req outcomes →
      req.identity ≠ d.identity) :
      Step client d w .silent { w with store := w.store.apply op }
  | stray (w : World) {req : PutRequest} (outcomes : List Outcome) (sent : req ∈ w.strays) :
      Step client d w (.answered (w.store.handlePUTBytes req outcomes).1)
        { w with store := (w.store.handlePUTBytes req outcomes).2 }
  | flush (w : World) : Step client d w .silent { w with saved := w.shipper.registry :: w.saved }
  | shipperRestart (w : World) (registry : Registry) (maxBody : Nat)
      (copy : registry ∈ w.saved ∨ registry = .empty) :
      Step client d w .silent { w with
        shipper := ⟨registry, fun _ => none, maxBody⟩, phase := .idle,
        strays := w.phase.sent ++ w.strays }
  | observesOwner (w : World) (owner : String) (idle : w.phase = .idle) :
      Step client d w .silent { w with shipper := w.shipper.recordOwner d owner }
  | askRecovery (w : World) (idle : w.phase = .idle)
      (unknown : w.shipper.registry.get d.identity = none) :
      Step client d w .silent { w with phase := .recovering none }
  | answerRecovery (w : World) (asked : w.phase = .recovering none) :
      Step client d w .silent
        { w with phase := .recovering (some (w.store.recovery d.identity none)) }
  | recover (w : World) {answer : Option RecoveryResponse}
      (answered : w.phase = .recovering (some answer)) :
      Step client d w .silent { w with
        shipper := (w.shipper.recovered d (.content w.source) answer).2, phase := .idle }
  | recoveryFails (w : World) {answer : Option (Option RecoveryResponse)}
      (asked : w.phase = .recovering answer) : Step client d w .silent { w with phase := .idle }
  | refuses (w : World) {result : Returned} {shipper : Shipper} (idle : w.phase = .idle)
      (entered : w.shipper.enter d = .returns result shipper) :
      Step client d w (.returned result none) { w with shipper := shipper }
  | enters (w : World) {loop : Loop} (idle : w.phase = .idle)
      (entered : w.shipper.enter d = .again loop) :
      Step client d w .silent { w with shipper := loop.shipper, phase := .shipping loop }
  | quits (w : World) (more more' : Bytes) {loop : Loop} {result : Returned} {shipper : Shipper}
      (shipping : w.phase = .shipping loop)
      (prepared : loop.prepare (.content w.source) (.content (w.source ++ more))
        (.content (w.source ++ more ++ more')) = .returns result shipper) :
      Step client d w (.returned result (some w.source.length))
        { w with source := w.source ++ more ++ more', shipper := shipper, phase := .idle }
  | spins (w : World) (more more' : Bytes) {loop loop' : Loop} (shipping : w.phase = .shipping loop)
      (prepared : loop.prepare (.content w.source) (.content (w.source ++ more))
        (.content (w.source ++ more ++ more')) = .again loop') :
      Step client d w .silent
        { w with source := w.source ++ more ++ more', shipper := loop'.shipper, phase := .shipping loop' }
  | sends (w : World) (more more' : Bytes) (now : String) {loop loop' : Loop} {size : Nat}
      {body : Bytes}
      (shipping : w.phase = .shipping loop)
      (prepared : loop.prepare (.content w.source) (.content (w.source ++ more))
        (.content (w.source ++ more ++ more')) = .sends loop' size body) :
      Step client d w .silent { w with
        source := w.source ++ more ++ more', shipper := loop'.shipper,
        phase := .waiting loop' size (client.request d.identity loop'.cur body now) none }
  | repeats (w : World) : Step client d w .silent { w with strays := w.phase.sent ++ w.strays }
  | receives (w : World) (outcomes : List Outcome) {loop : Loop} {size : Nat} {req : PutRequest}
      (waiting : w.phase = .waiting loop size req none) :
      Step client d w (.answered (w.store.handlePUTBytes req outcomes).1) { w with
        store := (w.store.handlePUTBytes req outcomes).2,
        phase := .waiting loop size req (some (w.store.handlePUTBytes req outcomes).1) }
  | stops (w : World) (now : String) {loop : Loop} {size : Nat} {req : PutRequest} {reply : Reply}
      {result : Returned} {shipper : Shipper}
        (waiting : w.phase = .waiting loop size req (some reply))
      (reacted : loop.react d.identity size now reply = .returns result shipper) :
      Step client d w (.returned result (some size)) { w with shipper := shipper, phase := .idle }
  | continues (w : World) (now : String) {loop loop' : Loop} {size : Nat} {req : PutRequest}
      {reply : Reply}
      (waiting : w.phase = .waiting loop size req (some reply))
      (reacted : loop.react d.identity size now reply = .again loop') :
      Step client d w .silent { w with shipper := loop'.shipper, phase := .shipping loop' }
  /-- The connection breaks, before or after the store has processed the request. -/
  | loses (w : World) (now reason : String) {loop : Loop} {size : Nat} {req : PutRequest}
      {reply : Option Reply} {result : Returned} {shipper : Shipper}
      (waiting : w.phase = .waiting loop size req reply)
      (reacted : loop.react d.identity size now (.transport reason) = .returns result shipper) :
      Step client d w (.returned result (some size))
        { w with shipper := shipper, phase := .idle, strays := req :: w.strays }

/-- An identity the store and the shipper have never seen. -/
def World.Initial (w : World) : Prop :=
  w.store = .empty ∧ w.shipper.registry = .empty ∧ w.shipper.held = (fun _ => none) ∧
    w.saved = [] ∧ w.phase = .idle ∧ w.strays = []

def world (client : Client) (d : Discovered) : System World Event :=
  ⟨World.Initial, World.Step client d⟩

end AiConfig.Sesh
