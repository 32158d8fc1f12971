import AiConfig.Sesh.Index.Reindex
import AiConfig.Sesh.Store.Runs

/-! # The store with its index

Events reach `ProcessAppend` in any order, any number of times: from the channel, from a
sweep, from a catch-up.  A failed call leaves the index as it was and marks the
generation dirty. -/

namespace AiConfig.Sesh

open AiConfig.Lib AiConfig.Sesh.Wire

structure Node where
  store : Store
  index : Index

def Node.empty (naive : Bool) : Node := ⟨.empty, .empty naive⟩

def Node.processAppend (decoder : Decoder) (node : Node) (ev : AppendEvent) (now : Timestamp)
    (rebuild : Bool) :
    Node :=
  match node.index.applyAppend decoder node.store ev now rebuild with
  | .ok index => ⟨node.store.setDirty ev.gen false, index⟩
  | .error _ => ⟨node.store.setDirty ev.gen true, node.index⟩

theorem processAppend_of_newRows {decoder : Decoder} {node : Node} {ev : AppendEvent}
    {rebuild : Bool}
    {rows : List IndexedMessage} {complete : Nat}
    (found : node.index.newRows decoder node.store ev rebuild = .ok (rows, complete))
    (now : Timestamp) :
    node.processAppend decoder ev now rebuild = ⟨node.store.setDirty ev.gen false,
      (node.index.take node.store ev now rebuild rows).setCompleteOffset ev.gen complete⟩ := by
  rw [Node.processAppend, applyAppend_of_newRows found]

theorem processAppend_of_error {decoder : Decoder} {node : Node} {ev : AppendEvent} {rebuild : Bool}
    {failure : IndexError} (failed : node.index.newRows decoder node.store ev rebuild =
    .error failure)
    (now : Timestamp) :
    node.processAppend decoder ev now rebuild = ⟨node.store.setDirty ev.gen true, node.index⟩ := by
  rw [Node.processAppend, Index.applyAppend, failed]
  rfl

/-- A generation whose mirror is incomplete is skipped. -/
def Node.rebuild (decoder : Decoder) (now : Timestamp) (events : List AppendEvent) (node : Node) :
    Node :=
  events.foldl (fun node ev => node.processAppend decoder ev now true)
    ⟨node.store, node.index.cleared⟩

def Node.reindex (decoder : Decoder) (now : Timestamp) (node : Node) : Node :=
  let rebuilt := node.rebuild decoder now node.store.rebuildEvents
  ⟨rebuilt.store, rebuilt.index.rebuiltFrom rebuilt.store⟩

/-- A rebuild that stops after some generations: nothing is unified or swapped. -/
def Node.reindexStopped (decoder : Decoder) (now : Timestamp) (generations : Nat) (node : Node) :
    Node :=
  let rebuilt := node.rebuild decoder now (node.store.rebuildEvents.take generations)
  ⟨rebuilt.store, { rebuilt.index with rebuilt := [] }⟩

inductive NodeOp where
  | store (op : Op)
  | append (ev : AppendEvent) (now : Timestamp)
  /-- `ProcessAppend` fails at its storage, or the event is dropped. -/
  | markDirty (ev : AppendEvent)
  | reindex (now : Timestamp)
  | reindexStopped (generations : Nat) (now : Timestamp)

def Node.apply (decoder : Decoder) (node : Node) : NodeOp → Node
  | .store op => { node with store := node.store.apply op }
  | .append ev now => node.processAppend decoder ev now false
  | .markDirty ev => { node with store := node.store.setDirty ev.gen true }
  | .reindex now => node.reindex decoder now
  | .reindexStopped generations now => node.reindexStopped decoder now generations

def Node.run (decoder : Decoder) (node : Node) (ops : List NodeOp) : Node :=
  ops.foldl (Node.apply decoder) node

theorem Node.run_append (decoder : Decoder) (node : Node) (first second : List NodeOp) :
    node.run decoder (first ++ second) = (node.run decoder first).run decoder second :=
  List.foldl_append

/-- Every step of the run meets a condition on the node it starts from. -/
def Node.Along (decoder : Decoder) (meets : Node → NodeOp → Prop) : Node → List NodeOp → Prop
  | _, [] => True
  | node, op :: ops => meets node op ∧ Node.Along decoder meets (node.apply decoder op) ops

/-- What every step that meets the condition keeps, the run keeps. -/
theorem Node.along_keeps {decoder : Decoder} {meets : Node → NodeOp → Prop}
    (invariant : Node → Prop)
    (step : ∀ node op, meets node op → invariant node → invariant (node.apply decoder op))
    {node : Node} {ops : List NodeOp} (along : node.Along decoder meets ops)
    (holds : invariant node) :
    invariant (node.run decoder ops) := by
  induction ops generalizing node with
  | nil => exact holds
  | cons op ops inductionHypothesis =>
    exact inductionHypothesis along.2 (step node op along.1 holds)

instance Node.decidableAlong (decoder : Decoder) (meets : Node → NodeOp → Prop)
    [decide : ∀ node op, Decidable (meets node op)] :
    ∀ (node : Node) (ops : List NodeOp), Decidable (node.Along decoder meets ops)
  | _, [] => inferInstanceAs (Decidable True)
  | node, op :: ops =>
    have := Node.decidableAlong decoder meets (node.apply decoder op) ops
    inferInstanceAs (Decidable (meets node op ∧
      Node.Along decoder meets (node.apply decoder op) ops))

/-- Events end at or below the high-water of their generation. -/
def Published (node : Node) : NodeOp → Prop
  | .append ev _ => ev.byteEnd ≤ node.store.highWater ev.gen
  | _ => True

instance (node : Node) : (op : NodeOp) → Decidable (Published node op)
  | .append ev _ => inferInstanceAs (Decidable (ev.byteEnd ≤ node.store.highWater ev.gen))
  | .store _ | .markDirty _ | .reindex _ | .reindexStopped _ _ => inferInstanceAs (Decidable True)

/-! ## Sample transcripts -/

theorem canonical_digit (n : Nat) : canonicalUUIDChar (digit n) = true := by
  have every : ∀ x : Fin 10, canonicalUUIDChar (Char.ofNat (48 + x.val)) = true := by decide
  exact every ⟨n % 10, Nat.mod_lt n (by decide)⟩

def sampleUUID (n : Nat) : UUID :=
  ⟨String.ofList ("00000000-0000-4000-8000-00000000000".toList ++ [digit n]), by
    rw [String.toList_ofList, List.length_append, List.all_append]
    refine ⟨by rw [List.length_singleton]; decide +kernel, ?_⟩
    rw [List.all_cons, canonical_digit]
    decide +kernel⟩

/-- A file of a Claude session. -/
def sampleGen (session file : Nat) : GenKey := ⟨⟨.claude, sampleUUID session, sampleUUID file⟩, 0⟩

def sampleTime : Timestamp := ⟨2026, 1, 1, 0, 0, 0, 0, by decide⟩

def asciiBytes (text : String) : Bytes := text.toList.map fun c => c.toNat.toUInt8

/-- An object with text fields, as JSON. -/
def objectText (fields : List (String × String)) : String :=
  "\x7b" ++ ",".intercalate (fields.map fun (key, value) => "\"" ++ key ++ "\":\"" ++ value ++
    "\"") ++ "\x7d"

/-- Decodes the given objects and times, and refuses everything else. -/
def sampleDecoder (objects : List (List (String × String))) (times : List Timestamp) : Decoder where
  json line := (objects.find? fun fields => asciiBytes (objectText fields) = line).map fun fields =>
    .object (fields.map fun (key, value) => (key, .string value))
  time text := times.find? fun time => time.text = text

def transcript (lines : List String) : Bytes :=
  lines.flatMap fun line => asciiBytes line ++ [newline]

def putBody (gen : GenKey) (offset : Nat) (body : Bytes) : NodeOp :=
  .store (.put ⟨gen.identity, none, offset, body, "host", "user", "", "", "", sampleTime.text⟩ [])

def deliver (gen : GenKey) (stop : Nat) : NodeOp :=
  .append ⟨gen.identity, gen.generation, 0, stop⟩ sampleTime

end AiConfig.Sesh
