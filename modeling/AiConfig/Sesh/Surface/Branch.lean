import AiConfig.Sesh.Surface.Pages
import AiConfig.Lib.Chain
import AiConfig.Lib.Collections
import Mathlib.Data.List.Induction
import Mathlib.Data.List.Perm.Subperm

/-! # The active branch of a Pi transcript

Transcription of `sortPiAppend` and `resolvePiActiveBranch` of `internal/surface/transcript.go`.
Reading a mirrored line and decoding it are parameters. -/

namespace AiConfig.Sesh.Surface.Branch

open AiConfig.Lib AiConfig.Sesh.Wire

def maxParseLineBytes : Int := 2 ^ 20

structure TranscriptRowKey where
  fileUUID : String
  generation : Int
  line : Int
  deriving DecidableEq

def transcriptKey (row : IndexMessage) : TranscriptRowKey :=
  ⟨row.fileUUID, row.generation, row.lineOrdinal⟩

/-- `piBranchMarker.Point` before it is written out. -/
structure BranchPoint where
  activePath : String
  hidden : Int
  deriving DecidableEq

structure PiBranchMarker where
  point : Option BranchPoint
  label : String
  deriving DecidableEq

structure PiTreeLine where
  type : String
  id : String
  parentID : Option String
  targetID : String
  label : Option String
  deriving DecidableEq

def PiTreeLine.parent (entry : PiTreeLine) : String := entry.parentID.getD ""

def appendLess (a b : IndexMessage) : Bool :=
  if a.fileOrdinal ≠ b.fileOrdinal then a.fileOrdinal < b.fileOrdinal
  else if a.lineOrdinal ≠ b.lineOrdinal then a.lineOrdinal < b.lineOrdinal
  else if a.fileUUID ≠ b.fileUUID then a.fileUUID < b.fileUUID
  else if a.generation ≠ b.generation then a.generation < b.generation
  else a.byteStart < b.byteStart

def sortPiAppend (rows : List IndexMessage) : List IndexMessage :=
  rows.mergeSort fun a b => !appendLess b a

/-- What the pass over the lines builds. -/
structure Graph where
  nodes : Entries String String
  children : Entries String (List String)
  labels : Entries String String
  headers : List TranscriptRowKey
  leaf : String
  malformed : Bool

def Graph.empty : Graph := ⟨Entries.empty, Entries.empty, Entries.empty, [], "", false⟩

structure Resolution where
  rows : List IndexMessage
  markers : Entries TranscriptRowKey PiBranchMarker
  notice : String

section

variable {Line : Type} (readLine : IndexMessage → Option Line)
  (unmarshal : Line → Option PiTreeLine)

/-- The line of a row, if it is one that the graph can take: `unmarshal` drops the line breaks at
its end. -/
def decode (row : IndexMessage) : Option PiTreeLine :=
  if row.quarantine || maxParseLineBytes < int (row.byteEnd - row.byteStart) then none
  else ((readLine row).bind unmarshal).filter fun entry => entry.type ≠ ""

def addLabel (labels : Entries String String) (entry : PiTreeLine) : Entries String String :=
  if entry.type = "label" ∧ entry.targetID ≠ "" then
    if entry.label = none ∨ entry.label = some "" then labels.delete entry.targetID
    else labels.set entry.targetID (entry.label.getD "")
  else labels

def addRow (graph : Graph) (row : IndexMessage) : Graph :=
  match decode readLine unmarshal row with
  | none => { graph with malformed := true }
  | some entry =>
    if entry.type = "session" then { graph with headers := transcriptKey row :: graph.headers }
    else if entry.id = "" then { graph with malformed := true }
    -- An id that comes twice has no one parent.
    else if (graph.nodes.get entry.id).isSome then { graph with malformed := true }
    else
      { graph with
        nodes := graph.nodes.set entry.id entry.parent
        children :=
          graph.children.set entry.parent ((graph.children.get entry.parent).getD [] ++ [entry.id])
        labels := addLabel graph.labels entry
        -- The last entry of the file is where its branch ends.
        leaf := entry.id }

/-- The walk from the leaf up, with the steps that it has left. -/
def walk (nodes : Entries String String) : Nat → String → List String → Entries String String →
    Option (List String × Entries String String)
  | left, id, active, activeChild =>
    if id = "" then some (active, activeChild)
    else
      match left with
      | 0 => none
      | left + 1 =>
        -- A cycle, or more steps than there are nodes, is malformed.
        if id ∈ active then none
        else
          match nodes.get id with
          | none => none
          | some parent =>
            walk nodes left parent (id :: active)
              (if parent ≠ "" then activeChild.set parent id else activeChild)

def marker (graph : Graph) (activeChild : Entries String String) (id : String) : PiBranchMarker :=
  let label := (graph.labels.get id).getD ""
  let n := ((graph.children.get id).getD []).length
  if 1 < n then
    let child := (activeChild.get id).getD ""
    let choice := (graph.labels.get child).getD ""
    ⟨some ⟨if choice ≠ "" then choice else child, n - 1⟩, label⟩
  else ⟨none, label⟩

/-- The pass that selects the rows. -/
def selectRow (graph : Graph) (active : List String) (activeChild : Entries String String)
    (selection : List IndexMessage × Entries TranscriptRowKey PiBranchMarker) (row : IndexMessage) :
    List IndexMessage × Entries TranscriptRowKey PiBranchMarker :=
  if transcriptKey row ∈ graph.headers then (selection.1 ++ [row], selection.2)
  else if row.messageUUID ∈ active then
    let mark := marker graph activeChild row.messageUUID
    (selection.1 ++ [row],
      if mark.point ≠ none ∨ mark.label ≠ "" then selection.2.set (transcriptKey row) mark
      else selection.2)
  else selection

def resolvePiActiveBranch (rows : List IndexMessage) : Resolution :=
  let graph := rows.foldl (addRow readLine unmarshal) Graph.empty
  if rows = [] then ⟨rows, Entries.empty, "Pi transcript is empty; no active branch is available."⟩
  else if graph.leaf = "" then
    ⟨rows, Entries.empty,
      "Pi branch graph is unavailable; showing the bounded degraded file-order view."⟩
  else
    match walk graph.nodes (graph.nodes.size + 1) graph.leaf [] Entries.empty, graph.malformed with
    | some (active, activeChild), false =>
      let selection := rows.foldl (selectRow graph active activeChild) ([], Entries.empty)
      ⟨selection.1, selection.2, ""⟩
    -- A broken graph shows every row in the file's order.
    | _, _ =>
      ⟨rows, Entries.empty,
        "Pi branch graph is malformed or incomplete; showing the bounded degraded file-order view."⟩

/-! ## What a branch is -/

/-- The entry of the graph that a row's line decodes to. -/
def entryOf (row : IndexMessage) : Option PiTreeLine :=
  (decode readLine unmarshal row).filter fun entry => entry.type ≠ "session"

def isHeader (row : IndexMessage) : Bool :=
  (decode readLine unmarshal row).any fun entry => entry.type = "session"

def entries (rows : List IndexMessage) : List PiTreeLine :=
  rows.filterMap (entryOf readLine unmarshal)

def parentIn (entries : List PiTreeLine) (id : String) : Option String :=
  (entries.find? fun entry => entry.id = id).map PiTreeLine.parent

def childrenIn (entries : List PiTreeLine) (id : String) : List String :=
  (entries.filter fun entry => entry.parent = id).map PiTreeLine.id

/-- Every line decodes, each entry to one with an id of its own. -/
structure LinesSound (rows : List IndexMessage) : Prop where
  decoded : ∀ row ∈ rows, ∃ entry, decode readLine unmarshal row = some entry ∧
    (entry.type ≠ "session" → entry.id ≠ "")
  distinct : ((entries readLine unmarshal rows).map PiTreeLine.id).Nodup

/-- The way from the last entry to a root, over decoded entries only. -/
def ActiveBranch (rows : List IndexMessage) (path : List String) : Prop :=
  ∃ last, (entries readLine unmarshal rows).getLast? = some last ∧
    Chain (parentIn (entries readLine unmarshal rows)) "" last.id path

def WellFormed (rows : List IndexMessage) : Prop :=
  LinesSound readLine unmarshal rows ∧ ∃ path, ActiveBranch readLine unmarshal rows path

end

/-! ## The graph of the lines -/

section

variable {Line : Type} {readLine : IndexMessage → Option Line}
  {unmarshal : Line → Option PiTreeLine}

/-- What a graph holds of the rows before it. -/
structure Graph.Of (graph : Graph) (readLine : IndexMessage → Option Line)
    (unmarshal : Line → Option PiTreeLine)
    (rows : List IndexMessage) : Prop where
  sound : LinesSound readLine unmarshal rows
  nodes : graph.nodes.list = (entries readLine unmarshal rows).map fun entry =>
    (entry.id, entry.parent)
  children : ∀ id, (graph.children.get id).getD [] = childrenIn (entries readLine unmarshal rows) id
  headers : ∀ key, key ∈ graph.headers ↔ ∃ row ∈ rows, isHeader readLine unmarshal row ∧
    transcriptKey row = key
  leaf : graph.leaf = ((entries readLine unmarshal rows).getLast?.map PiTreeLine.id).getD ""

theorem entries_append (rows : List IndexMessage) (row : IndexMessage) :
    entries readLine unmarshal (rows ++ [row]) = entries readLine unmarshal rows ++
      (entryOf readLine unmarshal row).toList := by
  cases own : entryOf readLine unmarshal row <;> simp [entries, own]

theorem put_new {key value : String} {list : List (String × String)}
    (new : key ∉ list.map Prod.fst) :
    Entries.put key value list = list ++ [(key, value)] := by
  induction list with
  | nil => rfl
  | cons entry rest inductionHypothesis =>
    obtain ⟨own, held⟩ := entry
    simp only [List.map_cons, List.mem_cons, not_or] at new
    simp [Entries.put, Ne.symm new.1, inductionHypothesis new.2]

theorem entryOf_some {row : IndexMessage} {entry : PiTreeLine} :
    entryOf readLine unmarshal row = some entry ↔ decode readLine unmarshal row = some entry ∧
      entry.type ≠ "session" := by
  simp [entryOf, Option.filter_eq_some_iff]

theorem linesSound_append {rows : List IndexMessage} {row : IndexMessage} :
    LinesSound readLine unmarshal (rows ++ [row]) ↔
      LinesSound readLine unmarshal rows ∧ ∃ entry, decode readLine unmarshal row = some entry ∧
        (entry.type ≠ "session" → entry.id ≠ "" ∧
        entry.id ∉ (entries readLine unmarshal rows).map PiTreeLine.id) := by
  constructor
  · intro sound
    obtain ⟨entry, own, named⟩ := sound.decoded row (by simp)
    have distinct := sound.distinct
    rw [entries_append, List.map_append] at distinct
    refine ⟨⟨fun other on => sound.decoded other (by simp [on]), (List.nodup_append.mp distinct).1⟩,
      entry, own, ?_⟩
    intro tree
    refine ⟨named tree, fun again => ?_⟩
    rw [entryOf_some.mpr ⟨own, tree⟩] at distinct
    exact (List.nodup_append.mp distinct).2.2 _ again _ (by simp) rfl
  · intro ⟨sound, entry, own, named⟩
    refine ⟨?_, ?_⟩
    · intro other on
      cases List.mem_append.mp on with
      | inl on => exact sound.decoded other on
      | inr on =>
        rw [List.mem_singleton.mp on]
        exact ⟨entry, own, fun tree => (named tree).1⟩
    · rw [entries_append, List.map_append]
      by_cases tree : entry.type = "session"
      · have none : entryOf readLine unmarshal row = none := by
          simp [entryOf, own, tree, Option.filter]
        simpa [none] using sound.distinct
      · rw [entryOf_some.mpr ⟨own, tree⟩]
        refine List.nodup_append.mpr ⟨sound.distinct, by simp, ?_⟩
        intro left on right onRight
        simp only [Option.toList_some, List.map_cons, List.map_nil, List.mem_singleton] at onRight
        rw [onRight]
        exact fun same => (named tree).2 (same ▸ on)

/-- A header leaves the entries as they are. -/
theorem entries_header {rows : List IndexMessage} {row : IndexMessage} {entry : PiTreeLine}
    (own : decode readLine unmarshal row = some entry) (header : entry.type = "session") :
    entries readLine unmarshal (rows ++ [row]) = entries readLine unmarshal rows := by
  have none : entryOf readLine unmarshal row = none := by simp [entryOf, own, header, Option.filter]
  simp [entries_append, none]

theorem Graph.Of.addHeader {graph : Graph} {rows : List IndexMessage} {row : IndexMessage}
    {entry : PiTreeLine}
    (of_ : graph.Of readLine unmarshal rows) (own : decode readLine unmarshal row = some entry)
    (header : entry.type = "session") :
    { graph with headers := transcriptKey row :: graph.headers : Graph }.Of readLine unmarshal
    (rows ++ [row]) := by
  have same := @entries_header Line readLine unmarshal rows row entry own header
  have here : isHeader readLine unmarshal row = true := by simp [isHeader, own, header]
  exact {
    sound := linesSound_append.mpr ⟨of_.sound, entry, own, fun tree => absurd header tree⟩
    nodes := by rw [same]; exact of_.nodes
    children := by rw [same]; exact of_.children
    headers := by
      intro key
      simp only [List.mem_cons, of_.headers, List.mem_append, List.not_mem_nil, or_false]
      constructor
      · intro either
        cases either with
        | inl own => exact ⟨row, Or.inr rfl, here, own.symm⟩
        | inr before =>
          obtain ⟨other, on, known⟩ := before
          exact ⟨other, Or.inl on, known⟩
      · intro ⟨other, on, known⟩
        cases on with
        | inl on => exact Or.inr ⟨other, on, known⟩
        | inr last =>
          subst last
          exact Or.inl known.2.symm
    leaf := by rw [same]; exact of_.leaf }

theorem Graph.Of.addEntry {graph : Graph} {rows : List IndexMessage} {row : IndexMessage}
    {entry : PiTreeLine}
    (of_ : graph.Of readLine unmarshal rows) (own : decode readLine unmarshal row = some entry)
    (tree : entry.type ≠ "session")
    (named : entry.id ≠ "") (new : graph.nodes.get entry.id = none) :
    { graph with
      nodes := graph.nodes.set entry.id entry.parent
      children :=
        graph.children.set entry.parent ((graph.children.get entry.parent).getD [] ++ [entry.id])
      labels := addLabel graph.labels entry
      leaf := entry.id : Graph }.Of readLine unmarshal (rows ++ [row]) := by
  have added :
      entries readLine unmarshal (rows ++ [row]) = entries readLine unmarshal rows ++ [entry] := by
    rw [entries_append, entryOf_some.mpr ⟨own, tree⟩]
    rfl
  have other : isHeader readLine unmarshal row = false := by simp [isHeader, own, tree]
  have fresh : entry.id ∉ graph.nodes.list.map Prod.fst := Entries.find_none.mp new
  exact {
    sound := by
      refine linesSound_append.mpr ⟨of_.sound, entry, own, fun _ => ⟨named, ?_⟩⟩
      rw [of_.nodes] at fresh
      simpa using fresh
    nodes := by
      rw [added, List.map_append, ← of_.nodes]
      exact put_new fresh
    children := by
      intro id
      rw [added, childrenIn, List.filter_append, List.map_append, ← childrenIn, ← of_.children id,
        Entries.get_set]
      by_cases parent : entry.parent = id
      · simp [parent]
      · simp [parent]
    headers := by
      intro key
      rw [of_.headers]
      constructor
      · intro ⟨known, on, holds⟩
        exact ⟨known, List.mem_append_left _ on, holds⟩
      · intro ⟨known, on, holds⟩
        cases List.mem_append.mp on with
        | inl on => exact ⟨known, on, holds⟩
        | inr last =>
          rw [List.mem_singleton.mp last, other] at holds
          exact absurd holds.1 Bool.false_ne_true
    leaf := by simp [added] }

theorem get_nodes {graph : Graph} {rows : List IndexMessage}
    (of_ : graph.Of readLine unmarshal rows) (id : String) :
    graph.nodes.get id = parentIn (entries readLine unmarshal rows) id := by
  rw [Entries.get, of_.nodes, parentIn]
  induction entries readLine unmarshal rows with
  | nil => rfl
  | cons entry rest inductionHypothesis =>
    by_cases same : entry.id = id
    · simp [Entries.find, same]
    · simp only [List.map_cons, Entries.find, same, if_false, List.find?_cons, decide_false]
      exact inductionHypothesis

theorem addRow_of {graph : Graph} {rows : List IndexMessage} {row : IndexMessage}
    (of_ : graph.Of readLine unmarshal rows)
    (clean : graph.malformed = false) :
    (addRow readLine unmarshal graph row).malformed = false ∧
    (addRow readLine unmarshal graph row).Of readLine unmarshal (rows ++ [row]) ∨
      (addRow readLine unmarshal graph row).malformed = true ∧
      ¬LinesSound readLine unmarshal (rows ++ [row]) := by
  cases own : decode readLine unmarshal row with
  | none =>
    refine Or.inr ⟨by simp [addRow, own], fun sound => ?_⟩
    obtain ⟨-, entry, known, -⟩ := linesSound_append.mp sound
    rw [own] at known
    cases known
  | some entry =>
    by_cases header : entry.type = "session"
    · have taken : addRow readLine unmarshal graph row =
          { graph with headers := transcriptKey row :: graph.headers } := by
        simp [addRow, own, header]
      rw [taken]
      exact Or.inl ⟨clean, of_.addHeader own header⟩
    · by_cases unnamed : entry.id = ""
      · refine Or.inr ⟨by simp [addRow, own, header, unnamed], fun sound => ?_⟩
        obtain ⟨-, entry', known, tree⟩ := linesSound_append.mp sound
        rw [own] at known
        obtain rfl := Option.some.inj known
        exact (tree header).1 unnamed
      · cases new : graph.nodes.get entry.id with
        | some parent =>
          refine Or.inr ⟨by simp [addRow, own, header, unnamed, new], fun sound => ?_⟩
          obtain ⟨-, entry', known, tree⟩ := linesSound_append.mp sound
          rw [own] at known
          obtain rfl := Option.some.inj known
          have fresh := (tree header).2
          have held : graph.nodes.get entry.id ≠ none := by simp [new]
          refine held (Entries.find_none.mpr ?_)
          rw [of_.nodes]
          simpa using fresh
        | none =>
          refine Or.inl ⟨by simp [addRow, own, header, unnamed, new, clean], ?_⟩
          have taken := of_.addEntry own header unnamed new
          simpa [addRow, own, header, unnamed, new] using taken

theorem addRow_malformed {graph : Graph} (malformed : graph.malformed = true) (row : IndexMessage) :
    (addRow readLine unmarshal graph row).malformed = true := by
  rw [addRow]
  split
  · rfl
  · split_ifs <;> first | rfl | exact malformed

/-- The pass over the lines finds them sound and takes them all, or marks them malformed. -/
theorem foldl_addRow (rows : List IndexMessage) :
    (rows.foldl (addRow readLine unmarshal) Graph.empty).malformed = false ∧
        (rows.foldl (addRow readLine unmarshal) Graph.empty).Of readLine unmarshal rows ∨
      (rows.foldl (addRow readLine unmarshal) Graph.empty).malformed = true ∧
      ¬LinesSound readLine unmarshal rows := by
  induction rows using List.reverseRecOn with
  | nil =>
    refine Or.inl ⟨rfl, ⟨⟨?_, ?_⟩, rfl, fun _ => rfl, ?_, rfl⟩⟩
    · intro row on
      cases on
    · exact List.nodup_nil
    · intro key
      simp [Graph.empty]
  | append_singleton rows row inductionHypothesis =>
    rw [List.foldl_append, List.foldl_cons, List.foldl_nil]
    cases inductionHypothesis with
    | inl taken => exact addRow_of taken.2 taken.1
    | inr malformed =>
      exact Or.inr ⟨addRow_malformed malformed.1 row, fun sound =>
        malformed.2 (linesSound_append.mp sound).1⟩

end

/-! ## The walk -/

section

variable {nodes : Entries String String}

theorem walk_root (left : Nat) (active : List String) (activeChild : Entries String String) :
    walk nodes left "" active activeChild = some (active, activeChild) := by
  cases left <;> simp [walk]

theorem walk_chain {left : Nat} {id : String} {active : List String}
    {activeChild : Entries String String}
    {result : List String × Entries String String}
    (walked : walk nodes left id active activeChild = some result) :
    ∃ path, Chain nodes.get "" id path ∧ ∀ other, other ∈ result.1 ↔ other ∈ path ∨
      other ∈ active := by
  induction left generalizing id active activeChild with
  | zero =>
    by_cases root : id = ""
    · rw [walk, if_pos root] at walked
      obtain rfl := Option.some.inj walked
      exact ⟨[], root ▸ Chain.root, by simp⟩
    · simp [walk, root] at walked
  | succ left inductionHypothesis =>
    by_cases root : id = ""
    · rw [walk, if_pos root] at walked
      obtain rfl := Option.some.inj walked
      exact ⟨[], root ▸ Chain.root, by simp⟩
    · rw [walk, if_neg root] at walked
      by_cases again : id ∈ active
      · simp [again] at walked
      · cases known : nodes.get id with
        | none => simp [again, known] at walked
        | some parent =>
          simp only [again, if_false, known] at walked
          obtain ⟨path, above, members⟩ := inductionHypothesis walked
          refine ⟨id :: path, Chain.link root known above, fun other => ?_⟩
          simp only [members, List.mem_cons]
          tauto

theorem walk_of_chain {id : String} {path : List String} (chain : Chain nodes.get "" id path)
    {left : Nat} (enough : path.length ≤ left)
    {active : List String} (fresh : ∀ other ∈ path, other ∉ active)
    (activeChild : Entries String String) :
    ∃ result, walk nodes left id active activeChild = some result := by
  have nodup := chain.nodup
  induction chain generalizing left active activeChild with
  | root => exact ⟨(active, activeChild), walk_root ..⟩
  | @link id up path apart known above inductionHypothesis =>
    obtain ⟨new, nodup⟩ := List.nodup_cons.mp nodup
    cases left with
    | zero => simp at enough
    | succ left =>
      have outside : id ∉ active := fresh id List.mem_cons_self
      have later : ∀ other ∈ path, other ∉ id :: active := by
        intro other on
        simp only [List.mem_cons, not_or]
        exact ⟨fun same => new (same ▸ on), fresh other (List.mem_cons_of_mem _ on)⟩
      obtain ⟨result, walked⟩ := inductionHypothesis (Nat.le_of_succ_le_succ enough) later
        (if up ≠ "" then activeChild.set up id else activeChild) nodup
      refine ⟨result, ?_⟩
      rw [walk, if_neg apart]
      simpa only [outside, if_false, known] using walked

/-- The bound on the steps is never what ends the walk of a chain. -/
theorem length_chain_le {id : String} {path : List String} (chain : Chain nodes.get "" id path) :
    path.length ≤ nodes.size := by
  have inside : path ⊆ nodes.keys := by
    intro member on
    obtain ⟨up, known⟩ := chain.known on
    have held : nodes.get member ≠ none := by simp [known]
    exact not_not.mp fun outside => held (Entries.find_none.mpr outside)
  have short := (chain.nodup.subperm inside).length_le
  rwa [Entries.keys, List.length_map] at short

end

/-! ## The rows that are selected -/

section

variable {graph : Graph} {active : List String} {activeChild : Entries String String}

theorem foldl_selectRow_rows (rows : List IndexMessage)
    (start : List IndexMessage × Entries TranscriptRowKey PiBranchMarker) :
    (rows.foldl (selectRow graph active activeChild) start).1 =
      start.1 ++ rows.filter fun row => transcriptKey row ∈ graph.headers ∨
        row.messageUUID ∈ active := by
  induction rows generalizing start with
  | nil => simp
  | cons row rest inductionHypothesis =>
    rw [List.foldl_cons, inductionHypothesis, selectRow]
    by_cases header : transcriptKey row ∈ graph.headers
    · simp [header]
    · by_cases on : row.messageUUID ∈ active
      · simp [header, on]
      · simp [header, on]

theorem selectRow_get_other {key : TranscriptRowKey} (row : IndexMessage)
    (apart : transcriptKey row ≠ key)
    (start : List IndexMessage × Entries TranscriptRowKey PiBranchMarker) :
    (selectRow graph active activeChild start row).2.get key = start.2.get key := by
  simp only [selectRow]
  split_ifs
  · rfl
  · exact Entries.get_set_other _ apart _
  · rfl
  · rfl

theorem foldl_selectRow_get_other {key : TranscriptRowKey} (rows : List IndexMessage)
    (apart : key ∉ rows.map transcriptKey)
    (start : List IndexMessage × Entries TranscriptRowKey PiBranchMarker) :
    (rows.foldl (selectRow graph active activeChild) start).2.get key = start.2.get key := by
  induction rows generalizing start with
  | nil => rfl
  | cons row rest inductionHypothesis =>
    simp only [List.map_cons, List.mem_cons, not_or] at apart
    rw [List.foldl_cons, inductionHypothesis apart.2]
    exact selectRow_get_other row (Ne.symm apart.1) start

/-- The branch point that a row by itself is marked with. -/
def pointOf (graph : Graph) (active : List String) (activeChild : Entries String String)
    (row : IndexMessage) : Option BranchPoint :=
  if transcriptKey row ∈ graph.headers then none
  else if row.messageUUID ∈ active then (marker graph activeChild row.messageUUID).point
  else none

theorem selectRow_get {row : IndexMessage}
    {start : List IndexMessage × Entries TranscriptRowKey PiBranchMarker}
    (fresh : start.2.get (transcriptKey row) = none) :
    ((selectRow graph active activeChild start row).2.get (transcriptKey row)).bind
    PiBranchMarker.point =
      pointOf graph active activeChild row := by
  rw [selectRow, pointOf]
  by_cases header : transcriptKey row ∈ graph.headers
  · simp [header, fresh]
  · by_cases on : row.messageUUID ∈ active
    · simp only [header, on, if_false, if_true]
      split_ifs with marked
      · simp
      · have unmarked := not_not.mp (not_or.mp marked).1
        rw [fresh, unmarked]
        rfl
    · simp [header, on, fresh]

theorem foldl_selectRow_get {rows : List IndexMessage} (distinct : (rows.map transcriptKey).Nodup)
    {start : List IndexMessage × Entries TranscriptRowKey PiBranchMarker}
    (fresh : ∀ row ∈ rows, start.2.get (transcriptKey row) = none)
    {row : IndexMessage} (on : row ∈ rows) :
    ((rows.foldl (selectRow graph active activeChild) start).2.get (transcriptKey row)).bind
    PiBranchMarker.point =
      pointOf graph active activeChild row := by
  induction rows generalizing start with
  | nil => cases on
  | cons first rest inductionHypothesis =>
    obtain ⟨new, distinct⟩ := List.nodup_cons.mp distinct
    rw [List.foldl_cons]
    cases on with
    | head =>
      rw [foldl_selectRow_get_other rest new]
      exact selectRow_get (fresh row List.mem_cons_self)
    | tail _ on =>
      refine inductionHypothesis distinct (fun other inside => ?_) on
      have apart : transcriptKey first ≠ transcriptKey other :=
        fun same => new (same ▸ List.mem_map_of_mem inside)
      rw [selectRow_get_other first apart]
      exact fresh other (List.mem_cons_of_mem _ inside)

end

/-! ## The branch that is resolved -/

/-- The children of an entry that are not on a path, where it is a branch point. -/
def hidden (entries : List PiTreeLine) (path : List String) (id : String) : Option Int :=
  let children := childrenIn entries id
  if 1 < children.length then some (children.countP fun child => child ∉ path) else none

/-- What the resolution of a transcript is to say. -/
structure Resolved {Line : Type} (readLine : IndexMessage → Option Line)
    (unmarshal : Line → Option PiTreeLine)
    (rows : List IndexMessage) (out : Resolution) : Prop where
  branch : out.notice = "" → LinesSound readLine unmarshal rows ∧ ∃ path,
    ActiveBranch readLine unmarshal rows path ∧ path.Nodup ∧
    (out.rows = rows.filter fun row => isHeader readLine unmarshal row ∨
      ∃ entry ∈ entryOf readLine unmarshal row, entry.id ∈ path) ∧
    ∀ row ∈ out.rows, ((out.markers.get (transcriptKey row)).bind PiBranchMarker.point).map
      BranchPoint.hidden =
      (entryOf readLine unmarshal row).bind fun entry =>
        hidden (entries readLine unmarshal rows) path entry.id
  degraded : ¬WellFormed readLine unmarshal rows → out.rows = rows ∧ out.notice ≠ ""

/-- The alternatives to one child of an entry. -/
def alternates (entries : List PiTreeLine) (id : String) : Option Int :=
  let n := (childrenIn entries id).length
  if 1 < n then some ((n : Int) - 1) else none

/-- The index has a row under an id that stands on the path as the row's entry does. -/
structure Indexed (entries : List PiTreeLine) (path : List String) (row : IndexMessage)
    (entry : PiTreeLine) : Prop where
  selected : row.messageUUID ∈ path ↔ entry.id ∈ path
  counted : entry.id ∈ path → alternates entries row.messageUUID =
    if path.head? = some entry.id then (alternates entries entry.id).map
      (· + 1) else alternates entries entry.id

section

variable {Line : Type} {readLine : IndexMessage → Option Line}
  {unmarshal : Line → Option PiTreeLine} {rows : List IndexMessage}
  {path : List String}

theorem mem_entries {entry : PiTreeLine} :
    entry ∈ entries readLine unmarshal rows ↔ ∃ row ∈ rows,
      entryOf readLine unmarshal row = some entry := List.mem_filterMap

theorem parentIn_of_mem {entries : List PiTreeLine} (distinct : (entries.map PiTreeLine.id).Nodup)
    {entry : PiTreeLine}
    (on : entry ∈ entries) : parentIn entries entry.id = some entry.parent := by
  induction entries with
  | nil => cases on
  | cons first rest inductionHypothesis =>
    obtain ⟨new, distinct⟩ := List.nodup_cons.mp distinct
    cases on with
    | head => simp [parentIn]
    | tail _ on =>
      have apart : first.id ≠ entry.id := fun same => new (same ▸ List.mem_map_of_mem on)
      have later := inductionHypothesis distinct on
      rw [parentIn] at later ⊢
      rwa [List.find?_cons_of_neg (by simp [apart])]

theorem mem_childrenIn {entries : List PiTreeLine} (distinct : (entries.map PiTreeLine.id).Nodup)
    {id child : String} :
    child ∈ childrenIn entries id ↔ parentIn entries child = some id := by
  constructor
  · intro on
    simp only [childrenIn, List.mem_map, List.mem_filter, decide_eq_true_eq] at on
    obtain ⟨entry, ⟨inside, parent⟩, rfl⟩ := on
    rw [parentIn_of_mem distinct inside, parent]
  · intro known
    obtain ⟨entry, found, parent⟩ := Option.map_eq_some_iff.mp known
    have own : entry.id = child := by simpa using List.find?_some found
    simp only [childrenIn, List.mem_map, List.mem_filter, decide_eq_true_eq]
    exact ⟨entry, ⟨List.mem_of_find?_eq_some found, parent⟩, own⟩

theorem nodup_childrenIn {entries : List PiTreeLine} (distinct : (entries.map PiTreeLine.id).Nodup)
    (id : String) :
    (childrenIn entries id).Nodup := distinct.sublist (List.filter_sublist.map _)

/-- On a path the active child of an entry is one, and the last entry has none. -/
theorem hidden_of_mem {entries : List PiTreeLine} (distinct : (entries.map PiTreeLine.id).Nodup)
    {last id : String}
    (chain : Chain (parentIn entries) "" last path) (on : id ∈ path) :
    hidden entries path id =
      if path.head? = some id then (alternates entries id).map (· + 1)
      else alternates entries id := by
  have whole :=
    @List.length_eq_countP_add_countP _ (fun child => decide (child ∈ path)) (childrenIn entries id)
  have head : path.head? = some last := by
    cases chain with
    | root => cases on
    | link => rfl
  have active : (childrenIn entries id).countP (fun child => decide (child ∈ path)) =
      if last = id then 0 else 1 := by
    split_ifs with first
    · refine List.countP_eq_zero.mpr (fun child inside => ?_)
      intro member
      exact chain.first_has_no_child (of_decide_eq_true member)
        (first ▸ (mem_childrenIn distinct).mp inside)
    · obtain ⟨child, inside, parent⟩ := chain.exists_child on (Ne.symm first)
      have only : (childrenIn entries id).countP (fun other => decide (other ∈ path)) =
          (childrenIn entries id).count child := by
        refine List.countP_congr (fun other of_ => ?_)
        simp only [decide_eq_true_eq, beq_iff_eq]
        constructor
        · intro member
          exact chain.child_unique member inside ((mem_childrenIn distinct).mp of_) parent
        · intro same
          exact same ▸ inside
      rw [only]
      exact List.count_eq_one_of_mem (nodup_childrenIn distinct id)
        ((mem_childrenIn distinct).mpr parent)
  rw [active] at whole
  simp only [decide_eq_true_eq] at whole
  simp only [hidden, alternates, head, Option.some.injEq]
  by_cases several : 1 < (childrenIn entries id).length
  · simp only [several, if_true]
    split_ifs at whole ⊢ with first
    · simp only [Option.map_some, Option.some.injEq]
      omega
    · simp only [Option.some.injEq]
      omega
  · simp [several]

/-! ### A transcript without a branch -/

theorem resolve_degraded (none_ : ¬WellFormed readLine unmarshal rows) :
    (resolvePiActiveBranch readLine unmarshal rows).rows = rows ∧
    (resolvePiActiveBranch readLine unmarshal rows).notice ≠ "" := by
  simp only [resolvePiActiveBranch]
  split_ifs with empty unavailable
  · exact ⟨rfl, by simp⟩
  · exact ⟨rfl, by simp⟩
  · split
    · next active activeChild walked clean =>
      refine absurd ?_ none_
      cases @foldl_addRow _ readLine unmarshal rows with
      | inr malformed =>
        rw [malformed.1] at clean
        cases clean
      | inl taken =>
        have of_ := taken.2
        obtain ⟨path, chain, -⟩ := walk_chain walked
        rw [show (Entries.get _) = _ from funext fun id => get_nodes of_ id] at chain
        have leaf := of_.leaf
        cases last : (entries readLine unmarshal rows).getLast? with
        | none =>
          rw [last] at leaf
          exact absurd leaf unavailable
        | some entry =>
          rw [last, Option.map_some, Option.getD_some] at leaf
          rw [leaf] at chain
          exact ⟨of_.sound, path, entry, last, chain⟩
    · exact ⟨rfl, by simp⟩

/-! ### A transcript with one -/

theorem resolve_branch (sound : LinesSound readLine unmarshal rows)
    (branch : ActiveBranch readLine unmarshal rows path) :
    ∃ (graph : Graph) (active : List String) (activeChild : Entries String String),
      graph.Of readLine unmarshal rows ∧ (∀ id, id ∈ active ↔ id ∈ path) ∧
      resolvePiActiveBranch readLine unmarshal rows =
        ⟨(rows.foldl (selectRow graph active activeChild) ([], Entries.empty)).1,
          (rows.foldl (selectRow graph active activeChild) ([], Entries.empty)).2, ""⟩ := by
  obtain ⟨last, lastOf, chain⟩ := branch
  have inside := List.mem_of_getLast? lastOf
  obtain ⟨row, on, own⟩ := mem_entries.mp inside
  obtain ⟨entry, decoded, named⟩ := sound.decoded row on
  obtain ⟨decoded', tree⟩ := entryOf_some.mp own
  rw [decoded] at decoded'
  obtain rfl := Option.some.inj decoded'
  have some_ : rows ≠ [] := List.ne_nil_of_mem on
  cases @foldl_addRow _ readLine unmarshal rows with
  | inr malformed => exact absurd sound malformed.2
  | inl taken =>
    obtain ⟨clean, of_⟩ := taken
    have leaf : (rows.foldl (addRow readLine unmarshal) Graph.empty).leaf = entry.id := by
      rw [of_.leaf, lastOf]
      rfl
    have same : (rows.foldl (addRow readLine unmarshal) Graph.empty).nodes.get =
        parentIn (entries readLine unmarshal rows) :=
      funext fun id => get_nodes of_ id
    rw [← same] at chain
    obtain ⟨result, walked⟩ := walk_of_chain chain (Nat.le_succ_of_le (length_chain_le chain))
      (fun other _ => (List.not_mem_nil : other ∉ [])) Entries.empty
    obtain ⟨path', chain', members⟩ := walk_chain walked
    rw [chain'.unique chain] at members
    refine ⟨rows.foldl (addRow readLine unmarshal) Graph.empty, result.1, result.2, of_,
      fun id => by simp [members], ?_⟩
    simp only [resolvePiActiveBranch, some_, if_false, leaf, named tree, walked, clean]

theorem isHeader_eq_false {row : IndexMessage} {entry : PiTreeLine}
    (own : entryOf readLine unmarshal row = some entry) :
    isHeader readLine unmarshal row = false := by
  obtain ⟨decoded, tree⟩ := entryOf_some.mp own
  simp [isHeader, decoded, tree]

/-- Of sound lines each is a header or an entry. -/
theorem header_or_entry (sound : LinesSound readLine unmarshal rows) {row : IndexMessage}
    (on : row ∈ rows) :
    isHeader readLine unmarshal row = true ∧ entryOf readLine unmarshal row = none ∨
      isHeader readLine unmarshal row = false ∧ ∃ entry,
        entryOf readLine unmarshal row = some entry := by
  obtain ⟨entry, decoded, -⟩ := sound.decoded row on
  by_cases header : entry.type = "session"
  · exact Or.inl ⟨by simp [isHeader, decoded, header], by simp [entryOf, decoded, header,
      Option.filter]⟩
  · exact Or.inr ⟨by simp [isHeader, decoded, header], entry, entryOf_some.mpr ⟨decoded, header⟩⟩

theorem mem_headers {graph : Graph} (of_ : graph.Of readLine unmarshal rows)
    (distinct : (rows.map transcriptKey).Nodup)
    {row : IndexMessage} (on : row ∈ rows) : transcriptKey row ∈ graph.headers ↔
    isHeader readLine unmarshal row = true := by
  rw [of_.headers]
  constructor
  · intro ⟨other, inside, header, same⟩
    rwa [← List.inj_on_of_nodup_map distinct inside on same]
  · intro header
    exact ⟨row, on, header, rfl⟩

theorem point_marker {graph : Graph} (of_ : graph.Of readLine unmarshal rows)
    (activeChild : Entries String String) (id : String) :
    (marker graph activeChild id).point.map BranchPoint.hidden =
    alternates (entries readLine unmarshal rows) id := by
  simp only [marker, alternates, of_.children id]
  by_cases several : 1 < (childrenIn (entries readLine unmarshal rows) id).length
  · simp [several]
  · simp [several]

/-- A transcript with a branch is resolved as it should be where the index has its rows under ids
that stand as they do. -/
theorem resolved_iff_of_branch (distinct : (rows.map transcriptKey).Nodup)
    (sound : LinesSound readLine unmarshal rows)
    (branch : ActiveBranch readLine unmarshal rows path) :
    Resolved readLine unmarshal rows (resolvePiActiveBranch readLine unmarshal rows) ↔
      ∀ row ∈ rows, ∀ entry, entryOf readLine unmarshal row = some entry →
        Indexed (entries readLine unmarshal rows) path row entry := by
  obtain ⟨graph, active, activeChild, of_, members, resolved⟩ := resolve_branch sound branch
  obtain ⟨last, lastOf, chain⟩ := branch
  have selected := @foldl_selectRow_rows graph active activeChild rows ([], Entries.empty)
  rw [List.nil_append] at selected
  -- Each entry has its own key, so its marker is what its own row gave.
  have marked : ∀ row ∈ rows,
      (((rows.foldl (selectRow graph active activeChild) ([], Entries.empty)).2.get
        (transcriptKey row)).bind
        PiBranchMarker.point).map BranchPoint.hidden =
        if isHeader readLine unmarshal row then none
        else if row.messageUUID ∈ path then alternates
            (entries readLine unmarshal rows) row.messageUUID else none := by
    intro row on
    rw [foldl_selectRow_get distinct (fun _ _ => rfl) on, pointOf]
    simp only [mem_headers of_ distinct on, members]
    split_ifs
    · rfl
    · exact point_marker of_ activeChild _
    · rfl
  rw [resolved]
  constructor
  · intro holds row on entry own
    obtain ⟨-, path', ⟨last', lastOf', chain'⟩, -, rows_, points⟩ := holds.branch rfl
    rw [lastOf] at lastOf'
    obtain rfl := Option.some.inj lastOf'
    -- There is one path up from the leaf, so the one resolved is the one given.
    obtain rfl := chain.unique chain'
    have other := isHeader_eq_false own
    have selected_ : row.messageUUID ∈ path ↔ entry.id ∈ path := by
      have both :
        row ∈ (rows.filter fun row => transcriptKey row ∈ graph.headers ∨
        row.messageUUID ∈ active) ↔
          row ∈ rows.filter fun row => isHeader readLine unmarshal row ∨
              ∃ entry ∈ entryOf readLine unmarshal row, entry.id ∈ path := by
        rw [← selected, ← rows_]
      simpa [on, mem_headers of_ distinct on, members, other, own] using both
    refine ⟨selected_, fun inside => ?_⟩
    have shown : row ∈ (rows.foldl (selectRow graph active activeChild) ([], Entries.empty)).1 := by
      rw [selected]
      simp [on, members, selected_, inside]
    have point := points row shown
    simp only [marked row on, other, own, selected_, inside, Option.bind_some, if_true,
      Bool.false_eq_true, if_false] at point
    rw [point]
    exact hidden_of_mem sound.distinct chain inside
  · intro indexed
    refine ⟨fun _ => ⟨sound, path, ⟨last, lastOf, chain⟩, chain.nodup, ?_, ?_⟩, fun broken =>
      absurd ⟨sound, path, last, lastOf, chain⟩ broken⟩
    · dsimp only
      rw [selected]
      refine List.filter_congr (fun row on => ?_)
      rw [decide_eq_decide, mem_headers of_ distinct on, members]
      cases header_or_entry sound on with
      | inl header => simp [header.1]
      | inr tree =>
        obtain ⟨other, entry, own⟩ := tree
        simp [other, own, (indexed row on entry own).selected]
    · intro row shown
      dsimp only at shown ⊢
      rw [selected] at shown
      obtain ⟨on, shown⟩ := List.mem_filter.mp shown
      rw [marked row on]
      cases header_or_entry sound on with
      | inl header => simp [header.1, header.2]
      | inr tree =>
        obtain ⟨other, entry, own⟩ := tree
        have index := indexed row on entry own
        simp only [decide_eq_true_eq, mem_headers of_ distinct on, members, other,
          Bool.false_eq_true, false_or] at shown
        have inside := index.selected.mp shown
        simp only [other, own, shown, Bool.false_eq_true, if_false, if_true, Option.bind_some]
        rw [index.counted inside, hidden_of_mem sound.distinct chain inside]

/-- Where every row stands in the index under the id of its line, only children of the last entry
are miscounted. -/
theorem indexed_iff_of_same (sound : LinesSound readLine unmarshal rows) {last : PiTreeLine}
    (lastOf : (entries readLine unmarshal rows).getLast? = some last)
    (chain : Chain (parentIn (entries readLine unmarshal rows)) "" last.id path)
    (same : ∀ row ∈ rows, ∀ entry, entryOf readLine unmarshal row = some entry →
    row.messageUUID = entry.id) :
    (∀ row ∈ rows, ∀ entry, entryOf readLine unmarshal row = some entry →
    Indexed (entries readLine unmarshal rows) path row entry) ↔
      (childrenIn (entries readLine unmarshal rows) last.id).length ≤ 1 := by
  obtain ⟨row, on, own⟩ := mem_entries.mp (List.mem_of_getLast? lastOf)
  obtain ⟨entry, decoded, named⟩ := sound.decoded row on
  obtain ⟨decoded', tree⟩ := entryOf_some.mp own
  rw [decoded] at decoded'
  obtain rfl := Option.some.inj decoded'
  have head : path.head? = some entry.id ∧ entry.id ∈ path := by
    obtain ⟨rest, rfl⟩ := chain.eq_cons (named tree)
    exact ⟨rfl, List.mem_cons_self⟩
  constructor
  · intro indexed
    have counted := (indexed row on entry own).counted head.2
    rw [same row on entry own, head.1, if_pos rfl, alternates] at counted
    by_contra several
    rw [if_pos (by omega), Option.map_some, Option.some.injEq] at counted
    omega
  · intro single row on other own
    have stands := same row on other own
    refine ⟨by rw [stands], fun inside => ?_⟩
    rw [stands]
    split_ifs with first
    · rw [head.1, Option.some.injEq] at first
      have few : ¬1 < (childrenIn (entries readLine unmarshal rows) other.id).length := by
        rw [← first]
        omega
      simp [alternates, few]
    · rfl

/-- The resolution is right exactly where the transcript has no branch or the index has every entry
under
an id that stands on the branch as the entry does, the last one with no children to count. -/
theorem resolvePiActiveBranch_resolved (distinct : (rows.map transcriptKey).Nodup) :
    (Resolved readLine unmarshal rows (resolvePiActiveBranch readLine unmarshal rows) ↔
      (LinesSound readLine unmarshal rows → ∀ path, ActiveBranch readLine unmarshal rows path →
        ∀ row ∈ rows, ∀ entry, entryOf readLine unmarshal row = some entry →
          Indexed (entries readLine unmarshal rows) path row entry)) ∧
      ((∀ row ∈ rows, ∀ entry, entryOf readLine unmarshal row = some entry →
      row.messageUUID = entry.id) →
        (Resolved readLine unmarshal rows (resolvePiActiveBranch readLine unmarshal rows) ↔
          (WellFormed readLine unmarshal rows →
          ∀ last, (entries readLine unmarshal rows).getLast? = some last →
            (childrenIn (entries readLine unmarshal rows) last.id).length ≤ 1))) := by
  have degraded : ¬WellFormed readLine unmarshal rows →
      Resolved readLine unmarshal rows (resolvePiActiveBranch readLine unmarshal rows) :=
          fun broken =>
    ⟨fun silent => absurd silent (resolve_degraded broken).2, fun _ => resolve_degraded broken⟩
  constructor
  · constructor
    · intro resolved sound path branch
      exact (resolved_iff_of_branch distinct sound branch).mp resolved
    · intro indexed
      by_cases formed : WellFormed readLine unmarshal rows
      · obtain ⟨sound, path, branch⟩ := formed
        exact (resolved_iff_of_branch distinct sound branch).mpr (indexed sound path branch)
      · exact degraded formed
  · intro same
    constructor
    · intro resolved ⟨sound, path, branch⟩ last lastOf
      have indexed := (resolved_iff_of_branch distinct sound branch).mp resolved
      obtain ⟨last', lastOf', chain⟩ := branch
      rw [lastOf] at lastOf'
      obtain rfl := Option.some.inj lastOf'
      exact (indexed_iff_of_same sound lastOf chain same).mp indexed
    · intro single
      by_cases formed : WellFormed readLine unmarshal rows
      · obtain ⟨sound, path, last, lastOf, chain⟩ := formed
        have few := single ⟨sound, path, last, lastOf, chain⟩ last lastOf
        exact (resolved_iff_of_branch distinct sound ⟨last, lastOf, chain⟩).mpr
          ((indexed_iff_of_same sound lastOf chain same).mpr few)
      · exact degraded formed

end

/-- A mirror that has the lines of some rows. -/
def mirrored (lines : List (IndexMessage × PiTreeLine)) (row : IndexMessage) : Option PiTreeLine :=
  (lines.find? fun line => line.1 = row).map Prod.snd

/-- A header and an entry with two children, the second of which is the last entry. -/
def branched : List (IndexMessage × PiTreeLine) :=
  [(⟨"s", "f", 0, "session", "", "unknown", none, 0, 0, 0, 40, false⟩,
    ⟨"session", "p", none, "", none⟩),
    (⟨"s", "f", 0, "message", "a", "user", none, 0, 1, 40, 80, false⟩,
      ⟨"message", "a", none, "", none⟩),
    (⟨"s", "f", 0, "message", "b", "assistant", none, 0, 2, 80, 120, false⟩,
      ⟨"message", "b", some "a", "", none⟩),
    (⟨"s", "f", 0, "message", "c", "assistant", none, 0, 3, 120, 160, false⟩,
      ⟨"message", "c", some "a", "", none⟩)]

theorem resolvePiActiveBranch_resolved_branched :
    ((branched.map Prod.fst).map transcriptKey).Nodup ∧
      Resolved (mirrored branched) some (branched.map Prod.fst)
        (resolvePiActiveBranch (mirrored branched) some (branched.map Prod.fst)) := by
  have distinct : ((branched.map Prod.fst).map transcriptKey).Nodup := by decide
  have same : ∀ row ∈ branched.map Prod.fst, ∀ entry,
      entryOf (mirrored branched) some row = some entry → row.messageUUID = entry.id := by
    decide
  refine ⟨distinct, ((resolvePiActiveBranch_resolved distinct).2 same).mpr ?_⟩
  intro _ last lastOf
  obtain rfl : last = ⟨"message", "c", some "a", "", none⟩ := (Option.some.inj lastOf).symm
  decide

/-- A transcript whose last entry comes after the two that name it as their parent. -/
def lateParent : List (IndexMessage × PiTreeLine) :=
  [(⟨"s", "f", 0, "message", "b", "user", none, 0, 0, 0, 50, false⟩,
    ⟨"message", "b", some "l", "", none⟩),
    (⟨"s", "f", 0, "message", "c", "user", none, 0, 1, 50, 100, false⟩,
      ⟨"message", "c", some "l", "", none⟩),
    (⟨"s", "f", 0, "message", "l", "user", none, 0, 2, 100, 150, false⟩,
      ⟨"message", "l", none, "", none⟩)]

theorem lateParent_sound : LinesSound (mirrored lateParent) some (lateParent.map Prod.fst) := by
  refine ⟨?_, by decide⟩
  intro row on
  simp only [lateParent, List.map_cons, List.map_nil, List.mem_cons, List.not_mem_nil,
    or_false] at on
  obtain rfl | rfl | rfl := on
  · exact ⟨_, rfl, by decide⟩
  · exact ⟨_, rfl, by decide⟩
  · exact ⟨_, rfl, by decide⟩

/-- Both children of the last entry are hidden and one of them is counted. -/
theorem lateParent_miscounted :
    sortPiAppend (lateParent.map Prod.fst) = lateParent.map Prod.fst ∧
      ((lateParent.map Prod.fst).map transcriptKey).Nodup ∧
      (∀ line ∈ lateParent, mirrored lateParent line.1 = some line.2 ∧
      line.1.messageUUID = line.2.id) ∧
      ¬Resolved (mirrored lateParent) some (lateParent.map Prod.fst)
        (resolvePiActiveBranch (mirrored lateParent) some (lateParent.map Prod.fst)) := by
  have distinct : ((lateParent.map Prod.fst).map transcriptKey).Nodup := by decide
  refine ⟨List.mergeSort_of_pairwise (by decide), distinct, by decide, fun resolved => ?_⟩
  have chain :
      Chain (parentIn (entries (mirrored lateParent) some (lateParent.map Prod.fst))) "" "l"
      ["l"] :=
    Chain.link (by decide) (by decide : _ = some "") Chain.root
  have lastOf : (entries (mirrored lateParent) some (lateParent.map Prod.fst)).getLast? =
      some ⟨"message", "l", none, "", none⟩ := by
    decide
  have indexed := (resolved_iff_of_branch distinct lateParent_sound ⟨_, lastOf, chain⟩).mp resolved
  have few := (indexed_iff_of_same lateParent_sound lastOf chain (by decide)).mp indexed
  exact absurd few (by decide)

end AiConfig.Sesh.Surface.Branch
