import AiConfig.Lib.UnionFind
import AiConfig.Sesh.Index.Append

/-! # Rebuilding the index

Transcription of `Reindex` and of the whole-table unification it ends with.  The groups
are disjoint, so the order in which the source walks its map of groups makes no
difference. -/

namespace AiConfig.Sesh

open AiConfig.Lib AiConfig.Sesh.Wire

/-- The keys of a file's rows, as a set. -/
def overlapPairs (gen : GenKey) (rows : List Row) : List String :=
  ((rows.filter fun row => row.keyed && row.gen = gen).map (·.seenKey)).dedup

def overlapCount (a b : List String) : Nat := (a.filter (· ∈ b)).length

/-- The pairs of `files` that are unified. -/
def linked (rows : List Row) (a b : FileSummary) : Bool :=
  a.gen.identity.tool = b.gen.identity.tool &&
    ((a.logicalID ≠ "" && a.logicalID = b.logicalID) ||
      2 ≤ overlapCount (overlapPairs a.gen rows) (overlapPairs b.gen rows))

/-- The loop over all pairs of files; `fuel` bounds the paths to a root. -/
def unionAll (fuel : Nat) (rows : List Row) : List FileSummary → (GenKey → GenKey) → GenKey → GenKey
  | [], parent => parent
  | f :: rest, parent =>
    unionAll fuel rows rest
      (rest.foldl (fun parent other =>
        if linked rows f other then UnionFind.union fuel parent f.gen other.gen else parent)
        parent)

def fileGroups (rows : List Row) (files : List FileSummary) : List (List FileSummary) :=
  let parent := unionAll files.length rows files id
  let root (f : FileSummary) := (UnionFind.find files.length parent f.gen).1
  ((files.map root).dedup).map fun r => files.filter fun f => root f = r

def relabelGroup (rows : List Row) (group : List FileSummary) : List Row :=
  match sortFiles group with
  | first :: second :: rest => relabelFiles (canonicalID first) (first :: second :: rest) rows
  | _ => rows

/-- The key of `updateFileOrdinals`. -/
def sessionText (f : FileSummary) : String := f.gen.identity.tool.text ++ "\x00" ++ f.logicalID

def updateFileOrdinals (store : Store) (rows : List Row) : List Row :=
  let files := fileSummaries store rows
  ((files.map sessionText).dedup).foldl
    (fun rows key => updateFileOrdinalsForFiles
      (sortFiles (files.filter fun f => sessionText f = key)) rows) rows

def unifyLogicalSessions (store : Store) (rows : List Row) : List Row :=
  let grouped := (fileGroups rows (fileSummaries store rows)).foldl relabelGroup rows
  updateFileOrdinals store (dedupeAll (updateFileOrdinals store grouped))

/-! ## `Reindex` -/

def fileRowBefore (a b : FileState) : Prop :=
  groupBefore ⟨a.identity, a.generation⟩ ⟨b.identity, b.generation⟩

instance : DecidableRel fileRowBefore := fun _ _ => inferInstanceAs (Decidable (groupBefore _ _))

/-- One event a generation, up to its high-water. -/
def Store.rebuildEvents (store : Store) : List AppendEvent :=
  (store.files.insertionSort fileRowBefore).map fun row =>
    ⟨row.identity, row.generation, 0, row.highWater⟩

def Index.cleared (idx : Index) : Index :=
  { idx with messages := [], completeOffset := fun _ => none, rebuilt := [] }

/-- The swap of the ledger, after the unification. -/
def Index.rebuiltFrom (store : Store) (idx : Index) : Index :=
  { idx with messages := unifyLogicalSessions store idx.messages, ledger := idx.rebuilt, rebuilt := [] }

end AiConfig.Sesh
