import AiConfig.Herder.Web.Page
import AiConfig.Lib.Collections
import AiConfig.Lib.Json
import Mathlib.Data.Rat.Defs
import Mathlib.Algebra.Order.Ring.Rat
import Mathlib.Data.List.Sort

/-! # The spaces store

Transcription of the records, `live`, `reconcile`, `reorder` and `merge` of `spacesStore.ts`.
A record is a row under its id; the map is listed in insertion order.  Orders are rational
numbers, times and versions whole ones; what is added to a version is rounded to a double. -/

namespace AiConfig.Herder.SpacesStore

open AiConfig.Lib

structure Space where
  name : String
  order : ℚ
  created : Int
  deriving DecidableEq

abbrev StoredSpaceRecord := Row Space

/-- What `recoverRecord` finds of an id in the storage; the storage may throw. -/
inductive Found where
  | throws
  | nothing
  | stored (record : StoredSpaceRecord)

structure Store where
  records : List StoredSpaceRecord
  dirty : List String
  /-- `null` once it has failed. -/
  storage : Option (String → Found)

/-- By the order, then the id. -/
def before (collation : Collation) (left right : StoredSpaceRecord) : Bool :=
  left.value.order < right.value.order ||
    (left.value.order = right.value.order && collation.le left.key right.key)

def live (collation : Collation) (records : List StoredSpaceRecord) : List StoredSpaceRecord :=
  (records.filter fun record => !record.deleted).mergeSort (before collation)

def newer (left right : StoredSpaceRecord) : StoredSpaceRecord :=
  if 0 ≤ left.compare right then left else right

def Store.degrade (store : Store) : Store := { store with storage := none, dirty := [] }

def Store.reconcile (store : Store) (id : String) : Store :=
  match store.storage with
  | none => store
  | some read =>
    match read id with
    -- A storage that throws is given up.
    | .throws => store.degrade
    | .nothing => store
    | .stored persisted =>
      match firstOf store.records id with
      | none => { store with records := putRow store.records persisted }
      | some memory => { store with records := putRow store.records (newer memory persisted) }

def Store.putBatch (store : Store) (values : List StoredSpaceRecord) : Store :=
  { store with
    records := values.foldl putRow store.records
    dirty := (values.map Row.key).foldl addKey store.dirty }

/-- The list with the record at `source` moved to `destination`. -/
def move (ordered : List StoredSpaceRecord) (source destination : Nat) : List StoredSpaceRecord :=
  (ordered.eraseIdx source).insertIdx destination
    (ordered.getD source ⟨"", ⟨"", 0, 0⟩, 0, "", false⟩)

/-- The records as they are written, in their new order. -/
def written (ordered : List StoredSpaceRecord) (updated : Int) (writeID : String) :
    List StoredSpaceRecord :=
  ordered.zipIdx.map fun (space, order) =>
    { space with value := { space.value with order := order }, updated, writeID }

/-- `updated + 1`, of doubles. -/
def successor (updated : Int) : Int := wholeDouble (updated + 1)

/-- The loop that `reorder` starts with. -/
def Store.reconcileLive (collation : Collation) (store : Store) : Store :=
  (live collation store.records).foldl (fun store space => store.reconcile space.key) store

/-- The store after `reorder` and the batch it writes; a space that is not open and a space that
stays where it is write none.  The index is truncated, and may be no number. -/
def Store.reorder (collation : Collation) (store : Store) (id : String) (targetIndex : Option Int)
    (now : Int)
    (writeID : String) : Store × Option (List StoredSpaceRecord) :=
  let store := store.reconcileLive collation
  let ordered := live collation store.records
  match ordered.findIdx? fun space => space.key = id with
  | none => (store, none)
  | some sourceIndex =>
    let destination :=
      targetIndex.map fun index => (max 0 (min index ((ordered.length : Int) - 1))).toNat
    if destination = some sourceIndex then (store, none)
    else
      -- `splice` takes an index that is no number for 0
      let ordered := move ordered sourceIndex (destination.getD 0)
      let updated := ordered.foldl (fun updated space => max updated (successor space.updated)) now
      let batch := written ordered updated writeID
      (store.putBatch batch, some batch)

/-- `tombstoneRetentionMs`. -/
def expired (retention now : Int) (record : StoredSpaceRecord) : Bool :=
  record.deleted && decide (retention < now - record.updated)

def Store.drop (store : Store) (id : String) : Store :=
  { store with
    records := store.records.filter fun record => record.key ≠ id
    dirty := store.dirty.filter (· ≠ id) }

def Store.mergeOne (retention now : Int) (store : Store) (incoming : StoredSpaceRecord) : Store :=
  let current := firstOf store.records incoming.key
  if current.any fun current => incoming.compare current ≤ 0 then store
  else if expired retention now incoming then
    (if current.isSome then store.drop incoming.key else store)
  else
    { store with records := putRow store.records incoming, dirty := addKey store.dirty incoming.key }

def Store.merge (retention now : Int) (store : Store) (values : List StoredSpaceRecord) : Store :=
  values.foldl (Store.mergeOne retention now) store

/-! ## The sorted list -/

theorem before_total (collation : Collation) (left right : StoredSpaceRecord) :
    (before collation left right || before collation right left) = true := by
  obtain below | same | above := lt_trichotomy left.value.order right.value.order
  · simp [before, below]
  · simpa [before, same] using collation.total left.key right.key
  · simp [before, above]

theorem before_trans (collation : Collation) (left middle right : StoredSpaceRecord)
    (first : before collation left middle = true) (second : before collation middle right = true) :
    before collation left right = true := by
  simp only [before, Bool.or_eq_true, Bool.and_eq_true, decide_eq_true_eq] at first second ⊢
  obtain below | ⟨same, first⟩ := first
  · obtain below' | ⟨same', -⟩ := second
    · exact Or.inl (below.trans below')
    · exact Or.inl (same' ▸ below)
  · obtain below' | ⟨same', second⟩ := second
    · exact Or.inl (same ▸ below')
    · exact Or.inr ⟨same.trans same', collation.trans _ _ _ first second⟩

theorem before_order {collation : Collation} {left right : StoredSpaceRecord}
    (first : before collation left right = true) :
    left.value.order ≤ right.value.order := by
  simp only [before, Bool.or_eq_true, Bool.and_eq_true, decide_eq_true_eq] at first
  obtain below | ⟨same, -⟩ := first
  · exact below.le
  · exact same.le

theorem live_perm (collation : Collation) (records : List StoredSpaceRecord) :
    (live collation records).Perm (records.filter fun record => !record.deleted) :=
  List.mergeSort_perm _ _

theorem mem_live {collation : Collation} {records : List StoredSpaceRecord}
    {record : StoredSpaceRecord} :
    record ∈ live collation records ↔ record ∈ records ∧ record.deleted = false := by
  rw [(live_perm collation records).mem_iff, List.mem_filter]
  simp

/-- Records of increasing orders are the live list of any records that hold just them. -/
theorem live_eq {collation : Collation} {records listed : List StoredSpaceRecord}
    (nodup : records.Nodup)
    (orders : listed.Pairwise fun left right => left.value.order < right.value.order)
    (same : ∀ record, record ∈ records ∧ record.deleted = false ↔ record ∈ listed) :
    live collation records = listed := by
  have distinct : listed.Nodup := orders.imp fun below same => absurd (same ▸ below) (lt_irrefl _)
  have perm : (live collation records).Perm listed := by
    refine (List.perm_ext_iff_of_nodup ?_ distinct).mpr fun record => ?_
    · exact (live_perm collation records).nodup_iff.mpr (nodup.filter _)
    · rw [mem_live, same]
  have sorted :
      (live collation records).Pairwise fun left right => left.value.order ≤ right.value.order :=
    (List.pairwise_mergeSort (before_trans collation) (before_total collation) _).imp before_order
  have orders_nodup : (listed.map fun record => record.value.order).Nodup :=
    List.pairwise_map.mpr (orders.imp ne_of_lt)
  refine List.Perm.eq_of_pairwise ?_ sorted (orders.imp le_of_lt) perm
  intro left right inside inside' below above
  exact List.inj_on_of_nodup_map orders_nodup (perm.mem_iff.mp inside) inside'
    (below.antisymm above)

end AiConfig.Herder.SpacesStore
