import AiConfig.Herder.Spaces.Store
import AiConfig.Herder.Web.NoEditLost
import Mathlib.Data.List.GetD
import Mathlib.Data.Fintype.EquivFin
import Mathlib.Data.Fintype.Lattice

/-! # Concurrent reorders

Reorders of one list merge to the list of the one with the greatest version: a batch stamps
every space with a version above all that were held, as long as a double holds the next one. -/

namespace AiConfig.Herder.SpacesStore

open AiConfig.Lib

/-! ## What one call writes -/

/-- Nothing newer is stored than is held of a live space. -/
def Store.Settled (store : Store) : Prop :=
  ∀ read id persisted memory, store.storage = some read → read id = .stored persisted →
    firstOf store.records id = some memory → memory.deleted = false →
      persisted.version ≤ memory.version

theorem putRow_self {V : Type} {rows : List (Row V)} {row : Row V}
    (held : firstOf rows row.key = some row) :
    putRow rows row = rows := by
  induction rows with
  | nil => cases held
  | cons head rest inductionHypothesis =>
    rw [firstOf_cons] at held
    rw [putRow]
    split at held
    · next same =>
      cases held
      rw [if_pos same]
    · next apart => rw [if_neg apart, inductionHypothesis held]

theorem reconcile_keeps {store : Store} (settled : store.Settled) {memory : StoredSpaceRecord}
    (held : firstOf store.records memory.key = some memory) (open_ : memory.deleted = false) :
    (store.reconcile memory.key).records = store.records ∧
    (store.reconcile memory.key).Settled := by
  rw [Store.reconcile]
  split
  · exact ⟨rfl, settled⟩
  · next read stored =>
    split
    · exact ⟨rfl, fun _ _ _ _ absent => nomatch absent⟩
    · exact ⟨rfl, settled⟩
    · next persisted found =>
      have older := settled read _ persisted memory stored found held open_
      have same : putRow store.records (newer memory persisted) = store.records := by
        rw [newer, if_pos (compare_nonneg.mpr older), putRow_self held]
      rw [held]
      dsimp only
      rw [same]
      exact ⟨rfl, settled⟩

theorem reconcileAll_keeps {store : Store} (settled : store.Settled)
    (spaces : List StoredSpaceRecord)
    (held : ∀ space ∈ spaces, firstOf store.records space.key = some space ∧
    space.deleted = false) :
    (spaces.foldl (fun store space => store.reconcile space.key) store).records =
    store.records := by
  induction spaces generalizing store with
  | nil => rfl
  | cons space rest inductionHypothesis =>
    obtain ⟨own, open_⟩ := held space List.mem_cons_self
    obtain ⟨same, settled'⟩ := reconcile_keeps settled own open_
    rw [List.foldl_cons, inductionHypothesis settled', same]
    rw [same]
    exact fun other inside => held other (List.mem_cons_of_mem _ inside)

/-- What a batch is to the list that it reorders. -/
structure Batch (spaces batch : List StoredSpaceRecord) (updated : Int) (writeID : String) :
    Prop where
  keys : (batch.map Row.key).Perm (spaces.map Row.key)
  version : ∀ row ∈ batch, row.updated = updated ∧ row.writeID = writeID
  undeleted : ∀ row ∈ batch, row.deleted = false
  above : ∀ space ∈ spaces, space.updated < updated
  orders : batch.Pairwise fun left right => left.value.order < right.value.order

theorem move_perm {ordered : List StoredSpaceRecord} {source destination : Nat}
    (inside : source < ordered.length)
    (within : destination < ordered.length) : (move ordered source destination).Perm ordered := by
  rw [move, List.getD_eq_getElem _ _ inside]
  refine (List.perm_insertIdx _ _ ?_).trans (List.getElem_cons_eraseIdx_perm inside)
  rw [List.length_eraseIdx_of_lt inside]
  omega

/-- A double holds the version after the one held. -/
def Counted (space : StoredSpaceRecord) : Prop := space.updated < successor space.updated

theorem counted_of_short {space : StoredSpaceRecord} (short : |space.updated + 1| < 2 ^ 53) :
    Counted space := by
  rw [Counted, successor, wholeDouble_eq short]
  omega

theorem le_foldl_max (ordered : List StoredSpaceRecord) (now : Int) :
    now ≤ ordered.foldl (fun updated space => max updated (successor space.updated)) now ∧
      ∀ space ∈ ordered,
        successor space.updated ≤ ordered.foldl
          (fun updated space => max updated (successor space.updated)) now := by
  induction ordered generalizing now with
  | nil => simp
  | cons head rest inductionHypothesis =>
    obtain ⟨least, above⟩ := inductionHypothesis (max now (successor head.updated))
    rw [List.foldl_cons]
    refine ⟨by omega, fun space inside => ?_⟩
    cases List.mem_cons.mp inside with
    | inl same =>
      subst same
      omega
    | inr later => exact above space later

theorem written_keys (ordered : List StoredSpaceRecord) (updated : Int) (writeID : String) :
    (written ordered updated writeID).map Row.key = ordered.map Row.key := by
  rw [written, List.map_map]
  calc ordered.zipIdx.map (fun entry =>
    entry.1.key) = (ordered.zipIdx.map Prod.fst).map Row.key := by rw [List.map_map]; rfl
    _ = ordered.map Row.key := by rw [List.zipIdx_map_fst]

theorem written_batch {spaces ordered : List StoredSpaceRecord} (perm : ordered.Perm spaces)
    (open_ : ∀ space ∈ spaces, space.deleted = false) {updated : Int}
    (above : ∀ space ∈ spaces, space.updated < updated)
    (writeID : String) : Batch spaces (written ordered updated writeID) updated writeID where
  keys := by
    rw [written_keys]
    exact perm.map _
  version := by
    intro row inside
    obtain ⟨entry, -, rfl⟩ := List.mem_map.mp inside
    exact ⟨rfl, rfl⟩
  undeleted := by
    intro row inside
    obtain ⟨⟨space, order⟩, listed, rfl⟩ := List.mem_map.mp inside
    exact open_ space (perm.mem_iff.mp (List.fst_mem_of_mem_zipIdx listed))
  above := above
  orders := by
    have indices : (ordered.zipIdx.map Prod.snd).Pairwise (· < ·) := by
      rw [List.zipIdx_map_snd]
      exact List.pairwise_lt_range'
    rw [written]
    refine List.pairwise_map.mpr ((List.pairwise_map.mp indices).imp fun {left right} below => ?_)
    show (left.2 : ℚ) < right.2
    exact_mod_cast below

/-- A store with all that is persisted reorders the list that it holds. -/
theorem Store.Settled.reconcileLive {collation : Collation} {store : Store}
    (settled : store.Settled)
    (nodup : (store.records.map Row.key).Nodup) :
    (store.reconcileLive collation).records = store.records := by
  refine reconcileAll_keeps settled _ fun space inside => ?_
  obtain ⟨inside, open_⟩ := mem_live.mp inside
  exact ⟨firstOf_of_mem nodup inside, open_⟩

/-- What `reorder` does to the list that is open once the storage is read. -/
theorem reorder_spec (collation : Collation) (store : Store) (id : String)
    (targetIndex : Option Int) (now : Int)
    (writeID : String) (counted : ∀ space ∈ live collation (store.reconcileLive collation).records,
    Counted space) :
    let seen := (store.reconcileLive collation).records
    let answer := store.reorder collation id targetIndex now writeID
    (answer.2 = none ∧ answer.1.records = seen) ∨
      ∃ batch updated, answer.2 = some batch ∧ answer.1.records = batch.foldl putRow seen ∧
        Batch (live collation seen) batch updated writeID := by
  intro seen answer
  simp only [answer, Store.reorder]
  split
  · exact Or.inl ⟨rfl, rfl⟩
  · next sourceIndex found =>
    split
    · exact Or.inl ⟨rfl, rfl⟩
    · have inside : sourceIndex < (live collation seen).length :=
        (List.findIdx?_eq_some_iff_findIdx_eq.mp found).1
      have within :
        (targetIndex.map fun index =>
        (max 0 (min index (((live collation seen).length : Int) - 1))).toNat).getD 0 <
          (live collation seen).length := by
        cases targetIndex with
        | none => exact Nat.zero_lt_of_lt inside
        | some index =>
          show (max 0 (min index (((live collation seen).length : Int) - 1))).toNat <
            (live collation seen).length
          omega
      have perm := move_perm inside within
      refine Or.inr ⟨_, _, rfl, rfl,
        written_batch perm (fun space listed => (mem_live.mp listed).2) ?_ writeID⟩
      exact fun space listed =>
        lt_of_lt_of_le (counted space listed)
          ((le_foldl_max _ now).2 space (perm.mem_iff.mpr listed))

/-! ## Merging -/

theorem firstOf_mergeOne {retention now : Int} {store : Store} {incoming : StoredSpaceRecord}
    (open_ : incoming.deleted = false) :
    firstOf (store.mergeOne retention now incoming).records =
      absorb Row.key Row.version (firstOf store.records) incoming := by
  have fresh : ¬expired retention now incoming = true := by simp [expired, open_]
  funext key
  rw [Store.mergeOne, if_neg fresh]
  cases held : firstOf store.records incoming.key with
  | none =>
    show firstOf (putRow store.records incoming) key = _
    rw [firstOf_putRow, absorb, held, Function.update_apply]
    simp only [later, eq_comm]
  | some current =>
    simp only [Option.any_some, decide_eq_true_eq, compare_nonpos]
    rw [absorb, held, Function.update_apply, later]
    by_cases older : incoming.version ≤ current.version
    · rw [if_pos older, if_neg older.not_gt]
      split
      · next own => rw [own, held]
      · rfl
    · rw [if_neg older, if_pos (not_le.mp older)]
      show firstOf (putRow store.records incoming) key = _
      rw [firstOf_putRow]
      simp only [eq_comm]

theorem firstOf_merge {retention now : Int} {store : Store} {values : List StoredSpaceRecord}
    (open_ : ∀ row ∈ values, row.deleted = false) :
    firstOf (store.merge retention now values).records =
      absorbAll Row.key Row.version (firstOf store.records) values := by
  induction values generalizing store with
  | nil => rfl
  | cons incoming rest inductionHypothesis =>
    have first : firstOf (store.mergeOne retention now incoming).records = _ :=
      firstOf_mergeOne (open_ incoming List.mem_cons_self)
    calc firstOf ((store.mergeOne retention now incoming).merge retention now rest).records
        = absorbAll Row.key Row.version
            (firstOf (store.mergeOne retention now incoming).records) rest :=
          inductionHypothesis fun row inside => open_ row (List.mem_cons_of_mem _ inside)
      _ = absorbAll Row.key Row.version (firstOf store.records) (incoming :: rest) := by
        rw [first]; rfl

theorem nodup_putRow {rows : List StoredSpaceRecord} (nodup : (rows.map Row.key).Nodup)
    (row : StoredSpaceRecord) :
    ((putRow rows row).map Row.key).Nodup := by
  rw [putRow_keys]
  exact nodup_snoc_key nodup

theorem nodup_mergeOne {retention now : Int} {store : Store}
    (nodup : (store.records.map Row.key).Nodup)
    (incoming : StoredSpaceRecord) :
    ((store.mergeOne retention now incoming).records.map Row.key).Nodup := by
  rw [Store.mergeOne]
  split
  · exact nodup
  · split
    · split
      · exact nodup.sublist (List.filter_sublist.map _)
      · exact nodup
    · exact nodup_putRow nodup incoming

/-- A batch that is above what is held is taken whole. -/
theorem firstOf_putBatch {rows batch : List StoredSpaceRecord}
    (distinct : (batch.map Row.key).Nodup)
    (above : ∀ row ∈ batch, ∀ held, firstOf rows row.key = some held → held.version < row.version) :
    firstOf (batch.foldl putRow rows) = absorbAll Row.key Row.version (firstOf rows) batch := by
  induction batch generalizing rows with
  | nil => rfl
  | cons row rest inductionHypothesis =>
    rw [List.map_cons, List.nodup_cons] at distinct
    have first : firstOf (putRow rows row) = absorb Row.key Row.version (firstOf rows) row := by
      have stays : later Row.version (firstOf rows row.key) row = row := by
        cases held : firstOf rows row.key with
        | none => rfl
        | some old => rw [later, if_pos (above row List.mem_cons_self old held)]
      funext key
      rw [firstOf_putRow, absorb, stays, Function.update_apply]
      simp only [eq_comm]
    rw [List.foldl_cons, inductionHypothesis distinct.2, first]
    · rfl
    · intro other inside held found
      rw [firstOf_putRow, if_neg] at found
      · exact above other (List.mem_cons_of_mem _ inside) held found
      · intro same
        exact distinct.1 (same ▸ List.mem_map_of_mem inside)

theorem nodup_merge {retention now : Int} {store : Store}
    (nodup : (store.records.map Row.key).Nodup)
    (values : List StoredSpaceRecord) :
    ((store.merge retention now values).records.map Row.key).Nodup := by
  induction values generalizing store with
  | nil => exact nodup
  | cons incoming rest inductionHypothesis =>
      exact inductionHypothesis (nodup_mergeOne nodup incoming)

/-! ## The list that stays -/

section

variable {collation : Collation} {spaces batch : List StoredSpaceRecord} {updated : Int}
  {writeID : String}

theorem Batch.row_version (written : Batch spaces batch updated writeID) {row : StoredSpaceRecord}
    (inside : row ∈ batch) :
    row.version = toLex (updated, writeID) := by
  obtain ⟨same, same'⟩ := written.version row inside
  rw [Row.version, same, same']

theorem Batch.key_mem (written : Batch spaces batch updated writeID) {key : String} :
    key ∈ batch.map Row.key ↔ key ∈ spaces.map Row.key :=
  written.keys.mem_iff

theorem live_nodup {rows : List StoredSpaceRecord} (nodup : (rows.map Row.key).Nodup) :
    ((live collation rows).map Row.key).Nodup :=
  ((live_perm collation rows).map Row.key).nodup_iff.mpr (nodup.sublist (List.filter_sublist.map _))

/-- Everything that a browser holds of the list is below a batch. -/
theorem Batch.above_held {rows : List StoredSpaceRecord} (nodup : (rows.map Row.key).Nodup)
    (written : Batch (live collation rows) batch updated writeID) {key : String}
    (listed : key ∈ (live collation rows).map Row.key) {held : StoredSpaceRecord}
    (found : firstOf rows key = some held) :
    held.version < toLex (updated, writeID) := by
  obtain ⟨space, inside, rfl⟩ := List.mem_map.mp listed
  have own : firstOf rows space.key = some space := firstOf_of_mem nodup (mem_live.mp inside).1
  rw [own, Option.some.injEq] at found
  subst found
  rw [Row.version, Prod.Lex.toLex_lt_toLex]
  exact Or.inl (written.above space inside)

/-- A browser that has the greatest batch whole, and of the others any rows, lists that batch. -/
theorem live_absorbAll {rows final offered : List StoredSpaceRecord}
    (nodup : (rows.map Row.key).Nodup)
    (nodup' : (final.map Row.key).Nodup)
    (merged : firstOf final = absorbAll Row.key Row.version (firstOf rows) offered)
    (written : Batch (live collation rows) batch updated writeID)
    (within : ∀ row ∈ batch, row ∈ offered)
    (below : ∀ row ∈ offered, row ∈ batch ∨
      row.key ∈ (live collation rows).map Row.key ∧ row.version < toLex (updated, writeID)) :
    live collation final = batch := by
  have distinct : (batch.map Row.key).Nodup := written.keys.nodup_iff.mpr (live_nodup nodup)
  have settled : ∀ row ∈ batch, firstOf final row.key = some row := by
    intro row inside
    have listed : row.key ∈ (live collation rows).map Row.key :=
      written.key_mem.mp (List.mem_map_of_mem inside)
    obtain ⟨held, found, above⟩ :
        Covered (absorbAll Row.key Row.version (firstOf rows) offered) Row.version row.key
        row.version :=
      absorbAll_covers row (within row inside)
    rw [written.row_version inside] at above
    rw [merged, found]
    -- what is held was there before, is of this batch or is of one below
    cases absorbAll_source found with
    | inl before => exact absurd above (not_le.mpr (written.above_held nodup listed before))
    | inr arrived =>
      cases below held arrived.1 with
      | inl own =>
        congr 1
        exact List.inj_on_of_nodup_map distinct own inside arrived.2
      | inr lower => exact absurd above (not_le.mpr lower.2)
  refine live_eq (nodup'.of_map _) written.orders fun record => ⟨fun held => ?_, fun inside => ?_⟩
  · have found : firstOf final record.key = some record := firstOf_of_mem nodup' held.1
    have listed : record.key ∈ batch.map Row.key := by
      rw [merged] at found
      rw [written.key_mem]
      cases absorbAll_source found with
      | inl before => exact List.mem_map_of_mem (mem_live.mpr ⟨(firstOf_eq_some before).1, held.2⟩)
      | inr arrived =>
        cases below record arrived.1 with
        | inl own => exact written.key_mem.mp (List.mem_map_of_mem own)
        | inr lower => exact lower.1
    obtain ⟨row, inside, same⟩ := List.mem_map.mp listed
    have again := settled row inside
    rw [same, found, Option.some.injEq] at again
    exact again ▸ inside
  · exact ⟨(firstOf_eq_some (settled record inside)).1, written.undeleted record inside⟩

end

/-! ## Concurrent calls -/

structure ReorderCall where
  id : String
  targetIndex : Option Int
  now : Int
  writeID : String

/-- The ids in the order that the call asks for, if it moves its space.  An index that is no number
is none of the list, and moves the space to the front. -/
def ReorderCall.asked (call : ReorderCall) (ids : List String) : Option (List String) :=
  if call.id ∈ ids then
    match call.targetIndex with
    | none => some (call.id :: ids.erase call.id)
    | some index =>
      let place := (max 0 (min index ((ids.length : Int) - 1))).toNat
      if ids[place]? = some call.id then none
      else some ((ids.erase call.id).insertIdx place call.id)
  else none

/-- Records that arrive together, and the time then. -/
structure Arrival where
  now : Int
  values : List StoredSpaceRecord

/-- Browsers and the call that each makes, if any. -/
structure Browsers (ι : Type) where
  stores : ι → Store
  calls : ι → Option ReorderCall

section

variable {ι : Type} (collation : Collation) (browsers : Browsers ι)

/-- The records that a browser reorders: a call first reads what is stored of the live ones. -/
def Browsers.seen (i : ι) : List StoredSpaceRecord :=
  match browsers.calls i with
  | none => (browsers.stores i).records
  | some _ => ((browsers.stores i).reconcileLive collation).records

def Browsers.answer (i : ι) : Store × Option (List StoredSpaceRecord) :=
  match browsers.calls i with
  | none => (browsers.stores i, none)
  | some call => (browsers.stores i).reorder collation call.id call.targetIndex call.now
      call.writeID

def Browsers.batch (i : ι) : Option (List StoredSpaceRecord) := (browsers.answer collation i).2

/-- A browser after its call and all that it merges. -/
def Browsers.final (retention : Int) (arrivals : ι → List Arrival) (i : ι) : Store :=
  (arrivals i).foldl (fun store arrival => store.merge retention arrival.now arrival.values)
    (browsers.answer collation i).1

/-- The calls are on one list, and told apart by their write ids. -/
structure Browsers.Concurrent (spaces : List StoredSpaceRecord) : Prop where
  keyed : ∀ i, ((browsers.stores i).records.map Row.key).Nodup
  held : ∀ i, live collation (browsers.seen collation i) = spaces
  distinct : ∀ i j call other, browsers.calls i = some call → browsers.calls j = some other →
    call.writeID = other.writeID → i = j

/-- What arrives is of the batches, and each record of each batch arrives at every other browser:
in any order, in any splits and as often as it likes. -/
structure Browsers.Delivers (arrivals : ι → List Arrival) : Prop where
  source : ∀ i, ∀ arrival ∈ arrivals i, ∀ row ∈ arrival.values, ∃ j batch,
    browsers.batch collation j = some batch ∧ row ∈ batch
  whole : ∀ i j batch, browsers.batch collation j = some batch → i ≠ j →
    ∀ row ∈ batch, ∃ arrival ∈ arrivals i, row ∈ arrival.values

end

section

variable {ι : Type} {collation : Collation} {browsers : Browsers ι}
  {spaces : List StoredSpaceRecord}

theorem Browsers.Concurrent.of_settled
    (keyed : ∀ i, ((browsers.stores i).records.map Row.key).Nodup)
    (settled : ∀ i, (browsers.stores i).Settled)
    (held : ∀ i, live collation (browsers.stores i).records = spaces)
    (distinct : ∀ i j call other, browsers.calls i = some call → browsers.calls j = some other →
      call.writeID = other.writeID → i = j) : browsers.Concurrent collation spaces where
  keyed := keyed
  held := by
    intro i
    rw [← held i, Browsers.seen]
    split
    · rfl
    · rw [(settled i).reconcileLive (keyed i)]
  distinct := distinct

theorem nodup_reconcile {store : Store} (nodup : (store.records.map Row.key).Nodup) (id : String) :
    ((store.reconcile id).records.map Row.key).Nodup := by
  rw [Store.reconcile]
  split
  · exact nodup
  · split
    · exact nodup
    · exact nodup
    · next persisted _ =>
      split
      · exact nodup_putRow nodup persisted
      · next memory _ => exact nodup_putRow nodup (newer memory persisted)

theorem nodup_reconcileAll {store : Store} (nodup : (store.records.map Row.key).Nodup)
    (spaces : List StoredSpaceRecord) :
    ((spaces.foldl (fun store space => store.reconcile space.key) store).records.map
    Row.key).Nodup := by
  induction spaces generalizing store with
  | nil => exact nodup
  | cons space rest inductionHypothesis =>
      exact inductionHypothesis (nodup_reconcile nodup space.key)

theorem Browsers.Concurrent.nodup_seen (concurrent : browsers.Concurrent collation spaces) (i : ι) :
    ((browsers.seen collation i).map Row.key).Nodup := by
  rw [Browsers.seen]
  split
  · exact concurrent.keyed i
  · exact nodup_reconcileAll (concurrent.keyed i) _

/-- A call writes a batch if it moves its space, in the order asked for. -/
theorem reorder_asked (collation : Collation) (store : Store) (call : ReorderCall)
    (nodup : ((live collation (store.reconcileLive collation).records).map Row.key).Nodup) :
    (store.reorder collation call.id call.targetIndex call.now call.writeID).2.map
    (List.map Row.key) =
      call.asked ((live collation (store.reconcileLive collation).records).map Row.key) := by
  rw [Store.reorder]
  generalize live collation (store.reconcileLive collation).records = ordered at nodup ⊢
  dsimp only
  split
  · next absent =>
    have missing : call.id ∉ ordered.map Row.key := by
      intro listed
      obtain ⟨space, inside, same⟩ := List.mem_map.mp listed
      exact absurd same (by simpa using List.findIdx?_eq_none_iff.mp absent space inside)
    rw [ReorderCall.asked, if_neg missing]
    rfl
  · next source found =>
    obtain ⟨inside, own, -⟩ := List.findIdx?_eq_some_iff_getElem.mp found
    have own : ordered[source].key = call.id := by simpa using own
    have short : source < (ordered.map Row.key).length := by simpa using inside
    have listed : (ordered.map Row.key)[source] = call.id := by rw [List.getElem_map, own]
    have erased : (ordered.map Row.key).erase call.id = (ordered.eraseIdx source).map Row.key := by
      rw [← listed, nodup.erase_getElem source short, List.eraseIdx_map]
    have moved : ∀ destination, (move ordered source destination).map Row.key =
        ((ordered.map Row.key).erase call.id).insertIdx destination call.id := by
      intro destination
      rw [move, List.map_insertIdx, erased, List.getD_eq_getElem _ _ inside, own]
    have known : call.id ∈ ordered.map Row.key := List.mem_iff_getElem.mpr ⟨source, short, listed⟩
    simp only [ReorderCall.asked, known, if_true, List.length_map]
    cases call.targetIndex with
    | none => simp [written_keys, moved]
    | some index =>
      simp only [Option.map_some, Option.some.injEq, Option.getD_some]
      have stays : (ordered.map Row.key)[(max 0 (min index ((ordered.length : Int) - 1))).toNat]? =
        some call.id ↔
          (max 0 (min index ((ordered.length : Int) - 1))).toNat = source := by
        rw [← listed, ← List.getElem?_eq_getElem short, eq_comm, List.getElem?_inj short nodup,
          eq_comm]
      by_cases here : (max 0 (min index ((ordered.length : Int) - 1))).toNat = source
      · rw [if_pos here, if_pos (stays.mpr here)]
        rfl
      · rw [if_neg here, if_neg (mt stays.mp here), Option.map_some, written_keys, moved]

/-- The calls' batches are in the orders asked for. -/
theorem Browsers.Concurrent.batch_asked (concurrent : browsers.Concurrent collation spaces)
    (i : ι) :
    (browsers.batch collation i).map (List.map Row.key) =
      (browsers.calls i).bind fun call => call.asked (spaces.map Row.key) := by
  have held := concurrent.held i
  have nodup : ((live collation (browsers.seen collation i)).map Row.key).Nodup :=
    live_nodup (concurrent.nodup_seen i)
  cases called : browsers.calls i with
  | none => simp [Browsers.batch, Browsers.answer, called]
  | some call =>
    simp only [Browsers.batch, Browsers.answer, Browsers.seen, called] at held nodup ⊢
    rw [reorder_asked collation (browsers.stores i) call nodup, held]
    rfl

/-- What a browser's call leaves it with. -/
theorem Browsers.Concurrent.answer (concurrent : browsers.Concurrent collation spaces)
    (counted : ∀ space ∈ spaces, Counted space) (i : ι) :
    browsers.batch collation i = none ∧
      (browsers.answer collation i).1.records = browsers.seen collation i ∨
      ∃ batch updated call, browsers.batch collation i = some batch ∧ browsers.calls i = some call ∧
        (browsers.answer collation i).1.records = batch.foldl putRow (browsers.seen collation i) ∧
        Batch spaces batch updated call.writeID := by
  have held := concurrent.held i
  cases called : browsers.calls i with
  | none => exact Or.inl (by simp [Browsers.batch, Browsers.answer, Browsers.seen, called])
  | some call =>
    simp only [Browsers.batch, Browsers.answer, Browsers.seen, called] at held ⊢
    cases reorder_spec collation (browsers.stores i) call.id call.targetIndex call.now call.writeID
        (held ▸ counted) with
    | inl idle => exact Or.inl idle
    | inr moved =>
      obtain ⟨batch, updated, wrote, records, written⟩ := moved
      exact Or.inr ⟨batch, updated, call, wrote, rfl, records, held ▸ written⟩

theorem firstOf_arrivals {retention : Int} {store : Store} {arrivals : List Arrival}
    (open_ : ∀ arrival ∈ arrivals, ∀ row ∈ arrival.values, row.deleted = false) :
    firstOf (arrivals.foldl (fun store arrival => store.merge retention arrival.now arrival.values)
      store).records =
      absorbAll Row.key Row.version (firstOf store.records) (arrivals.flatMap Arrival.values) := by
  induction arrivals generalizing store with
  | nil => rfl
  | cons arrival rest inductionHypothesis =>
    rw [List.foldl_cons, inductionHypothesis fun later inside =>
      open_ later (List.mem_cons_of_mem _ inside),
      firstOf_merge (open_ arrival List.mem_cons_self), List.flatMap_cons]
    simp only [absorbAll, List.foldl_append]

theorem nodup_arrivals {retention : Int} {store : Store} (nodup : (store.records.map Row.key).Nodup)
    (arrivals : List Arrival) :
    ((arrivals.foldl (fun store arrival => store.merge retention arrival.now arrival.values)
    store).records.map
      Row.key).Nodup := by
  induction arrivals generalizing store with
  | nil => exact nodup
  | cons arrival rest inductionHypothesis =>
      exact inductionHypothesis (nodup_merge nodup arrival.values)

/-- Where no call wrote a batch, nothing that arrives holds a record. -/
theorem idle_arrivals {retention : Int} {store : Store} {arrivals : List Arrival}
    (empty : ∀ arrival ∈ arrivals, arrival.values = []) :
    arrivals.foldl (fun store arrival => store.merge retention arrival.now arrival.values) store =
      store := by
  induction arrivals with
  | nil => rfl
  | cons arrival rest inductionHypothesis =>
    rw [List.foldl_cons, empty arrival List.mem_cons_self]
    exact inductionHypothesis fun later inside => empty later (List.mem_cons_of_mem _ inside)

/-- A call's batch is told by the version of its records. -/
theorem Browsers.Concurrent.batch_eq (concurrent : browsers.Concurrent collation spaces) {i j : ι}
    {batch other : List StoredSpaceRecord} {updated updated' : Int} {call call' : ReorderCall}
    (wrote : browsers.batch collation i = some batch)
    (wrote' : browsers.batch collation j = some other)
    (called : browsers.calls i = some call) (called' : browsers.calls j = some call')
    (same : toLex (updated, call.writeID) = toLex (updated', call'.writeID)) : batch = other := by
  have writers : call.writeID = call'.writeID := (Prod.mk.inj (toLex.injective same)).2
  have one := concurrent.distinct i j call call' called called' writers
  subst one
  exact Option.some.inj (wrote.symm.trans wrote')

/-- A browser that has every batch lists the greatest of them. -/
theorem Browsers.Concurrent.final_eq (concurrent : browsers.Concurrent collation spaces)
    (counted : ∀ space ∈ spaces, Counted space) {retention : Int}
    {arrivals : ι → List Arrival} (delivers : browsers.Delivers collation arrivals) {w : ι}
    {greatest : List StoredSpaceRecord}
    {updated : Int} {call : ReorderCall} (wrote : browsers.batch collation w = some greatest)
    (called : browsers.calls w = some call) (written : Batch spaces greatest updated call.writeID)
    (above : ∀ j batch, browsers.batch collation j = some batch →
    ∀ row ∈ batch, row.version ≤ toLex (updated, call.writeID))
    (i : ι) :
    live collation (browsers.final collation retention arrivals i).records = greatest := by
  -- every record of a batch is of the greatest one, or of a lower one and in its place of the list
  have below : ∀ j batch, browsers.batch collation j = some batch → ∀ row ∈ batch,
      row.deleted = false ∧ (row ∈ greatest ∨ row.key ∈ spaces.map Row.key ∧
          row.version < toLex (updated, call.writeID)) := by
    intro j batch wrote' row inside
    cases concurrent.answer counted j with
    | inl idle =>
      rw [wrote'] at idle
      cases idle.1
    | inr moved =>
      obtain ⟨batch', updated', call', wrote'', called', -, written'⟩ := moved
      obtain rfl : batch = batch' := Option.some.inj (wrote'.symm.trans wrote'')
      refine ⟨written'.undeleted row inside, ?_⟩
      cases eq_or_lt_of_le (above j batch wrote' row inside) with
      | inl same =>
        rw [written'.row_version inside] at same
        exact Or.inl (concurrent.batch_eq wrote' wrote called' called same ▸ inside)
      | inr lower => exact Or.inr ⟨written'.key_mem.mp (List.mem_map_of_mem inside), lower⟩
  have arrived : ∀ arrival ∈ arrivals i, ∀ row ∈ arrival.values,
      row.deleted = false ∧ (row ∈ greatest ∨ row.key ∈ spaces.map Row.key ∧
          row.version < toLex (updated, call.writeID)) := by
    intro arrival listed row inside
    obtain ⟨j, batch, wrote', own⟩ := delivers.source i arrival listed row inside
    exact below j batch wrote' row own
  have held := concurrent.held i
  have nodup := concurrent.nodup_seen i
  -- What a browser has of its own: its batch, where its call moved a space.
  have everything : ∃ own, firstOf (browsers.answer collation i).1.records =
        absorbAll Row.key Row.version (firstOf (browsers.seen collation i)) own ∧
      ((browsers.answer collation i).1.records.map Row.key).Nodup ∧
      (∀ row ∈ own, row ∈ greatest ∨ row.key ∈ spaces.map Row.key ∧
        row.version < toLex (updated, call.writeID)) ∧
      (i = w → ∀ row ∈ greatest, row ∈ own) := by
    cases concurrent.answer counted i with
    | inl idle =>
      refine ⟨[], by rw [idle.2]; rfl, by rw [idle.2]; exact nodup, fun _ inside =>
        (nomatch inside), fun same => ?_⟩
      rw [same, wrote] at idle
      cases idle.1
    | inr moved =>
      obtain ⟨batch, updated', call', wrote', called', records, written'⟩ := moved
      refine ⟨batch, ?_, by rw [records]; exact nodup_putRows nodup, fun row inside =>
        (below i batch wrote' row inside).2, fun same => ?_⟩
      · rw [records]
        refine firstOf_putBatch (written'.keys.nodup_iff.mpr (held ▸ live_nodup nodup))
          fun row inside old found => ?_
        rw [written'.row_version inside]
        have keyed : row.key ∈ spaces.map Row.key :=
          written'.key_mem.mp (List.mem_map_of_mem inside)
        rw [← held] at written' keyed
        exact written'.above_held nodup keyed found
      · subst same
        obtain rfl := Option.some.inj (wrote.symm.trans wrote')
        exact fun row inside => inside
  obtain ⟨own, took, nodup', lower, mine⟩ := everything
  rw [← held] at written lower arrived
  -- Everything that it has merged, in whatever order it came, is one fold.
  have merged : firstOf (browsers.final collation retention arrivals i).records =
      absorbAll Row.key Row.version (firstOf (browsers.seen collation i))
          (own ++ (arrivals i).flatMap Arrival.values) := by
    rw [Browsers.final, firstOf_arrivals fun arrival listed row inside =>
      (arrived arrival listed row inside).1, took]
    simp only [absorbAll, List.foldl_append]
  refine live_absorbAll nodup (nodup_arrivals nodup' (arrivals i)) merged written ?_ ?_
  · intro row inside
    rw [List.mem_append, List.mem_flatMap]
    by_cases same : i = w
    · exact Or.inl (mine same row inside)
    · exact Or.inr (delivers.whole i w greatest wrote same row inside)
  · intro row inside
    cases List.mem_append.mp inside with
    | inl listed => exact lower row listed
    | inr listed =>
      obtain ⟨arrival, listed, inside⟩ := List.mem_flatMap.mp listed
      exact (arrived arrival listed row inside).2

/-- Reorders of one list whose versions can be counted on leave every browser with the list of the
greatest of them, whatever the order, the splits and the repetitions in which they arrive; where no
call moves a space the list stays. -/
theorem reorders_converge [Finite ι] (concurrent : browsers.Concurrent collation spaces)
    (counted : ∀ space ∈ spaces, Counted space) (retention : Int) {arrivals : ι → List Arrival}
    (delivers : browsers.Delivers collation arrivals) :
    (∀ i, (browsers.batch collation i).map (List.map Row.key) =
        (browsers.calls i).bind fun call => call.asked (spaces.map Row.key)) ∧
      ((∀ i, browsers.batch collation i = none) ∧
          (∀ i, live collation (browsers.final collation retention arrivals i).records = spaces) ∨
        ∃ w greatest, browsers.batch collation w = some greatest ∧
          (greatest.map Row.key).Perm (spaces.map Row.key) ∧
          (∀ j batch, browsers.batch collation j = some batch →
            ∀ row' ∈ batch, ∀ row ∈ greatest, row'.version ≤ row.version) ∧
          ∀ i, live collation (browsers.final collation retention arrivals i).records =
            greatest) := by
  refine ⟨concurrent.batch_asked, ?_⟩
  by_cases idle : ∀ i, browsers.batch collation i = none
  · refine Or.inl ⟨idle, fun i => ?_⟩
    -- Without a batch nothing arrives, and every list stays as it was.
    have empty : ∀ arrival ∈ arrivals i, arrival.values = [] := by
      intro arrival listed
      refine List.eq_nil_iff_forall_not_mem.mpr fun row inside => ?_
      obtain ⟨j, batch, wrote, -⟩ := delivers.source i arrival listed row inside
      rw [idle j] at wrote
      cases wrote
    rw [Browsers.final, idle_arrivals empty]
    cases concurrent.answer counted i with
    | inl stays => rw [stays.2, concurrent.held i]
    | inr moved =>
      obtain ⟨batch, -, -, wrote, -⟩ := moved
      rw [idle i] at wrote
      cases wrote
  · -- the greatest of the batches' versions
    have stamped : ∀ j : {j // browsers.batch collation j ≠ none}, ∃ batch updated call,
        browsers.batch collation j = some batch ∧ browsers.calls j = some call ∧
            Batch spaces batch updated call.writeID := by
      intro j
      cases concurrent.answer counted j with
      | inl idle => exact absurd idle.1 j.2
      | inr moved =>
        obtain ⟨batch, updated, call, wrote, called, -, written⟩ := moved
        exact ⟨batch, updated, call, wrote, called, written⟩
    choose batch updated call wrote called written using stamped
    obtain ⟨j, busy⟩ := not_forall.mp idle
    have : Nonempty {j // browsers.batch collation j ≠ none} := ⟨⟨j, busy⟩⟩
    -- The call whose stamp and write id are the greatest wins everywhere.
    obtain ⟨w, highest⟩ := Finite.exists_max fun j => toLex (updated j, (call j).writeID)
    have above : ∀ j other, browsers.batch collation j = some other → ∀ row ∈ other,
        row.version ≤ toLex (updated w, (call w).writeID) := by
      intro j other wrote' row inside
      have busy : browsers.batch collation j ≠ none := by simp [wrote']
      obtain rfl : batch ⟨j, busy⟩ = other := Option.some.inj ((wrote ⟨j, busy⟩).symm.trans wrote')
      rw [(written ⟨j, busy⟩).row_version inside]
      exact highest ⟨j, busy⟩
    refine Or.inr ⟨w, batch w, wrote w, (written w).keys,
      fun j other wrote' row' inside' row inside => ?_, ?_⟩
    · rw [(written w).row_version inside]
      exact above j other wrote' row' inside'
    · exact concurrent.final_eq counted delivers (wrote w) (called w) (written w) above

end

/-! ## Two browsers -/

def byCodeUnit : Collation where
  le left right := decide (left ≤ right)
  total left right := by simpa using le_total left right
  trans left middle right first second := by
    simp only [decide_eq_true_eq] at first second ⊢
    exact le_trans first second

def openSpace (id : String) (order : ℚ) : StoredSpaceRecord := ⟨id, ⟨id, order, 1⟩, 1, "w", false⟩

def openSpaces : List StoredSpaceRecord := [openSpace "a" 0, openSpace "b" 1, openSpace "c" 2]

/-- One moves `a` to the end while the other moves `c` to the front. -/
def twoBrowsers : Browsers Bool where
  stores _ := ⟨openSpaces, [], none⟩
  calls browser := some (if browser then ⟨"a", some 2, 5, "x"⟩ else ⟨"c", some 0, 5, "y"⟩)

/-- Each has the other's batch twice. -/
def twoArrivals (browser : Bool) : List Arrival :=
  let batch := (twoBrowsers.batch byCodeUnit (!browser)).getD []
  [⟨6, batch⟩, ⟨7, batch.reverse⟩]

theorem live_openSpaces : live byCodeUnit openSpaces = openSpaces :=
  live_eq (by decide) (by decide) (by simp [openSpaces, openSpace])

theorem twoBrowsers_concurrent : twoBrowsers.Concurrent byCodeUnit openSpaces := by
  refine Browsers.Concurrent.of_settled (fun _ => ?_) (fun _ _ _ _ _ absent => by cases absent)
    (fun _ => live_openSpaces) ?_
  · show (openSpaces.map Row.key).Nodup
    decide
  · intro i j call other first second same
    cases i <;> cases j <;> simp_all [twoBrowsers] <;> subst first <;> subst second <;> simp at same

theorem twoArrivals_delivers : twoBrowsers.Delivers byCodeUnit twoArrivals where
  source := by
    intro i arrival listed row inside
    refine ⟨!i, (twoBrowsers.batch byCodeUnit (!i)).getD [], ?_, ?_⟩
    · cases wrote : twoBrowsers.batch byCodeUnit (!i) with
      | some batch => rfl
      | none => simp [twoArrivals, wrote] at listed; rcases listed with rfl | rfl <;> cases inside
    · simp only [twoArrivals, List.mem_cons, List.not_mem_nil, or_false] at listed
      rcases listed with rfl | rfl
      · exact inside
      · exact List.mem_reverse.mp inside
  whole := by
    intro i j batch wrote apart row inside
    have other : (!i) = j := by cases i <;> cases j <;> simp_all
    refine ⟨_, List.mem_cons_self, ?_⟩
    rw [other, wrote]
    exact inside

theorem openSpaces_counted : ∀ space ∈ openSpaces, Counted space := by
  intro space inside
  refine counted_of_short ?_
  simp only [openSpaces, openSpace, List.mem_cons, List.not_mem_nil, or_false] at inside
  rcases inside with rfl | rfl | rfl <;> decide

theorem twoBrowsers_batches :
    twoBrowsers.batch byCodeUnit true =
        some [⟨"b", ⟨"b", 0, 1⟩, 5, "x", false⟩, ⟨"c", ⟨"c", 1, 1⟩, 5, "x", false⟩,
          ⟨"a", ⟨"a", 2, 1⟩, 5, "x", false⟩] ∧
      twoBrowsers.batch byCodeUnit false =
        some [⟨"c", ⟨"c", 0, 1⟩, 5, "y", false⟩, ⟨"a", ⟨"a", 1, 1⟩, 5, "y", false⟩,
          ⟨"b", ⟨"b", 2, 1⟩, 5, "y", false⟩] := by
  have seen : Store.reconcileLive byCodeUnit ⟨openSpaces, [], none⟩ = ⟨openSpaces, [], none⟩ := by
    rw [Store.reconcileLive, live_openSpaces]
    rfl
  constructor
  all_goals
    show (Store.reorder byCodeUnit ⟨openSpaces, [], none⟩ _ _ _ _).2 = _
    rw [Store.reorder, seen, live_openSpaces]
    decide +kernel

/-- Both end with `c` at the front: its call has the greater write id. -/
theorem reorders_converge_sample :
    (live byCodeUnit (twoBrowsers.final byCodeUnit 0 twoArrivals true).records).map Row.key =
    ["c", "a", "b"] ∧
      (live byCodeUnit (twoBrowsers.final byCodeUnit 0 twoArrivals false).records).map Row.key =
      ["c", "a", "b"] := by
  obtain ⟨first, second⟩ := twoBrowsers_batches
  obtain ⟨-, idle | ⟨w, greatest, wrote, -, above, listed⟩⟩ :=
    reorders_converge twoBrowsers_concurrent openSpaces_counted 0 twoArrivals_delivers
  · rw [idle.1 true] at first
    cases first
  · cases w with
    | true =>
      obtain rfl := Option.some.inj (wrote.symm.trans first)
      exact absurd (above false _ second _ List.mem_cons_self _ List.mem_cons_self)
        (by decide +kernel)
    | false =>
      obtain rfl := Option.some.inj (wrote.symm.trans second)
      rw [listed true, listed false]
      decide

/-! ## Versions past 53 bits -/

/-- Their version is the first that a double holds and the next it does not. -/
def lateSpaces : List StoredSpaceRecord :=
  [⟨"a", ⟨"a", 0, 1⟩, 9007199254740992, "m", false⟩,
    ⟨"b", ⟨"b", 1, 1⟩, 9007199254740992, "m", false⟩]

/-- One moves `a` to the end, the other nothing. -/
def lateBrowsers : Browsers Bool where
  stores _ := ⟨lateSpaces, [], none⟩
  calls browser := if browser then some ⟨"a", some 1, 5, "k"⟩ else none

def lateBatch : List StoredSpaceRecord :=
  [⟨"b", ⟨"b", 0, 1⟩, 9007199254740992, "k", false⟩,
    ⟨"a", ⟨"a", 1, 1⟩, 9007199254740992, "k", false⟩]

/-- The other has the batch. -/
def lateArrivals (browser : Bool) : List Arrival := if browser then [] else [⟨6, lateBatch⟩]

theorem live_lateSpaces : live byCodeUnit lateSpaces = lateSpaces :=
  live_eq (by decide) (by decide) (by simp [lateSpaces])

theorem lateBrowsers_concurrent : lateBrowsers.Concurrent byCodeUnit lateSpaces := by
  refine Browsers.Concurrent.of_settled (fun _ => ?_) (fun _ _ _ _ _ absent => by cases absent)
    (fun _ => live_lateSpaces) ?_
  · show (lateSpaces.map Row.key).Nodup
    decide
  · intro i j call other first second _
    cases i <;> cases j <;> simp_all [lateBrowsers]

theorem lateBrowsers_answer : lateBrowsers.batch byCodeUnit true = some lateBatch ∧
    (lateBrowsers.answer byCodeUnit true).1.records =
      [⟨"a", ⟨"a", 1, 1⟩, 9007199254740992, "k", false⟩,
      ⟨"b", ⟨"b", 0, 1⟩, 9007199254740992, "k", false⟩] := by
  have seen : Store.reconcileLive byCodeUnit ⟨lateSpaces, [], none⟩ = ⟨lateSpaces, [], none⟩ := by
    rw [Store.reconcileLive, live_lateSpaces]
    rfl
  constructor
  · show (Store.reorder byCodeUnit ⟨lateSpaces, [], none⟩ "a" (some 1) 5 "k").2 = _
    rw [Store.reorder, seen, live_lateSpaces]
    decide +kernel
  · show (Store.reorder byCodeUnit ⟨lateSpaces, [], none⟩ "a" (some 1) 5 "k").1.records = _
    rw [Store.reorder, seen, live_lateSpaces]
    decide +kernel

/-- The batch is no newer than what the other browser holds, and leaves it as it was. -/
theorem late_reorder_apart :
    lateBrowsers.Concurrent byCodeUnit lateSpaces ∧ lateBrowsers.Delivers byCodeUnit lateArrivals ∧
      (live byCodeUnit (lateBrowsers.final byCodeUnit 0 lateArrivals true).records).map Row.key =
      ["b", "a"] ∧
      (live byCodeUnit (lateBrowsers.final byCodeUnit 0 lateArrivals false).records).map Row.key =
      ["a", "b"] := by
  refine ⟨lateBrowsers_concurrent,
    ⟨fun i arrival listed row inside => ?_, fun i j batch wrote apart row inside => ?_⟩, ?_, ?_⟩
  · refine ⟨true, lateBatch, lateBrowsers_answer.1, ?_⟩
    cases i with
    | true => cases listed
    | false =>
      obtain rfl := List.mem_singleton.mp listed
      exact inside
  · cases j with
    | false => cases wrote
    | true =>
      obtain rfl := Option.some.inj (lateBrowsers_answer.1.symm.trans wrote)
      cases i with
      | true => exact absurd rfl apart
      | false => exact ⟨_, List.mem_singleton_self _, inside⟩
  · have same : live byCodeUnit (lateBrowsers.answer byCodeUnit true).1.records = lateBatch := by
      rw [lateBrowsers_answer.2]
      exact live_eq (by decide) (by decide) (by simp [lateBatch, or_comm])
    have final : lateBrowsers.final byCodeUnit 0 lateArrivals true =
      (lateBrowsers.answer byCodeUnit true).1 := rfl
    rw [final, same]
    rfl
  · have kept : (lateBrowsers.final byCodeUnit 0 lateArrivals false).records = lateSpaces := by
      decide +kernel
    rw [kept, live_lateSpaces]
    rfl

end AiConfig.Herder.SpacesStore
