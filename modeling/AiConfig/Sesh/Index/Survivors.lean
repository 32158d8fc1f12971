import AiConfig.Sesh.Index.Dedup
import AiConfig.Sesh.Index.Replay
import Mathlib.Data.List.MinMax

/-! # One row a key, and which one

The rows of a key compete in every dedupe that selects them.  `transcriptBefore` is the
order of the surface, by instants; the dedupe orders by texts.  Along a run whose
appends overlook no row and whose competing times print comparably (`Attentive`), keys
stay unique and the survivor is first in the order of the surface. -/

namespace AiConfig.Sesh

open AiConfig.Lib AiConfig.Sesh.Wire

/-! ## The order of the surface -/

/-- The columns that decide between equal times. -/
def columnsBefore (a b : IndexedMessage) : Bool :=
  if a.fileOrdinal ≠ b.fileOrdinal then a.fileOrdinal < b.fileOrdinal
  else if a.lineOrdinal ≠ b.lineOrdinal then a.lineOrdinal < b.lineOrdinal
  else if a.gen.identity.fileUUID.text ≠ b.gen.identity.fileUUID.text then
    a.gen.identity.fileUUID.text < b.gen.identity.fileUUID.text
  else a.gen.generation < b.gen.generation

/-- The comparison of `sortTranscript`. -/
def transcriptBefore (a b : IndexedMessage) : Bool :=
  match a.timestampUTC, b.timestampUTC with
  | none, some _ => false
  | some _, none => true
  | some s, some t => if s.instant ≠ t.instant then s.instant < t.instant else columnsBefore a b
  | none, none => columnsBefore a b

/-- The printed times compare as the instants do. -/
def Comparable (s t : Timestamp) : Prop :=
  s.FourDigit ∧ t.FourDigit ∧ ¬ (s.SameSecond t ∧ FractionClash s.nanos t.nanos)

instance (s t : Timestamp) : Decidable (Comparable s t) := inferInstanceAs (Decidable (_ ∧ _))

theorem instant_injective {s t : Timestamp} (same : s.instant = t.instant) : s = t := by
  simp only [Timestamp.instant, toLex_inj, Prod.mk.injEq] at same
  cases s
  cases t
  simp_all

/-- Every two selected rows of one key have comparable times. -/
def Dedupe.Comparable (d : Dedupe) : Prop :=
  ∀ a ∈ d.rows, ∀ b ∈ d.rows, d.scope a = true → d.scope b = true → a.dedupKey = b.dedupKey →
    ∀ s ∈ a.timestampUTC, ∀ t ∈ b.timestampUTC, Sesh.Comparable s t

instance (d : Dedupe) : Decidable d.Comparable :=
  inferInstanceAs (Decidable (∀ a ∈ d.rows, ∀ b ∈ d.rows, d.scope a = true → d.scope b = true →
    a.dedupKey = b.dedupKey → ∀ s ∈ a.timestampUTC, ∀ t ∈ b.timestampUTC, Sesh.Comparable s t))

/-- The dedupe orders by the same columns, and by the id at last. -/
theorem columns_lt {a b : Row}
    (before : columnsBefore a.toIndexedMessage b.toIndexedMessage = true) :
    toLex (a.fileOrdinal, toLex (a.lineOrdinal, toLex (a.gen.identity.fileUUID.text,
      toLex (a.gen.generation, a.id)))) <
    toLex (b.fileOrdinal, toLex (b.lineOrdinal, toLex (b.gen.identity.fileUUID.text,
      toLex (b.gen.generation, b.id)))) := by
  simp only [Prod.Lex.toLex_lt_toLex]
  unfold columnsBefore at before
  split at before
  · exact Or.inl (of_decide_eq_true before)
  · rename_i file
    refine Or.inr ⟨by simpa using file, ?_⟩
    split at before
    · exact Or.inl (of_decide_eq_true before)
    · rename_i line
      refine Or.inr ⟨by simpa using line, ?_⟩
      split at before
      · exact Or.inl (of_decide_eq_true before)
      · rename_i uuid
        exact Or.inr ⟨by simpa using uuid, Or.inl (of_decide_eq_true before)⟩

/-- Among comparable times the dedupe prefers what the surface shows first. -/
theorem preference_lt {a b : Row}
    (comparable : ∀ s ∈ a.timestampUTC, ∀ t ∈ b.timestampUTC, Comparable s t)
    (before : transcriptBefore a.toIndexedMessage b.toIndexedMessage = true) :
    a.preference < b.preference := by
  rw [Row.preference, Row.preference, Prod.Lex.toLex_lt_toLex, Prod.Lex.toLex_lt_toLex]
  unfold transcriptBefore at before
  cases timeA : a.timestampUTC with
  | none =>
    cases timeB : b.timestampUTC with
    | none =>
      simp only [timeA, timeB] at before
      exact Or.inr ⟨rfl, Or.inr ⟨rfl, columns_lt before⟩⟩
    | some t => simp [timeA, timeB] at before
  | some s =>
    cases timeB : b.timestampUTC with
    | none => exact Or.inl (by simp)
    | some t =>
      simp only [timeA, timeB] at before
      obtain ⟨yearS, yearT, apart⟩ := comparable s timeA t timeB
      refine Or.inr ⟨rfl, ?_⟩
      split at before
      · exact Or.inl ((Timestamp.text_lt_iff yearS yearT apart).mpr (of_decide_eq_true before))
      · rename_i same
        have equal := instant_injective (not_not.mp same)
        subst equal
        exact Or.inr ⟨rfl, columns_lt before⟩

/-! ## The survivor of a key -/

/-- A row that no other of the list comes before, by some order. -/
theorem exists_first {α β : Type} [LinearOrder β] (rank : α → β) {rows : List α}
    (nonempty : rows ≠ []) :
    ∃ first ∈ rows, ∀ other ∈ rows, ¬ rank other < rank first := by
  cases found : rows.argmin rank with
  | none => exact absurd (List.argmin_eq_none.mp found) nonempty
  | some first => exact ⟨first, List.argmin_mem found, fun other member =>
      List.not_lt_of_mem_argmin member found⟩

/-- Every competing row has its survivor, and no rival precedes it in the transcript. -/
theorem survivor_first {d : Dedupe} (comparable : d.Comparable) {row : Row} (member : row ∈ d.rows)
    (competing : d.scope row = true) :
    ∃ kept ∈ d.result, d.scope kept = true ∧ kept.dedupKey = row.dedupKey ∧
      ∀ rival ∈ d.rows, d.scope rival = true → rival.dedupKey = row.dedupKey →
        transcriptBefore rival.toIndexedMessage kept.toIndexedMessage = false := by
  have rivals : d.rows.filter (fun other => d.scope other && other.dedupKey = row.dedupKey) ≠ [] :=
    List.ne_nil_of_mem (List.mem_filter.mpr ⟨member, by simp [competing]⟩)
  obtain ⟨kept, listed, first⟩ := exists_first Row.preference rivals
  simp only [List.mem_filter, Bool.and_eq_true, decide_eq_true_eq] at listed first
  obtain ⟨present, selected, own⟩ := listed
  refine ⟨kept, ?_, selected, own, ?_⟩
  · rw [Dedupe.result, mem_dedupeWhere]
    exact ⟨present, fun _ other inside chosen same => first other ⟨inside, chosen, same.trans own⟩⟩
  · intro rival inside chosen same
    by_contra before
    have compare := comparable rival inside kept present chosen selected (same.trans own.symm)
    exact first rival ⟨inside, chosen, same⟩ (preference_lt compare (by simpa using before))

/-! ## The dedupe of a step -/

def Index.dedupe (store : Store) (idx : Index) (ev : AppendEvent) (rows : List IndexedMessage) :
    Option Dedupe :=
  let (placed, placement) := inheritFilePlacement idx.messages ev.gen rows
  unifyDedupe store idx.naiveMaintenance ev.gen placed placement
    (idx.messages ++ withIds idx.messageSeq placed)

/-- A rebuild selects from the whole table. -/
def unifyAllDedupe (store : Store) (rows : List Row) : Dedupe :=
  ⟨fun row => row.keyed,
    updateFileOrdinals store ((fileGroups rows (fileSummaries store rows)).foldl relabelGroup rows)⟩

/-- The dedupe a step runs, if it runs one. -/
def Node.dedupe (decoder : Decoder) (node : Node) : NodeOp → Option Dedupe
  | .append ev _ =>
    match node.index.newRows decoder node.store ev false with
    | .error _ => none
    | .ok (rows, _) => if rows = [] then none else node.index.dedupe node.store ev rows
  | .reindex now =>
    let rebuilt := node.rebuild decoder now node.store.rebuildEvents
    some (unifyAllDedupe rebuilt.store rebuilt.index.messages)
  | .store _ | .markDirty _ | .reindexStopped _ _ => none

/-- A rebuild, if it is one, runs to its end. -/
def NodeOp.ends : NodeOp → Bool
  | .reindexStopped _ _ => false
  | .store _ | .append _ _ | .markDirty _ | .reindex _ => true

/-- The dedupe of the step overlooks no row, and competing times are comparable. -/
def Attentive (decoder : Decoder) (node : Node) (op : NodeOp) : Prop :=
  op.ends = true ∧ ∀ d ∈ node.dedupe decoder op, ¬ Overlooks node.index.messageSeq d ∧ d.Comparable

instance (seq : Nat) (d : Dedupe) : Decidable (Overlooks seq d) :=
  inferInstanceAs (Decidable (∃ a ∈ d.rows, seq < a.id ∧ a.keyed = true ∧ d.scope a = false ∧
    ∃ b ∈ d.rows, b.id ≠ a.id ∧ b.keyed = true ∧ b.dedupKey = a.dedupKey))

instance (decoder : Decoder) (node : Node) (op : NodeOp) : Decidable (Attentive decoder node op) :=
  inferInstanceAs (Decidable (op.ends = true ∧
    ∀ d ∈ node.dedupe decoder op, ¬ Overlooks node.index.messageSeq d ∧ d.Comparable))

/-! ## Keys stay unique -/

section

variable {store : Store} {seq : Nat} {rows : List Row} {new : List IndexedMessage}

/-- Old rows alone do not share a key. -/
theorem inserted_apart (unique : UniqueKeys rows) (new : List IndexedMessage) :
    (rows ++ withIds seq new).Pairwise fun a b =>
      a.id ≤ seq → b.id ≤ seq → a.keyed = true → b.keyed = true → a.dedupKey ≠ b.dedupKey := by
  rw [List.pairwise_append]
  refine ⟨unique.imp fun apart _ _ => apart, ?_, ?_⟩
  · refine (List.pairwise_of_forall_mem_list (r := fun a _ : Row => seq < a.id) ?_).imp ?_
    · exact fun a first _ _ => (withIds_bounds first).1
    · intro a b above below
      omega
  · intro a _ b fresh _ below
    have above := (withIds_bounds fresh).1
    omega

/-- A dedupe that overlooks no new row, and selects the old rows that share a key. -/
theorem covered_unique {d : Dedupe} (keyed : d.Keyed) (numbered : (d.rows.map (·.id)).Nodup)
    (calm : ¬ Overlooks seq d)
    (old : d.rows.Pairwise fun a b => a.id ≤ seq → b.id ≤ seq → a.keyed = true → b.keyed = true →
      a.dedupKey = b.dedupKey → d.scope a = true) : UniqueKeys d.result := by
  have selected : ∀ a ∈ d.rows, ∀ b ∈ d.rows, b.id ≠ a.id → a.keyed = true → b.keyed = true →
      b.dedupKey = a.dedupKey → seq < a.id → d.scope a = true := by
    intro a first b second distinct keyedA keyedB same above
    by_contra outside
    exact calm ⟨a, first, above, keyedA, by simpa using outside, b, second, distinct, keyedB, same⟩
  refine dedupe_unique numbered (((distinct_ids numbered).and old).imp_of_mem ?_)
  intro a b first second both keyedA keyedB same
  obtain ⟨distinct, covered⟩ := both
  have alike := keyed.same a b keyedA keyedB same
  -- one of the two rows is new, or both are old
  have inside : d.scope a = true := by
    by_cases aboveA : seq < a.id
    · exact selected a first b second distinct.symm keyedA keyedB same.symm aboveA
    · by_cases aboveB : seq < b.id
      · rw [alike]
        exact selected b second a first distinct keyedB keyedA same aboveB
      · exact covered (by omega) (by omega) keyedA keyedB same
  exact ⟨inside, alike ▸ inside⟩

theorem placeComponent_unnumbered (canonical : String) (group : List FileSummary)
    (rows : List Row) :
    (placeComponent canonical group rows).map Row.unnumbered =
      (rows.map fun row => if 1 < group.length ∧ row.gen ∈ group.map (·.gen) then
        { row with logicalSessionID := canonical } else row).map Row.unnumbered := by
  rw [placeComponent, updateFileOrdinalsForFiles, updateFileOrdinalsFrom_unnumbered]
  split
  · rename_i several
    rw [relabelFiles_eq]
    simp only [several, true_and]
  · rename_i alone
    simp [alone]

/-- The component's dedupe selects every old row that took the key of another one: it was
    relabelled, and so it bears the id of the component. -/
theorem component_covers {first : FileSummary} {group : List FileSummary}
    (tools : ∀ f ∈ group, f.gen.identity.tool = first.gen.identity.tool)
    (unique : UniqueKeys rows) :
    (placeComponent (canonicalID first) group (rows ++ withIds seq new)).Pairwise fun a b =>
      a.id ≤ seq → b.id ≤ seq → a.keyed = true → b.keyed = true → a.dedupKey = b.dedupKey →
        logicalScope first.gen.identity.tool (canonicalID first) a = true := by
  have lifted : ∀ l :
    List Row, (l.Pairwise fun a b => a.id ≤ seq → b.id ≤ seq → a.keyed = true → b.keyed = true →
      a.dedupKey = b.dedupKey → logicalScope first.gen.identity.tool (canonicalID first) a = true) ↔
      (l.map Row.unnumbered).Pairwise fun a b => a.id ≤ seq → b.id ≤ seq → a.keyed = true →
        b.keyed = true →
        a.dedupKey = b.dedupKey → logicalScope first.gen.identity.tool (canonicalID first) a =
            true := by
    intro l
    rw [List.pairwise_map]
    rfl
  rw [lifted, placeComponent_unnumbered, ← lifted, List.pairwise_map]
  refine (inserted_apart unique new).imp ?_
  intro a b apart
  have selected : ∀ row : Row, 1 < group.length ∧ row.gen ∈ group.map (·.gen) → row.keyed = true →
      logicalScope first.gen.identity.tool (canonicalID first)
        { row with logicalSessionID := canonicalID first } = true := by
    intro row moved keyed
    obtain ⟨f, listed, own⟩ := List.mem_map.mp moved.2
    have tool : row.tool = first.gen.identity.tool := by
      rw [← tools f listed, own]
      rfl
    simp only [logicalScope, Bool.and_eq_true, decide_eq_true_eq]
    exact ⟨⟨keyed, tool⟩, trivial⟩
  split
  · rename_i movedA
    exact fun _ _ keyedA _ _ => selected a movedA keyedA
  · split
    · rename_i movedB
      intro _ _ keyedA keyedB same
      have alike :=
        (logicalScope_keyed first.gen.identity.tool (canonicalID first) []).same a _ keyedA keyedB
        same
      exact alike.trans (selected b movedB keyedB)
    · exact fun belowA belowB keyedA keyedB same => absurd same (apart belowA belowB keyedA keyedB)

/-- The dedupe of an append, by the two ways its table and scope come about. -/
theorem unifyDedupe_covers {naive : Bool} {gen : GenKey} {placement : Option FilePlacement}
    {d : Dedupe}
    (numbered : Numbered seq rows) (unique : UniqueKeys rows)
    (runs : unifyDedupe store naive gen new placement (rows ++ withIds seq new) = some d) :
    d.Keyed ∧ (d.rows.map (·.id)).Nodup ∧ d.rows.Pairwise fun a b => a.id ≤ seq → b.id ≤ seq →
      a.keyed = true → b.keyed = true → a.dedupKey = b.dedupKey → d.scope a = true := by
  have inserted := numbered.inserted new
  unfold unifyDedupe at runs
  cases found : fileSummary store gen (rows ++ withIds seq new) with
  | none => rw [found] at runs; cases runs
  | some start =>
    simp only [found] at runs
    split at runs
    · cases runs
      refine ⟨settledScope_keyed _ _ appendedKeys_keyed _, inserted.distinct, ?_⟩
      exact (inserted_apart unique new).imp fun apart belowA belowB keyedA keyedB same =>
        absurd same (apart belowA belowB keyedA keyedB)
    · cases sorted : sortFiles (connectedFiles store (rows ++ withIds seq new) start) with
      | nil => rw [sorted] at runs; cases runs
      | cons first rest =>
        rw [sorted] at runs
        cases runs
        have tools : ∀ f ∈ first :: rest, f.gen.identity.tool = start.gen.identity.tool := by
          intro f member
          rw [← sorted, mem_sortFiles] at member
          exact connectedFiles_tool start f member
        refine ⟨logicalScope_keyed _ _ _,
          (inserted.maintained (placeComponent_maintained _ _)).distinct, ?_⟩
        exact component_covers (fun f member =>
          (tools f member).trans (tools first List.mem_cons_self).symm) unique

/-- Without a dedupe nothing new carries a key. -/
theorem unifyDedupe_none {naive : Bool} {gen : GenKey} {placement : Option FilePlacement}
    (own : ∀ row ∈ new, row.gen = gen)
    (idle : unifyDedupe store naive gen new placement (rows ++ withIds seq new) = none) :
    ∀ row ∈ new, row.quarantine = true := by
  unfold unifyDedupe at idle
  cases found : fileSummary store gen (rows ++ withIds seq new) with
  | none =>
    intro row member
    obtain ⟨placed, listed, same⟩ : ∃ placed ∈ withIds seq new, placed.toIndexedMessage = row := by
      have shown : row ∈ (withIds seq new).map Row.toIndexedMessage := by rwa [withIds_messages]
      exact List.mem_map.mp shown
    have held :=
      fileSummary_none found placed (List.mem_append_right _ listed)
      (by rw [same]; exact own row member)
    rwa [same] at held
  | some start =>
    simp only [found] at idle
    split at idle
    · cases idle
    · cases sorted : sortFiles (connectedFiles store (rows ++ withIds seq new) start) with
      | nil =>
        -- the component holds at least the file it starts from
        have present : start ∈ sortFiles (connectedFiles store (rows ++ withIds seq new) start) :=
          mem_sortFiles.mpr (start_connected start)
        rw [sorted] at present
        cases present
      | cons first rest => rw [sorted] at idle; cases idle

theorem unify_unique {naive : Bool} {gen : GenKey} {placement : Option FilePlacement}
    (numbered : Numbered seq rows) (unique : UniqueKeys rows) (own : ∀ row ∈ new, row.gen = gen)
    (calm : ∀ d ∈ unifyDedupe store naive gen new placement (rows ++ withIds seq new),
    ¬ Overlooks seq d) :
    UniqueKeys (unifyConnectedLogicalSessions store naive gen new placement
      (rows ++ withIds seq new)) := by
  have same := unify_eq store naive gen new placement (rows ++ withIds seq new)
  cases runs : unifyDedupe store naive gen new placement (rows ++ withIds seq new) with
  | some d =>
    rw [runs] at same
    obtain ⟨keyed, distinct, covers⟩ := unifyDedupe_covers numbered unique runs
    exact (covered_unique keyed distinct (calm d runs) covers).unnumbered same
  | none =>
    rw [runs] at same
    have held := unifyDedupe_none own runs
    refine UniqueKeys.unnumbered (List.pairwise_append.mpr ⟨unique, ?_, ?_⟩) same
    · refine List.pairwise_of_forall_mem_list fun a first _ _ keyedA => ?_
      have quarantined := held _ (mem_withIds first)
      rw [keyed_spares keyedA] at quarantined
      cases quarantined
    · intro a _ b second _ keyedB
      have quarantined := held _ (mem_withIds second)
      rw [keyed_spares keyedB] at quarantined
      cases quarantined

end

/-! ## Along a run -/

structure Index.Tidy (idx : Index) : Prop where
  numbered : Numbered idx.messageSeq idx.messages
  unique : UniqueKeys idx.messages

section

variable {decoder : Decoder} {node : Node}

theorem take_tidy {idx : Index} {store : Store} {ev : AppendEvent} {now : Timestamp}
    {rows : List IndexedMessage}
    (tidy : idx.Tidy) (own : ∀ row ∈ rows, row.gen = ev.gen)
    (calm : rows ≠ [] → ∀ d ∈ idx.dedupe store ev rows, ¬ Overlooks idx.messageSeq d) :
    (idx.take store ev now false rows).Tidy := by
  unfold Index.take
  split
  · exact tidy
  · rename_i some
    exact ⟨(tidy.numbered.inserted _).maintained (unifyConnected_maintained ..),
      unify_unique tidy.numbered tidy.unique (inherit_gen own) (calm some)⟩

/-- The events of a rebuild number the rows they insert. -/
theorem rebuild_numbered {now : Timestamp} {events : List AppendEvent}
    (numbered : Numbered node.index.messageSeq node.index.messages) :
    Numbered (events.foldl (fun node ev => node.processAppend decoder ev now true)
      node).index.messageSeq
      (events.foldl (fun node ev => node.processAppend decoder ev now true)
      node).index.messages := by
  induction events generalizing node with
  | nil => exact numbered
  | cons ev events inductionHypothesis =>
    rw [List.foldl_cons]
    apply inductionHypothesis
    cases found : node.index.newRows decoder node.store ev true with
    | error failure =>
      rw [processAppend_of_error found]
      exact numbered
    | ok result =>
      rw [processAppend_of_newRows found]
      have taken : Numbered (node.index.take node.store ev now true result.1).messageSeq
          (node.index.take node.store ev now true result.1).messages := by
        unfold Index.take
        split
        · exact numbered
        · exact numbered.inserted result.1
      exact taken

theorem unifyAll_eq (store : Store) (rows : List Row) :
    (unifyLogicalSessions store rows).map Row.unnumbered =
    (unifyAllDedupe store rows).result.map Row.unnumbered := by
  have kept : ∀ rows :
      List Row, (updateFileOrdinals store rows).map Row.unnumbered = rows.map Row.unnumbered := by
    intro rows
    simp only [updateFileOrdinals]
    generalize ((fileSummaries store rows).map sessionText).dedup = keys
    generalize fileSummaries store rows = files
    induction keys generalizing rows with
    | nil => rfl
    | cons key keys inductionHypothesis =>
      rw [List.foldl_cons, inductionHypothesis]
      exact updateFileOrdinalsFrom_unnumbered 0 _ _
  exact kept _

theorem unifyAll_unique {store : Store} {rows : List Row} {seq : Nat}
    (numbered : Numbered seq rows) :
    Numbered seq (unifyLogicalSessions store rows) ∧
      UniqueKeys (unifyLogicalSessions store rows) := by
  refine ⟨numbered.maintained (unifyLogicalSessions_maintained rows), ?_⟩
  have grouped :
      Maintained rows ((fileGroups rows (fileSummaries store rows)).foldl relabelGroup rows) :=
    foldl_maintained relabelGroup_maintained _ rows
  have distinct :=
    (numbered.maintained (grouped.trans (@updateFileOrdinals_maintained store _))).distinct
  have unique : UniqueKeys (unifyAllDedupe store rows).result :=
    dedupe_unique distinct (List.pairwise_of_forall fun _ _ keyedA keyedB _ => ⟨keyedA, keyedB⟩)
  exact unique.unnumbered (unifyAll_eq store rows)

theorem rebuiltFrom_messages (store : Store) (idx : Index) :
    (idx.rebuiltFrom store).messages = unifyLogicalSessions store idx.messages := by
  simp only [Index.rebuiltFrom]

theorem rebuiltFrom_messageSeq (store : Store) (idx : Index) :
    (idx.rebuiltFrom store).messageSeq = idx.messageSeq := by
  simp only [Index.rebuiltFrom]

theorem dedupe_append {ev : AppendEvent} {now : Timestamp} {result : List IndexedMessage × Nat}
    (found : node.index.newRows decoder node.store ev false = .ok result) :
    node.dedupe decoder (.append ev now) =
      if result.1 = [] then none else node.index.dedupe node.store ev result.1 := by
  unfold Node.dedupe
  simp [found]

theorem take_deduped {store : Store} {idx : Index} {ev : AppendEvent} {now : Timestamp}
    {rows : List IndexedMessage} {d : Dedupe} (nonempty : rows ≠ [])
    (runs : idx.dedupe store ev rows = some d) :
    (idx.take store ev now false rows).messages.map Row.unnumbered =
    d.result.map Row.unnumbered := by
  rw [Index.take, if_neg nonempty]
  have same :=
    unify_eq store idx.naiveMaintenance ev.gen (inheritFilePlacement idx.messages ev.gen rows).1
    (inheritFilePlacement idx.messages ev.gen rows).2
    (idx.messages ++ withIds idx.messageSeq (inheritFilePlacement idx.messages ev.gen rows).1)
  have found :
    unifyDedupe store idx.naiveMaintenance ev.gen (inheritFilePlacement idx.messages ev.gen rows).1
      (inheritFilePlacement idx.messages ev.gen rows).2
      (idx.messages ++ withIds idx.messageSeq (inheritFilePlacement idx.messages ev.gen rows).1) =
        some d := runs
  rw [found] at same
  exact same

theorem step_tidy {op : NodeOp} (attentive : Attentive decoder node op) (tidy : node.index.Tidy) :
    (node.apply decoder op).index.Tidy := by
  obtain ⟨ends, calm⟩ := attentive
  cases op with
  | store op | markDirty ev => exact tidy
  | reindexStopped generations now => cases ends
  | append ev now =>
    show (node.processAppend decoder ev now false).index.Tidy
    cases found : node.index.newRows decoder node.store ev false with
    | error failure =>
      rw [processAppend_of_error found]
      exact tidy
    | ok result =>
      rw [processAppend_of_newRows found]
      have taken : (node.index.take node.store ev now false result.1).Tidy := by
        refine take_tidy tidy (newRows_gen found) fun some d runs => ?_
        rw [dedupe_append found, if_neg some] at calm
        exact (calm d runs).1
      exact ⟨taken.numbered, taken.unique⟩
  | reindex now =>
    have rebuilt : Numbered (node.rebuild decoder now node.store.rebuildEvents).index.messageSeq
        (node.rebuild decoder now node.store.rebuildEvents).index.messages :=
      @rebuild_numbered decoder ⟨node.store, node.index.cleared⟩ now _ (numbered_nil _)
    rw [Node.apply, Node.reindex]
    generalize node.rebuild decoder now node.store.rebuildEvents = ended at rebuilt
    have unified := @unifyAll_unique ended.store _ _ rebuilt
    refine ⟨?_, ?_⟩
    · rw [rebuiltFrom_messages, rebuiltFrom_messageSeq]
      exact unified.1
    · rw [rebuiltFrom_messages]
      exact unified.2

/-- What a step that dedupes leaves: the result of its dedupe, ordinals aside. -/
theorem step_deduped {op : NodeOp} {d : Dedupe} (runs : node.dedupe decoder op = some d) :
    (node.apply decoder op).index.messages.map Row.unnumbered = d.result.map Row.unnumbered := by
  cases op with
  | store op | markDirty ev | reindexStopped generations now => cases runs
  | append ev now =>
    show (node.processAppend decoder ev now false).index.messages.map Row.unnumbered = _
    cases found : node.index.newRows decoder node.store ev false with
    | error failure =>
      unfold Node.dedupe at runs
      simp [found] at runs
    | ok result =>
      rw [dedupe_append found] at runs
      split at runs
      · cases runs
      · rename_i nonempty
        rw [processAppend_of_newRows found]
        exact take_deduped nonempty runs
  | reindex now =>
    cases runs
    rw [Node.apply, Node.reindex]
    generalize node.rebuild decoder now node.store.rebuildEvents = ended
    rw [rebuiltFrom_messages]
    exact unifyAll_eq ended.store ended.index.messages

theorem run_tidy {naive : Bool} {ops : List NodeOp}
    (attentive : (Node.empty naive).Along decoder (Attentive decoder) ops) :
    ((Node.empty naive).run decoder ops).index.Tidy :=
  Node.along_keeps (fun node => node.index.Tidy)
    (fun _ _ attentive tidy => step_tidy attentive tidy) attentive
    ⟨numbered_nil 0, List.Pairwise.nil⟩

end

/-- After every step of a run whose steps are attentive no two parsed rows share a dedup
    key, and a dedupe leaves of every key the row that is first in the transcript. -/
theorem dedup_unique_preferred {decoder : Decoder} {naive : Bool} {ops : List NodeOp}
    (attentive : (Node.empty naive).Along decoder (Attentive decoder) ops) :
    UniqueKeys ((Node.empty naive).run decoder ops).index.messages ∧
      ∀ op d, Attentive decoder ((Node.empty naive).run decoder ops) op →
        ((Node.empty naive).run decoder ops).dedupe decoder op = some d →
          (((Node.empty naive).run decoder ops).apply decoder op).index.messages.map
          Row.unnumbered =
              d.result.map Row.unnumbered ∧
            ∀ row ∈ d.rows, d.scope row = true →
              ∃ kept ∈ d.result, d.scope kept = true ∧ kept.dedupKey = row.dedupKey ∧
                ∀ rival ∈ d.rows, d.scope rival = true → rival.dedupKey = row.dedupKey →
                  transcriptBefore rival.toIndexedMessage kept.toIndexedMessage = false := by
  refine ⟨(run_tidy attentive).unique, ?_⟩
  intro op d here runs
  refine ⟨step_deduped runs, fun row member competing => ?_⟩
  exact survivor_first (here.2 d runs).2 member competing

theorem dedup_unique_preferred_sample :
    UniqueKeys ((Node.empty false).run twoKeys lateRun).index.messages ∧
      ∀ d, ((Node.empty false).run twoKeys lateRun).dedupe twoKeys (.reindex sampleTime) = some d →
        ∀ row ∈ d.rows, d.scope row = true → ∃ kept ∈ d.result, d.scope kept = true ∧
          kept.dedupKey = row.dedupKey ∧
          ∀ rival ∈ d.rows, d.scope rival = true → rival.dedupKey = row.dedupKey →
            transcriptBefore rival.toIndexedMessage kept.toIndexedMessage = false := by
  have kept :=
    dedup_unique_preferred
    (by decide +kernel : (Node.empty false).Along twoKeys (Attentive twoKeys) lateRun)
  exact ⟨kept.1, fun d runs => (kept.2 (.reindex sampleTime) d (by decide +kernel) runs).2⟩

/-! ## An overlooked key and a reversed pair -/

/-- A line of another session than the first line's. -/
def sessionFields (session uuid : String) : List (String × String) :=
  [("type", "user"), ("uuid", uuid), ("sessionId", session)]

def twoSessions : Decoder := sampleDecoder [sessionFields "a" "one", sessionFields "b" "two"] []

/-- The second session's only line, twice. -/
def twiceBody : Bytes :=
  transcript [objectText (sessionFields "a" "one"), objectText (sessionFields "b" "two"),
    objectText (sessionFields "b" "two")]

def halfSecond : Timestamp := ⟨2026, 1, 1, 0, 0, 0, 500000000, by decide⟩

def timedFields (time : Timestamp) : List (String × String) :=
  [("type", "user"), ("uuid", "one"), ("timestamp", time.text)]

def twoTimes : Decoder := sampleDecoder [timedFields sampleTime, timedFields halfSecond]
    [sampleTime, halfSecond]

/-- One message at `…:00Z` and again at `…:00.5Z`. -/
def timedBody : Bytes :=
  transcript [objectText (timedFields sampleTime), objectText (timedFields halfSecond)]

theorem duplicate_stays_later_kept :
    ¬ UniqueKeys ((Node.empty false).run twoSessions
        [putBody (sampleGen 1 2) 0 twiceBody,
        deliver (sampleGen 1 2) twiceBody.length]).index.messages ∧
      ∃ d ∈ ((Node.empty false).run twoTimes [putBody (sampleGen 1 2) 0 timedBody]).dedupe twoTimes
          (deliver (sampleGen 1 2) timedBody.length),
        ∃ kept ∈ d.result, ∃ rival ∈ d.rows, d.scope kept = true ∧ d.scope rival = true ∧
          rival.dedupKey = kept.dedupKey ∧
            transcriptBefore rival.toIndexedMessage kept.toIndexedMessage = true := by
  decide +kernel

end AiConfig.Sesh
