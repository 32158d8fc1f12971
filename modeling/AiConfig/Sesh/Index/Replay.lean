import AiConfig.Sesh.Index.Lines
import AiConfig.Sesh.Index.Numbered
import AiConfig.Sesh.Index.Registry

/-! # Redelivered and late events

`Indexed` says how the tables stand to the mirror: a complete offset ends a line below
the high-water, every row is one of the lines before it, each line has at most one row,
a quarantined line has its row, and the ledger names each quarantined line once.  An
event keeps it (`Delivered`), unless it replays a vanished file up to an offset that
is already indexed: that call lowers the complete offset. -/

namespace AiConfig.Sesh

open AiConfig.Lib AiConfig.Sesh.Wire

def IndexedMessage.span (row : IndexedMessage) : GenKey × Nat × Nat :=
  (row.gen, row.byteStart, row.byteEnd)

def Line.span (line : Line) (gen : GenKey) : GenKey × Nat × Nat := (gen, line.start, line.stop)

/-- The line a ledger row names. -/
def LedgerRow.line (entry : LedgerRow) : GenKey × Nat := (entry.gen, entry.lineOrdinal)

structure Indexed (decoder : Decoder) (store : Store) (messages : List Row) (offset : GenKey → Nat)
    (ledger : List LedgerRow) : Prop where
  within : ∀ gen, offset gen ≤ store.highWater gen
  ended : ∀ gen, Ended ((store.mirrorOf gen).take (offset gen))
  spans : (messages.map fun row => row.span).Nodup
  parsed : ∀ row ∈ messages, ∃ line ∈ linesBetween (store.mirrorOf row.gen) 0 (offset row.gen),
    row.span = line.span row.gen
  quarantined : ∀ gen, ∀ line ∈ linesBetween (store.mirrorOf gen) 0 (offset gen),
    (indexLine decoder gen line).quarantine = true → ∃ row ∈ messages, row.span = line.span gen ∧
      row.quarantine = true
  entries : (ledger.map LedgerRow.line).Nodup
  recorded : ∀ entry ∈ ledger, entry.lineOrdinal <
    lineOrdinalAt (store.mirrorOf entry.gen) (offset entry.gen)

theorem indexed_empty (decoder : Decoder) (store : Store) : Indexed decoder store [] (fun _ => 0)
    [] where
  within _ := Nat.zero_le _
  ended gen := ended_zero _
  spans := List.nodup_nil
  parsed _ member := (List.not_mem_nil member).elim
  quarantined gen line member := by
    rw [linesBetween_zero] at member
    exact (List.not_mem_nil member).elim
  entries := List.nodup_nil
  recorded _ member := (List.not_mem_nil member).elim

@[simp] theorem indexLine_span (decoder : Decoder) (gen : GenKey) (line : Line) :
    (indexLine decoder gen line).span = line.span gen := by
  unfold indexLine
  split
  · rfl
  · unfold parseLine
    split <;> rfl

@[simp] theorem indexLine_lineOrdinal (decoder : Decoder) (gen : GenKey) (line : Line) :
    (indexLine decoder gen line).lineOrdinal = line.ordinal := by
  unfold indexLine
  split
  · rfl
  · unfold parseLine
    split <;> rfl

section

variable {decoder : Decoder} {store store' : Store} {messages : List Row} {offset : GenKey → Nat}
  {ledger : List LedgerRow} {gen : GenKey}

/-! ## Steps around the events -/

theorem span_of_fixed {row other : Row} (same : other.fixed = row.fixed) :
    other.span = row.span := by
  have spans : other.fixed.span = row.fixed.span := congrArg (fun r : Row => r.span) same
  exact spans

theorem mem_fixed {rows : List Row} {row : Row} (member : row.fixed ∈ rows.map Row.fixed) :
    ∃ other ∈ rows, other.span = row.span := by
  obtain ⟨other, listed, same⟩ := List.mem_map.mp member
  exact ⟨other, listed, span_of_fixed same⟩

theorem Indexed.maintained (indexed : Indexed decoder store messages offset ledger)
    {after : List Row}
    (maintained : Maintained messages after) : Indexed decoder store after offset ledger where
  within := indexed.within
  ended := indexed.ended
  spans := by
    have sublist := (maintained.kept).map fun row : Row => row.span
    rw [List.map_map, List.map_map] at sublist
    exact sublist.nodup indexed.spans
  parsed row member := by
    obtain ⟨other, listed, same⟩ := mem_fixed (maintained.kept.subset (List.mem_map_of_mem member))
    obtain ⟨line, found, shown⟩ := indexed.parsed other listed
    have gens : other.gen = row.gen := congrArg Prod.fst same
    rw [gens] at found shown
    exact ⟨line, found, same.symm.trans shown⟩
  quarantined gen line found held := by
    obtain ⟨row, member, shown, flagged⟩ := indexed.quarantined gen line found held
    have listed : row.fixed ∈ (after.filter (·.quarantine)).map Row.fixed := by
      rw [maintained.quarantined]
      exact List.mem_map_of_mem (List.mem_filter.mpr ⟨member, flagged⟩)
    obtain ⟨other, kept, same⟩ := List.mem_map.mp listed
    obtain ⟨otherMember, otherFlag⟩ := List.mem_filter.mp kept
    exact ⟨other, otherMember, (span_of_fixed same).trans shown, otherFlag⟩
  entries := indexed.entries
  recorded := indexed.recorded

theorem linesBetween_advances (advances : store.Advances store') {stop : Nat}
    (below : stop ≤ store.highWater gen) :
    (store'.mirrorOf gen).take stop = (store.mirrorOf gen).take stop := by
  have cut := congrArg (List.take stop) (advances gen).2
  rwa [List.take_take, List.take_take, Nat.min_eq_left below] at cut

/-- The mirror only grows. -/
theorem Indexed.advanced (indexed : Indexed decoder store messages offset ledger)
    (advances : store.Advances store') : Indexed decoder store' messages offset ledger where
  within gen := Nat.le_trans (indexed.within gen) (advances gen).1
  ended gen := by
    rw [linesBetween_advances advances (indexed.within gen)]
    exact indexed.ended gen
  spans := indexed.spans
  parsed row member := by
    rw [linesBetween_zero, linesBetween_advances advances (indexed.within row.gen),
      ← linesBetween_zero]
    exact indexed.parsed row member
  quarantined gen line found := by
    rw [linesBetween_zero, linesBetween_advances advances (indexed.within gen),
      ← linesBetween_zero] at found
    exact indexed.quarantined gen line found
  entries := indexed.entries
  recorded entry member := by
    rw [lineOrdinalAt, linesBetween_advances advances (indexed.within entry.gen), ← lineOrdinalAt]
    exact indexed.recorded entry member

/-! ## Delivering an event -/

/-- The lines an event adds beyond the complete offset of its generation: those after it,
    and on a replay lines before it that have no row. -/
structure Delivered (decoder : Decoder) (store : Store) (messages : List Row)
    (offset : GenKey → Nat)
    (ev : AppendEvent) (rows : List IndexedMessage) (complete : Nat) : Prop where
  forward : offset ev.gen ≤ ev.byteEnd
  complete : complete = consumed ((store.mirrorOf ev.gen).take ev.byteEnd)
  lines : ∃ lines : List Line, rows = lines.map (indexLine decoder ev.gen) ∧
    lines.Sublist (linesBetween (store.mirrorOf ev.gen) 0 ev.byteEnd) ∧
    (∀ line ∈ lines, line.span ev.gen ∉ messages.map fun row => row.span) ∧
    (∀ line ∈ linesBetween (store.mirrorOf ev.gen) (offset ev.gen) ev.byteEnd, line ∈ lines) ∧
    ∀ line ∈ lines, (indexLine decoder ev.gen line).quarantine = true →
      line ∈ linesBetween (store.mirrorOf ev.gen) (offset ev.gen) ev.byteEnd

/-- Lines beyond the complete offset have no row yet. -/
theorem Indexed.beyond (indexed : Indexed decoder store messages offset ledger) {stop : Nat}
    {line : Line}
    (found : line ∈ linesBetween (store.mirrorOf gen) (offset gen) stop) :
    line.span gen ∉ messages.map fun row => row.span := by
  intro listed
  obtain ⟨row, member, same⟩ := List.mem_map.mp listed
  obtain ⟨old, oldFound, shown⟩ := indexed.parsed row member
  have gens : row.gen = gen := congrArg Prod.fst same
  rw [gens] at oldFound shown
  rw [linesBetween_zero] at oldFound
  have starts : old.start = line.start := congrArg (·.2.1) (shown.symm.trans same)
  have early := numbered_bounds old oldFound
  have late := numbered_bounds line found
  have short : extent (completeLines ((store.mirrorOf gen).take (offset gen))) ≤ offset gen :=
    Nat.le_trans (consumed_le _) (by rw [List.length_take]; exact Nat.min_le_left _ _)
  omega

theorem survives_iff {rows : List Row} {row : IndexedMessage} :
    survives rows row = true ↔ row.span ∈ rows.map fun old => old.span := by
  simp only [survives, List.any_eq_true, Bool.and_eq_true, decide_eq_true_eq, List.mem_map,
    IndexedMessage.span,
    Prod.mk.injEq, and_assoc]

/-- An event whose end is beyond the complete offset. -/
theorem newRows_delivered {idx : Index} {ev : AppendEvent} (wellFormed : store.WellFormed)
    (indexed : Indexed decoder store idx.messages idx.offset ledger)
    (published : ev.byteEnd ≤ store.highWater ev.gen)
    (ahead : idx.offset ev.gen < ev.byteEnd) (rebuild : Bool) :
    ∃ rows complete, idx.newRows decoder store ev rebuild = .ok (rows, complete) ∧
      Delivered decoder store idx.messages idx.offset ev rows complete := by
  have covered : ev.byteEnd ≤ (store.mirrorOf ev.gen).length :=
    Nat.le_trans published (highWater_le wellFormed ev.gen)
  have ended := indexed.ended ev.gen
  have inside : idx.offset ev.gen ≤ (store.mirrorOf ev.gen).length := by omega
  have split := linesBetween_split ended inside (Nat.le_of_lt ahead)
  have parse : ∀ start, start < ev.byteEnd → parseComplete decoder store ev start =
      .ok ((linesBetween (store.mirrorOf ev.gen) start ev.byteEnd).map (indexLine decoder ev.gen),
        ((linesBetween (store.mirrorOf ev.gen) start ev.byteEnd).getLast?.map (·.stop)).getD
            start) := by
    intro start before
    rw [parseComplete, if_neg (Nat.not_le_of_lt before)]
    exact if_neg (Nat.not_lt_of_le covered)
  unfold Index.newRows
  split
  · -- a replay: every line of the file that has no row
    refine ⟨_, _, by rw [parse 0 (by omega)]; rfl, Nat.le_of_lt ahead, ?_, ?_⟩
    · exact linesBetween_last (ended_zero _) (Nat.zero_le _) (Nat.zero_le _)
    · refine ⟨(linesBetween (store.mirrorOf ev.gen) 0 ev.byteEnd).filter fun line =>
        !survives idx.messages (indexLine decoder ev.gen line), ?_, List.filter_sublist, ?_, ?_, ?_⟩
      · rw [List.filter_map]
        rfl
      · intro line member listed
        have gone := (List.mem_filter.mp member).2
        have kept : survives idx.messages (indexLine decoder ev.gen line) = true :=
          survives_iff.mpr (by rwa [indexLine_span])
        rw [kept] at gone
        cases gone
      · intro line later
        refine List.mem_filter.mpr ⟨by rw [split]; exact List.mem_append_right _ later, ?_⟩
        have fresh := indexed.beyond later
        rw [Bool.not_eq_true', Bool.eq_false_iff]
        intro kept
        have listed := survives_iff.mp kept
        rw [indexLine_span] at listed
        exact fresh listed
      · intro line member held
        obtain ⟨found, gone⟩ := List.mem_filter.mp member
        rw [split] at found
        rcases List.mem_append.mp found with early | later
        · -- a quarantined line before the offset still has its row
          obtain ⟨row, listed, shown, _⟩ := indexed.quarantined ev.gen line early held
          have kept : survives idx.messages (indexLine decoder ev.gen line) = true :=
              survives_iff.mpr (by
            rw [indexLine_span, ← shown]
            exact List.mem_map_of_mem listed)
          rw [kept] at gone
          cases gone
        · exact later
  · refine ⟨_, _, parse _ ahead, Nat.le_of_lt ahead, ?_, ?_⟩
    · exact linesBetween_last ended inside (Nat.le_of_lt ahead)
    · refine ⟨_, rfl, ?_, fun line found => indexed.beyond found, fun _ found => found,
        fun _ found _ => found⟩
      rw [split]
      exact List.sublist_append_right _ _

/-- The columns of a row that tell its line. -/
def IndexedMessage.mark (row : IndexedMessage) : (GenKey × Nat × Nat) × Bool :=
  (row.span, row.quarantine)

theorem withIds_marks (seq : Nat) (rows : List IndexedMessage) :
    ((withIds seq rows).map fun row => row.mark) = rows.map IndexedMessage.mark := by
  conv_rhs => rw [← withIds_messages seq rows, List.map_map]
  rfl

theorem lines_spans_nodup {mirror : Bytes} {stop : Nat} {lines : List Line}
    (sublist : lines.Sublist (linesBetween mirror 0 stop)) :
    (lines.map fun line => line.span gen).Nodup := by
  rw [linesBetween_zero] at sublist
  refine ((List.Pairwise.sublist sublist (numbered_ordered 0 0 _)).imp_of_mem ?_).map _
    fun _ _ distinct => distinct
  intro a b first second order same
  have bounds := numbered_bounds a (sublist.subset first)
  have starts : a.start = b.start := congrArg (·.2.1) same
  omega

theorem lineOrdinalAt_consumed (mirror : Bytes) (stop : Nat) :
    lineOrdinalAt mirror (consumed (mirror.take stop)) =
      (completeLines (mirror.take stop)).length := by
  have within : consumed (mirror.take stop) ≤ stop :=
    Nat.le_trans (consumed_le _) (by rw [List.length_take]; exact Nat.min_le_left _ _)
  have same := completeLines_take_consumed (mirror.take stop)
  rw [List.take_take, Nat.min_eq_left within] at same
  rw [lineOrdinalAt_eq, same]

/-- Ordinals of lines at and beyond an offset. -/
theorem linesBetween_ordinals {mirror : Bytes} {start stop : Nat} {line : Line}
    (found : line ∈ linesBetween mirror start stop) : lineOrdinalAt mirror start ≤ line.ordinal :=
  (numbered_bounds line found).1

theorem Delivered.indexed {ev : AppendEvent} {rows placed : List IndexedMessage}
    {complete seq : Nat}
    {fresh : List LedgerRow} (wellFormed : store.WellFormed)
    (indexed : Indexed decoder store messages offset ledger)
    (published : ev.byteEnd ≤ store.highWater ev.gen)
    (delivered : Delivered decoder store messages offset ev rows complete)
    (marks : placed.map IndexedMessage.mark = rows.map IndexedMessage.mark)
    (noted : fresh.map LedgerRow.line = (rows.filter (·.quarantine)).map fun row =>
    (row.gen, row.lineOrdinal)) :
    Indexed decoder store (messages ++ withIds seq placed) (Function.update offset ev.gen complete)
      (ledger ++ fresh) := by
  obtain ⟨forward, rfl, lines, rfl, sublist, unseen_, later, beyond⟩ := delivered
  have covered : ev.byteEnd ≤ (store.mirrorOf ev.gen).length :=
    Nat.le_trans published (highWater_le wellFormed ev.gen)
  have split := linesBetween_split (indexed.ended ev.gen) (Nat.le_trans forward covered) forward
  -- the rows inserted, by span and flag
  have inserted : ((withIds seq placed).map fun row => row.mark) =
      lines.map fun line => (line.span ev.gen, (indexLine decoder ev.gen line).quarantine) := by
    rw [withIds_marks, marks, List.map_map]
    exact List.map_congr_left fun line _ => by simp [IndexedMessage.mark]
  have spans : ((withIds seq placed).map fun row => row.span) = lines.map fun line =>
      line.span ev.gen := by
    have firsts := congrArg (List.map Prod.fst) inserted
    rwa [List.map_map, List.map_map] at firsts
  have mem_inserted : ∀ line ∈ lines, ∃ row ∈ withIds seq placed, row.span = line.span ev.gen ∧
      row.quarantine = (indexLine decoder ev.gen line).quarantine := by
    intro line member
    have listed : (line.span ev.gen, (indexLine decoder ev.gen line).quarantine) ∈
        (withIds seq placed).map fun row => row.mark := by
      rw [inserted]
      exact List.mem_map_of_mem member
    obtain ⟨row, rowMember, same⟩ := List.mem_map.mp listed
    exact ⟨row, rowMember, congrArg Prod.fst same, congrArg Prod.snd same⟩
  -- Ordinals count from the first line: those before the parse are below those of its lines.
  have marked : lineOrdinalAt (store.mirrorOf ev.gen) (offset ev.gen) ≤
      (completeLines ((store.mirrorOf ev.gen).take ev.byteEnd)).length := by
    rw [lineOrdinalAt_eq, completeLines_split (indexed.ended ev.gen) forward, List.length_append]
    exact Nat.le_add_right _ _
  have ordinals : fresh.map LedgerRow.line =
      (lines.filter fun line => (indexLine decoder ev.gen line).quarantine).map fun line =>
          (ev.gen, line.ordinal) := by
    rw [noted, List.filter_map, List.map_map]
    exact List.map_congr_left fun line _ => by simp
  -- A new ledger entry names a quarantined line of this parse.
  have held : ∀ entry ∈ fresh, entry.gen = ev.gen ∧ ∃ line ∈ lines,
      (indexLine decoder ev.gen line).quarantine = true ∧ entry.lineOrdinal = line.ordinal := by
    intro entry member
    have listed : entry.line ∈ fresh.map LedgerRow.line := List.mem_map_of_mem member
    rw [ordinals] at listed
    obtain ⟨line, found, same⟩ := List.mem_map.mp listed
    obtain ⟨lineMember, flagged⟩ := List.mem_filter.mp found
    exact ⟨(congrArg Prod.fst same).symm, line, lineMember, flagged, (congrArg Prod.snd same).symm⟩
  have within : consumed ((store.mirrorOf ev.gen).take ev.byteEnd) ≤ ev.byteEnd :=
    Nat.le_trans (consumed_le _) (by rw [List.length_take]; exact Nat.min_le_left _ _)
  constructor
  case within =>
    intro gen
    by_cases own : gen = ev.gen
    · subst own
      rw [Function.update_self]
      exact Nat.le_trans within published
    · rw [Function.update_of_ne own]
      exact indexed.within gen
  case ended =>
    intro gen
    by_cases own : gen = ev.gen
    · subst own
      rw [Function.update_self]
      exact consumed_ended _ _
    · rw [Function.update_of_ne own]
      exact indexed.ended gen
  case spans =>
    rw [List.map_append, spans, List.nodup_append]
    -- A line whose span has a row already is not inserted again.
    refine ⟨indexed.spans, lines_spans_nodup sublist, ?_⟩
    rintro span known _ new rfl
    obtain ⟨line, member, rfl⟩ := List.mem_map.mp new
    exact unseen_ line member known
  case parsed =>
    intro row member
    rcases List.mem_append.mp member with old | new
    · by_cases own : row.gen = ev.gen
      · obtain ⟨line, found, shown⟩ := indexed.parsed row old
        rw [own] at found ⊢
        rw [Function.update_self, linesBetween_consumed, split]
        exact ⟨line, List.mem_append_left _ found, own ▸ shown⟩
      · rw [Function.update_of_ne own]
        exact indexed.parsed row old
    · have listed : row.span ∈ (withIds seq placed).map fun row => row.span :=
        List.mem_map_of_mem new
      rw [spans] at listed
      obtain ⟨line, found, shown⟩ := List.mem_map.mp listed
      have own : row.gen = ev.gen := (congrArg Prod.fst shown).symm
      rw [own, Function.update_self, linesBetween_consumed]
      exact ⟨line, sublist.subset found, shown.symm⟩
  case quarantined =>
    intro gen line found flagged
    by_cases own : gen = ev.gen
    · subst own
      rw [Function.update_self, linesBetween_consumed, split] at found
      rcases List.mem_append.mp found with early | new
      · obtain ⟨row, member, shown⟩ := indexed.quarantined _ line early flagged
        exact ⟨row, List.mem_append_left _ member, shown⟩
      -- A quarantined line that is parsed now is inserted whatever is there.
      · obtain ⟨row, member, shown, flag⟩ := mem_inserted line (later line new)
        exact ⟨row, List.mem_append_right _ member, shown, flag.trans flagged⟩
    · rw [Function.update_of_ne own] at found
      obtain ⟨row, member, shown⟩ := indexed.quarantined gen line found flagged
      exact ⟨row, List.mem_append_left _ member, shown⟩
  case entries =>
    rw [List.map_append, List.nodup_append]
    refine ⟨indexed.entries, ?_, ?_⟩
    · rw [ordinals]
      have ordered : (lines.filter fun line => (indexLine decoder ev.gen line).quarantine).Pairwise
          fun a b => a.ordinal < b.ordinal ∧ a.stop ≤ b.start := by
        rw [linesBetween_zero] at sublist
        exact (numbered_ordered 0 0 _).sublist (List.filter_sublist.trans sublist)
      refine (ordered.imp ?_).map _ fun _ _ distinct => distinct
      intro a b order same
      have equal : a.ordinal = b.ordinal := congrArg Prod.snd same
      omega
    · rintro _ known _ new rfl
      obtain ⟨entry, entryMember, rfl⟩ := List.mem_map.mp known
      obtain ⟨other, otherMember, same⟩ := List.mem_map.mp new
      -- Entries that are there lie below the start of the parse, new ones from it on.
      obtain ⟨own, line, lineMember, flagged, ordinal⟩ := held other otherMember
      have gens : entry.gen = ev.gen := (congrArg Prod.fst same).symm.trans own
      have below := indexed.recorded entry entryMember
      have above := linesBetween_ordinals (beyond line lineMember flagged)
      have equal : entry.lineOrdinal = line.ordinal := (congrArg Prod.snd same).symm.trans ordinal
      rw [gens] at below
      omega
  case recorded =>
    intro entry member
    rcases List.mem_append.mp member with old | new
    · have below := indexed.recorded entry old
      by_cases own : entry.gen = ev.gen
      · rw [own] at below ⊢
        rw [Function.update_self, lineOrdinalAt_consumed]
        exact Nat.lt_of_lt_of_le below marked
      · rw [Function.update_of_ne own]
        exact below
    · obtain ⟨own, line, lineMember, _, ordinal⟩ := held entry new
      rw [own, Function.update_self, lineOrdinalAt_consumed, ordinal]
      have found := sublist.subset lineMember
      rw [linesBetween_zero] at found
      have bounds := numbered_bounds line found
      omega

end

/-! ## Events on the tables -/

section

variable {decoder : Decoder} {store : Store} {idx : Index} {ev : AppendEvent} {now : Timestamp}

@[simp] theorem setCompleteOffset_offset (idx : Index) (gen : GenKey) (complete : Nat) :
    (idx.setCompleteOffset gen complete).offset = Function.update idx.offset gen complete := by
  funext other
  unfold Index.offset Index.setCompleteOffset
  by_cases own : other = gen
  · subst own
    simp
  · simp [Function.update_of_ne own]

/-- An event up to an indexed offset finds nothing new, unless it replays the file. -/
theorem applyAppend_stale (stale : ev.byteEnd ≤ idx.offset ev.gen) {rebuild : Bool}
    (settled : rebuild = true ∨ idx.replays ev.gen = false) :
    idx.applyAppend decoder store ev now rebuild =
      .ok (idx.setCompleteOffset ev.gen (idx.offset ev.gen)) := by
  have direct : (!rebuild && idx.replays ev.gen) = false := by
    rcases settled with rebuilding | calm
    · simp [rebuilding]
    · simp [calm]
  have nothing : idx.newRows decoder store ev rebuild = .ok ([], idx.offset ev.gen) := by
    rw [Index.newRows, direct, if_neg (by simp), parseComplete, if_pos stale]
  exact applyAppend_of_newRows nothing now

theorem place_mark (placement : FilePlacement) (row : IndexedMessage) :
    (row.place placement).mark = row.mark := by
  unfold IndexedMessage.place
  split <;> rfl

theorem inherit_marks (messages : List Row) (gen : GenKey) (rows : List IndexedMessage) :
    (inheritFilePlacement messages gen rows).1.map IndexedMessage.mark =
    rows.map IndexedMessage.mark := by
  unfold inheritFilePlacement
  split
  · rfl
  · rw [List.map_map]
    exact List.map_congr_left fun row _ => place_mark _ row

theorem place_quarantined (placement : FilePlacement) (row : IndexedMessage)
    (held : row.quarantine = true) :
    row.place placement = row := if_pos held

/-- Placement leaves quarantined rows alone. -/
theorem inherit_quarantined (messages : List Row) (gen : GenKey) (rows : List IndexedMessage) :
    (inheritFilePlacement messages gen rows).1.filter (·.quarantine) =
    rows.filter (·.quarantine) := by
  unfold inheritFilePlacement
  split
  · rfl
  · rename_i placement _
    have flags :
      ((fun row : IndexedMessage => row.quarantine) ∘ fun row : IndexedMessage =>
      row.place placement) =
        fun row : IndexedMessage => row.quarantine :=
          funext fun row => congrArg Prod.snd (place_mark placement row)
    rw [List.filter_map, flags]
    calc (rows.filter (·.quarantine)).map (fun row => row.place placement)
        = (rows.filter (·.quarantine)).map fun row => row :=
          List.map_congr_left fun row member =>
            place_quarantined placement row (List.mem_filter.mp member).2
      _ = rows.filter (·.quarantine) := List.map_id' _

/-- An event of a rebuild: the ledger being rebuilt takes the part of the ledger. -/
theorem take_rebuild_indexed {rows : List IndexedMessage} {complete : Nat}
    (wellFormed : store.WellFormed)
    (indexed : Indexed decoder store idx.messages idx.offset idx.rebuilt)
    (published : ev.byteEnd ≤ store.highWater ev.gen)
    (delivered : Delivered decoder store idx.messages idx.offset ev rows complete) :
    Indexed decoder store (idx.take store ev now true rows).messages
      (Function.update idx.offset ev.gen complete)
      (idx.take store ev now true rows).rebuilt := by
  unfold Index.take
  split
  · rename_i nothing
    subst nothing
    have kept : Indexed decoder store (idx.messages ++ withIds 0 [])
      (Function.update idx.offset ev.gen complete)
        (idx.rebuilt ++ []) := delivered.indexed wellFormed indexed published rfl rfl
    rwa [withIds, List.append_nil, List.append_nil] at kept
  · exact delivered.indexed wellFormed indexed published rfl (by rw [List.map_map]; rfl)

theorem take_indexed {rows : List IndexedMessage} {complete : Nat} (wellFormed : store.WellFormed)
    (indexed : Indexed decoder store idx.messages idx.offset idx.ledger)
    (published : ev.byteEnd ≤ store.highWater ev.gen)
    (delivered : Delivered decoder store idx.messages idx.offset ev rows complete) :
    Indexed decoder store (idx.take store ev now false rows).messages
      (Function.update idx.offset ev.gen complete)
      (idx.take store ev now false rows).ledger := by
  unfold Index.take
  split
  · rename_i nothing
    subst nothing
    have kept : Indexed decoder store (idx.messages ++ withIds 0 [])
      (Function.update idx.offset ev.gen complete)
        (idx.ledger ++ []) := delivered.indexed wellFormed indexed published rfl rfl
    rwa [withIds, List.append_nil, List.append_nil] at kept
  · have inserted : Indexed decoder store
        (idx.messages ++ withIds idx.messageSeq (inheritFilePlacement idx.messages ev.gen rows).1)
        (Function.update idx.offset ev.gen complete)
        (idx.ledger ++ ((inheritFilePlacement idx.messages ev.gen rows).1.filter (·.quarantine)).map
            (ledgerRow now)) :=
      delivered.indexed wellFormed indexed published (inherit_marks _ _ _)
        (by rw [inherit_quarantined, List.map_map]; rfl)
    exact inserted.maintained (unifyConnected_maintained ..)

end

/-! ## Runs -/

/-- An event up to an offset that was published, and not a replay of what is indexed
    already; a rebuild that runs to its end. -/
def Orderly (node : Node) : NodeOp → Prop
  | .append ev _ => ev.byteEnd ≤ node.store.highWater ev.gen ∧
      (node.index.replays ev.gen = true → node.index.offset ev.gen < ev.byteEnd)
  | .reindexStopped _ _ => False
  | .store _ | .markDirty _ | .reindex _ => True

instance (node : Node) : (op : NodeOp) → Decidable (Orderly node op)
  | .append _ _ => inferInstanceAs (Decidable (_ ∧ _))
  | .reindexStopped _ _ => inferInstanceAs (Decidable False)
  | .store _ | .markDirty _ | .reindex _ => inferInstanceAs (Decidable True)

structure Node.Good (decoder : Decoder) (node : Node) : Prop where
  wellFormed : node.store.WellFormed
  indexed : Indexed decoder node.store node.index.messages node.index.offset node.index.ledger
  idle : node.index.rebuilt = []

section

variable {decoder : Decoder} {node : Node}

theorem empty_good (decoder : Decoder) (naive : Bool) : (Node.empty naive).Good decoder :=
  ⟨Store.empty_wellFormed, indexed_empty decoder _, rfl⟩

theorem Node.Good.stored (good : node.Good decoder) {store : Store} (wellFormed : store.WellFormed)
    (advances : node.store.Advances store) : Node.Good decoder { node with store := store } :=
  ⟨wellFormed, good.indexed.advanced advances, good.idle⟩

theorem Node.Good.dirtied (good : node.Good decoder) (gen : GenKey) (dirty : Bool) :
    Node.Good decoder { node with store := node.store.setDirty gen dirty } :=
  good.stored (setDirty_wellFormed good.wellFormed gen dirty)
    (setDirty_advances node.store gen dirty)

@[simp] theorem take_offset (store : Store) (idx : Index) (ev : AppendEvent) (now : Timestamp)
    (rebuild : Bool)
    (rows : List IndexedMessage) : (idx.take store ev now rebuild rows).offset = idx.offset := by
  unfold Index.take
  split
  · rfl
  · split <;> rfl

theorem processAppend_stale {ev : AppendEvent} (stale : ev.byteEnd ≤ node.index.offset ev.gen)
    {rebuild : Bool}
    (settled : rebuild = true ∨ node.index.replays ev.gen = false) (now : Timestamp) :
    node.processAppend decoder ev now rebuild = ⟨node.store.setDirty ev.gen false,
      node.index.setCompleteOffset ev.gen (node.index.offset ev.gen)⟩ := by
  rw [Node.processAppend, applyAppend_stale stale settled]

/-- One event, by what it leaves in the index. -/
theorem append_cases (good : node.Good decoder) {ev : AppendEvent} {now : Timestamp}
    (orderly : Orderly node (.append ev now)) :
    ∃ idx', node.processAppend decoder ev now false = ⟨node.store.setDirty ev.gen false, idx'⟩ ∧
      Indexed decoder node.store idx'.messages idx'.offset idx'.ledger ∧
        idx'.rebuilt = node.index.rebuilt ∧
      ∃ complete, idx'.offset = Function.update node.index.offset ev.gen complete ∧
        node.index.offset ev.gen ≤ complete := by
  obtain ⟨published, apart⟩ := orderly
  rcases Nat.lt_or_ge (node.index.offset ev.gen) ev.byteEnd with ahead | stale
  · obtain ⟨rows, complete, found, delivered⟩ :=
      newRows_delivered good.wellFormed good.indexed published ahead false
    refine ⟨_, processAppend_of_newRows found now, ?_, ?_, complete, ?_, ?_⟩
    · rw [setCompleteOffset_offset, take_offset]
      exact take_indexed good.wellFormed good.indexed published delivered
    · unfold Index.take
      split <;> rfl
    · rw [setCompleteOffset_offset, take_offset]
    · rw [delivered.complete]
      have covered := Nat.le_trans published (highWater_le good.wellFormed ev.gen)
      exact consumed_mono (good.indexed.ended ev.gen) (by omega) delivered.forward
  · have calm : node.index.replays ev.gen = false := by
      by_contra replaying
      exact absurd (apart (by simpa using replaying)) (Nat.not_lt_of_le stale)
    refine ⟨_, processAppend_stale stale (Or.inr calm) now, ?_, rfl, node.index.offset ev.gen,
      setCompleteOffset_offset .., Nat.le_refl _⟩
    rw [setCompleteOffset_offset, Function.update_eq_self]
    exact good.indexed

/-- The events of a rebuild, from any tables that stand right to the mirror. -/
theorem rebuild_good {now : Timestamp} {events : List AppendEvent}
    (wellFormed : node.store.WellFormed)
    (indexed : Indexed decoder node.store node.index.messages node.index.offset node.index.rebuilt)
    (published : ∀ ev ∈ events, ev.byteEnd ≤ node.store.highWater ev.gen) :
    (events.foldl (fun node ev => node.processAppend decoder ev now true) node).store.WellFormed ∧
      Indexed decoder (events.foldl (fun node ev => node.processAppend decoder ev now true)
        node).store
        (events.foldl (fun node ev => node.processAppend decoder ev now true) node).index.messages
        (events.foldl (fun node ev => node.processAppend decoder ev now true) node).index.offset
        (events.foldl (fun node ev => node.processAppend decoder ev now true)
        node).index.rebuilt := by
  induction events generalizing node with
  | nil => exact ⟨wellFormed, indexed⟩
  | cons ev events inductionHypothesis =>
    rw [List.foldl_cons]
    have here := published ev List.mem_cons_self
    have advances := setDirty_advances node.store ev.gen false
    have step : ∃ idx', node.processAppend decoder ev now true = ⟨node.store.setDirty ev.gen false, idx'⟩ ∧
        Indexed decoder node.store idx'.messages idx'.offset idx'.rebuilt := by
      rcases Nat.lt_or_ge (node.index.offset ev.gen) ev.byteEnd with ahead | stale
      · obtain ⟨rows, complete, found, delivered⟩ := newRows_delivered wellFormed indexed here ahead true
        refine ⟨_, processAppend_of_newRows found now, ?_⟩
        rw [setCompleteOffset_offset, take_offset]
        exact take_rebuild_indexed wellFormed indexed here delivered
      · refine ⟨_, processAppend_stale stale (Or.inl rfl) now, ?_⟩
        rw [setCompleteOffset_offset, Function.update_eq_self]
        exact indexed
    obtain ⟨idx', processed, kept⟩ := step
    rw [processed]
    refine inductionHypothesis (setDirty_wellFormed wellFormed _ _) (kept.advanced advances) fun other member => ?_
    rw [setDirty_highWater]
    exact published other (List.mem_cons_of_mem _ member)

theorem rebuiltFrom_offset (store : Store) (idx : Index) : (idx.rebuiltFrom store).offset = idx.offset := by
  unfold Index.offset Index.rebuiltFrom
  rfl

theorem rebuildEvents_published {store : Store} (wellFormed : store.WellFormed) :
    ∀ ev ∈ store.rebuildEvents, ev.byteEnd ≤ store.highWater ev.gen := by
  intro ev member
  obtain ⟨row, listed, rfl⟩ := List.mem_map.mp member
  rw [List.mem_insertionSort] at listed
  exact Nat.le_of_eq (highWater_eq wellFormed listed).symm

theorem step_good {op : NodeOp} (orderly : Orderly node op) (good : node.Good decoder) :
    (node.apply decoder op).Good decoder := by
  cases op with
  | store op => exact good.stored (apply_wellFormed good.wellFormed op) (apply_advances good.wellFormed op)
  | markDirty ev => exact good.dirtied ev.gen true
  | append ev now =>
    obtain ⟨idx', processed, indexed, idle, _⟩ := append_cases good orderly
    have kept : Node.Good decoder ⟨node.store, idx'⟩ := ⟨good.wellFormed, indexed, idle.trans good.idle⟩
    rw [Node.apply, processed]
    exact kept.dirtied ev.gen false
  | reindex now =>
    have rebuilt : (node.rebuild decoder now node.store.rebuildEvents).store.WellFormed ∧
        Indexed decoder (node.rebuild decoder now node.store.rebuildEvents).store
          (node.rebuild decoder now node.store.rebuildEvents).index.messages
          (node.rebuild decoder now node.store.rebuildEvents).index.offset
          (node.rebuild decoder now node.store.rebuildEvents).index.rebuilt :=
      @rebuild_good decoder ⟨node.store, node.index.cleared⟩ now _ good.wellFormed
        (indexed_empty decoder node.store)
        (rebuildEvents_published good.wellFormed)
    rw [Node.apply, Node.reindex]
    generalize node.rebuild decoder now node.store.rebuildEvents = ended at rebuilt
    refine ⟨rebuilt.1, ?_, rfl⟩
    have unified :=
      rebuilt.2.maintained (@unifyLogicalSessions_maintained ended.store ended.index.messages)
    simp only [rebuiltFrom_offset]
    simp only [Index.rebuiltFrom]
    exact unified
  | reindexStopped generations now => exact orderly.elim

end

/-- Orderly, and not a rebuild. -/
def Delivering (node : Node) (op : NodeOp) : Prop := Orderly node op ∧ ∀ now, op ≠ .reindex now

theorem delivering_offset {decoder : Decoder} {node : Node} {op : NodeOp}
    (delivering : Delivering node op)
    (good : node.Good decoder) (gen : GenKey) :
    node.index.offset gen ≤ (node.apply decoder op).index.offset gen := by
  obtain ⟨orderly, incremental⟩ := delivering
  cases op with
  | store op | markDirty ev => exact Nat.le_refl _
  | append ev now =>
    obtain ⟨idx', processed, _, _, complete, moved, forward⟩ := append_cases good orderly
    rw [Node.apply, processed, moved]
    by_cases own : gen = ev.gen
    · subst own
      rwa [Function.update_self]
    · rw [Function.update_of_ne own]
  | reindex now => exact absurd rfl (incremental now)
  | reindexStopped generations now => exact orderly.elim

theorem run_good {decoder : Decoder} {naive : Bool} {ops : List NodeOp}
    (orderly : (Node.empty naive).Along decoder Orderly ops) :
    ((Node.empty naive).run decoder ops).Good decoder :=
  Node.along_keeps (fun node => node.Good decoder)
    (fun _ _ orderly good => step_good orderly good) orderly
    (empty_good decoder naive)

theorem delivering_run {decoder : Decoder} {node : Node} {ops : List NodeOp}
    (delivering : node.Along decoder Delivering ops) (good : node.Good decoder) (gen : GenKey) :
    node.index.offset gen ≤ (node.run decoder ops).index.offset gen := by
  have run :=
    Node.along_keeps (fun later => later.Good decoder ∧
    node.index.offset gen ≤ later.index.offset gen)
    (fun later op meets kept => ⟨step_good meets.1 kept.1,
      Nat.le_trans kept.2 (delivering_offset meets kept.1 gen)⟩) delivering ⟨good, Nat.le_refl _⟩
  exact run.2

/-- In every run of orderly steps: each span of a generation has one row, each line one
    ledger row for a reason, complete offsets only grow until a rebuild, and an event up to
    an indexed offset changes no table. -/
theorem redelivery_harmless {decoder : Decoder} {naive : Bool} {before : List NodeOp}
    (orderly : (Node.empty naive).Along decoder Orderly before) :
    (∀ gen, ((((Node.empty naive).run decoder before).index.messages.filter (·.gen = gen)).map
        fun row => (row.byteStart, row.byteEnd)).Nodup) ∧
      (((Node.empty naive).run decoder before).index.ledger.map
        fun entry => (entry.gen, entry.lineOrdinal, entry.reason)).Nodup ∧
      (∀ after, ((Node.empty naive).run decoder before).Along decoder Delivering after → ∀ gen,
        ((Node.empty naive).run decoder before).index.offset gen ≤
          ((Node.empty naive).run decoder (before ++ after)).index.offset gen) ∧
      ∀ ev now, Orderly ((Node.empty naive).run decoder before) (.append ev now) →
        ev.byteEnd ≤ ((Node.empty naive).run decoder before).index.offset ev.gen →
        (((Node.empty naive).run decoder before).processAppend decoder ev now
        false).index.messages =
            ((Node.empty naive).run decoder before).index.messages ∧
          (((Node.empty naive).run decoder before).processAppend decoder ev now
          false).index.ledger =
            ((Node.empty naive).run decoder before).index.ledger ∧
          (((Node.empty naive).run decoder before).processAppend decoder ev now
          false).index.offset =
            ((Node.empty naive).run decoder before).index.offset := by
  have good := run_good orderly
  refine ⟨fun gen => ?_, ?_, fun after delivering gen => ?_, fun ev now fair stale => ?_⟩
  · have sublist :
      ((((Node.empty naive).run decoder before).index.messages.filter (·.gen = gen)).map
        fun row => row.span).Nodup := (List.filter_sublist.map _).nodup good.indexed.spans
    refine List.Nodup.of_map (fun pair : Nat × Nat => (gen, pair)) ?_
    rw [List.map_map]
    have same : (((Node.empty naive).run decoder before).index.messages.filter (·.gen = gen)).map
        ((fun pair : Nat × Nat => (gen, pair)) ∘ fun row => (row.byteStart, row.byteEnd)) =
        (((Node.empty naive).run decoder before).index.messages.filter (·.gen = gen)).map fun row =>
            row.span := by
      apply List.map_congr_left
      intro row member
      have own := (List.mem_filter.mp member).2
      rw [decide_eq_true_eq] at own
      simp only [Function.comp_apply, IndexedMessage.span, own]
    rw [same]
    exact sublist
  · refine List.Nodup.of_map (fun key : GenKey × Nat × String => (key.1, key.2.1)) ?_
    rw [List.map_map]
    exact good.indexed.entries
  · rw [Node.run_append]
    exact delivering_run delivering good gen
  · have calm : ((Node.empty naive).run decoder before).index.replays ev.gen = false := by
      by_contra replaying
      exact absurd (fair.2 (by simpa using replaying)) (Nat.not_lt_of_le stale)
    rw [processAppend_stale stale (Or.inr calm)]
    exact ⟨rfl, rfl, by rw [setCompleteOffset_offset, Function.update_eq_self]⟩

/-! ## A late event -/

def keyOne : List (String × String) := [("type", "user"), ("uuid", "one")]

def keyTwo : List (String × String) := [("type", "user"), ("uuid", "two")]

def twoKeys : Decoder := sampleDecoder [keyOne, keyTwo] []

def firstBody : Bytes := transcript [objectText keyOne, objectText keyTwo]

/-- A second file of the session, in two PUTs: both keys again, then a line that is not
    JSON. -/
def againBody : Bytes := transcript [objectText keyOne]

def restBody : Bytes := transcript [objectText keyTwo, "x"]

/-- The event of the last PUT arrives before the event of the PUT before it. -/
def lateRun : List NodeOp :=
  [putBody (sampleGen 1 2) 0 firstBody, deliver (sampleGen 1 2) firstBody.length,
    putBody (sampleGen 1 3) 0 againBody, putBody (sampleGen 1 3) againBody.length restBody,
    deliver (sampleGen 1 3) (againBody ++ restBody).length]

theorem late_event_lowers_offset :
    (Node.empty false).Along twoKeys Published
    (lateRun ++ [deliver (sampleGen 1 3) againBody.length]) ∧
      ((Node.empty false).run twoKeys
      (lateRun ++ [deliver (sampleGen 1 3) againBody.length])).index.offset
          (sampleGen 1 3) <
        ((Node.empty false).run twoKeys lateRun).index.offset (sampleGen 1 3) := by
  decide +kernel

/-- The event of the first file once more. -/
theorem redelivery_harmless_sample :
    (((Node.empty false).run twoKeys lateRun).processAppend twoKeys
        ⟨(sampleGen 1 2).identity, 0, 0, firstBody.length⟩ sampleTime false).index.messages =
      ((Node.empty false).run twoKeys lateRun).index.messages :=
  ((redelivery_harmless
    (by decide +kernel : (Node.empty false).Along twoKeys Orderly lateRun)).2.2.2
    ⟨(sampleGen 1 2).identity, 0, 0, firstBody.length⟩ sampleTime (by decide +kernel)
      (by decide +kernel)).1

end AiConfig.Sesh
