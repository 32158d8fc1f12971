import AiConfig.Sesh.Index.Maintain

/-! # Ids of rows

Ids are given out in the order of insertion and never again: every id of the table is
distinct and at most `sqlite_sequence`.  An insertion puts its rows above all others. -/

namespace AiConfig.Sesh

open AiConfig.Lib AiConfig.Sesh.Wire

theorem withIds_messages (seq : Nat) (rows : List IndexedMessage) :
    (withIds seq rows).map Row.toIndexedMessage = rows := by
  induction rows generalizing seq with
  | nil => rfl
  | cons row rest inductionHypothesis => rw [withIds, List.map_cons, inductionHypothesis]

theorem withIds_ids (seq : Nat) (rows : List IndexedMessage) :
    (withIds seq rows).map (·.id) = List.range' (seq + 1) rows.length := by
  induction rows generalizing seq with
  | nil => rfl
  | cons row rest inductionHypothesis =>
    rw [withIds, List.map_cons, inductionHypothesis, List.length_cons, List.range'_succ]

theorem withIds_bounds {seq : Nat} {rows : List IndexedMessage} {row : Row}
    (member : row ∈ withIds seq rows) :
    seq < row.id ∧ row.id ≤ seq + rows.length := by
  have listed : row.id ∈ (withIds seq rows).map (·.id) := List.mem_map_of_mem member
  rw [withIds_ids, List.mem_range'_1] at listed
  omega

theorem mem_withIds {seq : Nat} {rows : List IndexedMessage} {row : Row}
    (member : row ∈ withIds seq rows) :
    row.toIndexedMessage ∈ rows := by
  have listed : row.toIndexedMessage ∈ (withIds seq rows).map Row.toIndexedMessage :=
    List.mem_map_of_mem member
  rwa [withIds_messages] at listed

/-- Distinct ids, none above `seq`. -/
structure Numbered (seq : Nat) (rows : List Row) : Prop where
  distinct : (rows.map (·.id)).Nodup
  bound : ∀ row ∈ rows, row.id ≤ seq

theorem numbered_nil (seq : Nat) : Numbered seq [] := ⟨List.nodup_nil, by simp⟩

theorem Numbered.inserted {seq : Nat} {rows : List Row} (numbered : Numbered seq rows)
    (new : List IndexedMessage) :
    Numbered (seq + new.length) (rows ++ withIds seq new) where
  distinct := by
    rw [List.map_append, List.nodup_append, withIds_ids]
    refine ⟨numbered.distinct, List.nodup_range', ?_⟩
    intro id old other fresh
    obtain ⟨row, member, rfl⟩ := List.mem_map.mp old
    have below := numbered.bound row member
    rw [List.mem_range'_1] at fresh
    omega
  bound row member := by
    cases List.mem_append.mp member with
    | inl old => exact Nat.le_trans (numbered.bound row old) (Nat.le_add_right _ _)
    | inr new => exact (withIds_bounds new).2

theorem fixed_ids (rows : List Row) : (rows.map Row.fixed).map (·.id) = rows.map (·.id) := by
  rw [List.map_map]
  rfl

theorem Numbered.maintained {seq : Nat} {before after : List Row} (numbered : Numbered seq before)
    (maintained : Maintained before after) : Numbered seq after where
  distinct := by
    have kept := maintained.kept.map (·.id)
    rw [fixed_ids, fixed_ids] at kept
    exact numbered.distinct.sublist kept
  bound row member := by
    have kept := maintained.kept.subset (List.mem_map_of_mem member)
    obtain ⟨old, listed, same⟩ := List.mem_map.mp kept
    calc row.id = row.fixed.id := rfl
      _ = old.id := by rw [← same]; rfl
      _ ≤ seq := numbered.bound old listed

/-! ## The file of new rows -/

section

variable {decoder : Decoder} {store : Store} {idx : Index} {ev : AppendEvent}

@[simp] theorem indexLine_gen (decoder : Decoder) (gen : GenKey) (line : Line) :
    (indexLine decoder gen line).gen = gen := by
  unfold indexLine
  split
  · rfl
  · unfold parseLine
    split <;> rfl

theorem parseComplete_gen {start complete : Nat} {rows : List IndexedMessage}
    (parsed : parseComplete decoder store ev start = .ok (rows, complete)) :
    ∀ row ∈ rows, row.gen = ev.gen := by
  intro row member
  unfold parseComplete at parsed
  split at parsed
  · cases parsed
    cases member
  · simp only at parsed
    split at parsed
    · cases parsed
    · cases parsed
      obtain ⟨line, _, rfl⟩ := List.mem_map.mp member
      exact indexLine_gen decoder ev.gen line

theorem newRows_gen {rebuild : Bool} {complete : Nat} {rows : List IndexedMessage}
    (found : idx.newRows decoder store ev rebuild = .ok (rows, complete)) :
    ∀ row ∈ rows, row.gen = ev.gen := by
  unfold Index.newRows at found
  split at found
  · cases parsed : parseComplete decoder store ev 0 with
    | error failure => rw [parsed] at found; cases found
    | ok result =>
      rw [parsed] at found
      cases found
      exact fun row member => parseComplete_gen parsed row (List.mem_filter.mp member).1
  · exact parseComplete_gen found

theorem place_gen (placement : FilePlacement) (row : IndexedMessage) :
    (row.place placement).gen = row.gen := by
  unfold IndexedMessage.place
  split <;> rfl

theorem inherit_gen {messages : List Row} {gen : GenKey} {rows : List IndexedMessage}
    (own : ∀ row ∈ rows, row.gen = gen) : ∀ row ∈ (inheritFilePlacement messages gen rows).1,
    row.gen = gen := by
  intro row member
  unfold inheritFilePlacement at member
  split at member
  · exact own row member
  · obtain ⟨before, listed, rfl⟩ := List.mem_map.mp member
    rw [place_gen]
    exact own before listed

end

end AiConfig.Sesh
