import AiConfig.Herder.Agents.Journal

/-! # Receipts are kept

The journal is whole records with their own ids and a torn tail, in every state that calls
and crashes lead to, and each receipt's line stands where the receipt says. -/

namespace AiConfig.Herder

open AiConfig.Lib

/-! ## The repair -/

theorem completeEnd_eq {bytes front torn : List UInt8} (split : bytes = front ++ torn)
    (clean : newline ∉ torn)
    (ends : front = [] ∨ ∃ body, front = body ++ [newline]) (pos : Nat) (above : front.length ≤ pos)
    (below : pos ≤ bytes.length) : completeEnd bytes pos = front.length := by
  induction pos using Nat.strongRecOn with
  | ind pos inductionHypothesis =>
    rw [completeEnd]
    by_cases zero : pos = 0
    · rw [if_pos zero]
      omega
    · rw [if_neg zero]
      have step : 0 < min pos tailBlock := by
        simp only [tailBlock]
        omega
      by_cases inside : pos - min pos tailBlock < front.length
      · -- The block holds the last newline.
        obtain rfl | ⟨body, rfl⟩ := ends
        · simp at inside
        · simp only [List.length_append, List.length_singleton] at inside above ⊢
          have block : (bytes.drop (pos - min pos tailBlock)).take (min pos tailBlock) =
              body.drop (pos - min pos tailBlock) ++
                newline :: torn.take (min pos tailBlock -
                    (body.length - (pos - min pos tailBlock)) - 1) := by
            have room : min pos tailBlock - (body.length - (pos - min pos tailBlock)) =
                min pos tailBlock - (body.length - (pos - min pos tailBlock)) - 1 + 1 := by omega
            rw [split, List.append_assoc, List.drop_append_of_le_length (by omega),
              List.take_append,
              List.take_of_length_le (by rw [List.length_drop]; omega), List.length_drop, room]
            rfl
          rw [block, lastMark_append _ fun found => clean (List.mem_of_mem_take found)]
          simp only [List.length_drop]
          omega
      · have absent :
            lastMark newline ((bytes.drop (pos - min pos tailBlock)).take (min pos tailBlock)) =
            none := by
          rw [lastMark_eq_none, split, List.drop_append, List.drop_of_length_le (by omega),
            List.nil_append]
          exact fun found => clean (List.mem_of_mem_drop (List.mem_of_mem_take found))
        rw [absent]
        exact inductionHypothesis _ (by omega) (by omega) (by omega)

theorem repairTornTail_spec {journal : Journal} {records : List (List UInt8)} {torn : List UInt8}
    (cut : Cut newline journal.bytes records torn) :
    repairTornTail journal = { journal with bytes := records.flatten } := by
  rw [repairTornTail]
  by_cases whole : journal.bytes.getLast? = some newline ∨ journal.bytes = []
  · rw [if_pos whole]
    have empty : torn = [] := by
      cases whole with
      | inl ends =>
        cases tail : torn.getLast? with
        | none => exact List.getLast?_eq_none_iff.mp tail
        | some last =>
          rw [cut.log, List.getLast?_append, tail] at ends
          cases ends
          exact absurd (List.mem_of_getLast? tail) cut.torn
      | inr blank =>
        rw [cut.log] at blank
        exact (List.append_eq_nil_iff.mp blank).2
    have bytes : journal.bytes = records.flatten := by rw [cut.log, empty, List.append_nil]
    rw [← bytes]
  · rw [if_neg whole]
    have bound : records.flatten.length ≤ journal.bytes.length := by simp [cut.log]
    rw [completeEnd_eq cut.log cut.torn cut.ends journal.bytes.length bound le_rfl]
    congr 1
    rw [cut.log, List.take_left']
    rfl

section

variable {E : Type} {codec : EventCodec E}

/-! ## Records and their ids -/

/-- The id of the event of a line. -/
def idOf (codec : EventCodec E) (line : List UInt8) : Option String :=
  (codec.decode line).map codec.id

/-- A line that `Append` may write. -/
def Appendable (codec : EventCodec E) (e : E) (line : List UInt8) : Prop :=
  codec.valid e = true ∧ codec.encode e = some line ∧ line.length ≤ maxLineBytes

structure Written (codec : EventCodec E) (bytes : List UInt8) (records : List (List UInt8)) :
    Prop where
  cut : ∃ torn, Cut newline bytes records torn
  origin : ∀ line ∈ records, ∃ e, Appendable codec e line
  /-- No two records carry the same id. -/
  ids : (records.map (idOf codec)).Nodup

theorem Appendable.reads {e : E} {line : List UInt8} (appendable : Appendable codec e line) :
    ∃ existing, codec.decode line = some existing ∧ codec.id existing = codec.id e ∧
      codec.withAt e existing = e :=
  codec.reads e line appendable.1 appendable.2.1

theorem Appendable.idOf {e : E} {line : List UInt8} (appendable : Appendable codec e line) :
    idOf codec line = some (codec.id e) := by
  obtain ⟨existing, read, own, -⟩ := appendable.reads
  simp [Herder.idOf, read, own]

/-- Places of one id are one place. -/
theorem same_place {f : List UInt8 → Option String} {records : List (List UInt8)}
    (nodup : (records.map f).Nodup)
    {before after before' after' : List (List UInt8)} {line line' : List UInt8}
    (split : records = before ++ line :: after) (split' : records = before' ++ line' :: after')
    (same : f line = f line') : before = before' ∧ line = line' ∧ after = after' := by
  subst split
  induction before generalizing before' with
  | nil =>
    cases before' with
    | nil =>
      simp only [List.nil_append, List.cons.injEq] at split'
      exact ⟨rfl, split'.1, split'.2⟩
    | cons first before' =>
      simp only [List.nil_append, List.cons_append, List.cons.injEq] at split'
      obtain ⟨rfl, rfl⟩ := split'
      simp only [List.nil_append, List.map_cons, List.nodup_cons, List.mem_map] at nodup
      exact absurd ⟨line', by simp, same.symm⟩ nodup.1
  | cons head before inductionHypothesis =>
    simp only [List.cons_append, List.map_cons, List.nodup_cons] at nodup
    cases before' with
    | nil =>
      simp only [List.cons_append, List.nil_append, List.cons.injEq] at split'
      obtain ⟨rfl, rfl⟩ := split'
      exact absurd (List.mem_map.mpr ⟨line, by simp, same⟩) nodup.1
    | cons first before' =>
      simp only [List.cons_append, List.cons.injEq] at split'
      obtain ⟨rfl, rest⟩ := split'
      obtain ⟨rfl, own, others⟩ := inductionHypothesis nodup.2 rest
      exact ⟨rfl, own, others⟩

/-! ## The search for an id -/

theorem foldl_last {α : Type} (p : α → Bool) (records : List α) (found : Option α) :
    records.foldl (fun found record => if p record then some record else found) found =
      ((records.filter p).getLast?).or found := by
  induction records generalizing found with
  | nil => rfl
  | cons head rest inductionHypothesis =>
    rw [List.foldl_cons, inductionHypothesis, List.filter_cons]
    cases own : p head with
    | false => simp
    | true => cases last : (rest.filter p).getLast? <;> simp [List.getLast?_cons, last]

theorem mem_scan {bytes torn : List UInt8} {records : List (List UInt8)}
    (cut : Cut newline bytes records torn)
    {offset : Nat} {e : E} :
    (offset, e) ∈ scan codec bytes ↔
      ∃ before line after, records = before ++ line :: after ∧ offset = before.flatten.length ∧
        codec.decode line = some e := by
  rw [scan, cut.scan, List.mem_filterMap]
  constructor
  · rintro ⟨⟨start, line⟩, inside, read⟩
    obtain ⟨before, after, split, place⟩ := mem_placed.mp inside
    simp only [Option.map_eq_some_iff, Prod.mk.injEq] at read
    obtain ⟨event, decoded, rfl, rfl⟩ := read
    exact ⟨before, line, after, split, by omega, decoded⟩
  · rintro ⟨before, line, after, split, place, read⟩
    exact ⟨(offset, line), mem_placed.mpr ⟨before, after, split, by omega⟩, by simp [read]⟩

/-- The record of an id, if there is one. -/
theorem findID_spec {bytes : List UInt8} {records : List (List UInt8)}
    (written : Written codec bytes records)
    (id : String) :
    (∃ before line after existing, records = before ++ line :: after ∧
    codec.decode line = some existing ∧
        codec.id existing = id ∧ findID codec bytes id = some (before.flatten.length, existing)) ∨
      (∀ line ∈ records, idOf codec line ≠ some id) ∧ findID codec bytes id = none := by
  obtain ⟨torn, cut⟩ := written.cut
  have search : findID codec bytes id =
      ((scan codec bytes).filter fun record => codec.id record.2 = id).getLast? := by
    have folded :=
      foldl_last (fun record : Nat × E => decide (codec.id record.2 = id)) (scan codec bytes) none
    simpa [findID] using folded
  cases last : ((scan codec bytes).filter fun record => codec.id record.2 = id).getLast? with
  | some found =>
    obtain ⟨offset, existing⟩ := found
    have inside := List.mem_of_getLast? last
    simp only [List.mem_filter, decide_eq_true_eq] at inside
    obtain ⟨before, line, after, split, rfl, read⟩ := (mem_scan cut).mp inside.1
    exact Or.inl ⟨before, line, after, existing, split, read, inside.2, search.trans last⟩
  | none =>
    refine Or.inr ⟨fun line member own => ?_, search.trans last⟩
    simp only [idOf, Option.map_eq_some_iff] at own
    obtain ⟨existing, read, own⟩ := own
    obtain ⟨before, after, split⟩ := List.append_of_mem member
    have inside : (before.flatten.length, existing) ∈ scan codec bytes :=
      (mem_scan cut).mpr ⟨before, line, after, split, rfl, read⟩
    have empty := List.getLast?_eq_none_iff.mp last
    have hit : (before.flatten.length, existing) ∈ (scan codec bytes).filter fun record =>
        codec.id record.2 = id :=
      List.mem_filter.mpr ⟨inside, by simpa using own⟩
    rw [empty] at hit
    cases hit

/-! ## What a call does -/

/-- A call on a journal of these records. -/
inductive Appended (codec : EventCodec E) (journal : Journal) (records : List (List UInt8))
    (e : E) :
    Except AppendError (Receipt E) × Journal → Prop where
  | refused {error : AppendError} (other : error ≠ .differs) :
      Appended codec journal records e (.error error, journal)
  | stopped :
      Appended codec journal records e
      (.error .unavailable, { journal with bytes := records.flatten })
  | differs {before after : List (List UInt8)} {line : List UInt8} {existing : E}
      (split : records = before ++ line :: after) (read : codec.decode line = some existing)
      (own : codec.id existing = codec.id e)
        (apart : codec.encode existing ≠ codec.encode (codec.withAt e existing)) :
      Appended codec journal records e (.error .differs, { journal with bytes := records.flatten })
  | replayed {before after : List (List UInt8)} {line : List UInt8} {existing : E}
      (split : records = before ++ line :: after) (read : codec.decode line = some existing)
      (own : codec.id existing = codec.id e)
        (same : codec.encode existing = codec.encode (codec.withAt e existing)) :
      Appended codec journal records e
        (.ok ⟨existing, before.flatten.length, true⟩, ⟨records.flatten, records.flatten.length⟩)
  | torn {line : List UInt8} {written : Nat}
      (new : ∀ record ∈ records, idOf codec record ≠ some (codec.id e))
      (appendable : Appendable codec e line) (short : written < line.length) :
      Appended codec journal records e
        (.error .unavailable, { journal with bytes := records.flatten ++ line.take written })
  | unsynced {line : List UInt8} (new : ∀ record ∈ records, idOf codec record ≠ some (codec.id e))
      (appendable : Appendable codec e line) :
      Appended codec journal records e
        (.error .unavailable, { journal with bytes := records.flatten ++ line })
  | added {line : List UInt8} (new : ∀ record ∈ records, idOf codec record ≠ some (codec.id e))
      (appendable : Appendable codec e line) :
      Appended codec journal records e
        (.ok ⟨e, records.flatten.length, false⟩,
          ⟨records.flatten ++ line, (records.flatten ++ line).length⟩)

theorem Written.trim {bytes : List UInt8} {records : List (List UInt8)}
    (written : Written codec bytes records) :
    Written codec records.flatten records := by
  obtain ⟨torn, cut⟩ := written.cut
  exact ⟨⟨[], cut.trim⟩, written.origin, written.ids⟩

theorem appendLocked_spec {journal : Journal} {records : List (List UInt8)}
    (written : Written codec journal.bytes records) {e : E} {line : List UInt8}
    (appendable : Appendable codec e line)
    (faults : AppendFaults) :
    Appended codec journal records e
      (appendLocked codec { journal with bytes := records.flatten } e line faults) := by
  rw [appendLocked]
  cases scanned : faults.scanned with
  | false => exact .stopped
  | true =>
    simp only [Bool.not_true, Bool.false_eq_true, if_false]
    obtain ⟨before, known, after, existing, split, read, own, found⟩ | ⟨new, found⟩ :=
      findID_spec written.trim (codec.id e)
    · rw [found]
      by_cases same : codec.encode existing = codec.encode (codec.withAt e existing)
      · simp only [same, ne_eq, not_true_eq_false, if_false]
        cases faults.synced with
        | true => exact .replayed split read own same
        | false => exact .stopped
      · simp only [ne_eq, same, not_false_eq_true, if_true]
        exact .differs split read own same
    · rw [found]
      cases cut : faults.written.filter (· < line.length) with
      | some stop =>
        have short := (Option.filter_eq_some_iff.mp cut).2
        exact .torn new appendable (by simpa using short)
      | none =>
        cases faults.synced with
        | true => exact .added new appendable
        | false => exact .unsynced new appendable

theorem append_spec {journal : Journal} {records : List (List UInt8)}
    (written : Written codec journal.bytes records)
    (e : E) (faults : AppendFaults) :
    Appended codec journal records e (append codec journal e faults) := by
  rw [append]
  cases valid : codec.valid e with
  | false => exact .refused (by decide)
  | true =>
    cases encoded : codec.encode e with
    | none => exact .refused (by decide)
    | some line =>
      simp only [Bool.not_true, Bool.false_eq_true, if_false]
      split
      · exact .refused (by decide)
      · rename_i fits
        split
        · exact .refused (by decide)
        · obtain ⟨torn, cut⟩ := written.cut
          rw [repairTornTail_spec cut]
          exact appendLocked_spec written ⟨valid, encoded, not_lt.mp fits⟩ faults

theorem Written.add {records : List (List UInt8)} {bytes : List UInt8}
    (written : Written codec bytes records) {e : E}
    {line : List UInt8} (new : ∀ record ∈ records, idOf codec record ≠ some (codec.id e))
    (appendable : Appendable codec e line) :
    Written codec (records.flatten ++ line) (records ++ [line]) where
  cut := by
    obtain ⟨torn, cut⟩ := written.cut
    exact ⟨[], cut.trim.add (codec.whole e line appendable.2.1)⟩
  origin record inside := by
    obtain old | own := List.mem_append.mp inside
    · exact written.origin record old
    · rw [List.mem_singleton.mp own]
      exact ⟨e, appendable⟩
  ids := by
    rw [List.map_append, List.map_singleton, appendable.idOf, List.nodup_append]
    refine ⟨written.ids, by simp, ?_⟩
    intro one inside other own same
    rw [List.mem_singleton] at own
    obtain ⟨record, member, rfl⟩ := List.mem_map.mp inside
    exact new record member (same.trans own)

/-- A call leaves the records and may add its own. -/
theorem Appended.written {journal : Journal} {records : List (List UInt8)} {e : E}
    {answer : Except AppendError (Receipt E) × Journal}
    (appended : Appended codec journal records e answer)
    (written : Written codec journal.bytes records) :
    ∃ added, Written codec answer.2.bytes (records ++ added) ∧
      ((∃ line ∈ records, idOf codec line = some (codec.id e)) → added = []) := by
  have stays : Written codec records.flatten (records ++ []) := by
    rw [List.append_nil]
    exact written.trim
  cases appended with
  | refused => exact ⟨[], by simpa using written, fun _ => rfl⟩
  | stopped => exact ⟨[], stays, fun _ => rfl⟩
  | differs => exact ⟨[], stays, fun _ => rfl⟩
  | replayed => exact ⟨[], stays, fun _ => rfl⟩
  | torn new appendable short =>
    obtain ⟨torn, cut⟩ := written.cut
    refine ⟨[], ⟨?_, by simpa using written.origin, by simpa using written.ids⟩, fun _ => rfl⟩
    rw [List.append_nil]
    exact ⟨_, cut.trim.tear (codec.whole e _ appendable.2.1) short⟩
  | unsynced new appendable =>
    refine ⟨_, written.add new appendable, ?_⟩
    rintro ⟨line, inside, own⟩
    exact absurd own (new line inside)
  | added new appendable =>
    refine ⟨_, written.add new appendable, ?_⟩
    rintro ⟨line, inside, own⟩
    exact absurd own (new line inside)

theorem lineAt_eq {bytes torn : List UInt8} {records before after : List (List UInt8)}
    {line : List UInt8}
    (cut : Cut newline bytes records torn) (split : records = before ++ line :: after) :
    lineAt bytes before.flatten.length = line := by
  have whole := cut.whole line (by simp [split])
  obtain ⟨body, rfl, clean⟩ := whole.ends
  have kept : ∀ byte ∈ body, decide (byte ≠ newline) = true := by
    intro byte inside
    simp only [ne_eq, decide_not, Bool.not_eq_true', decide_eq_false_iff_not]
    rintro rfl
    exact clean inside
  rw [lineAt, cut.log, split]
  simp only [List.flatten_append, List.flatten_cons, List.append_assoc, List.drop_left]
  rw [List.takeWhile_append_of_pos kept]
  simp

/-! ## Runs -/

/-- A receipt's line is a record, at the receipt's offset and synced. -/
structure Kept (codec : EventCodec E) (records : List (List UInt8)) (synced : Nat)
    (receipt : Receipt E)
    (line : List UInt8) : Prop where
  place : ∃ before after, records = before ++ line :: after ∧
    receipt.offset = before.flatten.length ∧
    receipt.offset + line.length ≤ synced
  event : if receipt.replayed then codec.decode line =
    some receipt.event else codec.encode receipt.event = some line

structure JournalWorld.Holds (codec : EventCodec E) (world : JournalWorld E)
    (records : List (List UInt8)) : Prop where
  written : Written codec world.journal.bytes records
  receipts : ∀ receipt line, (receipt, line) ∈ world.receipts →
    Kept codec records world.journal.synced receipt line

theorem Kept.grow {records added : List (List UInt8)} {synced synced' : Nat} {receipt : Receipt E}
    {line : List UInt8}
    (kept : Kept codec records synced receipt line) (later : synced ≤ synced' ∨
    records.flatten.length ≤ synced') :
    Kept codec (records ++ added) synced' receipt line where
  place := by
    obtain ⟨before, after, split, offset, below⟩ := kept.place
    refine ⟨before, after ++ added, by simp [split], offset, ?_⟩
    cases later with
    | inl later => exact le_trans below later
    | inr all =>
      have inside : before.flatten.length + line.length ≤ records.flatten.length := by
        simp [split, ← Nat.add_assoc]
      omega
  event := kept.event

/-- The journal a call leaves, and its receipt. -/
theorem JournalWorld.Holds.append {world : JournalWorld E} {records : List (List UInt8)}
    (holds : world.Holds codec records)
    (e : E) (faults : AppendFaults) :
    ∃ added, JournalWorld.Holds codec
      ⟨(Herder.append codec world.journal e faults).2,
        world.receipts ++ receiptsOf (Herder.append codec world.journal e faults)⟩
          (records ++ added) := by
  have step := append_spec holds.written e faults
  obtain ⟨added, written, -⟩ := step.written holds.written
  generalize Herder.append codec world.journal e faults = answer at step written ⊢
  -- No receipt, and nothing that was synced is lost.
  have silent : ∀ {error : AppendError} {journal : Journal}, answer = (.error error, journal) →
      journal.synced = world.journal.synced →
      ∃ added, JournalWorld.Holds codec ⟨answer.2, world.receipts ++ receiptsOf answer⟩
          (records ++ added) := by
    rintro error journal rfl synced
    refine ⟨added, written, fun receipt line inside => ?_⟩
    have old : (receipt, line) ∈ world.receipts := by simpa [receiptsOf] using inside
    exact (holds.receipts receipt line old).grow (Or.inl (le_of_eq synced.symm))
  cases step with
  | refused => exact silent rfl rfl
  | stopped => exact silent rfl rfl
  | differs => exact silent rfl rfl
  | torn => exact silent rfl rfl
  | unsynced => exact silent rfl rfl
  | @replayed before after line existing split read own same =>
    obtain ⟨torn, cut⟩ := holds.written.cut
    have stays : Written codec records.flatten (records ++ []) := by
      rw [List.append_nil]
      exact holds.written.trim
    refine ⟨[], stays, fun receipt other inside => ?_⟩
    obtain old | new := List.mem_append.mp inside
    · exact (holds.receipts receipt other old).grow (Or.inr le_rfl)
    · simp only [receiptsOf, List.mem_singleton, Prod.mk.injEq] at new
      obtain ⟨rfl, rfl⟩ := new
      rw [lineAt_eq cut.trim split]
      refine ⟨⟨before, after, by simp [split], rfl, ?_⟩, by simpa using read⟩
      simp [split, ← Nat.add_assoc]
  | @added line new appendable =>
    have written := holds.written.add new appendable
    obtain ⟨torn, cut⟩ := written.cut
    refine ⟨[line], written, fun receipt other inside => ?_⟩
    obtain old | own := List.mem_append.mp inside
    · exact (holds.receipts receipt other old).grow (Or.inr (by simp))
    · simp only [receiptsOf, List.mem_singleton, Prod.mk.injEq] at own
      obtain ⟨rfl, rfl⟩ := own
      have split : records ++ [line] = records ++ line :: [] := rfl
      rw [lineAt_eq cut split]
      exact ⟨⟨records, [], rfl, rfl, by simp⟩, by simpa using appendable.2.1⟩

/-- A crash of the machine loses no synced record. -/
theorem JournalWorld.Holds.crash {world : JournalWorld E} {records : List (List UInt8)}
    (holds : world.Holds codec records)
    {kept : Nat} (synced : world.journal.synced ≤ kept) :
    ∃ records', JournalWorld.Holds codec
      { world with journal := { world.journal with bytes := world.journal.bytes.take kept } }
      records' := by
  obtain ⟨torn, cut⟩ := holds.written.cut
  obtain ⟨records', lost, torn', split, cut', keeps⟩ := cut.lose kept
  refine ⟨records', ⟨⟨torn', cut'⟩, ?_, ?_⟩, fun receipt line inside => ?_⟩
  · intro line inside
    exact holds.written.origin line (by simp [split, inside])
  · have ids := holds.written.ids
    rw [split, List.map_append] at ids
    exact (List.nodup_append.mp ids).1
  · obtain ⟨⟨before, after, whole, offset, below⟩, event⟩ := holds.receipts receipt line inside
    have fits : (before ++ [line]).flatten.length ≤ kept := by
      simp only [List.flatten_append, List.flatten_cons, List.flatten_nil, List.append_nil,
        List.length_append]
      omega
    obtain ⟨rest, same⟩ := keeps (before ++ [line]) after (by simp [whole]) fits
    exact ⟨⟨before, rest, by simp [same], offset, below⟩, event⟩

theorem holds (codec : EventCodec E) : (journalSystem codec).Invariant fun world => ∃ records,
    world.Holds codec records where
  initial := by
    rintro world rfl
    exact ⟨[], ⟨⟨[], .empty⟩, by simp, by simp⟩, by simp⟩
  step := by
    rintro world event world' ⟨records, holds⟩ moved
    cases moved with
    | append e faults =>
      obtain ⟨added, after⟩ := holds.append e faults
      exact ⟨_, after⟩
    | crash kept synced => exact holds.crash synced

/-! ## The next call -/

/-- A valid event of the id of a record, small enough, is answered with the record's
receipt where it has the record's payload, and refused where it has another. -/
def RetriesTold (codec : EventCodec E) (journal : Journal) (line : List UInt8) (offset : Nat) :
    Prop :=
  ∀ existing, codec.decode line = some existing → ∀ e written, codec.id e = codec.id existing →
    Appendable codec e written →
      (append codec journal e .none).1 =
        if codec.encode (codec.withAt e existing) = some line then .ok ⟨existing, offset, true⟩
        else .error .differs

/-- The line is what the event it is read as is written as. -/
def Stable (codec : EventCodec E) (line : List UInt8) : Prop :=
  ∀ existing, codec.decode line = some existing → codec.encode existing = some line

/-- What the next call may do on a journal of these records. -/
structure NextCall (codec : EventCodec E) (journal : Journal) (records : List (List UInt8)) :
    Prop where
  /-- A call that answers or refuses leaves whole records. -/
  whole : ∀ e faults, (∃ receipt, (append codec journal e faults).1 = .ok receipt) ∨
      (append codec journal e faults).1 = .error .differs →
    ∃ records', Cut newline (append codec journal e faults).2.bytes records' []
  /-- A call with the id of a record adds nothing, whatever happens in it. -/
  adds : ∀ e faults, (∃ line ∈ records, idOf codec line = some (codec.id e)) →
    ∃ torn, Cut newline (append codec journal e faults).2.bytes records torn
  /-- Retries are told apart exactly where the record is stable. -/
  retries : ∀ before line after, records = before ++ line :: after →
    (RetriesTold codec journal line before.flatten.length ↔ Stable codec line)

theorem append_known {journal : Journal} {records before after : List (List UInt8)}
    {line : List UInt8}
    (written : Written codec journal.bytes records) (split : records = before ++ line :: after)
    {existing e : E}
    {own : List UInt8} (read : codec.decode line = some existing)
    (same : codec.id e = codec.id existing)
    (appendable : Appendable codec e own) :
    (append codec journal e .none).1 =
      if codec.encode existing = codec.encode (codec.withAt e existing) then .ok
        ⟨existing, before.flatten.length, true⟩
      else .error .differs := by
  obtain ⟨torn, cut⟩ := written.cut
  have known : idOf codec line = some (codec.id e) := by simp [idOf, read, same]
  have found :
      findID codec records.flatten (codec.id e) = some (before.flatten.length, existing) := by
    obtain ⟨before', line', after', existing', split', read', own', found⟩ | ⟨new, -⟩ :=
      findID_spec written.trim (codec.id e)
    · have ids : idOf codec line' = some (codec.id e) := by simp [idOf, read', own']
      obtain ⟨rfl, rfl, -⟩ := same_place written.ids split' split (ids.trans known.symm)
      cases read.symm.trans read'
      exact found
    · exact absurd known (new line (by simp [split]))
  rw [append, appendable.1, appendable.2.1, repairTornTail_spec cut]
  simp only [Bool.not_true, Bool.false_eq_true, if_false, if_neg (not_lt.mpr appendable.2.2),
    AppendFaults.none,
    Bool.or_self, appendLocked, found]
  by_cases alike : codec.encode existing = codec.encode (codec.withAt e existing)
  · simp [alike]
  · simp [alike]

theorem nextCall {journal : Journal} {records : List (List UInt8)}
    (written : Written codec journal.bytes records) :
    NextCall codec journal records where
  whole e faults answered := by
    have step := append_spec written e faults
    generalize append codec journal e faults = answer at step answered ⊢
    obtain ⟨torn, cut⟩ := written.cut
    cases step with
    | refused other =>
      obtain ⟨receipt, answered⟩ | answered := answered
      · cases answered
      · cases answered
        exact absurd rfl other
    | stopped => simp at answered
    | differs => exact ⟨records, cut.trim⟩
    | replayed => exact ⟨records, cut.trim⟩
    | torn => simp at answered
    | unsynced => simp at answered
    | added new appendable => exact ⟨_, cut.trim.add (codec.whole e _ appendable.2.1)⟩
  adds e faults known := by
    obtain ⟨added, after, same⟩ := (append_spec written e faults).written written
    rw [same known, List.append_nil] at after
    exact after.cut
  retries before line after split := by
    constructor
    · intro told existing read
      -- The event the record was written for is a retry with its payload.
      obtain ⟨e, appendable⟩ := written.origin line (by simp [split])
      obtain ⟨existing', read', own, back⟩ := appendable.reads
      cases read.symm.trans read'
      have answer := told existing read e line own.symm appendable
      rw [append_known written split read own.symm appendable, back, appendable.2.1,
        if_pos rfl] at answer
      by_contra unstable
      rw [if_neg unstable] at answer
      cases answer
    · intro stable existing read e own same appendable
      rw [append_known written split read same appendable, stable existing read]
      simp only [eq_comm]

/-- In every state that calls and crashes lead to: the journal is whole records with ids of
their own and a torn tail, every receipt's line stands at its offset, and the next call
leaves whole records, adds nothing for an id that is there, and tells a retry from another
payload exactly where the record is stable. -/
theorem journal_append {world : JournalWorld E}
    (reachable : (journalSystem codec).Reachable world) :
    ∃ records, world.Holds codec records ∧ NextCall codec world.journal records := by
  obtain ⟨records, holds⟩ := (holds codec).reachable reachable
  exact ⟨records, holds, nextCall holds.written⟩

end

/-! ## A note that is not UTF-8 -/

/-- The event appended, with a note of the one byte 0xff, and what its line is read as: the
note is then the replacement character. -/
inductive NoteEvent where
  | invalid | replaced
  deriving DecidableEq

def noteID : String := "01a084cb-0000-7000-8000-000000000001"

/-- Of the line, what stands around the note's text. -/
def noteFront : List UInt8 :=
  bytesOf ("\x7b\"id\":\"" ++ noteID ++
    "\",\"at\":\"2026-09-01T00:00:00Z\",\"kind\":\"annotate\",\"name\":\"riko\",\"note\":\"")

def noteBack : List UInt8 := bytesOf "\"\x7d"

/-- Invalid bytes are written as an escape, the replacement character as its own bytes. -/
def noteText : NoteEvent → List UInt8
  | .invalid => bytesOf "\\ufffd"
  | .replaced => [0xef, 0xbf, 0xbd]

def noteLine (e : NoteEvent) : List UInt8 := noteFront ++ noteText e ++ noteBack ++ [newline]

def noteCodec : EventCodec NoteEvent where
  id := fun _ => noteID
  valid := fun _ => true
  encode := fun e => some (noteLine e)
  decode := fun line =>
    if line = noteLine .invalid ∨ line = noteLine .replaced then some .replaced else none
  withAt := fun e _ => e
  whole := by
    intro e line written
    rw [← Option.some.inj written]
    refine ⟨noteFront ++ noteText e ++ noteBack, rfl, ?_⟩
    cases e with
    | invalid => decide +kernel
    | replaced => decide +kernel
  reads := by
    intro e line _ written
    rw [← Option.some.inj written]
    cases e with
    | invalid => exact ⟨.replaced, by simp, rfl, rfl⟩
    | replaced => exact ⟨.replaced, by simp, rfl, rfl⟩

/-- The journal with that event. -/
def noteWorld : JournalWorld NoteEvent :=
  ⟨(append noteCodec ⟨[], 0⟩ .invalid .none).2,
    [] ++ receiptsOf (append noteCodec ⟨[], 0⟩ .invalid .none)⟩

theorem journal_append_sample :
    ∃ records, noteWorld.Holds noteCodec records ∧
      NextCall noteCodec noteWorld.journal records := by
  have start : (journalSystem noteCodec).Reachable ⟨⟨[], 0⟩, []⟩ := .initial rfl
  have appended :
      JournalWorld.Moves noteCodec ⟨⟨[], 0⟩, []⟩ (.append NoteEvent.invalid .none) noteWorld :=
    .append _ _ _
  exact journal_append (start.step appended)

/-- The retry of the same event is refused. -/
theorem same_payload_refused :
    (append noteCodec ⟨[], 0⟩ .invalid .none).1 = .ok ⟨.invalid, 0, false⟩ ∧
      (append noteCodec (append noteCodec ⟨[], 0⟩ .invalid .none).2 .invalid .none).1 =
      .error .differs := by
  decide +kernel

end AiConfig.Herder
