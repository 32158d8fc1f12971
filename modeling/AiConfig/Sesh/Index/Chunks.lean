import AiConfig.Sesh.Index.Reader
import AiConfig.Sesh.Index.Replay

/-! # Lines and the ends of events

A generation is indexed in chunks that end wherever its events end.  `Reading` follows
the rows that the calls parse at and beyond the complete offset they start from;
whatever the ends are, they are the rows of the complete lines, in order. -/

namespace AiConfig.Sesh

open AiConfig.Lib AiConfig.Sesh.Wire

/-- Where a call starts to parse: at zero when it replays the file. -/
def Index.parseStart (idx : Index) (gen : GenKey) : Nat :=
  if idx.replays gen then 0 else idx.offset gen

/-- The rows a call parses; a replaying call parses rows before the complete offset
    again and keeps those that have no row in the index. -/
theorem newRows_parsed (decoder : Decoder) (store : Store) (idx : Index) (ev : AppendEvent) :
    idx.newRows decoder store ev false =
      (bufferedParse decoder store ev (idx.parseStart ev.gen)).map fun (rows, complete) =>
        (if idx.replays ev.gen then rows.filter fun row => !survives idx.messages row else rows,
        complete) := by
  rw [bufferedParse_eq]
  unfold Index.newRows Index.parseStart
  cases idx.replays ev.gen with
  | true => rfl
  | false =>
    simp only [Bool.not_false, Bool.true_and, Bool.false_eq_true, if_false]
    cases parseComplete decoder store ev (idx.offset ev.gen) <;> rfl

/-- The rows of a step for `gen` at and beyond its complete offset. -/
def Node.parsedBy (decoder : Decoder) (node : Node) (gen : GenKey) : NodeOp → List IndexedMessage
  | .append ev _ =>
    if ev.gen = gen then
      match bufferedParse decoder node.store ev (node.index.parseStart gen) with
      | .ok (rows, _) => rows.filter fun row => node.index.offset gen ≤ row.byteStart
      | .error _ => []
    else []
  | _ => []

/-- A node with the last end of an event of `gen`, and the rows parsed for it so far. -/
structure Reading where
  node : Node
  reached : Nat
  parsed : List IndexedMessage

def Reading.start (naive : Bool) : Reading := ⟨.empty naive, 0, []⟩

def endOf (gen : GenKey) : NodeOp → Option Nat
  | .append ev _ => if ev.gen = gen then some ev.byteEnd else none
  | _ => none

def Reading.step (decoder : Decoder) (gen : GenKey) (reading : Reading) (op : NodeOp) : Reading :=
  ⟨reading.node.apply decoder op, (endOf gen op).getD reading.reached,
    reading.parsed ++ reading.node.parsedBy decoder gen op⟩

def Reading.run (decoder : Decoder) (gen : GenKey) (reading : Reading) (ops : List NodeOp) :
    Reading :=
  ops.foldl (Reading.step decoder gen) reading

/-- The events of `gen` end within the mirrored bytes and not before the last end, and
    no rebuild starts its index again. -/
def Reading.Serial (gen : GenKey) (reading : Reading) : NodeOp → Prop
  | .append ev _ => ev.gen = gen → reading.reached ≤ ev.byteEnd ∧
      ev.byteEnd ≤ reading.node.store.highWater gen
  | .reindex _ | .reindexStopped _ _ => False
  | .store _ | .markDirty _ => True

instance (gen : GenKey) (reading : Reading) : (op : NodeOp) → Decidable (reading.Serial gen op)
  | .append _ _ => inferInstanceAs (Decidable (_ → _ ∧ _))
  | .reindex _ | .reindexStopped _ _ => inferInstanceAs (Decidable False)
  | .store _ | .markDirty _ => inferInstanceAs (Decidable True)

def Reading.Along (decoder : Decoder) (gen : GenKey) : Reading → List NodeOp → Prop
  | _, [] => True
  | reading, op :: ops => reading.Serial gen op ∧
      Reading.Along decoder gen (reading.step decoder gen op) ops

instance Reading.decidableAlong (decoder : Decoder) (gen : GenKey) :
    ∀ (reading : Reading) (ops : List NodeOp), Decidable (reading.Along decoder gen ops)
  | _, [] => inferInstanceAs (Decidable True)
  | reading, op :: ops =>
    have := Reading.decidableAlong decoder gen (reading.step decoder gen op) ops
    inferInstanceAs (Decidable (reading.Serial gen op ∧
      Reading.Along decoder gen (reading.step decoder gen op) ops))

/-- The bytes up to the last end. -/
def Reading.bytes (reading : Reading) (gen : GenKey) : Bytes :=
  (reading.node.store.mirrorOf gen).take reading.reached

/-- The complete offset is behind the last line of the bytes read, and the rows parsed
    are those of their lines. -/
structure Reading.Caught (decoder : Decoder) (gen : GenKey) (reading : Reading) : Prop where
  wellFormed : reading.node.store.WellFormed
  within : reading.reached ≤ reading.node.store.highWater gen
  offset : reading.node.index.offset gen = consumed (reading.bytes gen)
  parsed : reading.parsed = (linesBetween (reading.node.store.mirrorOf gen) 0 reading.reached).map
    (indexLine decoder gen)

theorem caught_start (decoder : Decoder) (gen : GenKey) (naive : Bool) :
    (Reading.start naive).Caught decoder gen :=
  ⟨Store.empty_wellFormed, Nat.zero_le _, rfl, by rw [linesBetween_zero]; rfl⟩

section

variable {decoder : Decoder} {gen : GenKey} {reading : Reading}

/-- A step that parses nothing of `gen` and leaves its offset. -/
theorem Reading.Caught.elsewhere (caught : reading.Caught decoder gen) {node : Node}
    (wellFormed : node.store.WellFormed) (advances : reading.node.store.Advances node.store)
    (offset : node.index.offset gen = reading.node.index.offset gen) :
    Reading.Caught decoder gen ⟨node, reading.reached, reading.parsed⟩ := by
  have same := linesBetween_advances advances caught.within
  refine ⟨wellFormed, Nat.le_trans caught.within (advances gen).1, ?_, ?_⟩
  · rw [Reading.bytes, same]
    exact offset.trans caught.offset
  · rw [linesBetween_zero, same, ← linesBetween_zero]
    exact caught.parsed

theorem linesBetween_self (mirror : Bytes) (stop : Nat) : linesBetween mirror stop stop = [] := by
  have nothing : (mirror.take stop).drop stop = [] :=
    List.drop_eq_nil_of_le (by rw [List.length_take]; exact Nat.min_le_left _ _)
  rw [linesBetween, nothing]
  rfl

/-- Parsing from the end of a line, up to any end that is mirrored. -/
theorem parseComplete_ended {store : Store} {ev : AppendEvent} {start : Nat}
    (ended : Ended ((store.mirrorOf ev.gen).take start)) (forward : start ≤ ev.byteEnd)
    (covered : ev.byteEnd ≤ (store.mirrorOf ev.gen).length) :
    parseComplete decoder store ev start =
      .ok ((linesBetween (store.mirrorOf ev.gen) start ev.byteEnd).map (indexLine decoder ev.gen),
        consumed ((store.mirrorOf ev.gen).take ev.byteEnd)) := by
  have inside := Nat.le_trans forward covered
  unfold parseComplete
  split
  · rename_i stale
    have same : ev.byteEnd = start := Nat.le_antisymm stale forward
    have whole : consumed ((store.mirrorOf ev.gen).take start) = start := by
      rw [show consumed _ = _ from ended, List.length_take, Nat.min_eq_left inside]
    rw [same, linesBetween_self, whole]
    rfl
  · change (if (store.mirrorOf ev.gen).length < ev.byteEnd then _ else
      Except.ok (_, ((linesBetween (store.mirrorOf ev.gen) start ev.byteEnd).getLast?.map
        (·.stop)).getD start)) = _
    rw [if_neg (Nat.not_lt_of_le covered), linesBetween_last ended inside forward]
    rfl

@[simp] theorem indexLine_byteStart (decoder : Decoder) (gen : GenKey) (line : Line) :
    (indexLine decoder gen line).byteStart = line.start :=
  congrArg (·.2.1) (indexLine_span decoder gen line)

/-- Of the rows from zero those at and beyond the end of a line are the rows from there. -/
theorem rows_beyond (decoder : Decoder) (gen : GenKey) {mirror : Bytes} {start stop : Nat}
    (ended : Ended (mirror.take start))
    (covered : start ≤ mirror.length) (forward : start ≤ stop) :
    ((linesBetween mirror 0 stop).map (indexLine decoder gen)).filter
    (fun row => start ≤ row.byteStart) =
      (linesBetween mirror start stop).map (indexLine decoder gen) := by
  rw [linesBetween_split ended covered forward, List.map_append, List.filter_append]
  have early : ((linesBetween mirror 0 start).map (indexLine decoder gen)).filter
      (fun row => start ≤ row.byteStart) = [] := by
    rw [List.filter_eq_nil_iff]
    intro row member
    obtain ⟨line, found, rfl⟩ := List.mem_map.mp member
    rw [linesBetween_zero] at found
    have bounds := numbered_bounds line found
    have short : extent (completeLines (mirror.take start)) ≤ start :=
      Nat.le_trans (consumed_le _) (by rw [List.length_take]; exact Nat.min_le_left _ _)
    simp only [indexLine_byteStart, decide_eq_true_eq]
    omega
  have late : ((linesBetween mirror start stop).map (indexLine decoder gen)).filter
      (fun row => start ≤ row.byteStart) =
          (linesBetween mirror start stop).map (indexLine decoder gen) := by
    rw [List.filter_eq_self]
    intro row member
    obtain ⟨line, found, rfl⟩ := List.mem_map.mp member
    have bounds := numbered_bounds line found
    simp only [indexLine_byteStart, decide_eq_true_eq]
    exact bounds.2.2.1
  rw [early, late, List.nil_append]

/-- The rows at and beyond the offset are those of the lines after it, wherever the
    call started. -/
theorem parsedBy_lines (caught : reading.Caught decoder gen) {ev : AppendEvent} (own : ev.gen = gen)
    (forward : reading.reached ≤ ev.byteEnd)
    (published : ev.byteEnd ≤ reading.node.store.highWater gen)
    (now : Timestamp) :
    reading.node.parsedBy decoder gen (.append ev now) =
        (linesBetween (reading.node.store.mirrorOf gen)
        (reading.node.index.offset gen) ev.byteEnd).map
          (indexLine decoder gen) ∧
      ∃ rows, bufferedParse decoder reading.node.store ev (reading.node.index.parseStart gen) =
        .ok (rows, consumed ((reading.node.store.mirrorOf gen).take ev.byteEnd)) := by
  subst own
  have covered := Nat.le_trans published (highWater_le caught.wellFormed ev.gen)
  have ended :
      Ended ((reading.node.store.mirrorOf ev.gen).take (reading.node.index.offset ev.gen)) := by
    rw [caught.offset]
    exact consumed_ended _ _
  have behind : reading.node.index.offset ev.gen ≤ ev.byteEnd := by
    rw [caught.offset]
    refine Nat.le_trans (consumed_le _) (Nat.le_trans ?_ forward)
    rw [Reading.bytes, List.length_take]
    exact Nat.min_le_left _ _
  simp only [Node.parsedBy, if_true, bufferedParse_eq, Index.parseStart]
  have split := rows_beyond decoder ev.gen ended (by omega) behind
  cases reading.node.index.replays ev.gen with
  | true =>
    simp only [if_true, parseComplete_ended (ended_zero _) (Nat.zero_le _) covered]
    exact ⟨split, _, rfl⟩
  | false =>
    simp only [Bool.false_eq_true, if_false, parseComplete_ended ended behind covered]
    refine ⟨?_, _, rfl⟩
    simp only [← split, List.filter_filter, Bool.and_self]

theorem Reading.Caught.step (caught : reading.Caught decoder gen) {op : NodeOp}
    (serial : reading.Serial gen op) :
    (reading.step decoder gen op).Caught decoder gen := by
  cases op with
  | store op =>
    have kept : Reading.Caught decoder gen
        ⟨{ reading.node with store := reading.node.store.apply op }, reading.reached,
            reading.parsed⟩ :=
      caught.elsewhere (apply_wellFormed caught.wellFormed op)
        (apply_advances caught.wellFormed op) rfl
    simpa [Reading.step, Node.apply, Node.parsedBy, endOf] using kept
  | markDirty ev =>
    have kept : Reading.Caught decoder gen
        ⟨{ reading.node with store := reading.node.store.setDirty ev.gen true }, reading.reached,
            reading.parsed⟩ :=
      caught.elsewhere (setDirty_wellFormed caught.wellFormed _ _) (setDirty_advances _ _ _) rfl
    simpa [Reading.step, Node.apply, Node.parsedBy, endOf] using kept
  | reindex now | reindexStopped generations now => exact serial.elim
  | append ev now =>
    by_cases own : ev.gen = gen
    · obtain ⟨forward, published⟩ := serial own
      obtain ⟨lines, rows, parsed⟩ := parsedBy_lines caught own forward published now
      subst own
      have found := newRows_parsed decoder reading.node.store reading.node.index ev
      rw [parsed] at found
      have after := processAppend_of_newRows found now
      have ended :
          Ended ((reading.node.store.mirrorOf ev.gen).take (reading.node.index.offset ev.gen)) := by
        rw [caught.offset]
        exact consumed_ended _ _
      have behind : reading.node.index.offset ev.gen ≤ reading.reached := by
        rw [caught.offset]
        refine Nat.le_trans (consumed_le _) ?_
        rw [Reading.bytes, List.length_take]
        exact Nat.min_le_left _ _
      have covered := Nat.le_trans published (highWater_le caught.wellFormed ev.gen)
      simp only [Reading.step, endOf, if_true, Option.getD_some, Node.apply, after]
      refine ⟨setDirty_wellFormed caught.wellFormed _ _, ?_, ?_, ?_⟩
      · rw [setDirty_highWater]
        exact published
      · rw [setCompleteOffset_offset, Function.update_self]
        rfl
      · change reading.parsed ++ _ =
          (linesBetween (reading.node.store.mirrorOf ev.gen) 0 ev.byteEnd).map _
        rw [linesBetween_split ended (by omega) (Nat.le_trans behind forward), List.map_append,
          ← lines,
          caught.parsed, caught.offset, Reading.bytes, linesBetween_consumed]
    · have untouched : (reading.node.processAppend decoder ev now false).index.offset gen =
          reading.node.index.offset gen := by
        unfold Node.processAppend Index.applyAppend
        cases reading.node.index.newRows decoder reading.node.store ev false with
        | error => rfl
        | ok found =>
          simp only [Except.map, setCompleteOffset_offset, take_offset]
          exact Function.update_of_ne (fun same => own same.symm) _ _
      obtain ⟨dirty, stored⟩ : ∃ dirty, (reading.node.processAppend decoder ev now false).store =
          reading.node.store.setDirty ev.gen dirty := by
        unfold Node.processAppend
        split
        · exact ⟨false, rfl⟩
        · exact ⟨true, rfl⟩
      have kept : Reading.Caught decoder gen
          ⟨reading.node.processAppend decoder ev now false, reading.reached, reading.parsed⟩ :=
        caught.elsewhere (stored ▸ setDirty_wellFormed caught.wellFormed _ _)
          (stored ▸ setDirty_advances _ _ _) untouched
      simpa [Reading.step, Node.apply, Node.parsedBy, endOf, own] using kept

theorem Reading.Caught.run {ops : List NodeOp} (caught : reading.Caught decoder gen)
    (along : reading.Along decoder gen ops) : (reading.run decoder gen ops).Caught decoder gen := by
  induction ops generalizing reading with
  | nil => exact caught
  | cons op ops inductionHypothesis => exact inductionHypothesis (caught.step along.1) along.2

end

/-! ## The rows of a generation -/

/-- The row of a line by what is in it: an oversized line is quarantined as too long,
    any other line the parser refuses, the empty one included, as invalid. -/
def classified (decoder : Decoder) (gen : GenKey) (line : Line) : IndexedMessage :=
  if maxIndexedLineBytes < line.body.length then quarantineLine gen "line_too_long" line
  else if line.body = [] then quarantineLine gen "invalid_json" line
  else parseLine decoder gen line

/-- One row for each line that a newline ends, in order, under its number and its
    bytes; nothing for the bytes after the last newline. -/
def IndexesLines (decoder : Decoder) (gen : GenKey) (bytes : Bytes) (rows : List IndexedMessage) :
    Prop :=
  ∃ bodies rest, bytes = (bodies.flatMap fun body => body ++ [newline]) ++ rest ∧
    (∀ body ∈ bodies, newline ∉ body) ∧ newline ∉ rest ∧
    rows = (numbered 0 0 bodies).map (classified decoder gen)

theorem completeLines_joined {bodies : List Bytes} {rest : Bytes}
    (clean : ∀ body ∈ bodies, newline ∉ body)
    (unfinished : newline ∉ rest) :
    completeLines ((bodies.flatMap fun body => body ++ [newline]) ++ rest) = bodies := by
  induction bodies with
  | nil => exact completeLines_unfinished unfinished
  | cons body bodies inductionHypothesis =>
    rw [List.flatMap_cons, List.append_assoc, List.append_assoc, List.singleton_append,
      completeLines_line (clean body List.mem_cons_self),
      inductionHypothesis fun other member => clean other (List.mem_cons_of_mem _ member)]

theorem joined_completeLines (bytes : Bytes) :
    ∃ rest, bytes = ((completeLines bytes).flatMap fun body => body ++ [newline]) ++ rest ∧
      (∀ body ∈ completeLines bytes, newline ∉ body) ∧ newline ∉ rest := by
  induction length : bytes.length using Nat.strong_induction_on generalizing bytes with
  | _ n inductionHypothesis =>
    by_cases finished : newline ∈ bytes
    · obtain ⟨body, more, rfl, clean⟩ := List.eq_append_cons_of_mem finished
      rw [List.length_append, List.length_cons] at length
      obtain ⟨rest, split, cleans, unfinished⟩ :=
        inductionHypothesis more.length (by omega) more rfl
      refine ⟨rest, ?_, ?_, unfinished⟩
      · rw [completeLines_line clean, List.flatMap_cons, List.append_assoc, List.append_assoc,
          ← split]
        rfl
      · rw [completeLines_line clean]
        exact List.forall_mem_cons.mpr ⟨clean, cleans⟩
    · rw [completeLines_unfinished finished]
      exact ⟨bytes, rfl, fun _ member => (List.not_mem_nil member).elim, finished⟩

theorem mem_numbered {ordinal start : Nat} {bodies : List Bytes} {body : Bytes}
    (member : body ∈ bodies) :
    ∃ line ∈ numbered ordinal start bodies, line.body = body := by
  induction bodies generalizing ordinal start with
  | nil => cases member
  | cons first bodies inductionHypothesis =>
    rcases List.mem_cons.mp member with rfl | later
    · exact ⟨_, List.mem_cons_self, rfl⟩
    · obtain ⟨line, found, same⟩ := inductionHypothesis later
      exact ⟨line, List.mem_cons_of_mem _ found, same⟩

theorem numbered_body {ordinal start : Nat} {bodies : List Bytes} :
    ∀ line ∈ numbered ordinal start bodies, line.body ∈ bodies := by
  induction bodies generalizing ordinal start with
  | nil => exact fun _ member => (List.not_mem_nil member).elim
  | cons body bodies inductionHypothesis =>
    intro line member
    rcases List.mem_cons.mp member with rfl | later
    · exact List.mem_cons_self
    · exact List.mem_cons_of_mem _ (inductionHypothesis line later)

/-- The rows of the code are those of the lines exactly where no line is empty: the
    empty line is quarantined like one that is too long. -/
theorem indexesLines_iff (decoder : Decoder) (gen : GenKey) (bytes : Bytes) :
    IndexesLines decoder gen bytes
      ((numbered 0 0 (completeLines bytes)).map (indexLine decoder gen)) ↔
      [] ∉ completeLines bytes := by
  constructor
  · rintro ⟨bodies, rest, rfl, clean, unfinished, rows⟩ empty
    rw [completeLines_joined clean unfinished] at rows empty
    obtain ⟨line, found, blank⟩ := @mem_numbered 0 0 _ _ empty
    have same := List.map_inj_left.mp rows line found
    have reasons := congrArg IndexedMessage.quarantineReason same
    simp [indexLine, classified, blank, quarantineLine, maxIndexedLineBytes] at reasons
  · intro filled
    obtain ⟨rest, split, clean, unfinished⟩ := joined_completeLines bytes
    refine ⟨_, rest, split, clean, unfinished, List.map_congr_left fun line member => ?_⟩
    have something : line.body ≠ [] := fun blank => filled (blank ▸ numbered_body line member)
    simp only [indexLine, classified, something, false_or, if_false]

/-- In every run of the store and the index, with the events of a generation at ends
    that do not go back, the rows parsed for it are those of its lines if and only if no
    line up to the last end is empty. -/
theorem lines_indexed_iff (decoder : Decoder) (gen : GenKey) (naive : Bool) (ops : List NodeOp)
    (serial : (Reading.start naive).Along decoder gen ops) :
    IndexesLines decoder gen (((Reading.start naive).run decoder gen ops).bytes gen)
        ((Reading.start naive).run decoder gen ops).parsed ↔
      [] ∉ completeLines (((Reading.start naive).run decoder gen ops).bytes gen) := by
  have caught := (caught_start decoder gen naive).run serial
  rw [caught.parsed, linesBetween_zero]
  exact indexesLines_iff decoder gen _

/-- A file that is one newline. -/
def blankRun : List NodeOp := [putBody (sampleGen 1 2) 0 [newline], deliver (sampleGen 1 2) 1]

theorem empty_line_not_invalid_json :
    (Reading.start false).Along twoKeys (sampleGen 1 2) blankRun ∧
      ¬ IndexesLines twoKeys (sampleGen 1 2)
        (((Reading.start false).run twoKeys (sampleGen 1 2) blankRun).bytes (sampleGen 1 2))
        ((Reading.start false).run twoKeys (sampleGen 1 2) blankRun).parsed := by
  have serial : (Reading.start false).Along twoKeys (sampleGen 1 2) blankRun := by decide +kernel
  refine ⟨serial, ?_⟩
  rw [((caught_start twoKeys (sampleGen 1 2) false).run serial).parsed, linesBetween_zero]
  intro indexed
  exact (indexesLines_iff _ _ _).mp indexed (by decide +kernel)

/-- Two lines in two chunks, of which the first ends inside a line. -/
def chunkedRun : List NodeOp :=
  [putBody (sampleGen 1 2) 0 firstBody, deliver (sampleGen 1 2) 40,
    deliver (sampleGen 1 2) firstBody.length]

theorem lines_indexed_iff_sample :
    IndexesLines twoKeys (sampleGen 1 2)
      (((Reading.start false).run twoKeys (sampleGen 1 2) chunkedRun).bytes (sampleGen 1 2))
      ((Reading.start false).run twoKeys (sampleGen 1 2) chunkedRun).parsed :=
  (lines_indexed_iff twoKeys (sampleGen 1 2) false chunkedRun (by decide +kernel)).mpr
    (by decide +kernel)

end AiConfig.Sesh
