import Mathlib.Data.List.Basic

/-! # Records that end in a mark

A log is whole records, each ending in the mark, and a torn tail without one.

* `Cut` — the records and the tail of a log.
* `wholeRecords` — a scan of the log, record by record; `placed` says where each stands.
* `lastMark` — where the last whole record ends. -/

namespace AiConfig.Lib

section

variable {α : Type} (mark : α)

structure Whole (record : List α) : Prop where
  ends : ∃ body, record = body ++ [mark] ∧ mark ∉ body

structure Cut (log : List α) (records : List (List α)) (torn : List α) : Prop where
  whole : ∀ record ∈ records, Whole mark record
  log : log = records.flatten ++ torn
  torn : mark ∉ torn

/-- Records that stand one after the other. -/
def placed : Nat → List (List α) → List (Nat × List α)
  | _, [] => []
  | start, record :: rest => (start, record) :: placed (start + record.length) rest

variable [DecidableEq α]

/-- The whole records of a log and where each starts; `unended` is what was read since. -/
def wholeRecords : Nat → List α → List α → List (Nat × List α)
  | _, _, [] => []
  | start, unended, item :: rest =>
    if item = mark then (start, unended ++ [item]) :: wholeRecords (start + unended.length + 1)
      [] rest
    else wholeRecords start (unended ++ [item]) rest

/-- The last index of the mark. -/
def lastMark : List α → Option Nat
  | [] => none
  | item :: rest =>
    match lastMark rest with
    | some index => some (index + 1)
    | none => if item = mark then some 0 else none

end

section

variable {α : Type} {mark : α}

theorem mem_placed {start offset : Nat} {records : List (List α)} {record : List α} :
    (offset, record) ∈ placed start records ↔
      ∃ before after, records = before ++ record :: after ∧
        offset = start + before.flatten.length := by
  induction records generalizing start with
  | nil => simp [placed]
  | cons head rest inductionHypothesis =>
    simp only [placed, List.mem_cons, Prod.mk.injEq, inductionHypothesis]
    constructor
    · rintro (⟨rfl, rfl⟩ | ⟨before, after, rfl, rfl⟩)
      · exact ⟨[], rest, rfl, rfl⟩
      · exact ⟨head :: before, after, rfl, by simp [Nat.add_assoc]⟩
    · rintro ⟨before, after, split, rfl⟩
      cases before with
      | nil =>
        simp only [List.nil_append, List.cons.injEq] at split
        exact Or.inl ⟨rfl, split.1.symm⟩
      | cons first before =>
        simp only [List.cons_append, List.cons.injEq] at split
        obtain ⟨rfl, rfl⟩ := split
        exact Or.inr ⟨before, after, rfl, by simp [Nat.add_assoc]⟩

/-! ## How a log grows and is cut -/

theorem Cut.empty : Cut mark ([] : List α) [] [] := ⟨by simp, rfl, by simp⟩

/-- More of a log makes more records of its tail. -/
theorem Cut.grow {log : List α} {records : List (List α)} {torn : List α}
    (cut : Cut mark log records torn)
    (more : List α) : ∃ added torn', Cut mark (log ++ more) (records ++ added) torn' := by
  classical
  induction more generalizing log records torn with
  | nil => exact ⟨[], torn, by simpa using cut⟩
  | cons item more inductionHypothesis =>
    have next : ∃ added torn', Cut mark (log ++ [item]) (records ++ added) torn' := by
      by_cases own : item = mark
      · subst own
        refine ⟨[torn ++ [item]], [], ?_, by simp [cut.log], List.not_mem_nil⟩
        intro record inside
        obtain old | new := List.mem_append.mp inside
        · exact cut.whole record old
        · exact ⟨torn, List.mem_singleton.mp new, cut.torn⟩
      · refine ⟨[], torn ++ [item], by simpa using cut.whole, by simp [cut.log], ?_⟩
        simp [cut.torn, Ne.symm own]
    obtain ⟨added, torn', cut'⟩ := next
    obtain ⟨added', torn'', cut''⟩ := inductionHypothesis cut'
    exact ⟨added ++ added', torn'', by simpa using cut''⟩

theorem exists_cut (mark : α) (log : List α) : ∃ records torn, Cut mark log records torn := by
  have empty : Cut mark ([] : List α) [] [] := .empty
  obtain ⟨records, torn, cut⟩ := empty.grow log
  exact ⟨records, torn, by simpa using cut⟩

theorem Cut.add {log : List α} {records : List (List α)} (cut : Cut mark log records [])
    {record : List α}
    (whole : Whole mark record) : Cut mark (log ++ record) (records ++ [record]) [] where
  whole other inside := by
    obtain old | new := List.mem_append.mp inside
    · exact cut.whole other old
    · rw [List.mem_singleton.mp new]
      exact whole
  log := by simp [cut.log]
  torn := List.not_mem_nil

/-- A write that stops short leaves a tail. -/
theorem Cut.tear {log : List α} {records : List (List α)} (cut : Cut mark log records [])
    {record : List α}
    (whole : Whole mark record) {written : Nat} (short : written < record.length) :
    Cut mark (log ++ record.take written) records (record.take written) where
  whole := cut.whole
  log := by simp [cut.log]
  torn := by
    obtain ⟨body, rfl, clean⟩ := whole.ends
    simp only [List.length_append, List.length_singleton] at short
    rw [List.take_append_of_le_length (by omega)]
    exact fun inside => clean (List.mem_of_mem_take inside)

theorem Cut.trim {log : List α} {records : List (List α)} {torn : List α}
    (cut : Cut mark log records torn) :
    Cut mark records.flatten records [] :=
  ⟨cut.whole, by simp, List.not_mem_nil⟩

/-- A log cut anywhere keeps its first records. -/
theorem Cut.lose {log : List α} {records : List (List α)} {torn : List α}
    (cut : Cut mark log records torn)
    (kept : Nat) :
    ∃ records' lost torn', records = records' ++ lost ∧ Cut mark (log.take kept) records' torn' ∧
      ∀ front back, records = front ++ back → front.flatten.length ≤ kept → ∃ rest,
        records' = front ++ rest := by
  induction records generalizing log kept with
  | nil =>
    refine ⟨[], [], torn.take kept, rfl,
      ⟨cut.whole, ?_, fun inside => cut.torn (List.mem_of_mem_take inside)⟩, ?_⟩
    · simp [cut.log]
    · intro front back split _
      exact ⟨[], by simpa using (List.append_eq_nil_iff.mp split.symm).1.symm⟩
  | cons first rest inductionHypothesis =>
    have later : Cut mark (rest.flatten ++ torn) rest torn :=
      ⟨fun other inside => cut.whole other (List.mem_cons_of_mem _ inside), rfl, cut.torn⟩
    have log_eq : log = first ++ (rest.flatten ++ torn) := by simp [cut.log]
    by_cases enough : first.length ≤ kept
    · obtain ⟨records', lost, torn', split, cut', keeps⟩ :=
        inductionHypothesis later (kept - first.length)
      refine ⟨first :: records', lost, torn', by simp [split], ⟨?_, ?_, cut'.torn⟩, ?_⟩
      · intro record inside
        cases inside with
        | head => exact cut.whole first List.mem_cons_self
        | tail _ inside => exact cut'.whole record inside
      · rw [log_eq, List.take_append, List.take_of_length_le enough, cut'.log]
        simp
      · intro front back split' fits
        cases front with
        | nil => exact ⟨first :: records', rfl⟩
        | cons head front =>
          simp only [List.cons_append, List.cons.injEq] at split'
          obtain ⟨rfl, split'⟩ := split'
          simp only [List.flatten_cons, List.length_append] at fits
          obtain ⟨rest', same⟩ := keeps front back split' (by omega)
          exact ⟨rest', by simp [same]⟩
    · have whole := cut.whole first List.mem_cons_self
      have short : kept < first.length := Nat.lt_of_not_le enough
      have empty : Cut mark ([] : List α) [] [] := .empty
      refine ⟨[], first :: rest, first.take kept, rfl, ?_, ?_⟩
      · have torn := empty.tear whole short
        rw [log_eq, List.take_append_of_le_length (Nat.le_of_lt short)]
        simpa using torn
      · intro front back split' fits
        cases front with
        | nil => exact ⟨[], rfl⟩
        | cons head front =>
          simp only [List.cons_append, List.cons.injEq] at split'
          obtain ⟨rfl, -⟩ := split'
          simp only [List.flatten_cons, List.length_append] at fits
          omega

/-- Whole records are nothing or end in the mark. -/
theorem Cut.ends {log : List α} {records : List (List α)} {torn : List α}
    (cut : Cut mark log records torn) :
    records.flatten = [] ∨ ∃ front, records.flatten = front ++ [mark] := by
  obtain rfl | ⟨front, last, rfl⟩ := List.eq_nil_or_concat records
  · exact Or.inl rfl
  · obtain ⟨body, rfl, -⟩ := (cut.whole last (by simp)).ends
    exact Or.inr ⟨front.flatten ++ body, by simp⟩

end

/-! ## A boundary in a log -/

section

variable {α : Type} {mark : α} {log torn : List α} {before after : List (List α)}

theorem Cut.front (cut : Cut mark log (before ++ after) torn) : Cut mark before.flatten before [] :=
  ⟨fun record inside => cut.whole record (List.mem_append_left _ inside), by simp, List.not_mem_nil⟩

theorem Cut.drop (cut : Cut mark log (before ++ after) torn) :
    Cut mark (log.drop before.flatten.length) after torn where
  whole record inside := cut.whole record (List.mem_append_right _ inside)
  log := by rw [cut.log, List.flatten_append, List.append_assoc, List.drop_left]
  torn := cut.torn

/-- Where the last record ends. -/
theorem placed_end (start : Nat) (records : List (List α)) :
    (((placed start records).getLast?).map fun record => record.1 + record.2.length).getD start =
      start + records.flatten.length := by
  obtain rfl | ⟨earlier, last, rfl⟩ := List.eq_nil_or_concat' records
  · rfl
  · have whole : ∀ start, placed start (earlier ++ [last]) =
        placed start earlier ++ [(start + earlier.flatten.length, last)] := by
      induction earlier with
      | nil => exact fun start => by simp [placed]
      | cons record rest inductionHypothesis =>
        intro start
        rw [List.cons_append, placed, placed, inductionHypothesis]
        simp [Nat.add_assoc]
    rw [whole]
    simp [Nat.add_assoc]

end

/-! ## Scans -/

section

variable {α : Type} [DecidableEq α] {mark : α}

theorem wholeRecords_mark (start : Nat) (unended rest : List α) :
    wholeRecords mark start unended (mark :: rest) =
      (start, unended ++ [mark]) :: wholeRecords mark (start + unended.length + 1) [] rest :=
  if_pos rfl

theorem wholeRecords_unended {body : List α} (clean : mark ∉ body) (start : Nat)
    (unended rest : List α) :
    wholeRecords mark start unended (body ++ rest) =
      wholeRecords mark start (unended ++ body) rest := by
  induction body generalizing unended with
  | nil => simp
  | cons item body inductionHypothesis =>
    simp only [List.mem_cons, not_or] at clean
    rw [List.cons_append, wholeRecords, if_neg (Ne.symm clean.1), inductionHypothesis clean.2]
    simp

/-- A scan finds the whole records and nothing of the tail. -/
theorem Cut.scan {log : List α} {records : List (List α)} {torn : List α}
    (cut : Cut mark log records torn)
    (start : Nat) : wholeRecords mark start [] log = placed start records := by
  induction records generalizing log start with
  | nil =>
    have scanned := wholeRecords_unended cut.torn start [] []
    rw [cut.log]
    simpa [wholeRecords, placed] using scanned
  | cons record rest inductionHypothesis =>
    obtain ⟨⟨body, rfl, clean⟩⟩ := cut.whole record List.mem_cons_self
    have later : Cut mark (rest.flatten ++ torn) rest torn :=
      ⟨fun other inside => cut.whole other (List.mem_cons_of_mem _ inside), rfl, cut.torn⟩
    rw [cut.log]
    simp only [List.flatten_cons, List.append_assoc, List.singleton_append]
    rw [wholeRecords_unended clean, List.nil_append, List.cons_append, wholeRecords_mark,
      inductionHypothesis later, placed]
    simp [Nat.add_assoc]

/-! ## The end of the last whole record -/

theorem lastMark_eq_none {log : List α} : lastMark mark log = none ↔ mark ∉ log := by
  induction log with
  | nil => simp [lastMark]
  | cons item rest inductionHypothesis =>
    rw [lastMark]
    cases found : lastMark mark rest with
    | some index =>
      have inside : mark ∈ rest := by
        by_contra absent
        rw [inductionHypothesis.mpr absent] at found
        cases found
      simp [inside]
    | none =>
      have absent := inductionHypothesis.mp found
      by_cases own : item = mark
      · simp [own]
      · simp [own, Ne.symm own, absent]

/-- The mark found is the last one. -/
theorem lastMark_eq_some {log : List α} {index : Nat} (found : lastMark mark log = some index) :
    ∃ front back, log = front ++ mark :: back ∧ mark ∉ back ∧ index = front.length := by
  induction log generalizing index with
  | nil => cases found
  | cons item rest inductionHypothesis =>
    rw [lastMark] at found
    cases later : lastMark mark rest with
    | some last =>
      rw [later] at found
      obtain ⟨front, back, rfl, clean, rfl⟩ := inductionHypothesis later
      exact ⟨item :: front, back, rfl, clean, (Option.some.inj found).symm⟩
    | none =>
      rw [later] at found
      dsimp only at found
      split at found
      · next own => exact ⟨[], rest, by rw [own, List.nil_append], lastMark_eq_none.mp later,
          (Option.some.inj found).symm⟩
      · cases found

/-- The last mark of a log in two parts is in the second, or else in the first. -/
theorem lastMark_parts (front back : List α) :
    lastMark mark (front ++ back) =
      ((lastMark mark back).map (front.length + ·)).or (lastMark mark front) := by
  induction front with
  | nil => cases found : lastMark mark back <;> simp [lastMark, found]
  | cons item front inductionHypothesis =>
    rw [List.cons_append, lastMark, inductionHypothesis, lastMark]
    cases lastMark mark back with
    | none => simp
    | some index => simp [Nat.add_right_comm]

theorem lastMark_append (front : List α) {back : List α} (clean : mark ∉ back) :
    lastMark mark (front ++ mark :: back) = some front.length := by
  induction front with
  | nil => simp [lastMark, lastMark_eq_none.mpr clean]
  | cons item front inductionHypothesis => simp [lastMark, inductionHypothesis]

end

end AiConfig.Lib
