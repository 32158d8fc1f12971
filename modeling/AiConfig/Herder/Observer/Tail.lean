import AiConfig.Lib.Records
import Mathlib.Data.List.Induction
import Mathlib.Tactic.Common

/-! # The vitals of a session file

Transcription of the reverse reads of `sessionjsonl/reverse.go`, of `readVitals` of the two
readers, and of `Seed` and `Advance` in `sessionvitals/tail.go`.  The seed scans a file backwards
until each fact is found; `readVitals_eq` says that it finds the latest of each, which is what
`Advance` keeps as it folds forwards. -/

namespace AiConfig.Herder.Observer

open AiConfig.Lib

abbrev Bytes := List UInt8

def newline : UInt8 := 10

def carriage : UInt8 := 13

/-! ## Reading backwards -/

/-- A buffer to read blocks into. -/
structure Buffer where
  len : Nat
  positive : 0 < len

def reverseBlockSize : Buffer := ⟨64 * 1024, by decide⟩

/-- The bytes in `[start, stop)`. -/
def slice (file : Bytes) (start stop : Nat) : Bytes := (file.take stop).drop start

/-- The last newline before an offset, searched block by block; `none` is `-1`. -/
def previousNewline (buffer : Buffer) (file : Bytes) (before : Nat) : Option Nat :=
  if before = 0 then none
  else
    let start := before - buffer.len
    match lastMark newline (slice file start before) with
    | some index => some (start + index)
    | none => previousNewline buffer file start
termination_by before
decreasing_by
  have positive := buffer.positive
  omega

/-- `newline + 1` -/
def afterNewline : Option Nat → Nat
  | some index => index + 1
  | none => 0

def completeEnd (buffer : Buffer) (file : Bytes) : Nat :=
  if file.length = 0 then 0
  else if file[file.length - 1]? = some newline then file.length
  else afterNewline (previousNewline buffer file file.length)

/-- `bytes.TrimSuffix` with one byte. -/
def trimSuffix (line : Bytes) (byte : UInt8) : Bytes :=
  if line.getLast? = some byte then line.dropLast else line

/-- The search by blocks finds the last newline there is. -/
theorem previousNewline_eq (buffer : Buffer) (file : Bytes) (before : Nat) :
    previousNewline buffer file before = lastMark newline (file.take before) := by
  induction before using Nat.strongRecOn with
  | _ before inductionHypothesis =>
    rw [previousNewline]
    split
    · next isZero =>
      rw [isZero, List.take_zero]
      rfl
    · next positive =>
      have parts := (List.take_append_drop (before - buffer.len) (file.take before)).symm
      rw [List.take_take, Nat.min_eq_left (Nat.sub_le _ _)] at parts
      rw [parts, lastMark_parts, ← slice]
      dsimp only
      split
      · next index found =>
        obtain ⟨front, back, inBlock, -, -⟩ := lastMark_eq_some found
        have started : before - buffer.len < file.length := by
          have length := congrArg List.length inBlock
          simp only [slice, List.length_drop, List.length_take, List.length_append,
            List.length_cons] at length
          omega
        rw [found, List.length_take, Nat.min_eq_left (Nat.le_of_lt started)]
        rfl
      · next absent =>
        have smaller : before - buffer.len < before := by
          have block := buffer.positive
          omega
        rw [absent, inductionHypothesis _ smaller]
        rfl

theorem afterNewline_le (buffer : Buffer) (file : Bytes) (before : Nat) :
    afterNewline (previousNewline buffer file before) ≤ before := by
  rw [previousNewline_eq]
  cases found : lastMark newline (file.take before) with
  | none => exact Nat.zero_le before
  | some index =>
    obtain ⟨front, back, text, -, rfl⟩ := lastMark_eq_some found
    have length := congrArg List.length text
    simp only [List.length_take, List.length_append, List.length_cons] at length
    simp only [afterNewline]
    omega

/-- Complete records, newest first, until a visit says that it has seen enough. -/
def scanFrom {σ : Type} (buffer : Buffer) (file : Bytes) (visit : σ → Bytes → σ × Bool)
    (completeEnd : Nat) (state : σ) : σ :=
  if completeEnd = 0 then state
  else
    let lineEnd := completeEnd - 1
    let lineStart := afterNewline (previousNewline buffer file lineEnd)
    let (state, more) := visit state (trimSuffix (slice file lineStart lineEnd) carriage)
    if more then scanFrom buffer file visit lineStart state else state
termination_by completeEnd
decreasing_by
  have before := afterNewline_le buffer file (completeEnd - 1)
  omega

/-- `ScanCompleteReverse`, with the end it scanned from. -/
def scanCompleteReverse {σ : Type} (file : Bytes) (visit : σ → Bytes → σ × Bool) (state : σ) :
    σ × Nat :=
  let end_ := completeEnd reverseBlockSize file
  if end_ = 0 then (state, 0) else (scanFrom reverseBlockSize file visit end_ state, end_)

/-! ## Vitals -/

structure Vitals (Usage : Type) where
  model : String
  contextUsage : Option Usage
  deriving DecidableEq

inductive Tool where
  | claude | codex
  deriving DecidableEq

/-- `ObserveVitals` of the two readers, on facts that are still empty. -/
structure Parsers (Usage : Type) where
  claude : Bytes → Bool → Vitals Usage
  codex : Bytes → Vitals Usage

variable {Usage : Type}

def Vitals.zero : Vitals Usage := ⟨"", none⟩

/-- What the visit of `ReadVitals` keeps of one more record, and whether it wants another. -/
def visitVitals (observe : Bytes → Vitals Usage) (vitals : Vitals Usage) (raw : Bytes) :
    Vitals Usage × Bool :=
  let facts := observe raw
  let vitals : Vitals Usage :=
    { model := if vitals.model = "" then facts.model else vitals.model
      contextUsage :=
        if vitals.contextUsage.isNone then facts.contextUsage else vitals.contextUsage }
  (vitals, vitals.model = "" || vitals.contextUsage.isNone)

def readVitals (parsers : Parsers Usage) (tool : Tool) (subagent : Bool) (file : Bytes) :
    Vitals Usage × Nat :=
  match tool, subagent with
  | .codex, _ => scanCompleteReverse file (visitVitals parsers.codex) .zero
  | .claude, true => scanCompleteReverse file (visitVitals fun raw => parsers.claude raw true) .zero
  | .claude, false => scanCompleteReverse file
      (visitVitals fun raw => parsers.claude raw false) .zero

inductive Failure where
  | notExist
  | truncated

/-- A file that is not there is `none`. -/
def Seed (parsers : Parsers Usage) (tool : Tool) (subagent : Bool) : Option Bytes → Except Failure
    (Vitals Usage × Nat)
  | none => .error .notExist
  | some file => .ok (readVitals parsers tool subagent file)

/-- What `ReadBytes('\n')` returns up to the end, `unended` being read since the last newline. -/
def readLines : Bytes → Bytes → List Bytes
  | unended, [] => if unended = [] then [] else [unended]
  | unended, byte :: rest =>
    if byte = newline then (unended ++ [byte]) :: readLines [] rest
    else readLines (unended ++ [byte]) rest

def foldLine (parsers : Parsers Usage) (tool : Tool) (subagent : Bool) (vitals : Vitals Usage)
    (raw : Bytes) : Vitals Usage :=
  let body := trimSuffix (trimSuffix raw newline) carriage
  let facts := if tool = .codex then parsers.codex body else parsers.claude body subagent
  { model := if facts.model ≠ "" then facts.model else vitals.model
    contextUsage := if facts.contextUsage.isSome then facts.contextUsage else vitals.contextUsage }

/-- The vitals, the new offset and the number of bytes read. -/
def Advance (parsers : Parsers Usage) (tool : Tool) (subagent : Bool) (file : Option Bytes)
    (offset : Nat) (prior : Vitals Usage) :
    Except Failure (Vitals Usage × Nat × Nat) :=
  match file with
  | none => .error .notExist
  | some file =>
    let end_ := completeEnd reverseBlockSize file
    -- A file cut below the offset has to be seeded again.
    if end_ < offset then .error .truncated
    else if end_ = offset then .ok (prior, offset, 0)
    else .ok ((readLines [] (slice file offset end_)).foldl (foldLine parsers tool subagent) prior,
      end_, end_ - offset)

/-! ## The latest of each fact -/

/-- Later facts over earlier ones. -/
def Vitals.override (earlier later : Vitals Usage) : Vitals Usage where
  model := if later.model ≠ "" then later.model else earlier.model
  contextUsage := if later.contextUsage.isSome then later.contextUsage else earlier.contextUsage

theorem override_assoc (a b c : Vitals Usage) : (a.override b).override c = a.override
    (b.override c) := by
  unfold Vitals.override
  by_cases model : c.model = "" <;> cases usage : c.contextUsage <;> simp [model]

theorem override_zero (vitals : Vitals Usage) : vitals.override .zero = vitals := by
  simp [Vitals.override, Vitals.zero]

theorem zero_override (vitals : Vitals Usage) : Vitals.override .zero vitals = vitals := by
  obtain ⟨model, usage⟩ := vitals
  by_cases empty : model = "" <;> cases usage <;> simp [Vitals.override, Vitals.zero, empty]

/-- What a record's line says. -/
def Parsers.facts (parsers : Parsers Usage) (tool : Tool) (subagent : Bool) (line : Bytes) :
    Vitals Usage :=
  if tool = .codex then parsers.codex line else parsers.claude line subagent

/-- The line of a record. -/
def lineOf (record : Bytes) : Bytes := trimSuffix (trimSuffix record newline) carriage

/-- The latest of each fact in the records. -/
def latest (facts : Bytes → Vitals Usage) (records : List Bytes) : Vitals Usage :=
  records.foldl (fun vitals record => vitals.override (facts (lineOf record))) .zero

theorem foldl_override (facts : Bytes → Vitals Usage) (vitals : Vitals Usage)
    (records : List Bytes) :
    records.foldl (fun vitals record => vitals.override (facts (lineOf record))) vitals =
      vitals.override (latest facts records) := by
  rw [latest]
  induction records generalizing vitals with
  | nil => exact (override_zero vitals).symm
  | cons record records inductionHypothesis =>
    rw [List.foldl_cons, List.foldl_cons, inductionHypothesis,
      inductionHypothesis (Vitals.override .zero _), zero_override,
      override_assoc]

theorem latest_append (facts : Bytes → Vitals Usage) (earlier later : List Bytes) :
    latest facts (earlier ++ later) = (latest facts earlier).override (latest facts later) := by
  rw [latest, List.foldl_append, foldl_override]
  rfl

theorem latest_singleton (facts : Bytes → Vitals Usage) (record : Bytes) :
    latest facts [record] = facts (lineOf record) :=
  zero_override _

/-! ## A file of whole records -/

section

variable {file torn : Bytes} {records : List Bytes}

theorem trimSuffix_own (body : Bytes) (byte : UInt8) : trimSuffix (body ++ [byte]) byte = body := by
  simp [trimSuffix]

/-- Before whole records, the last newline is the last byte of the record before. -/
theorem afterNewline_records (cut : Cut newline file records torn) {body : Bytes}
    (clean : newline ∉ body) :
    afterNewline (lastMark newline (records.flatten ++ body)) = records.flatten.length := by
  obtain none | ⟨front, ends⟩ := cut.ends
  · rw [none, List.nil_append, lastMark_eq_none.mpr clean]
    rfl
  · rw [ends, List.append_assoc, List.singleton_append, lastMark_append front clean]
    simp [afterNewline]

theorem completeEnd_eq (buffer : Buffer) (cut : Cut newline file records torn) :
    completeEnd buffer file = records.flatten.length := by
  unfold completeEnd
  split
  · next empty =>
    have length := congrArg List.length cut.log
    rw [List.length_append] at length
    omega
  · next nonempty =>
    split
    · next ended =>
      -- A file that ends in a newline has no tail.
      obtain rfl | ⟨front, last, rfl⟩ := List.eq_nil_or_concat torn
      · rw [cut.log, List.append_nil]
      · rw [cut.log, List.concat_eq_append] at ended
        have isLast : last = newline := by
          have found := ended
          simp at found
          exact found
        exact absurd (by simp [isLast]) cut.torn
    · rw [previousNewline_eq, List.take_length, cut.log]
      exact afterNewline_records cut cut.torn

theorem visitVitals_eq (observe : Bytes → Vitals Usage) (vitals : Vitals Usage) (raw : Bytes) :
    (visitVitals observe vitals raw).1 = (observe raw).override vitals := by
  unfold visitVitals Vitals.override
  by_cases model : vitals.model = "" <;> cases usage : vitals.contextUsage <;> simp [model]

/-- Facts that are all there are not replaced by earlier ones. -/
theorem visitVitals_enough {observe : Bytes → Vitals Usage} {vitals : Vitals Usage} {raw : Bytes}
    (enough : (visitVitals observe vitals raw).2 = false) (earlier : Vitals Usage) :
    earlier.override (visitVitals observe vitals raw).1 = (visitVitals observe vitals raw).1 := by
  have both : (visitVitals observe vitals raw).1.model ≠ "" ∧
      (visitVitals observe vitals raw).1.contextUsage.isSome := by
    simpa [visitVitals, Option.isSome_iff_ne_none] using enough
  rw [Vitals.override, if_pos both.1, if_pos both.2]

/-- A backward scan over whole records finds the latest of each fact, where it stops early too. -/
theorem scanFrom_eq (buffer : Buffer) (observe : Bytes → Vitals Usage) {records : List Bytes}
    (rest : Bytes)
    (cut : Cut newline records.flatten records []) (vitals : Vitals Usage) :
    scanFrom buffer (records.flatten ++ rest) (visitVitals observe) records.flatten.length vitals =
      (latest observe records).override vitals := by
  induction records using List.reverseRecOn generalizing rest vitals with
  | nil =>
    rw [List.flatten_nil, List.length_nil, scanFrom, if_pos rfl]
    exact (zero_override vitals).symm
  | append_singleton records record inductionHypothesis =>
    obtain ⟨body, rfl, clean⟩ := (cut.whole record (by simp)).ends
    have earlier : Cut newline records.flatten records [] := cut.front
    have text : (records ++ [body ++ [newline]]).flatten ++ rest = records.flatten ++ body ++
      (newline :: rest) := by simp
    have length : (records ++ [body ++ [newline]]).flatten.length =
      (records.flatten ++ body).length + 1 := by simp; omega
    have start :
      afterNewline (previousNewline buffer (records.flatten ++ body ++ (newline :: rest))
      (records.flatten ++ body).length) =
        records.flatten.length := by
      rw [previousNewline_eq, List.take_left]
      exact afterNewline_records earlier clean
    have line : slice (records.flatten ++ body ++ (newline :: rest)) records.flatten.length
        (records.flatten ++ body).length = body := by
      rw [slice, List.take_left, List.drop_left]
    have facts : lineOf (body ++ [newline]) = trimSuffix body carriage := by
      rw [lineOf, trimSuffix_own]
    rw [text, length, scanFrom, if_neg (Nat.succ_ne_zero _)]
    simp only [Nat.add_sub_cancel, start, line]
    rw [latest_append, latest_singleton, facts, override_assoc, ← visitVitals_eq]
    split
    · rw [List.append_assoc, inductionHypothesis _ earlier]
    · next enough =>
      rw [visitVitals_enough (by simpa using enough)]

theorem readVitals_eq (parsers : Parsers Usage) (tool : Tool) (subagent : Bool)
    (cut : Cut newline file records torn) :
    readVitals parsers tool subagent file =
      (latest (parsers.facts tool subagent) records, records.flatten.length) := by
  have scanned : ∀ observe : Bytes → Vitals Usage,
      scanCompleteReverse file (visitVitals observe) .zero =
          (latest observe records, records.flatten.length) := by
    intro observe
    rw [scanCompleteReverse, completeEnd_eq _ cut]
    split
    · next none =>
      have noRecord : records = [] := by
        by_contra some
        obtain ⟨record, rest, rfl⟩ := List.exists_cons_of_ne_nil some
        obtain ⟨body, rfl, -⟩ := (cut.whole record List.mem_cons_self).ends
        simp at none
      rw [noRecord]
      rfl
    · rw [cut.log, scanFrom_eq _ _ _ cut.trim, override_zero]
  unfold readVitals
  cases tool <;> cases subagent <;> exact scanned _

theorem foldLine_eq (parsers : Parsers Usage) (tool : Tool) (subagent : Bool) :
    foldLine parsers tool subagent = fun vitals raw =>
      vitals.override (parsers.facts tool subagent (lineOf raw)) := rfl

theorem readLines_unended {body : Bytes} (clean : newline ∉ body) (unended rest : Bytes) :
    readLines unended (body ++ rest) = readLines (unended ++ body) rest := by
  induction body generalizing unended with
  | nil => simp
  | cons byte body inductionHypothesis =>
    simp only [List.mem_cons, not_or] at clean
    rw [List.cons_append, readLines, if_neg (Ne.symm clean.1), inductionHypothesis clean.2]
    simp

theorem readLines_records (whole : ∀ record ∈ records, Whole newline record) :
    readLines [] records.flatten = records := by
  induction records with
  | nil => rfl
  | cons record rest inductionHypothesis =>
    obtain ⟨body, rfl, clean⟩ := (whole record List.mem_cons_self).ends
    rw [List.flatten_cons, List.append_assoc, readLines_unended clean, List.nil_append,
      List.singleton_append, readLines,
      if_pos rfl, inductionHypothesis fun record inside =>
        whole record (List.mem_cons_of_mem _ inside)]

/-- Advancing over the records since the offset keeps the latest of each fact. -/
theorem Advance_eq (parsers : Parsers Usage) (tool : Tool) (subagent : Bool)
    {before after : List Bytes}
    (cut : Cut newline file (before ++ after) torn) :
    Advance parsers tool subagent (some file) before.flatten.length
      (latest (parsers.facts tool subagent) before) =
      .ok (latest (parsers.facts tool subagent) (before ++ after), (before ++ after).flatten.length,
        after.flatten.length) := by
  have section_ :
      slice file before.flatten.length (before ++ after).flatten.length = after.flatten := by
    rw [slice, cut.log, List.take_left, List.flatten_append, List.drop_left]
  have lines : readLines [] after.flatten = after :=
    readLines_records fun record inside => cut.whole record (List.mem_append_right _ inside)
  have length :
      (before ++ after).flatten.length = before.flatten.length + after.flatten.length := by
    rw [List.flatten_append, List.length_append]
  unfold Advance
  simp only [completeEnd_eq _ cut, section_, lines]
  rw [if_neg (by omega)]
  split
  · next same =>
    have none : after = [] := by
      by_contra some
      obtain ⟨record, rest, rfl⟩ := List.exists_cons_of_ne_nil some
      obtain ⟨body, rfl, -⟩ := (cut.whole record (by simp)).ends
      simp at same
    rw [none, List.append_nil]
    rfl
  · rw [foldLine_eq, foldl_override, ← latest_append, length, Nat.add_sub_cancel_left]

/-- A file shorter than the offset is reported as truncated. -/
theorem Advance_truncated (parsers : Parsers Usage) (tool : Tool) (subagent : Bool) {offset : Nat}
    (prior : Vitals Usage)
    (short : file.length < offset) :
    Advance parsers tool subagent (some file) offset prior = .error .truncated := by
  obtain ⟨records, torn, cut⟩ := exists_cut newline file
  have within := congrArg List.length cut.log
  rw [List.length_append] at within
  unfold Advance
  simp only [completeEnd_eq _ cut]
  rw [if_pos (by omega)]

end

end AiConfig.Herder.Observer
