import AiConfig.Lib.Newest
import AiConfig.Herder.Observer.Tail

/-! # The entries of a session file

Transcription of `read` and `readTail` of `claudesession/read.go` over the backward scan of
`sessionjsonl/reverse.go`, of the reset rules of `tail.go`, and of the `from` and tail windows of
`serveEntries`.

* `renderable` — the entries of a file's complete records.
* `read_eq`, `readTail_eq` — which of them the two reads return. -/

namespace AiConfig.Herder.SessionEntries

open AiConfig.Lib

open Observer (Bytes Buffer newline carriage slice previousNewline afterNewline completeEnd
  trimSuffix readLines lineOf
  reverseBlockSize)

/-- What is not asked of an entry here is its body. -/
structure Entry (Body : Type) where
  uuid : String
  line : Nat
  byteOffset : Nat
  body : Body
deriving DecidableEq

/-- A record's classifier: its line, line number and offset.  A record that is not rendered is
`none`. -/
structure Classifier (Body : Type) where
  classify : Bytes → Nat → Nat → Option (Entry Body)
  placed : ∀ raw line offset entry, classify raw line offset = some entry →
    entry.byteOffset = offset

structure ReadResult (Body : Type) where
  entries : List (Entry Body)
  nextOffset : Nat
deriving DecidableEq

def lineAt (file : Bytes) (offset : Nat) : Nat := (file.take offset).count newline

section

variable {Body : Type} (classifier : Classifier Body)

/-! ## Reading -/

/-- The loop of `read` over what `ReadBytes` returns; a line without a newline comes with `io.EOF`.
-/
def readLoop (limit : Nat) : Nat → List Bytes → ReadResult Body → ReadResult Body
  | _, [], result => result
  | line, raw :: rest, result =>
    -- The last line may still be being written: it is left for the next read.
    if raw.getLast? ≠ some newline then result
    else
      let start := result.nextOffset
      let body := trimSuffix raw.dropLast carriage
      match classifier.classify body line start with
      | none => readLoop limit (line + 1) rest { result with nextOffset := start + raw.length }
      | some entry =>
        -- The read stops before the first entry that is too much.
        if 0 < limit ∧ result.entries.length = limit then { result with nextOffset := start }
        else readLoop limit (line + 1) rest ⟨result.entries ++ [entry], start + raw.length⟩

/-- An offset beyond the size is `none`. -/
def read (file : Bytes) (offset limit : Nat) : Option (ReadResult Body) :=
  if file.length < offset then none
  else some (readLoop classifier limit (lineAt file offset) (readLines [] (file.drop offset))
    ⟨[], offset⟩)

/-- `scanBackward` from a record's end, with the number of that record's line; the result tells
whether it has
reached the start. -/
def scanBackward {σ : Type} (buffer : Buffer) (file : Bytes)
    (visit : σ → Bytes → Nat → Nat → σ × Bool)
    (line currentEnd : Nat) (state : σ) : σ × Bool :=
  if currentEnd = 0 then (state, true)
  else
    -- `currentEnd` is just after a newline.
    let lineEnd := currentEnd - 1
    let lineStart := afterNewline (previousNewline buffer file lineEnd)
    let (state, more) :=
      visit state (trimSuffix (slice file lineStart lineEnd) carriage) line lineStart
    if more then scanBackward buffer file visit (line - 1) lineStart state
    else (state, lineStart = 0)
termination_by currentEnd
decreasing_by
  have before := Observer.afterNewline_le buffer file (currentEnd - 1)
  omega

/-- `ScanCompleteTail`, with the end that it captures. -/
def scanCompleteTail {σ : Type} (file : Bytes) (visit : σ → Bytes → Nat → Nat → σ × Bool)
    (state : σ) :
    Nat × σ × Bool :=
  let end_ := completeEnd reverseBlockSize file
  if end_ = 0 then (end_, state, true)
  else (end_, scanBackward reverseBlockSize file visit (lineAt file end_ - 1) end_ state)

inductive ScanFault where
  | notRecordBoundary
  | beyondSize
deriving DecidableEq

def scanCompleteBefore {σ : Type} (file : Bytes) (before : Nat)
    (visit : σ → Bytes → Nat → Nat → σ × Bool) (state : σ) :
    Except ScanFault (σ × Bool) :=
  if file.length < before then .error .beyondSize
  else if before = 0 then .ok (state, true)
  else if completeEnd reverseBlockSize file < before then .error .notRecordBoundary
  else if file[before - 1]? ≠ some newline then .error .notRecordBoundary
  else .ok (scanBackward reverseBlockSize file visit (lineAt file before - 1) before state)

def backwardVisit (limit : Nat) (entries : List (Entry Body)) (raw : Bytes) (line offset : Nat) :
    List (Entry Body) × Bool :=
  let entries := entries ++ (classifier.classify raw line offset).toList
  (entries, entries.length < limit)

/-- The last entries, and where they start. -/
def readTail (file : Bytes) (limit : Nat) : ReadResult Body × Nat :=
  let (end_, visited, _) := scanCompleteTail file (backwardVisit classifier limit) []
  let entries := visited.reverse
  (⟨entries, end_⟩, (entries.head?.map Entry.byteOffset).getD end_)

/-! ## Serving -/

structure Cursor where
  sessionID : String
  offset : Nat

inductive ResetReason where
  | sessionChanged
  | truncated
deriving DecidableEq

def tail (file : Bytes) (sessionID : String) (cursor : Cursor) (limit : Nat) :
    Except ResetReason (ReadResult Body) :=
  if cursor.sessionID ≠ "" ∧ cursor.sessionID ≠ sessionID then .error .sessionChanged
  else if file.length < cursor.offset then .error .truncated
  else match read classifier file cursor.offset limit with
    | none => .error .truncated
    | some read => .ok read

structure BeforeResult (Body : Type) where
  read : ReadResult Body
  prevOffset : Nat
deriving DecidableEq

/-- `ReadBeforeWith`; a fault is an offset that is no record boundary. -/
def readBefore (file : Bytes) (sessionID : String) (cursor : Cursor) (limit : Nat) :
    Except ScanFault (Except ResetReason (BeforeResult Body)) :=
  if cursor.sessionID ≠ "" ∧ cursor.sessionID ≠ sessionID then .ok (.error .sessionChanged)
  else match scanCompleteBefore file cursor.offset (backwardVisit classifier limit) [] with
    | .error .beyondSize => .ok (.error .truncated)
    | .error .notRecordBoundary => .error .notRecordBoundary
    | .ok (visited, reachedStart) =>
      let entries := visited.reverse
      let prev := if reachedStart then 0 else (entries.head?.map Entry.byteOffset).getD 0
      .ok (.ok ⟨⟨entries, cursor.offset⟩, prev⟩)

/-- An answer of the endpoint: what the client keeps as a page. -/
structure EntriesPage (Body : Type) where
  sessionId : String
  windowFrom : Nat
  entries : Option (List (Entry Body))
  nextOffset : Option Nat
  reset : Option ResetReason
deriving DecidableEq

inductive Query where
  | tail
  | from_ (offset : Nat) (sessionId : String)

def serveEntries (sessionID : String) (file : Bytes) (limit : Nat) : Query → EntriesPage Body
  | .tail =>
    let (read, from_) := readTail classifier file limit
    ⟨sessionID, from_, some read.entries, some read.nextOffset, none⟩
  | .from_ offset previous =>
    match tail classifier file sessionID ⟨previous, offset⟩ limit with
    | .error reset => ⟨sessionID, offset, none, none, some reset⟩
    | .ok read => ⟨sessionID, offset, some read.entries, some read.nextOffset, none⟩

/-! ## The entries there are -/

/-- The entries of records, the first of which is at a line and an offset. -/
def rendered : Nat → Nat → List Bytes → List (Entry Body)
  | _, _, [] => []
  | line, start, record :: rest =>
    (classifier.classify (lineOf record) line start).toList ++
      rendered (line + 1) (start + record.length) rest

def renderable (file : Bytes) : List (Entry Body) :=
  rendered classifier 0 0 ((wholeRecords newline 0 [] file).map Prod.snd)

theorem wholeRecords_records {file torn : Bytes} {records : List Bytes}
    (cut : Cut newline file records torn) (start : Nat) :
    (wholeRecords newline start [] file).map Prod.snd = records := by
  obtain ⟨whole, rfl, clean⟩ := cut
  induction records generalizing start with
  | nil =>
    have unended := wholeRecords_unended clean start [] []
    rw [List.append_nil] at unended
    rw [List.flatten_nil, List.nil_append, unended]
    rfl
  | cons record rest inductionHypothesis =>
    obtain ⟨body, rfl, tidy⟩ := (whole record List.mem_cons_self).ends
    rw [List.flatten_cons, List.append_assoc, List.append_assoc, wholeRecords_unended tidy,
      List.nil_append,
      List.singleton_append, wholeRecords_mark, List.map_cons,
      inductionHypothesis _ fun other inside => whole other (List.mem_cons_of_mem _ inside)]

theorem renderable_eq {file torn : Bytes} {records : List Bytes}
    (cut : Cut newline file records torn) :
    renderable classifier file = rendered classifier 0 0 records := by
  rw [renderable, wholeRecords_records cut]

theorem rendered_append (line start : Nat) (before after : List Bytes) :
    rendered classifier line start (before ++ after) =
      rendered classifier line start before ++
        rendered classifier (line + before.length) (start + before.flatten.length) after := by
  induction before generalizing line start with
  | nil => rfl
  | cons record before inductionHypothesis =>
    have line' : line + 1 + before.length = line + (record :: before).length := by
      rw [List.length_cons]
      omega
    have start' : start + record.length + before.flatten.length =
        start + (record :: before).flatten.length := by
      rw [List.flatten_cons, List.length_append, Nat.add_assoc]
    rw [List.cons_append, rendered, rendered, inductionHypothesis, List.append_assoc, line', start']

theorem rendered_within {line start : Nat} {records : List Bytes}
    (whole : ∀ record ∈ records, Whole newline record)
    {entry : Entry Body} (on : entry ∈ rendered classifier line start records) :
    start ≤ entry.byteOffset ∧ entry.byteOffset < start + records.flatten.length := by
  induction records generalizing line start with
  | nil => cases on
  | cons record rest inductionHypothesis =>
    obtain ⟨body, rfl, -⟩ := (whole record List.mem_cons_self).ends
    rw [rendered, List.mem_append, Option.mem_toList] at on
    simp only [List.flatten_cons, List.length_append, List.length_singleton]
    obtain first | later := on
    · have placed := classifier.placed _ _ _ _ first
      omega
    · have bounds :=
        inductionHypothesis (fun other inside => whole other (List.mem_cons_of_mem _ inside)) later
      simp only [List.length_append, List.length_singleton] at bounds
      omega

theorem rendered_ordered {records : List Bytes} (whole : ∀ record ∈ records, Whole newline record)
    (line start : Nat) :
    (rendered classifier line start records).Pairwise fun entry later =>
    entry.byteOffset < later.byteOffset := by
  induction records generalizing line start with
  | nil => exact .nil
  | cons record rest inductionHypothesis =>
    have after : ∀ other ∈ rest, Whole newline other :=
      fun other inside => whole other (List.mem_cons_of_mem _ inside)
    obtain ⟨body, rfl, -⟩ := (whole record List.mem_cons_self).ends
    rw [rendered, List.pairwise_append]
    refine ⟨?_, inductionHypothesis after .., fun entry first later on => ?_⟩
    · cases classifier.classify (lineOf (body ++ [newline])) line start <;> simp
    · have placed := classifier.placed _ _ _ _ (Option.mem_toList.mp first)
      have bounds := rendered_within classifier after on
      simp only [List.length_append, List.length_singleton] at bounds
      omega

/-! ## What the reads return -/

theorem readLines_torn {torn : Bytes} (clean : newline ∉ torn) :
    readLines [] torn = if torn = [] then [] else [torn] := by
  have unended := Observer.readLines_unended clean [] []
  rw [List.append_nil] at unended
  rw [unended]
  rfl

theorem readLines_record {body : Bytes} (clean : newline ∉ body) (rest : Bytes) :
    readLines [] ((body ++ [newline]) ++ rest) = (body ++ [newline]) :: readLines [] rest := by
  rw [List.append_assoc, Observer.readLines_unended clean, List.nil_append, List.singleton_append,
    readLines, if_pos rfl]

theorem readLines_append {records : List Bytes} (whole : ∀ record ∈ records, Whole newline record)
    (rest : Bytes) :
    readLines [] (records.flatten ++ rest) = records ++ readLines [] rest := by
  induction records with
  | nil => rfl
  | cons record records inductionHypothesis =>
    obtain ⟨body, rfl, clean⟩ := (whole record List.mem_cons_self).ends
    rw [List.flatten_cons, List.append_assoc, readLines_record clean,
      inductionHypothesis fun other inside => whole other (List.mem_cons_of_mem _ inside),
        List.cons_append]

/-- A window takes the records until its entries are full, and all of them where they never are. -/
theorem readLoop_eq {limit : Nat} {records : List Bytes} {torn : Bytes}
    (whole : ∀ record ∈ records, Whole newline record) (clean : newline ∉ torn) (line start : Nat)
    {entries : List (Entry Body)} (few : 0 < limit → entries.length ≤ limit) :
    ∃ front back, records = front ++ back ∧
      readLoop classifier limit line (readLines [] (records.flatten ++ torn)) ⟨entries, start⟩ =
        ⟨entries ++ rendered classifier line start front, start + front.flatten.length⟩ ∧
      (0 < limit → (entries ++ rendered classifier line start front).length ≤ limit) ∧
      ((0 < limit → (entries ++ rendered classifier line start front).length < limit) →
      back = []) := by
  induction records generalizing line start entries with
  | nil =>
    refine ⟨[], [], rfl, ?_, by simpa [rendered] using few, fun _ => rfl⟩
    rw [List.flatten_nil, List.nil_append, readLines_torn clean]
    -- Only a torn line is left: it ends the loop and is not passed.
    by_cases none : torn = []
    · simp [none, readLoop, rendered]
    · have ends : torn.getLast? ≠ some newline := fun is => clean (List.mem_of_getLast? is)
      simp [none, readLoop, rendered, ends]
  | cons record rest inductionHypothesis =>
    obtain ⟨body, rfl, tidy⟩ := (whole record List.mem_cons_self).ends
    have after : ∀ other ∈ rest, Whole newline other :=
      fun other inside => whole other (List.mem_cons_of_mem _ inside)
    have own : lineOf (body ++ [newline]) = trimSuffix body carriage := by
      rw [lineOf, Observer.trimSuffix_own]
    rw [List.flatten_cons, List.append_assoc, readLines_record tidy, readLoop, if_neg (by simp)]
    simp only [List.dropLast_concat]
    cases is : classifier.classify (trimSuffix body carriage) line start with
    | none =>
      obtain ⟨front, back, parts, reads, fits, all⟩ := inductionHypothesis after (line + 1)
        (start + (body ++ [newline]).length) few
      have start' : start + (body ++ [newline]).length + front.flatten.length =
          start + ((body ++ [newline]) :: front).flatten.length := by
        simp only [List.flatten_cons, List.length_append, Nat.add_assoc]
      refine ⟨(body ++ [newline]) :: front, back, by rw [parts, List.cons_append], ?_, ?_, ?_⟩
      · simp only
        rw [reads, start', rendered, own, is, Option.toList_none, List.nil_append]
      · simpa [rendered, own, is] using fits
      · simpa [rendered, own, is] using all
    | some entry =>
      -- A record that renders ends the read when the limit is reached.
      by_cases full : 0 < limit ∧ entries.length = limit
      · refine ⟨[], (body ++ [newline]) :: rest, rfl, ?_, by simpa [rendered] using few, ?_⟩
        · simp [full, rendered]
        · intro short
          exact absurd (short full.1) (by simp [rendered, full.2])
      · obtain ⟨front, back, parts, reads, fits, all⟩ := inductionHypothesis after (line + 1)
          (start + (body ++ [newline]).length)
              (fun positive => show (entries ++ [entry]).length ≤ limit by
            have := few positive
            simp only [List.length_append, List.length_singleton]
            omega)
        have start' : start + (body ++ [newline]).length + front.flatten.length =
            start + ((body ++ [newline]) :: front).flatten.length := by
          simp only [List.flatten_cons, List.length_append, Nat.add_assoc]
        rw [List.append_assoc] at reads fits all
        refine ⟨(body ++ [newline]) :: front, back, by rw [parts, List.cons_append], ?_, ?_, ?_⟩
        · simp only [full, if_false]
          rw [reads, start', rendered, own, is, Option.toList_some]
        · simpa only [rendered, own, is, Option.toList_some] using fits
        · simpa only [rendered, own, is, Option.toList_some] using all

/-- Whole records have one newline each. -/
theorem count_records {records : List Bytes} (whole : ∀ record ∈ records, Whole newline record) :
    records.flatten.count newline = records.length := by
  induction records with
  | nil => rfl
  | cons record rest inductionHypothesis =>
    obtain ⟨body, rfl, clean⟩ := (whole record List.mem_cons_self).ends
    rw [List.flatten_cons, List.count_append, inductionHypothesis fun other inside =>
      whole other (List.mem_cons_of_mem _ inside),
      List.count_append, List.count_eq_zero_of_not_mem clean, List.length_cons]
    simp [Nat.add_comm]

theorem lineAt_records {file torn : Bytes} {before after : List Bytes}
    (cut : Cut newline file (before ++ after) torn) :
    lineAt file before.flatten.length = before.length := by
  rw [lineAt, cut.log, List.flatten_append, List.append_assoc, List.take_left]
  exact count_records cut.front.whole

/-- A window of a limit, or without one. -/
theorem read_eq (limit : Nat) {file torn : Bytes} {before after : List Bytes}
    (cut : Cut newline file (before ++ after) torn) :
    ∃ front back, after = front ++ back ∧
      read classifier file before.flatten.length limit =
        some ⟨rendered classifier before.length before.flatten.length front,
          (before ++ front).flatten.length⟩ ∧
      (0 < limit → (rendered classifier before.length before.flatten.length front).length ≤ limit) ∧
      ((0 < limit → (rendered classifier before.length before.flatten.length front).length <
      limit) → back = []) := by
  have later := cut.drop
  obtain ⟨front, back, parts, reads, fits, all⟩ :=
    readLoop_eq classifier later.whole later.torn before.length
    before.flatten.length (fun _ => show ([] : List (Entry Body)).length ≤
      limit from Nat.zero_le limit)
  refine ⟨front, back, parts, ?_, fits, all⟩
  have inside : ¬file.length < before.flatten.length := by
    rw [cut.log, List.flatten_append, List.append_assoc, List.length_append]
    omega
  rw [read, if_neg inside, lineAt_records cut, later.log, reads, List.nil_append,
    List.flatten_append, List.length_append]

theorem flatten_eq_nil {records : List Bytes} (whole : ∀ record ∈ records, Whole newline record) :
    records.flatten.length = 0 ↔ records = [] := by
  constructor
  · intro none
    by_contra some
    obtain ⟨record, rest, rfl⟩ := List.exists_cons_of_ne_nil some
    obtain ⟨body, rfl, -⟩ := (whole record List.mem_cons_self).ends
    simp at none
  · rintro rfl
    rfl

/-- What a backward scan leaves: the records before those that it has visited, and the entries of
these, which are at most
the limit and are less only where nothing is left. -/
structure Scanned (classifier : Classifier Body) (limit : Nat)
    (records earlier window : List Bytes) : Prop where
  parts : records = earlier ++ window
  visits : records ≠ [] → window ≠ []
  fits : (rendered classifier earlier.length earlier.flatten.length window).length ≤ limit
  all : (rendered classifier earlier.length earlier.flatten.length window).length < limit →
    earlier = []
  starts : earlier ≠ [] → ∃ entry rest,
    rendered classifier earlier.length earlier.flatten.length window = entry :: rest ∧
    entry.byteOffset = earlier.flatten.length

theorem rendered_snoc {records earlier window : List Bytes} (parts : records = earlier ++ window)
    (record : Bytes) :
    rendered classifier earlier.length earlier.flatten.length (window ++ [record]) =
      rendered classifier earlier.length earlier.flatten.length window ++
        (classifier.classify (lineOf record) records.length records.flatten.length).toList := by
  have number : earlier.length + window.length = records.length := by rw [parts, List.length_append]
  have offset : earlier.flatten.length + window.flatten.length = records.flatten.length := by
    rw [parts, List.flatten_append, List.length_append]
  rw [rendered_append, number, offset, rendered, rendered, List.append_nil]

/-- A backward scan over whole records. -/
theorem scanBackward_eq (buffer : Buffer) {limit : Nat} {records : List Bytes} (rest : Bytes)
    (cut : Cut newline records.flatten records []) {entries : List (Entry Body)}
    (room : entries.length < limit) :
    ∃ earlier window, Scanned classifier (limit - entries.length) records earlier window ∧
      scanBackward buffer (records.flatten ++ rest) (backwardVisit classifier limit)
        (records.length - 1)
          records.flatten.length entries =
        (entries ++ (rendered classifier earlier.length earlier.flatten.length window).reverse,
        decide (earlier = [])) := by
  induction records using List.reverseRecOn generalizing rest entries with
  | nil =>
    refine ⟨[], [], ⟨rfl, id, by simp [rendered], fun _ => rfl, fun some => absurd rfl some⟩, ?_⟩
    rw [List.flatten_nil, scanBackward]
    simp [rendered]
  | append_singleton records record inductionHypothesis =>
    obtain ⟨body, rfl, clean⟩ := (cut.whole record (by simp)).ends
    have earlier : Cut newline records.flatten records [] := cut.front
    have text : (records ++ [body ++ [newline]]).flatten ++ rest = records.flatten ++ body ++
      (newline :: rest) := by simp
    have length : (records ++ [body ++ [newline]]).flatten.length =
      (records.flatten ++ body).length + 1 := by simp; omega
    have start : afterNewline (previousNewline buffer (records.flatten ++ body ++ (newline :: rest))
        (records.flatten ++ body).length) = records.flatten.length := by
      rw [Observer.previousNewline_eq, List.take_left]
      exact Observer.afterNewline_records earlier clean
    have line : slice (records.flatten ++ body ++ (newline :: rest)) records.flatten.length
        (records.flatten ++ body).length = body := by
      rw [slice, List.take_left, List.drop_left]
    have own : lineOf (body ++ [newline]) = trimSuffix body carriage := by
      rw [lineOf, Observer.trimSuffix_own]
    have number : (records ++ [body ++ [newline]]).length - 1 = records.length := by simp
    rw [text, length, number, scanBackward, if_neg (Nat.succ_ne_zero _)]
    simp only [Nat.add_sub_cancel, start, line, backwardVisit, decide_eq_true_eq]
    have few :
        (classifier.classify (trimSuffix body carriage) records.length
        records.flatten.length).toList.length ≤ 1 := by
      cases classifier.classify (trimSuffix body carriage) records.length records.flatten.length <;>
        simp
    -- The scan goes on while there is room after this record.
    split
    · next more =>
      obtain ⟨before, window, scanned, is⟩ :=
        inductionHypothesis (body ++ newline :: rest) earlier more
      have whole := rendered_snoc classifier scanned.parts (body ++ [newline])
      rw [own] at whole
      have fits := scanned.fits
      have all := scanned.all
      rw [List.length_append] at more fits all
      refine ⟨before, window ++ [body ++ [newline]],
        ⟨by rw [scanned.parts, List.append_assoc], by simp, ?_, ?_, ?_⟩, ?_⟩
      · rw [whole, List.length_append]
        omega
      · rw [whole, List.length_append]
        exact fun short => all (by omega)
      · intro some
        obtain ⟨entry, later, first, at_⟩ := scanned.starts some
        exact ⟨entry, _, by rw [whole, first, List.cons_append], at_⟩
      · rw [List.append_assoc, is, whole, List.reverse_append, List.append_assoc]
        cases classifier.classify (trimSuffix body carriage) records.length records.flatten.length
          <;> rfl
    · next full =>
      have whole := rendered_snoc classifier (List.append_nil records).symm (body ++ [newline])
      rw [own, rendered, List.nil_append, List.nil_append] at whole
      rw [List.length_append] at full
      refine ⟨records, [body ++ [newline]], ⟨rfl, by simp, by rw [whole]; omega, ?_, ?_⟩, ?_⟩
      · rw [whole]
        exact fun short => absurd short (by omega)
      · intro some
        rw [whole]
        cases is :
            classifier.classify (trimSuffix body carriage) records.length
            records.flatten.length with
        | none =>
          rw [is] at full
          exact absurd room full
        | some entry => exact ⟨entry, [], rfl, classifier.placed _ _ _ _ is⟩
      · rw [whole]
        have ends : decide (records.flatten.length = 0) = decide (records = []) :=
          decide_eq_decide.mpr (flatten_eq_nil earlier.whole)
        rw [ends]
        cases classifier.classify (trimSuffix body carriage) records.length records.flatten.length
          <;> rfl

/-- The tail of whole records and the entries that it holds. -/
theorem scanCompleteTail_eq {limit : Nat} (positive : 0 < limit) {file torn : Bytes}
    {records : List Bytes}
    (cut : Cut newline file records torn) :
    ∃ earlier window, Scanned classifier limit records earlier window ∧
      scanCompleteTail file (backwardVisit classifier limit) [] =
        (records.flatten.length,
        (rendered classifier earlier.length earlier.flatten.length window).reverse,
          decide (earlier = [])) := by
  have count : lineAt file records.flatten.length = records.length :=
    lineAt_records (show Cut newline file
      (records ++ []) torn from (List.append_nil records).symm ▸ cut)
  rw [scanCompleteTail, Observer.completeEnd_eq _ cut]
  simp only [count]
  split
  · next none =>
    obtain rfl := (flatten_eq_nil cut.whole).mp none
    exact ⟨[], [], ⟨rfl, id, by simp [rendered], fun _ => rfl, fun some => absurd rfl some⟩, rfl⟩
  · obtain ⟨earlier, window, scanned, is⟩ :=
      scanBackward_eq classifier reverseBlockSize torn cut.trim
      (show ([] : List (Entry Body)).length < limit from positive)
    rw [← cut.log, List.nil_append] at is
    exact ⟨earlier, window, scanned, by rw [is]⟩

/-- The tail is the last of the entries there are. -/
theorem readTail_eq {limit : Nat} (positive : 0 < limit) {file torn : Bytes} {records : List Bytes}
    (cut : Cut newline file records torn) :
    readTail classifier file limit =
      (⟨(rendered classifier 0 0 records).rtake limit, records.flatten.length⟩,
        ((((rendered classifier 0 0 records).rtake limit).head?.map Entry.byteOffset).getD
        records.flatten.length)) := by
  obtain ⟨earlier, window, scanned, is⟩ := scanCompleteTail_eq classifier positive cut
  have last : (rendered classifier 0 0 records).rtake limit =
      rendered classifier earlier.length earlier.flatten.length window := by
    have whole := rendered_append classifier 0 0 earlier window
    rw [← scanned.parts, Nat.zero_add, Nat.zero_add] at whole
    rw [whole]
    obtain short | full := Nat.lt_or_eq_of_le scanned.fits
    · have fits := scanned.fits
      rw [scanned.all short] at fits ⊢
      exact rtake_of_le fits
    · rw [List.rtake, List.length_append, full, Nat.add_sub_cancel, List.drop_left]
  rw [readTail, is]
  simp only [List.reverse_reverse, last]

end

/-- A record that is an `a` has it for its uuid. -/
def lettered : Classifier Unit where
  classify raw line offset := some ⟨if raw = [97] then "a" else "", line, offset, ()⟩
  placed raw line offset entry is := by
    obtain rfl := Option.some.inj is
    rfl

def letter : Bytes := [97, newline]

end AiConfig.Herder.SessionEntries
