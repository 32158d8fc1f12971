import Mathlib.Logic.Relation
import AiConfig.Herder.Transcript.Entries

/-! # Windows of a session file

One tail read, and then reads before it and after it while the file grows.

* `Tiled` — what has been read is the entries of some of the file's records, in order.
* `windows_tile` — at the end they are all that a read from the start finds. -/

namespace AiConfig.Herder.SessionEntries

open AiConfig.Lib

open Observer (Bytes Buffer newline carriage slice previousNewline afterNewline completeEnd
  reverseBlockSize readLines
  lineOf)

section

variable {Body : Type} (classifier : Classifier Body)

/-! ## What an unfinished line does -/

/-- A backward scan does not look behind where it starts. -/
theorem scanBackward_take {σ : Type} (buffer : Buffer) (file : Bytes)
    (visit : σ → Bytes → Nat → Nat → σ × Bool)
    (line end_ : Nat) (state : σ) :
    scanBackward buffer file visit line end_ state =
      scanBackward buffer (file.take end_) visit line end_ state := by
  induction end_ using Nat.strongRecOn generalizing file line state with
  | _ end_ inductionHypothesis =>
    rw [scanBackward, scanBackward]
    by_cases none : end_ = 0
    · rw [if_pos none, if_pos none]
    have before : (file.take end_).take (end_ - 1) = file.take (end_ - 1) := by
      rw [List.take_take, Nat.min_eq_left (Nat.sub_le ..)]
    have start : previousNewline buffer (file.take end_) (end_ - 1) =
        previousNewline buffer file (end_ - 1) := by
      rw [Observer.previousNewline_eq, Observer.previousNewline_eq, before]
    have low := Observer.afterNewline_le buffer file (end_ - 1)
    have rest (line : Nat) (state : σ) :
        scanBackward buffer file visit line
          (afterNewline (previousNewline buffer file (end_ - 1))) state =
          scanBackward buffer (file.take end_) visit line
              (afterNewline (previousNewline buffer file (end_ - 1))) state := by
      rw [inductionHypothesis _ (by omega) file, inductionHypothesis _ (by omega) (file.take end_),
        List.take_take,
        Nat.min_eq_left (by omega)]
    simp only [if_neg none, start, slice, before, rest]

theorem readLoop_torn (limit line : Nat) (lines : List Bytes) {torn : Bytes}
    (clean : newline ∉ torn)
    (result : ReadResult Body) :
    readLoop classifier limit line (lines ++ [torn]) result =
      readLoop classifier limit line lines result := by
  induction lines generalizing line result with
  | nil =>
    have ends : torn.getLast? ≠ some newline := fun is => clean (List.mem_of_getLast? is)
    simp [readLoop, ends]
  | cons raw rest inductionHypothesis =>
    rw [List.cons_append, readLoop, readLoop]
    simp only [inductionHypothesis]

/-! ## Paging -/

/-- A file, the entries read of it, where the last answer starts and where the next window begins.
-/
structure Pages (Body : Type) where
  file : Bytes
  entries : List (Entry Body)
  start : Nat
  next : Nat

/-- The tail read that paging begins with. -/
def tailPages (file : Bytes) (limit : Nat) : Pages Body :=
  let (read, from_) := readTail classifier file limit
  ⟨file, read.entries, from_, read.nextOffset⟩

/-- The file grows, or a window before or after what has been read is read. -/
inductive Paging (session : String) (pages : Pages Body) : Pages Body → Prop
  | grow (more : Bytes) : Paging session pages { pages with file := pages.file ++ more }
  | before {limit : Nat} {page : BeforeResult Body} (positive : 0 < limit)
      (further : pages.start ≠ 0)
      (reads : readBefore classifier pages.file session ⟨session, pages.start⟩ limit =
        .ok (.ok page)) :
      Paging session pages
        { pages with entries := page.read.entries ++ pages.entries, start := page.prevOffset }
  | after {limit : Nat} {page : ReadResult Body} (positive : 0 < limit)
      (reads : read classifier pages.file pages.next limit = some page) :
      Paging session pages
        { pages with entries := pages.entries ++ page.entries, next := page.nextOffset }

/-- One more window before what has been read, until it starts at 0. -/
def Pages.back (session : String) (limit : Nat) (pages : Pages Body) : Pages Body :=
  if pages.start = 0 then pages
  else match readBefore classifier pages.file session ⟨session, pages.start⟩ limit with
    | .ok (.ok page) =>
        { pages with entries := page.read.entries ++ pages.entries, start := page.prevOffset }
    | _ => pages

/-- `n` windows, each of its own limit. -/
def Pages.backs (session : String) (limits : Nat → Nat) (pages : Pages Body) : Nat → Pages Body
  | 0 => pages
  | n + 1 => (pages.backs session limits n).back classifier session (limits n)

/-- What has been read is the entries of the records between the two offsets. -/
def Tiled (pages : Pages Body) : Prop :=
  ∃ earlier window after torn, Cut newline pages.file (earlier ++ window ++ after) torn ∧
    pages.start = earlier.flatten.length ∧ pages.next = (earlier ++ window).flatten.length ∧
    pages.entries = rendered classifier earlier.length earlier.flatten.length window

variable {classifier}

/-- Records may be skipped up to the first entry. -/
theorem rendered_first {line start : Nat} {records : List Bytes} {entry : Entry Body}
    {rest : List (Entry Body)}
    (is : rendered classifier line start records = entry :: rest) :
    ∃ skipped left, records = skipped ++ left ∧ entry.byteOffset = start + skipped.flatten.length ∧
      rendered classifier (line + skipped.length) (start + skipped.flatten.length) left =
        entry :: rest := by
  induction records generalizing line start with
  | nil => cases is
  | cons record records inductionHypothesis =>
    cases first : classifier.classify (lineOf record) line start with
    | none =>
      have later := is
      rw [rendered, first, Option.toList_none, List.nil_append] at later
      obtain ⟨skipped, left, rfl, at_, goes⟩ := inductionHypothesis later
      have line' : line + 1 + skipped.length = line + (record :: skipped).length := by
        rw [List.length_cons]
        omega
      have start' : start + record.length + skipped.flatten.length =
          start + (record :: skipped).flatten.length := by
        rw [List.flatten_cons, List.length_append, Nat.add_assoc]
      rw [line', start'] at goes
      exact ⟨record :: skipped, left, rfl, by rw [at_, start'], goes⟩
    | some own =>
      have found := is
      rw [rendered, first, Option.toList_some, List.singleton_append, List.cons.injEq] at found
      obtain ⟨rfl, -⟩ := found
      exact ⟨[], record :: records, rfl, by simpa using classifier.placed _ _ _ _ first, is⟩

theorem readBefore_eq (classifier : Classifier Body) {limit : Nat} (positive : 0 < limit)
    (session : String)
    {file torn : Bytes} {before after : List Bytes}
    (cut : Cut newline file (before ++ after) torn) :
    ∃ earlier window, Scanned classifier limit before earlier window ∧
      readBefore classifier file session ⟨session, before.flatten.length⟩ limit =
        .ok (.ok ⟨⟨rendered classifier earlier.length earlier.flatten.length window,
          before.flatten.length⟩,
          earlier.flatten.length⟩) := by
  have inside : before.flatten.length ≤ file.length := by
    rw [cut.log, List.flatten_append, List.append_assoc, List.length_append]
    omega
  have same : ¬(session ≠ "" ∧ session ≠ session) := fun other => other.2 rfl
  by_cases none : before.flatten.length = 0
  · obtain rfl := (flatten_eq_nil cut.front.whole).mp none
    refine ⟨[], [], ⟨rfl, id, by simp [rendered], fun _ => rfl, fun some => absurd rfl some⟩, ?_⟩
    rw [readBefore, if_neg same, scanCompleteBefore, if_neg (Nat.not_lt.mpr inside), if_pos none]
    rfl
  · have complete : ¬completeEnd reverseBlockSize file < before.flatten.length := by
      rw [Observer.completeEnd_eq _ cut, List.flatten_append, List.length_append]
      omega
    have ends : ¬file[before.flatten.length - 1]? ≠ some newline := by
      obtain empty | ⟨front, ends⟩ := cut.front.ends
      · exact absurd (by rw [empty]; rfl) none
      · rw [cut.log, List.flatten_append, ends]
        simp
    obtain ⟨earlier, window, scanned, is⟩ :=
      scanBackward_eq classifier reverseBlockSize (after.flatten ++ torn) cut.front
      (show ([] : List (Entry Body)).length < limit from positive)
    rw [← List.append_assoc, ← List.flatten_append, ← cut.log, List.nil_append] at is
    refine ⟨earlier, window, scanned, ?_⟩
    rw [readBefore, if_neg same, scanCompleteBefore, if_neg (Nat.not_lt.mpr inside), if_neg none,
      if_neg complete, if_neg ends]
    simp only [lineAt_records cut, is, List.reverse_reverse]
    by_cases start : earlier = []
    · simp [start]
    · obtain ⟨entry, rest, first, at_⟩ := scanned.starts start
      simp only [start, decide_false, Bool.false_eq_true, if_false, first, List.head?_cons,
        Option.map_some, Option.getD_some, at_]

theorem Tiled.tail {limit : Nat} (positive : 0 < limit) (file : Bytes) :
    Tiled classifier (tailPages classifier file limit) := by
  obtain ⟨records, torn, cut⟩ := exists_cut newline file
  obtain ⟨earlier, window, scanned, is⟩ := scanCompleteTail_eq classifier positive cut
  rw [tailPages, readTail, is]
  simp only [List.reverse_reverse]
  cases first : rendered classifier earlier.length earlier.flatten.length window with
  | nil => exact ⟨records, [], [], torn, by simpa using cut, rfl, by simp, rfl⟩
  | cons entry rest =>
    obtain ⟨skipped, left, rfl, at_, goes⟩ := rendered_first first
    have parts : earlier ++ skipped ++ left = records := by rw [List.append_assoc, ← scanned.parts]
    refine ⟨earlier ++ skipped, left, [], torn, by rw [parts, List.append_nil]; exact cut,
      ?_, by rw [parts], ?_⟩
    · rw [List.flatten_append, List.length_append, ← at_]
      rfl
    · rw [List.length_append, List.flatten_append, List.length_append, goes]

theorem Tiled.step {session : String} {pages later : Pages Body} (tiled : Tiled classifier pages)
    (step : Paging classifier session pages later) : Tiled classifier later := by
  obtain ⟨earlier, window, after, torn, cut, start, next, entries⟩ := tiled
  cases step with
  | grow more =>
    obtain ⟨added, torn', cut'⟩ := cut.grow more
    exact ⟨earlier, window, after ++ added, torn', by rw [← List.append_assoc]; exact cut', start,
      next, entries⟩
  | before positive further reads =>
    rw [List.append_assoc] at cut
    obtain ⟨earlier', window', scanned, is⟩ := readBefore_eq classifier positive session cut
    rw [start, is] at reads
    cases reads
    refine ⟨earlier', window' ++ window, after, torn, ?_, rfl, ?_, ?_⟩
    · rw [← List.append_assoc, ← scanned.parts, List.append_assoc]
      exact cut
    · rw [next, ← List.append_assoc, ← scanned.parts]
    · rw [rendered_append, ← List.length_append, ← List.length_append, ← List.flatten_append,
        ← scanned.parts, entries]
  | after positive reads =>
    obtain ⟨front, back, rfl, is, -, -⟩ := read_eq classifier _ cut
    rw [next, is] at reads
    cases reads
    refine ⟨earlier, window ++ front, back, torn, by simpa using cut,
      start, by rw [List.append_assoc], ?_⟩
    rw [rendered_append, ← List.length_append, ← List.length_append, ← List.flatten_append, entries]

/-! ## What is read in the end -/

/-- A read from the start finds the entries of the records up to an offset. -/
theorem read_all {file torn : Bytes} {before after : List Bytes}
    (cut : Cut newline file (before ++ after) torn) :
    read classifier (file.take before.flatten.length) 0 0 =
      some ⟨rendered classifier 0 0 before, before.flatten.length⟩ := by
  have part : file.take before.flatten.length = before.flatten := by
    rw [cut.log, List.flatten_append, List.append_assoc, List.take_left]
  obtain ⟨front, back, parts, is, -, all⟩ :=
    read_eq classifier 0 (show Cut newline before.flatten ([] ++ before) [] from cut.front)
  rw [all fun positive => absurd positive (Nat.lt_irrefl 0), List.append_nil] at parts
  rw [part, parts]
  rw [parts] at is
  exact is

/-- The answers at a boundary do not depend on an unfinished last line. -/
theorem read_unfinished (limit : Nat) {file torn : Bytes} {before after : List Bytes}
    (cut : Cut newline file (before ++ after) torn) :
    read classifier file before.flatten.length limit =
      read classifier (before ++ after).flatten before.flatten.length limit := by
  have inside : ¬file.length < before.flatten.length := by
    rw [cut.log, List.flatten_append, List.append_assoc, List.length_append]
    omega
  have inside' : ¬(before ++ after).flatten.length < before.flatten.length := by
    rw [List.flatten_append, List.length_append]
    omega
  have lines : readLines [] (file.drop before.flatten.length) = after ++ readLines [] torn := by
    rw [cut.drop.log, readLines_append cut.drop.whole]
  have lines' : readLines [] ((before ++ after).flatten.drop before.flatten.length) = after := by
    rw [cut.trim.drop.log, List.append_nil]
    exact Observer.readLines_records cut.drop.whole
  rw [read, read, if_neg inside, if_neg inside', lineAt_records cut, lineAt_records cut.trim, lines,
    lines',
    readLines_torn cut.torn]
  split
  · rw [List.append_nil]
  · rw [readLoop_torn classifier _ _ _ cut.torn]

theorem readBefore_unfinished (session : String) (limit : Nat) {file torn : Bytes}
    {before after : List Bytes}
    (cut : Cut newline file (before ++ after) torn) :
    readBefore classifier file session ⟨session, before.flatten.length⟩ limit =
      readBefore classifier (before ++ after).flatten session
        ⟨session, before.flatten.length⟩ limit := by
  have front :
      file.take before.flatten.length = (before ++ after).flatten.take before.flatten.length := by
    rw [cut.log, List.flatten_append, List.append_assoc, List.take_left, List.take_left]
  have byte : before.flatten.length ≠ 0 →
      file[before.flatten.length - 1]? = (before ++ after).flatten[before.flatten.length - 1]? := by
    intro some
    have low : before.flatten.length - 1 < before.flatten.length := by omega
    rw [← List.getElem?_take_of_lt low, front, List.getElem?_take_of_lt low]
  have inside : ¬file.length < before.flatten.length := by
    rw [cut.log, List.flatten_append, List.append_assoc, List.length_append]
    omega
  have inside' : ¬(before ++ after).flatten.length < before.flatten.length := by
    rw [List.flatten_append, List.length_append]
    omega
  have scanned : scanCompleteBefore file before.flatten.length (backwardVisit classifier limit) [] =
      scanCompleteBefore (before ++ after).flatten before.flatten.length
          (backwardVisit classifier limit) [] := by
    rw [scanCompleteBefore, scanCompleteBefore, if_neg inside, if_neg inside']
    by_cases none : before.flatten.length = 0
    · rw [if_pos none, if_pos none]
    · rw [if_neg none, if_neg none, Observer.completeEnd_eq _ cut,
        Observer.completeEnd_eq _ cut.trim, byte none,
        lineAt_records cut, lineAt_records cut.trim, scanBackward_take, front, ← scanBackward_take]
  rw [readBefore, readBefore]
  simp only [scanned]

theorem readTail_unfinished {limit : Nat} (positive : 0 < limit) {file torn : Bytes}
    {records : List Bytes}
    (cut : Cut newline file records torn) :
    readTail classifier file limit = readTail classifier records.flatten limit := by
  rw [readTail_eq classifier positive cut, readTail_eq classifier positive cut.trim]

/-- What a backward answer at a boundary is: a window of the records before it, and where it starts.
-/
structure Answers (classifier : Classifier Body) (file : Bytes) (offset : Nat)
    (page : BeforeResult Body) : Prop where
  holds : ∃ earlier window, Cut newline (file.take offset) (earlier ++ window) [] ∧
    page.read.entries = rendered classifier earlier.length earlier.flatten.length window ∧
    (page.prevOffset = 0 ↔ earlier = [])
  further : offset ≠ 0 → page.prevOffset < offset

theorem readBefore_answers (classifier : Classifier Body) {limit : Nat} (positive : 0 < limit)
    (session : String)
    {file torn : Bytes} {before after : List Bytes}
    (cut : Cut newline file (before ++ after) torn) :
    ∃ page, readBefore classifier file session ⟨session, before.flatten.length⟩ limit =
      .ok (.ok page) ∧
      Answers classifier file before.flatten.length page := by
  obtain ⟨earlier, window, scanned, is⟩ := readBefore_eq classifier positive session cut
  refine ⟨_, is, ⟨earlier, window, ?_, rfl, ?_⟩, fun some => ?_⟩
  · rw [cut.log, List.flatten_append, List.append_assoc, List.take_left, ← scanned.parts]
    exact cut.front
  · have front := cut.front
    rw [scanned.parts] at front
    exact flatten_eq_nil front.front.whole
  · have nonempty : window ≠ [] := scanned.visits fun none => some (by rw [none]; rfl)
    have front := cut.front
    rw [scanned.parts] at front
    have positive := (flatten_eq_nil front.drop.whole).not.mpr nonempty
    show earlier.flatten.length < before.flatten.length
    rw [scanned.parts, List.flatten_append, List.length_append]
    omega

theorem Tiled.back (session : String) {limit : Nat} (positive : 0 < limit) {pages : Pages Body}
    (tiled : Tiled classifier pages) :
    Tiled classifier (pages.back classifier session limit) ∧
      (pages.back classifier session limit).start ≤ pages.start - 1 := by
  by_cases none : pages.start = 0
  · rw [Pages.back, if_pos none]
    exact ⟨tiled, by omega⟩
  · obtain ⟨earlier, window, after, torn, cut, start, -⟩ := id tiled
    rw [List.append_assoc] at cut
    obtain ⟨page, is, answers⟩ := readBefore_answers classifier positive session cut
    rw [← start] at is answers
    have goes : pages.back classifier session limit =
        { pages with entries := page.read.entries ++ pages.entries, start := page.prevOffset } := by
      rw [Pages.back, if_neg none, is]
    have less := answers.further none
    rw [goes]
    exact ⟨tiled.step (.before positive none is), by simp only; omega⟩

theorem Tiled.backs (session : String) {limits : Nat → Nat} (positive : ∀ i, 0 < limits i)
    {pages : Pages Body}
    (tiled : Tiled classifier pages) (n : Nat) :
    Tiled classifier (pages.backs classifier session limits n) ∧
      (pages.backs classifier session limits n).start ≤ pages.start - n := by
  induction n with
  | zero => exact ⟨tiled, Nat.le_refl _⟩
  | succ n inductionHypothesis =>
    obtain ⟨tiled', low⟩ := inductionHypothesis
    obtain ⟨tiled'', lower⟩ := tiled'.back session (positive n)
    exact ⟨tiled'', by rw [Pages.backs]; omega⟩

theorem Tiled.run {session : String} {first : Bytes} {limit : Nat} (positive : 0 < limit)
    {pages : Pages Body}
    (run : Relation.ReflTransGen (Paging classifier session)
    (tailPages classifier first limit) pages) :
    Tiled classifier pages := by
  induction run with
  | refl => exact .tail positive first
  | tail _ last tiled => exact tiled.step last

/-- After one tail read and any reads before and after it, what has been read is the end of what a
read of
the same complete records from the start returns, and all of it once paging has come to the start.
Every offset handed out is a boundary, and no answer at one depends on an unfinished last line. -/
theorem windows_tile (classifier : Classifier Body) (session : String) {first : Bytes} {limit : Nat}
    (positive : 0 < limit)
    {pages : Pages Body}
    (run : Relation.ReflTransGen (Paging classifier session)
    (tailPages classifier first limit) pages) :
    pages.next ≤ completeEnd reverseBlockSize pages.file ∧
    (∃ earlier, read classifier (pages.file.take pages.next) 0 0 =
    some ⟨earlier ++ pages.entries, pages.next⟩ ∧
      (pages.start = 0 → earlier = [])) ∧
    (∀ offset ∈ [pages.start, pages.next], ∀ limit, 0 < limit →
      ∃ page, readBefore classifier pages.file session ⟨session, offset⟩ limit = .ok (.ok page) ∧
        Answers classifier pages.file offset page) ∧
    (∀ limit, 0 < limit → ∃ page, read classifier pages.file pages.next limit = some page) ∧
    (∀ limit, 0 < limit →
      let complete := pages.file.take (completeEnd reverseBlockSize pages.file)
      readTail classifier pages.file limit = readTail classifier complete limit ∧
        read classifier pages.file pages.next limit = read classifier complete pages.next limit ∧
        ∀ offset ∈ [pages.start, pages.next],
          readBefore classifier pages.file session ⟨session, offset⟩ limit =
          readBefore classifier complete session ⟨session, offset⟩ limit) ∧
    ∀ limits : Nat → Nat, (∀ i, 0 < limits i) → ∃ n,
        (pages.backs classifier session limits n).start = 0 := by
  have tiled := Tiled.run positive run
  obtain ⟨earlier, window, after, torn, cut, start, next, entries⟩ := id tiled
  have fromStart : Cut newline pages.file (earlier ++ (window ++ after)) torn := by
    rw [← List.append_assoc]; exact cut
  have ends := Observer.completeEnd_eq reverseBlockSize cut
  -- A torn last record is in no window: all reads are as of the file without it.
  have complete : pages.file.take (completeEnd reverseBlockSize pages.file) =
      (earlier ++ window ++ after).flatten := by
    rw [ends, cut.log, List.take_left]
  refine ⟨?_, ?_, fun offset on limit positive => ?_, fun limit positive => ?_,
    fun limit positive => ?_,
    fun limits positive => ?_⟩
  · have grows : (earlier ++ window ++ after).flatten.length =
        (earlier ++ window).flatten.length + after.flatten.length := by
      rw [List.flatten_append, List.length_append]
    rw [ends, next, grows]
    exact Nat.le_add_right ..
  · refine ⟨rendered classifier 0 0 earlier, ?_, fun none => ?_⟩
    · rw [next, entries, read_all cut, rendered_append, Nat.zero_add, Nat.zero_add]
    · rw [start, flatten_eq_nil fromStart.front.whole] at none
      rw [none, rendered]
  · obtain rfl | rfl : offset = pages.start ∨ offset = pages.next := by simpa using on
    · rw [start]
      exact readBefore_answers classifier positive session fromStart
    · rw [next]
      exact readBefore_answers classifier positive session cut
  · obtain ⟨front, back, -, is, -⟩ := read_eq classifier limit cut
    rw [next]
    exact ⟨_, is⟩
  · intro all
    show _ ∧ _
    rw [show all = (earlier ++ window ++ after).flatten from complete]
    refine ⟨readTail_unfinished positive cut, by rw [next]; exact read_unfinished limit cut,
      fun offset on => ?_⟩
    obtain rfl | rfl : offset = pages.start ∨ offset = pages.next := by simpa using on
    · rw [start, List.append_assoc]
      exact readBefore_unfinished session limit fromStart
    · rw [next]
      exact readBefore_unfinished session limit cut
  · have low := (tiled.backs session positive pages.start).2
    exact ⟨pages.start, by omega⟩

end

/-- A tail of one entry of three, a page before it, and a fourth line once it is complete. -/
theorem windows_tile_grown :
    ∃ pages, Relation.ReflTransGen (Paging lettered "s")
      (tailPages lettered (letter ++ letter ++ letter) 1) pages ∧
      pages.start = 2 ∧ pages.entries.map Entry.byteOffset = [2, 4, 6] ∧
      ∃ earlier, read lettered (pages.file.take pages.next) 0 0 =
        some ⟨earlier ++ pages.entries, pages.next⟩ := by
  have first : (tailPages lettered (letter ++ letter ++ letter) 1).start = 4 := by decide +kernel
  have before : readBefore lettered (letter ++ letter ++ letter) "s" ⟨"s", 4⟩ 1 =
      .ok (.ok ⟨⟨[⟨"a", 1, 2, ()⟩], 4⟩, 2⟩) := by
    decide +kernel
  have further : read lettered (letter ++ letter ++ letter ++ (letter ++ [97])) 6 1 =
      some ⟨[⟨"a", 3, 6, ()⟩], 8⟩ := by
    decide +kernel
  have run :
      Relation.ReflTransGen (Paging lettered "s")
      (tailPages lettered (letter ++ letter ++ letter) 1) _ :=
    ((Relation.ReflTransGen.single
      (.before Nat.one_pos (by rw [first]; decide) (by rw [first]; exact before))).tail
      (.grow (letter ++ [97]))).tail (.after Nat.one_pos (by
        have next : (tailPages lettered (letter ++ letter ++ letter) 1).next = 6 := by
          decide +kernel
        dsimp only
        rw [next]
        exact further))
  obtain ⟨-, ⟨earlier, whole, -⟩, -⟩ := windows_tile lettered "s" Nat.one_pos run
  refine ⟨_, run, rfl, ?_, earlier, whole⟩
  decide +kernel

end AiConfig.Herder.SessionEntries
