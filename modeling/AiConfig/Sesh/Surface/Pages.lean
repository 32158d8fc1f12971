import AiConfig.Sesh.Surface.Rows
import AiConfig.Lib.Counted
import Mathlib.Data.Int.Basic
import Mathlib.Algebra.Group.Int.Defs

/-! # Pages of a transcript

Transcription of `transcriptData` of `internal/surface/transcript.go` but for the entries of a
page.  The windows are cut from the newest end by the rows that render; each takes with it the
known-meta rows up to the next one. -/

namespace AiConfig.Sesh.Surface

open AiConfig.Lib AiConfig.Sesh.Wire

def transcriptWindowMessages : Int := 200

def maxInt : Int := 2 ^ 63 - 1

/-- Arithmetic of `int` wraps around. -/
def int (n : Int) : Int := n.bmod (2 ^ 64)

def maxTranscriptPage : Int := (maxInt - transcriptWindowMessages) / transcriptWindowMessages

structure SessionSummary where
  tool : Tool
  logicalSessionID : String

def toolName : Tool → String
  | .claude => "claude"
  | .codex => "codex"
  | .grok => "grok"
  | .pi => "pi"

/-- `escape` is `url.PathEscape`. -/
def transcriptURL (escape : String → String) (sum : SessionSummary) : String :=
  "/s/" ++ escape (toolName sum.tool) ++ "/" ++ escape sum.logicalSessionID

def transcriptPageURL (base : String) (page : Int) : String :=
  if page ≤ 1 then base else base ++ "?page=" ++ toString page

structure TranscriptPage where
  windowRows : List IndexMessage
  knownMetaRows : Int
  total : Int
  «from» : Int
  «to» : Int
  page : Int
  newerURL : String
  olderURL : String

/-- The pass over the rows that fills a window. -/
structure Scan where
  windowRows : List IndexMessage
  knownMetaRows : Int
  visibleOrdinal : Int
  inWindowInterval : Bool

def scan (tool : Tool) (start stop : Int) : Scan → List IndexMessage → Scan
  | pass, [] => pass
  | pass, row :: rest =>
    if knownTranscriptMeta tool row then
      scan tool start stop
        { pass with
          knownMetaRows :=
            if pass.inWindowInterval then pass.knownMetaRows + 1 else pass.knownMetaRows } rest
    -- The first visible row after the page ends the scan.
    else if pass.visibleOrdinal = stop then pass
    else
      scan tool start stop
        { pass with
          inWindowInterval := pass.inWindowInterval || pass.visibleOrdinal = start
          windowRows :=
            if start ≤ pass.visibleOrdinal then pass.windowRows ++ [row] else pass.windowRows
          visibleOrdinal := pass.visibleOrdinal + 1 } rest

/-- The rows as every page has them: those of Pi are sorted before. -/
def orderedRows (sum : SessionSummary) (rows : List IndexMessage) : List IndexMessage :=
  if sum.tool = .pi then rows else sortTranscript rows

/-- The clamp of a page number. -/
def clampPage (lastPage requested : Int) : Int :=
  let requested :=
    if requested < 1 then 1
    else if maxTranscriptPage < requested then maxTranscriptPage
    else requested
  if lastPage < requested then lastPage else requested

/-- The page of a number that has been clamped. -/
def transcriptPage (escape : String → String) (sum : SessionSummary) (rows : List IndexMessage)
    (total pageN : Int) : TranscriptPage :=
  -- Pages are counted back from the newest message.
  let stop := int (total - int (int (pageN - 1) * transcriptWindowMessages))
  let start := max 0 (int (stop - transcriptWindowMessages))
  let pass := scan sum.tool start stop ⟨[], 0, 0, start = 0⟩ rows
  { windowRows := pass.windowRows
    knownMetaRows := pass.knownMetaRows
    total := total
    «from» := int (start + 1)
    «to» := stop
    page := pageN
    newerURL :=
      if 1 < pageN then transcriptPageURL (transcriptURL escape sum) (int (pageN - 1)) else ""
    olderURL :=
      if 0 < start then transcriptPageURL (transcriptURL escape sum) (int (pageN + 1)) else "" }

def transcriptData (escape : String → String) (sum : SessionSummary) (rows : List IndexMessage)
    (pageN : Int) : TranscriptPage :=
  let rows := orderedRows sum rows
  let total : Int := rows.countP fun row => !knownTranscriptMeta sum.tool row
  let lastPage := max 1 ((int (total + transcriptWindowMessages - 1)).tdiv transcriptWindowMessages)
  transcriptPage escape sum rows total (clampPage lastPage pageN)

/-! ## A window is a segment of the rows -/

section

variable {tool : Tool}

def renders (tool : Tool) (row : IndexMessage) : Bool := !knownTranscriptMeta tool row

theorem scan_inside {start stop : Int} (rows : List IndexMessage) (window : List IndexMessage)
    (count visible : Int) (left : Nat)
    (reached : start ≤ visible) (ends : visible + left = stop) :
    (scan tool start stop ⟨window, count, visible, true⟩ rows).windowRows =
        window ++ (upTo (renders tool) left rows).filter (renders tool) ∧
      (scan tool start stop ⟨window, count, visible, true⟩ rows).knownMetaRows =
        count + (upTo (renders tool) left rows).countP (knownTranscriptMeta tool) := by
  induction rows generalizing window count visible left with
  | nil => simp [scan, upTo]
  | cons row rest inductionHypothesis =>
    by_cases known : knownTranscriptMeta tool row = true
    · have stays : renders tool row = false := by simp [renders, known]
      have later := inductionHypothesis window (count + 1) visible left reached ends
      simp only [scan, known, if_true, upTo, stays, Bool.false_eq_true, if_false, List.filter_cons,
        List.countP_cons]
      refine ⟨later.1, later.2.trans ?_⟩
      push_cast
      omega
    · have shows : renders tool row = true := by simp [renders, known]
      cases left with
      | zero =>
        have last : visible = stop := by omega
        simp [scan, known, last, upTo, shows]
      | succ left =>
        have before : visible ≠ stop := by omega
        have later :=
          inductionHypothesis (window ++ [row]) count (visible + 1) left (by omega) (by omega)
        simp only [scan, known, Bool.false_eq_true, if_false, before, reached, if_true, upTo, shows,
          List.filter_cons,
          List.countP_cons, Nat.add_zero, Bool.true_or]
        exact ⟨later.1.trans (by simp), later.2⟩

/-- Before its first row a window takes nothing. -/
theorem scan_before {start stop : Int} (rows : List IndexMessage) (window : List IndexMessage)
    (count visible : Int) (skip left : Nat)
    (reaches : visible + skip = start) (ends : start + left = stop) (some_ : 0 < left) :
    (scan tool start stop ⟨window, count, visible, false⟩ rows).windowRows =
        window ++ (upTo (renders tool) left (beyond (renders tool) skip rows)).filter
          (renders tool) ∧
      (scan tool start stop ⟨window, count, visible, false⟩ rows).knownMetaRows = count +
        (upTo (renders tool) left (beyond (renders tool) skip rows)).countP
        (knownTranscriptMeta tool) := by
  induction rows generalizing visible skip with
  | nil => simp [scan, upTo, beyond]
  | cons row rest inductionHypothesis =>
    by_cases known : knownTranscriptMeta tool row = true
    · have stays : renders tool row = false := by simp [renders, known]
      have later := inductionHypothesis visible skip reaches
      simp only [scan, known, if_true, Bool.false_eq_true, if_false, beyond, stays]
      exact later
    · have shows : renders tool row = true := by simp [renders, known]
      cases skip with
      | zero =>
        -- the window starts here, and its flag makes no difference to this row
        have first : visible = start := by omega
        have same : scan tool start stop ⟨window, count, visible, false⟩ (row :: rest) =
            scan tool start stop ⟨window, count, visible, true⟩ (row :: rest) := by
          simp [scan, known, first, show start ≠ stop by omega]
        have whole : beyond (renders tool) 0 (row :: rest) = row :: rest := by simp [beyond, shows]
        rw [same, whole]
        exact scan_inside (row :: rest) window count visible left (by omega) (by omega)
      | succ skip =>
        have before : visible ≠ stop := by omega
        have early : ¬start ≤ visible := by omega
        have apart : visible ≠ start := by omega
        have later := inductionHypothesis (visible + 1) skip (by omega)
        simp only [scan, known, Bool.false_eq_true, if_false, before, early, apart, decide_false,
          Bool.or_false, beyond, shows, if_true]
        exact later

end

/-! ## The arithmetic of a page -/

theorem int_of_bounds {n : Int} (low : -2 ^ 63 ≤ n) (high : n < 2 ^ 63) : int n = n := by
  rw [int]
  exact Int.bmod_eq_of_le (by omega) (by omega)

/-- The number of pages of so many rows that render. -/
def pages (total : Nat) : Nat := max 1 ((total + 199) / 200)

/-- Where the windows meet: the number of rows that render before the `i`th window, the oldest
first. -/
def boundary (total i : Nat) : Nat := total - (pages total - i) * 200

theorem pages_covers (total : Nat) : total ≤ pages total * 200 ∧ (pages total - 1) * 200 ≤ total ∧
    (0 < total → (pages total - 1) * 200 < total) ∧ 0 < pages total := by
  rw [pages]
  omega

theorem length_orderedRows (sum : SessionSummary) (rows : List IndexMessage) :
    (orderedRows sum rows).length = rows.length := by
  rw [orderedRows]
  split
  · rfl
  · exact List.length_mergeSort rows

section

variable {escape : String → String} {sum : SessionSummary} {rows : List IndexMessage}

/-- The rows that render. -/
def rendered (sum : SessionSummary) (rows : List IndexMessage) : Nat :=
  (orderedRows sum rows).countP (renders sum.tool)

theorem rendered_le (sum : SessionSummary) (rows : List IndexMessage) :
    rendered sum rows ≤ rows.length := by
  rw [rendered, ← length_orderedRows sum rows]
  exact List.countP_le_length

/-- The segment of the rows from one boundary to another: the first takes what comes before its rows
too. -/
def segment (sum : SessionSummary) (rows : List IndexMessage) (start stop : Nat) :
    List IndexMessage :=
  if start = 0 then upTo (renders sum.tool) stop (orderedRows sum rows)
  else upTo (renders sum.tool) (stop - start)
    (beyond (renders sum.tool) start (orderedRows sum rows))

/-- What a page between two boundaries is. -/
structure TranscriptPage.Is (it : TranscriptPage) (escape : String → String) (sum : SessionSummary)
    (rows : List IndexMessage)
    (number start stop : Nat) : Prop where
  windowRows : it.windowRows = (segment sum rows start stop).filter (renders sum.tool)
  knownMetaRows :
    it.knownMetaRows = (segment sum rows start stop).countP (knownTranscriptMeta sum.tool)
  total : it.total = rendered sum rows
  starts : it.«from» = start + 1
  stops : it.«to» = stop
  page : it.page = number
  newerURL : it.newerURL = if 1 < number then transcriptPageURL (transcriptURL escape sum)
    (number - 1) else ""
  olderURL : it.olderURL = if 0 < start then transcriptPageURL (transcriptURL escape sum)
    (number + 1) else ""

theorem lastPage_eq (fits : rows.length ≤ 2 ^ 56) :
    max 1 ((int ((rendered sum rows : Int) + transcriptWindowMessages - 1)).tdiv
      transcriptWindowMessages) =
      pages (rendered sum rows) := by
  have small := (rendered_le sum rows).trans fits
  rw [transcriptWindowMessages, int_of_bounds (by omega) (by omega),
    Int.tdiv_eq_ediv_of_nonneg (by omega), pages]
  omega

theorem pages_le (fits : rows.length ≤ 2 ^ 56) :
    (pages (rendered sum rows) : Int) ≤ maxTranscriptPage := by
  have small := (rendered_le sum rows).trans fits
  rw [pages, maxTranscriptPage, maxInt, transcriptWindowMessages]
  omega

theorem clampPage_inside (sum : SessionSummary) (rows : List IndexMessage) (requested : Int) :
    1 ≤ clampPage (pages (rendered sum rows)) requested ∧
      clampPage (pages (rendered sum rows)) requested ≤ pages (rendered sum rows) := by
  have least := (pages_covers (rendered sum rows)).2.2.2
  have most : 1 ≤ maxTranscriptPage := by decide
  simp only [clampPage]
  split_ifs <;> omega

theorem clampPage_self (fits : rows.length ≤ 2 ^ 56) {number : Int} (low : 1 ≤ number)
    (high : number ≤ pages (rendered sum rows)) :
    clampPage (pages (rendered sum rows)) number = number := by
  have most := @pages_le sum rows fits
  simp only [clampPage]
  split_ifs <;> omega

theorem transcriptData_eq (fits : rows.length ≤ 2 ^ 56) (requested : Int) :
    transcriptData escape sum rows requested =
      transcriptPage escape sum (orderedRows sum rows) (rendered sum rows)
        (clampPage (pages (rendered sum rows)) requested) := by
  rw [← lastPage_eq fits]
  rfl

/-- A request is answered by the page that it is clamped to. -/
theorem transcriptData_clamp (fits : rows.length ≤ 2 ^ 56) (requested : Int) :
    transcriptData escape sum rows requested =
      transcriptData escape sum rows (clampPage (pages (rendered sum rows)) requested) := by
  have inside := clampPage_inside sum rows requested
  rw [transcriptData_eq fits, transcriptData_eq fits, clampPage_self fits inside.1 inside.2]

/-- A page's window is the segment between its boundaries. -/
theorem scan_segment {start stop : Nat} (some_ : start < stop ∨ start = 0) :
    (scan sum.tool start stop ⟨[], 0, 0, (start : Int) = 0⟩ (orderedRows sum rows)).windowRows =
        (segment sum rows start stop).filter (renders sum.tool) ∧
      (scan sum.tool start stop ⟨[], 0, 0, (start : Int) = 0⟩
      (orderedRows sum rows)).knownMetaRows =
        (segment sum rows start stop).countP (knownTranscriptMeta sum.tool) := by
  rw [segment]
  by_cases first : start = 0
  · subst first
    have inside := @scan_inside sum.tool 0 stop (orderedRows sum rows) [] 0 0 stop le_rfl (by simp)
    simpa using inside
  · have below : start < stop := some_.resolve_right first
    have before :=
      @scan_before sum.tool start stop (orderedRows sum rows) [] 0 0 start (stop - start) (by simp)
      (by omega) (by omega)
    simpa [first] using before

/-- No arithmetic of a page that exists wraps around. -/
theorem page_arithmetic {total : Nat} (few : total ≤ 2 ^ 56) {number i : Nat}
    (numbered : number + i = pages total) (first : 0 < number) :
    int ((number : Int) - 1) = (number : Int) - 1 ∧ int ((number : Int) + 1) = (number : Int) + 1 ∧
      int ((total : Int) - int (((number : Int) - 1) * transcriptWindowMessages)) =
        boundary total (i + 1) ∧
      max 0 (int ((boundary total (i + 1) : Int) - transcriptWindowMessages)) = boundary total i ∧
      int ((boundary total i : Int) + 1) = boundary total i + 1 := by
  obtain ⟨covers, fills, strict, -⟩ := pages_covers total
  have upper : boundary total (i + 1) ≤ total := by
    rw [boundary]
    omega
  have lower : boundary total i = boundary total (i + 1) - 200 := by
    rw [boundary, boundary]
    omega
  have stop : (boundary total (i + 1) : Int) = (total : Int) - ((number : Int) - 1) * 200 := by
    rw [boundary]
    omega
  have less : (number : Int) ≤ total + 1 := by omega
  rw [lower, transcriptWindowMessages]
  generalize boundary total (i + 1) = b at upper stop ⊢
  clear covers fills strict lower numbered
  refine ⟨int_of_bounds (by omega) (by omega), int_of_bounds (by omega) (by omega), ?_, ?_,
    int_of_bounds (by omega) (by omega)⟩
  · rw [@int_of_bounds (((number : Int) - 1) * 200) (by omega) (by omega), ← stop]
    exact int_of_bounds (by omega) (by omega)
  · rw [int_of_bounds (by omega) (by omega)]
    omega

theorem transcriptData_page (fits : rows.length ≤ 2 ^ 56) {i : Nat}
    (inside : i < pages (rendered sum rows)) :
    (transcriptData escape sum rows (pages (rendered sum rows) - i : Nat)).Is escape sum rows
    (pages (rendered sum rows) - i)
      (boundary (rendered sum rows) i) (boundary (rendered sum rows) (i + 1)) := by
  have small := (rendered_le sum rows).trans fits
  obtain ⟨covers, fills, strict, -⟩ := pages_covers (rendered sum rows)
  have window :=
      @scan_segment sum rows (boundary (rendered sum rows) i) (boundary (rendered sum rows) (i + 1))
      (by
    rw [boundary, boundary]
    omega)
  rw [transcriptData_eq fits, clampPage_self fits (by omega) (by omega)]
  generalize numbered : pages (rendered sum rows) - i = number
  obtain ⟨newer, older, stops, starts, next⟩ :=
    @page_arithmetic _ small number i (by omega) (by omega)
  have several : 1 < (number : Int) ↔ 1 < number := Int.ofNat_lt
  simp only [transcriptPage, newer, older, stops, starts, next]
  exact {
    windowRows := window.1
    knownMetaRows := window.2
    total := rfl
    starts := rfl
    stops := rfl
    page := rfl
    newerURL := by simp only [several]
    olderURL := by simp only [Int.natCast_pos] }

/-! ## The pages together -/

/-- The rows of the pages, the oldest first. -/
def segments (sum : SessionSummary) (rows : List IndexMessage) : List (List IndexMessage) :=
  (List.range (pages (rendered sum rows))).map fun i =>
    segment sum rows (boundary (rendered sum rows) i) (boundary (rendered sum rows) (i + 1))

theorem flatten_segments (sum : SessionSummary) (rows : List IndexMessage) {i : Nat}
    (inside : i < pages (rendered sum rows)) :
    ((List.range (i + 1)).map fun i =>
      segment sum rows (boundary (rendered sum rows) i)
        (boundary (rendered sum rows) (i + 1))).flatten =
      upTo (renders sum.tool) (boundary (rendered sum rows) (i + 1)) (orderedRows sum rows) := by
  obtain ⟨covers, fills, strict, -⟩ := pages_covers (rendered sum rows)
  induction i with
  | zero =>
    have first : boundary (rendered sum rows) 0 = 0 := by
      rw [boundary]
      omega
    simp [segment, first]
  | succ i inductionHypothesis =>
    have later : boundary (rendered sum rows) (i + 1) ≠ 0 := by
      rw [boundary]
      by_cases empty : rendered sum rows = 0
      · simp [empty, pages] at inside
      · have := strict (by omega)
        omega
    rw [List.range_succ, List.map_append, List.flatten_append, inductionHypothesis (by omega)]
    simp only [List.map_cons, List.map_nil, List.flatten_cons, List.flatten_nil, List.append_nil,
      segment, later, if_false]
    rw [upTo_add]
    congr 1
    rw [boundary, boundary]
    omega

theorem transcriptPageURL_ne_empty (number : Int) :
    transcriptPageURL (transcriptURL escape sum) number ≠ "" := by
  have base : transcriptURL escape sum ≠ "" := by simp [transcriptURL]
  rw [transcriptPageURL]
  split
  · exact base
  · simp

theorem boundary_first (total : Nat) : boundary total 0 = 0 := by
  have covers := (pages_covers total).1
  rw [boundary]
  omega

theorem boundary_eq_zero {total i : Nat} (inside : i < pages total) :
    boundary total i = 0 ↔ i = 0 := by
  obtain ⟨covers, -, strict, -⟩ := pages_covers total
  constructor
  · intro first
    rw [boundary] at first
    by_cases empty : total = 0
    · simp [empty, pages] at inside
      exact inside
    · have := strict (by omega)
      omega
  · intro first
    rw [first, boundary_first]

theorem boundary_last (total : Nat) : boundary total (pages total) = total := by
  simp [boundary]

theorem boundary_le (total i : Nat) : boundary total i ≤ total := Nat.sub_le ..

/-- The rows of the pages before one are those up to its boundary. -/
theorem flatten_take (sum : SessionSummary) (rows : List IndexMessage) {i : Nat}
    (inside : i ≤ pages (rendered sum rows)) :
    ((segments sum rows).take i).flatten.countP (renders sum.tool) =
    boundary (rendered sum rows) i := by
  cases i with
  | zero => simp [boundary_first]
  | succ i =>
    have taken : (segments sum rows).take (i + 1) = (List.range (i + 1)).map fun i =>
        segment sum rows (boundary (rendered sum rows) i)
            (boundary (rendered sum rows) (i + 1)) := by
      rw [segments, ← List.map_take, List.take_range, Nat.min_eq_left inside]
    rw [taken, flatten_segments sum rows inside, countP_upTo]
    exact Nat.min_eq_left (boundary_le _ _)

/-- The pages take the rows apart: each is a segment of them, with the rows that render in its
window
and the known-meta rows in its count; and every request is answered by one of them.  A slice of
rows,
of more than 128 bytes each, has fewer than `2 ^ 56`. -/
theorem pages_partition (escape : String → String) (sum : SessionSummary) {rows : List IndexMessage}
    (fits : rows.length ≤ 2 ^ 56) :
    ∃ segments : List (List IndexMessage),
      segments.flatten = orderedRows sum rows ∧ segments ≠ [] ∧
      (∀ i segment, segments[i]? = some segment →
        let page := transcriptData escape sum rows (segments.length - i : Nat)
        page.windowRows = segment.filter (renders sum.tool) ∧
        page.knownMetaRows = segment.countP (knownTranscriptMeta sum.tool) ∧
        page.total = (orderedRows sum rows).countP (renders sum.tool) ∧
        page.page = (segments.length - i : Nat) ∧
        page.«from» = (segments.take i).flatten.countP (renders sum.tool) + 1 ∧
        page.«to» = (segments.take (i + 1)).flatten.countP (renders sum.tool) ∧
        (page.olderURL = "" ↔ i = 0) ∧ (page.newerURL = "" ↔ i + 1 = segments.length)) ∧
      ∀ requested : Int, ∃ i < segments.length,
        transcriptData escape sum rows requested =
            transcriptData escape sum rows (segments.length - i : Nat) := by
  have length : (segments sum rows).length = pages (rendered sum rows) := by simp [segments]
  have least := (pages_covers (rendered sum rows)).2.2.2
  refine ⟨segments sum rows, ?_, ?_, ?_, ?_⟩
  · have whole :=
      flatten_segments sum rows (show pages (rendered sum rows) - 1 <
      pages (rendered sum rows) by omega)
    rw [show pages (rendered sum rows) - 1 + 1 = pages (rendered sum rows) by omega, boundary_last,
      upTo_all (rendered.eq_1 sum rows).ge] at whole
    exact whole
  · intro none
    rw [none] at length
    simp at length
    omega
  · intro i segment at_
    have inside : i < pages (rendered sum rows) := by
      rw [← length]
      exact (List.getElem?_eq_some_iff.mp at_).1
    have page := @transcriptData_page escape sum rows fits i inside
    have own : segment = Surface.segment sum rows (boundary (rendered sum rows) i)
        (boundary (rendered sum rows) (i + 1)) := by
      simpa [segments, inside, eq_comm] using at_
    rw [length, flatten_take sum rows inside.le, flatten_take sum rows inside]
    have older := page.olderURL
    have newer := page.newerURL
    simp only [own]
    refine ⟨page.windowRows, page.knownMetaRows, page.total, page.page, page.starts, page.stops, ?_,
      ?_⟩
    · rw [older, ← boundary_eq_zero inside]
      split
      · simp only [transcriptPageURL_ne_empty, false_iff]
        omega
      · simp only [true_iff]
        omega
    · rw [newer]
      split
      · simp only [transcriptPageURL_ne_empty, false_iff]
        omega
      · simp only [true_iff]
        omega
  · intro requested
    have clamped := clampPage_inside sum rows requested
    obtain ⟨number, numbered⟩ :=
      Int.eq_ofNat_of_zero_le (show 0 ≤ clampPage (pages (rendered sum rows)) requested by omega)
    refine ⟨pages (rendered sum rows) - number, by omega, ?_⟩
    rw [transcriptData_clamp fits requested, numbered, length]
    congr 2
    omega

end

/-- Messages of a user, one more than a page holds, and a title that was recorded after them. -/
def titled : List IndexMessage :=
  List.replicate 201 ⟨"s", "f", 1, "user", "m", "user", some 5, 0, 0, 0, 40, false⟩ ++
    [⟨"s", "f", 1, "ai-title", "", "meta", some 6, 0, 1, 40, 80, false⟩]

theorem rendered_titled : rendered ⟨.claude, "s"⟩ titled = 201 := by
  rw [rendered, orderedRows, if_neg (by decide), sortTranscript,
    (List.mergeSort_perm _ _).countP_eq, titled, List.countP_append,
    List.countP_replicate]
  decide

/-- They are two pages at least: the second page asked for is not the first. -/
theorem pages_partition_titled :
    ∃ segments : List (List IndexMessage), segments.flatten = orderedRows ⟨.claude, "s"⟩ titled ∧
      2 ≤ segments.length := by
  have few : titled.length ≤ 2 ^ 56 := by
    rw [titled, List.length_append, List.length_replicate]
    decide
  obtain ⟨segments, whole, -, page, answered⟩ := pages_partition id ⟨.claude, "s"⟩ few
  refine ⟨segments, whole, ?_⟩
  have second : (transcriptData id ⟨.claude, "s"⟩ titled 2).page = 2 := by
    have oldest :=
      (@transcriptData_page id ⟨.claude, "s"⟩ titled few 0 (by rw [rendered_titled]; decide)).page
    rwa [rendered_titled] at oldest
  obtain ⟨i, inside, same⟩ := answered 2
  have number := congrArg TranscriptPage.page same
  rw [(page i _ (List.getElem?_eq_getElem inside)).2.2.2.1, second] at number
  omega

end AiConfig.Sesh.Surface
