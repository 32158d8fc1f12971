import AiConfig.Herder.Transcript.Fencing

/-! # Visible text

Transcription of `hasVisibleText` of the serve's `replyends.go`, against `parseAssistantFencing` of
the web client.

* `Seen` — what an answer shows: the text outside its fences, or all of it where they are malformed.
* `visible_iff` — both sides see what is not white space in it, each by its own white space.
* `visible_agrees` — so they agree but for the two characters that are white space on one side only.
  -/

namespace AiConfig.Herder.Fencing

open AiConfig.Lib

open NotesStore (isSpace)

/-! ## The serve -/

/-- `unicode.IsSpace`. -/
def unicodeIsSpace (c : Char) : Bool :=
  c.toNat ∈ [0x09, 0x0a, 0x0b, 0x0c, 0x0d, 0x20, 0x85, 0xa0, 0x1680, 0x2028, 0x2029, 0x202f, 0x205f,
    0x3000] ||
    (0x2000 ≤ c.toNat && c.toNat ≤ 0x200a)

/-- `strings.TrimSpace(text) != ""`. -/
def notBlank (text : List Char) : Bool := text.any fun c => !unicodeIsSpace c

structure VisibleScan where
  visible : List Char
  cursor : Nat
  /-- The fence that is open, and where its body starts. -/
  open_ : Option (Fence × Nat)

/-- `none` where the fencing is malformed. -/
def VisibleScan.step (content : List Char) (scan : VisibleScan) (found : Nat × Tag) :
    Option VisibleScan :=
  let (index, tag) := found
  match scan.open_ with
  | none =>
    if tag.closing then none
    else
      some
        { scan with
          visible := scan.visible ++ slice content scan.cursor index
          open_ := some (tag.fence, index + tag.text.length) }
  | some (kind, bodyStart) =>
    if !tag.closing || tag.fence ≠ kind ||
        tag.fence = .status && broken (slice content bodyStart index) then none
    else some { scan with cursor := index + tag.text.length, open_ := none }

def hasVisibleText (content : List Char) : Bool :=
  let literal := notBlank content
  match (matchAll content).foldlM (VisibleScan.step content) ⟨[], 0, none⟩ with
  | none => literal
  | some scan =>
    if scan.open_.isSome then literal
    else notBlank (scan.visible ++ content.drop scan.cursor)

/-! ## What is shown -/

def FencePair.after (pair : FencePair) : Nat := pair.closes + (Tag.text ⟨true, pair.fence⟩).length

/-- The text before each fence, from a cursor on. -/
def gaps (content : List Char) : Nat → List FencePair → List Char
  | _, [] => []
  | cursor, pair :: pairs => slice content cursor pair.opens ++ gaps content pair.after pairs

/-- Where the last fence ends. -/
def lastEnd : Nat → List FencePair → Nat
  | cursor, [] => cursor
  | _, pair :: pairs => lastEnd pair.after pairs

/-- What stands outside the fences of an answer, or all of it where its tags are no fences. -/
inductive Seen (content : List Char) : List Char → Prop where
  | fenced {pairs : List FencePair} (fences : Fences content (tags 0 content) pairs) :
      Seen content (gaps content 0 pairs ++ content.drop (lastEnd 0 pairs))
  | literal (malformed : ¬∃ pairs, Fences content (tags 0 content) pairs) : Seen content content

/-- Fences are told by their tags. -/
theorem pairs_of_tags {pairs others : List FencePair}
    (same : pairs.flatMap FencePair.tags = others.flatMap FencePair.tags) :
    pairs = others := by
  induction pairs generalizing others with
  | nil =>
    cases others with
    | nil => rfl
    | cons other others => cases same
  | cons pair pairs inductionHypothesis =>
    cases others with
    | nil => cases same
    | cons other others =>
      obtain ⟨fence, opens, closes⟩ := pair
      obtain ⟨fence', opens', closes'⟩ := other
      simp only [List.flatMap_cons, FencePair.tags, List.cons_append, List.nil_append,
        List.cons.injEq, Prod.mk.injEq,
        Tag.mk.injEq, true_and] at same
      obtain ⟨⟨rfl, rfl⟩, ⟨rfl, -⟩, rest⟩ := same
      rw [inductionHypothesis rest]

/-- One text is seen. -/
theorem seen_unique (content : List Char) : ∃! text, Seen content text := by
  by_cases fenced : ∃ pairs, Fences content (tags 0 content) pairs
  · obtain ⟨pairs, fences⟩ := fenced
    refine ⟨_, .fenced fences, fun text seen => ?_⟩
    cases seen with
    | fenced fences' => rw [pairs_of_tags (fences.1.symm.trans fences'.1)]
    | literal malformed => exact absurd ⟨pairs, fences⟩ malformed
  · refine ⟨content, .literal fenced, fun text seen => ?_⟩
    cases seen with
    | fenced fences => exact absurd ⟨_, fences⟩ fenced
    | literal _ => rfl

/-! ## The scans over fences -/

section

variable {content : List Char} {pairs : List FencePair}

/-- A status pair is closed on its line. -/
theorem whole_pair {pair : FencePair}
    (unbroken : pair.fence = .status → broken (pair.body content) = false) :
    (decide (pair.fence = .status) && broken
    (slice content (pair.opens + (Tag.text ⟨false, pair.fence⟩).length) pair.closes)) = false := by
  cases kind : pair.fence with
  | internal => rfl
  | status =>
    have line := unbroken kind
    rw [FencePair.body, kind] at line
    rw [line]
    rfl

theorem VisibleScan.run_pairs (unbroken : ∀ pair ∈ pairs, pair.fence = .status →
    broken (pair.body content) = false)
    (visible : List Char) (cursor : Nat) :
    (pairs.flatMap FencePair.tags).foldlM (VisibleScan.step content) ⟨visible, cursor, none⟩ =
      some ⟨visible ++ gaps content cursor pairs, lastEnd cursor pairs, none⟩ := by
  induction pairs generalizing visible cursor with
  | nil => simp [gaps, lastEnd]
  | cons pair pairs inductionHypothesis =>
    have later :=
      inductionHypothesis (fun other inside => unbroken other (List.mem_cons_of_mem _ inside))
      (visible ++ slice content cursor pair.opens) pair.after
    have whole := whole_pair (unbroken pair List.mem_cons_self)
    rw [List.flatMap_cons, FencePair.tags, List.cons_append, List.cons_append, List.nil_append,
      List.foldlM_cons]
    simp only [VisibleScan.step, Bool.false_eq_true, if_false, Option.bind_eq_bind,
      Option.bind_some, List.foldlM_cons, whole,
      Bool.not_true, ne_eq, not_true_eq_false, decide_false, Bool.or_false]
    rw [gaps, lastEnd, ← List.append_assoc]
    exact later

theorem isVisible_append (front back : List Char) :
    isVisible (front ++ back) = (isVisible front || isVisible back) := List.any_append

/-- The web client's text segments show what is before the fences. -/
theorem WebScan.run_pairs (unbroken : ∀ pair ∈ pairs, pair.fence = .status →
    broken (pair.body content) = false)
    (segments : List AssistantFenceSegment) (cursor : Nat) (fenced : Bool) :
    ∃ segments', (pairs.flatMap FencePair.tags).foldlM (WebScan.step content)
      ⟨segments, cursor, none, fenced⟩ =
        some ⟨segments', lastEnd cursor pairs, none, fenced || !pairs.isEmpty⟩ ∧
      segments'.any AssistantFenceSegment.visible =
        (segments.any AssistantFenceSegment.visible || isVisible (gaps content cursor pairs)) := by
  induction pairs generalizing segments cursor fenced with
  | nil => exact ⟨segments, by simp [lastEnd], by simp [gaps, isVisible]⟩
  | cons pair pairs inductionHypothesis =>
    have whole := whole_pair (unbroken pair List.mem_cons_self)
    have before : ∃ before, before.any AssistantFenceSegment.visible =
          (segments.any AssistantFenceSegment.visible ||
            isVisible (slice content cursor pair.opens)) ∧
        before = (if cursor < pair.opens then segments ++
            [.text (slice content cursor pair.opens)] else segments) := by
      refine ⟨_, ?_, rfl⟩
      split
      · simp [AssistantFenceSegment.visible]
      · next order =>
        have nothing : slice content cursor pair.opens = [] := by
          rw [slice, Nat.sub_eq_zero_of_le (by omega), List.take_zero]
        rw [nothing]
        simp [isVisible]
    obtain ⟨before, shown, same⟩ := before
    have hidden :
      (AssistantFenceSegment.of pair.fence
      (slice content (pair.opens + (Tag.text ⟨false, pair.fence⟩).length)
        pair.closes)).visible = false := by
      cases pair.fence <;> rfl
    obtain ⟨segments', ran, visible⟩ :=
      inductionHypothesis (fun other inside => unbroken other (List.mem_cons_of_mem _ inside))
      (before ++
        [.of pair.fence (slice content
        (pair.opens + (Tag.text ⟨false, pair.fence⟩).length) pair.closes)]) pair.after true
    refine ⟨segments', ?_, ?_⟩
    · rw [List.flatMap_cons, FencePair.tags, List.cons_append, List.cons_append, List.nil_append,
        List.foldlM_cons]
      simp only [WebScan.step, Bool.false_eq_true, if_false, Option.bind_eq_bind, Option.bind_some,
        List.foldlM_cons, whole,
        Bool.not_true, ne_eq, not_true_eq_false, decide_false, Bool.or_false, ← same]
      rw [lastEnd]
      simpa [FencePair.after] using ran
    · rw [visible, List.any_append, shown, gaps, isVisible_append]
      simp [hidden, Bool.or_assoc]

/-- Where the serve's scan stands is where the native client's does. -/
theorem VisibleScan.step_marks (content : List Char) (scan : VisibleScan) (native : Scan)
    (found : Nat × Tag)
    (cursor : native.cursor = scan.cursor) (open_ : native.open_ = scan.open_) :
    (scan.step content found).map (fun scan => (scan.cursor, scan.open_)) =
      (native.step content found).map (fun scan => (scan.cursor, scan.open_)) := by
  obtain ⟨visible, cursor', opened⟩ := scan
  obtain ⟨segs, cursor'', opened'⟩ := native
  obtain ⟨index, tag⟩ := found
  dsimp only at cursor open_
  subst cursor open_
  cases opened' with
  | none =>
    by_cases closing : tag.closing = true
    · simp [VisibleScan.step, Scan.step, closing]
    · simp [VisibleScan.step, Scan.step, closing]
  | some started =>
    obtain ⟨kind, bodyStart⟩ := started
    simp only [VisibleScan.step, Scan.step]
    by_cases closes : kind = tag.fence ∧ tag.closing = true
    · obtain ⟨rfl, closing⟩ := closes
      by_cases whole :
        (decide (tag.fence = .status) && broken (slice content bodyStart index)) = true
      · simp [closing, whole]
      · simp [closing, whole]
    · have other : (!tag.closing || decide (tag.fence ≠ kind)) = true := by
        cases closing : tag.closing with
        | false => rfl
        | true => simpa using fun same => closes ⟨same.symm, closing⟩
      have native : (decide (kind = tag.fence) && tag.closing) = false := by
        cases closing : tag.closing with
        | false => simp
        | true => simpa using fun same => closes ⟨same, closing⟩
      simp only [other, native, Bool.true_or, if_true, Bool.false_eq_true, if_false,
        Option.map_none]

theorem VisibleScan.run_marks (content : List Char) (scan : VisibleScan) (native : Scan)
    (found : List (Nat × Tag))
    (cursor : native.cursor = scan.cursor) (open_ : native.open_ = scan.open_) :
    (found.foldlM (VisibleScan.step content) scan).map (fun scan => (scan.cursor, scan.open_)) =
      (found.foldlM (Scan.step content) native).map (fun scan => (scan.cursor, scan.open_)) := by
  induction found generalizing scan native with
  | nil => simp [cursor, open_]
  | cons first rest inductionHypothesis =>
    have step := scan.step_marks content native first cursor open_
    rw [List.foldlM_cons, List.foldlM_cons]
    cases serve : scan.step content first with
    | none =>
      rw [serve, Option.map_none, eq_comm, Option.map_eq_none_iff] at step
      rw [step]
      rfl
    | some next =>
      rw [serve, Option.map_some, eq_comm, Option.map_eq_some_iff] at step
      obtain ⟨next', stepped, same⟩ := step
      rw [stepped]
      exact inductionHypothesis next next' (Prod.ext_iff.mp same).1 (Prod.ext_iff.mp same).2

/-- Where the tags are no fences, a scan fails or ends inside one. -/
theorem scan_malformed (malformed : ¬∃ pairs, Fences content (tags 0 content) pairs) {scan : Scan}
    (ran : (tags 0 content).foldlM (Scan.step content) ⟨[], 0, none⟩ = some scan) :
    scan.open_.isSome = true := by
  cases ended : scan.open_ with
  | none => exact absurd (pairs_of_scan (tags 0 content) rfl ran ended) malformed
  | some _ => rfl

end

/-! ## Both sides -/

/-- Each side sees what is not white space to it. -/
theorem visible_iff {content text : List Char} (seen : Seen content text) :
    hasVisibleText content = notBlank text ∧
      (parseAssistantFencing content).hasVisibleText = isVisible text := by
  have tags_ : matchAll content = tags 0 content := (tags_eq 0 0 content (by simp)).symm
  rw [hasVisibleText, parseAssistantFencing, tags_]
  cases seen with
  | @fenced pairs fences =>
    obtain ⟨same, unbroken⟩ := fences
    obtain ⟨segments, ran, visible⟩ := WebScan.run_pairs unbroken [] 0 false
    rw [same, VisibleScan.run_pairs unbroken [] 0, ran]
    refine ⟨by simp, ?_⟩
    simp only [Option.isSome_none, Bool.false_eq_true, if_false, Bool.false_or, Bool.not_not]
    cases pairs with
    | nil => simp [literal, gaps, lastEnd]
    | cons pair pairs =>
      have shown : segments.any AssistantFenceSegment.visible =
        isVisible (gaps content 0 (pair :: pairs)) := by simpa using visible
      have rest : slice content (lastEnd 0 (pair :: pairs)) content.length =
          content.drop (lastEnd 0 (pair :: pairs)) := by
        rw [slice, List.take_of_length_le (by simp)]
      simp only [List.isEmpty_cons, Bool.false_eq_true, if_false, isVisible_append, ← shown, rest]
      split
      · simp [AssistantFenceSegment.visible]
      · next ended =>
        have nothing : content.drop (lastEnd 0 (pair :: pairs)) = [] :=
          List.drop_eq_nil_iff.mpr (by omega)
        rw [nothing]
        simp [isVisible]
  | literal malformed =>
    -- Both scans walk the same tags and differ only in what they keep of the gaps.
    have serve := VisibleScan.run_marks content ⟨[], 0, none⟩ ⟨[], 0, none⟩ (tags 0 content) rfl rfl
    have web := WebScan.run_scan content ⟨[], 0, none, false⟩ (tags 0 content)
    cases ran : (tags 0 content).foldlM (Scan.step content) ⟨[], 0, none⟩ with
    | none =>
      rw [ran, Option.map_none, Option.map_eq_none_iff] at serve
      rw [show WebScan.scan ⟨[], 0, none, false⟩ = ⟨[], 0, none⟩ from rfl, ran,
        Option.map_eq_none_iff] at web
      rw [serve, web]
      exact ⟨rfl, rfl⟩
    | some scan =>
      have opened := scan_malformed malformed ran
      rw [ran, Option.map_some, Option.map_eq_some_iff] at serve
      rw [show WebScan.scan ⟨[], 0, none, false⟩ = ⟨[], 0, none⟩ from rfl, ran,
        Option.map_eq_some_iff] at web
      obtain ⟨serveScan, ranServe, marks⟩ := serve
      obtain ⟨webScan, ranWeb, rfl⟩ := web
      have same : serveScan.open_ = webScan.scan.open_ := congrArg Prod.snd marks
      have openedServe : serveScan.open_.isSome = true := by rw [same, opened]
      have openedWeb : webScan.open_.isSome = true := opened
      rw [ranServe, ranWeb]
      simp only [openedServe, openedWeb, if_true]
      exact ⟨trivial, rfl⟩

def nextLine : Char := Char.ofNat 0x85

def byteOrderMark : Char := Char.ofNat 0xfeff

theorem eq_of_toNat {c : Char} {code : Nat} (valid : (Char.ofNat code).toNat = code) :
    c = Char.ofNat code ↔ c.toNat = code := by
  constructor
  · rintro rfl
    exact valid
  · intro same
    rw [← same, Char.ofNat_toNat]

/-- The serve's white space is the web client's, but for two characters. -/
theorem unicodeIsSpace_iff (c : Char) :
    unicodeIsSpace c = true ↔ (isSpace c = true ∧ c ≠ byteOrderMark) ∨ c = nextLine := by
  have mark : c = byteOrderMark ↔ c.toNat = 0xfeff := eq_of_toNat (by decide)
  have line : c = nextLine ↔ c.toNat = 0x85 := eq_of_toNat (by decide)
  rw [ne_eq, mark, line, unicodeIsSpace, isSpace]
  simp only [List.mem_cons, List.not_mem_nil, or_false, Bool.or_eq_true, Bool.and_eq_true,
    decide_eq_true_eq]
  omega

/-- The sides agree on a text exactly when it has what is white space to neither, or has both or
none of the
characters on which they differ. -/
theorem blank_agrees (text : List Char) : notBlank text = isVisible text ↔
    (∃ c ∈ text, isSpace c = false ∧ unicodeIsSpace c = false) ∨
    (byteOrderMark ∈ text ↔ nextLine ∈ text) := by
  have serve : notBlank text = true ↔ (∃ c ∈ text, isSpace c = false ∧ unicodeIsSpace c = false) ∨
      byteOrderMark ∈ text := by
    simp only [notBlank, List.any_eq_true, Bool.not_eq_true']
    constructor
    · rintro ⟨c, inside, shown⟩
      cases space : isSpace c with
      | false => exact Or.inl ⟨c, inside, space, shown⟩
      | true =>
        have mark : c = byteOrderMark := by
          by_contra other
          rw [(unicodeIsSpace_iff c).mpr (Or.inl ⟨space, other⟩)] at shown
          cases shown
        exact Or.inr (mark ▸ inside)
    · rintro (⟨c, inside, -, shown⟩ | inside)
      · exact ⟨c, inside, shown⟩
      · exact ⟨_, inside, by decide⟩
  have web : isVisible text = true ↔ (∃ c ∈ text, isSpace c = false ∧ unicodeIsSpace c = false) ∨
      nextLine ∈ text := by
    simp only [isVisible, List.any_eq_true, Bool.not_eq_true']
    constructor
    · rintro ⟨c, inside, shown⟩
      cases space : unicodeIsSpace c with
      | false => exact Or.inl ⟨c, inside, shown, space⟩
      | true =>
        rw [unicodeIsSpace_iff, shown] at space
        exact Or.inr (space.resolve_left (by simp) ▸ inside)
    · rintro (⟨c, inside, shown, -⟩ | inside)
      · exact ⟨c, inside, shown⟩
      · exact ⟨_, inside, by decide⟩
  rw [Bool.eq_iff_iff, serve, web]
  by_cases shown : ∃ c ∈ text, isSpace c = false ∧ unicodeIsSpace c = false
  · simp only [shown, true_or]
  · simp only [shown, false_or]

/-- The serve and the web client agree on whether an answer has visible text exactly when the one
text that it shows
has a character that is white space to neither, or has both or none of a byte order mark and a next
line. -/
theorem visible_agrees (content : List Char) : (∃! text, Seen content text) ∧ ∀ text,
    Seen content text →
    (hasVisibleText content = (parseAssistantFencing content).hasVisibleText ↔
      (∃ c ∈ text, isSpace c = false ∧ unicodeIsSpace c = false) ∨
      (byteOrderMark ∈ text ↔ nextLine ∈ text)) := by
  refine ⟨seen_unique content, fun text seen => ?_⟩
  obtain ⟨serve, web⟩ := visible_iff seen
  rw [serve, web, blank_agrees]

/-- A next line after a status is text to the web client only. -/
theorem next_line_disagrees :
    ¬ ∀ content, hasVisibleText content = (parseAssistantFencing content).hasVisibleText := by
  intro always
  have agreed :=
    always (Tag.text ⟨false, .status⟩ ++ ['o', 'k'] ++ Tag.text ⟨true, .status⟩ ++ [nextLine])
  revert agreed
  decide

end AiConfig.Herder.Fencing
