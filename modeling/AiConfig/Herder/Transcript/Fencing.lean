import AiConfig.Herder.Notes.Store
import AiConfig.Lib.Matches

/-! # Fenced answers

Transcription of `fence` of the native client's `condense.rs` and of `parseAssistantFencing` of
the web client's `fencingModel.ts`.  Both scan an answer for its `<internal>` and `<status>` tags;
a tag is kept as what the code reads of its text. -/

namespace AiConfig.Herder.Fencing

open AiConfig.Lib

open NotesStore (isSpace)

inductive Fence where
  | internal | status
  deriving DecidableEq

structure Tag where
  closing : Bool
  fence : Fence
  deriving DecidableEq

def Fence.name : Fence → List Char
  | .internal => ['i', 'n', 't', 'e', 'r', 'n', 'a', 'l', '>']
  | .status => ['s', 't', 'a', 't', 'u', 's', '>']

def Tag.text (tag : Tag) : List Char :=
  '<' :: ((if tag.closing then ['/'] else []) ++ tag.fence.name)

/-- `text[start..stop]`. -/
def slice (text : List Char) (start stop : Nat) : List Char := (text.drop start).take (stop - start)

def broken (body : List Char) : Bool := body.any fun c => c = '\r' || c = '\n'

/-! ## The native client -/

inductive Seg where
  | text (content : List Char)
  | status (content : List Char)
  | internal (content : List Char)
  deriving DecidableEq

def TAGS : List Tag := [⟨false, .internal⟩, ⟨true, .internal⟩, ⟨false, .status⟩, ⟨true, .status⟩]

def tagAt (rest : List Char) : Option Tag := TAGS.find? fun tag => tag.text.isPrefixOf rest

/-- The tags at the indices of `<`. -/
def tags : Nat → List Char → List (Nat × Tag)
  | _, [] => []
  | i, c :: rest => (if c = '<' then (tagAt (c :: rest)).map fun tag =>
      (i, tag) else none).toList ++ tags (i + 1) rest

structure Scan where
  segs : List Seg
  cursor : Nat
  /-- The fence that is open, and where its body starts. -/
  open_ : Option (Fence × Nat)
  deriving DecidableEq

def Seg.of : Fence → List Char → Seg
  | .internal => .internal
  | .status => .status

def Scan.step (text : List Char) (scan : Scan) (found : Nat × Tag) : Option Scan :=
  let (i, tag) := found
  match scan.open_ with
  | none =>
    if tag.closing then none
    else
      let segs :=
        if scan.cursor < i then scan.segs ++ [.text (slice text scan.cursor i)] else scan.segs
      some { scan with segs, open_ := some (tag.fence, i + tag.text.length) }
  | some (fence, start) =>
    if fence = tag.fence && tag.closing then
      let body := slice text start i
      -- A status over several lines leaves the text as it is.
      if fence = .status && broken body then none
      else some
        { segs := scan.segs ++ [.of fence body], cursor := i + tag.text.length, open_ := none }
    else none

def fence (text : List Char) : Option (List Seg) :=
  match (tags 0 text).foldlM (Scan.step text) ⟨[], 0, none⟩ with
  | none => none
  | some scan =>
    if scan.open_.isSome || scan.segs.isEmpty && scan.cursor = 0 then none
    else if scan.cursor < text.length then some
      (scan.segs ++ [.text (slice text scan.cursor text.length)])
    else some scan.segs

/-! ## The web client -/

inductive AssistantFenceSegment where
  | text (content : List Char)
  | internal (content : List Char) (wordCount : Nat)
  | status (content : List Char)
  deriving DecidableEq

structure AssistantFencing where
  fenced : Bool
  hasVisibleText : Bool
  segments : List AssistantFenceSegment
  deriving DecidableEq

/-- The rest of a tag, after `<` or `</`. -/
def fenceName (closing : Bool) (rest : List Char) : Option Tag :=
  if Fence.internal.name.isPrefixOf rest then some ⟨closing, .internal⟩
  else if Fence.status.name.isPrefixOf rest then some ⟨closing, .status⟩
  else none

/-- `fenceTag` at the head of a text. -/
def fenceTag : List Char → Option Tag
  | [] => none
  | c :: rest =>
    if c = '<' then
      match rest with
      | [] => none
      | slash :: name => if slash = '/' then fenceName true name else fenceName false rest
    else none

def matchAll (content : List Char) : List (Nat × Tag) :=
  findAll fenceTag (fun tag => tag.text.length) 0 0 content

def isVisible (content : List Char) : Bool := content.any fun c => !isSpace c

def literal (content : List Char) : AssistantFencing := ⟨false, isVisible content, [.text content]⟩

/-- The runs of characters that are not white space. -/
def words : Bool → List Char → Nat
  | _, [] => 0
  | inside, c :: rest => (if !inside && !isSpace c then 1 else 0) + words (!isSpace c) rest

def internalWordCount (content : List Char) : Nat := words false content

structure WebScan where
  segments : List AssistantFenceSegment
  cursor : Nat
  open_ : Option (Fence × Nat)
  fenced : Bool

def AssistantFenceSegment.of : Fence → List Char → AssistantFenceSegment
  | .internal, content => .internal content (internalWordCount content)
  | .status, content => .status content

def WebScan.step (content : List Char) (scan : WebScan) (found : Nat × Tag) : Option WebScan :=
  let (index, tag) := found
  match scan.open_ with
  | none =>
    if tag.closing then none
    else
      let segments :=
        if scan.cursor < index then scan.segments ++ [.text (slice content scan.cursor index)]
        else scan.segments
      some
        { scan with
          segments
          open_ := some (tag.fence, index + tag.text.length)
          fenced := true }
  | some (kind, bodyStart) =>
    if !tag.closing || tag.fence ≠ kind then none
    else
      let body := slice content bodyStart index
      if tag.fence = .status && broken body then none
      else
        some
          { scan with
            segments := scan.segments ++ [.of tag.fence body]
            cursor := index + tag.text.length
            open_ := none }

def AssistantFenceSegment.visible : AssistantFenceSegment → Bool
  | .text content => isVisible content
  | .internal _ _ | .status _ => false

def parseAssistantFencing (content : List Char) : AssistantFencing :=
  match (matchAll content).foldlM (WebScan.step content) ⟨[], 0, none, false⟩ with
  | none => literal content
  | some scan =>
    if scan.open_.isSome then literal content
    else if !scan.fenced then literal content
    else
      let segments :=
        if scan.cursor < content.length then
          scan.segments ++ [.text (slice content scan.cursor content.length)]
        else scan.segments
      ⟨true, segments.any AssistantFenceSegment.visible, segments⟩

/-! ## The tags of a text -/

theorem prefix_text (tag : Tag) (rest : List Char) :
    tag.text.isPrefixOf ('<' :: rest) =
      ((if tag.closing then ['/'] else []) ++ tag.fence.name).isPrefixOf rest := by
  simp [Tag.text]

theorem name_slash (fence : Fence) (rest : List Char) :
    fence.name.isPrefixOf ('/' :: rest) = false := by
  cases fence <;> rfl

/-- Both clients see the same tag at an index. -/
theorem fenceTag_eq (c : Char) (rest : List Char) : fenceTag (c :: rest) = if c = '<' then tagAt
    (c :: rest) else none := by
  rw [fenceTag.eq_def]
  dsimp only
  split
  · next own =>
    subst own
    cases rest with
    | nil => rfl
    | cons d rest =>
      simp only [tagAt, TAGS, List.find?, prefix_text, Bool.false_eq_true, if_false, if_true,
        List.nil_append,
        List.cons_append, fenceName]
      by_cases slash : d = '/'
      · subst slash
        simp only [name_slash, if_true, List.isPrefixOf_cons_cons_self]
        cases Fence.internal.name.isPrefixOf rest <;> cases Fence.status.name.isPrefixOf rest <;>
          rfl
      · have closing : ∀ name, (('/' :: name).isPrefixOf (d :: rest)) = false := by
          intro name
          rw [List.isPrefixOf_cons_cons, beq_eq_false_iff_ne.mpr (Ne.symm slash), Bool.false_and]
        simp only [closing, if_neg slash]
        cases Fence.internal.name.isPrefixOf (d :: rest) <;>
          cases Fence.status.name.isPrefixOf (d :: rest) <;> rfl
  · rfl

theorem begins_of_tagAt {rest : List Char} {tag : Tag} (found : tagAt rest = some tag) :
    tag.text <+: rest :=
  List.isPrefixOf_iff_prefix.mp (by simpa using List.find?_some found)

/-- A tag has no other `<`. -/
theorem text_tail (tag : Tag) : '<' ∉ tag.text.tail := by
  obtain ⟨closing, fence⟩ := tag
  cases closing <;> cases fence <;> decide

theorem text_length (tag : Tag) : 0 < tag.text.length := by simp [Tag.text]

/-- The tags at the indices of `<` are what the expression matches. -/
theorem tags_eq (i skip : Nat) (rest : List Char) (clean : '<' ∉ rest.take skip) :
    tags i rest = findAll fenceTag (fun tag => tag.text.length) i skip rest := by
  induction rest generalizing i skip with
  | nil => cases skip <;> rfl
  | cons c rest inductionHypothesis =>
    rw [tags]
    cases skip with
    | succ skip =>
      simp only [List.take_succ_cons, List.mem_cons, not_or] at clean
      rw [if_neg (Ne.symm clean.1), findAll, ← inductionHypothesis (i + 1) skip clean.2]
      rfl
    | zero =>
      rw [findAll, fenceTag_eq]
      by_cases own : c = '<'
      · rw [if_pos own, if_pos own]
        cases found : tagAt (c :: rest) with
        | none => exact inductionHypothesis (i + 1) 0 (by simp)
        | some tag =>
          -- the rest of the tag is skipped, and no other starts in it
          have inside : '<' ∉ rest.take (tag.text.length - 1) := by
            obtain ⟨after, same⟩ := begins_of_tagAt found
            have tail : tag.text.tail ++ after = rest := by
              rw [← List.tail_append_of_ne_nil (by simp [Tag.text]), same, List.tail_cons]
            rw [← tail, ← List.length_tail, List.take_left]
            exact text_tail tag
          exact congrArg ((i, tag) :: ·) (inductionHypothesis (i + 1) _ inside)
      · rw [if_neg own, if_neg own]
        exact inductionHypothesis (i + 1) 0 (by simp)

theorem begins_of_fenceTag {rest : List Char} {tag : Tag} (found : fenceTag rest = some tag) :
    tag.text <+: rest := by
  cases rest with
  | nil => cases found
  | cons c rest =>
    rw [fenceTag_eq] at found
    split at found
    · exact begins_of_tagAt found
    · cases found

/-- Tags that stand where they are said to, one after the other. -/
abbrev Placed (text : List Char) : Nat → List (Nat × Tag) → Prop :=
  InOrder fenceTag (fun tag => tag.text.length) text

theorem placed_tags (text : List Char) : Placed text 0 (tags 0 text) := by
  rw [tags_eq 0 0 text (by simp)]
  exact findAll_inOrder (fun _ tag _ => text_length tag) 0 rfl

/-! ## What a scan has written -/

def Seg.written : Seg → List Char
  | .text content => content
  | .status content => Tag.text ⟨false, .status⟩ ++ content ++ Tag.text ⟨true, .status⟩
  | .internal content => Tag.text ⟨false, .internal⟩ ++ content ++ Tag.text ⟨true, .internal⟩

theorem Seg.written_of (fence : Fence) (body : List Char) :
    (Seg.of fence body).written = Tag.text ⟨false, fence⟩ ++ body ++ Tag.text ⟨true, fence⟩ := by
  cases fence <;> rfl

/-- The segments are the text up to the cursor, or to the open fence's body. -/
structure Scan.Writes (text : List Char) (bound : Nat) (scan : Scan) : Prop where
  closed : scan.open_ = none → scan.segs.flatMap Seg.written = text.take scan.cursor ∧
    scan.cursor ≤ bound
  opened : ∀ fence start, scan.open_ = some (fence, start) →
    scan.segs.flatMap Seg.written ++ Tag.text ⟨false, fence⟩ = text.take start ∧ start ≤ bound
  unbroken : ∀ body, Seg.status body ∈ scan.segs → broken body = false

theorem take_slice (text : List Char) {start stop : Nat} (order : start ≤ stop) :
    text.take start ++ slice text start stop = text.take stop := by
  rw [slice, ← List.take_add, Nat.add_sub_cancel' order]

theorem take_tag {text : List Char} {i : Nat} {tag : Tag} (there : tag.text <+: text.drop i) :
    text.take (i + tag.text.length) = text.take i ++ tag.text := by
  rw [List.take_add, List.prefix_iff_eq_take.mp there, List.length_take]
  simp

theorem Scan.Writes.step {text : List Char} {bound i : Nat} {tag : Tag} {scan scan' : Scan}
    (writes : scan.Writes text bound)
    (above : bound ≤ i) (there : tag.text <+: text.drop i)
    (stepped : scan.step text (i, tag) = some scan') :
    scan'.Writes text (i + tag.text.length) := by
  rw [Scan.step] at stepped
  dsimp only at stepped
  split at stepped
  · next closed =>
    obtain ⟨written, below⟩ := writes.closed closed
    split at stepped
    · cases stepped
    · next opening =>
      cases stepped
      have own : tag = ⟨false, tag.fence⟩ := by
        obtain ⟨closing, fence⟩ := tag
        simpa using opening
      have upTo :
        (if scan.cursor < i then scan.segs ++
        [Seg.text (slice text scan.cursor i)] else scan.segs).flatMap Seg.written =
          text.take i := by
        split
        · rw [List.flatMap_append, written]
          simpa [Seg.written] using take_slice text (below.trans above)
        · next same =>
          have cursor : scan.cursor = i := by omega
          rw [written, cursor]
      constructor
      · intro none
        cases none
      · intro fence start same
        cases same
        rw [← own, take_tag there]
        exact ⟨congrArg (· ++ tag.text) upTo, le_rfl⟩
      · intro body inside
        dsimp only at inside
        split at inside
        · cases List.mem_append.mp inside with
          | inl before => exact writes.unbroken body before
          | inr text => cases List.mem_singleton.mp text
        · exact writes.unbroken body inside
  · next fence start opened =>
    obtain ⟨written, below⟩ := writes.opened fence start opened
    split at stepped
    · next closes =>
      simp only [Bool.and_eq_true, decide_eq_true_eq] at closes
      obtain ⟨rfl, closing⟩ := closes
      have own : tag = ⟨true, tag.fence⟩ := by
        obtain ⟨_, fence⟩ := tag
        simpa using closing
      split at stepped
      · cases stepped
      · next whole =>
        cases stepped
        constructor
        · intro _
          refine ⟨?_, le_rfl⟩
          rw [List.flatMap_append, List.flatMap_singleton, Seg.written_of, List.append_assoc,
            ← List.append_assoc,
            written, ← List.append_assoc, take_slice text (below.trans above), ← own,
              ← take_tag there]
        · intro fence start same
          cases same
        · intro body inside
          cases List.mem_append.mp inside with
          | inl before => exact writes.unbroken body before
          | inr last =>
            have last := List.mem_singleton.mp last
            cases kind : tag.fence with
            | internal => rw [kind] at last; cases last
            | status =>
              rw [kind] at last
              cases last
              simpa [kind] using whole
    · cases stepped

theorem Scan.Writes.run {text : List Char} {bound : Nat} {scan scan' : Scan}
    {found : List (Nat × Tag)}
    (writes : scan.Writes text bound) (placed : Placed text bound found)
    (ran : found.foldlM (Scan.step text) scan = some scan') :
    ∃ bound', scan'.Writes text bound' := by
  induction placed generalizing scan with
  | nil bound =>
    cases ran
    exact ⟨bound, writes⟩
  | cons above there later inductionHypothesis =>
    obtain ⟨middle, stepped, rest⟩ := Option.bind_eq_some_iff.mp ran
    exact inductionHypothesis (writes.step above (begins_of_fenceTag there) stepped) rest

/-- Segments written back with their tags are the text, and no status is over more than one line. -/
theorem fence_lossless {text : List Char} {segs : List Seg} (fenced : fence text = some segs) :
    segs.flatMap Seg.written = text ∧ ∀ body, Seg.status body ∈ segs → broken body = false := by
  rw [fence] at fenced
  split at fenced
  · cases fenced
  · next scan ran =>
    have start : (⟨[], 0, none⟩ : Scan).Writes text 0 :=
      ⟨fun _ => ⟨rfl, le_rfl⟩, fun _ _ opened => (nomatch opened), fun _ inside => (nomatch inside)⟩
    obtain ⟨bound, writes⟩ := start.run (placed_tags text) ran
    split at fenced
    · cases fenced
    · next ended =>
      simp only [Bool.or_eq_true, not_or, Option.isSome_iff_ne_none, ne_eq, not_not] at ended
      obtain ⟨written, -⟩ := writes.closed ended.1
      split at fenced
      · next short =>
        cases fenced
        constructor
        · rw [List.flatMap_append, List.flatMap_singleton, written, Seg.written,
            take_slice text (Nat.le_of_lt short),
            List.take_length]
        · intro body inside
          cases List.mem_append.mp inside with
          | inl before => exact writes.unbroken body before
          | inr last => cases List.mem_singleton.mp last
      · next whole =>
        cases fenced
        exact ⟨by rw [written, List.take_of_length_le (by omega)], writes.unbroken⟩

/-! ## Both clients -/

/-- What both clients have of a segment. -/
def AssistantFenceSegment.seg : AssistantFenceSegment → Seg
  | .text content => .text content
  | .internal content _ => .internal content
  | .status content => .status content

theorem AssistantFenceSegment.seg_of (fence : Fence) (body : List Char) :
    (AssistantFenceSegment.of fence body).seg = .of fence body := by
  cases fence <;> rfl

def WebScan.scan (web : WebScan) : Scan :=
  ⟨web.segments.map AssistantFenceSegment.seg, web.cursor, web.open_⟩

theorem WebScan.step_scan (text : List Char) (web : WebScan) (found : Nat × Tag) :
    (web.step text found).map WebScan.scan = web.scan.step text found := by
  obtain ⟨segments, cursor, open_, fenced⟩ := web
  obtain ⟨i, tag⟩ := found
  cases open_ with
  | none =>
    by_cases closing : tag.closing = true
    · simp [WebScan.step, Scan.step, WebScan.scan, closing]
    · by_cases below : cursor < i
      · simp [WebScan.step, Scan.step, WebScan.scan, closing, below, AssistantFenceSegment.seg]
      · simp [WebScan.step, Scan.step, WebScan.scan, closing, below]
  | some started =>
    obtain ⟨kind, start⟩ := started
    simp only [WebScan.step, WebScan.scan, Scan.step]
    by_cases closes : kind = tag.fence ∧ tag.closing = true
    · obtain ⟨rfl, closing⟩ := closes
      simp only [closing, Bool.not_true, ne_eq, not_true_eq_false, decide_false, Bool.or_self, Bool.false_eq_true, if_false,
        decide_true, Bool.and_self, if_true]
      split
      · rfl
      · simp [WebScan.scan, AssistantFenceSegment.seg_of]
    · have web : (!tag.closing || decide (tag.fence ≠ kind)) = true := by
        cases closing : tag.closing with
        | false => rfl
        | true => simpa using fun same => closes ⟨same.symm, closing⟩
      have native : (decide (kind = tag.fence) && tag.closing) = false := by
        cases closing : tag.closing with
        | false => simp
        | true => simpa using fun same => closes ⟨same, closing⟩
      simp only [web, native, if_true, Bool.false_eq_true, if_false, Option.map_none]

theorem WebScan.run_scan (text : List Char) (web : WebScan) (found : List (Nat × Tag)) :
    (found.foldlM (WebScan.step text) web).map WebScan.scan =
    found.foldlM (Scan.step text) web.scan := by
  induction found generalizing web with
  | nil => rfl
  | cons first rest inductionHypothesis =>
    have step := web.step_scan text first
    rw [List.foldlM_cons, List.foldlM_cons, ← step]
    cases web.step text first with
    | none => rfl
    | some next => exact inductionHypothesis next

/-- `fenced` is what the native client reads off its cursor. -/
structure WebScan.Sane (web : WebScan) : Prop where
  fenced : web.fenced = (web.open_.isSome || decide (0 < web.cursor))
  bare : web.open_ = none → web.cursor = 0 → web.segments = []

theorem WebScan.Sane.step {text : List Char} {web web' : WebScan} (sane : web.Sane) {found : Nat × Tag}
    (stepped : web.step text found = some web') : web'.Sane := by
  obtain ⟨i, tag⟩ := found
  rw [WebScan.step] at stepped
  dsimp only at stepped
  split at stepped
  · split at stepped
    · cases stepped
    · cases stepped
      exact ⟨rfl, fun opened => (nomatch opened)⟩
  · next kind start opened =>
    split at stepped
    · cases stepped
    · split at stepped
      · cases stepped
      · cases stepped
        have above : 0 < i + tag.text.length := Nat.lt_of_lt_of_le (text_length tag) (Nat.le_add_left _ _)
        refine ⟨?_, fun _ cursor => absurd cursor (Nat.ne_of_gt above)⟩
        rw [sane.fenced, opened]
        simp [above]

theorem WebScan.Sane.run {text : List Char} {web web' : WebScan} (sane : web.Sane)
    {found : List (Nat × Tag)}
    (ran : found.foldlM (WebScan.step text) web = some web') : web'.Sane := by
  induction found generalizing web with
  | nil =>
    cases ran
    exact sane
  | cons first rest inductionHypothesis =>
    obtain ⟨next, stepped, later⟩ := Option.bind_eq_some_iff.mp ran
    exact inductionHypothesis (sane.step stepped) later

/-- The native client reads a text as the web client does. -/
theorem fence_eq_web (text : List Char) :
    fence text =
      if (parseAssistantFencing text).fenced then
        some ((parseAssistantFencing text).segments.map AssistantFenceSegment.seg)
      else none := by
  have same := WebScan.run_scan text ⟨[], 0, none, false⟩ (tags 0 text)
  have start : (⟨[], 0, none, false⟩ : WebScan).Sane := ⟨rfl, fun _ _ => rfl⟩
  rw [fence, parseAssistantFencing, matchAll, ← tags_eq 0 0 text (by simp)]
  cases ran : (tags 0 text).foldlM (WebScan.step text) ⟨[], 0, none, false⟩ with
  | none =>
    rw [ran] at same
    rw [show (tags 0 text).foldlM (Scan.step text) ⟨[], 0, none⟩ = none from same.symm]
    rfl
  | some web =>
    have sane := start.run ran
    rw [ran] at same
    rw [show (tags 0 text).foldlM (Scan.step text) ⟨[], 0, none⟩ = some web.scan from same.symm]
    obtain ⟨segments, cursor, open_, fenced⟩ := web
    obtain ⟨fenced_eq, bare⟩ := sane
    dsimp only at fenced_eq bare
    cases open_ with
    | some _ => simp [WebScan.scan, literal]
    | none =>
      by_cases above : 0 < cursor
      · by_cases short : cursor < text.length
        · simp [WebScan.scan, fenced_eq, above, Nat.ne_of_gt above, short,
            AssistantFenceSegment.seg]
        · simp [WebScan.scan, fenced_eq, above, Nat.ne_of_gt above, short]
      · have zero : cursor = 0 := by omega
        simp [WebScan.scan, fenced_eq, zero, bare rfl zero, literal]

/-! ## Fences -/

/-- A fence and the indices of its tags. -/
structure FencePair where
  fence : Fence
  opens : Nat
  closes : Nat

def FencePair.tags (pair : FencePair) : List (Nat × Tag) :=
  [(pair.opens, ⟨false, pair.fence⟩), (pair.closes, ⟨true, pair.fence⟩)]

def FencePair.body (text : List Char) (pair : FencePair) : List Char :=
  slice text (pair.opens + (Tag.text ⟨false, pair.fence⟩).length) pair.closes

/-- The tags of a text are fences that are closed and not nested. -/
def Fences (text : List Char) (found : List (Nat × Tag)) (pairs : List FencePair) : Prop :=
  found = pairs.flatMap FencePair.tags ∧
    ∀ pair ∈ pairs, pair.fence = .status → broken (pair.body text) = false

theorem Scan.step_opens {text : List Char} {scan scan' : Scan} {i : Nat} {tag : Tag}
    (closed : scan.open_ = none)
    (stepped : scan.step text (i, tag) = some scan') :
    tag = ⟨false, tag.fence⟩ ∧ scan'.open_ =
      some (tag.fence, i + (Tag.text ⟨false, tag.fence⟩).length) := by
  obtain ⟨closing, fence⟩ := tag
  rw [Scan.step] at stepped
  simp only [closed] at stepped
  split at stepped
  · cases stepped
  · next opening =>
    cases stepped
    rw [Bool.not_eq_true] at opening
    exact ⟨by rw [opening], by rw [opening]⟩

theorem Scan.step_closes {text : List Char} {scan scan' : Scan} {fence : Fence} {start i : Nat}
    {tag : Tag}
    (opened : scan.open_ = some (fence, start)) (stepped : scan.step text (i, tag) = some scan') :
    tag = ⟨true, fence⟩ ∧ (fence = .status → broken (slice text start i) = false) ∧
      scan'.open_ = none ∧ scan'.segs ≠ [] := by
  obtain ⟨closing, kind⟩ := tag
  rw [Scan.step] at stepped
  simp only [opened] at stepped
  split at stepped
  · next closes =>
    simp only [Bool.and_eq_true, decide_eq_true_eq] at closes
    obtain ⟨rfl, rfl⟩ := closes
    split at stepped
    · cases stepped
    · next whole =>
      cases stepped
      exact ⟨rfl, fun status => by simpa [status] using whole, rfl, by simp⟩
  · cases stepped

theorem pairs_of_scan {text : List Char} : ∀ (found : List (Nat × Tag)) {scan scan' : Scan},
    scan.open_ = none →
    found.foldlM (Scan.step text) scan = some scan' → scan'.open_ = none → ∃ pairs,
      Fences text found pairs
  | [], _, _, _, _, _ => ⟨[], rfl, by simp⟩
  | [(i, tag)], scan, scan', closed, ran, ended => by
    obtain ⟨next, stepped, rest⟩ := Option.bind_eq_some_iff.mp ran
    cases rest
    rw [(Scan.step_opens closed stepped).2] at ended
    cases ended
  | (i, tag) :: (j, tag') :: rest, scan, scan', closed, ran, ended => by
    obtain ⟨middle, first, ran⟩ := Option.bind_eq_some_iff.mp ran
    obtain ⟨next, second, later⟩ := Option.bind_eq_some_iff.mp ran
    obtain ⟨opening, opened⟩ := Scan.step_opens closed first
    obtain ⟨closing, unbroken, again, -⟩ := Scan.step_closes opened second
    obtain ⟨pairs, same, whole⟩ := pairs_of_scan rest again later ended
    refine ⟨⟨tag.fence, i, j⟩ :: pairs, ?_, ?_⟩
    · rw [List.flatMap_cons, same, closing, opening]
      rfl
    · intro pair inside
      cases List.mem_cons.mp inside with
      | inl own => exact own ▸ unbroken
      | inr older => exact whole pair older

theorem scan_of_pairs {text : List Char} {found : List (Nat × Tag)} {pairs : List FencePair}
    (fences : Fences text found pairs)
    {scan : Scan} (closed : scan.open_ = none) :
    ∃ scan', found.foldlM (Scan.step text) scan = some scan' ∧ scan'.open_ = none ∧
      (scan.segs ≠ [] ∨ pairs ≠ [] → scan'.segs ≠ []) := by
  obtain ⟨rfl, unbroken⟩ := fences
  induction pairs generalizing scan with
  | nil => exact ⟨scan, rfl, closed, by simp⟩
  | cons pair rest inductionHypothesis =>
    obtain ⟨fence, opens, closes⟩ := pair
    have whole :
        (decide (fence = .status) && broken
        (slice text (opens + (Tag.text ⟨false, fence⟩).length) closes)) = false := by
      cases fence with
      | internal => rfl
      | status => exact unbroken ⟨.status, opens, closes⟩ List.mem_cons_self rfl
    have later : ∀ other ∈ rest, other.fence = .status → broken (other.body text) = false :=
        fun other inside =>
      unbroken other (List.mem_cons_of_mem _ inside)
    -- the pair's tags are scanned, and the rest from there
    have pair : ∃ middle : Scan, (Scan.step text scan (opens, ⟨false, fence⟩) >>= fun opened =>
        opened.step text (closes, ⟨true, fence⟩)) = some middle ∧ middle.open_ = none ∧
            middle.segs ≠ [] := by
      simp only [Scan.step, closed, Bool.false_eq_true, if_false, Option.bind_eq_bind,
        Option.bind_some, decide_true,
        Bool.and_true, whole, if_true]
      exact ⟨_, rfl, rfl, by simp⟩
    obtain ⟨middle, scanned, ended, some⟩ := pair
    obtain ⟨scan', ran, ended', grows⟩ := inductionHypothesis ended later
    refine ⟨scan', ?_, ended', fun _ => grows (Or.inl some)⟩
    rw [List.flatMap_cons, FencePair.tags, List.cons_append, List.cons_append, List.nil_append,
      List.foldlM_cons]
    simp only [List.foldlM_cons]
    rw [← bind_assoc, scanned]
    exact ran

/-- A text is fenced exactly when its tags are fences, of which there is one, and no status is over
more than one line. -/
theorem fence_isSome_iff (text : List Char) :
    (fence text).isSome ↔ ∃ pairs, pairs ≠ [] ∧ Fences text (tags 0 text) pairs := by
  constructor
  · intro some
    rw [fence] at some
    split at some
    · cases some
    · next scan ran =>
      split at some
      · cases some
      · next ended =>
        simp only [Bool.or_eq_true, not_or, Option.isSome_iff_ne_none, ne_eq, not_not] at ended
        obtain ⟨pairs, fences⟩ := pairs_of_scan (tags 0 text) rfl ran ended.1
        refine ⟨pairs, fun none => ?_, fences⟩
        -- without a tag nothing has been scanned
        rw [none] at fences
        rw [fences.1] at ran
        cases ran
        exact ended.2 rfl
  · rintro ⟨pairs, nonempty, fences⟩
    obtain ⟨scan, ran, ended, grows⟩ := @scan_of_pairs text _ pairs fences ⟨[], 0, none⟩ rfl
    have segs : scan.segs.isEmpty = false := by simpa using grows (Or.inr nonempty)
    rw [fence, ran]
    simp only [ended, segs, Option.isSome_none, Bool.false_and, Bool.or_self, Bool.false_eq_true,
      if_false]
    split <;> rfl

theorem tag_unique {tag other : Tag} {rest : List Char} (here : tag.text <+: rest)
    (there : other.text <+: rest) : tag = other := by
  have apart : ∀ tag other : Tag, tag.text <+: other.text → tag = other := by
    rintro ⟨closing, fence⟩ ⟨closing', fence'⟩ begins
    cases closing <;> cases fence <;> cases closing' <;> cases fence' <;> first | rfl |
      exact absurd begins (by decide)
  cases List.prefix_or_prefix_of_prefix here there with
  | inl begins => exact apart tag other begins
  | inr begins => exact (apart other tag begins).symm

theorem tagAt_iff {rest : List Char} {tag : Tag} : tagAt rest = some tag ↔ tag.text <+: rest := by
  constructor
  · exact begins_of_tagAt
  · intro here
    cases found : tagAt rest with
    | some other => rw [tag_unique (begins_of_tagAt found) here]
    | none =>
      have known : tag ∈ TAGS := by
        obtain ⟨closing, fence⟩ := tag
        cases closing <;> cases fence <;> decide
      exact absurd ( List.isPrefixOf_iff_prefix.mpr here)
        (by simpa using List.find?_eq_none.mp found tag known)

/-- The tags of a text are where it reads like one. -/
theorem mem_tags {text : List Char} {i : Nat} {tag : Tag} :
    (i, tag) ∈ tags 0 text ↔ tag.text <+: text.drop i := by
  have shifted : ∀ (rest : List Char) (start : Nat), (i, tag) ∈ tags start rest ↔ start ≤ i ∧
      tag.text <+: rest.drop (i - start) := by
    intro rest
    induction rest with
    | nil => simp [tags, Tag.text]
    | cons c rest inductionHypothesis =>
      intro start
      rw [tags, List.mem_append, inductionHypothesis (start + 1)]
      by_cases here : i = start
      · subst here
        have mark : tag.text <+: c :: rest → c = '<' := by
          rintro ⟨after, same⟩
          exact (List.cons.inj same).1.symm
        have past : ¬i + 1 ≤ i := by omega
        simp only [Nat.sub_self, List.drop_zero, le_refl, true_and, past, false_and, or_false,
          ← tagAt_iff] at mark ⊢
        split
        · simp
        · next other => simpa using fun found => other (mark found)
      · have apart :
            (i, tag) ∉ (if c = '<' then (tagAt (c :: rest)).map fun tag =>
            (start, tag) else none).toList := by
          split
          · simp [Ne.symm here]
          · simp
        simp only [apart, false_or]
        constructor
        · rintro ⟨below, there⟩
          rw [show i - start = i - (start + 1) + 1 by omega, List.drop_succ_cons]
          exact ⟨by omega, there⟩
        · rintro ⟨below, there⟩
          rw [show i - start = i - (start + 1) + 1 by omega, List.drop_succ_cons] at there
          exact ⟨by omega, there⟩
  simpa using shifted text 0

/-- An answer is read the same in both clients and without loss, and is fenced exactly when its tags
are
fences, of which there is one, with no status over more than one line.  Its tags are where it reads
like one. -/
theorem fencing_lossless (text : List Char) :
    (fence text =
      if (parseAssistantFencing text).fenced then
        some ((parseAssistantFencing text).segments.map AssistantFenceSegment.seg)
      else none) ∧
    (∀ segs, fence text = some segs →
      segs.flatMap Seg.written = text ∧ ∀ body, Seg.status body ∈ segs → broken body = false) ∧
    ((fence text).isSome ↔ ∃ pairs, pairs ≠ [] ∧ Fences text (tags 0 text) pairs) ∧
    ∀ i tag, (i, tag) ∈ tags 0 text ↔ tag.text <+: text.drop i :=
  ⟨fence_eq_web text, fun _ => fence_lossless, fence_isSome_iff text, fun _ _ => mem_tags⟩

/-- A status over two lines is literal, though its tags are a closed fence. -/
theorem broken_status_literal :
    ¬ ∀ text : List Char, (fence text).isSome ↔
      ∃ pairs : List FencePair, pairs ≠ [] ∧ tags 0 text = pairs.flatMap FencePair.tags := by
  intro always
  have fenced :=
    (always ['<', 's', 't', 'a', 't', 'u', 's', '>', '\n', '<', '/', 's', 't', 'a', 't', 'u', 's',
    '>']).mpr
    ⟨[⟨.status, 0, 9⟩], by simp, by decide⟩
  revert fenced
  decide

end AiConfig.Herder.Fencing
