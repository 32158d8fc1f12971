import AiConfig.Sesh.Surface.Results

/-! # The stretches of a compact view

Which steps of a window are drawn as one pill, read off the steps alone: off the labels, tones,
details and
merge keys of their pills, and off which calls are answered between them.

* `start` — the first step of the stretch that is last after some steps.
* `Harmless` — what a step must not do to the stretches before it.
* `Looks` — how the pill of a stretch is drawn; it takes in just the pills that go with the stretch.
  -/

namespace AiConfig.Sesh.Surface.Compact

open AiConfig.Lib

/-! ## Stretches -/

/-- A pill and the first of a stretch are of one merge key, and one of the two is primary. -/
def completes (head p : ConvPill) : Bool :=
  p.merge ≠ "" && head.merge = p.merge && head.primary ≠ p.primary

/-- The pill that completed a stretch. -/
def completion (head : ConvPill) (rest : List ConvPill) : Option ConvPill :=
  rest.find? (completes head)

/-- The label and the tone that a stretch is drawn with. -/
def caption (head : ConvPill) (rest : List ConvPill) : String × String :=
  match completion head rest with
  | none => (head.label, head.tone)
  | some p =>
    if p.primary then (p.label, if head.tone = "message" then "message" else p.tone)
    else (head.label, if p.tone = "message" then "message" else head.tone)

def joined (detail more : String) : String :=
  if more ≠ "" then trimLeft (detail ++ "\n\n" ++ more) else detail

/-- The detail that a stretch is drawn with. -/
def details (head : ConvPill) (rest : List ConvPill) : String :=
  match completion head rest with
  | none => rest.foldl (fun detail p => joined detail p.detail) head.detail
  | some p => if p.primary then head.detail else p.detail

/-- A pill goes with a stretch before it: it completes it, or no result has come for the stretch,
they are
drawn with one label and tone, and both are context without a merge key or both have no detail. -/
def goesWith (answered : Bool) (p : ConvPill) : List ConvPill → Bool
  | [] => false
  | head :: rest =>
    completes head p && (completion head rest).isNone ||
      !answered && caption head rest = (p.label, p.tone) &&
        (p.tone = "context" && head.merge = "" && p.merge = "" || p.detail = "" &&
          details head rest = "")

section

variable (steps : List Step)

/-- The call that a step is the result of, if the call came before it. -/
def answer (n : Nat) : Option Nat :=
  match steps[n]? with
  | some (.block b) => if b.kind = "tool_result" then ownCall (steps.take n) b else none
  | _ => none

/-- The pill that a step makes: a note's, or that of a block that is not the result of an earlier
call. -/
def face (n : Nat) : Option ConvPill :=
  match steps[n]? with
  | some (.note label tone detail) => some (notePill label tone detail)
  | some (.block b) => if (answer steps n).isSome then none else some (blockPill b)
  | _ => none

/-- The pills of the steps from one on up to another. -/
def faces (a n : Nat) : List ConvPill := (List.range' a (n - a)).filterMap (face steps)

/-- Before a step a result has come for a call from another step on. -/
def answered (a n : Nat) : Bool := (List.range n).any fun m => (answer steps m).any (a ≤ ·)

/-- A step that ends the run before it. -/
def closes : Step → Bool
  | .divider _ _ | .message _ _ => true
  | _ => false

/-- The first step of the stretch that is last after the first steps of a window, unless a run was
ended. -/
def start : Nat → Option Nat
  | 0 => none
  | n + 1 =>
    match face steps n with
    | some p =>
        some (((start n).filter fun a => goesWith (answered steps a n) p (faces steps a n)).getD n)
    | none => if steps[n]?.any closes then none else start n

/-- A result has come for a call of the stretch of a step. -/
def Answered (a n : Nat) : Prop :=
  ∃ m < n, ∃ c, answer steps m = some c ∧ start steps (c + 1) = some a

/-- A message with a merge key takes away a stretch of that key that a primary pill begins and none
completes. -/
def takesAway (merge : String) : List ConvPill → Bool
  | [] => false
  | head :: rest => merge ≠ "" && head.merge = merge && head.primary &&
      (completion head rest).isNone

/-- A message has taken away the stretch of a step. -/
def Superseded (a n : Nat) : Prop :=
  ∃ m < n, ∃ merge row, steps[m]? = some (.message merge row) ∧ start steps m = some a ∧
    takesAway merge (faces steps a m)

/-- A result without an earlier call. -/
def Orphan (n : Nat) : Prop := ∃ b, steps[n]? = some (.block b) ∧ b.kind = "tool_result" ∧
    answer steps n = none

/-- What a step does not do to the stretches before it. -/
structure Harmless (n : Nat) : Prop where
  /-- A pill that goes with the stretch before it: neither is a result without a call, and no result
  has come
  for the stretch where the pill is primary. -/
  pill : ∀ p a, face steps n = some p → start steps n = some a → start steps (n + 1) = some a →
    ¬Orphan steps n ∧ ¬Orphan steps a ∧ (p.primary → ¬Answered steps a n)
  /-- A stretch that a message takes away is no result without a call, and no result has come for
  it. -/
  message : ∀ merge row a, steps[n]? = some (.message merge row) → start steps n = some a →
    takesAway merge (faces steps a n) → ¬Orphan steps a ∧ ¬Answered steps a n
  /-- The stretch of a result's call is not taken away, and no other result has come for it. -/
  result : ∀ c a, answer steps n = some c → start steps (c + 1) = some a → ¬Superseded steps a n ∧
    ¬Answered steps a n

/-- The steps before another that make the pills of a stretch. -/
def members (a n : Nat) : List Nat :=
  (List.range n).filter fun m => (face steps m).isSome && start steps (m + 1) = some a

end

section

variable {steps : List Step} {a c n m : Nat} {p : ConvPill}

theorem faces_succ (order : a ≤ n) :
    faces steps a (n + 1) = faces steps a n ++ (face steps n).toList := by
  have length : n + 1 - a = n - a + 1 := by omega
  rw [faces, length, List.range'_concat, List.filterMap_append, faces, Nat.one_mul,
    Nat.add_sub_of_le order]
  cases made : face steps n <;> simp [made]

theorem faces_self (made : face steps n = some p) : faces steps n (n + 1) = [p] := by
  rw [faces_succ le_rfl, faces, Nat.sub_self, made]
  rfl

theorem answered_succ :
    answered steps a (n + 1) = (answered steps a n || (answer steps n).any (a ≤ ·)) := by
  simp [answered, List.range_succ]

theorem start_succ_of_face (made : face steps n = some p) :
    start steps (n + 1) = some (((start steps n).filter fun a =>
      goesWith (answered steps a n) p (faces steps a n)).getD n) := by
  rw [start, made]

theorem start_succ_of_none (none_ : face steps n = none) :
    start steps (n + 1) = if steps[n]?.any closes then none else start steps n := by
  rw [start, none_]

/-- A stretch begins with a pill. -/
theorem start_lt (own : start steps n = some a) : a < n ∧ (face steps a).isSome := by
  induction n with
  | zero => cases own
  | succ n inductionHypothesis =>
    cases made : face steps n with
    | some p =>
      rw [start_succ_of_face made, Option.some.injEq] at own
      cases goes :
          (start steps n).filter fun a => goesWith (answered steps a n) p (faces steps a n) with
      | none =>
        rw [goes, Option.getD_none] at own
        subst own
        exact ⟨Nat.lt_succ_self _, by rw [made]; rfl⟩
      | some other =>
        rw [goes, Option.getD_some] at own
        subst own
        obtain ⟨found, -⟩ := Option.filter_eq_some_iff.mp goes
        exact ⟨Nat.lt_succ_of_lt (inductionHypothesis found).1, (inductionHypothesis found).2⟩
    | none =>
      rw [start_succ_of_none made] at own
      split at own
      · cases own
      · exact ⟨Nat.lt_succ_of_lt (inductionHypothesis own).1, (inductionHypothesis own).2⟩

/-- A pill goes with the stretch before it or begins one. -/
theorem start_succ_iff (made : face steps n = some p) :
    start steps (n + 1) = some a ↔
      (start steps n = some a ∧ goesWith (answered steps a n) p (faces steps a n) = true) ∨
        a = n ∧ ∀ b, start steps n = some b →
          goesWith (answered steps b n) p (faces steps b n) = false := by
  rw [start_succ_of_face made, Option.some.injEq]
  cases before : start steps n with
  | none =>
    simp only [Option.filter_none, Option.getD_none, reduceCtorEq, false_and, false_or,
      false_implies, implies_true, and_true]
    exact eq_comm
  | some b =>
    have earlier := (start_lt before).1
    rw [Option.filter_some]
    by_cases goes : goesWith (answered steps b n) p (faces steps b n) = true
    · simp only [goes, if_true, Option.getD_some, Option.some.injEq]
      constructor
      · rintro rfl
        exact Or.inl ⟨rfl, goes⟩
      · rintro (⟨same, -⟩ | ⟨-, none_⟩)
        · exact same
        · rw [none_ b rfl] at goes
          cases goes
    · simp only [goes, Option.some.injEq]
      constructor
      · intro same
        exact Or.inr ⟨same.symm, fun other same => by rw [← same]; simpa using goes⟩
      · rintro (⟨same, goes'⟩ | ⟨same, -⟩)
        · rw [← same] at goes'
          exact absurd goes' goes
        · exact same.symm

/-- All steps from the first of the last stretch on are of it. -/
theorem start_between (own : start steps n = some a) (from_ : a ≤ m) (before : m < n) :
    start steps (m + 1) = some a := by
  induction n with
  | zero => cases own
  | succ n inductionHypothesis =>
    obtain rfl | earlier : m = n ∨ m < n := by omega
    · exact own
    · cases made : face steps n with
      | some p =>
        obtain ⟨there, -⟩ | ⟨same, -⟩ := (start_succ_iff made).mp own
        · exact inductionHypothesis there earlier
        · omega
      | none =>
        rw [start_succ_of_none made] at own
        split at own
        · cases own
        · exact inductionHypothesis own earlier

theorem start_self (made : face steps n = some p) : ∃ a, start steps (n + 1) = some a :=
  ⟨_, start_succ_of_face made⟩

theorem start_message {merge : String} {row : Message}
    (here : steps[n]? = some (.message merge row)) : start steps (n + 1) = none := by
  have none_ : face steps n = none := by rw [face, here]
  rw [start_succ_of_none none_, here]
  rfl

theorem not_superseded (own : start steps n = some a) : ¬Superseded steps a n := by
  rintro ⟨m, before, merge, row, here, there, -⟩
  have next := start_between own (start_lt there).1.le before
  rw [start_message here] at next
  cases next

theorem answer_lt (own : answer steps n = some c) : c < n := by
  unfold answer at own
  split at own
  · split at own
    · exact lt_of_lt_of_le (ownCall_lt own) (List.length_take_le _ _)
    · cases own
  · cases own

/-- A call makes a pill. -/
theorem face_call {id : String} (found : callOf steps id = some c) : (face steps c).isSome := by
  obtain ⟨⟨one, k⟩, last, same⟩ := Option.map_eq_some_iff.mp found
  obtain ⟨inside, call⟩ := List.mem_filter.mp (List.mem_of_getLast? last)
  have here : steps[c]? = some one := by
    rw [← same]
    exact List.mem_zipIdx_iff_getElem?.mp inside
  cases one with
  | block b =>
    have kind : b.kind = "tool_use" := by
      simp only [isCall, decide_eq_true_eq] at call
      exact call.1
    have unanswered : answer steps c = none := by
      simp [answer, here, kind]
    rw [face, here]
    simp [unanswered]
  | _ => cases call

theorem face_take (before : c < n) : face (steps.take n) c = face steps c := by
  have here : (steps.take n)[c]? = steps[c]? := List.getElem?_take_of_lt before
  have same : answer (steps.take n) c = answer steps c := by
    rw [answer, answer, here, List.take_take, Nat.min_eq_left before.le]
  rw [face, face, here, same]

theorem face_answer (own : answer steps n = some c) : (face steps c).isSome := by
  have before := answer_lt own
  unfold answer at own
  split at own
  · split at own
    · unfold ownCall at own
      split at own
      · have there := face_call own
        rwa [face_take before] at there
      · cases own
    · cases own
  · cases own

theorem answered_iff (own : start steps n = some a) : answered steps a n = true ↔
    Answered steps a n := by
  simp only [answered, List.any_eq_true, List.mem_range, Option.any_eq_true, decide_eq_true_eq]
  constructor
  · rintro ⟨m, before, c, found, from_⟩
    exact ⟨m, before, c, found, start_between own from_ ((answer_lt found).trans before)⟩
  · rintro ⟨m, before, c, found, there⟩
    exact ⟨m, before, c, found, Nat.le_of_lt_succ (start_lt there).1⟩

theorem answered_succ_iff : Answered steps a (n + 1) ↔
    Answered steps a n ∨ ∃ c, answer steps n = some c ∧ start steps (c + 1) = some a := by
  constructor
  · rintro ⟨m, before, own⟩
    obtain rfl | earlier : m = n ∨ m < n := by omega
    · exact Or.inr own
    · exact Or.inl ⟨m, earlier, own⟩
  · rintro (⟨m, before, own⟩ | own)
    · exact ⟨m, by omega, own⟩
    · exact ⟨n, by omega, own⟩

theorem superseded_succ_iff : Superseded steps a (n + 1) ↔ Superseded steps a n ∨
    ∃ merge row, steps[n]? = some (.message merge row) ∧ start steps n = some a ∧
      takesAway merge (faces steps a n) := by
  constructor
  · rintro ⟨m, before, own⟩
    obtain rfl | earlier : m = n ∨ m < n := by omega
    · exact Or.inr own
    · exact Or.inl ⟨m, earlier, own⟩
  · rintro (⟨m, before, own⟩ | own)
    · exact ⟨m, by omega, own⟩
    · exact ⟨n, by omega, own⟩

theorem mem_members : c ∈ members steps a n ↔ c < n ∧ (face steps c).isSome ∧ start steps
    (c + 1) = some a := by
  simp [members]

theorem members_succ : members steps a (n + 1) =
    members steps a n ++
      if (face steps n).isSome && start steps (n + 1) = some a then [n] else [] := by
  rw [members, List.range_succ, List.filter_append, members]
  congr 1
  simp [List.filter_cons]

end

/-! ## How a stretch is drawn -/

/-- A pill shows a stretch. -/
structure Looks (last head : ConvPill) (rest : List ConvPill) (answered : Bool) : Prop where
  merge : last.merge = head.merge
  merged : last.merged = (completion head rest).isSome
  primary : completion head rest = none → last.primary = head.primary
  result : last.hasResult = answered
  title : answered = false → (last.label, last.tone) = caption head rest
  detail : last.detail = details head rest
  whole : head.merge ≠ "" → completion head rest = none → last.detail = head.detail

section

variable {last head p q : ConvPill} {rest : List ConvPill} {answered : Bool}

theorem completion_append : completion head (rest ++ [p]) = (completion head rest).or
    (if completes head p then some p else none) := by
  rw [completion, List.find?_append, completion, List.find?_singleton]

theorem Looks.self (p : ConvPill) (fresh : p.hasResult = false) (single : p.merged = false) :
    Looks p p [] false where
  merge := rfl
  merged := single
  primary := fun _ => rfl
  result := fresh
  title := fun _ => rfl
  detail := rfl
  whole := fun _ _ => rfl

theorem Looks.merges_iff (looks : Looks last head rest answered) :
    merges last p = true ↔ completes head p = true ∧ completion head rest = none := by
  cases found : completion head rest with
  | some other => simp [merges, looks.merged, found]
  | none => simp [merges, completes, looks.merged, looks.merge, looks.primary found, found]

/-- The pill of a stretch takes in just the pills that go with the stretch. -/
theorem Looks.takes_iff (looks : Looks last head rest answered) (fresh : p.hasResult = false) :
    (absorb last p).isSome = goesWith answered p (head :: rest) := by
  have merge : merges last p = (completes head p && (completion head rest).isNone) := by
    rw [Bool.eq_iff_iff, looks.merges_iff]
    simp
  have others :
    (joins last p || folds last p) = (!answered && caption head rest = (p.label, p.tone) &&
      (p.tone = "context" && head.merge = "" && p.merge = "" || p.detail = "" && details head rest =
          "")) := by
    cases answered with
    | true => simp [joins, folds, ConvPill.expandable, looks.result, fresh]
    | false =>
      have both := looks.title rfl
      simp only [joins, folds, ConvPill.expandable, looks.result, fresh, looks.merge,
        ← looks.detail, ← both, Prod.mk.injEq]
      by_cases label : last.label = p.label <;> by_cases tone : last.tone = p.tone <;>
        simp [label, tone, Bool.and_assoc, Bool.and_comm]
  rw [goesWith, ← merge, ← others, absorb]
  split_ifs with first second third <;> simp_all

/-- Where it is not completed, a stretch is drawn with the label and the tone of its first pill. -/
theorem caption_open (open_ : completion head rest = none) :
    caption head rest = (head.label, head.tone) := by
  rw [caption, open_]

theorem Looks.completed (looks : Looks last head rest answered) (fresh : p.hasResult = false)
    (own : completes head p = true)
    (open_ : completion head rest = none) (free : p.primary → answered = false)
    (stands : List Nat) :
    Looks (if p.primary then mergePills p last stands else mergePills last p stands) head
      (rest ++ [p]) answered := by
  have found : completion head (rest ++ [p]) = some p := by
    rw [completion_append, open_, if_pos own, Option.none_or]
  have keys : p.merge ≠ "" ∧ head.merge = p.merge := by
    simp only [completes, Bool.and_eq_true, decide_eq_true_eq] at own
    exact own.1
  have keyed : head.merge ≠ "" := keys.2 ▸ keys.1
  have kept := looks.whole keyed open_
  -- A primary pill takes the label and tone, any other only adds its detail.
  by_cases primary : p.primary = true
  · have none_ := free primary
    have both := (looks.title none_).trans (caption_open open_)
    have tone : last.tone = head.tone := congrArg Prod.snd both
    rw [if_pos primary]
    constructor
    · exact keys.2.symm
    · rw [found]
      rfl
    · intro other
      rw [found] at other
      cases other
    · exact fresh.trans none_.symm
    · intro _
      simp only [caption, found, primary, if_true, mergePills, tone]
    · simp only [details, found, primary, if_true, mergePills, kept]
    · intro _ other
      rw [found] at other
      cases other
  · rw [if_neg primary]
    constructor
    · exact looks.merge
    · rw [found]
      rfl
    · intro other
      rw [found] at other
      cases other
    · exact looks.result
    · intro none_
      have both := (looks.title none_).trans (caption_open open_)
      obtain ⟨label, tone⟩ := Prod.mk.inj both
      simp only [caption, found, primary, if_false, mergePills, label, tone, Bool.false_eq_true]
    · simp only [details, found, primary, if_false, mergePills, Bool.false_eq_true]
    · intro _ other
      rw [found] at other
      cases other

/-- A pill that does not complete a stretch leaves its completion. -/
theorem completion_kept (apart : completion head rest = none → completes head p = false) :
    completion head (rest ++ [p]) = completion head rest := by
  rw [completion_append]
  cases found : completion head rest with
  | none => rw [apart found]; rfl
  | some other => rfl

/-- A pill that a stretch takes in without being completed adds its detail alone. -/
theorem Looks.extended (looks : Looks last head rest answered)
    (apart : completion head rest = none → completes head p = false)
    (same : ∀ other, completion head rest = some other → p.detail = "") (bare : head.merge ≠ "" →
    p.detail = "")
    (label : q.label = last.label) (tone : q.tone = last.tone)
    (detail : q.detail = joined last.detail p.detail)
    (merge : q.merge = last.merge) (primary : q.primary = last.primary)
    (merged : q.merged = last.merged)
    (result : q.hasResult = last.hasResult) : Looks q head (rest ++ [p]) answered := by
  have found := completion_kept apart
  constructor
  · exact merge.trans looks.merge
  · rw [found, merged, looks.merged]
  · intro open_
    rw [found] at open_
    exact primary.trans (looks.primary open_)
  · exact result.trans looks.result
  · intro none_
    rw [label, tone, looks.title none_, caption, caption, found]
  · rw [detail, looks.detail, details, details, found]
    cases own : completion head rest with
    | none => rw [List.foldl_append]; rfl
    | some other =>
      rw [same other own]
      rfl
  · intro keyed open_
    rw [found] at open_
    rw [detail, bare keyed]
    exact looks.whole keyed open_

/-- A pill that is taken in shows the longer stretch. -/
theorem Looks.taken (looks : Looks last head rest answered) (fresh : p.hasResult = false)
    (taken : absorb last p = some q)
    (free : p.primary → answered = false) : Looks q head (rest ++ [p]) answered := by
  rw [absorb] at taken
  split_ifs at taken with merge primary join fold
  · obtain rfl := Option.some.inj taken
    obtain ⟨own, open_⟩ := looks.merges_iff.mp merge
    have completed := looks.completed fresh own open_ free (last.stands ++ p.stands)
    rwa [if_pos primary] at completed
  · obtain rfl := Option.some.inj taken
    obtain ⟨own, open_⟩ := looks.merges_iff.mp merge
    have completed := looks.completed fresh own open_ free (last.stands ++ p.stands)
    rwa [if_neg primary] at completed
  · obtain rfl := Option.some.inj taken
    simp only [joins, Bool.and_eq_true, decide_eq_true_eq, looks.merge] at join
    obtain ⟨⟨-, noKey⟩, noKey'⟩ := join
    have open_ : completion head rest = none := by
      refine List.find?_eq_none.mpr fun other _ => ?_
      simp only [completes, noKey, Bool.and_eq_true, decide_eq_true_eq]
      rintro ⟨⟨keyed, same⟩, -⟩
      exact keyed same.symm
    refine looks.extended (fun _ => by simp [completes, noKey']) (fun other found => ?_)
      (fun keyed => absurd noKey keyed)
      rfl rfl rfl rfl rfl rfl rfl
    rw [open_] at found
    cases found
  · obtain rfl := Option.some.inj taken
    have apart : completion head rest = none → completes head p = false := by
      intro open_
      by_contra own
      exact merge (looks.merges_iff.mpr ⟨by simpa using own, open_⟩)
    have bare : p.detail = "" := by
      simp only [folds, ConvPill.expandable, Bool.and_eq_true, Bool.not_eq_true',
        Bool.or_eq_false_iff, decide_eq_false_iff_not,
        not_not] at fold
      exact fold.1.1.1.1
    refine looks.extended apart (fun _ _ => bare) (fun _ => bare) rfl rfl ?_ rfl rfl rfl rfl
    rw [bare]
    rfl

/-- A pill with a result shows its stretch still. -/
theorem Looks.attached (looks : Looks last head rest answered) (i : Nat) (b : DisplayBlock) :
    Looks (attach i b last) head rest true where
  merge := looks.merge
  merged := looks.merged
  primary := looks.primary
  result := rfl
  title := fun none_ => by cases none_
  detail := looks.detail
  whole := looks.whole

/-- A message takes away just the pill of a stretch that it may take away. -/
theorem Looks.superseded_iff (looks : Looks last head rest answered) (merge : String) :
    superseded merge last = takesAway merge (head :: rest) := by
  rw [superseded, takesAway, looks.merge, looks.merged]
  cases found : completion head rest with
  | none => rw [looks.primary found]; rfl
  | some other => simp

end

end AiConfig.Sesh.Surface.Compact
