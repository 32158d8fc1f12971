import AiConfig.Sesh.Surface.Compact

/-! # The results and messages of a compact view

Which steps of a window keep every result in its place: a result that finds its call's pill without
another's result, one without a call that gets a pill of its own, and no pill with a result or of a
result's own that is taken away or taken into another. -/

namespace AiConfig.Sesh.Surface.Compact

open AiConfig.Lib

/-! ## The pills and messages of rows -/

def rowPills : ConvRow → List ConvPill
  | .run pills => pills
  | _ => []

def pills (rows : List ConvRow) : List ConvPill := rows.flatMap rowPills

def rowMessage : ConvRow → Option Message
  | .message message => some message
  | _ => none

def messages (rows : List ConvRow) : List Message := rows.filterMap rowMessage

def lastPill (rows : List ConvRow) : Option ConvPill := (openRun rows).2.getLast?

@[simp] theorem pills_append (rows more : List ConvRow) :
    pills (rows ++ more) = pills rows ++ pills more := List.flatMap_append

@[simp] theorem messages_append (rows more : List ConvRow) :
    messages (rows ++ more) = messages rows ++ messages more :=
  List.filterMap_append

@[simp] theorem pills_run (list : List ConvPill) : pills [.run list] = list := by
  simp [pills, rowPills]

@[simp] theorem messages_run (list : List ConvPill) : messages [.run list] = [] := rfl

theorem openRun_spec (rows : List ConvRow) :
    pills rows = pills (openRun rows).1 ++ (openRun rows).2 ∧
      messages rows = messages (openRun rows).1 := by
  rw [openRun]
  split
  · next list last =>
    have whole := List.dropLast_append_getLast? _ last
    constructor
    · conv_lhs => rw [← whole]
      simp
    · conv_lhs => rw [← whole]
      simp
  · simp

theorem getLast_split {α : Type} {list : List α} {last : α} (found : list.getLast? = some last) :
    list = list.dropLast ++ [last] :=
  (List.dropLast_append_getLast? _ found).symm

theorem addPill_absorbed {rows : List ConvRow} {last p q : ConvPill}
    (found : lastPill rows = some last) (taken : absorb last p = some q) :
    ∃ before, pills rows = before ++ [last] ∧ pills (addPill rows p).1 = before ++ [q] := by
  have open_ := (openRun_spec rows).1
  refine ⟨pills (openRun rows).1 ++ (openRun rows).2.dropLast, ?_, ?_⟩
  · rw [open_, List.append_assoc, ← getLast_split found]
  · have into : (openRun rows).2.getLast?.bind (absorb · p) = some q := by
      rw [lastPill] at found
      rw [found]
      exact taken
    simp [addPill, into]

theorem addPill_pushed {rows : List ConvRow} {p : ConvPill}
    (apart : (lastPill rows).bind (absorb · p) = none) :
    pills (addPill rows p).1 = pills rows ++ [{ p with count := 1 }] := by
  have into : (openRun rows).2.getLast?.bind (absorb · p) = none := apart
  simp [addPill, into, (openRun_spec rows).1]

theorem messages_addPill (rows : List ConvRow) (p : ConvPill) :
    messages (addPill rows p).1 = messages rows := by
  rw [addPill, (openRun_spec rows).2]
  dsimp only
  split <;> simp

theorem supersede_taken {merge : String} {rows : List ConvRow} {last : ConvPill}
    (found : lastPill rows = some last)
    (taken : superseded merge last = true) :
    pills rows = pills (supersede merge rows) ++ [last] := by
  have open_ := (openRun_spec rows).1
  have own : (openRun rows).2.getLast? = some last := found
  rw [supersede]
  simp only [own, taken, if_true]
  rw [open_]
  conv_lhs => rw [getLast_split own, ← List.append_assoc]
  split_ifs with alone
  · rw [alone, List.append_nil]
  · simp

theorem supersede_kept {merge : String} {rows : List ConvRow}
    (kept : ∀ last, lastPill rows = some last → superseded merge last = false) :
    supersede merge rows = rows := by
  rw [supersede]
  dsimp only
  split
  · next last found => simp [kept last found]
  · rfl

theorem messages_supersede (merge : String) (rows : List ConvRow) :
    messages (supersede merge rows) = messages rows := by
  rw [supersede]
  dsimp only
  split
  · split_ifs
    · exact (openRun_spec rows).2.symm
    · simp [(openRun_spec rows).2]
    · rfl
  · rfl

theorem setPill_spec {rows : List ConvRow} {ref : PillRef} {pill : ConvPill}
    (found : pillAt rows ref = some pill) (q : ConvPill) :
    messages (setPill rows ref q) = messages rows ∧
      ∃ before after, pills rows = before ++ pill :: after ∧
        pills (setPill rows ref q) = before ++ q :: after := by
  rw [pillAt] at found
  split at found
  · next list row =>
    obtain ⟨inside, here⟩ := List.getElem?_eq_some_iff.mp row
    obtain ⟨inside', here'⟩ := List.getElem?_eq_some_iff.mp found
    have rows_ : rows = rows.take ref.row ++ .run list :: rows.drop (ref.row + 1) := by
      rw [← here, ← List.drop_eq_getElem_cons inside, List.take_append_drop]
    have list_ : list = list.take ref.pill ++ pill :: list.drop (ref.pill + 1) := by
      rw [← here', ← List.drop_eq_getElem_cons inside', List.take_append_drop]
    have set_ : setPill rows ref q = rows.take ref.row ++
        .run (list.set ref.pill q) :: rows.drop (ref.row + 1) := by
      rw [setPill, row]
      exact List.set_eq_take_append_cons_drop.trans (if_pos inside)
    have pillSet : list.set ref.pill q = list.take ref.pill ++ q :: list.drop (ref.pill + 1) :=
      List.set_eq_take_append_cons_drop.trans (if_pos inside')
    constructor
    · rw [set_]
      conv_rhs => rw [rows_]
      simp [messages, rowMessage, List.filterMap_cons]
    · refine ⟨pills (rows.take ref.row) ++ list.take ref.pill, list.drop (ref.pill + 1) ++
        pills (rows.drop (ref.row + 1)), ?_, ?_⟩
      · conv_lhs => rw [rows_]
        conv_lhs => rw [list_]
        simp [pills, rowPills]
      · rw [set_, pillSet]
        simp [pills, rowPills]
  · cases found

/-! ## What is to be kept -/

def isCall (id : String) : Step → Bool
  | .block b => b.kind = "tool_use" ∧ b.toolID = id
  | _ => false

/-- The last call with an id among the steps of a window. -/
def callOf (steps : List Step) (id : String) : Option Nat :=
  (steps.zipIdx.filter fun numbered => isCall id numbered.1).getLast?.map Prod.snd

/-- The call of a result, if it came before it. -/
def ownCall (steps : List Step) (b : DisplayBlock) : Option Nat :=
  if b.toolID ≠ "" then callOf steps b.toolID else none

def concerns (k : Nat) (pill : ConvPill) : Bool := pill.shows = some k || k ∈ pill.stands

/-- The result of step `k` is shown by one pill: as the result of the pill that stands for its call,
or as a pill of its own. -/
def Shown (list : List ConvPill) (k : Nat) (b : DisplayBlock) : Option Nat → Prop
  | some call => ∃ pill, list.filter (concerns k) = [pill] ∧ pill.shows = some k ∧
      call ∈ pill.stands ∧
      pill.hasResult = true ∧ (pill.result, pill.resultTruncated) = compactText b
  | none => ∃ pill, list.filter (concerns k) = [pill] ∧ pill.stands = [k] ∧
      (pill.detail, pill.detailTruncated) = compactText b

def ResultsShown (steps : List Step) (rows : List ConvRow) : Prop :=
  ∀ k b, steps[k]? = some (.block b) → b.kind = "tool_result" →
    Shown (pills rows) k b (ownCall (steps.take k) b)

def stepMessage : Step → Option Message
  | .message _ row => some row
  | _ => none

/-- The pill is a result's own: one without a call. -/
def Owned (steps : List Step) (pill : ConvPill) : Prop :=
  ∃ k b, pill.stands = [k] ∧ steps[k]? = some (.block b) ∧ b.kind = "tool_result" ∧
    ownCall (steps.take k) b = none

/-- The last pill may take a new one in: it is not a result's own, and it does not give way to a
primary one with a result in it. -/
def MayTake (steps : List Step) (rows : List ConvRow) (p : ConvPill) : Prop :=
  ∀ last, lastPill rows = some last → (absorb last p).isSome → ¬Owned steps last ∧
    (merges last p → p.primary → last.shows = none)

/-- A step that keeps the results shown. -/
def Careful (steps : List Step) (s : State) : Step → Prop
  | .note label tone detail => MayTake steps s.rows (notePill label tone detail)
  | .divider _ _ => True
  | .message merge _ => ∀ last, lastPill s.rows = some last → superseded merge last →
      ¬Owned steps last ∧ last.shows = none
  | .block b =>
    match remembered s.calls b with
    | some ref => ∃ pill, pillAt s.rows ref = some pill ∧ ref.call ∈ pill.stands ∧ pill.shows = none
    | none => MayTake steps s.rows (blockPill b) ∧
        (b.kind = "tool_result" → (lastPill s.rows).bind (absorb · (blockPill b)) = none)

def CarefulRun : List Step → State → List Step → Prop
  | _, _, [] => True
  | before, s, one :: rest => Careful before s one ∧ ∀ s', step before.length s one = some s' →
      CarefulRun (before ++ [one]) s' rest

/-! ## The pills of a run -/

/-- What holds of the pills after some steps, whatever they were. -/
structure Pills (steps : List Step) (list : List ConvPill) : Prop where
  stands : ∀ pill ∈ list, pill.stands ≠ [] ∧ ∀ k ∈ pill.stands, k < steps.length
  shows : ∀ pill ∈ list, ∀ k, pill.shows = some k → k < steps.length ∧
    (∃ b call, steps[k]? = some (.block b) ∧ b.kind = "tool_result" ∧
    ownCall (steps.take k) b = some call ∧ pill.hasResult = true ∧
      (pill.result, pill.resultTruncated) = compactText b)
  details : ∀ pill ∈ list, ∀ k b, pill.stands = [k] → steps[k]? = some (.block b) →
    (pill.detail, pill.detailTruncated) = compactText b
  single : ∀ k, (list.filter (concerns k)).length ≤ 1

/-- The result of a step is in its place. -/
def Kept (list : List ConvPill) (k : Nat) : Option Nat → Prop
  | some call => ∃ pill ∈ list, pill.shows = some k ∧ call ∈ pill.stands
  | none => ∃ pill ∈ list, pill.stands = [k]

theorem filter_eq_singleton {α : Type} {p : α → Bool} {list : List α} {a : α}
    (few : (list.filter p).length ≤ 1) (on : a ∈ list)
    (own : p a = true) : list.filter p = [a] := by
  have inside : a ∈ list.filter p := List.mem_filter.mpr ⟨on, own⟩
  cases found : list.filter p with
  | nil =>
    rw [found] at inside
    cases inside
  | cons b rest =>
    rw [found] at few inside
    obtain rfl : rest = [] := List.length_eq_zero_iff.mp (by simpa using few)
    rw [List.mem_singleton.mp inside]

theorem Pills.shown_iff {steps : List Step} {list : List ConvPill} (pills : Pills steps list)
    {k : Nat} {b : DisplayBlock}
    (at_ : steps[k]? = some (.block b)) {call : Option Nat} :
    Shown list k b call ↔ Kept list k call := by
  cases call with
  | some call =>
    constructor
    · intro ⟨pill, only, shows, stands, _⟩
      have on : pill ∈ list.filter (concerns k) := only ▸ List.mem_singleton_self pill
      exact ⟨pill, (List.mem_filter.mp on).1, shows, stands⟩
    · intro ⟨pill, on, shows, stands⟩
      obtain ⟨-, b', _, at', -, -, hasResult, result⟩ := pills.shows pill on k shows
      rw [at_] at at'
      obtain rfl := Step.block.inj (Option.some.inj at')
      exact ⟨pill, filter_eq_singleton (pills.single k) on (by simp [concerns, shows]), shows,
        stands, hasResult, result⟩
  | none =>
    constructor
    · intro ⟨pill, only, stands, _⟩
      have on : pill ∈ list.filter (concerns k) := only ▸ List.mem_singleton_self pill
      exact ⟨pill, (List.mem_filter.mp on).1, stands⟩
    · intro ⟨pill, on, stands⟩
      exact ⟨pill, filter_eq_singleton (pills.single k) on (by simp [concerns, stands]), stands,
        pills.details pill on k b stands at_⟩

/-- No other pill concerns a step that one concerns. -/
theorem Pills.apart {steps : List Step} {before after : List ConvPill} {pill other : ConvPill}
    (pills : Pills steps (before ++ pill :: after)) (on : other ∈ before ∨ other ∈ after) {k : Nat}
    (own : concerns k pill = true) :
    concerns k other = false := by
  have single := pills.single k
  rw [List.filter_append, List.filter_cons_of_pos own, List.length_append,
    List.length_cons] at single
  by_contra both
  have own' : concerns k other = true := by simpa using both
  cases on with
  | inl on =>
    have some_ := List.length_pos_of_mem (List.mem_filter.mpr ⟨on, own'⟩)
    omega
  | inr on =>
    have some_ := List.length_pos_of_mem (List.mem_filter.mpr ⟨on, own'⟩)
    omega

/-! ## What a step does to the pills -/

theorem absorb_spec {last p q : ConvPill} (taken : absorb last p = some q) :
    q.stands = last.stands ++ p.stands ∧
      (merges last p = true ∧ p.primary = true ∧ q.shows = p.shows ∨
        ¬(merges last p = true ∧ p.primary = true) ∧ q.shows = last.shows ∧
          q.hasResult = last.hasResult ∧ q.result = last.result ∧
          q.resultTruncated = last.resultTruncated) := by
  simp only [absorb] at taken
  split_ifs at taken with merge primary context count
  · obtain rfl := Option.some.inj taken
    exact ⟨rfl, Or.inl ⟨merge, primary, rfl⟩⟩
  · obtain rfl := Option.some.inj taken
    exact ⟨rfl, Or.inr ⟨fun both => primary both.2, rfl, rfl, rfl, rfl⟩⟩
  · obtain rfl := Option.some.inj taken
    exact ⟨rfl, Or.inr ⟨fun both => merge both.1, rfl, rfl, rfl, rfl⟩⟩
  · obtain rfl := Option.some.inj taken
    exact ⟨rfl, Or.inr ⟨fun both => merge both.1, rfl, rfl, rfl, rfl⟩⟩

/-- Whether a pill is taken in does not turn on the steps that it stands for. -/
theorem absorb_stands (last p : ConvPill) (stands : List Nat) :
    absorb last { p with stands := stands } = (absorb last p).map fun q =>
      { q with stands := last.stands ++ stands } := by
  have merge : merges last { p with stands := stands } = merges last p := rfl
  have join : joins last { p with stands := stands } = joins last p := rfl
  have fold : folds last { p with stands := stands } = folds last p := rfl
  simp only [absorb, merge, join, fold]
  split_ifs <;> rfl

section

variable {steps : List Step} {list before : List ConvPill} {one : Step}

theorem getElem?_earlier {k : Nat} (earlier : k < steps.length) :
    (steps ++ [one])[k]? = steps[k]? ∧ (steps ++ [one]).take k = steps.take k :=
  ⟨List.getElem?_append_left earlier, List.take_append_of_le_length earlier.le⟩

theorem Pills.later (pills : Pills steps list) (one : Step) : Pills (steps ++ [one]) list where
  stands := by
    intro pill on
    obtain ⟨some_, bounds⟩ := pills.stands pill on
    refine ⟨some_, fun k inside => ?_⟩
    rw [List.length_append]
    exact Nat.lt_add_right _ (bounds k inside)
  shows := by
    intro pill on k own
    obtain ⟨earlier, b, call, at_, rest⟩ := pills.shows pill on k own
    have same := @getElem?_earlier steps one k earlier
    refine ⟨by rw [List.length_append]; exact Nat.lt_add_right _ earlier, b, call, ?_, ?_⟩
    · rw [same.1, at_]
    · rw [same.2]
      exact rest
  details := by
    intro pill on k b own at_
    have earlier := (pills.stands pill on).2 k (by simp [own])
    rw [(getElem?_earlier earlier).1] at at_
    exact pills.details pill on k b own at_
  single := pills.single

theorem Pills.not_concerned (pills : Pills steps list) {pill : ConvPill} (on : pill ∈ list) :
    concerns steps.length pill = false := by
  have stands := (pills.stands pill on).2
  have shows := pills.shows pill on
  by_contra own
  simp only [concerns, Bool.not_eq_false, Bool.or_eq_true, decide_eq_true_eq] at own
  cases own with
  | inl own => exact absurd (shows _ own).1 (Nat.lt_irrefl _)
  | inr own => exact absurd (stands _ own) (Nat.lt_irrefl _)

/-- A pill of the step itself is added. -/
theorem Pills.push (pills : Pills steps list) {p : ConvPill} (stands : p.stands = [steps.length])
    (shows : p.shows = none)
    (detail : ∀ b, one = .block b → (p.detail, p.detailTruncated) = compactText b) :
    Pills (steps ++ [one]) (list ++ [p]) where
  stands := by
    intro pill on
    cases List.mem_append.mp on with
    | inl on => exact (pills.later one).stands pill on
    | inr on =>
      rw [List.mem_singleton.mp on, stands]
      simp
  shows := by
    intro pill on k own
    cases List.mem_append.mp on with
    | inl on => exact (pills.later one).shows pill on k own
    | inr on =>
      rw [List.mem_singleton.mp on, shows] at own
      cases own
  details := by
    intro pill on k b own at_
    cases List.mem_append.mp on with
    | inl on => exact (pills.later one).details pill on k b own at_
    | inr on =>
      rw [List.mem_singleton.mp on] at own ⊢
      rw [stands] at own
      obtain rfl := (List.cons.inj own).1
      rw [List.getElem?_concat_length] at at_
      exact detail b (Option.some.inj at_)
  single := by
    intro k
    rw [List.filter_append, List.length_append]
    by_cases here : k = steps.length
    · have none : list.filter (concerns k) = [] := by
        refine List.filter_eq_nil_iff.mpr (fun pill on => ?_)
        rw [here, pills.not_concerned on]
        exact Bool.false_ne_true
      rw [none, List.length_nil, Nat.zero_add]
      exact List.length_filter_le _ _
    · have none : [p].filter (concerns k) = [] := by simp [concerns, stands, shows, here]
      rw [none]
      exact pills.single k

/-- The last pill takes in a pill of the step. -/
theorem Pills.absorbed {last p q : ConvPill} (pills : Pills steps (before ++ [last]))
    (taken : absorb last p = some q)
    (stands : p.stands = [steps.length]) (shows : p.shows = none) :
    Pills (steps ++ [one]) (before ++ [q]) := by
  obtain ⟨both, how⟩ := absorb_spec taken
  rw [stands] at both
  have lastOn : last ∈ before ++ [last] := List.mem_append_right _ (List.mem_singleton_self last)
  have lastStands := pills.stands last lastOn
  have within : ∀ pill ∈ before, pill ∈ before ++ [last] := fun pill on => List.mem_append_left _ on
  exact {
    stands := by
      intro pill on
      cases List.mem_append.mp on with
      | inl on => exact (pills.later one).stands pill (within pill on)
      | inr on =>
        rw [List.mem_singleton.mp on, both]
        refine ⟨by simp, fun k inside => ?_⟩
        rw [List.length_append, List.length_singleton]
        cases List.mem_append.mp inside with
        | inl inside => exact Nat.lt_add_right _ (lastStands.2 k inside)
        | inr inside =>
          rw [List.mem_singleton.mp inside]
          exact Nat.lt_succ_self _
    shows := by
      intro pill on k own
      cases List.mem_append.mp on with
      | inl on => exact (pills.later one).shows pill (within pill on) k own
      | inr on =>
        rw [List.mem_singleton.mp on] at own ⊢
        cases how with
        | inl replaced =>
          rw [replaced.2.2, shows] at own
          cases own
        | inr kept =>
          obtain ⟨-, sameShows, sameHas, sameResult, sameTruncated⟩ := kept
          rw [sameShows] at own
          rw [sameHas, sameResult, sameTruncated]
          exact (pills.later one).shows last lastOn k own
    details := by
      intro pill on k b own at_
      cases List.mem_append.mp on with
      | inl on => exact (pills.later one).details pill (within pill on) k b own at_
      | inr on =>
        rw [List.mem_singleton.mp on, both] at own
        have length := congrArg List.length own
        have some_ := List.length_pos_iff.mpr lastStands.1
        simp only [List.length_append, List.length_singleton] at length
        omega
    single := by
      intro k
      by_cases here : k = steps.length
      · have none : before.filter (concerns k) = [] := by
          refine List.filter_eq_nil_iff.mpr (fun pill on => ?_)
          rw [here, pills.not_concerned (within pill on)]
          exact Bool.false_ne_true
        rw [List.filter_append, none, List.nil_append]
        exact List.length_filter_le _ _
      -- The pill concerns what the last one did, and the step itself.
      · have less : ([q].filter (concerns k)).length ≤ ([last].filter (concerns k)).length := by
          have from_ : concerns k q = true → concerns k last = true := by
            simp only [concerns, both, Bool.or_eq_true, decide_eq_true_eq, List.mem_append,
              List.mem_singleton, here, or_false]
            intro either
            cases either with
            | inr inside => exact Or.inr inside
            | inl own =>
              cases how with
              | inl replaced =>
                rw [replaced.2.2, shows] at own
                cases own
              | inr kept => exact Or.inl (kept.2.1 ▸ own)
          by_cases own : concerns k q = true
          · simp [own, from_ own]
          · simp [own]
        have whole := pills.single k
        rw [List.filter_append, List.length_append] at whole ⊢
        omega }

/-- A notice is taken away. -/
theorem Pills.removed {last : ConvPill} (pills : Pills steps (before ++ [last])) :
    Pills (steps ++ [one]) before where
  stands := fun pill on => (pills.later one).stands pill (List.mem_append_left _ on)
  shows := fun pill on => (pills.later one).shows pill (List.mem_append_left _ on)
  details := fun pill on => (pills.later one).details pill (List.mem_append_left _ on)
  single := by
    intro k
    have whole := pills.single k
    rw [List.filter_append, List.length_append] at whole
    omega

/-- The result of the step is attached to a pill. -/
theorem Pills.attached {after : List ConvPill} {pill : ConvPill} {b : DisplayBlock} {call : Nat}
    (pills : Pills steps (before ++ pill :: after)) (kind : b.kind = "tool_result")
    (own : ownCall steps b = some call) :
    Pills (steps ++ [.block b]) (before ++ attach steps.length b pill :: after) := by
  have others : ∀ other, other ∈ before ++ attach steps.length b pill :: after →
      other = attach steps.length b pill ∨ other ∈ before ++ pill :: after := by
    intro other on
    simp only [List.mem_append, List.mem_cons] at on ⊢
    tauto
  have on : pill ∈ before ++ pill :: after := by simp
  exact {
    stands := by
      intro other inside
      cases others other inside with
      | inl same => exact same ▸ (pills.later (.block b)).stands pill on
      | inr inside => exact (pills.later (.block b)).stands other inside
    shows := by
      intro other inside k shows
      cases others other inside with
      | inl same =>
        rw [same] at shows ⊢
        obtain rfl : steps.length = k := Option.some.inj shows
        refine ⟨by simp, b, call, List.getElem?_concat_length, kind, ?_, rfl, rfl⟩
        rw [List.take_left']
        · exact own
        · rfl
      | inr inside => exact (pills.later (.block b)).shows other inside k shows
    details := by
      intro other inside k b' stands at_
      cases others other inside with
      | inl same =>
        rw [same] at stands ⊢
        exact (pills.later (.block b)).details pill on k b' stands at_
      | inr inside => exact (pills.later (.block b)).details other inside k b' stands at_
    single := by
      intro k
      by_cases here : k = steps.length
      · have none : ∀ other ∈ before ++ pill :: after, concerns k other = false := by
          intro other inside
          rw [here]
          exact pills.not_concerned inside
        have nothing : before.filter (concerns k) = [] ∧ after.filter (concerns k) = [] := by
          constructor
          · exact List.filter_eq_nil_iff.mpr
              fun other inside => by simp [none other (by simp [inside])]
          · exact List.filter_eq_nil_iff.mpr
              fun other inside => by simp [none other (by simp [inside])]
        rw [List.filter_append, List.filter_cons, nothing.1, nothing.2]
        split <;> simp
      · have from_ : concerns k (attach steps.length b pill) = true → concerns k pill = true := by
          intro either
          simp only [concerns, attach, Bool.or_eq_true, decide_eq_true_eq,
            Option.some.injEq] at either ⊢
          cases either with
          | inl shows => exact absurd shows.symm here
          | inr inside => exact Or.inr (of_decide_eq_true inside)
        have whole := pills.single k
        rw [List.filter_append, List.length_append, List.filter_cons] at whole ⊢
        by_cases own : concerns k (attach steps.length b pill) = true
        · rw [if_pos own, List.length_cons]
          rw [if_pos (from_ own), List.length_cons] at whole
          exact whole
        · rw [if_neg own]
          split at whole
          · rw [List.length_cons] at whole
            omega
          · exact whole }

end

/-! ## What a step keeps -/

section

variable {steps : List Step} {list before : List ConvPill} {k : Nat} {call : Option Nat}

theorem kept_push {p : ConvPill} (earlier : k < steps.length) (stands : p.stands = [steps.length])
    (shows : p.shows = none) :
    Kept (list ++ [p]) k call ↔ Kept list k call := by
  have apart : p.stands ≠ [k] := by
    rw [stands]
    intro same
    have := (List.cons.inj same).1
    omega
  cases call with
  | some call =>
    simp only [Kept, List.mem_append, List.mem_singleton]
    constructor
    · rintro ⟨pill, on, own⟩
      cases on with
      | inl on => exact ⟨pill, on, own⟩
      | inr on =>
        rw [on, shows] at own
        cases own.1
    · rintro ⟨pill, on, own⟩
      exact ⟨pill, Or.inl on, own⟩
  | none =>
    simp only [Kept, List.mem_append, List.mem_singleton]
    constructor
    · rintro ⟨pill, on, own⟩
      cases on with
      | inl on => exact ⟨pill, on, own⟩
      | inr on => exact absurd (on ▸ own) apart
    · rintro ⟨pill, on, own⟩
      exact ⟨pill, Or.inl on, own⟩

/-- Where the last pill takes one in, a result stays in its place if it was in the pill's. -/
theorem kept_absorbed {last p q : ConvPill} (pills : Pills steps (before ++ [last]))
    (calls : ∀ c, call = some c → c < steps.length) (taken : absorb last p = some q)
    (stands : p.stands = [steps.length])
    (shows : p.shows = none) :
    Kept (before ++ [q]) k call ↔ Kept (before ++ [last]) k call ∧
      (call = none → last.stands ≠ [k]) ∧
      (call ≠ none → last.shows = some k → q.shows = some k) := by
  obtain ⟨both, how⟩ := absorb_spec taken
  rw [stands] at both
  have some_ := (pills.stands last (by simp)).1
  have apart : q.stands ≠ [k] := by
    intro same
    have length := congrArg List.length (both.symm.trans same)
    have := List.length_pos_iff.mpr some_
    simp only [List.length_append, List.length_singleton] at length
    omega
  have others : ∀ other ∈ before, concerns k last = true → concerns k other = false :=
    fun other on own => pills.apart (Or.inl on) own
  cases call with
  | none =>
    simp only [Kept, List.mem_append, List.mem_singleton, ne_eq, not_true, false_implies, and_true,
      true_implies]
    constructor
    · rintro ⟨pill, on, own⟩
      cases on with
      | inr on => exact absurd (on ▸ own) apart
      | inl on =>
        refine ⟨⟨pill, Or.inl on, own⟩, fun lost => ?_⟩
        have alone := others pill on (by simp [concerns, lost])
        simp [concerns, own] at alone
    · rintro ⟨⟨pill, on, own⟩, kept⟩
      cases on with
      | inl on => exact ⟨pill, Or.inl on, own⟩
      | inr on => exact absurd (on ▸ own) kept
  | some c =>
    have earlierCall := calls c rfl
    have callIn : c ∈ q.stands ↔ c ∈ last.stands := by
      rw [both]
      simp only [List.mem_append, List.mem_singleton]
      constructor
      · intro either
        exact either.resolve_right (Nat.ne_of_lt earlierCall)
      · exact Or.inl
    have from_ : q.shows = some k → last.shows = some k := by
      intro own
      cases how with
      | inl replaced =>
        rw [replaced.2.2, shows] at own
        cases own
      | inr kept => exact kept.2.1 ▸ own
    simp only [Kept, List.mem_append, List.mem_singleton, reduceCtorEq, false_implies, true_and,
      ne_eq, not_false_iff, true_implies]
    constructor
    · rintro ⟨pill, on, own⟩
      cases on with
      | inr on =>
        rw [on] at own
        exact ⟨⟨last, Or.inr rfl, from_ own.1, callIn.mp own.2⟩, fun _ => own.1⟩
      | inl on =>
        refine ⟨⟨pill, Or.inl on, own⟩, fun lost => ?_⟩
        have alone := others pill on (by simp [concerns, lost])
        simp [concerns, own.1] at alone
    · rintro ⟨⟨pill, on, own⟩, kept⟩
      cases on with
      | inl on => exact ⟨pill, Or.inl on, own⟩
      | inr on =>
        rw [on] at own
        exact ⟨q, Or.inr rfl, kept own.1, callIn.mpr own.2⟩

theorem kept_removed {last : ConvPill} (pills : Pills steps (before ++ [last])) :
    Kept before k call ↔ Kept (before ++ [last]) k call ∧
      (call = none → last.stands ≠ [k]) ∧ (call ≠ none → last.shows ≠ some k) := by
  have others : ∀ other ∈ before, concerns k last = true → concerns k other = false :=
    fun other on own => pills.apart (Or.inl on) own
  cases call with
  | none =>
    simp only [Kept, List.mem_append, List.mem_singleton, ne_eq, not_true, false_implies, and_true,
      true_implies]
    constructor
    · rintro ⟨pill, on, own⟩
      refine ⟨⟨pill, Or.inl on, own⟩, fun lost => ?_⟩
      have alone := others pill on (by simp [concerns, lost])
      simp [concerns, own] at alone
    · rintro ⟨⟨pill, on, own⟩, kept⟩
      cases on with
      | inl on => exact ⟨pill, on, own⟩
      | inr on => exact absurd (on ▸ own) kept
  | some c =>
    simp only [Kept, List.mem_append, List.mem_singleton, reduceCtorEq, false_implies, true_and,
      ne_eq, not_false_iff, true_implies]
    constructor
    · rintro ⟨pill, on, own⟩
      refine ⟨⟨pill, Or.inl on, own⟩, fun lost => ?_⟩
      have alone := others pill on (by simp [concerns, lost])
      simp [concerns, own.1] at alone
    · rintro ⟨⟨pill, on, own⟩, kept⟩
      cases on with
      | inl on => exact ⟨pill, on, own⟩
      | inr on => exact absurd (on ▸ own.1) kept

/-- A result that is attached puts out of its place only one that the pill showed. -/
theorem kept_attached {after : List ConvPill} {pill : ConvPill} {b : DisplayBlock}
    (pills : Pills steps (before ++ pill :: after))
    (earlier : k < steps.length) :
    Kept (before ++ attach steps.length b pill :: after) k call ↔
      Kept (before ++ pill :: after) k call ∧ (call ≠ none → pill.shows ≠ some k) := by
  have apart : (attach steps.length b pill).shows ≠ some k := by
    intro same
    have := Option.some.inj same
    omega
  cases call with
  | none =>
    simp only [Kept, List.mem_append, List.mem_cons, ne_eq, not_true, false_implies, and_true]
    constructor
    · rintro ⟨other, on, own⟩
      obtain on | rfl | on := on
      · exact ⟨other, Or.inl on, own⟩
      · exact ⟨pill, Or.inr (Or.inl rfl), own⟩
      · exact ⟨other, Or.inr (Or.inr on), own⟩
    · rintro ⟨other, on, own⟩
      obtain on | rfl | on := on
      · exact ⟨other, Or.inl on, own⟩
      · exact ⟨attach steps.length b other, Or.inr (Or.inl rfl), own⟩
      · exact ⟨other, Or.inr (Or.inr on), own⟩
  | some c =>
    simp only [Kept, List.mem_append, List.mem_cons, reduceCtorEq, ne_eq, not_false_iff,
      true_implies]
    constructor
    · rintro ⟨other, on, own⟩
      have alone : pill.shows = some k → False := by
        intro lost
        obtain on | rfl | on := on
        · have none := pills.apart (Or.inl on) (k := k) (by simp [concerns, lost])
          simp [concerns, own.1] at none
        · exact apart own.1
        · have none := pills.apart (Or.inr on) (k := k) (by simp [concerns, lost])
          simp [concerns, own.1] at none
      refine ⟨?_, alone⟩
      obtain on | rfl | on := on
      · exact ⟨other, Or.inl on, own⟩
      · exact absurd own.1 apart
      · exact ⟨other, Or.inr (Or.inr on), own⟩
    · rintro ⟨⟨other, on, own⟩, kept⟩
      obtain on | rfl | on := on
      · exact ⟨other, Or.inl on, own⟩
      · exact absurd own.1 kept
      · exact ⟨other, Or.inr (Or.inr on), own⟩

end

/-! ## What a step keeps of all results -/

def ResultsKept (steps : List Step) (list : List ConvPill) : Prop :=
  ∀ k b, steps[k]? = some (.block b) → b.kind = "tool_result" →
    Kept list k (ownCall (steps.take k) b)

/-- What the rows and the calls of a window hold after some steps. -/
structure Inv (steps : List Step) (s : State) : Prop where
  pills : Pills steps (pills s.rows)
  calls : ∀ id, id ≠ "" → (s.calls.get id).map PillRef.call = callOf steps id
  messages : messages s.rows = steps.filterMap stepMessage

section

variable {steps : List Step} {list : List ConvPill} {one : Step} {rows : List ConvRow}

theorem callOf_append (steps : List Step) (one : Step) (id : String) :
    callOf (steps ++ [one]) id = if isCall id one then some steps.length else callOf steps id := by
  rw [callOf, List.zipIdx_append, List.filter_append]
  split
  · next call => simp [call]
  · next other => simp [other, callOf]

theorem callOf_lt {id : String} {call : Nat} (found : callOf steps id = some call) :
    call < steps.length := by
  obtain ⟨numbered, last, rfl⟩ := Option.map_eq_some_iff.mp found
  have on := List.mem_of_mem_filter (List.mem_of_getLast? last)
  simpa using (List.mem_zipIdx on).2.1

theorem ownCall_lt {b : DisplayBlock} {call : Nat} (found : ownCall steps b = some call) :
    call < steps.length := by
  rw [ownCall] at found
  split at found
  · exact callOf_lt found
  · cases found

theorem lt_of_getElem? {k : Nat} {other : Step} (at_ : steps[k]? = some other) : k < steps.length :=
  (List.getElem?_eq_some_iff.mp at_).1

theorem ownCall_take_lt {k c : Nat} {b : DisplayBlock} (found : ownCall (steps.take k) b = some c) :
    c < steps.length := by
  have short := ownCall_lt found
  rw [List.length_take] at short
  omega

theorem resultsShown_iff (pills_ : Pills steps (pills rows)) :
    ResultsShown steps rows ↔ ResultsKept steps (pills rows) := by
  constructor
  · intro shown k b at_ kind
    exact (pills_.shown_iff at_).mp (shown k b at_ kind)
  · intro kept k b at_ kind
    exact (pills_.shown_iff at_).mpr (kept k b at_ kind)

theorem resultsKept_append : ResultsKept (steps ++ [one]) list ↔
    ResultsKept steps list ∧ ∀ b, one = .block b → b.kind = "tool_result" →
      Kept list steps.length (ownCall steps b) := by
  constructor
  · intro kept
    constructor
    · intro k b at_ kind
      have same := @getElem?_earlier steps one k (lt_of_getElem? at_)
      have there := kept k b (same.1.trans at_) kind
      rwa [same.2] at there
    · intro b own kind
      have there := kept steps.length b (by rw [own]; exact List.getElem?_concat_length) kind
      rwa [List.take_left' rfl] at there
  · intro ⟨earlier, last⟩ k b at_ kind
    by_cases before : k < steps.length
    · have same := @getElem?_earlier steps one k before
      rw [same.2]
      rw [same.1] at at_
      exact earlier k b at_ kind
    · have inside := lt_of_getElem? at_
      rw [List.length_append, List.length_singleton] at inside
      obtain rfl : k = steps.length := by omega
      rw [List.getElem?_concat_length] at at_
      rw [List.take_left' rfl]
      exact last b (Option.some.inj at_) kind

theorem mayTake_stands {p : ConvPill} {stands : List Nat} :
    MayTake steps rows { p with stands := stands } ↔ MayTake steps rows p := by
  have same :
      ∀ last, (absorb last { p with stands := stands }).isSome = (absorb last p).isSome := by
    intro last
    rw [absorb_stands, Option.isSome_map]
  constructor
  · intro may last found taken
    exact may last found ((same last).trans taken)
  · intro may last found taken
    exact may last found ((same last).symm.trans taken)

/-- What a new pill of a step keeps, added to the rows. -/
theorem addPill_kept (pills_ : Pills steps (pills rows)) {p : ConvPill}
    (stands : p.stands = [steps.length]) (shows : p.shows = none)
    (detail : ∀ b, one = .block b → (p.detail, p.detailTruncated) = compactText b) :
    Pills (steps ++ [one]) (pills (addPill rows p).1) ∧
      (ResultsKept steps (pills (addPill rows p).1) ↔ ResultsKept steps (pills rows) ∧
      MayTake steps rows p) := by
  cases into : (lastPill rows).bind (absorb · p) with
  | none =>
    rw [addPill_pushed into]
    refine ⟨pills_.push stands shows detail, ?_⟩
    have may : MayTake steps rows p := by
      intro last found taken
      rw [found, Option.bind_some] at into
      rw [into] at taken
      cases taken
    constructor
    · intro kept
      refine ⟨fun k b at_ kind => ?_, may⟩
      exact (kept_push (p := { p with count := 1 }) (lt_of_getElem? at_) stands shows).mp
        (kept k b at_ kind)
    · intro ⟨kept, _⟩ k b at_ kind
      exact (kept_push (p := { p with count := 1 }) (lt_of_getElem? at_) stands shows).mpr
        (kept k b at_ kind)
  | some q =>
    obtain ⟨last, found, taken⟩ := Option.bind_eq_some_iff.mp into
    obtain ⟨before, old, new⟩ := addPill_absorbed found taken
    rw [old] at pills_ ⊢
    rw [new]
    obtain ⟨-, how⟩ := absorb_spec taken
    have each := fun k b (_ : steps[k]? = some (.block b)) =>
      @kept_absorbed steps before k (ownCall (steps.take k) b) last p q pills_
        (fun c => ownCall_take_lt) taken stands shows
    refine ⟨pills_.absorbed taken stands shows, ?_⟩
    constructor
    · intro kept
      refine ⟨fun k b at_ kind => ((each k b at_).mp (kept k b at_ kind)).1, fun last' found' _ =>
        ?_⟩
      rw [found] at found'
      obtain rfl := Option.some.inj found'
      constructor
      · intro ⟨k, b, own, at_, kind, alone⟩
        exact ((each k b at_).mp (kept k b at_ kind)).2.1 alone own
      · intro merge primary
        cases result : last.shows with
        | none => rfl
        | some k =>
          obtain ⟨-, b, call, at_, kind, own, -⟩ := pills_.shows last (by simp) k result
          have stays := ((each k b at_).mp (kept k b at_ kind)).2.2 (by simp [own]) result
          cases how with
          | inl replaced =>
            rw [replaced.2.2, shows] at stays
            cases stays
          | inr other => exact absurd ⟨merge, primary⟩ other.1
    · intro ⟨kept, may⟩ k b at_ kind
      obtain ⟨free, fine⟩ := may last found (by rw [taken]; rfl)
      refine (each k b at_).mpr ⟨kept k b at_ kind, fun alone own =>
        free ⟨k, b, own, at_, kind, alone⟩, fun _ result => ?_⟩
      cases how with
      | inl replaced =>
        rw [fine replaced.1 replaced.2.1] at result
        cases result
      | inr other => exact other.2.1.trans result

/-- What a message keeps that supersedes a notice. -/
theorem supersede_keeps (pills_ : Pills steps (pills rows)) (merge : String) :
    Pills (steps ++ [one]) (pills (supersede merge rows)) ∧
      (ResultsKept steps (pills (supersede merge rows)) ↔ ResultsKept steps (pills rows) ∧
        ∀ last, lastPill rows = some last → superseded merge last → ¬Owned steps last ∧
          last.shows = none) := by
  by_cases taken : ∃ last, lastPill rows = some last ∧ superseded merge last = true
  · obtain ⟨last, found, taken⟩ := taken
    have old := supersede_taken found taken
    rw [old] at pills_ ⊢
    have each := fun k b (_ : steps[k]? = some (.block b)) =>
      @kept_removed steps (pills (supersede merge rows)) k (ownCall (steps.take k) b) last pills_
    refine ⟨pills_.removed, ?_⟩
    constructor
    · intro kept
      refine ⟨fun k b at_ kind => ((each k b at_).mp (kept k b at_ kind)).1, fun last' found' _ =>
        ?_⟩
      rw [found] at found'
      obtain rfl := Option.some.inj found'
      constructor
      · intro ⟨k, b, own, at_, kind, alone⟩
        exact ((each k b at_).mp (kept k b at_ kind)).2.1 alone own
      · cases result : last.shows with
        | none => rfl
        | some k =>
          obtain ⟨-, b, call, at_, kind, own, -⟩ := pills_.shows last (by simp) k result
          exact absurd result (((each k b at_).mp (kept k b at_ kind)).2.2 (by simp [own]))
    · intro ⟨kept, may⟩ k b at_ kind
      obtain ⟨free, fine⟩ := may last found taken
      refine (each k b at_).mpr ⟨kept k b at_ kind, fun alone own =>
        free ⟨k, b, own, at_, kind, alone⟩, fun _ result => ?_⟩
      rw [fine] at result
      cases result
  · have kept : ∀ last, lastPill rows = some last → superseded merge last = false := by
      intro last found
      by_contra on
      exact taken ⟨last, found, by simpa using on⟩
    rw [supersede_kept kept]
    refine ⟨pills_.later one, ?_⟩
    constructor
    · intro all
      refine ⟨all, fun last found on => ?_⟩
      rw [kept last found] at on
      cases on
    · exact And.left

/-- A pill of the step is a result's own where it was taken into no other. -/
theorem kept_own (pills_ : Pills steps (pills rows)) {p : ConvPill}
    (stands : p.stands = [steps.length]) :
    Kept (pills (addPill rows p).1) steps.length none ↔
      (lastPill rows).bind (absorb · p) = none := by
  cases into : (lastPill rows).bind (absorb · p) with
  | none =>
    rw [addPill_pushed into]
    simp only [iff_true]
    exact ⟨_, List.mem_append_right _ (List.mem_singleton_self _), stands⟩
  | some q =>
    obtain ⟨last, found, taken⟩ := Option.bind_eq_some_iff.mp into
    obtain ⟨before, old, new⟩ := addPill_absorbed found taken
    rw [new]
    rw [old] at pills_
    simp only [reduceCtorEq, iff_false]
    intro ⟨pill, on, own⟩
    cases List.mem_append.mp on with
    | inl on =>
      have none := pills_.not_concerned (List.mem_append_left _ on)
      simp [concerns, own] at none
    | inr on =>
      rw [List.mem_singleton.mp on, (absorb_spec taken).1, stands] at own
      have some_ := List.length_pos_iff.mpr (pills_.stands last (by simp)).1
      have length := congrArg List.length own
      simp only [List.length_append, List.length_singleton] at length
      omega

/-- A result that finds its call's pill: what it keeps. -/
theorem attach_kept {b : DisplayBlock} {ref : PillRef} {pill : ConvPill}
    (pills_ : Pills steps (pills rows))
    (kind : b.kind = "tool_result") (own : ownCall steps b = some ref.call)
    (found : pillAt rows ref = some pill) :
    Pills (steps ++ [.block b]) (pills (setPill rows ref (attach steps.length b pill))) ∧
      (ResultsKept (steps ++ [.block b]) (pills (setPill rows ref (attach steps.length b pill))) ↔
        ResultsKept steps (pills rows) ∧ ref.call ∈ pill.stands ∧ pill.shows = none) := by
  obtain ⟨-, before, after, old, new⟩ := setPill_spec found (attach steps.length b pill)
  rw [old] at pills_ ⊢
  rw [new]
  refine ⟨pills_.attached kind own, ?_⟩
  have each := fun k c (at_ : steps[k]? = some (.block c)) =>
    @kept_attached steps before k (ownCall (steps.take k) c) after pill b pills_
      (lt_of_getElem? at_)
  have here : Kept (before ++ attach steps.length b pill :: after) steps.length (some ref.call) ↔
      ref.call ∈ pill.stands := by
    constructor
    · intro ⟨other, on, shows, stands⟩
      have others : other ∈ before ++ pill :: after → False := by
        intro inside
        have none := pills_.not_concerned inside
        simp [concerns, shows] at none
      simp only [List.mem_append, List.mem_cons] at on others
      obtain on | rfl | on := on
      · exact absurd (Or.inl on) others
      · exact stands
      · exact absurd (Or.inr (Or.inr on)) others
    · intro stands
      exact ⟨attach steps.length b pill, by simp, rfl, stands⟩
  rw [resultsKept_append]
  constructor
  · intro ⟨kept, last⟩
    have stands := last b rfl kind
    rw [own] at stands
    refine ⟨fun k c at_ is => ((each k c at_).mp (kept k c at_ is)).1, here.mp stands, ?_⟩
    cases result : pill.shows with
    | none => rfl
    | some k =>
      obtain ⟨-, c, call, at_, is, known, -⟩ := pills_.shows pill (by simp) k result
      exact absurd result (((each k c at_).mp (kept k c at_ is)).2 (by simp [known]))
  · intro ⟨kept, stands, free⟩
    refine ⟨fun k c at_ is => (each k c at_).mpr ⟨kept k c at_ is, by simp [free]⟩, fun c same is =>
      ?_⟩
    obtain rfl := Step.block.inj same
    rw [own]
    exact here.mpr stands

variable {s s' : State}

theorem Inv.remembered (inv : Inv steps s) {b : DisplayBlock} (kind : b.kind = "tool_result") :
    (Compact.remembered s.calls b).map PillRef.call = ownCall steps b := by
  rw [Compact.remembered, ownCall]
  by_cases named : b.toolID ≠ ""
  · rw [if_pos ⟨kind, named⟩, if_pos named, inv.calls b.toolID named]
  · rw [if_neg fun both => named both.2, if_neg named]
    rfl

/-- A step that is no call leaves the calls as they were. -/
theorem Inv.calls_later (inv : Inv steps s) (other : ∀ id, isCall id one = false) (id : String)
    (named : id ≠ "") :
    (s.calls.get id).map PillRef.call = callOf (steps ++ [one]) id := by
  rw [callOf_append, other id]
  exact inv.calls id named

/-- A step that is no block has no result to show. -/
theorem resultsKept_later (other : ∀ b, one ≠ .block b) :
    ResultsKept (steps ++ [one]) list ↔ ResultsKept steps list := by
  rw [resultsKept_append]
  exact ⟨And.left, fun kept => ⟨kept, fun b own => absurd own (other b)⟩⟩

/-- A block that is a call is found under its id from then on. -/
theorem Inv.calls_block (inv : Inv steps s) (b : DisplayBlock) (row pill : Nat) (id : String)
    (named : id ≠ "") :
    ((if b.kind = "tool_use" ∧ b.toolID ≠ "" then s.calls.set b.toolID ⟨row, pill, steps.length⟩
      else s.calls).get id).map PillRef.call = callOf (steps ++ [.block b]) id := by
  rw [callOf_append]
  by_cases call : b.kind = "tool_use" ∧ b.toolID ≠ ""
  · rw [if_pos call, Entries.get_set]
    by_cases same : b.toolID = id
    · rw [if_pos same, if_pos (by simp [isCall, call.1, same])]
      rfl
    · rw [if_neg same, if_neg (by simp [isCall, same])]
      exact inv.calls id named
  · have other : isCall id (.block b) = false := by
      simp only [isCall, decide_eq_false_iff_not]
      rintro ⟨kind, same⟩
      exact call ⟨kind, same ▸ named⟩
    rw [if_neg call, other]
    exact inv.calls id named

/-- The result of a call that is remembered goes to the pill that the call's place names. -/
theorem result_kept (inv : Inv steps s) {b : DisplayBlock} {ref : PillRef} {pill : ConvPill}
    (held : Compact.remembered s.calls b = some ref) (found : pillAt s.rows ref = some pill) :
    Inv (steps ++ [.block b])
        { s with rows := setPill s.rows ref (attach steps.length b pill) } ∧
      (ResultsKept (steps ++ [.block b])
          (pills (setPill s.rows ref (attach steps.length b pill))) ↔
        ResultsKept steps (pills s.rows) ∧ Careful steps s (.block b)) := by
  have kind : b.kind = "tool_result" := by
    rw [Compact.remembered] at held
    split at held
    · next both => exact both.1
    · cases held
  have own := inv.remembered kind
  rw [held] at own
  obtain ⟨pills_, kept⟩ := attach_kept inv.pills kind own.symm found
  refine ⟨⟨pills_, inv.calls_later fun id => by simp [isCall, kind], ?_⟩, ?_⟩
  · dsimp only
    rw [(setPill_spec found _).1, inv.messages]
    simp [stepMessage]
  · refine kept.trans (and_congr Iff.rfl ?_)
    simp only [Careful, held]
    constructor
    · intro both
      exact ⟨pill, found, both⟩
    · rintro ⟨pill', found', both⟩
      rw [found] at found'
      obtain rfl := Option.some.inj found'
      exact both

/-- Any other block makes a pill; a result without a call needs one of its own. -/
theorem block_kept (inv : Inv steps s) {b : DisplayBlock}
    (held : Compact.remembered s.calls b = none) :
    ResultsKept (steps ++ [.block b])
        (pills (addPill s.rows { blockPill b with stands := [steps.length] }).1) ↔
      ResultsKept steps (pills s.rows) ∧ Careful steps s (.block b) := by
  obtain ⟨-, kept⟩ := @addPill_kept steps (.block b) s.rows inv.pills
    { blockPill b with stands := [steps.length] } rfl rfl
    (fun c same => by rw [← Step.block.inj same]; rfl)
  have own : b.kind = "tool_result" → ownCall steps b = none := by
    intro kind
    rw [← inv.remembered kind, held]
    rfl
  have alone := @kept_own steps s.rows inv.pills { blockPill b with stands := [steps.length] } rfl
  -- Which steps a pill was made of does not decide whether it is taken in.
  have free :
      (lastPill s.rows).bind (absorb · { blockPill b with stands := [steps.length] }) = none ↔
        (lastPill s.rows).bind (absorb · (blockPill b)) = none := by
    cases lastPill s.rows with
    | none => simp
    | some last => simp [absorb_stands]
  rw [resultsKept_append, kept, and_assoc]
  refine and_congr Iff.rfl ?_
  simp only [Careful, held]
  refine and_congr mayTake_stands ?_
  rw [← free, ← alone]
  constructor
  · intro last kind
    have there := last b rfl kind
    rwa [own kind] at there
  · intro last c same kind
    obtain rfl := Step.block.inj same
    rw [own kind]
    exact last kind

/-- A step that runs keeps what its state says, and every result in its place just if it is careful.
-/
theorem step_kept (inv : Inv steps s) (ran : step steps.length s one = some s') :
    Inv (steps ++ [one]) s' ∧
      (ResultsKept (steps ++ [one]) (pills s'.rows) ↔ ResultsKept steps (pills s.rows) ∧
      Careful steps s one) := by
  cases one with
  | note label tone detail =>
    obtain rfl := Option.some.inj ran
    obtain ⟨pills_, kept⟩ := @addPill_kept steps (.note label tone detail) s.rows inv.pills
      { notePill label tone detail with stands := [steps.length] } rfl rfl
        (fun b other => by cases other)
    refine ⟨⟨pills_, inv.calls_later fun _ => rfl, ?_⟩, ?_⟩
    · dsimp only
      rw [messages_addPill, inv.messages]
      simp [stepMessage]
    · rw [resultsKept_later fun b other => by cases other]
      exact kept.trans (and_congr Iff.rfl mayTake_stands)
  | divider text timestamp =>
    obtain rfl := Option.some.inj ran
    have same : pills (s.rows ++ [.divider text timestamp]) = pills s.rows := by
      simp [pills, rowPills]
    refine ⟨⟨?_, inv.calls_later fun _ => rfl, ?_⟩, ?_⟩
    · dsimp only
      rw [same]
      exact inv.pills.later _
    · dsimp only
      rw [messages_append, inv.messages, List.filterMap_append]
      rfl
    · rw [resultsKept_later fun b other => by cases other]
      dsimp only
      rw [same]
      exact (and_iff_left trivial).symm
  | message merge row =>
    obtain rfl := Option.some.inj ran
    have same : pills (supersede merge s.rows ++ [.message row]) =
      pills (supersede merge s.rows) := by simp [pills, rowPills]
    obtain ⟨pills_, kept⟩ := @supersede_keeps steps (.message merge row) s.rows inv.pills merge
    refine ⟨⟨?_, inv.calls_later fun _ => rfl, ?_⟩, ?_⟩
    · dsimp only
      rw [same]
      exact pills_
    · dsimp only
      rw [messages_append, messages_supersede, inv.messages]
      simp [messages, rowMessage, stepMessage]
    · rw [resultsKept_later fun b other => by cases other]
      dsimp only
      rw [same]
      exact kept
  | block b =>
    rw [step] at ran
    cases held : Compact.remembered s.calls b with
    | some ref =>
      rw [held] at ran
      obtain ⟨pill, found, rfl⟩ := Option.map_eq_some_iff.mp ran
      exact result_kept inv held found
    | none =>
      rw [held] at ran
      obtain rfl := Option.some.inj ran
      obtain ⟨pills_, -⟩ := @addPill_kept steps (.block b) s.rows inv.pills
        { blockPill b with stands := [steps.length] } rfl rfl
        (fun c same => by rw [← Step.block.inj same]; rfl)
      refine ⟨⟨pills_, inv.calls_block b _ _, ?_⟩, block_kept inv held⟩
      dsimp only
      rw [messages_addPill, inv.messages]
      simp [stepMessage]

/-- A careful step runs. -/
theorem step_careful (careful : Careful steps s one) : ∃ s', step steps.length s one = some s' := by
  cases one with
  | note _ _ _ => exact ⟨_, rfl⟩
  | divider _ _ => exact ⟨_, rfl⟩
  | message _ _ => exact ⟨_, rfl⟩
  | block b =>
    cases held : Compact.remembered s.calls b with
    | none => exact ⟨_, by rw [step, held]⟩
    | some ref =>
      simp only [Careful, held] at careful
      obtain ⟨pill, found, -⟩ := careful
      exact ⟨{ s with rows := setPill s.rows ref (attach steps.length b pill) }, by simp only [step,
        held, found, Option.map_some]⟩

/-- A run ends with every result in its place just if it starts so and every step of it is careful.
-/
theorem run_kept (more : List Step) (inv : Inv steps s) :
    (∃ s', run steps.length s more = some s' ∧ ResultsShown (steps ++ more) s'.rows ∧
    messages s'.rows = (steps ++ more).filterMap stepMessage) ↔
      ResultsKept steps (pills s.rows) ∧ CarefulRun steps s more := by
  induction more generalizing steps s with
  | nil =>
    simp only [run, CarefulRun, List.append_nil, Option.some.injEq, exists_eq_left', and_true,
      inv.messages,
      resultsShown_iff inv.pills]
  | cons one more inductionHypothesis =>
    rw [run, CarefulRun]
    cases ran : step steps.length s one with
    | none =>
      simp only [Option.bind_none, reduceCtorEq, false_and, exists_false, false_iff]
      rintro ⟨_, careful, _⟩
      obtain ⟨s', ran'⟩ := step_careful careful
      rw [ran] at ran'
      cases ran'
    | some s' =>
      obtain ⟨inv', kept⟩ := step_kept inv ran
      have later := inductionHypothesis inv'
      rw [List.length_append, List.length_singleton, List.append_assoc, List.singleton_append,
        kept] at later
      rw [Option.bind_some, later, and_assoc]
      refine and_congr Iff.rfl (and_congr Iff.rfl ?_)
      constructor
      · intro rest other same
        obtain rfl := Option.some.inj same
        exact rest
      · intro rest
        exact rest s' rfl

theorem Inv.empty : Inv [] State.empty where
  pills := by
    show Pills [] []
    constructor
    · intro pill on
      cases on
    · intro pill on
      cases on
    · intro pill on
      cases on
    · intro k
      simp
  calls := fun id _ => by simp [State.empty, callOf]
  messages := rfl

end

/-- The compact view of a window ends without a reference to what is gone, with every result shown
in its
place and every message in order, just if every step of it is careful. -/
theorem compactRows_careful (splitFencing : String → List (String × String × String) × String)
    (trimSpace : String → String)
    (fmtSize : Int → String) (entries : List DisplayEntry) :
    (∃ rows, compactRows splitFencing trimSpace fmtSize entries = some rows ∧
        ResultsShown (entries.flatMap (entrySteps splitFencing trimSpace fmtSize)) rows ∧
        messages rows = (entries.flatMap (entrySteps splitFencing trimSpace fmtSize)).filterMap
          stepMessage) ↔
      CarefulRun [] State.empty (entries.flatMap (entrySteps splitFencing trimSpace fmtSize)) := by
  have whole := run_kept (entries.flatMap (entrySteps splitFencing trimSpace fmtSize)) Inv.empty
  have nothing : ResultsKept [] (pills State.empty.rows) := fun k b at_ => by cases at_
  rw [and_iff_right nothing] at whole
  rw [← whole]
  constructor
  · intro ⟨rows, drawn, shown, order⟩
    obtain ⟨s, ran, rfl⟩ := Option.map_eq_some_iff.mp drawn
    exact ⟨s, ran, shown, order⟩
  · intro ⟨s, ran, shown, order⟩
    exact ⟨s.rows, Option.map_eq_some_iff.mpr ⟨s, ran, rfl⟩, shown, order⟩

end AiConfig.Sesh.Surface.Compact
