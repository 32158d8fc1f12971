import AiConfig.Sesh.Surface.Places
import AiConfig.Sesh.Surface.Stretches

/-! # What a compact view shows

* `Drawn` — the rows after some steps show the stretches of these steps, and no others.
* `Mirrors.careful_iff` — a step keeps the results of its state in their places just if it is
  harmless.
* `compactRows_shown` — the view loses nothing just if every step of the window is harmless. -/

namespace AiConfig.Sesh.Surface.Compact

open AiConfig.Lib

/-! ## What is drawn after some steps -/

/-- The pills of rows show the stretches of the first steps of a window. -/
structure Drawn (steps : List Step) (n : Nat) (rows : List ConvRow) : Prop where
  stands : ∀ pill ∈ pills rows, ∃ a, pill.stands = members steps a n ∧
    (pill.shows = none ↔ ¬Answered steps a n)
  there : ∀ c a, c < n → (face steps c).isSome → start steps (c + 1) = some a →
    ((∃ pill ∈ pills rows, c ∈ pill.stands) ↔ ¬Superseded steps a n)
  closed : start steps n = none → lastPill rows = none
  opened : ∀ a, start steps n = some a → ∃ last head rest, lastPill rows = some last ∧
    last.stands = members steps a n ∧
    faces steps a n = head :: rest ∧ Looks last head rest (answered steps a n)

/-- A place finds the pill of its call wherever the call is drawn. -/
def Finds (rows : List ConvRow) (ref : PillRef) : Prop :=
  ∀ pill ∈ pills rows, ref.call ∈ pill.stands → pillAt rows ref = some pill

section

variable {steps : List Step} {a c n : Nat} {p last pill : ConvPill} {rows : List ConvRow}
  {ref : PillRef} {before : List ConvPill}

theorem face_fresh (made : face steps n = some p) : p.hasResult = false ∧ p.merged = false ∧
    p.shows = none := by
  unfold face at made
  split at made
  · obtain rfl := Option.some.inj made
    exact ⟨rfl, rfl, rfl⟩
  · split at made
    · cases made
    · obtain rfl := Option.some.inj made
      exact ⟨rfl, rfl, rfl⟩
  · cases made

theorem answer_of_face (made : face steps n = some p) : answer steps n = none := by
  cases own : answer steps n with
  | none => rfl
  | some c =>
    unfold face at made
    split at made
    · next here => simp [answer, here] at own
    · simp [own] at made
    · cases made

theorem not_message_of_face (made : face steps n = some p) (merge : String) (row : Message) :
    steps[n]? ≠ some (.message merge row) := by
  intro here
  rw [face, here] at made
  cases made

theorem superseded_later (other : ∀ merge row, steps[n]? ≠ some (.message merge row)) :
    Superseded steps a (n + 1) ↔ Superseded steps a n := by
  rw [superseded_succ_iff]
  refine or_iff_left ?_
  rintro ⟨merge, row, here, -⟩
  exact other merge row here

theorem answered_later (none_ : answer steps n = none) :
    Answered steps a (n + 1) ↔ Answered steps a n := by
  rw [answered_succ_iff, none_]
  simp

/-- No pill before the last one stands for a step that the last one stands for. -/
theorem apart_of_last (pills_ : Pills (steps.take n) (before ++ [last])) {other : ConvPill}
    (on : other ∈ before) (own : c ∈ last.stands) :
    c ∉ other.stands := by
  have alone := pills_.apart (Or.inl on) (k := c) (by simp [concerns, own])
  intro both
  simp [concerns, both] at alone

theorem Drawn.lastOn (found : lastPill rows = some last) : last ∈ pills rows := by
  rw [(openRun_spec rows).1]
  exact List.mem_append_right _ (List.mem_of_getLast? found)

/-- A pill that stands for a step stands for its stretch. -/
theorem Drawn.stretch (drawn : Drawn steps n rows) (on : pill ∈ pills rows) (own : c ∈ pill.stands)
    (of : start steps (c + 1) = some a) :
    pill.stands = members steps a n ∧ (pill.shows = none ↔ ¬Answered steps a n) := by
  obtain ⟨b, stands, shows⟩ := drawn.stands pill on
  rw [stands] at own
  obtain rfl := Option.some.inj ((mem_members.mp own).2.2.symm.trans of)
  exact ⟨stands, shows⟩

theorem start_mem (own : start steps n = some a) : a ∈ members steps a n := by
  obtain ⟨before, made⟩ := start_lt own
  exact mem_members.mpr ⟨before, made, start_between own le_rfl before⟩

/-- The last pill takes a new one in just where it goes with the last stretch. -/
theorem Drawn.takes_iff (drawn : Drawn steps n rows) (made : face steps n = some p)
    (own : start steps n = some a)
    (found : lastPill rows = some last) :
    (absorb last p).isSome ↔ start steps (n + 1) = some a := by
  obtain ⟨last', head, rest, found', -, shown, looks⟩ := drawn.opened a own
  obtain rfl := Option.some.inj (found.symm.trans found')
  rw [looks.takes_iff (face_fresh made).1, start_succ_iff made, shown]
  constructor
  · exact fun goes => Or.inl ⟨own, goes⟩
  · rintro (⟨-, goes⟩ | ⟨same, -⟩)
    · exact goes
    · exact absurd (start_lt own).1 (by omega)

theorem Drawn.open_of_last (drawn : Drawn steps n rows) (found : lastPill rows = some last) :
    ∃ a, start steps n = some a := by
  cases own : start steps n with
  | some a => exact ⟨a, rfl⟩
  | none =>
    rw [drawn.closed own] at found
    cases found

/-- A pill that no step of a stretch is added to is as it was. -/
theorem Drawn.stands_later (drawn : Drawn steps n rows) (made : face steps n = some p)
    (on : pill ∈ pills rows)
    (other : ∃ k ∈ pill.stands, start steps (k + 1) ≠ start steps (n + 1)) :
    ∃ a, pill.stands = members steps a (n + 1) ∧
      (pill.shows = none ↔ ¬Answered steps a (n + 1)) := by
  obtain ⟨a, stands, shows⟩ := drawn.stands pill on
  obtain ⟨k, inside, apart⟩ := other
  rw [stands] at inside
  have of := (mem_members.mp inside).2.2
  refine ⟨a, ?_, ?_⟩
  · rw [members_succ, stands]
    have none_ : start steps (n + 1) ≠ some a := fun same => apart (of.trans same.symm)
    simp [none_]
  · rw [shows, answered_later (answer_of_face made)]

/-- Where a new pill's step is drawn, every step before it is as it was. -/
theorem Drawn.there_later {rows' : List ConvRow} (drawn : Drawn steps n rows)
    (made : face steps n = some p)
    (same : ∀ c < n, (∃ pill ∈ pills rows', c ∈ pill.stands) ↔ ∃ pill ∈ pills rows, c ∈ pill.stands)
    (new : ∃ pill ∈ pills rows', n ∈ pill.stands) :
    ∀ c a, c < n + 1 → (face steps c).isSome → start steps (c + 1) = some a →
      ((∃ pill ∈ pills rows', c ∈ pill.stands) ↔ ¬Superseded steps a (n + 1)) := by
  intro c a inside some_ of
  rw [superseded_later (not_message_of_face made)]
  obtain earlier | rfl : c < n ∨ c = n := by omega
  · rw [same c earlier]
    exact drawn.there c a earlier some_ of
  · refine iff_of_true new fun taken => ?_
    exact not_superseded of ((superseded_later (not_message_of_face made)).mpr taken)

/-- A pill that no stretch takes in begins one. -/
theorem Drawn.pushed (drawn : Drawn steps n rows) (pills_ : Pills (steps.take n) (pills rows))
    (made : face steps n = some p)
    (apart : (lastPill rows).bind (absorb · { p with stands := [n] }) = none) :
    Drawn steps (n + 1) (addPill rows { p with stands := [n] }).1 := by
  -- The last pill does not take it in, so it begins a stretch.
  have begins : start steps (n + 1) = some n := by
    refine (start_succ_iff made).mpr (Or.inr ⟨rfl, fun b own => ?_⟩)
    obtain ⟨last, head, rest, found, -, shown, looks⟩ := drawn.opened b own
    rw [found, Option.bind_some, absorb_stands, Option.map_eq_none_iff] at apart
    rw [shown, ← looks.takes_iff (face_fresh made).1, apart]
    rfl
  have alone : members steps n (n + 1) = [n] := by
    have nothing : members steps n n = [] := by
      refine List.filter_eq_nil_iff.mpr fun k inside => ?_
      have earlier := List.mem_range.mp inside
      simp only [Bool.and_eq_true, decide_eq_true_eq, not_and]
      intro _ of
      have := (start_lt of).1
      omega
    rw [members_succ, nothing, made, begins]
    simp
  have list := addPill_pushed apart
  constructor
  · rw [list]
    intro pill on
    cases List.mem_append.mp on with
    | inl on =>
      refine drawn.stands_later made on ?_
      obtain ⟨a, stands, -⟩ := drawn.stands pill on
      obtain ⟨k, inside⟩ := List.exists_mem_of_ne_nil _ (pills_.stands pill on).1
      refine ⟨k, inside, fun same => ?_⟩
      rw [stands] at inside
      have first := (start_lt (same.trans begins)).1
      have earlier := (mem_members.mp inside).1
      omega
    | inr on =>
      rw [List.mem_singleton.mp on]
      refine ⟨n, alone.symm, iff_of_true (face_fresh made).2.2 ?_⟩
      rw [answered_later (answer_of_face made)]
      rintro ⟨m, inside, c, found, of⟩
      have earlier := (answer_lt found).trans inside
      have first := (start_lt of).1
      omega
  · refine drawn.there_later made (fun c earlier => ?_) ?_
    · rw [list]
      constructor
      · rintro ⟨pill, on, own⟩
        cases List.mem_append.mp on with
        | inl on => exact ⟨pill, on, own⟩
        | inr on =>
          rw [List.mem_singleton.mp on] at own
          exact absurd (List.mem_singleton.mp own) (by omega)
      · rintro ⟨pill, on, own⟩
        exact ⟨pill, List.mem_append_left _ on, own⟩
    · rw [list]
      exact ⟨_, List.mem_append_right _ (List.mem_singleton_self _), List.mem_singleton_self _⟩
  · intro none_
    rw [begins] at none_
    cases none_
  · intro a own
    obtain rfl := Option.some.inj (begins.symm.trans own)
    have unanswered : answered steps n (n + 1) = false := by
      rw [Bool.eq_false_iff]
      intro own'
      obtain ⟨m, inside, c, found, of⟩ := (answered_iff begins).mp own'
      obtain rfl | earlier : m = n ∨ m < n := by omega
      · rw [answer_of_face made] at found
        cases found
      · have before := (answer_lt found).trans earlier
        have first := (start_lt of).1
        omega
    refine ⟨_, p, [], lastPill_pushed apart, alone.symm, faces_self made, ?_⟩
    rw [unanswered]
    exact { Looks.self p (face_fresh made).1 (face_fresh made).2.1 with }

/-- A pill that the last stretch takes in. -/
theorem Drawn.absorbed (drawn : Drawn steps n rows) (pills_ : Pills (steps.take n) (pills rows))
    (made : face steps n = some p)
    (found : lastPill rows = some last) {q : ConvPill}
    (taken : absorb last { p with stands := [n] } = some q)
    (free : ∀ a, start steps n = some a → start steps (n + 1) = some a → p.primary →
      ¬Answered steps a n) :
    Drawn steps (n + 1) (addPill rows { p with stands := [n] }).1 := by
  obtain ⟨a, own⟩ := drawn.open_of_last found
  obtain ⟨q', taken', shape⟩ :=
    Option.map_eq_some_iff.mp ((absorb_stands last p [n]).symm.trans taken)
  have goes : start steps (n + 1) = some a :=
    (drawn.takes_iff made own found).mp (by rw [taken']; rfl)
  -- A primary pill takes the place of the last one, which has no result to lose then.
  have unanswered := free a own goes
  obtain ⟨before, old, new⟩ := addPill_absorbed found taken
  obtain ⟨lastStands, lastShows⟩ : last.stands = members steps a n ∧
      (last.shows = none ↔ ¬Answered steps a n) := by
    obtain ⟨last', head, rest, found', stands, -⟩ := drawn.opened a own
    obtain rfl := Option.some.inj (found.symm.trans found')
    exact drawn.stretch (Drawn.lastOn found) (stands ▸ start_mem own)
      (start_between own le_rfl (start_lt own).1)
  obtain ⟨both, how⟩ := absorb_spec taken
  have stands : q.stands = members steps a (n + 1) := by
    rw [both, lastStands, members_succ, made, goes]
    simp
  rw [old] at pills_
  constructor
  · rw [new]
    intro pill on
    cases List.mem_append.mp on with
    | inl on =>
      have on' : pill ∈ pills rows := by
        rw [old]
        exact List.mem_append_left _ on
      refine drawn.stands_later made on' ?_
      obtain ⟨k, inside⟩ :=
        List.exists_mem_of_ne_nil _ (pills_.stands pill (List.mem_append_left _ on)).1
      refine ⟨k, inside, fun same => ?_⟩
      have same' := (drawn.stretch on' inside (same.trans goes)).1
      rw [same', ← lastStands] at inside
      exact apart_of_last pills_ on inside (same' ▸ lastStands ▸ inside)
    | inr on =>
      rw [List.mem_singleton.mp on]
      refine ⟨a, stands, ?_⟩
      rw [answered_later (answer_of_face made)]
      cases how with
      | inl replaced =>
        rw [replaced.2.2]
        exact iff_of_true (face_fresh made).2.2 (unanswered replaced.2.1)
      | inr kept => rw [kept.2.1, lastShows]
  · refine drawn.there_later made (fun c earlier => ?_) ?_
    · rw [new, old]
      have same : c ∈ q.stands ↔ c ∈ last.stands := by
        rw [both]
        simp only [List.mem_append, List.mem_singleton]
        exact or_iff_left (by omega)
      simp only [List.mem_append, List.mem_singleton, or_and_right, exists_or, exists_eq_left, same]
    · rw [new]
      refine ⟨q, List.mem_append_right _ (List.mem_singleton_self _), ?_⟩
      rw [both]
      exact List.mem_append_right _ (List.mem_singleton_self _)
  · intro none_
    rw [goes] at none_
    cases none_
  · intro a' own'
    obtain rfl := Option.some.inj (goes.symm.trans own')
    obtain ⟨last', head, rest, found', -, shown, looks⟩ := drawn.opened a own
    obtain rfl := Option.some.inj (found.symm.trans found')
    have order := (start_lt own).1.le
    refine ⟨q, head, rest ++ [p], lastPill_absorbed found taken, stands, ?_, ?_⟩
    · rw [faces_succ order, shown, made]
      rfl
    · rw [answered_succ, answer_of_face made]
      simp only [Option.any_none, Bool.or_false]
      have looks' := looks.taken (face_fresh made).1 taken' fun primary => by
        rw [Bool.eq_false_iff]
        exact fun answered_ => unanswered primary ((answered_iff own).mp answered_)
      rw [← shape]
      exact { looks' with }

theorem Drawn.added (drawn : Drawn steps n rows) (pills_ : Pills (steps.take n) (pills rows))
    (made : face steps n = some p)
    (free : ∀ a, start steps n = some a → start steps (n + 1) = some a → p.primary →
    ¬Answered steps a n) :
    Drawn steps (n + 1) (addPill rows { p with stands := [n] }).1 := by
  cases into : (lastPill rows).bind (absorb · { p with stands := [n] }) with
  | none => exact drawn.pushed pills_ made into
  | some q =>
    obtain ⟨last, found, taken⟩ := Option.bind_eq_some_iff.mp into
    exact drawn.absorbed pills_ made found taken free

/-- A place finds the pill of its call still where a pill is added. -/
theorem Finds.added (finds : Finds rows ref) (pills_ : Pills (steps.take n) (pills rows))
    (p : ConvPill) (earlier : ref.call < n) :
    Finds (addPill rows { p with stands := [n] }).1 ref := by
  intro pill on own
  cases into : (lastPill rows).bind (absorb · { p with stands := [n] }) with
  | none =>
    rw [addPill_pushed into] at on
    cases List.mem_append.mp on with
    | inl on => exact pillAt_pushed into (finds pill on own)
    | inr on =>
      rw [List.mem_singleton.mp on] at own
      exact absurd (List.mem_singleton.mp own) (by omega)
  | some q =>
    obtain ⟨last, found, taken⟩ := Option.bind_eq_some_iff.mp into
    obtain ⟨before, old, new⟩ := addPill_absorbed found taken
    have whole : before = pills (openRun rows).1 ++ (openRun rows).2.dropLast := by
      have open_ := (openRun_spec rows).1
      rw [getLast_split found, ← List.append_assoc, old] at open_
      exact List.append_cancel_right open_
    rw [new] at on
    rw [old] at pills_
    cases List.mem_append.mp on with
    | inl on =>
      have on' : pill ∈ pills rows := by
        rw [old]
        exact List.mem_append_left _ on
      obtain ⟨same, -⟩ | ⟨-, kept⟩ := pillAt_absorbed found taken (finds pill on' own)
      · exact absurd own (apart_of_last pills_ on (same ▸ own))
      · exact kept
    | inr on =>
      obtain rfl := List.mem_singleton.mp on
      rw [(absorb_spec taken).1] at own
      have inLast : ref.call ∈ last.stands := by
        cases List.mem_append.mp own with
        | inl inside => exact inside
        | inr inside => exact absurd (List.mem_singleton.mp inside) (by omega)
      obtain ⟨-, kept⟩ | ⟨inside, -⟩ :=
        pillAt_absorbed found taken (finds last (Drawn.lastOn found) inLast)
      · exact kept
      · exact absurd inLast (apart_of_last pills_ (whole ▸ inside) inLast)

/-- The place that a new pill is remembered by finds it. -/
theorem Finds.new (pills_ : Pills (steps.take n) (pills rows)) (inside : n < steps.length)
    (p : ConvPill) :
    Finds (addPill rows { p with stands := [n] }).1
      ⟨(addPill rows { p with stands := [n] }).2.1, (addPill rows { p with stands := [n] }).2.2,
          n⟩ := by
  have length : (steps.take n).length = n := by rw [List.length_take]; omega
  have earlier : ∀ pill ∈ pills rows, n ∉ pill.stands := fun pill on own => by
    have bound := (pills_.stands pill on).2 n own
    omega
  intro pill on own
  rw [pillAt_new]
  cases into : (lastPill rows).bind (absorb · { p with stands := [n] }) with
  | none =>
    rw [addPill_pushed into] at on
    cases List.mem_append.mp on with
    | inl on => exact absurd own (earlier pill on)
    | inr on => rw [lastPill_pushed into, List.mem_singleton.mp on]
  | some q =>
    obtain ⟨last, found, taken⟩ := Option.bind_eq_some_iff.mp into
    obtain ⟨before, old, new⟩ := addPill_absorbed found taken
    rw [new] at on
    cases List.mem_append.mp on with
    | inl on =>
      refine absurd own (earlier pill ?_)
      rw [old]
      exact List.mem_append_left _ on
    | inr on => rw [lastPill_absorbed found taken, List.mem_singleton.mp on]

theorem members_later (none_ : face steps n = none) :
    members steps a (n + 1) = members steps a n := by
  rw [members_succ, none_]
  simp

theorem faces_later (none_ : face steps n = none) (order : a ≤ n) :
    faces steps a (n + 1) = faces steps a n := by
  rw [faces_succ order, none_, Option.toList_none, List.append_nil]

/-- A step that ends a run and takes no pill away. -/
theorem Drawn.ended (drawn : Drawn steps n rows) (none_ : face steps n = none)
    (unanswered : answer steps n = none)
    (ends : start steps (n + 1) = none) (kept : ∀ a, Superseded steps a (n + 1) ↔
    Superseded steps a n) {row : ConvRow}
    (apart : ∀ list, row ≠ .run list) : Drawn steps (n + 1) (rows ++ [row]) := by
  have same : pills (rows ++ [row]) = pills rows := by
    cases row with
    | run list => exact absurd rfl (apart list)
    | _ => simp [pills, rowPills]
  constructor
  · rw [same]
    intro pill on
    obtain ⟨a, stands, shows⟩ := drawn.stands pill on
    exact ⟨a, stands.trans (members_later none_).symm,
      shows.trans (not_congr (answered_later unanswered).symm)⟩
  · intro c a inside some_ of
    obtain earlier | rfl : c < n ∨ c = n := by omega
    · rw [same, kept]
      exact drawn.there c a earlier some_ of
    · rw [none_] at some_
      cases some_
  · exact fun _ => lastPill_row rows apart
  · intro a own
    rw [ends] at own
    cases own

/-- A message, with the pill that it takes away. -/
theorem Drawn.message (drawn : Drawn steps n rows) (pills_ : Pills (steps.take n) (pills rows))
    {merge : String} {row : Message}
    (here : steps[n]? = some (.message merge row)) :
    Drawn steps (n + 1) (supersede merge rows ++ [.message row]) := by
  have none_ : face steps n = none := by rw [face, here]
  have unanswered : answer steps n = none := by rw [answer, here]
  have ends := start_message here
  have later : ∀ a, Superseded steps a (n + 1) ↔ Superseded steps a n ∨ start steps n = some a ∧
      takesAway merge (faces steps a n) := by
    intro a
    rw [superseded_succ_iff]
    refine or_congr Iff.rfl ⟨?_, fun own => ⟨merge, row, here, own⟩⟩
    rintro ⟨merge', row', here', own⟩
    rw [here] at here'
    obtain ⟨rfl, -⟩ := Step.message.inj (Option.some.inj here')
    exact own
  -- Either the message takes the last pill away with its stretch, or nothing.
  by_cases taken : ∃ last, lastPill rows = some last ∧ superseded merge last = true
  · obtain ⟨last, found, taken⟩ := taken
    obtain ⟨a, own⟩ := drawn.open_of_last found
    obtain ⟨last', head, rest, found', stands, shown, looks⟩ := drawn.opened a own
    obtain rfl := Option.some.inj (found.symm.trans found')
    have away : takesAway merge (faces steps a n) = true := by
      rw [shown, ← looks.superseded_iff, taken]
    have old := supersede_taken found taken
    have same : pills (supersede merge rows ++ [.message row]) = pills (supersede merge rows) := by
      simp [pills, rowPills]
    rw [old] at pills_
    have kept : ∀ pill ∈ pills (supersede merge rows), pill ∈ pills rows := fun pill on => by
      rw [old]
      exact List.mem_append_left _ on
    constructor
    · rw [same]
      intro pill on
      obtain ⟨b, own_, shows⟩ := drawn.stands pill (kept pill on)
      exact ⟨b, own_.trans (members_later none_).symm,
        shows.trans (not_congr (answered_later unanswered).symm)⟩
    · intro c b inside some_ of
      obtain earlier | rfl : c < n ∨ c = n := by omega
      · have there := drawn.there c b earlier some_ of
        rw [same, later]
        by_cases taken_ : c ∈ last.stands
        · have mine : b = a := by
            rw [stands] at taken_
            exact Option.some.inj (of.symm.trans (mem_members.mp taken_).2.2)
          subst mine
          refine iff_of_false ?_ (not_not.mpr (Or.inr ⟨own, away⟩))
          rintro ⟨pill, on, inPill⟩
          exact apart_of_last pills_ on taken_ inPill
        · have other : ¬(start steps n = some b ∧ takesAway merge (faces steps b n) = true) := by
            rintro ⟨own', -⟩
            obtain rfl := Option.some.inj (own.symm.trans own')
            exact taken_ (stands ▸ mem_members.mpr ⟨earlier, some_, of⟩)
          rw [or_iff_left other, ← there, old]
          simp [or_and_right, exists_or, taken_]
      · rw [none_] at some_
        cases some_
    · exact fun _ => lastPill_row _ (by simp)
    · intro b own'
      rw [ends] at own'
      cases own'
  · have kept : ∀ last, lastPill rows = some last → superseded merge last = false := by
      intro last found
      by_contra on
      exact taken ⟨last, found, by simpa using on⟩
    rw [supersede_kept kept]
    refine drawn.ended none_ unanswered ends (fun a => ?_) (by simp)
    rw [later]
    refine or_iff_left ?_
    rintro ⟨own, away⟩
    obtain ⟨last, head, rest, found, -, shown, looks⟩ := drawn.opened a own
    rw [shown, ← looks.superseded_iff, kept last found] at away
    cases away

/-- A place finds the pill of its call still where a message takes a pill away. -/
theorem Finds.message (finds : Finds rows ref) (pills_ : Pills (steps.take n) (pills rows))
    (merge : String) (row : Message) :
    Finds (supersede merge rows ++ [.message row]) ref := by
  intro pill on own
  have same : pills (supersede merge rows ++ [.message row]) = pills (supersede merge rows) := by
    simp [pills, rowPills]
  rw [same] at on
  rw [pillAt_row _ (by simp)]
  by_cases taken : ∃ last, lastPill rows = some last ∧ superseded merge last = true
  · obtain ⟨last, found, taken⟩ := taken
    have old := supersede_taken found taken
    rw [old] at pills_
    have on' : pill ∈ pills rows := by
      rw [old]
      exact List.mem_append_left _ on
    obtain rfl | kept := pillAt_superseded found taken (finds pill on' own)
    · exact absurd own (apart_of_last pills_ on own)
    · exact kept
  · have kept : ∀ last, lastPill rows = some last → superseded merge last = false := by
      intro last found
      by_contra on
      exact taken ⟨last, found, by simpa using on⟩
    rw [supersede_kept kept] at on ⊢
    exact finds pill on own

theorem Finds.divider (finds : Finds rows ref) (text : String) (timestamp : Option Int) :
    Finds (rows ++ [.divider text timestamp]) ref := by
  intro pill on own
  have same : pills (rows ++ [.divider text timestamp]) = pills rows := by simp [pills, rowPills]
  rw [same] at on
  rw [pillAt_row _ (by simp)]
  exact finds pill on own

theorem face_of_answer (own : answer steps n = some c) : face steps n = none := by
  cases made : face steps n with
  | none => rfl
  | some p =>
    rw [answer_of_face made] at own
    cases own

theorem block_of_answer (own : answer steps n = some c) : ∃ b, steps[n]? = some (.block b) ∧
    b.kind = "tool_result" := by
  unfold answer at own
  split at own
  · next b here =>
    split at own
    · next kind => exact ⟨b, here, kind⟩
    · cases own
  · cases own

theorem start_of_answer (own : answer steps n = some c) : start steps (n + 1) = start steps n := by
  obtain ⟨b, here, -⟩ := block_of_answer own
  rw [start_succ_of_none (face_of_answer own), here]
  rfl

theorem not_message_of_answer (own : answer steps n = some c) (merge : String) (row : Message) :
    steps[n]? ≠ some (.message merge row) := by
  obtain ⟨b, here, -⟩ := block_of_answer own
  rw [here]
  simp

theorem lastPill_setPill_none (none_ : lastPill rows = none) (at_ : pillAt rows ref = some pill)
    (q : ConvPill) :
    lastPill (setPill rows ref q) = none := by
  rcases List.eq_nil_or_concat rows with rfl | ⟨before, row, rfl⟩
  · cases at_
  · rw [List.concat_eq_append] at *
    cases row with
    | run list =>
      rw [lastPill, openRun_run, List.getLast?_eq_none_iff] at none_
      dsimp only at none_
      subst none_
      rw [pillAt_run] at at_
      split_ifs at at_ with here
      · cases at_
      · unfold pillAt at at_
        split at at_
        · next other row =>
          have inside := (List.getElem?_eq_some_iff.mp row).1
          rw [setPill, List.getElem?_append_left inside, row]
          dsimp only
          rw [List.set_append_left _ _ inside, lastPill, openRun_run]
          rfl
        · cases at_
    | _ =>
      rw [pillAt_row _ (by simp)] at at_
      unfold pillAt at at_
      split at at_
      · next other row =>
        have inside := (List.getElem?_eq_some_iff.mp row).1
        rw [setPill, List.getElem?_append_left inside, row]
        dsimp only
        rw [List.set_append_left _ _ inside]
        exact lastPill_row _ (by simp)
      · cases at_

/-- A result that is attached to the pill of its call. -/
theorem Drawn.answered (drawn : Drawn steps n rows) (pills_ : Pills (steps.take n) (pills rows))
    (own : answer steps n = some c)
    (at_ : pillAt rows ref = some pill) (inside : c ∈ pill.stands) (b : DisplayBlock) :
    Drawn steps (n + 1) (setPill rows ref (attach n b pill)) := by
  have none_ := face_of_answer own
  obtain ⟨p, made⟩ := Option.isSome_iff_exists.mp (face_answer own)
  obtain ⟨a, of⟩ := start_self made
  have on := mem_of_pillAt at_
  obtain ⟨stands, -⟩ := drawn.stretch on inside of
  obtain ⟨-, before, after, old, new⟩ := setPill_spec at_ (attach n b pill)
  -- No other pill stands for the call.
  have others : ∀ other, other ∈ before ∨ other ∈ after → c ∉ other.stands ∧
      other ∈ pills rows := by
    intro other either
    have alone := @Pills.apart _ _ _ _ other (old ▸ pills_) either c (by simp [concerns, inside])
    refine ⟨fun both => by simp [concerns, both] at alone, ?_⟩
    rw [old]
    simp only [List.mem_append, List.mem_cons]
    tauto
  have sameStands : ∀ k, (∃ other ∈ pills (setPill rows ref (attach n b pill)), k ∈ other.stands) ↔
      ∃ other ∈ pills rows, k ∈ other.stands := by
    intro k
    have same : k ∈ (attach n b pill).stands ↔ k ∈ pill.stands := Iff.rfl
    rw [new, old]
    simp only [List.mem_append, List.mem_cons, or_and_right, exists_or, exists_eq_left, same]
  constructor
  · rw [new]
    intro other onNew
    have cases_ : other = attach n b pill ∨ other ∈ before ∨ other ∈ after := by
      simp only [List.mem_append, List.mem_cons] at onNew
      tauto
    obtain rfl | either := cases_
    · refine ⟨a, stands.trans (members_later none_).symm,
        iff_of_false (by simp [attach]) (not_not.mpr ?_)⟩
      exact answered_succ_iff.mpr (Or.inr ⟨c, own, of⟩)
    · obtain ⟨apart, onOld⟩ := others other either
      obtain ⟨a', stands', shows'⟩ := drawn.stands other onOld
      refine ⟨a', stands'.trans (members_later none_).symm, ?_⟩
      rw [shows', answered_succ_iff]
      refine not_congr (or_iff_left ?_).symm
      rintro ⟨c', own', of'⟩
      obtain rfl := Option.some.inj (own.symm.trans own')
      obtain rfl := Option.some.inj (of.symm.trans of')
      rw [stands', ← stands] at apart
      exact apart inside
  · intro k a' before_ some_ of'
    obtain earlier | rfl : k < n ∨ k = n := by omega
    · rw [sameStands, superseded_later (not_message_of_answer own)]
      exact drawn.there k a' earlier some_ of'
    · rw [none_] at some_
      cases some_
  · intro ended
    rw [start_of_answer own] at ended
    exact lastPill_setPill_none (drawn.closed ended) at_ _
  · intro a' own'
    rw [start_of_answer own] at own'
    obtain ⟨last, head, rest, found, lastStands, shown, looks⟩ := drawn.opened a' own'
    have order := (start_lt own').1.le
    rw [members_later none_, faces_later none_ order, answered_succ, own, Option.any_some]
    obtain ⟨rfl, changed⟩ | ⟨inside', same⟩ := lastPill_setPill found at_ (attach n b pill)
    · rw [lastStands] at inside
      have from_ := Nat.le_of_lt_succ (start_lt (mem_members.mp inside).2.2).1
      refine ⟨_, head, rest, changed, lastStands, shown, ?_⟩
      rw [decide_eq_true from_, Bool.or_true]
      exact looks.attached n b
    · refine ⟨last, head, rest, same, lastStands, shown, ?_⟩
      -- The last pill is another one, so the call is of an earlier stretch.
      have later : ¬a' ≤ c := by
        intro from_
        have earlier := answer_lt own
        have inLast : c ∈ last.stands := by
          rw [lastStands]
          exact mem_members.mpr ⟨earlier, face_answer own, start_between own' from_ earlier⟩
        have whole :
            pills rows = (pills (openRun rows).1 ++ (openRun rows).2.dropLast) ++ [last] := by
          rw [List.append_assoc, ← getLast_split found]
          exact (openRun_spec rows).1
        exact apart_of_last (whole ▸ pills_) inside' inLast inside
      rw [decide_eq_false later, Bool.or_false]
      exact looks

/-- A place finds the pill of its call still where a result is attached. -/
theorem Finds.answered (finds : Finds rows ref) (inside : n < steps.length)
    (pills_ : Pills (steps.take n) (pills rows))
    {other : PillRef} (at_ : pillAt rows other = some pill) (b : DisplayBlock) :
    Finds (setPill rows other (attach n b pill)) ref := by
  obtain ⟨-, before, after, old, new⟩ := setPill_spec at_ (attach n b pill)
  have length : (steps.take n).length = n := by rw [List.length_take]; omega
  intro found on own
  rw [pillAt_setPill at_]
  have samePlace : ref.row = other.row ∧ ref.pill = other.pill → pillAt rows ref = some pill := by
    rintro ⟨row, place⟩
    rw [pillAt, row, place]
    exact at_
  by_cases onOld : found ∈ pills rows
  · have there := finds found onOld own
    split_ifs with place
    · obtain rfl := Option.some.inj (there.symm.trans (samePlace place))
      rw [new] at on
      simp only [List.mem_append, List.mem_cons] at on
      have cases_ : found = attach n b found ∨ found ∈ before ∨ found ∈ after := by tauto
      obtain same | either := cases_
      · rw [← same]
      · have alone :=
          @Pills.apart _ _ _ _ found (old ▸ pills_) either ref.call (by simp [concerns, own])
        simp [concerns, own] at alone
    · exact there
  · have same : found = attach n b pill := by
      rw [new] at on
      rw [old] at onOld
      simp only [List.mem_append, List.mem_cons] at on onOld
      tauto
    rw [same] at own
    have there := finds pill (mem_of_pillAt at_) own
    split_ifs with place
    · rw [same]
    · have stays : pillAt (setPill rows other (attach n b pill)) ref = some pill := by
        rw [pillAt_setPill at_, if_neg place, there]
      have onNew := mem_of_pillAt stays
      rw [new] at onNew
      simp only [List.mem_append, List.mem_cons] at onNew
      have cases_ : pill = attach n b pill ∨ pill ∈ before ∨ pill ∈ after := by tauto
      obtain same' | either := cases_
      · have fresh := pills_.not_concerned (mem_of_pillAt at_)
        rw [same', length] at fresh
        simp [concerns, attach] at fresh
      · have alone :=
          @Pills.apart _ _ _ _ pill (old ▸ pills_) either ref.call
          (by simp [concerns, show ref.call ∈ pill.stands from own])
        simp [concerns, show ref.call ∈ pill.stands from own] at alone

end

/-! ## Harmless steps -/

section

variable {steps : List Step} {a c n : Nat} {p : ConvPill}

theorem harmless_of_face (made : face steps n = some p) : Harmless steps n ↔
    ∀ a, start steps n = some a → start steps (n + 1) = some a → ¬Orphan steps n ∧ ¬Orphan steps a ∧
      (p.primary → ¬Answered steps a n) := by
  constructor
  · exact fun harmless a own goes => harmless.pill p a made own goes
  · intro pill
    constructor
    · intro p' a made' own goes
      obtain rfl := Option.some.inj (made.symm.trans made')
      exact pill a own goes
    · exact fun merge row _ here => absurd here (not_message_of_face made merge row)
    · intro c a own
      rw [answer_of_face made] at own
      cases own

theorem harmless_of_message {merge : String} {row : Message}
    (here : steps[n]? = some (.message merge row)) : Harmless steps n ↔
    ∀ a, start steps n = some a → takesAway merge (faces steps a n) → ¬Orphan steps a ∧
      ¬Answered steps a n := by
  constructor
  · exact fun harmless a own away => harmless.message merge row a here own away
  · intro message
    constructor
    · intro p a made
      exact absurd here (not_message_of_face made merge row)
    · intro merge' row' a here' own away
      rw [here] at here'
      obtain ⟨rfl, rfl⟩ := Step.message.inj (Option.some.inj here')
      exact message a own away
    · intro c a own
      rw [answer, here] at own
      cases own

theorem harmless_of_answer (own : answer steps n = some c) : Harmless steps n ↔
    ∀ a, start steps (c + 1) = some a → ¬Superseded steps a n ∧ ¬Answered steps a n := by
  constructor
  · exact fun harmless a of => harmless.result c a own of
  · intro result
    constructor
    · intro p a made
      rw [face_of_answer own] at made
      cases made
    · exact fun merge row _ here => absurd here (not_message_of_answer own merge row)
    · intro c' a own' of
      obtain rfl := Option.some.inj (own.symm.trans own')
      exact result a of

/-- A divider is harmless, and so is the end. -/
theorem harmless_of_none (noFace : face steps n = none) (noAnswer : answer steps n = none)
    (noMessage : ∀ merge row, steps[n]? ≠ some (.message merge row)) : Harmless steps n := by
  constructor
  · intro p a made
    rw [noFace] at made
    cases made
  · exact fun merge row _ here => absurd here (noMessage merge row)
  · intro c a own
    rw [noAnswer] at own
    cases own

end

/-! ## Careful steps are the harmless ones -/

/-- A state that shows the stretches of the first steps of a window, with every result in its place.
-/
structure Mirrors (steps : List Step) (n : Nat) (s : State) : Prop where
  inv : Inv (steps.take n) s
  kept : ResultsKept (steps.take n) (pills s.rows)
  drawn : Drawn steps n s.rows
  refs : ∀ id ref, s.calls.get id = some ref → ref.call < n ∧ Finds s.rows ref

section

variable {steps : List Step} {a c n : Nat} {p last : ConvPill} {s s' : State} {one : Step}
  {b : DisplayBlock}

theorem Mirrors.answer_eq (mirrors : Mirrors steps n s) (here : steps[n]? = some (.block b)) :
    (remembered s.calls b).map PillRef.call = answer steps n := by
  rw [answer, here]
  dsimp only
  split_ifs with kind
  · exact mirrors.inv.remembered kind
  · rw [remembered, if_neg fun both => kind both.1]
    rfl

theorem Mirrors.shows_iff (mirrors : Mirrors steps n s) (own : start steps n = some a)
    (found : lastPill s.rows = some last) :
    last.stands = members steps a n ∧ (last.shows = none ↔ ¬Answered steps a n) := by
  obtain ⟨last', head, rest, found', stands, -⟩ := mirrors.drawn.opened a own
  obtain rfl := Option.some.inj (found.symm.trans found')
  exact mirrors.drawn.stretch (Drawn.lastOn found) (stands ▸ start_mem own)
    (start_between own le_rfl (start_lt own).1)

/-- The last pill is a result's own just where its stretch begins with a result without a call. -/
theorem Mirrors.owned_iff (mirrors : Mirrors steps n s) (own : start steps n = some a)
    (found : lastPill s.rows = some last) :
    Owned (steps.take n) last ↔ Orphan steps a := by
  obtain ⟨stands, -⟩ := mirrors.shows_iff own found
  have first := start_mem own
  have earlier := (start_lt own).1
  have here : (steps.take n)[a]? = steps[a]? := List.getElem?_take_of_lt earlier
  have front : (steps.take n).take a = steps.take a := by
    rw [List.take_take, Nat.min_eq_left earlier.le]
  constructor
  · rintro ⟨k, b, alone, at_, kind, none_⟩
    rw [← stands, alone] at first
    obtain rfl := List.mem_singleton.mp first
    rw [here] at at_
    rw [front] at none_
    exact ⟨b, at_, kind, by rw [answer, at_]; simpa [kind] using none_⟩
  · rintro ⟨b, at_, kind, none_⟩
    have alone : ownCall (steps.take a) b = none := by
      rw [answer, at_] at none_
      simpa [kind] using none_
    have kept := mirrors.kept a b (here.trans at_) kind
    rw [front, alone] at kept
    obtain ⟨pill, on, mine⟩ := kept
    have same :=
      (mirrors.drawn.stretch on (mine ▸ List.mem_singleton_self a)
      (start_between own le_rfl earlier)).1
    exact ⟨a, b, (stands.trans same.symm).trans mine, here.trans at_, kind, front ▸ alone⟩

theorem Mirrors.apart_iff (mirrors : Mirrors steps n s) (made : face steps n = some p) :
    (lastPill s.rows).bind (absorb · p) = none ↔ ∀ a, start steps n = some a → start steps (n + 1) ≠ some a := by
  constructor
  · intro apart a own goes
    obtain ⟨last, head, rest, found, -⟩ := mirrors.drawn.opened a own
    rw [found, Option.bind_some] at apart
    have taken := (mirrors.drawn.takes_iff made own found).mpr goes
    rw [apart] at taken
    cases taken
  · intro apart
    cases found : lastPill s.rows with
    | none => rfl
    | some last =>
      obtain ⟨a, own⟩ := mirrors.drawn.open_of_last found
      rw [Option.bind_some]
      cases taken : absorb last p with
      | none => rfl
      | some q => exact absurd ((mirrors.drawn.takes_iff made own found).mp (by rw [taken]; rfl)) (apart a own)

theorem Mirrors.mayTake_iff (mirrors : Mirrors steps n s) (made : face steps n = some p) :
    MayTake (steps.take n) s.rows p ↔
    ∀ a, start steps n = some a → start steps (n + 1) = some a → ¬Orphan steps a ∧
      (p.primary → ¬Answered steps a n) := by
  constructor
  · intro may a own goes
    obtain ⟨last, head, rest, found, -, shown, looks⟩ := mirrors.drawn.opened a own
    obtain ⟨free, fine⟩ := may last found ((mirrors.drawn.takes_iff made own found).mpr goes)
    refine ⟨fun orphan => free ((mirrors.owned_iff own found).mpr orphan), fun primary answered_ =>
      ?_⟩
    -- with a result in the stretch only a completing pill goes with it
    have merge : merges last p = true := by
      obtain ⟨-, goes'⟩ | ⟨same, -⟩ := (start_succ_iff made).mp goes
      · rw [shown, (answered_iff own).mpr answered_, goesWith] at goes'
        simp only [Bool.not_true, Bool.false_and, Bool.or_false, Bool.and_eq_true,
          Option.isNone_iff_eq_none] at goes'
        exact looks.merges_iff.mpr goes'
      · exact absurd (start_lt own).1 (by omega)
    exact (mirrors.shows_iff own found).2.mp (fine merge primary) answered_
  · intro may last found taken
    obtain ⟨a, own⟩ := mirrors.drawn.open_of_last found
    obtain ⟨free, fine⟩ := may a own ((mirrors.drawn.takes_iff made own found).mp taken)
    exact ⟨fun owned => free ((mirrors.owned_iff own found).mp owned),
      fun _ primary => (mirrors.shows_iff own found).2.mpr (fine primary)⟩

/-- A step is careful in a state that mirrors the steps before it just if it is harmless. -/
theorem Mirrors.careful_iff (mirrors : Mirrors steps n s) (here : steps[n]? = some one) :
    Careful (steps.take n) s one ↔ Harmless steps n := by
  cases one with
  | note label tone detail =>
    have made : face steps n = some (notePill label tone detail) := by rw [face, here]
    have noOrphan : ¬Orphan steps n := by
      rintro ⟨b, here', -⟩
      rw [here] at here'
      cases here'
    rw [harmless_of_face made]
    refine (mirrors.mayTake_iff made).trans (forall_congr' fun a => ?_)
    simp [noOrphan]
  | divider text timestamp =>
    refine iff_of_true trivial (harmless_of_none (by rw [face, here])
      (by rw [answer, here]) fun merge row => ?_)
    rw [here]
    simp
  | message merge row =>
    rw [harmless_of_message here]
    constructor
    · intro careful a own away
      obtain ⟨last, head, rest, found, -, shown, looks⟩ := mirrors.drawn.opened a own
      obtain ⟨free, fine⟩ := careful last found (by rw [looks.superseded_iff, ← shown, away])
      exact ⟨fun orphan => free ((mirrors.owned_iff own found).mpr orphan),
        (mirrors.shows_iff own found).2.mp fine⟩
    · intro message last found taken
      obtain ⟨a, own⟩ := mirrors.drawn.open_of_last found
      obtain ⟨last', head, rest, found', -, shown, looks⟩ := mirrors.drawn.opened a own
      obtain rfl := Option.some.inj (found.symm.trans found')
      obtain ⟨free, fine⟩ := message a own (by rw [shown, ← looks.superseded_iff, taken])
      exact ⟨fun owned => free ((mirrors.owned_iff own found).mp owned),
        (mirrors.shows_iff own found).2.mpr fine⟩
  | block b =>
    have known := mirrors.answer_eq here
    cases held : remembered s.calls b with
    | some ref =>
      rw [held, Option.map_some] at known
      rw [harmless_of_answer known.symm]
      obtain ⟨id, found⟩ : ∃ id, s.calls.get id = some ref := by
        rw [remembered] at held
        split at held
        · exact ⟨_, held⟩
        · cases held
      obtain ⟨earlier, finds⟩ := mirrors.refs id ref found
      obtain ⟨q, made⟩ := Option.isSome_iff_exists.mp (face_answer known.symm)
      obtain ⟨a, of⟩ := start_self made
      simp only [Careful, held]
      -- A pill at the place that was remembered is the pill of the stretch.
      constructor
      · rintro ⟨pill, at_, inside, free⟩ a' of'
        have on := mem_of_pillAt at_
        refine ⟨(mirrors.drawn.there ref.call a' earlier (face_answer known.symm) of').mp
          ⟨pill, on, inside⟩, ?_⟩
        exact (mirrors.drawn.stretch on inside of').2.mp free
      · intro result
        obtain ⟨there, unanswered⟩ := result a of
        obtain ⟨pill, on, inside⟩ :=
          (mirrors.drawn.there ref.call a earlier (face_answer known.symm) of).mpr there
        exact ⟨pill, finds pill on inside, inside,
          (mirrors.drawn.stretch on inside of).2.mpr unanswered⟩
    | none =>
      rw [held, Option.map_none] at known
      have made : face steps n = some (blockPill b) := by
        rw [face, here]
        simp [← known]
      -- A result comes here only where no call was remembered.
      have orphan_iff : Orphan steps n ↔ b.kind = "tool_result" := by
        constructor
        · rintro ⟨b', here', kind, -⟩
          rw [here] at here'
          obtain rfl := Step.block.inj (Option.some.inj here')
          exact kind
        · exact fun kind => ⟨b, here, kind, known.symm⟩
      rw [harmless_of_face made]
      simp only [Careful, held, mirrors.mayTake_iff made, mirrors.apart_iff made, orphan_iff]
      constructor
      · rintro ⟨may, apart⟩ a own goes
        exact ⟨fun kind => apart kind a own goes, may a own goes⟩
      · intro harmless
        exact ⟨fun a own goes => (harmless a own goes).2, fun kind a own goes =>
          (harmless a own goes).1 kind⟩

theorem take_succ_of (here : steps[n]? = some one) :
    steps.take (n + 1) = steps.take n ++ [one] := by
  rw [List.take_add_one, here]
  rfl

/-- A harmless step leads to a state that mirrors the steps up to it. -/
theorem Mirrors.step (mirrors : Mirrors steps n s) (here : steps[n]? = some one)
    (harmless : Harmless steps n)
    (ran : step n s one = some s') : Mirrors steps (n + 1) s' := by
  have inside := (List.getElem?_eq_some_iff.mp here).1
  have length : (steps.take n).length = n := by rw [List.length_take]; omega
  have careful := (mirrors.careful_iff here).mpr harmless
  have ran_ : Compact.step (steps.take n).length s one = some s' := by rwa [length]
  obtain ⟨inv, kept⟩ := step_kept mirrors.inv ran_
  have kept := kept.mpr ⟨mirrors.kept, careful⟩
  rw [← take_succ_of here] at inv kept
  have pills_ := mirrors.inv.pills
  refine ⟨inv, kept, ?_, ?_⟩
  · cases one with
    | note label tone detail =>
      obtain rfl := Option.some.inj ran
      have made : face steps n = some (notePill label tone detail) := by rw [face, here]
      exact mirrors.drawn.added pills_ made fun a own goes => (harmless.pill _ a made own goes).2.2
    | divider text timestamp =>
      obtain rfl := Option.some.inj ran
      have none_ : face steps n = none := by rw [face, here]
      refine mirrors.drawn.ended none_ (by rw [answer, here]) ?_
        (fun a => superseded_later fun merge row => ?_) (by simp)
      · rw [start_succ_of_none none_, here]
        rfl
      · rw [here]
        simp
    | message merge row =>
      obtain rfl := Option.some.inj ran
      exact mirrors.drawn.message pills_ here
    | block b =>
      have known := mirrors.answer_eq here
      rw [Compact.step] at ran
      cases held : remembered s.calls b with
      | some ref =>
        rw [held] at ran known
        obtain ⟨pill, at_, rfl⟩ := Option.map_eq_some_iff.mp ran
        simp only [Careful, held] at careful
        obtain ⟨pill', at_', stands, -⟩ := careful
        obtain rfl := Option.some.inj (at_.symm.trans at_')
        exact mirrors.drawn.answered pills_ known.symm at_ stands b
      | none =>
        rw [held] at ran known
        obtain rfl := Option.some.inj ran
        have made : face steps n = some (blockPill b) := by
          rw [face, here]
          simp [← known]
        exact mirrors.drawn.added pills_ made fun a own goes =>
          (harmless.pill _ a made own goes).2.2
  -- Places that were remembered are found as long as their pills are drawn.
  · intro id ref found
    cases one with
    | note label tone detail =>
      obtain rfl := Option.some.inj ran
      obtain ⟨earlier, finds⟩ := mirrors.refs id ref found
      exact ⟨by omega, finds.added pills_ _ earlier⟩
    | divider text timestamp =>
      obtain rfl := Option.some.inj ran
      obtain ⟨earlier, finds⟩ := mirrors.refs id ref found
      exact ⟨by omega, finds.divider text timestamp⟩
    | message merge row =>
      obtain rfl := Option.some.inj ran
      obtain ⟨earlier, finds⟩ := mirrors.refs id ref found
      exact ⟨by omega, finds.message pills_ merge row⟩
    | block b =>
      rw [Compact.step] at ran
      cases held : remembered s.calls b with
      | some other =>
        rw [held] at ran
        obtain ⟨pill, at_, rfl⟩ := Option.map_eq_some_iff.mp ran
        obtain ⟨earlier, finds⟩ := mirrors.refs id ref found
        exact ⟨by omega, finds.answered inside pills_ at_ b⟩
      | none =>
        rw [held] at ran
        obtain rfl := Option.some.inj ran
        dsimp only at found ⊢
        split_ifs at found with call
        · rw [Entries.get_set] at found
          split_ifs at found with same
          · obtain rfl := Option.some.inj found
            exact ⟨Nat.lt_succ_self n, .new pills_ inside _⟩
          · obtain ⟨earlier, finds⟩ := mirrors.refs id ref found
            exact ⟨by omega, finds.added pills_ _ earlier⟩
        · obtain ⟨earlier, finds⟩ := mirrors.refs id ref found
          exact ⟨by omega, finds.added pills_ _ earlier⟩

/-- From a state that mirrors the first steps, a run is careful just if every later step is
harmless. -/
theorem Mirrors.carefulRun_iff (mirrors : Mirrors steps n s) (more : List Step)
    (rest : steps.drop n = more) :
    CarefulRun (steps.take n) s more ↔ ∀ m ≥ n, Harmless steps m := by
  induction more generalizing n s with
  | nil =>
    refine iff_of_true trivial fun m later => ?_
    have none_ : steps[m]? = none :=
      List.getElem?_eq_none_iff.mpr ((List.drop_eq_nil_iff.mp rest).trans later)
    refine harmless_of_none (by rw [face, none_]) (by rw [answer, none_]) fun merge row => ?_
    rw [none_]
    simp
  | cons one more inductionHypothesis =>
    have here : steps[n]? = some one := by
      rw [← List.head?_drop, rest]
      rfl
    have inside := (List.getElem?_eq_some_iff.mp here).1
    have length : (steps.take n).length = n := by rw [List.length_take]; omega
    have rest' : steps.drop (n + 1) = more := by rw [← List.drop_drop, rest]; rfl
    rw [CarefulRun, length, mirrors.careful_iff here, ← take_succ_of here]
    constructor
    · rintro ⟨harmless, later⟩ m order
      obtain rfl | after : m = n ∨ m ≥ n + 1 := by omega
      · exact harmless
      · obtain ⟨s', ran⟩ := step_careful ((mirrors.careful_iff here).mpr harmless)
        rw [length] at ran
        exact (inductionHypothesis (mirrors.step here harmless ran) rest').mp (later s' ran) m after
    · intro all
      refine ⟨all n le_rfl, fun s' ran => ?_⟩
      exact (inductionHypothesis (mirrors.step here (all n le_rfl) ran) rest').mpr fun m order =>
        all m (by omega)

theorem Mirrors.empty (steps : List Step) : Mirrors steps 0 State.empty where
  inv := Inv.empty
  kept := fun k b at_ => by cases at_
  drawn := by
    constructor
    · intro pill on
      cases on
    · intro c a inside
      cases inside
    · exact fun _ => rfl
    · intro a own
      cases own
  refs := fun id ref found => by cases found

end

/-- The compact view of a window ends without a reference to what is gone, with every result shown
in its
place and every message in order, just if every step of the window is harmless. -/
theorem compactRows_shown (splitFencing : String → List (String × String × String) × String)
    (trimSpace : String → String)
    (fmtSize : Int → String) (entries : List DisplayEntry) :
    (∃ rows, compactRows splitFencing trimSpace fmtSize entries = some rows ∧
        ResultsShown (entries.flatMap (entrySteps splitFencing trimSpace fmtSize)) rows ∧
        messages rows = (entries.flatMap (entrySteps splitFencing trimSpace fmtSize)).filterMap
          stepMessage) ↔
      ∀ n, Harmless (entries.flatMap (entrySteps splitFencing trimSpace fmtSize)) n := by
  have run_iff :=
    (Mirrors.empty (entries.flatMap (entrySteps splitFencing trimSpace fmtSize))).carefulRun_iff _
    rfl
  rw [compactRows_careful]
  refine run_iff.trans ?_
  simp

/-- A call without details, and its result. -/
def bareCall (id : String) : DisplayBlock :=
  ⟨"tool_use", "", "", false, "", "Bash", "", id, false, "", false, "", false, "", false⟩

def textResult (id text : String) : DisplayBlock :=
  ⟨"tool_result", "", text, false, "", "", "", id, false, "", false, "", false, "", false⟩

/-- Two calls without details, and then the result of each. -/
def folded : DisplayEntry :=
  ⟨"assistant", none, false, "", false, 0,
  [bareCall "a", bareCall "b", textResult "a" "one", textResult "b" "two"], "", ""⟩

/-- The two calls are one pill, in which the second result takes the place of the first. -/
theorem folded_lost :
    (compactRows (fun text => ([], text)) id (fun _ => "") [folded] = some
      [.run [⟨"Bash", "tool", 2, "", false, true, "two", false, "", false, false, [0, 1],
      some 3⟩]]) ∧
      ¬∃ rows, compactRows (fun text => ([], text)) id (fun _ => "") [folded] = some rows ∧
        ResultsShown ([folded].flatMap (entrySteps (fun text => ([], text)) id fun _ => "")) rows ∧
        messages rows = ([folded].flatMap
          (entrySteps (fun text => ([], text)) id fun _ => "")).filterMap stepMessage := by
  have drawn : compactRows (fun text => ([], text)) id (fun _ => "") [folded] = some
      [.run [⟨"Bash", "tool", 2, "", false, true, "two", false, "", false, false, [0, 1],
        some 3⟩]] := by decide
  refine ⟨drawn, ?_⟩
  rintro ⟨rows, drawn', shown, -⟩
  rw [drawn] at drawn'
  obtain rfl := Option.some.inj drawn'
  obtain ⟨pill, only, -⟩ := shown 2 (textResult "a" "one") rfl rfl
  have none := congrArg List.length only
  rw [List.length_singleton] at none
  exact absurd none (by decide)

end AiConfig.Sesh.Surface.Compact
