import AiConfig.Lib.Newest
import AiConfig.Herder.Transcript.ReplyEnds
import Mathlib

/-! # Every turn end is judged once

The tail of the transcript holds the end markers from some turn on, in order; a turn's marker is the
first that is not before its time, since those of earlier turns are.  So where a lookup starts does
not
matter, as long as the tail reaches back to the oldest turn it judges. -/

namespace AiConfig.Herder.ReplyEnds

open AiConfig.Lib

section

variable {session : Session} {schedule : Schedule}

/-! ## The turns -/

namespace Schedule

theorem id_strictMono (schedule : Schedule) : StrictMono schedule.id :=
  strictMono_nat_of_lt_succ schedule.rises

theorem endedAt_strictMono (schedule : Schedule) : StrictMono schedule.endedAt :=
  strictMono_nat_of_lt_succ fun k => lt_of_le_of_lt (schedule.marks k) (schedule.apart k)

/-- A marker is before every later turn's time. -/
theorem marked_before (schedule : Schedule) {j k : Nat} (earlier : j < k) :
    schedule.markedAt j < schedule.endedAt k :=
  lt_of_lt_of_le (schedule.apart j) (schedule.endedAt_strictMono.monotone earlier)

end Schedule

theorem newest_succ {k : Nat} (seen : schedule.first ≤ k) :
    newest schedule (k + 1) = schedule.id k := by
  simp [newest, Nat.not_lt.mpr seen]

theorem newest_first {k : Nat} (early : k ≤ schedule.first) : newest schedule k = 0 := by
  cases k with
  | zero => rfl
  | succ k => exact if_pos early

theorem replyOf_first (transcript : List Entry) {k : Nat} (early : k ≤ schedule.first) :
    replyOf schedule transcript k = 0 := by
  cases k with
  | zero => rfl
  | succ k => exact if_pos early

theorem positive_id {k : Nat} (seen : schedule.first ≤ k) : 0 < schedule.id k :=
  lt_of_lt_of_le schedule.positive (schedule.id_strictMono.monotone seen)

theorem newest_lt_iff {i k : Nat} (seen : schedule.first ≤ i) : newest schedule k < schedule.id i ↔
    k ≤ i := by
  cases k with
  | zero => exact ⟨fun _ => Nat.zero_le i, fun _ => positive_id seen⟩
  | succ k =>
    by_cases early : k < schedule.first
    · rw [newest_first early]
      simpa using ⟨fun _ => by omega, fun _ => positive_id seen⟩
    · rw [newest_succ (Nat.not_lt.mp early), schedule.id_strictMono.lt_iff_lt]
      exact Iff.rfl

theorem newest_mono {k n : Nat} (le : k ≤ n) : newest schedule k ≤ newest schedule n := by
  by_cases early : n ≤ schedule.first
  · rw [newest_first early, newest_first (le.trans early)]
  · obtain ⟨n, rfl⟩ := Nat.exists_eq_succ_of_ne_zero (show n ≠ 0 by omega)
    have seen : schedule.first ≤ n := by omega
    rw [newest_succ seen]
    by_contra above
    have same : k = n + 1 := by
      by_contra other
      exact absurd ((newest_lt_iff seen).mpr (show k ≤ n by omega)) (by omega)
    rw [same, newest_succ seen] at above
    omega

/-- The turns from one on, up to another. -/
def turns (schedule : Schedule) (k n : Nat) : List Turn :=
  (List.range' k (n - k)).map fun i => ⟨schedule.id i, schedule.endedAt i⟩

theorem turns_self (k : Nat) : turns schedule k k = [] := by simp [turns]

theorem turns_append {j k n : Nat} (low : j ≤ k) (high : k ≤ n) :
    turns schedule j n = turns schedule j k ++ turns schedule k n := by
  have split : List.range' j (n - j) = List.range' j (k - j) ++ List.range' k (n - k) := by
    rw [show n - j = (k - j) + (n - k) by omega, ← List.range'_append_1,
      show j + (k - j) = k by omega]
  rw [turns, split, List.map_append]
  rfl

theorem turns_cons {k n : Nat} (more : k < n) :
    turns schedule k n = ⟨schedule.id k, schedule.endedAt k⟩ :: turns schedule (k + 1) n := by
  rw [turns, show n - k = (n - (k + 1)) + 1 by omega, List.range'_succ]
  rfl

theorem turns_snoc {k n : Nat} (low : k ≤ n) :
    turns schedule k (n + 1) = turns schedule k n ++ [⟨schedule.id n, schedule.endedAt n⟩] := by
  rw [turns_append low (Nat.le_succ n), turns_cons (Nat.lt_succ_self n), turns_self]

theorem mem_turns {k n : Nat} {turn : Turn} (on : turn ∈ turns schedule k n) :
    ∃ i, k ≤ i ∧ i < n ∧ turn.id = schedule.id i := by
  simp only [turns, List.mem_map, List.mem_range'_1] at on
  obtain ⟨i, ⟨low, high⟩, rfl⟩ := on
  exact ⟨i, low, by omega, rfl⟩

/-- The turns after the newest judged. -/
theorem turns_after {j k n : Nat} (seen : schedule.first ≤ j) (low : j ≤ k) (high : k ≤ n) :
    (turns schedule j n).filter (fun turn => newest schedule k < turn.id) = turns schedule k n := by
  rw [turns_append low high, List.filter_append]
  have judged : (turns schedule j k).filter (fun turn => newest schedule k < turn.id) = [] := by
    refine List.filter_eq_nil_iff.mpr fun turn on => ?_
    obtain ⟨i, above, below, id⟩ := mem_turns on
    simpa [id, newest_lt_iff (seen.trans above)] using below
  have unjudged : (turns schedule k n).filter (fun turn => newest schedule k < turn.id) =
      turns schedule k n := by
    refine List.filter_eq_self.mpr fun turn on => ?_
    obtain ⟨i, above, below, id⟩ := mem_turns on
    simpa [id, newest_lt_iff (seen.trans (low.trans above))] using above
  rw [judged, unjudged, List.nil_append]

/-- The turns up to the newest judged. -/
theorem turns_upTo {j k n : Nat} (seen : schedule.first ≤ j) (low : j ≤ k) (high : k ≤ n) :
    (turns schedule j n).filter (fun turn => turn.id ≤ newest schedule k) = turns schedule j k := by
  rw [turns_append low high, List.filter_append]
  have judged : (turns schedule j k).filter (fun turn => turn.id ≤ newest schedule k) =
      turns schedule j k := by
    refine List.filter_eq_self.mpr fun turn on => ?_
    obtain ⟨i, above, below, id⟩ := mem_turns on
    simpa [id] using not_lt.mp fun after =>
      absurd ((newest_lt_iff (seen.trans above)).mp after) (by omega)
  have unjudged : (turns schedule k n).filter (fun turn => turn.id ≤ newest schedule k) = [] := by
    refine List.filter_eq_nil_iff.mpr fun turn on => ?_
    obtain ⟨i, above, below, id⟩ := mem_turns on
    simpa [id, newest_lt_iff (seen.trans (low.trans above))] using above
  rw [judged, unjudged, List.append_nil]

/-! ## What the serve has kept of them -/

/-- The turn ends kept are the latest of those that have ended. -/
inductive Known (session : Session) (schedule : Schedule) (ends : TurnEnds) : Nat → Prop
  | none (unknown : ends session.instance_ = none) : Known session schedule ends schedule.first
  | unbegun (known : ends session.instance_ = some ⟨"", 0, []⟩) :
      Known session schedule ends schedule.first
  | begun {n : Nat} (seen : schedule.first ≤ n)
      (known : ends session.instance_ =
        some ⟨session.row.sessionID, newest schedule n,
          (turns schedule schedule.first n).rtake recentTurns⟩) :
      Known session schedule ends n

theorem Known.seen {ends : TurnEnds} {n : Nat} (known : Known session schedule ends n) :
    schedule.first ≤ n := by
  cases known with
  | none | unbegun => exact Nat.le_refl _
  | begun seen => exact seen

/-- What a completed turn does: a new session clears what was kept of the last. -/
theorem apply_completes {ends : TurnEnds} {n : Nat} {status : Status}
    (completes : Completes session schedule n status)
    {known : TurnEnd} (keeps : (ends session.instance_).getD ⟨"", 0, []⟩ = known)
    (new : (if known.session = session.row.sessionID then known.id else 0) < schedule.id n) :
    ends.apply status = Function.update ends session.instance_
      (some ⟨session.row.sessionID, schedule.id n,
      ((if known.session = session.row.sessionID then known.recent else []) ++
        [Turn.mk (schedule.id n) (schedule.endedAt n)]).rtake recentTurns⟩) := by
  have enters :
      ¬(status.instance_ = "" ∨ status.newStatus ≠ "listening" ∨
      status.oldStatus = "listening") := by
    rintro (unnamed | idle | listened)
    · exact session.named (completes.agent ▸ unnamed)
    · exact idle completes.listening
    · obtain worked | worked := completes.worked <;> simp [listened] at worked
  rw [TurnEnds.apply, if_neg enters]
  simp only [completes.agent, completes.session, completes.id, completes.time, keeps,
    completes.worked, true_and]
  by_cases same : known.session = session.row.sessionID
  · rw [if_pos same] at new
    simp [same, new]
  · rw [if_neg same] at new
    simp [same, new, session.begun, Ne.symm same]

theorem Known.turnEnd {ends : TurnEnds} {n : Nat} (known : Known session schedule ends n)
    {status : Status}
    (completes : Completes session schedule n status) :
    Known session schedule (ends.apply status) (n + 1) := by
  have seen := known.seen
  have later := (newest_lt_iff (k := n) seen).mpr (Nat.le_refl n)
  refine .begun (Nat.le_succ_of_le seen) ?_
  rw [newest_succ seen, turns_snoc seen, ← rtake_rtake_append]
  cases known with
  | none unknown =>
    rw [apply_completes completes (by rw [unknown]) (by simpa using schedule.positive),
      Function.update_self]
    simp [turns_self]
  | unbegun known =>
    rw [apply_completes completes (by rw [known]) (by simpa using schedule.positive),
      Function.update_self]
    simp [turns_self]
  | begun first known =>
    rw [apply_completes completes (by rw [known]) (by simpa using later), Function.update_self]
    simp

/-- What an event that completes no turn does to the session's agent. -/
theorem apply_passes (ends : TurnEnds) {status : Status} (passes : Passes session status) :
    ends.apply status session.instance_ = ends session.instance_ ∨
      (status.session = "" ∨ status.session = session.row.sessionID) ∧
        ends.apply status session.instance_ =
          let known := (ends session.instance_).getD ⟨"", 0, []⟩
          some
            (if status.session ≠ "" ∧ status.session ≠ known.session then ⟨status.session, 0, []⟩
            else known) := by
  rw [TurnEnds.apply]
  by_cases out : status.instance_ = "" ∨ status.newStatus ≠ "listening" ∨
    status.oldStatus = "listening"
  · rw [if_pos out]
    exact .inl rfl
  rw [if_neg out]
  obtain other | ⟨session_, idle⟩ := passes
  · exact .inl (Function.update_of_ne (Ne.symm other) ..)
  by_cases agent : status.instance_ = session.instance_
  · have worked : ¬(status.oldStatus = "active" ∨ status.oldStatus = "blocked") := by
      obtain deaf | idle := idle
      · exact absurd (.inr (.inl deaf)) out
      · exact fun worked => worked.elim idle.1 idle.2
    refine .inr ⟨session_, ?_⟩
    simp only [agent, Function.update_self, worked, false_and, if_false]
  · exact .inl (Function.update_of_ne (Ne.symm agent) ..)

theorem Known.status {ends : TurnEnds} {n : Nat} (known : Known session schedule ends n)
    {status : Status}
    (passes : Passes session status) : Known session schedule (ends.apply status) n := by
  obtain same | ⟨session_, goes⟩ := apply_passes ends passes
  · cases known with
    | none unknown => exact .none (same.trans unknown)
    | unbegun known => exact .unbegun (same.trans known)
    | begun seen known => exact .begun seen (same.trans known)
  cases known with
  | none unknown =>
    rw [unknown] at goes
    obtain blank | same := session_
    · exact .unbegun (by simpa [blank] using goes)
    · refine .begun (Nat.le_refl _) ?_
      rw [goes]
      simp [same, session.begun, newest_first, turns_self]
  | unbegun known =>
    rw [known] at goes
    obtain blank | same := session_
    · exact .unbegun (by simpa [blank] using goes)
    · refine .begun (Nat.le_refl _) ?_
      rw [goes]
      simp [same, session.begun, newest_first, turns_self]
  | begun seen known =>
    rw [known] at goes
    refine .begun seen ?_
    rw [goes]
    obtain blank | same := session_
    · simp [blank]
    · simp [same]

/-- A lookup is handed the turns after the newest judged. -/
theorem Known.since {ends : TurnEnds} {n k : Nat} (known : Known session schedule ends n)
    (seen : schedule.first ≤ k)
    (low : k ≤ n) (few : k < n → n ≤ k + recentTurns) :
    ends.since session.instance_ session.row.sessionID (newest schedule k) =
      turns schedule k n := by
  have same : k = n → turns schedule k n = [] := fun is => is ▸ turns_self k
  rw [TurnEnds.since, if_neg session.begun]
  cases known with
  | none unknown => simp [unknown, same (Nat.le_antisymm low seen)]
  | unbegun known => simp [known, same (Nat.le_antisymm low seen)]
  | begun first known =>
    rw [known]
    have low' : (turns schedule schedule.first n).length - recentTurns ≤
        (turns schedule schedule.first k).length := by
      simp only [turns, List.length_map, List.length_range']
      by_cases more : k < n
      · have := few more
        omega
      · omega
    have kept : (turns schedule schedule.first n).rtake recentTurns =
        (turns schedule schedule.first k).drop
          ((turns schedule schedule.first n).length - recentTurns) ++
          turns schedule k n := by
      rw [← List.drop_append_of_le_length low', ← turns_append seen low]
      rfl
    have judged : ((turns schedule schedule.first k).drop
        ((turns schedule schedule.first n).length - recentTurns)).filter
          (fun turn => newest schedule k < turn.id) = [] := by
      refine List.filter_eq_nil_iff.mpr fun turn on => ?_
      obtain ⟨i, above, below, id⟩ := mem_turns (List.mem_of_mem_drop on)
      simpa [id, newest_lt_iff above] using below
    simp [kept, judged, turns_after seen (Nat.le_refl k) low]

/-- A lookup is handed none only if none has ended since. -/
theorem Known.since_nil {ends : TurnEnds} {n k : Nat} (known : Known session schedule ends n)
    (seen : schedule.first ≤ k)
    (low : k ≤ n) (none : ends.since session.instance_ session.row.sessionID (newest schedule k) =
    []) : k = n := by
  by_contra other
  have more : k < n := by omega
  cases known with
  | none unknown => omega
  | unbegun known => omega
  | begun first known =>
    rw [TurnEnds.since, if_neg session.begun, known] at none
    simp only [ne_eq, not_true_eq_false, if_false] at none
    -- the last turn that has ended is kept, and newer
    obtain ⟨e, rfl⟩ := Nat.exists_eq_succ_of_ne_zero (show n ≠ 0 by omega)
    have last : (⟨schedule.id e, schedule.endedAt e⟩ : Turn) ∈
        (turns schedule schedule.first (e + 1)).rtake recentTurns := by
      rw [turns_snoc (by omega), show recentTurns = 15 + 1 from rfl, List.rtake_concat_succ]
      exact List.mem_append_right _ (List.mem_singleton_self _)
    have newer := List.filter_eq_nil_iff.mp none _ last
    have after : newest schedule k < schedule.id e := (newest_lt_iff (by omega)).mpr (by omega)
    simp [after] at newer

/-! ## The end markers -/

/-- The end markers of a transcript are those of the turns from one on, up to another. -/
inductive Marks (schedule : Schedule) : Nat → Nat → List Entry → Prop
  | nil (k : Nat) : Marks schedule k k []
  | other {j k : Nat} {entry : Entry} {entries : List Entry} (plain : entry.kind ≠ .turnDuration)
      (rest : Marks schedule j k entries) : Marks schedule j k (entry :: entries)
  | mark {j k : Nat} {entry : Entry} {entries : List Entry} (kind : entry.kind = .turnDuration)
      (time : entry.time = schedule.markedAt j) (rest : Marks schedule (j + 1) k entries) :
      Marks schedule j k (entry :: entries)

namespace Marks

theorem le {j k : Nat} {entries : List Entry} (marks : Marks schedule j k entries) : j ≤ k := by
  induction marks with
  | nil => exact Nat.le_refl _
  | other plain rest inductionHypothesis => exact inductionHypothesis
  | mark kind time rest inductionHypothesis => omega

theorem append {i j k : Nat} {entries later : List Entry} (marks : Marks schedule i j entries)
    (after : Marks schedule j k later) : Marks schedule i k (entries ++ later) := by
  induction marks with
  | nil => exact after
  | other plain rest inductionHypothesis => exact .other plain (inductionHypothesis after)
  | mark kind time rest inductionHypothesis => exact .mark kind time (inductionHypothesis after)

theorem split {i k : Nat} {entries later : List Entry}
    (marks : Marks schedule i k (entries ++ later)) :
    Marks schedule i (i + markers entries) entries ∧
      Marks schedule (i + markers entries) k later := by
  induction entries generalizing i with
  | nil => exact ⟨.nil i, marks⟩
  | cons entry entries inductionHypothesis =>
    cases marks with
    | other plain rest =>
      obtain ⟨left, right⟩ := inductionHypothesis rest
      have count : markers (entry :: entries) = markers entries := by simp [markers, plain]
      rw [count]
      exact ⟨.other plain left, right⟩
    | mark kind time rest =>
      obtain ⟨left, right⟩ := inductionHypothesis rest
      have count : i + markers (entry :: entries) = i + 1 + markers entries := by
        simp [markers, kind]
        omega
      rw [count]
      exact ⟨.mark kind time left, right⟩

/-- The end marker of a later turn is after all of them. -/
theorem before_of_le {i j k : Nat} {entries : List Entry} (marks : Marks schedule i j entries)
    (le : j ≤ k)
    (later : List Entry) : before i k (entries ++ later) = entries ++ before j k later := by
  induction marks with
  | nil => rfl
  | other plain rest inductionHypothesis =>
    simp [before, plain, inductionHypothesis le]
  | mark kind time rest inductionHypothesis =>
    have := rest.le
    simp [before, kind, inductionHypothesis le]
    omega

/-- What comes before the end marker of one of their turns does not change. -/
theorem before_of_lt {i j k : Nat} {entries : List Entry} (marks : Marks schedule i j entries)
    (low : i ≤ k) (lt : k < j)
    (later : List Entry) : before i k (entries ++ later) = before i k entries := by
  induction marks with
  | nil => omega
  | other plain rest inductionHypothesis => simp [before, plain, inductionHypothesis low lt]
  | @mark i _ _ _ kind time rest inductionHypothesis =>
    by_cases here : k ≤ i
    · simp [before, kind, here]
    · simp [before, kind, here, inductionHypothesis (by omega) lt]

/-- The first marker that is not before the turn's time is its own, whichever turn the search begins
at. -/
theorem find {j k m : Nat} {entries : List Entry} (marks : Marks schedule j m entries)
    (low : j ≤ k) :
    (entries.findIdx? fun entry => entry.kind = .turnDuration &&
    !decide (entry.time < schedule.endedAt k)) =
      if k < m then some (before j k entries).length else none := by
  induction marks with
  | nil i => simp [Nat.not_lt.mpr low]
  | other plain rest inductionHypothesis =>
    rw [List.findIdx?_cons]
    simp only [plain, decide_false, Bool.false_and, Bool.false_eq_true, if_false,
      inductionHypothesis low, before]
    split <;> simp
  | @mark j _ entry entries kind time rest inductionHypothesis =>
    rw [List.findIdx?_cons]
    by_cases here : k ≤ j
    · obtain rfl : j = k := Nat.le_antisymm low here
      have own := schedule.marks j
      have landed := rest.le
      simp [kind, time, not_lt.mpr own, before, show j < _ from landed]
    · have earlier := schedule.marked_before (Nat.not_le.mp here)
      simp only [kind, time, earlier, decide_true, Bool.not_true, Bool.and_false,
        Bool.false_eq_true, if_false,
        inductionHypothesis (by omega), before, if_true, if_neg here]
      split <;> simp

/-- The entries at a turn's end marker. -/
theorem parts {j k m : Nat} {entries : List Entry} (marks : Marks schedule j m entries)
    (low : j ≤ k) (landed : k < m) :
    ∃ marker later, entries = before j k entries ++ marker :: later ∧ marker.kind = .turnDuration ∧
      Marks schedule j (k + 1) (before j k entries ++ [marker]) ∧
        Marks schedule (k + 1) m later := by
  induction marks with
  | nil => omega
  | @other _ _ entry _ plain rest inductionHypothesis =>
    obtain ⟨marker, later, is, kind, upTo, after⟩ := inductionHypothesis low landed
    rw [before, if_neg plain]
    exact ⟨marker, later, by rw [List.cons_append, ← is], kind, .other plain upTo, after⟩
  | @mark j _ entry _ kind time rest inductionHypothesis =>
    by_cases here : k ≤ j
    · obtain rfl : j = k := Nat.le_antisymm low here
      rw [before, if_pos kind, if_pos here]
      exact ⟨entry, _, rfl, kind, .mark kind time (.nil _), rest⟩
    · obtain ⟨marker, later, is, kind', upTo, after⟩ := inductionHypothesis (by omega) landed
      rw [before, if_pos kind, if_neg here]
      exact ⟨marker, later, by rw [List.cons_append, ← is], kind', .mark kind time upTo, after⟩

end Marks

/-! ## The final text -/

theorem finalTextBack_append (later earlier : List Entry) : finalTextBack (later ++ earlier) =
    if later.any decides then finalTextBack later else finalTextBack earlier := by
  induction later with
  | nil => rfl
  | cons entry later inductionHypothesis =>
    rw [List.cons_append, finalTextBack, inductionHypothesis, List.any_cons, decides]
    by_cases text : entry.kind = .assistantText
    · simp [text, finalTextBack, turnActivity]
    · by_cases stops : (decide (entry.kind = .turnDuration) || turnActivity entry.kind) = true
      · simp [finalTextBack, text, stops]
      · simp [finalTextBack, text, stops]

/-- The last entry that decides has the last word, and none is no final text. -/
theorem finalText_append (earlier later : List Entry) : finalText (earlier ++ later) =
    if later.any decides then finalText later else finalText earlier := by
  rw [finalText, List.reverse_append, finalTextBack_append, List.any_reverse]
  rfl

theorem finalText_of_none {entries : List Entry} (none : entries.any decides = false) :
    finalText entries = false := by
  have all := finalText_append [] entries
  rw [none] at all
  exact all

/-- A text is final if it is visible and nothing after it decides. -/
theorem finalText_iff (entries : List Entry) : finalText entries = true ↔
    ∃ earlier entry later, entries = earlier ++ entry :: later ∧ entry.kind = .assistantText ∧
      Fencing.hasVisibleText (assistantText entry.payload) = true ∧ ∀ chip ∈ later,
        decides chip = false := by
  induction entries using List.reverseRecOn with
  | nil => simp [finalText, finalTextBack]
  | append_singleton entries last inductionHypothesis =>
    rw [finalText_append]
    by_cases decided : decides last
    · have alone : finalText [last] = true ↔ last.kind = .assistantText ∧
          Fencing.hasVisibleText (assistantText last.payload) = true := by
        by_cases text : last.kind = .assistantText
        · simp [finalText, finalTextBack, text]
        · simp only [decides, Bool.or_eq_true, decide_eq_true_eq] at decided
          simp [finalText, finalTextBack, text, decided]
      rw [List.any_cons, decided, Bool.true_or, if_pos rfl, alone]
      constructor
      · rintro ⟨text, visible⟩
        exact ⟨entries, last, [], rfl, text, visible, by simp⟩
      · rintro ⟨earlier, entry, later, is, text, visible, chips⟩
        -- the last entry decides, so it is none of those after the text
        cases later using List.reverseRecOn with
        | nil =>
          obtain ⟨-, rfl⟩ := List.append_inj' is rfl |>.imp_right List.singleton_inj.mp
          exact ⟨text, visible⟩
        | append_singleton later chip =>
          rw [← List.cons_append, ← List.append_assoc] at is
          obtain ⟨-, rfl⟩ := List.append_inj' is rfl |>.imp_right List.singleton_inj.mp
          simp [chips last (by simp)] at decided
    · rw [List.any_cons, Bool.eq_false_iff.mpr decided, List.any_nil, Bool.or_false,
        if_neg Bool.false_ne_true,
        inductionHypothesis]
      constructor
      · rintro ⟨earlier, entry, later, rfl, text, visible, chips⟩
        refine ⟨earlier, entry, later ++ [last], by simp, text, visible, fun chip on => ?_⟩
        obtain on | rfl := (List.mem_append.mp on).imp_right List.mem_singleton.mp
        · exact chips chip on
        · exact Bool.eq_false_iff.mpr decided
      · rintro ⟨earlier, entry, later, is, text, visible, chips⟩
        cases later using List.reverseRecOn with
        | nil =>
          obtain ⟨-, rfl⟩ := List.append_inj' is rfl |>.imp_right List.singleton_inj.mp
          simp [decides, text, turnActivity] at decided
        | append_singleton later chip =>
          rw [← List.cons_append, ← List.append_assoc] at is
          obtain ⟨rfl, -⟩ := List.append_inj' is rfl
          exact ⟨earlier, entry, later, rfl, text, visible, fun chip on =>
            chips chip (List.mem_append_left _ on)⟩

/-! ## The judgement -/

theorem replyOf_succ (transcript : List Entry) {k : Nat} (seen : schedule.first ≤ k) :
    replyOf schedule transcript (k + 1) =
      if endedPlain transcript k then schedule.id k else replyOf schedule transcript k := by
  rw [replyOf, if_neg (Nat.not_lt.mpr seen)]

/-- Judging the turns from `k` on, with what comes before the turn's marker in two parts: `searched`
ends with the last marker found. -/
theorem judgeFrom_turns {e k j b m : Nat} {dropped searched left : List Entry}
    (seen : schedule.first ≤ k) (high : k ≤ e)
    (fell : Marks schedule 0 b dropped) (found : Marks schedule b j searched)
    (ahead : Marks schedule j m left)
    (low : j ≤ k)
    (early : ∀ entry ∈ (searched ++ left).head?, entry.time < schedule.endedAt k)
    (final : k < m → endedPlain (dropped ++ (searched ++ left)) k →
      ∃ entry ∈ searched ++ before j k left, decides entry) :
    judgeFrom (searched ++ left) searched.length (turns schedule k e)
        ⟨newest schedule k, replyOf schedule (dropped ++ (searched ++ left)) k⟩ =
      ⟨newest schedule (max k (min e m)),
        replyOf schedule (dropped ++ (searched ++ left)) (max k (min e m))⟩ := by
  obtain rfl | more := Nat.eq_or_lt_of_le high
  · rw [turns_self, judgeFrom, Nat.max_eq_left (Nat.min_le_left ..)]
  have inside :
      ¬((searched ++ left).head?.any fun entry => !decide (entry.time < schedule.endedAt k)) =
      true := by
    cases first : (searched ++ left).head? with
    | none => simp
    | some entry => simpa using early entry first
  rw [turns_cons more, judgeFrom, if_neg inside, markerFrom, List.drop_left, ahead.find low]
  -- A turn whose end marker is in the tail is judged; one without it ends the judging.
  by_cases landed : k < m
  · obtain ⟨marker, later, is, kind, upTo, rest⟩ := ahead.parts low landed
    have whole :
        before 0 k (dropped ++ (searched ++ left)) = dropped ++ (searched ++ before j k left) := by
      rw [fell.before_of_le (found.le.trans low), found.before_of_le low]
    -- The part of the tail before the marker decides as the whole transcript does.
    have verdict :
        finalText (searched ++ before j k left) = endedPlain (dropped ++ (searched ++ left)) k := by
      cases said : (searched ++ before j k left).any decides with
      | true => rw [endedPlain, whole, finalText_append dropped, said, if_pos rfl]
      | false =>
        rw [finalText_of_none said, eq_comm, Bool.eq_false_iff]
        intro plain
        obtain ⟨entry, on, decided⟩ := final landed plain
        exact absurd decided (by simpa using List.any_eq_false.mp said entry on)
    have at_ : searched ++ left = (searched ++ before j k left) ++ marker :: later := by
      rw [List.append_assoc, ← is]
    have taken : (searched ++ left).take (searched.length + (before j k left).length) = searched ++
        before j k left := by
      rw [at_]
      exact List.take_left' (by simp)
    have joined : (searched ++ (before j k left ++ [marker])) ++ later = searched ++ left := by
      simp [at_]
    have next : (searched ++ (before j k left ++ [marker])).length =
        searched.length + (before j k left).length + 1 := by
      simp [Nat.add_assoc]
    -- The next turn is searched after its marker, which decides for all before it.
    have again := judgeFrom_turns (seen.trans (Nat.le_succ k)) more fell (found.append upTo) rest
      (Nat.le_refl _)
      (fun entry first => (early entry (joined ▸ first)).trans
        (schedule.endedAt_strictMono (Nat.lt_succ_self k)))
      (fun _ _ => ⟨marker, by simp, by simp [decides, kind]⟩)
    rw [joined, next, newest_succ seen, replyOf_succ _ seen] at again
    simp only [if_pos landed, Option.map_some, taken, verdict]
    rw [again, show max k (min e m) = max (k + 1) (min e m) by omega]
  · simp only [if_neg landed, Option.map_none]
    rw [Nat.max_eq_left (by omega)]
termination_by e - k

/-! ## Runs -/

/-- What has been judged stays what it is when the transcript grows. -/
theorem replyOf_append {transcript : List Entry} {m : Nat} (marks : Marks schedule 0 m transcript)
    (later : List Entry)
    {n : Nat} (landed : n ≤ max schedule.first m) :
    replyOf schedule (transcript ++ later) n = replyOf schedule transcript n := by
  induction n with
  | zero => rfl
  | succ n inductionHypothesis =>
    rw [replyOf, replyOf, inductionHypothesis (by omega)]
    by_cases early : n < schedule.first
    · rw [if_pos early, if_pos early]
    · rw [endedPlain, endedPlain, marks.before_of_lt (Nat.zero_le n) (by omega)]

theorem replyOf_le_newest (transcript : List Entry) (n : Nat) :
    replyOf schedule transcript n ≤ newest schedule n := by
  induction n with
  | zero => exact Int.le_refl 0
  | succ n inductionHypothesis =>
    rw [replyOf, newest]
    split
    · exact Int.le_refl 0
    next seen =>
      have later := (newest_lt_iff (k := n) (Nat.not_lt.mp seen)).mpr (Nat.le_refl n)
      split <;> omega

theorem replyOf_mono (transcript : List Entry) {k n : Nat} (le : k ≤ n) :
    replyOf schedule transcript k ≤ replyOf schedule transcript n := by
  induction le with
  | refl => exact Int.le_refl _
  | @step n _ inductionHypothesis =>
    by_cases early : n < schedule.first
    · rw [replyOf_first transcript (show n ≤ schedule.first by omega)] at inductionHypothesis
      rw [replyOf_first transcript (show n + 1 ≤ schedule.first by omega)]
      exact inductionHypothesis
    · have seen := Nat.not_lt.mp early
      have bound : replyOf schedule transcript n ≤ newest schedule n :=
        replyOf_le_newest transcript n
      have later := (newest_lt_iff (k := n) seen).mpr (Nat.le_refl n)
      rw [replyOf_succ transcript seen]
      split <;> omega

/-- Where a lookup is, when the turns below `n` are judged: it read what was kept when those below
some `k` were.  If nothing was judged since, it finds what holds of the turns handed to it. -/
inductive Stage (schedule : Schedule) (world : World) (n : Nat) : Lookup → Prop
  | began {k : Nat} (seen : schedule.first ≤ k) (judged : k ≤ n) :
      Stage schedule world n (.began ⟨newest schedule k, replyOf schedule world.transcript k⟩)
  | handed {k ended : Nat} {handed : List Turn} (seen : schedule.first ≤ k) (judged : k ≤ n)
      (fresh : k = n → k < ended ∧ ended ≤ world.ended ∧ handed = turns schedule k ended) :
      Stage schedule world n (.handed
        ⟨newest schedule k, replyOf schedule world.transcript k⟩ handed ended)
  | judged {k : Nat} {handed : List Turn} {found : Answer} (seen : schedule.first ≤ k)
      (judged : k ≤ n)
      (fresh : k = n → ∃ ended, k ≤ ended ∧ ended ≤ world.ended ∧
        found.leading ≤ min ended world.marked ∧
        (k ≤ found.leading ∨ k ≤ schedule.first) ∧ handed = turns schedule k ended ∧
        found.current =
          ⟨newest schedule (max k found.leading),
            replyOf schedule world.transcript (max k found.leading)⟩) :
      Stage schedule world n (.judged
        ⟨newest schedule k, replyOf schedule world.transcript k⟩ handed found)

/-- The turns below `n` are judged, once each. -/
structure Sound (session : Session) (schedule : Schedule) (world : World) (n : Nat) : Prop where
  seen : schedule.first ≤ n
  ended : n ≤ world.ended
  landed : n ≤ max schedule.first world.marked
  known : Known session schedule world.ends world.ended
  marks : Marks schedule 0 world.marked world.transcript
  current : world.current session = ⟨newest schedule n, replyOf schedule world.transcript n⟩
  once : world.judgements = (turns schedule schedule.first n).map Turn.id
  stages : ∀ i lookup, world.lookups i = some lookup → Stage schedule world n lookup
  answers : ∀ answer ∈ world.answers, answer.leading ≤ n ∧
    answer.current = ⟨newest schedule answer.leading,
      replyOf schedule world.transcript answer.leading⟩

/-- Turns that came before the first count for nothing. -/
theorem newest_max {k n : Nat} (low : k ≤ n ∨ k ≤ schedule.first) :
    newest schedule (max k n) = newest schedule n := by
  obtain same | early := low
  · rw [Nat.max_eq_right same]
  · obtain less | more := Nat.le_total n schedule.first
    · rw [newest_first (Nat.max_le.mpr ⟨early, less⟩), newest_first less]
    · rw [Nat.max_eq_right (early.trans more)]

theorem replyOf_max (transcript : List Entry) {k n : Nat} (low : k ≤ n ∨ k ≤ schedule.first) :
    replyOf schedule transcript (max k n) = replyOf schedule transcript n := by
  obtain same | early := low
  · rw [Nat.max_eq_right same]
  · obtain less | more := Nat.le_total n schedule.first
    · rw [replyOf_first _ (Nat.max_le.mpr ⟨early, less⟩), replyOf_first _ less]
    · rw [Nat.max_eq_right (early.trans more)]

theorem newest_inj {k n : Nat} (seen : schedule.first ≤ k) (seen' : schedule.first ≤ n)
    (same : newest schedule k = newest schedule n) : k = n := by
  have below : ∀ {i j : Nat}, schedule.first ≤ i → newest schedule i = newest schedule j →
      j ≤ i := by
    intro i j seen same
    rw [← newest_lt_iff seen, ← same]
    exact (newest_lt_iff seen).mpr (Nat.le_refl i)
  exact Nat.le_antisymm (below seen' same.symm) (below seen same)

/-- What a lookup found stays so while the transcript grows and others judge. -/
theorem Stage.later {world later : World} {n n' : Nat} {lookup : Lookup}
    (stage : Stage schedule world n lookup)
    (le : n ≤ n') (landed : n ≤ max schedule.first world.marked) (ended : world.ended ≤ later.ended)
    (marked : world.marked ≤ later.marked)
    (same : ∀ k, k ≤ max schedule.first world.marked →
      replyOf schedule later.transcript k = replyOf schedule world.transcript k) :
    Stage schedule later n' lookup := by
  cases stage with
  | @began k seen judged =>
    rw [← same k (judged.trans landed)]
    exact .began seen (judged.trans le)
  | @handed k _ _ seen judged fresh =>
    rw [← same k (judged.trans landed)]
    refine .handed seen (judged.trans le) fun own => ?_
    have own : k = n := by omega
    obtain ⟨more, most, is⟩ := fresh own
    exact ⟨more, most.trans ended, is⟩
  | @judged k _ found seen judged fresh =>
    rw [← same k (judged.trans landed)]
    refine .judged seen (judged.trans le) fun own => ?_
    have own : k = n := by omega
    obtain ⟨e, low, most, leading, above, is, current⟩ := fresh own
    clear fresh
    refine ⟨e, low, most.trans ended, by omega, above, is, ?_⟩
    rw [current, same _ (by omega)]

namespace Sound

theorem start : Sound session schedule (World.start schedule) schedule.first where
  seen := Nat.le_refl _
  ended := Nat.le_refl _
  landed := Nat.le_max_left ..
  known := .none rfl
  marks := .nil 0
  current := by
    rw [newest_first (Nat.le_refl _), replyOf_first _ (Nat.le_refl _)]
    rfl
  once := by rw [turns_self]; rfl
  stages := by
    intro i lookup on
    cases on
  answers := by
    intro answer on
    cases on

/-- The first turn that is not judged is the oldest such that has ended. -/
theorem oldest {world : World} {n : Nat} (sound : Sound session schedule world n)
    (more : n < world.ended) :
    Oldest session schedule world n where
  seen := sound.seen
  ended := more
  unjudged := by
    rw [sound.current]
    exact (newest_lt_iff sound.seen).mpr (Nat.le_refl n)
  judged i seen below := by
    rw [sound.current]
    exact not_lt.mp fun after => absurd ((newest_lt_iff seen).mp after) (by omega)

/-- The transcript may grow, and turns end. -/
theorem later {world later : World} {n : Nat} (sound : Sound session schedule world n)
    (known : Known session schedule later.ends later.ended)
    (marks : Marks schedule 0 later.marked later.transcript)
    (ended : world.ended ≤ later.ended) (marked : world.marked ≤ later.marked)
    (grown : ∃ more, later.transcript = world.transcript ++ more)
    (replies : later.replies = world.replies)
    (lookups : later.lookups = world.lookups) (judgements : later.judgements = world.judgements)
    (answers : later.answers = world.answers) : Sound session schedule later n := by
  obtain ⟨more, grown⟩ := grown
  have same : ∀ k, k ≤ max schedule.first world.marked →
      replyOf schedule later.transcript k = replyOf schedule world.transcript k := by
    intro k landed
    rw [grown, replyOf_append sound.marks more landed]
  have landed := sound.landed
  refine ⟨sound.seen, sound.ended.trans ended, by omega, known, marks, ?_, ?_, ?_, ?_⟩
  · rw [World.current, replies, same n landed]
    exact sound.current
  · rw [judgements, sound.once]
  · intro i lookup on
    rw [lookups] at on
    exact (sound.stages i lookup on).later le_rfl landed ended marked same
  · intro answer on
    rw [answers] at on
    obtain ⟨below, current⟩ := sound.answers answer on
    exact ⟨below, by rw [current, same _ (below.trans landed)]⟩

/-- A lookup gets on. -/
theorem goes {world : World} {n : Nat} (sound : Sound session schedule world n) (i : Nat)
    {lookup : Option Lookup}
    (stage : ∀ own, lookup = some own → Stage schedule world n own) {answers : List Answer}
    (found : ∀ answer ∈ answers, answer ∈ world.answers ∨ answer.leading ≤ n ∧
      answer.current = ⟨newest schedule answer.leading,
        replyOf schedule world.transcript answer.leading⟩) :
    Sound session schedule { world with lookups := Function.update world.lookups i lookup, answers }
      n := by
  refine { sound with stages := ?_, answers := ?_ }
  · intro j own on
    have kept : Stage schedule world n own := by
      by_cases here : j = i
      · subst here
        exact stage own (by simpa using on)
      · exact sound.stages j own (by simpa [Function.update_of_ne here] using on)
    exact kept.later le_rfl sound.landed le_rfl le_rfl fun _ _ => rfl
  · intro answer on
    exact (found answer on).elim (sound.answers answer) id

theorem begin {world : World} {n : Nat} (sound : Sound session schedule world n) (i : Nat) :
    Sound session schedule (world.begin session i) n := by
  refine sound.goes i (fun own is => ?_) fun answer on => .inl on
  cases is
  rw [sound.current]
  exact .began sound.seen le_rfl

theorem hand {world : World} {n i : Nat} {kept : ReplyEnd} (sound : Sound session schedule world n)
    (on : world.lookups i = some (.began kept)) (few : Few session schedule world) :
    Sound session schedule (world.hand session i kept) n := by
  have stage := sound.stages i _ on
  generalize is : Lookup.began kept = own at stage
  cases stage with
  | @began k seen judged =>
    cases is
    rw [World.hand]
    dsimp only
    split
    · next none =>
      -- no turn has ended since, so none that is judged is newer
      obtain rfl : k = n := by
        have all := sound.known.since_nil seen (judged.trans sound.ended) (List.isEmpty_iff.mp none)
        exact Nat.le_antisymm judged (all ▸ sound.ended)
      refine sound.goes i (fun own is => by cases is) fun answer found => ?_
      obtain old | rfl := (List.mem_append.mp found).imp_right List.mem_singleton.mp
      · exact .inl old
      · have ended : k = world.ended :=
          sound.known.since_nil seen sound.ended (List.isEmpty_iff.mp none)
        have landed := sound.landed
        have low : k ≤ world.leading ∨ k ≤ schedule.first := by
          rw [World.leading]
          omega
        have below : world.leading ≤ k := by
          rw [World.leading]
          omega
        refine .inr ⟨below, ?_⟩
        have most : max k world.leading = k := by
          rw [World.leading]
          omega
        show (⟨newest schedule k, _⟩ : ReplyEnd) = ⟨newest schedule world.leading, _⟩
        rw [← newest_max low, ← replyOf_max _ low, most]
    · refine sound.goes i (fun own is => ?_) fun answer found => .inl found
      cases is
      refine .handed seen judged fun fresh => ?_
      subst fresh
      next some =>
        have given := sound.known.since sound.seen sound.ended fun more => few k (sound.oldest more)
        refine ⟨Nat.lt_of_le_of_ne sound.ended fun all => some ?_, le_rfl, given⟩
        show (world.ends.since session.instance_ session.row.sessionID
          (newest schedule k)).isEmpty = true
        rw [given, all, turns_self]
        rfl
  | handed => cases is
  | judged => cases is

/-- The turns that it was handed are judged as far as their end markers have landed. -/
theorem read {world : World} {n i ended : Nat} {kept : ReplyEnd} {handed : List Turn}
    (sound : Sound session schedule world n)
    (on : world.lookups i = some (.handed kept handed ended))
    (holds : Holds session schedule world) :
    Sound session schedule (world.read session i kept handed ended) n := by
  refine sound.goes i (fun own is => ?_) fun answer found => .inl found
  cases is
  have stage := sound.stages i _ on
  generalize is : Lookup.handed kept handed ended = own at stage
  cases stage with
  | @handed k _ _ seen judged fresh =>
    cases is
    refine .judged seen judged fun own => ?_
    subst own
    obtain ⟨more, most, rfl⟩ := fresh rfl
    have oldest := sound.oldest (more.trans_le most)
    have parts : world.dropped ++ world.tail = world.transcript := List.take_append_drop ..
    have marks := sound.marks
    rw [← parts] at marks
    obtain ⟨fell, ahead⟩ := marks.split
    rw [Nat.zero_add] at fell ahead
    have low : markers world.dropped ≤ k := by
      by_cases landed : k < world.marked
      · exact holds.holds k oldest landed
      · exact ahead.le.trans (Nat.not_lt.mp landed)
    have judged := judgeFrom_turns seen more.le fell (.nil _) ahead low (holds.earlier k oldest)
      fun landed plain => holds.final k oldest landed (parts ▸ plain)
    rw [List.nil_append, parts] at judged
    have reads :
      (if session.row.tool = "claude" ∨ session.row.tool = "codex" then some world.tail else none) =
        some world.tail := if_pos session.read
    have landed := sound.landed
    refine ⟨ended, more.le, most, le_rfl, by dsimp only; omega, rfl, ?_⟩
    simp only [judge, reads, judgeTurns]
    exact judged
  | began => cases is
  | judged => cases is

/-- Nothing was judged since it read what is kept, so no turn is judged again. -/
theorem store {world : World} {n i : Nat} {kept : ReplyEnd} {handed : List Turn} {found : Answer}
    (sound : Sound session schedule world n)
    (on : world.lookups i = some (.judged kept handed found))
    (alone : Alone session world kept) :
    Sound session schedule (world.store session i handed found) (max n found.leading) := by
  have stage := sound.stages i _ on
  generalize is : Lookup.judged kept handed found = own at stage
  cases stage with
  | @judged k _ _ seen judged fresh =>
    cases is
    rw [Alone, sound.current, ReplyEnd.mk.injEq] at alone
    obtain rfl := newest_inj sound.seen seen alone.1
    obtain ⟨ended, low, most, leading, above, rfl, current⟩ := fresh rfl
    clear fresh
    have landed := sound.landed
    have upTo : max n found.leading ≤ ended := by omega
    refine ⟨sound.seen.trans (Nat.le_max_left ..), upTo.trans most, ?_, sound.known, sound.marks,
      ?_, ?_, ?_, ?_⟩
    · show max n found.leading ≤ max schedule.first world.marked
      omega
    · show Function.update world.replies (replyKey session.row session.instance_) found.current
        (replyKey session.row session.instance_) = _
      rw [Function.update_self, current]
      rfl
    · show world.judgements ++ ((turns schedule n ended).filter fun turn =>
        turn.id ≤ found.current.judged).map Turn.id = _
      rw [current, turns_upTo sound.seen (Nat.le_max_left ..) upTo, sound.once, ← List.map_append,
        ← turns_append sound.seen (Nat.le_max_left ..)]
    · intro j own other
      have old : world.lookups j = some own := by
        by_cases here : j = i
        · subst here
          simp [World.store] at other
        · simpa [World.store, Function.update_of_ne here] using other
      exact (sound.stages j own old).later (Nat.le_max_left ..) landed le_rfl le_rfl fun _ _ => rfl
    · intro answer member
      obtain old | rfl := (List.mem_append.mp member).imp_right List.mem_singleton.mp
      · obtain ⟨below, is⟩ := sound.answers answer old
        exact ⟨below.trans (Nat.le_max_left ..), is⟩
      · refine ⟨Nat.le_max_right .., ?_⟩
        show answer.current = ⟨_, replyOf schedule world.transcript answer.leading⟩
        rw [current, newest_max above, replyOf_max _ above]
  | began => cases is
  | handed => cases is

/-- Every step keeps what is judged, and none takes a judgement back. -/
theorem step {world later : World} {n : Nat} (sound : Sound session schedule world n)
    (step : Step session schedule (Holds session schedule) (Alone session) world later) :
    ∃ n', n ≤ n' ∧ Sound session schedule later n' ∧
      ∀ k, k ≤ n → replyOf schedule later.transcript k = replyOf schedule world.transcript k := by
  have landed := sound.landed
  cases step with
  | turnEnd status completes =>
    refine ⟨n, le_rfl, sound.later (sound.known.turnEnd completes) sound.marks
      (Nat.le_succ _) le_rfl ⟨[], ?_⟩ rfl rfl rfl rfl,
      fun _ _ => rfl⟩
    exact (List.append_nil _).symm
  | status status passes =>
    refine ⟨n, le_rfl, sound.later (sound.known.status passes) sound.marks le_rfl le_rfl
      ⟨[], ?_⟩ rfl rfl rfl rfl,
      fun _ _ => rfl⟩
    exact (List.append_nil _).symm
  | append entry plain =>
    exact ⟨n, le_rfl, sound.later sound.known
      (sound.marks.append (.other plain (.nil _))) le_rfl le_rfl ⟨_, rfl⟩ rfl rfl rfl rfl,
      fun k below => replyOf_append sound.marks _ (below.trans landed)⟩
  | mark payload =>
    exact ⟨n, le_rfl,
      sound.later sound.known (sound.marks.append (.mark rfl rfl (.nil _))) le_rfl (Nat.le_succ _)
        ⟨_, rfl⟩ rfl rfl rfl rfl,
      fun k below => replyOf_append sound.marks _ (below.trans landed)⟩
  | begin i free => exact ⟨n, le_rfl, sound.begin i, fun _ _ => rfl⟩
  | hand i kept on few =>
    refine ⟨n, le_rfl, sound.hand on few, fun _ _ => ?_⟩
    rw [World.hand]
    split <;> rfl
  | read i kept handed ended on holds => exact ⟨n, le_rfl, sound.read on holds, fun _ _ => rfl⟩
  | store i kept handed found on alone =>
      exact ⟨_, Nat.le_max_left .., sound.store on alone, fun _ _ => rfl⟩

/-- What is kept only gets newer. -/
theorem kept {world later : World} {n n' : Nat} (sound : Sound session schedule world n)
    (sound' : Sound session schedule later n') (le : n ≤ n')
    (same : ∀ k, k ≤ n → replyOf schedule later.transcript k =
    replyOf schedule world.transcript k) :
    (world.current session).judged ≤ (later.current session).judged ∧
      (world.current session).reply ≤ (later.current session).reply := by
  rw [sound.current, sound'.current, ← same n le_rfl]
  exact ⟨newest_mono le, replyOf_mono _ le⟩

theorem run {world : World}
    (run : Run session schedule (Holds session schedule) (Alone session) world) :
    ∃ n, Sound session schedule world n := by
  induction run with
  | refl => exact ⟨_, start⟩
  | tail _ last inductionHypothesis =>
    obtain ⟨n, sound⟩ := inductionHypothesis
    obtain ⟨n', -, sound', -⟩ := sound.step last
    exact ⟨n', sound'⟩

theorem follows {world : World} {n : Nat} (sound : Sound session schedule world n) :
    Follows session schedule world where
  answers answer on := (sound.answers answer on).2
  once := by
    refine ⟨n, sound.current, ?_⟩
    rw [sound.once, turns, List.map_map]
    rfl
  kept answer on := by
    obtain ⟨below, is⟩ := sound.answers answer on
    rw [is, sound.current]
    exact newest_mono below

end Sound

/-- In a run whose lookups the tail reaches far enough back for, and store on what they read, every
lookup finds the newest of the leading turns that ended with plain text, each turn is judged once,
and nothing is taken back. -/
theorem replies_follow {world : World}
    (run : Run session schedule (Holds session schedule) (Alone session) world) :
    Follows session schedule world ∧
      ∀ later, Relation.ReflTransGen
        (Step session schedule (Holds session schedule) (Alone session)) world later →
        (world.current session).judged ≤ (later.current session).judged ∧
          (world.current session).reply ≤ (later.current session).reply := by
  obtain ⟨n, sound⟩ := Sound.run run
  refine ⟨sound.follows, fun later goes => ?_⟩
  induction goes with
  | refl => exact ⟨le_rfl, le_rfl⟩
  | tail reached last inductionHypothesis =>
    obtain ⟨n', sound'⟩ := Sound.run (run.trans reached)
    obtain ⟨n'', le, after, same⟩ := sound'.step last
    obtain ⟨judged, reply⟩ := sound'.kept after le same
    exact ⟨inductionHypothesis.1.trans judged, inductionHypothesis.2.trans reply⟩

end


/-! ## One turn -/

def dore : Session := ⟨⟨"claude", "s1"⟩, "dore", by decide, by decide, by decide⟩

/-- A turn every ten seconds, its end marker in the same second. -/
def steady : Schedule where
  first := 0
  id k := k + 1
  endedAt k := 10 * k + 5
  markedAt k := 10 * k + 5
  positive := by decide
  rises k := by omega
  marks k := Int.le_refl _
  apart k := by omega

def doreListens : Status := ⟨1, 5, "dore", "active", "listening", "s1"⟩

def done : Entry := ⟨.assistantText, 1, some ⟨false, none, some (.text ['D', 'o', 'n', 'e', '.'])⟩⟩

def chip : Entry := ⟨.systemChip, 2, none⟩

def firstTurn : List Turn := [⟨1, 5⟩]

/-- The turn has ended, after these entries; its end marker has not landed. -/
def endedAfter (entries : List Entry) : World :=
  { World.start steady with ends := TurnEnds.apply (fun _ => none) doreListens, transcript := entries, ended := 1 }

/-- Its end marker lands. -/
def World.landed (world : World) : World :=
  { world with transcript := world.transcript ++ [⟨.turnDuration, 5, none⟩], marked := 1 }

/-- A lookup that has read the tail. -/
def World.reading (world : World) (i : Nat) : World :=
  ((world.begin dore i).hand dore i ⟨0, 0⟩).read dore i ⟨0, 0⟩ firstTurn 1

section

variable {reads : World → Prop} {stores : World → ReplyEnd → Prop}

theorem run_append {entries : List Entry} (plain : ∀ entry ∈ entries, entry.kind ≠ .turnDuration)
    (world : World) :
    Relation.ReflTransGen (Step dore steady reads stores) world
      { world with transcript := world.transcript ++ entries } := by
  induction entries generalizing world with
  | nil => rw [List.append_nil]
  | cons entry entries inductionHypothesis =>
    have rest := inductionHypothesis (fun later on => plain later (List.mem_cons_of_mem _ on))
      { world with transcript := world.transcript ++ [entry] }
    rw [List.append_assoc] at rest
    exact .head (.append entry (plain entry List.mem_cons_self)) rest

theorem run_endedAfter {entries : List Entry}
    (plain : ∀ entry ∈ entries, entry.kind ≠ .turnDuration) :
    Run dore steady reads stores (endedAfter entries) :=
  (Relation.ReflTransGen.single (.turnEnd doreListens ⟨rfl, rfl, rfl, rfl, rfl, .inl rfl⟩)).trans (run_append plain _)

/-- The one turn is the oldest in question. -/
theorem oldest_endedAfter {world : World} (one : world.ended = 1) {k : Nat}
    (oldest : Oldest dore steady world k) : k = 0 := by
  have := oldest.ended
  omega

/-- A lookup reads the tail while the turn is not judged. -/
theorem run_reading {world : World} (run : Run dore steady reads stores world)
    (one : world.ended = 1) {i : Nat}
    (free : world.lookups i = none) (unjudged : world.current dore = ⟨0, 0⟩)
    (turns : world.ends.since "dore" "s1" 0 = firstTurn)
    (admits : reads ((world.begin dore i).hand dore i ⟨0, 0⟩)) :
    Run dore steady reads stores (world.reading i) := by
  have began : (world.begin dore i).lookups i = some (.began ⟨0, 0⟩) := by
    simp [World.begin, unjudged]
  have few : Few dore steady (world.begin dore i) := fun k _ => by
    show world.ended ≤ k + 16
    omega
  have handed :
      ((world.begin dore i).hand dore i ⟨0, 0⟩).lookups i = some (.handed ⟨0, 0⟩ firstTurn 1) := by
    have given : (world.begin dore i).ends.since dore.instance_ dore.row.sessionID 0 = firstTurn :=
      turns
    have some_ : firstTurn.isEmpty = false := rfl
    simp only [World.hand, given, some_, Bool.false_eq_true, if_false]
    rw [Function.update_self]
    exact congrArg (fun ended => some (Lookup.handed ⟨0, 0⟩ firstTurn ended)) one
  exact ((run.tail (.begin i free)).tail (.hand i _ began few)).tail (.read i _ _ _ handed admits)

/-- The tail holds all there is, from before the turn's end on. -/
theorem holds_whole {world : World} (one : world.ended = 1) (short : world.transcript.length ≤ replyTailEntries)
    (earlier : ∀ entry ∈ world.transcript.head?, entry.time < 5)
    (final : ∃ entry ∈ before 0 0 world.transcript, decides entry) : Holds dore steady world := by
  have tail : world.tail = world.transcript := by
    rw [World.tail, List.rtake, Nat.sub_eq_zero_of_le short, List.drop_zero]
  have dropped : world.dropped = [] := by
    rw [World.dropped, List.rdrop, Nat.sub_eq_zero_of_le short, List.take_zero]
  refine ⟨⟨fun k oldest => ?_, fun k oldest _ => ?_⟩, fun k oldest _ _ => ?_⟩ <;> obtain rfl := oldest_endedAfter one oldest
  · rw [tail]
    exact earlier
  · rw [dropped]
    exact Nat.zero_le _
  · rw [dropped, tail]
    exact final

end

/-- The turn is judged once its end marker has landed. -/
theorem replies_follow_answered : ∃ world, world.answers.map Answer.current = [⟨1, 1⟩] ∧ Follows dore steady world := by
  have landed : Run dore steady (Holds dore steady) (Alone dore) (endedAfter [done]).landed :=
    (run_endedAfter (by decide)).tail (.mark none)
  have read := run_reading landed rfl (i := 0) rfl rfl rfl
    (holds_whole rfl (by decide) (by rintro _ ⟨⟩; decide) ⟨done, List.mem_cons_self, rfl⟩)
  have stored := read.tail (.store 0 _ _ ⟨1, ⟨1, 1⟩⟩ (by rfl) rfl)
  exact ⟨_, rfl, (replies_follow stored).1⟩

/-- The final text is one entry before the tail, which begins before the turn's end all the same. -/
def chipped : World := (endedAfter (done :: List.replicate 39 chip)).landed

theorem chipped_reaches {world : World} (one : world.ended = 1) (same : world.transcript = chipped.transcript) :
    Reaches dore steady world := by
  refine ⟨fun k oldest => ?_, fun k oldest _ => ?_⟩ <;> obtain rfl := oldest_endedAfter one oldest
  · rw [World.tail, same]
    intro entry first
    obtain rfl : chip = entry := Option.some.inj first
    decide
  · rw [World.dropped, same]
    decide +kernel

/-- A lookup reads the tail before the end marker lands; another finds the turn and stores it, and
then
the first stores what it has. -/
def overtaken : World :=
  let late := ((endedAfter [done]).reading 0).landed.reading 1
  (late.store dore 1 firstTurn ⟨1, ⟨1, 1⟩⟩).store dore 0 firstTurn ⟨0, ⟨0, 0⟩⟩

/-- Chips hide the final text of a turn, and a lookup that stores late takes a judgement back. -/
theorem replies_hidden_and_taken_back :
    (¬∀ (session : Session) (schedule : Schedule) (world : World),
      Run session schedule (Reaches session schedule) (Alone session) world →
        Follows session schedule world) ∧
    ¬∀ (session : Session) (schedule : Schedule) (world later : World),
      Run session schedule (Holds session schedule) (fun _ _ => True) world →
      Step session schedule (Holds session schedule) (fun _ _ => True) world later →
      (world.current session).reply ≤ (later.current session).reply := by
  constructor
  · intro follows
    have landed : Run dore steady (Reaches dore steady) (Alone dore) chipped :=
      (run_endedAfter (by decide)).tail (.mark none)
    have read := run_reading landed rfl (i := 0) rfl rfl rfl (chipped_reaches rfl rfl)
    have found : (chipped.reading 0).lookups 0 = some (.judged ⟨0, 0⟩ firstTurn ⟨1, ⟨1, 0⟩⟩) := by
      decide +kernel
    have hidden :=
      (follows dore steady _ (read.tail (.store 0 _ _ _ found rfl))).answers ⟨1, ⟨1, 0⟩⟩
      (by decide +kernel)
    revert hidden
    decide +kernel
  · intro kept
    have ended : Run dore steady (Holds dore steady) (fun _ _ => True) (endedAfter [done]) :=
      run_endedAfter (by decide)
    have early :=
      run_reading ended rfl (i := 0) rfl rfl rfl
      (holds_whole rfl (by decide) (by rintro _ ⟨⟩; decide) ⟨done, List.mem_cons_self, rfl⟩)
    have late := run_reading (early.tail (.mark none)) rfl (i := 1) rfl rfl rfl
      (holds_whole rfl (by decide) (by rintro _ ⟨⟩; decide) ⟨done, List.mem_cons_self, rfl⟩)
    have stored := late.tail (.store 1 _ _ ⟨1, ⟨1, 1⟩⟩ (by rfl) trivial)
    have back :=
      kept dore steady _ overtaken stored (.store 0 ⟨0, 0⟩ _ ⟨0, ⟨0, 0⟩⟩ (by rfl) trivial)
    revert back
    decide +kernel

end AiConfig.Herder.ReplyEnds
