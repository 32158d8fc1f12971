import Mathlib
import AiConfig.Lib.Newest

/-! # Following a log

A log grows at its end, by entries of ever greater keys.  A reader holds the key that it has come
to; what is
after that key it fetches, the newest entries up to a limit, and takes some first of them.

* `Following` — what a reader has taken is every entry after the key that it began at, up to the one
  it has
  come to; `publish` and `take` keep it. -/

namespace AiConfig.Lib

section

variable {α : Type} {key : α → Int} {log taken : List α} {base cursor : Int}

/-- Keys rise along a log. -/
def Ascending (key : α → Int) (log : List α) : Prop := log.Pairwise fun a b => key a < key b

instance : Decidable (Ascending key log) :=
  inferInstanceAs (Decidable (log.Pairwise fun a b => key a < key b))

/-- The entries after a key. -/
def after (key : α → Int) (log : List α) (cursor : Int) : List α :=
  log.filter fun entry => cursor < key entry

/-- The entries after one key up to another. -/
def between (key : α → Int) (log : List α) (base cursor : Int) : List α :=
  log.filter fun entry => base < key entry && key entry ≤ cursor

/-- Where a reader is that has taken some entries. -/
def reached (key : α → Int) (cursor : Int) (taken : List α) : Int :=
  (taken.getLast?.map key).getD cursor

theorem reached_nil : reached key cursor [] = cursor := rfl

theorem reached_append (first : List α) (entry : α) :
    reached key cursor (first ++ [entry]) = key entry := by
  simp [reached]

theorem mem_after {entry : α} : entry ∈ after key log cursor ↔ entry ∈ log ∧
    cursor < key entry := by
  simp [after]

/-- Later keys begin later in a log. -/
theorem after_after {further : Int} (more : cursor ≤ further) :
    after key (after key log cursor) further = after key log further := by
  unfold after
  rw [List.filter_filter]
  apply List.filter_congr
  intro entry _
  simp only [← Bool.decide_and, decide_eq_decide]
  omega

/-- A log in order falls apart at each of its keys. -/
theorem Ascending.split (ascending : Ascending key log) {first rest : List α}
    (fresh : after key log cursor = first ++ rest)
    (far : first ≠ []) : between key log cursor (reached key cursor first) = first ∧
    after key log (reached key cursor first) = rest := by
  obtain ⟨front, entry, rfl⟩ := (List.eq_nil_or_concat' first).resolve_left far
  rw [reached_append]
  have sorted : Ascending key (after key log cursor) := List.Pairwise.filter _ ascending
  rw [fresh, Ascending, List.append_assoc, List.pairwise_append] at sorted
  obtain ⟨-, tail, early⟩ := sorted
  have late : ∀ other ∈ rest, key entry < key other := (List.pairwise_cons.mp tail).1
  have inside : entry ∈ after key log cursor := by
    rw [fresh]
    simp
  have above := (mem_after.mp inside).2
  constructor
  · have same : between key log cursor (key entry) = (after key log cursor).filter fun other =>
        key other ≤ key entry := by
      unfold between after
      rw [List.filter_filter]
      apply List.filter_congr
      intro other _
      rw [Bool.and_comm]
    rw [same, fresh, List.filter_append, List.filter_append]
    have kept : front.filter (fun other => key other ≤ key entry) = front := by
      rw [List.filter_eq_self]
      intro other own
      have := early other own entry (by simp)
      simp only [decide_eq_true_eq]
      omega
    have dropped : rest.filter (fun other => key other ≤ key entry) = [] := by
      rw [List.filter_eq_nil_iff]
      intro other own
      have := late other own
      simp only [decide_eq_true_eq]
      omega
    rw [kept, dropped]
    simp
  · rw [← after_after (le_of_lt above), fresh]
    unfold after
    rw [List.filter_append, List.filter_append]
    have dropped : front.filter (fun other => key entry < key other) = [] := by
      rw [List.filter_eq_nil_iff]
      intro other own
      have := early other own entry (by simp)
      simp only [decide_eq_true_eq]
      omega
    have kept : rest.filter (fun other => key entry < key other) = rest := by
      rw [List.filter_eq_self]
      intro other own
      simpa using late other own
    rw [dropped, kept]
    simp

theorem rtake_sublist (list : List α) (limit : Nat) : (list.rtake limit).Sublist list :=
  List.drop_sublist _ _

/-- The newest entries after a cursor are those after it of the newest entries. -/
theorem Ascending.after_rtake (ascending : Ascending key log) (limit : Nat) (cursor : Int) :
    after key (log.rtake limit) cursor = (after key log cursor).rtake limit := by
  have whole := List.take_append_drop (log.length - limit) log
  have size : (log.rtake limit).length = log.length - (log.length - limit) := List.length_drop
  have cut : after key log cursor = after key (log.take (log.length - limit)) cursor ++
      after key (log.rtake limit) cursor := by
    unfold after List.rtake
    rw [← List.filter_append, whole]
  rcases List.eq_nil_or_concat' (after key (log.take (log.length - limit)) cursor) with none_ |
    ⟨front, entry, some_⟩
  · rw [none_, List.nil_append] at cut
    have short : (after key log cursor).length ≤ limit := by
      rw [cut]
      have := List.length_filter_le (fun entry => decide (cursor < key entry)) (log.rtake limit)
      unfold after
      omega
    rw [rtake_of_le short, cut]
  · have inside : entry ∈ after key (log.take (log.length - limit)) cursor := by
      rw [some_]
      simp
    obtain ⟨early, above⟩ := mem_after.mp inside
    have all : after key (log.rtake limit) cursor = log.rtake limit := by
      unfold after
      rw [List.filter_eq_self]
      intro other late
      have sorted := ascending
      rw [← whole, Ascending, List.pairwise_append] at sorted
      have := sorted.2.2 entry early other late
      simp only [decide_eq_true_eq]
      omega
    have full : (log.rtake limit).length = limit := by
      have some_ : 0 < (log.take (log.length - limit)).length := List.length_pos_of_mem early
      rw [List.length_take] at some_
      omega
    rw [cut, all]
    generalize log.rtake limit = window at full
    rw [List.rtake, List.length_append, full, Nat.add_sub_cancel, List.drop_left]

/-- What a reader has taken, from the key that it began at. -/
structure Following (key : α → Int) (log : List α) (base cursor : Int) (taken : List α) : Prop where
  ascending : Ascending key log
  taken : taken = between key log base cursor
  forward : base ≤ cursor
  held : cursor = base ∨ ∃ entry ∈ log, key entry = cursor

theorem Following.start (ascending : Ascending key log) (base : Int) : Following key log base base
    [] where
  ascending := ascending
  taken := by
    symm
    unfold between
    rw [List.filter_eq_nil_iff]
    intro entry _
    simp only [Bool.and_eq_true, decide_eq_true_eq]
    omega
  forward := le_rfl
  held := Or.inl rfl

/-- An entry that is added is not taken yet. -/
theorem Following.publish (following : Following key log base cursor taken) {entry : α}
    (newer : ∀ other ∈ log, key other < key entry)
    (above : base < key entry) : Following key (log ++ [entry]) base cursor taken where
  ascending := by
    unfold Ascending
    rw [List.pairwise_append]
    refine ⟨following.ascending, List.pairwise_singleton _ _, fun other own last same => ?_⟩
    rw [List.mem_singleton.mp same]
    exact newer other own
  taken := by
    have beyond : cursor < key entry := by
      obtain same | ⟨other, own, same⟩ := following.held
      · omega
      · have := newer other own
        omega
    rw [following.taken, between, between, List.filter_append, List.filter_cons_of_neg,
      List.filter_nil, List.append_nil]
    simp only [Bool.and_eq_true, decide_eq_true_eq]
    omega
  forward := following.forward
  held := by
    obtain same | ⟨other, own, same⟩ := following.held
    · exact Or.inl same
    · exact Or.inr ⟨other, List.mem_append_left _ own, same⟩

theorem Following.publishAll (following : Following key log base cursor taken) {published : List α}
    (ascending : Ascending key (log ++ published)) (above : ∀ entry ∈ published, base < key entry) :
    Following key (log ++ published) base cursor taken := by
  induction published generalizing log with
  | nil => simpa using following
  | cons entry published inductionHypothesis =>
    have newer : ∀ other ∈ log, key other < key entry := fun other own =>
      (List.pairwise_append.mp ascending).2.2 other own entry List.mem_cons_self
    have next := following.publish newer (above entry List.mem_cons_self)
    have split : log ++ entry :: published = log ++ [entry] ++ published := by simp
    rw [split] at ascending ⊢
    exact inductionHypothesis next ascending fun other inside =>
      above other (List.mem_cons_of_mem _ inside)

theorem between_append (ascending : Ascending key log) {middle : Int} (low : base ≤ middle)
    (high : middle ≤ cursor) :
    between key log base middle ++ between key log middle cursor = between key log base cursor := by
  induction log with
  | nil => rfl
  | cons entry log inductionHypothesis =>
    obtain ⟨first, rest⟩ := List.pairwise_cons.mp ascending
    have later := inductionHypothesis rest
    unfold between at later ⊢
    by_cases early : key entry ≤ middle
    · by_cases inside : base < key entry
      · rw [List.filter_cons_of_pos (by simp; omega), List.filter_cons_of_neg (by simp; omega),
          List.filter_cons_of_pos (by simp; omega),
          List.cons_append, later]
      · rw [List.filter_cons_of_neg (by simp; omega), List.filter_cons_of_neg (by simp; omega),
          List.filter_cons_of_neg (by simp; omega),
          later]
    · have none_ :
          log.filter (fun entry => decide (base < key entry) && decide (key entry ≤ middle)) =
          [] := by
        rw [List.filter_eq_nil_iff]
        intro other own
        have := first other own
        simp only [Bool.and_eq_true, decide_eq_true_eq]
        omega
      rw [none_, List.nil_append] at later
      rw [List.filter_cons_of_neg (by simp; omega), none_, List.nil_append]
      by_cases inside : key entry ≤ cursor
      · rw [List.filter_cons_of_pos (by simp; omega), List.filter_cons_of_pos (by simp; omega),
          later]
      · rw [List.filter_cons_of_neg (by simp; omega), List.filter_cons_of_neg (by simp; omega),
          later]

/-- The first entries of what is after the cursor are taken. -/
theorem Following.take (following : Following key log base cursor taken) {first rest : List α}
    (fresh : after key log cursor = first ++ rest) :
    Following key log base (reached key cursor first) (taken ++ first) := by
  by_cases none_ : first = []
  · subst none_
    rw [List.append_nil]
    exact following
  · obtain ⟨own, -⟩ := following.ascending.split fresh none_
    obtain ⟨front, entry, rfl⟩ := (List.eq_nil_or_concat' first).resolve_left none_
    have inside : entry ∈ after key log cursor := by
      rw [fresh]
      simp
    obtain ⟨there, above⟩ := mem_after.mp inside
    rw [reached_append] at own ⊢
    have forward := following.forward
    refine ⟨following.ascending, ?_, by omega, Or.inr ⟨entry, there, rfl⟩⟩
    rw [← between_append following.ascending forward (le_of_lt above), own, following.taken]

end

end AiConfig.Lib
