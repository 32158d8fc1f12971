import AiConfig.Herder.Lanes.Ledger

/-! # What an assignment does to the lanes

At a clock that no record is ahead of, an assignment puts the newest record of its seat into
its lane, and gives no other lane a live member. -/

namespace AiConfig.Herder.Agents.Lanes

open AiConfig.Herder.Fleet

/-- No record is newer than the clock. -/
def Ledger.Older (l : Ledger) (clock : Time) : Prop :=
  ∀ name, ∀ t ∈ l.tenures name, t.firstSeen ≤ clock ∧ ∀ time ∈ t.laneAt, time ≤ clock

theorem Time.le_trans {a b c : Time} (first : a ≤ b) (second : b ≤ c) : a ≤ c :=
  Int.le_trans first second

theorem Time.not_lt {a b : Time} (le : a ≤ b) : ¬b < a := Int.not_lt.mpr le

theorem Ledger.Older.mono {l : Ledger} {clock later : Time} (older : l.Older clock)
    (le : clock ≤ later) :
    l.Older later := by
  intro name t inside
  obtain ⟨seen, joined⟩ := older name t inside
  exact ⟨Time.le_trans seen le, fun time given => Time.le_trans (joined time given) le⟩

/-! ## The newest record -/

variable {l : Ledger} {lane : String} {time : Time}

theorem Tenure.assign_eq {t : Tenure} (seen : t.firstSeen ≤ time)
    (joined : ∀ at_ ∈ t.laneAt, at_ ≤ time)
    (some_ : lane ≠ "") : t.assign lane time = { t with laneID := lane, laneAt := some time } := by
  have guarded : latest t.laneAt time = true := by
    rw [latest, Option.all_eq_true]
    exact fun at_ given => decide_eq_true (joined at_ given)
  rw [Tenure.assign, if_neg (Time.not_lt seen), if_pos (by simp [some_, guarded])]

/-- The newest record, when it is open, or a new one. -/
theorem reassign_cases {tenures : List Tenure}
    (older : ∀ t ∈ tenures, t.firstSeen ≤ time ∧ ∀ at_ ∈ t.laneAt, at_ ≤ time) (some_ : lane ≠ "") :
    (∃ front last, tenures = front ++ [last] ∧ last.closed = none ∧
        reassign tenures lane time = front ++ [{ last with laneID := lane, laneAt := some time }]) ∨
      reassign tenures lane time = tenures ++ [⟨lane, some time, time, none, ""⟩] := by
  have opened : (Tenure.fresh time).assign lane time = ⟨lane, some time, time, none, ""⟩ :=
    Tenure.assign_eq (Int.le_refl _) (fun _ given => by cases given) some_
  rw [reassign]
  cases newest : tenures.getLast? with
  | none => exact Or.inr (by rw [opened])
  | some last =>
    obtain ⟨front, rfl⟩ := List.getLast?_eq_some_iff.mp newest
    dsimp only
    by_cases closed : last.closed = none
    · obtain ⟨seen, joined⟩ := older last (by simp)
      refine Or.inl ⟨front, last, rfl, closed, ?_⟩
      rw [if_pos closed, Tenure.assign_eq seen joined some_, List.dropLast_concat]
    · exact Or.inr (by rw [if_neg closed, opened])

theorem tenures_assign (l : Ledger) (seat lane : String) (time : Time) (name : String) :
    (l.assign seat lane time).tenures name =
      if name = seat then reassign (l.tenures seat) lane time else l.tenures name := rfl

theorem Ledger.Older.assign (older : l.Older time) (seat : String) (some_ : lane ≠ "") :
    (l.assign seat lane time).Older time := by
  intro name t inside
  rw [tenures_assign] at inside
  split at inside
  · obtain ⟨front, last, split, -, joined⟩ | opened := reassign_cases (older seat) some_
    · rw [joined, List.mem_append, List.mem_singleton] at inside
      obtain earlier | rfl := inside
      · exact older seat t (by rw [split]; exact List.mem_append_left _ earlier)
      · refine ⟨(older seat last (by simp [split])).1, ?_⟩
        rintro _ ⟨⟩
        exact Int.le_refl _
    · rw [opened, List.mem_append, List.mem_singleton] at inside
      obtain earlier | rfl := inside
      · exact older seat t earlier
      · refine ⟨Int.le_refl _, ?_⟩
        rintro _ ⟨⟩
        exact Int.le_refl _
  · exact older name t inside

theorem own_assign (older : l.Older time) (seat : String) (some_ : lane ≠ "") :
    (l.assign seat lane time).own seat = some lane := by
  rw [Ledger.own, tenures_assign, if_pos rfl]
  obtain ⟨front, last, -, -, joined⟩ | opened := reassign_cases (older seat) some_
  · simp [joined]
  · simp [opened]

theorem own_assign_other {seat other : String} (different : other ≠ seat) :
    (l.assign seat lane time).own other = l.own other := by
  rw [Ledger.own, Ledger.own, tenures_assign, if_neg different]

/-! ## The rows -/

variable (roster : List BusRow)

/-- A row resolves as before, or to a record that is in the lane now. -/
theorem incarnation_assign (older : l.Older time) (seat : String) (some_ : lane ≠ "")
    (name : String)
    (row : RosterRow) :
    ((l.assign seat lane time).incarnation name row).map (·.laneID) =
    (l.incarnation name row).map (·.laneID) ∨
      ((l.assign seat lane time).incarnation name row).map (·.laneID) = some lane := by
  by_cases same : name = seat
  · subst same
    by_cases zero : row.createdAt = Time.zero
    · have newest := own_assign older name some_
      rw [Ledger.own] at newest
      exact Or.inr (by rw [Ledger.incarnation, if_pos zero, newest])
    · rw [Ledger.incarnation, Ledger.incarnation, if_neg zero, if_neg zero, tenures_assign,
        if_pos rfl]
      obtain ⟨front, last, split, closed, joined⟩ | opened := reassign_cases (older name) some_
      · rw [joined, split, List.find?_append, List.find?_append]
        cases front.find? fun t => !t.closed.any (· < row.createdAt) with
        | some t => exact Or.inl rfl
        | none =>
          simp only [Option.none_or, List.find?_cons, closed, Option.any_none, Bool.not_false]
          split
          · exact Or.inl rfl
          · exact Or.inr rfl
      · rw [opened, List.find?_append]
        cases (l.tenures name).find? fun t => !t.closed.any (· < row.createdAt) with
        | some t => exact Or.inl rfl
        | none =>
          simp only [Option.none_or, List.find?_cons, Option.any_none, Bool.not_false]
          split
          · exact Or.inl rfl
          · exact Or.inr rfl
  · rw [Ledger.incarnation, Ledger.incarnation, tenures_assign, if_neg same]
    exact Or.inl rfl

theorem rowLane_assign (older : l.Older time) (seat : String) (some_ : lane ≠ "") (row : BusRow) :
    (l.assign seat lane time).rowLane roster row = l.rowLane roster row ∨
      (l.assign seat lane time).rowLane roster row = some lane := by
  have full := incarnation_assign older seat some_ row.name row.toRosterRow
  have base := incarnation_assign older seat some_ row.baseName row.toRosterRow
  simp only [Ledger.rowLane]
  generalize ((l.assign seat lane time).incarnation row.name row.toRosterRow).map (·.laneID) =
    full' at full ⊢
  generalize ((l.assign seat lane time).incarnation row.baseName row.toRosterRow).map (·.laneID) =
    base' at base ⊢
  generalize (l.incarnation row.name row.toRosterRow).map (·.laneID) = full at *
  generalize (l.incarnation row.baseName row.toRosterRow).map (·.laneID) = base at *
  cases byUniqueBaseName roster row.baseName with
  | none => exact full
  | some owner =>
    by_cases own : owner.name = row.name
    · simp only [own, ne_eq, not_true_eq_false, if_false]
      obtain rfl | rfl := full
      · obtain rfl | rfl := base
        · exact Or.inl rfl
        · cases full' with
          | none => exact Or.inr rfl
          | some full =>
            by_cases empty : full = ""
            · exact Or.inr (by simp [firstNonEmpty, empty, some_])
            · refine Or.inl ?_
              cases base with
              | none => simp [firstNonEmpty, empty]
              | some base => simp [firstNonEmpty, empty]
      · cases base' with
        | none => exact Or.inr rfl
        | some base => exact Or.inr (by simp [firstNonEmpty, some_])
    · simp only [ne_eq, own, not_false_eq_true, if_true]
      exact full

/-- Only the lane of the assignment gains a live member. -/
theorem live_assign (older : l.Older time) (seat : String) (some_ : lane ≠ "") {other : String}
    (live : (l.assign seat lane time).Live roster other) : other = lane ∨ l.Live roster other := by
  obtain ⟨row, inside, counts⟩ := live
  have lanes : (l.assign seat lane time).lanes = l.lanes := rfl
  rw [Ledger.laneOf, lanes] at counts
  obtain same | joined := rowLane_assign roster older seat some_ ((parent roster row).getD row)
  · rw [same] at counts
    exact Or.inr ⟨row, inside, counts⟩
  · rw [joined] at counts
    simp only [] at counts
    split at counts
    · cases counts
    · exact Or.inl (Option.some.inj counts).symm

/-- Where the lanes change, a live lane is one of them, and was live if it was one before. -/
theorem live_lanes {lanes : Keyed LaneView} {other : String}
    (live : ({ l with lanes } : Ledger).Live roster other) :
    lanes.lookup other ≠ none ∧ (l.lanes.lookup other ≠ none → l.Live roster other) := by
  obtain ⟨row, inside, counts⟩ := live
  rw [Ledger.laneOf] at counts
  have rows : ∀ row, ({ l with lanes } : Ledger).rowLane roster row = l.rowLane roster row :=
    fun _ => rfl
  rw [rows] at counts
  cases seen : l.rowLane roster ((parent roster row).getD row) with
  | none =>
    rw [seen] at counts
    cases counts
  | some lane =>
    rw [seen] at counts
    dsimp only at counts
    split at counts
    · cases counts
    · next there =>
      obtain ⟨named, there⟩ := not_or.mp there
      cases counts
      refine ⟨there, fun old => ⟨row, inside, ?_⟩⟩
      rw [Ledger.laneOf, seen]
      dsimp only
      rw [if_neg (not_or.mpr ⟨named, old⟩)]

end AiConfig.Herder.Agents.Lanes
