import AiConfig.Sesh.Surface.Results

/-! # The places of pills

Calls are remembered by the row and the place of their pills.  What is found at a place after a pill
was
added, taken away or given a result. -/

namespace AiConfig.Sesh.Surface.Compact

open AiConfig.Lib

section

variable {rows : List ConvRow} {ref : PillRef} {pill last p q : ConvPill}

theorem pillAt_run (before : List ConvRow) (list : List ConvPill) (ref : PillRef) :
    pillAt (before ++ [.run list]) ref =
      if ref.row = before.length then list[ref.pill]? else pillAt before ref := by
  unfold pillAt
  split_ifs with here
  · rw [here, List.getElem?_concat_length]
  · by_cases earlier : ref.row < before.length
    · rw [List.getElem?_append_left earlier]
    · have none_ : (before ++ [ConvRow.run list])[ref.row]? = none := by
        rw [List.getElem?_eq_none_iff, List.length_append, List.length_singleton]
        omega
      rw [none_, List.getElem?_eq_none_iff.mpr (by omega)]

theorem pillAt_row (before : List ConvRow) {row : ConvRow} (apart : ∀ list, row ≠ .run list)
    (ref : PillRef) :
    pillAt (before ++ [row]) ref = pillAt before ref := by
  unfold pillAt
  by_cases earlier : ref.row < before.length
  · rw [List.getElem?_append_left earlier]
  · rw [List.getElem?_eq_none_iff.mpr (show before.length ≤ ref.row by omega)]
    by_cases here : ref.row = before.length
    · rw [here, List.getElem?_concat_length]
      cases row with
      | run list => exact absurd rfl (apart list)
      | _ => rfl
    · have none_ : (before ++ [row])[ref.row]? = none := by
        rw [List.getElem?_eq_none_iff, List.length_append, List.length_singleton]
        omega
      rw [none_]

theorem openRun_run (before : List ConvRow) (list : List ConvPill) :
    openRun (before ++ [.run list]) = (before, list) := by
  rw [openRun, List.getLast?_concat, List.dropLast_concat]

theorem openRun_row (before : List ConvRow) {row : ConvRow} (apart : ∀ list, row ≠ .run list) :
    openRun (before ++ [row]) = (before ++ [row], []) := by
  rw [openRun, List.getLast?_concat]
  cases row with
  | run list => exact absurd rfl (apart list)
  | _ => rfl

/-- Rows end in a run, or in none. -/
theorem openRun_cases (rows : List ConvRow) :
    (∃ before list, rows = before ++ [.run list] ∧ openRun rows = (before, list)) ∨
    openRun rows = (rows, []) := by
  rw [openRun]
  split
  · next list last => exact Or.inl ⟨rows.dropLast, list, getLast_split last, rfl⟩
  · exact Or.inr rfl

/-- A pill is in the last run or before it. -/
theorem pillAt_openRun (rows : List ConvRow) (ref : PillRef) :
    pillAt rows ref = if ref.row = (openRun rows).1.length then
      (openRun rows).2[ref.pill]? else pillAt (openRun rows).1 ref := by
  obtain ⟨before, list, rfl, opened⟩ | opened := openRun_cases rows
  · rw [opened, pillAt_run]
  · rw [opened]
    split_ifs with here
    · rw [pillAt, List.getElem?_eq_none_iff.mpr (by rw [here]), List.getElem?_nil]
    · rfl

theorem mem_of_pillAt (found : pillAt rows ref = some pill) : pill ∈ pills rows := by
  obtain ⟨-, before, after, whole, -⟩ := setPill_spec found pill
  rw [whole]
  simp

/-- The rows of a window with another last pill, or without it. -/
theorem pillAt_last (found : lastPill rows = some last) (at_ : pillAt rows ref = some pill) :
    (pill = last ∧ ref.row = (openRun rows).1.length ∧
    ref.pill = (openRun rows).2.dropLast.length) ∨
      pill ∈ pills (openRun rows).1 ++ (openRun rows).2.dropLast ∧
        ∀ more, pillAt ((openRun rows).1 ++ [.run ((openRun rows).2.dropLast ++ more)]) ref =
          some pill := by
  have split := getLast_split found
  rw [pillAt_openRun] at at_
  split_ifs at at_ with here
  · rw [split] at at_
    by_cases earlier : ref.pill < (openRun rows).2.dropLast.length
    · rw [List.getElem?_append_left earlier] at at_
      refine Or.inr ⟨List.mem_append_right _ (List.mem_of_getElem? at_), fun more => ?_⟩
      rw [pillAt_run, if_pos here, List.getElem?_append_left earlier, at_]
    · obtain ⟨inside, -⟩ := List.getElem?_eq_some_iff.mp at_
      rw [List.length_append, List.length_singleton] at inside
      have same : ref.pill = (openRun rows).2.dropLast.length := by omega
      rw [same, List.getElem?_concat_length] at at_
      exact Or.inl ⟨(Option.some.inj at_).symm, here, same⟩
  · refine Or.inr ⟨List.mem_append_left _ (mem_of_pillAt at_), fun more => ?_⟩
    rw [pillAt_run, if_neg here, at_]

/-- Where the last pill takes one in, a pill is found where it was. -/
theorem pillAt_absorbed (found : lastPill rows = some last) (taken : absorb last p = some q)
    (at_ : pillAt rows ref = some pill) :
    pill = last ∧ pillAt (addPill rows p).1 ref = some q ∨
      pill ∈ pills (openRun rows).1 ++ (openRun rows).2.dropLast ∧
        pillAt (addPill rows p).1 ref = some pill := by
  have into : (openRun rows).2.getLast?.bind (absorb · p) = some q := by
    rw [lastPill] at found
    rw [found]
    exact taken
  have rows_ :
      (addPill rows p).1 = (openRun rows).1 ++ [.run ((openRun rows).2.dropLast ++ [q])] := by
    simp only [addPill, into]
  rw [rows_]
  obtain ⟨same, row, place⟩ | ⟨inside, kept⟩ := pillAt_last found at_
  · refine Or.inl ⟨same, ?_⟩
    rw [pillAt_run, if_pos row, place, List.getElem?_concat_length]
  · exact Or.inr ⟨inside, kept [q]⟩

theorem pillAt_pushed (apart : (lastPill rows).bind (absorb · p) = none)
    (at_ : pillAt rows ref = some pill) :
    pillAt (addPill rows p).1 ref = some pill := by
  have into : (openRun rows).2.getLast?.bind (absorb · p) = none := apart
  have rows_ : (addPill rows p).1 = (openRun rows).1 ++
      [.run ((openRun rows).2 ++ [{ p with count := 1 }])] := by
    simp only [addPill, into]
  rw [rows_, pillAt_run]
  rw [pillAt_openRun] at at_
  split_ifs at at_ ⊢ with here
  · rw [List.getElem?_append_left (List.getElem?_eq_some_iff.mp at_).1, at_]
  · exact at_

/-- The place of a new pill is that of the last pill. -/
theorem pillAt_new (rows : List ConvRow) (p : ConvPill) (call : Nat) :
    pillAt (addPill rows p).1 ⟨(addPill rows p).2.1, (addPill rows p).2.2, call⟩ =
      lastPill (addPill rows p).1 := by
  rw [addPill]
  dsimp only
  split
  · next q into =>
    obtain ⟨last, found, -⟩ := Option.bind_eq_some_iff.mp into
    have length : (openRun rows).2.length - 1 = (openRun rows).2.dropLast.length := by simp
    dsimp only
    rw [pillAt_run, if_pos rfl, length, List.getElem?_concat_length, lastPill, openRun_run,
      List.getLast?_concat]
  · dsimp only
    rw [pillAt_run, if_pos rfl, List.getElem?_concat_length, lastPill, openRun_run,
      List.getLast?_concat]

theorem lastPill_absorbed (found : lastPill rows = some last) (taken : absorb last p = some q) :
    lastPill (addPill rows p).1 = some q := by
  have into : (openRun rows).2.getLast?.bind (absorb · p) = some q := by
    rw [lastPill] at found
    rw [found]
    exact taken
  simp only [addPill, into]
  rw [lastPill, openRun_run, List.getLast?_concat]

theorem lastPill_pushed (apart : (lastPill rows).bind (absorb · p) = none) :
    lastPill (addPill rows p).1 = some { p with count := 1 } := by
  have into : (openRun rows).2.getLast?.bind (absorb · p) = none := apart
  simp only [addPill, into]
  rw [lastPill, openRun_run, List.getLast?_concat]

theorem lastPill_row (before : List ConvRow) {row : ConvRow} (apart : ∀ list, row ≠ .run list) :
    lastPill (before ++ [row]) = none := by
  rw [lastPill, openRun_row before apart]
  rfl

/-- A pill that is not taken away is found where it was. -/
theorem pillAt_superseded {merge : String} (found : lastPill rows = some last)
    (taken : superseded merge last = true)
    (at_ : pillAt rows ref = some pill) :
    pill = last ∨ pillAt (supersede merge rows) ref = some pill := by
  obtain ⟨same, -⟩ | ⟨-, kept⟩ := pillAt_last found at_
  · exact Or.inl same
  · right
    have own : (openRun rows).2.getLast? = some last := found
    have kept := kept []
    rw [List.append_nil] at kept
    rw [supersede]
    simp only [own, taken, if_true]
    split_ifs with alone
    · rw [alone, pillAt_run] at kept
      split_ifs at kept with here
      · cases kept
      · exact kept
    · exact kept

/-- A pill that is changed is found where it was, and so is any other. -/
theorem pillAt_setPill (found : pillAt rows ref = some pill) (q : ConvPill) (other : PillRef) :
    pillAt (setPill rows ref q) other =
      if other.row = ref.row ∧ other.pill = ref.pill then some q else pillAt rows other := by
  unfold pillAt at found
  split at found
  · next list row =>
    have inside := (List.getElem?_eq_some_iff.mp row).1
    have set_ : setPill rows ref q = rows.set ref.row (.run (list.set ref.pill q)) := by
      rw [setPill, row]
    rw [set_, pillAt, List.getElem?_set]
    by_cases sameRow : other.row = ref.row
    · rw [if_pos sameRow.symm, if_pos inside]
      dsimp only
      rw [List.getElem?_set, pillAt, sameRow, row]
      dsimp only
      by_cases same : other.pill = ref.pill
      · rw [if_pos same.symm, if_pos (List.getElem?_eq_some_iff.mp found).1, if_pos ⟨rfl, same⟩]
      · rw [if_neg (Ne.symm same), if_neg fun both => same both.2]
    · rw [if_neg (Ne.symm sameRow), if_neg fun both => sameRow both.1, pillAt]
  · cases found

/-- Where a pill is changed, the last pill is the changed one or stays. -/
theorem lastPill_setPill (found : lastPill rows = some last) (at_ : pillAt rows ref = some pill)
    (q : ConvPill) :
    (pill = last ∧ lastPill (setPill rows ref q) = some q) ∨
      pill ∈ pills (openRun rows).1 ++ (openRun rows).2.dropLast ∧
        lastPill (setPill rows ref q) = some last := by
  obtain ⟨before, list, whole, opened⟩ | opened := openRun_cases rows
  · have own : list.getLast? = some last := by rwa [lastPill, opened] at found
    have split := getLast_split own
    by_cases here : ref.row = before.length
    · have inRun : list[ref.pill]? = some pill := by rwa [whole, pillAt_run, if_pos here] at at_
      have set_ : setPill rows ref q = before ++ [.run (list.set ref.pill q)] := by
        rw [whole, setPill, here, List.getElem?_concat_length]
        dsimp only
        rw [List.set_append_right _ _ le_rfl, Nat.sub_self]
        rfl
      rw [set_, lastPill, openRun_run, opened]
      dsimp only
      by_cases final : ref.pill < list.dropLast.length
      · rw [split, List.getElem?_append_left final] at inRun
        refine Or.inr ⟨List.mem_append_right _ (List.mem_of_getElem? inRun), ?_⟩
        rw [split, List.set_append_left _ _ final, List.getLast?_concat]
      · have bound := (List.getElem?_eq_some_iff.mp inRun).1
        have length : list.length = list.dropLast.length + 1 := by
          conv_lhs => rw [split]
          simp
        have place : ref.pill = list.dropLast.length := by omega
        rw [split, place, List.getElem?_concat_length] at inRun
        refine Or.inl ⟨(Option.some.inj inRun).symm, ?_⟩
        rw [split, place, List.set_append_right _ _ le_rfl, Nat.sub_self, List.set_cons_zero,
          List.getLast?_concat]
    · have earlier : pillAt before ref = some pill := by rwa [whole, pillAt_run, if_neg here] at at_
      rw [opened]
      refine Or.inr ⟨List.mem_append_left _ (mem_of_pillAt earlier), ?_⟩
      unfold pillAt at earlier
      split at earlier
      · next other row =>
        have inside := (List.getElem?_eq_some_iff.mp row).1
        have set_ : setPill rows ref q = before.set ref.row (.run (other.set ref.pill q)) ++
            [.run list] := by
          rw [whole, setPill, List.getElem?_append_left inside, row]
          exact List.set_append_left _ _ inside
        rw [set_, lastPill, openRun_run, own]
      · cases earlier
  · rw [lastPill, opened] at found
    cases found

end

end AiConfig.Sesh.Surface.Compact
