import Mathlib.Data.List.DropRight

/-! # The last items of a list

* `rtake_rtake_append` — a list of which only the last items are kept grows as the whole one does.
* `filter_from` — in an ordered list they are the items from the first of them on. -/

namespace AiConfig.Lib

section

variable {α : Type}

theorem rtake_of_le {n : Nat} {items : List α} (few : items.length ≤ n) :
    items.rtake n = items := by
  rw [List.rtake, Nat.sub_eq_zero_of_le few, List.drop_zero]

theorem length_rtake (n : Nat) (items : List α) : (items.rtake n).length = min n items.length := by
  rw [List.rtake, List.length_drop]
  omega

theorem rtake_rtake_append (n : Nat) (items later : List α) :
    (items.rtake n ++ later).rtake n = (items ++ later).rtake n := by
  have kept : items.rtake n ++ later = (items ++ later).drop (items.length - n) := by
    rw [List.rtake, List.drop_append_of_le_length (Nat.sub_le ..)]
  rw [kept, List.rtake, List.rtake, List.drop_drop, List.length_drop]
  congr 1
  simp only [List.length_append]
  omega

/-- The items from the first of the last `n` on are the last `n`. -/
theorem filter_from {key : α → Nat} {items : List α}
    (ordered : items.Pairwise fun item later => key item < key later)
    {n : Nat} {first : α} {rest : List α} (last : items.rtake n = first :: rest) :
    (items.filter fun item => key first ≤ key item) = items.rtake n := by
  have parts : items.take (items.length - n) ++ items.rtake n = items := List.take_append_drop ..
  rw [← parts, List.pairwise_append] at ordered
  obtain ⟨-, after, across⟩ := ordered
  conv => lhs; rw [← parts]
  rw [List.filter_append, List.filter_eq_nil_iff.mpr, List.filter_eq_self.mpr, List.nil_append]
  · intro item on
    rw [last] at on after
    obtain rfl | later := List.mem_cons.mp on
    · simp
    · simpa using Nat.le_of_lt (List.rel_of_pairwise_cons after later)
  · intro item on
    simpa using across item on first (by rw [last]; exact List.mem_cons_self)

end

end AiConfig.Lib
