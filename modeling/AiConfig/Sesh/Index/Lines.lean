import AiConfig.Sesh.Index.Parse
import Mathlib.Algebra.GroupWithZero.Nat

/-! # Complete lines and their offsets

A complete offset always stands at the end of a line (`Ended`), and parsing from there
finds exactly the lines that parsing from the start of the file finds beyond it
(`linesBetween_split`), under the same ordinals. -/

namespace AiConfig.Sesh

open AiConfig.Lib AiConfig.Sesh.Wire

/-- The bytes some lines take, newlines included. -/
def extent (lines : List Bytes) : Nat := (lines.map fun line => line.length + 1).sum

/-- Where the last complete line ends. -/
def consumed (bytes : Bytes) : Nat := extent (completeLines bytes)

/-- Nothing follows the last newline. -/
def Ended (bytes : Bytes) : Prop := consumed bytes = bytes.length

@[simp] theorem extent_nil : extent [] = 0 := rfl

@[simp] theorem extent_cons (line : Bytes) (lines : List Bytes) :
    extent (line :: lines) = line.length + 1 + extent lines := rfl

theorem extent_append (first second : List Bytes) :
    extent (first ++ second) = extent first + extent second := by
  simp [extent]

theorem completeLines_newline (rest : Bytes) :
    completeLines (newline :: rest) = [] :: completeLines rest :=
  if_pos rfl

theorem completeLines_other {byte : UInt8} (other : byte ≠ newline) (rest : Bytes) :
    completeLines (byte :: rest) =
      match completeLines rest with
      | [] => []
      | line :: lines => (byte :: line) :: lines :=
  if_neg other

theorem completeLines_length (bytes : Bytes) :
    (completeLines bytes).length = bytes.count newline := by
  induction bytes with
  | nil => rfl
  | cons byte rest inductionHypothesis =>
    by_cases ends : byte = newline
    · subst ends
      rw [completeLines_newline, List.length_cons, inductionHypothesis, List.count_cons_self]
    · rw [completeLines_other ends, List.count_cons_of_ne ends, ← inductionHypothesis]
      cases completeLines rest <;> rfl

theorem consumed_le (bytes : Bytes) : consumed bytes ≤ bytes.length := by
  unfold consumed
  induction bytes with
  | nil => exact Nat.le_refl 0
  | cons byte rest inductionHypothesis =>
    by_cases ends : byte = newline
    · subst ends
      rw [completeLines_newline, extent_cons, List.length_cons, List.length_nil]
      omega
    · rw [completeLines_other ends]
      cases found : completeLines rest with
      | nil => exact Nat.zero_le _
      | cons line lines =>
        simp only [found, extent_cons, List.length_cons] at inductionHypothesis ⊢
        omega

/-- What an ended text is followed by adds its own lines. -/
theorem completeLines_append {bytes : Bytes} (ended : Ended bytes) (more : Bytes) :
    completeLines (bytes ++ more) = completeLines bytes ++ completeLines more := by
  unfold Ended consumed at ended
  induction bytes with
  | nil => rfl
  | cons byte rest inductionHypothesis =>
    rw [List.cons_append]
    by_cases ends : byte = newline
    · subst ends
      rw [completeLines_newline, extent_cons, List.length_cons, List.length_nil] at ended
      rw [completeLines_newline, completeLines_newline, inductionHypothesis (by omega),
        List.cons_append]
    · rw [completeLines_other ends] at ended
      rw [completeLines_other ends, completeLines_other ends]
      cases found : completeLines rest with
      | nil =>
        rw [found] at ended
        simp at ended
      | cons line lines =>
        simp only [found, extent_cons, List.length_cons] at ended inductionHypothesis
        rw [inductionHypothesis (by omega)]
        rfl

theorem completeLines_take_consumed (bytes : Bytes) :
    completeLines (bytes.take (consumed bytes)) = completeLines bytes := by
  unfold consumed
  induction bytes with
  | nil => rfl
  | cons byte rest inductionHypothesis =>
    by_cases ends : byte = newline
    · subst ends
      have size : extent (completeLines (newline :: rest)) = extent (completeLines rest) + 1 := by
        rw [completeLines_newline, extent_cons, List.length_nil]
        omega
      rw [size, List.take_succ_cons, completeLines_newline, inductionHypothesis,
        completeLines_newline]
    · rw [completeLines_other ends]
      cases found : completeLines rest with
      | nil => rfl
      | cons line lines =>
        have size : extent ((byte :: line) :: lines) = extent (completeLines rest) + 1 := by
          rw [found, extent_cons, extent_cons, List.length_cons]
          omega
        simp only [size, List.take_succ_cons]
        rw [completeLines_other ends, inductionHypothesis, found]

theorem take_consumed_ended (bytes : Bytes) : Ended (bytes.take (consumed bytes)) := by
  rw [Ended, consumed, completeLines_take_consumed, List.length_take,
    Nat.min_eq_left (consumed_le bytes)]
  rfl

/-! ## Numbered lines -/

theorem numbered_append (ordinal start : Nat) (first second : List Bytes) :
    numbered ordinal start (first ++ second) =
      numbered ordinal start first ++
        numbered (ordinal + first.length) (start + extent first) second := by
  induction first generalizing ordinal start with
  | nil => rfl
  | cons body rest inductionHypothesis =>
    rw [List.cons_append, numbered, numbered, inductionHypothesis, List.cons_append,
      List.length_cons, extent_cons]
    congr 3 <;> omega

theorem numbered_bounds {ordinal start : Nat} {bodies : List Bytes} :
    ∀ line ∈ numbered ordinal start bodies, ordinal ≤ line.ordinal ∧
      line.ordinal < ordinal + bodies.length ∧
      start ≤ line.start ∧ line.start < line.stop ∧ line.stop ≤ start + extent bodies := by
  induction bodies generalizing ordinal start with
  | nil => exact fun _ member => (List.not_mem_nil member).elim
  | cons body rest inductionHypothesis =>
    intro line member
    rw [numbered] at member
    simp only [List.length_cons, extent_cons]
    rcases List.mem_cons.mp member with rfl | later
    · simp only
      omega
    · have bounds := inductionHypothesis line later
      omega

/-- Lines come in the order of their ordinals and their spans. -/
theorem numbered_ordered (ordinal start : Nat) (bodies : List Bytes) :
    (numbered ordinal start bodies).Pairwise fun a b => a.ordinal < b.ordinal ∧
    a.stop ≤ b.start := by
  induction bodies generalizing ordinal start with
  | nil => exact List.Pairwise.nil
  | cons body rest inductionHypothesis =>
    rw [numbered, List.pairwise_cons]
    refine ⟨fun later member => ?_, inductionHypothesis _ _⟩
    have bounds := numbered_bounds later member
    exact ⟨by simp only; omega, bounds.2.2.1⟩

theorem numbered_last (ordinal start : Nat) (bodies : List Bytes) :
    ((numbered ordinal start bodies).getLast?.map (·.stop)).getD start = start + extent bodies := by
  induction bodies generalizing ordinal start with
  | nil => rfl
  | cons body rest inductionHypothesis =>
    have after := inductionHypothesis (ordinal + 1) (start + (body.length + 1))
    cases rest with
    | nil => rfl
    | cons next rest =>
      simp only [numbered, List.getLast?_cons_cons, extent_cons] at after ⊢
      simp only [List.getLast?_cons, Option.map_some, Option.getD_some] at after ⊢
      omega

/-! ## Lines of a mirror -/

section

variable {mirror : Bytes} {start stop : Nat}

theorem linesBetween_zero (mirror : Bytes) (stop : Nat) :
    linesBetween mirror 0 stop = numbered 0 0 (completeLines (mirror.take stop)) := by
  simp [linesBetween, lineOrdinalAt]

theorem lineOrdinalAt_eq (mirror : Bytes) (offset : Nat) :
    lineOrdinalAt mirror offset = (completeLines (mirror.take offset)).length :=
  (completeLines_length _).symm

theorem take_split (forward : start ≤ stop) :
    mirror.take stop = mirror.take start ++ (mirror.take stop).drop start := by
  have split := (List.take_append_drop start (mirror.take stop)).symm
  rwa [List.take_take, Nat.min_eq_left forward] at split

theorem completeLines_split (ended : Ended (mirror.take start)) (forward : start ≤ stop) :
    completeLines (mirror.take stop) =
      completeLines (mirror.take start) ++ completeLines ((mirror.take stop).drop start) := by
  calc completeLines (mirror.take stop)
      = completeLines (mirror.take start ++ (mirror.take stop).drop start) := by
        rw [← take_split forward]
    _ = _ := completeLines_append ended _

/-- Parsing from the end of a line finds what parsing from zero finds beyond it. -/
theorem linesBetween_split (ended : Ended (mirror.take start)) (covered : start ≤ mirror.length)
    (forward : start ≤ stop) :
    linesBetween mirror 0 stop = linesBetween mirror 0 start ++ linesBetween mirror start stop := by
  have size : extent (completeLines (mirror.take start)) = start := by
    have whole : consumed (mirror.take start) = (mirror.take start).length := ended
    rwa [List.length_take, Nat.min_eq_left covered] at whole
  calc linesBetween mirror 0 stop
      = linesBetween mirror 0 start ++ numbered (0 + (completeLines (mirror.take start)).length)
        (0 + start)
          (completeLines ((mirror.take stop).drop start)) := by
        rw [linesBetween_zero, completeLines_split ended forward, numbered_append, size,
          ← linesBetween_zero]
    _ = linesBetween mirror 0 start ++ linesBetween mirror start stop := by
        rw [Nat.zero_add, Nat.zero_add, ← lineOrdinalAt_eq, ← linesBetween]

/-- The offset after parsing from the end of a line. -/
theorem linesBetween_last (ended : Ended (mirror.take start)) (covered : start ≤ mirror.length)
    (forward : start ≤ stop) :
    ((linesBetween mirror start stop).getLast?.map (·.stop)).getD start =
    consumed (mirror.take stop) := by
  have size : extent (completeLines (mirror.take start)) = start := by
    have whole : consumed (mirror.take start) = (mirror.take start).length := ended
    rwa [List.length_take, Nat.min_eq_left covered] at whole
  rw [linesBetween, numbered_last, consumed, completeLines_split ended forward, extent_append, size]

theorem linesBetween_consumed (mirror : Bytes) (stop : Nat) :
    linesBetween mirror 0 (consumed (mirror.take stop)) = linesBetween mirror 0 stop := by
  have within : consumed (mirror.take stop) ≤ stop :=
    Nat.le_trans (consumed_le _) (by rw [List.length_take]; exact Nat.min_le_left _ _)
  have same := completeLines_take_consumed (mirror.take stop)
  rw [List.take_take, Nat.min_eq_left within] at same
  rw [linesBetween_zero, linesBetween_zero, same]

theorem ended_zero (mirror : Bytes) : Ended (mirror.take 0) := rfl

theorem consumed_ended (mirror : Bytes) (stop : Nat) :
    Ended (mirror.take (consumed (mirror.take stop))) := by
  have within : consumed (mirror.take stop) ≤ stop :=
    Nat.le_trans (consumed_le _) (by rw [List.length_take]; exact Nat.min_le_left _ _)
  have ended := take_consumed_ended (mirror.take stop)
  rwa [List.take_take, Nat.min_eq_left within] at ended

theorem consumed_mono (ended : Ended (mirror.take start)) (covered : start ≤ mirror.length)
    (forward : start ≤ stop) :
    start ≤ consumed (mirror.take stop) := by
  have whole : consumed (mirror.take start) = (mirror.take start).length := ended
  rw [List.length_take, Nat.min_eq_left covered] at whole
  rw [consumed, completeLines_split ended forward, extent_append]
  exact Nat.le_trans (Nat.le_of_eq whole.symm) (Nat.le_add_right _ _)

end

end AiConfig.Sesh
