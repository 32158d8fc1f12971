import Mathlib.Data.Prod.Lex
import Mathlib.Data.String.Basic
import Mathlib.Data.Int.Order.Basic
import Mathlib.Algebra.Group.Int.Defs

/-! # Decimal digits and RFC 3339 timestamps

* `digits width n` — the last `width` decimal digits; as texts, numbers below
  `10 ^ width` compare as they do as numbers.
* `Timestamp` — a civil time in UTC; `instant` orders it in time, `text` prints it
  with a fraction of varying precision (trailing zeros dropped).
* `text_lt_iff` — texts compare as instants do, unless one printed fraction of the
  same second is a proper prefix of the other. -/

namespace AiConfig.Lib

def digit (n : Nat) : Char := Char.ofNat (48 + n % 10)

def digits : Nat → Nat → List Char
  | 0, _ => []
  | width + 1, n => digit (n / 10 ^ width) :: digits width n

/-- Printed with at least `width` digits. -/
def padded (width n : Nat) : List Char :=
  if n < 10 ^ width then digits width n else n.repr.toList

theorem digits_length (width n : Nat) : (digits width n).length = width := by
  induction width with
  | zero => rfl
  | succ width inductionHypothesis => rw [digits, List.length_cons, inductionHypothesis]

theorem digit_lt_iff (a b : Nat) : digit a < digit b ↔ a % 10 < b % 10 := by
  have every : ∀ x y : Fin 10, Char.ofNat (48 + x.val) < Char.ofNat (48 + y.val) ↔
      x.val < y.val := by
    decide
  exact every ⟨a % 10, Nat.mod_lt a (by decide)⟩ ⟨b % 10, Nat.mod_lt b (by decide)⟩

theorem digit_eq_iff (a b : Nat) : digit a = digit b ↔ a % 10 = b % 10 := by
  have every : ∀ x y : Fin 10, Char.ofNat (48 + x.val) = Char.ofNat (48 + y.val) ↔
      x.val = y.val := by
    decide
  exact every ⟨a % 10, Nat.mod_lt a (by decide)⟩ ⟨b % 10, Nat.mod_lt b (by decide)⟩

theorem digits_mod (width n : Nat) : digits width (n % 10 ^ width) = digits width n := by
  suffices general :
    ∀ w ≤ width, digits w (n % 10 ^ width) = digits w n from general width (Nat.le_refl _)
  intro w within
  induction w with
  | zero => rfl
  | succ w inductionHypothesis =>
    have same : n % 10 ^ width / 10 ^ w % 10 = n / 10 ^ w % 10 := by
      obtain ⟨k, rfl⟩ : ∃ k, width = w + 1 + k := ⟨width - (w + 1), by omega⟩
      rw [Nat.pow_add, Nat.pow_succ, Nat.mul_assoc, Nat.mod_mul_right_div_self,
        Nat.mod_mul_right_mod]
    rw [digits, digits, inductionHypothesis (by omega), (digit_eq_iff _ _).mpr same]

/-- Numbers of the same width compare as texts the way they compare as numbers. -/
theorem digits_append_lt {width a b : Nat} (smallA : a < 10 ^ width) (smallB : b < 10 ^ width)
    (x y : List Char) : digits width a ++ x < digits width b ++ y ↔ a < b ∨ a = b ∧ x < y := by
  induction width generalizing a b with
  | zero =>
    simp only [Nat.pow_zero, Nat.lt_one_iff] at smallA smallB
    simp [digits, smallA, smallB]
  | succ width inductionHypothesis =>
    have positive : 0 < 10 ^ width := Nat.pow_pos (by decide)
    have leadA : a / 10 ^ width < 10 := Nat.div_lt_of_lt_mul (by rwa [Nat.pow_succ] at smallA)
    have leadB : b / 10 ^ width < 10 := Nat.div_lt_of_lt_mul (by rwa [Nat.pow_succ] at smallB)
    have restA : a % 10 ^ width < 10 ^ width := Nat.mod_lt a positive
    have restB : b % 10 ^ width < 10 ^ width := Nat.mod_lt b positive
    have splitA := Nat.div_add_mod a (10 ^ width)
    have splitB := Nat.div_add_mod b (10 ^ width)
    rw [digits, digits, List.cons_append, List.cons_append, List.cons_lt_cons_iff, digit_lt_iff,
      digit_eq_iff, Nat.mod_eq_of_lt leadA, Nat.mod_eq_of_lt leadB, ← digits_mod width a,
      ← digits_mod width b, inductionHypothesis restA restB]
    -- the leading digits decide, and where they agree the rests do
    generalize a / 10 ^ width = p at *
    generalize b / 10 ^ width = q at *
    generalize a % 10 ^ width = r at *
    generalize b % 10 ^ width = s at *
    subst splitA splitB
    rcases Nat.lt_trichotomy p q with less | equal | greater
    · have gap : 10 ^ width * p + 10 ^ width ≤ 10 ^ width * q := by
        rw [← Nat.mul_succ]
        exact Nat.mul_le_mul_left _ less
      constructor
      · intro _
        exact Or.inl (by omega)
      · intro _
        exact Or.inl less
    · subst equal
      simp
    · have gap : 10 ^ width * q + 10 ^ width ≤ 10 ^ width * p := by
        rw [← Nat.mul_succ]
        exact Nat.mul_le_mul_left _ greater
      constructor
      · rintro (less | ⟨equal, _⟩) <;> omega
      · rintro (less | ⟨equal, _⟩) <;> omega

theorem digits_injective {width a b : Nat} (smallA : a < 10 ^ width) (smallB : b < 10 ^ width)
    (same : digits width a = digits width b) : a = b := by
  have notLess := (digits_append_lt smallA smallB [] []).not.mp (by simp [same])
  have notGreater := (digits_append_lt smallB smallA [] []).not.mp (by simp [same])
  omega

/-! ## Fractions -/

/-- A digit string without its trailing zeros. -/
def trimZeros : List Char → List Char
  | [] => []
  | c :: rest => if trimZeros rest = [] ∧ c = '0' then [] else c :: trimZeros rest

theorem trimZeros_append (l : List Char) :
    trimZeros l ++ List.replicate (l.length - (trimZeros l).length) '0' = l := by
  induction l with
  | nil => rfl
  | cons c rest inductionHypothesis =>
    rw [trimZeros]
    split
    · rename_i zeros
      rw [zeros.1] at inductionHypothesis
      simp only [List.nil_append, List.length_nil, Nat.sub_zero] at inductionHypothesis
      simp [List.replicate_succ, inductionHypothesis, zeros.2]
    · simp [inductionHypothesis]

theorem trimZeros_injective {l m : List Char} (length : l.length = m.length)
    (same : trimZeros l = trimZeros m) : l = m := by
  rw [← trimZeros_append l, ← trimZeros_append m, same, length]

/-- Of two fractions of one width the smaller one is a prefix of the other as printed,
    or compares below it whatever follows. -/
theorem trimZeros_digits_cases {width a b : Nat} (less : a < b) (small : b < 10 ^ width) :
    trimZeros (digits width a) <+: trimZeros (digits width b) ∨
      ∀ s t, trimZeros (digits width a) ++ s < trimZeros (digits width b) ++ t := by
  induction width generalizing a b with
  | zero => omega
  | succ width inductionHypothesis =>
    have positive : 0 < 10 ^ width := Nat.pow_pos (by decide)
    have leadB : b / 10 ^ width < 10 := Nat.div_lt_of_lt_mul (by rwa [Nat.pow_succ] at small)
    have leadA : a / 10 ^ width < 10 :=
      Nat.lt_of_le_of_lt (Nat.div_le_div_right (Nat.le_of_lt less)) leadB
    have ordered : a / 10 ^ width ≤ b / 10 ^ width := Nat.div_le_div_right (Nat.le_of_lt less)
    have restB : b % 10 ^ width < 10 ^ width := Nat.mod_lt b positive
    have splitA := Nat.div_add_mod a (10 ^ width)
    have splitB := Nat.div_add_mod b (10 ^ width)
    rw [digits, digits, ← digits_mod width a, ← digits_mod width b]
    have head : ∀ x y, trimZeros (digit (a / 10 ^ width) :: x) <+: y ∨
        trimZeros (digit (a / 10 ^ width) :: x) = digit (a / 10 ^ width) :: trimZeros x := by
      intro x y
      rw [trimZeros]
      split
      · exact Or.inl (List.nil_prefix)
      · exact Or.inr rfl
    rcases Nat.lt_or_eq_of_le ordered with lower | equal
    · -- the leading digits decide
      have shown : trimZeros (digit (b / 10 ^ width) :: digits width (b % 10 ^ width)) =
          digit (b / 10 ^ width) :: trimZeros (digits width (b % 10 ^ width)) := by
        rw [trimZeros, if_neg]
        rintro ⟨_, zero⟩
        have none : digit (b / 10 ^ width) = digit 0 := zero
        rw [digit_eq_iff, Nat.mod_eq_of_lt leadB] at none
        rw [none] at lower
        exact Nat.not_lt_zero _ lower
      rcases head (digits width (a % 10 ^ width)) _ with hidden | written
      · exact Or.inl hidden
      · refine Or.inr fun s t => ?_
        rw [written, shown, List.cons_append, List.cons_append, List.cons_lt_cons_iff]
        refine Or.inl ((digit_lt_iff _ _).mpr ?_)
        rwa [Nat.mod_eq_of_lt leadA, Nat.mod_eq_of_lt leadB]
    · -- they agree, and the rests decide
      rw [equal] at splitA head ⊢
      have rest : a % 10 ^ width < b % 10 ^ width := by omega
      have differs : trimZeros (digits width (a % 10 ^ width)) ≠
          trimZeros (digits width (b % 10 ^ width)) := by
        intro same
        have lengths :
            (digits width (a % 10 ^ width)).length = (digits width (b % 10 ^ width)).length := by
          rw [digits_length, digits_length]
        have values :=
          digits_injective (Nat.lt_trans rest restB) restB (trimZeros_injective lengths same)
        omega
      have cases_ := inductionHypothesis rest restB
      have nonempty : trimZeros (digits width (b % 10 ^ width)) ≠ [] := by
        intro empty
        rw [empty] at cases_ differs
        rcases cases_ with within | below
        · exact differs (List.prefix_nil.mp within)
        · exact List.not_lt_nil _ (below [] [])
      have shown : trimZeros (digit (b / 10 ^ width) :: digits width (b % 10 ^ width)) =
          digit (b / 10 ^ width) :: trimZeros (digits width (b % 10 ^ width)) := by
        rw [trimZeros, if_neg fun zeros => nonempty zeros.1]
      rcases head (digits width (a % 10 ^ width)) _ with hidden | written
      · exact Or.inl hidden
      · rw [written, shown]
        rcases cases_ with within | below
        · exact Or.inl (List.cons_prefix_cons.mpr ⟨rfl, within⟩)
        · refine Or.inr fun s t => ?_
          rw [List.cons_append, List.cons_append, List.cons_lt_cons_iff]
          exact Or.inr ⟨rfl, below s t⟩

/-- A fraction of a second as printed: nothing for zero, no trailing zeros. -/
def fraction (nanos : Nat) : List Char :=
  if nanos = 0 then [] else '.' :: trimZeros (digits 9 nanos)

theorem fraction_cases {a b : Nat} (less : a < b) (small : b < 10 ^ 9) :
    fraction a <+: fraction b ∨ ∀ s t, fraction a ++ s < fraction b ++ t := by
  unfold fraction
  split
  · exact Or.inl List.nil_prefix
  · rw [if_neg (by omega)]
    rcases trimZeros_digits_cases less small with within | below
    · exact Or.inl (List.cons_prefix_cons.mpr ⟨rfl, within⟩)
    · refine Or.inr fun s t => ?_
      rw [List.cons_append, List.cons_append, List.cons_lt_cons_iff]
      exact Or.inr ⟨rfl, below s t⟩

/-- One printed fraction is a proper prefix of the other. -/
def FractionClash (a b : Nat) : Prop :=
  a ≠ b ∧ (fraction a <+: fraction b ∨ fraction b <+: fraction a)

instance (a b : Nat) : Decidable (FractionClash a b) := inferInstanceAs (Decidable (_ ∧ _))

theorem fraction_lt_iff {a b : Nat} (smallA : a < 10 ^ 9) (smallB : b < 10 ^ 9)
    (apart : ¬ FractionClash a b) : fraction a ++ ['Z'] < fraction b ++ ['Z'] ↔ a < b := by
  have forward : ∀ {x y : Nat}, x < y → y < 10 ^ 9 → ¬ FractionClash x y →
      fraction x ++ ['Z'] < fraction y ++ ['Z'] := by
    intro x y less small apart
    rcases fraction_cases less small with within | below
    · exact absurd ⟨Nat.ne_of_lt less, Or.inl within⟩ apart
    · exact below _ _
  constructor
  · intro below
    rcases Nat.lt_trichotomy a b with less | equal | greater
    · exact less
    · subst equal
      exact absurd below (List.lt_irrefl _)
    · have above := forward greater smallA fun clash => apart ⟨clash.1.symm, clash.2.symm⟩
      exact absurd below (List.lt_asymm above)
  · exact fun less => forward less smallB apart

/-! ## Timestamps -/

structure Timestamp where
  year : Int
  month : Nat
  day : Nat
  hour : Nat
  minute : Nat
  second : Nat
  nanos : Nat
  calendar : 1 ≤ month ∧ month ≤ 12 ∧ 1 ≤ day ∧ day ≤ 31 ∧ hour < 24 ∧ minute < 60 ∧ second < 60 ∧
    nanos < 10 ^ 9
  deriving DecidableEq

namespace Timestamp

/-- Times compare as their components do, the greatest unit first. -/
def instant (t : Timestamp) : Int ×ₗ Nat ×ₗ Nat ×ₗ Nat ×ₗ Nat ×ₗ Nat ×ₗ Nat :=
  toLex (t.year, toLex (t.month,
    toLex (t.day, toLex (t.hour, toLex (t.minute, toLex (t.second, t.nanos))))))

def yearText (year : Int) : List Char :=
  if 0 ≤ year then padded 4 year.toNat else '-' :: padded 4 (-year).toNat

/-- `Format(time.RFC3339Nano)` of a time in UTC. -/
def text (t : Timestamp) : String :=
  String.ofList (yearText t.year ++ '-' :: (digits 2 t.month ++ '-' :: (digits 2 t.day ++ 'T' ::
    (digits 2 t.hour ++ ':' :: (digits 2 t.minute ++ ':' :: (digits 2 t.second ++
      (fraction t.nanos ++ ['Z'])))))))

def SameSecond (a b : Timestamp) : Prop :=
  a.year = b.year ∧ a.month = b.month ∧ a.day = b.day ∧ a.hour = b.hour ∧ a.minute = b.minute ∧
    a.second = b.second

instance (a b : Timestamp) : Decidable (SameSecond a b) := inferInstanceAs (Decidable (_ ∧ _))

/-- The year is printed with four digits. -/
def FourDigit (t : Timestamp) : Prop := 0 ≤ t.year ∧ t.year < 10 ^ 4

instance (t : Timestamp) : Decidable t.FourDigit := inferInstanceAs (Decidable (_ ∧ _))

theorem digits_cons_lt {width a b : Nat} (smallA : a < 10 ^ width) (smallB : b < 10 ^ width)
    (c : Char)
    (x y : List Char) : digits width a ++ c :: x < digits width b ++ c :: y ↔ a < b ∨ a = b ∧
    x < y := by
  rw [digits_append_lt smallA smallB, List.cons_lt_cons_self]

/-- The text order, down to the second. -/
theorem text_lt (a b : Timestamp) (yearA : a.FourDigit) (yearB : b.FourDigit) :
    a.text < b.text ↔
      a.year < b.year ∨ a.year = b.year ∧ (a.month < b.month ∨ a.month = b.month ∧ (a.day < b.day ∨
        a.day = b.day ∧ (a.hour < b.hour ∨ a.hour = b.hour ∧
          (a.minute < b.minute ∨ a.minute = b.minute ∧
          (a.second < b.second ∨ a.second = b.second ∧
            fraction a.nanos ++ ['Z'] < fraction b.nanos ++ ['Z']))))) := by
  obtain ⟨lowA, highA⟩ := yearA
  obtain ⟨lowB, highB⟩ := yearB
  have calA := a.calendar
  have calB := b.calendar
  have smallA : a.year.toNat < 10 ^ 4 := by omega
  have smallB : b.year.toNat < 10 ^ 4 := by omega
  have yearLt : a.year.toNat < b.year.toNat ↔ a.year < b.year := by omega
  have yearEq : a.year.toNat = b.year.toNat ↔ a.year = b.year := by omega
  rw [text, text, String.lt_iff_toList_lt, String.toList_ofList, String.toList_ofList, yearText,
    yearText,
    if_pos lowA, if_pos lowB, padded, padded, if_pos smallA, if_pos smallB,
    digits_cons_lt smallA smallB, yearLt, yearEq, digits_cons_lt (by omega) (by omega),
    digits_cons_lt (by omega) (by omega), digits_cons_lt (by omega) (by omega),
    digits_cons_lt (by omega) (by omega), digits_append_lt (by omega) (by omega)]

theorem instant_lt (a b : Timestamp) :
    a.instant < b.instant ↔
      a.year < b.year ∨ a.year = b.year ∧ (a.month < b.month ∨ a.month = b.month ∧ (a.day < b.day ∨
        a.day = b.day ∧ (a.hour < b.hour ∨ a.hour = b.hour ∧
          (a.minute < b.minute ∨ a.minute = b.minute ∧
          (a.second < b.second ∨ a.second = b.second ∧ a.nanos < b.nanos))))) := by
  simp only [instant, Prod.Lex.toLex_lt_toLex]

/-- Texts of varying precision compare as instants, unless the times share the second and
    one printed fraction is a proper prefix of the other. -/
theorem text_lt_iff {a b : Timestamp} (yearA : a.FourDigit) (yearB : b.FourDigit)
    (apart : ¬ (SameSecond a b ∧ FractionClash a.nanos b.nanos)) :
    a.text < b.text ↔ a.instant < b.instant := by
  rw [text_lt a b yearA yearB, instant_lt]
  have calA := a.calendar
  have calB := b.calendar
  -- only where every greater unit agrees does the fraction decide
  exact or_congr_right (and_congr_right fun year => or_congr_right (and_congr_right fun month =>
    or_congr_right (and_congr_right fun day => or_congr_right (and_congr_right fun hour =>
      or_congr_right (and_congr_right fun minute => or_congr_right (and_congr_right fun second =>
        fraction_lt_iff (by omega) (by omega) fun clash =>
          apart ⟨⟨year, month, day, hour, minute, second⟩, clash⟩))))))

end Timestamp

end AiConfig.Lib
