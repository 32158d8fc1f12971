import Mathlib.Data.Rat.Floor
import Mathlib.Data.Int.Log

/-! # JSON values

A number is kept as it is written: readers differ in what they make of it.

* `nearestDouble` — the number as a double, without an upper end of the range; `wholeDouble` of a
  whole number.
* `Json` — a JSON text; `Json.field` is a field of an object. -/

namespace AiConfig.Lib

/-! ## Doubles -/

/-- The whole number next to `q`, the even one of two that are as near. -/
def roundHalfEven (q : ℚ) : ℤ :=
  let low := ⌊q⌋
  if q - low < 1 / 2 then low
  else if 1 / 2 < q - low then low + 1
  else if low % 2 = 0 then low else low + 1

/-- How far the doubles around `q` are apart. -/
def doubleStep (q : ℚ) : ℚ := 2 ^ max (Int.log 2 |q| - 52) (-1074)

def nearestDouble (q : ℚ) : ℚ := roundHalfEven (q / doubleStep q) * doubleStep q

theorem roundHalfEven_int (n : ℤ) : roundHalfEven n = n := by
  simp [roundHalfEven]

theorem le_roundHalfEven {n : ℤ} {q : ℚ} (below : (n : ℚ) ≤ q) : n ≤ roundHalfEven q := by
  have low : n ≤ ⌊q⌋ := Int.le_floor.mpr below
  simp only [roundHalfEven]
  split
  · exact low
  · split
    · omega
    · split <;> omega

theorem doubleStep_pos (q : ℚ) : 0 < doubleStep q := zpow_pos (by norm_num) _

/-- Whole numbers of 53 bits are doubles. -/
theorem nearestDouble_int {n : ℤ} (short : |n| < 2 ^ 53) : nearestDouble n = n := by
  have step : ∃ k : ℕ, doubleStep (n : ℚ) = ((2 : ℚ) ^ k)⁻¹ := by
    have log : Int.log 2 |(n : ℚ)| ≤ 52 := by
      have size : |(n : ℚ)| = (n.natAbs : ℚ) := by rw [Nat.cast_natAbs, Int.cast_abs]
      rw [size, Int.log_natCast]
      rw [Int.abs_eq_natAbs] at short
      have below : Nat.log 2 n.natAbs < 53 :=
        Nat.log_lt_of_lt_pow' (by norm_num) (by exact_mod_cast short)
      omega
    obtain ⟨k, up⟩ :=
      Int.eq_ofNat_of_zero_le (show 0 ≤ -max (Int.log 2 |(n : ℚ)| - 52) (-1074) by omega)
    refine ⟨k, ?_⟩
    rw [doubleStep, ← zpow_natCast, ← zpow_neg, ← up, neg_neg]
  obtain ⟨k, step⟩ := step
  have whole : (n : ℚ) / ((2 : ℚ) ^ k)⁻¹ = ((n * 2 ^ k : ℤ) : ℚ) := by
    rw [div_inv_eq_mul]
    push_cast
    rfl
  have nonzero : (2 : ℚ) ^ k ≠ 0 := pow_ne_zero _ (by norm_num)
  rw [nearestDouble, step, whole, roundHalfEven_int]
  push_cast
  field_simp

theorem nearestDouble_nat {n : ℕ} (short : n < 2 ^ 53) : nearestDouble n = n := by
  have cast : nearestDouble ((n : ℤ) : ℚ) = ((n : ℤ) : ℚ) :=
    nearestDouble_int (by rw [Nat.abs_cast]; exact_mod_cast short)
  exact_mod_cast cast

/-- Numbers past 53 bits stay past them. -/
theorem le_nearestDouble {q : ℚ} (long : 2 ^ 53 ≤ q) : 2 ^ 53 ≤ nearestDouble q := by
  have positive : 0 < q := lt_of_lt_of_le (by norm_num) long
  have log : 53 ≤ Int.log 2 |q| := by
    rw [abs_of_pos positive, ← Int.zpow_le_iff_le_log (by norm_num) positive]
    exact_mod_cast long
  have size : doubleStep q = 2 ^ (Int.log 2 |q| - 52) := by
    rw [doubleStep, max_eq_left (by omega)]
  have low : ((2 ^ 52 : ℤ) : ℚ) ≤ q / doubleStep q := by
    rw [le_div_iff₀ (doubleStep_pos q), size]
    have power : ((2 ^ 52 : ℤ) : ℚ) * 2 ^ (Int.log 2 |q| - 52) = 2 ^ Int.log 2 |q| := by
      have two : ((2 ^ 52 : ℤ) : ℚ) = (2 : ℚ) ^ (52 : ℤ) := by norm_num
      rw [two, ← zpow_add₀ (by norm_num)]
      congr 1
      omega
    rw [power, abs_of_pos positive]
    exact_mod_cast Int.zpow_log_le_self (by norm_num) positive
  have rounded : ((2 ^ 52 : ℤ) : ℚ) ≤ (roundHalfEven (q / doubleStep q) : ℚ) := by
    exact_mod_cast le_roundHalfEven low
  have two : (2 : ℚ) ≤ doubleStep q := by
    rw [size]
    calc (2 : ℚ) = 2 ^ (1 : ℤ) := by norm_num
      _ ≤ 2 ^ (Int.log 2 |q| - 52) := zpow_le_zpow_right₀ (by norm_num) (by omega)
  calc (2 : ℚ) ^ 53 = ((2 ^ 52 : ℤ) : ℚ) * 2 := by norm_num
    _ ≤ (roundHalfEven (q / doubleStep q) : ℚ) * doubleStep q :=
      mul_le_mul rounded two (by norm_num) (le_trans (by norm_num) rounded)

/-- A whole number as a double. -/
def wholeDouble (n : ℤ) : ℤ := (nearestDouble n).num

theorem wholeDouble_eq {n : ℤ} (short : |n| < 2 ^ 53) : wholeDouble n = n := by
  rw [wholeDouble, nearestDouble_int short, Rat.num_intCast]

/-! ## Values -/

inductive JsonNumber where
  /-- Without a fraction and without an exponent. -/
  | whole (negative : Bool) (digits : Nat)
  | decimal (negative : Bool) (mantissa : Nat) (exponent : Int)
  deriving DecidableEq

def JsonNumber.value : JsonNumber → ℚ
  | .whole negative digits => (if negative then -1 else 1) * digits
  | .decimal negative mantissa exponent => (if negative then -1 else 1) * mantissa * 10 ^ exponent

inductive Json where
  | null
  | bool (value : Bool)
  | number (value : JsonNumber)
  | string (value : String)
  | array (items : List Json)
  | object (fields : List (String × Json))

/-- A field of an object; the last of a name stands. -/
def Json.field : Json → String → Option Json
  | .object fields, name => fields.reverse.lookup name
  | _, _ => none

end AiConfig.Lib
