import Mathlib.Algebra.Order.Field.Basic
import Mathlib.Data.Rat.Cast.Order
import Mathlib.Data.Rat.Floor
import Mathlib.Tactic.FieldSimp
import Mathlib.Tactic.Linarith
import Typist.Number.Decimal

/-!
# Rounded quotients

A rounded quotient is within a half of the quotient (`divNearest_error`), and it depends on the
quotient only (`divNearest_congr`). A quotient that is whole is not changed by rounding
(`divNearest_mul`). `nearestEven` rounds a rational number, to the even one of two integers that are
equally near, and `divNearest_eq_nearestEven` says that quotients are rounded so.
-/

namespace Typist

variable {num den : Nat}

theorem divNearest_bounds (num : Nat) (h : 0 < den) :
    2 * (divNearest num den * den) ≤ 2 * num + den ∧
      2 * num ≤ 2 * (divNearest num den * den) + den := by
  have hnum := Nat.div_add_mod num den
  have hrest := Nat.mod_lt num h
  have hnext : (num / den + 1) * den = num / den * den + den := Nat.add_one_mul ..
  rw [Nat.mul_comm] at hnum
  simp only [divNearest]
  split
  · omega
  · split
    · omega
    · split <;> omega

/-- Rounding changes a quotient by at most a half. -/
theorem divNearest_error (num : Nat) (h : 0 < den) :
    |(divNearest num den : ℚ) - num / den| ≤ 1 / 2 := by
  obtain ⟨hlow, hhigh⟩ := divNearest_bounds num h
  have hden : (0 : ℚ) < den := by exact_mod_cast h
  have hlow : 2 * ((divNearest num den : ℚ) * den) ≤ 2 * num + den := by exact_mod_cast hlow
  have hhigh : 2 * (num : ℚ) ≤ 2 * ((divNearest num den : ℚ) * den) + den := by exact_mod_cast hhigh
  have hcancel : (num : ℚ) / den * den = num := div_mul_cancel₀ _ hden.ne'
  rw [abs_le]
  constructor
  · refine le_of_mul_le_mul_right ?_ hden
    linarith
  · refine le_of_mul_le_mul_right ?_ hden
    linarith

theorem divNearest_mul_left {factor : Nat} (h : 0 < factor) (num den : Nat) :
    divNearest (factor * num) (factor * den) = divNearest num den := by
  have hlt (a b : Nat) : factor * a < factor * b ↔ a < b := Nat.mul_lt_mul_left h
  simp only [divNearest, Nat.mul_div_mul_left _ _ h, Nat.mul_mod_mul_left,
    Nat.mul_left_comm 2 factor, hlt]

/-- The rounded quotient depends on the quotient only. -/
theorem divNearest_congr {num' den' : Nat} (h : 0 < den) (h' : 0 < den')
    (heq : (num : ℚ) / den = num' / den') : divNearest num den = divNearest num' den' := by
  have hcross : den' * num = den * num' := by
    have hden : (den : ℚ) ≠ 0 := by exact_mod_cast h.ne'
    have hden' : (den' : ℚ) ≠ 0 := by exact_mod_cast h'.ne'
    rw [div_eq_div_iff hden hden'] at heq
    have hnat : num * den' = num' * den := by exact_mod_cast heq
    rw [Nat.mul_comm den', hnat, Nat.mul_comm]
  rw [← divNearest_mul_left h' num den, ← divNearest_mul_left h num' den', hcross,
    Nat.mul_comm den' den]

/-- A whole quotient is its own rounding. -/
theorem divNearest_mul (whole : Nat) (h : 0 < den) : divNearest (whole * den) den = whole := by
  simp [divNearest, Nat.mul_div_cancel _ h, h]

/-- A quotient is not rounded beyond a whole number. -/
theorem divNearest_le {bound : Nat} (h : 0 < den) (hnum : num ≤ bound * den) :
    divNearest num den ≤ bound := by
  obtain ⟨hlow, -⟩ := divNearest_bounds num h
  refine Nat.le_of_not_lt fun hlt => ?_
  have hmore : (bound + 1) * den ≤ divNearest num den * den := Nat.mul_le_mul_right den hlt
  rw [Nat.add_one_mul] at hmore
  omega

/-- Less than a half is rounded to nothing. -/
theorem divNearest_eq_zero (h : 2 * num < den) : divNearest num den = 0 := by
  have hless : num < den := by omega
  simp [divNearest, Nat.div_eq_of_lt hless, Nat.mod_eq_of_lt hless, h]

theorem divNearest_zero (den : Nat) : divNearest 0 den = 0 := by
  simp [divNearest]

theorem divNearest_one (num : Nat) : divNearest num 1 = num := by
  simpa using divNearest_mul num Nat.one_pos

/-! ## The nearest integer -/

/-- The integer nearest to a number, the even one of two that are equally near. -/
def nearestEven (x : ℚ) : ℤ :=
  if Int.fract x < 1 / 2 then ⌊x⌋
  else if 1 / 2 < Int.fract x then ⌊x⌋ + 1
  else if Even ⌊x⌋ then ⌊x⌋
  else ⌊x⌋ + 1

/-- No integer is nearer. -/
theorem abs_sub_nearestEven_le (x : ℚ) : |x - nearestEven x| ≤ 1 / 2 := by
  have hsum := Int.floor_add_fract x
  have hnonneg := Int.fract_nonneg x
  have hlt := Int.fract_lt_one x
  rw [abs_le]
  unfold nearestEven
  split_ifs <;> push_cast <;> constructor <;> linarith

/-- Of two integers that are equally near it is the even one. -/
theorem even_nearestEven {x : ℚ} (h : |x - nearestEven x| = 1 / 2) : Even (nearestEven x) := by
  have hsum := Int.floor_add_fract x
  have hnonneg := Int.fract_nonneg x
  have hlt := Int.fract_lt_one x
  unfold nearestEven at h ⊢
  split_ifs at h ⊢ with hlow hhigh heven
  · rw [abs_of_nonneg (by linarith)] at h
    linarith
  · push_cast at h
    rw [abs_of_nonpos (by linarith)] at h
    linarith
  · exact heven
  · exact (Int.not_even_iff_odd.mp heven).add_one

/-- A quotient is rounded to the nearest integer. -/
theorem divNearest_eq_nearestEven (num : Nat) (h : 0 < den) :
    (divNearest num den : ℤ) = nearestEven (num / den) := by
  have hden : (0 : ℚ) < den := by exact_mod_cast h
  have hfloor : ⌊(num : ℚ) / den⌋ = (num / den : ℕ) := by
    rw [Int.floor_div_natCast, Int.floor_natCast, Int.natCast_ediv]
  have hlow : Int.fract ((num : ℚ) / den) < 1 / 2 ↔ 2 * (num % den) < den := by
    rw [Int.fract_div_natCast_eq_div_natCast_mod, div_lt_div_iff₀ hden two_pos, mul_comm, one_mul]
    norm_cast
  have hhigh : 1 / 2 < Int.fract ((num : ℚ) / den) ↔ den < 2 * (num % den) := by
    rw [Int.fract_div_natCast_eq_div_natCast_mod, div_lt_div_iff₀ two_pos hden,
      mul_comm _ (2 : ℚ), one_mul]
    norm_cast
  simp only [divNearest, nearestEven, hlow, hhigh, hfloor, Int.even_coe_nat, Nat.even_iff]
  split_ifs <;> simp

/-- A multiple of a quotient is rounded as a quotient. -/
theorem nearestEven_div_mul (num factor : Nat) (h : 0 < den) :
    nearestEven ((num : ℚ) / den * factor) = divNearest (num * factor) den := by
  rw [div_mul_eq_mul_div, divNearest_eq_nearestEven _ h, Nat.cast_mul]

end Typist
