import Mathlib.Algebra.Order.Field.Power
import Mathlib.Tactic.Common
import Mathlib.Tactic.NormNum
import Mathlib.Tactic.Positivity
import Mathlib.Tactic.Ring
import Typist.Number.Binary64
import Typist.Proofs.Number.Rounding

/-!
# Rounding to binary floating point

The number nearest to a quotient depends on the quotient only (`ofRatio_congr`). If it is finite it
is within a half of its last place (`ofRatio_error`), and within the range of the normal numbers it
is finite and has a full significand (`ofRatio_of_normal`).
-/

namespace Typist

namespace Binary64

variable {num den num' den' : Nat}

/-! ## Scaling -/

theorem scaled_den_pos {base : Nat} (hbase : 0 < base) (num : Nat) (h : 0 < den) (exponent : Int) :
    0 < (scaled base num den exponent).2 := by
  cases exponent with
  | ofNat e => exact Nat.mul_pos h (Nat.pow_pos hbase)
  | negSucc e => exact h

theorem scaled_num_pos {base : Nat} (hbase : 0 < base) (h : 0 < num) (den : Nat) (exponent : Int) :
    0 < (scaled base num den exponent).1 := by
  cases exponent with
  | ofNat e => exact h
  | negSucc e => exact Nat.mul_pos h (Nat.pow_pos hbase)

/-- A scaled quotient is the quotient divided by the power. -/
theorem scaled_ratio {base : Nat} (hbase : 0 < base) (num den : Nat) (exponent : Int) :
    ((scaled base num den exponent).1 : ℚ) / (scaled base num den exponent).2 =
      num / den / (base : ℚ) ^ exponent := by
  have hpos : (base : ℚ) ≠ 0 := by exact_mod_cast hbase.ne'
  cases exponent with
  | ofNat e =>
    simp only [scaled, Nat.pow_eq, Nat.cast_mul, Nat.cast_pow, Int.ofNat_eq_natCast, zpow_natCast]
    rw [div_div]
  | negSucc e =>
    simp only [scaled, Nat.pow_eq, Nat.cast_mul, Nat.cast_pow, zpow_negSucc]
    rw [div_inv_eq_mul, mul_div_right_comm]

/-! ## Binary logarithms -/

theorem two_zpow_pos (e : Int) : (0 : ℚ) < 2 ^ e :=
  zpow_pos two_pos e

theorem two_zpow_succ (e : Int) : (2 : ℚ) ^ (e + 1) = 2 ^ e * 2 :=
  zpow_add_one₀ two_ne_zero e

theorem two_zpow_sub (e e' : Int) : (2 : ℚ) ^ (e - e') = 2 ^ e / 2 ^ e' :=
  zpow_sub₀ two_ne_zero e e'

theorem two_pow_mul_zpow (n : Nat) (e : Int) : (2 : ℚ) ^ n * 2 ^ e = 2 ^ ((n : Int) + e) := by
  rw [zpow_add₀ two_ne_zero, zpow_natCast]

/-- The test of a scaled quotient against one. -/
theorem scaled_le_iff {base : Nat} (hbase : 0 < base) (num : Nat) (h : 0 < den) (exponent : Int) :
    (scaled base num den exponent).2 ≤ (scaled base num den exponent).1 ↔
      (base : ℚ) ^ exponent ≤ num / den := by
  have hpos : (0 : ℚ) < (scaled base num den exponent).2 := by
    exact_mod_cast scaled_den_pos hbase num h exponent
  have hpow : (0 : ℚ) < (base : ℚ) ^ exponent := zpow_pos (by exact_mod_cast hbase) exponent
  rw [← Nat.cast_le (α := ℚ), ← one_le_div₀ hpos, scaled_ratio hbase, one_le_div₀ hpow]

/-- The logarithm of a positive quotient, rounded down. -/
theorem floorLog2_spec (hnum : 0 < num) (hden : 0 < den) :
    (2 : ℚ) ^ floorLog2 num den ≤ num / den ∧ (num : ℚ) / den < 2 ^ (floorLog2 num den + 1) := by
  have hden' : (0 : ℚ) < den := by exact_mod_cast hden
  have hnumlow : (2 : ℚ) ^ (num.log2 : Int) ≤ num := by exact_mod_cast Nat.log2_self_le hnum.ne'
  have hnumhigh : (num : ℚ) < 2 ^ ((num.log2 : Int) + 1) := by exact_mod_cast Nat.lt_log2_self
  have hdenlow : (2 : ℚ) ^ (den.log2 : Int) ≤ den := by exact_mod_cast Nat.log2_self_le hden.ne'
  have hdenhigh : (den : ℚ) < 2 ^ ((den.log2 : Int) + 1) := by exact_mod_cast Nat.lt_log2_self
  rw [two_zpow_succ] at hnumhigh hdenhigh
  have hpow := two_zpow_pos den.log2
  have hlow : (2 : ℚ) ^ ((num.log2 : Int) - den.log2) < num / den * 2 := by
    rw [two_zpow_sub, div_mul_eq_mul_div, div_lt_div_iff₀ hpow hden']
    nlinarith
  have hhigh : (num : ℚ) / den < 2 ^ ((num.log2 : Int) - den.log2) * 2 := by
    rw [two_zpow_sub, div_mul_eq_mul_div, div_lt_div_iff₀ hden' hpow]
    nlinarith
  simp only [floorLog2]
  split
  · next h =>
    rw [scaled_le_iff two_pos num hden] at h
    exact ⟨by exact_mod_cast h, by rwa [two_zpow_succ]⟩
  · next h =>
    rw [scaled_le_iff two_pos num hden, not_le] at h
    rw [sub_add_cancel]
    refine ⟨?_, by exact_mod_cast h⟩
    rw [two_zpow_sub, zpow_one, div_le_iff₀ two_pos]
    exact hlow.le

/-- The logarithm is the only exponent of the two powers around a quotient. -/
theorem floorLog2_eq (hnum : 0 < num) (hden : 0 < den) {e : Int} (hlow : (2 : ℚ) ^ e ≤ num / den)
    (hhigh : (num : ℚ) / den < 2 ^ (e + 1)) : floorLog2 num den = e := by
  obtain ⟨hlow', hhigh'⟩ := floorLog2_spec hnum hden
  have h₁ : e < floorLog2 num den + 1 :=
    (zpow_lt_zpow_iff_right₀ one_lt_two).mp (hlow.trans_lt hhigh')
  have h₂ : floorLog2 num den < e + 1 :=
    (zpow_lt_zpow_iff_right₀ one_lt_two).mp (hlow'.trans_lt hhigh)
  omega

/-! ## Rounding -/

/-- The exponent of the last place that a positive quotient is rounded to. -/
def lastPlace (num den : Nat) : Int :=
  max (floorLog2 num den - 52) minExponent

/-- The positive quotient in units of its last place, rounded. -/
def roundedUnits (num den : Nat) : Nat :=
  divNearest (scaled 2 num den (lastPlace num den)).1 (scaled 2 num den (lastPlace num den)).2

theorem ofRatio_eq (negative : Bool) (h : 0 < num) :
    ofRatio negative num den =
      if roundedUnits num den = 2 ^ 53 then
        if maxExponent < lastPlace num den + 1 then infinite negative
        else finite negative (2 ^ 52) (lastPlace num den + 1)
      else if maxExponent < lastPlace num den then infinite negative
      else finite negative (roundedUnits num den) (lastPlace num den) := by
  rw [ofRatio, if_neg h.ne']
  by_cases hcarry : roundedUnits num den = 2 ^ 53
  · rw [if_pos hcarry]
    rw [roundedUnits, lastPlace] at hcarry
    simp only [lastPlace, Nat.pow_eq, hcarry, if_true]
    rfl
  · rw [if_neg hcarry]
    rw [roundedUnits, lastPlace] at hcarry
    simp only [roundedUnits, lastPlace, Nat.pow_eq, hcarry, if_false]
    rfl

theorem roundedUnits_error (num : Nat) (hden : 0 < den) :
    |(roundedUnits num den : ℚ) - num / den / 2 ^ lastPlace num den| ≤ 1 / 2 := by
  have herror := divNearest_error (scaled 2 num den (lastPlace num den)).1
    (scaled_den_pos two_pos num hden (lastPlace num den))
  rwa [scaled_ratio two_pos] at herror

theorem pos_of_ratio_eq (hnum : 0 < num) (hden : 0 < den) (heq : (num : ℚ) / den = num' / den') :
    0 < num' := by
  have hpos : (0 : ℚ) < num / den := div_pos (by exact_mod_cast hnum) (by exact_mod_cast hden)
  rw [heq] at hpos
  rcases Nat.eq_zero_or_pos num' with rfl | hnum'
  · simp at hpos
  · exact hnum'

/-- The rounded number depends on the quotient only. -/
theorem ofRatio_congr (negative : Bool) (hnum : 0 < num) (hden : 0 < den) (hden' : 0 < den')
    (heq : (num : ℚ) / den = num' / den') :
    ofRatio negative num den = ofRatio negative num' den' := by
  have hnum' := pos_of_ratio_eq hnum hden heq
  have hplace : lastPlace num den = lastPlace num' den' := by
    obtain ⟨hlow, hhigh⟩ := floorLog2_spec hnum' hden'
    rw [lastPlace, lastPlace, floorLog2_eq hnum hden (heq ▸ hlow) (heq ▸ hhigh)]
  have hunits : roundedUnits num den = roundedUnits num' den' := by
    rw [roundedUnits, roundedUnits, hplace]
    refine divNearest_congr (scaled_den_pos two_pos _ hden _) (scaled_den_pos two_pos _ hden' _) ?_
    rw [scaled_ratio two_pos, scaled_ratio two_pos, heq]
  rw [ofRatio_eq negative hnum, ofRatio_eq negative hnum', hplace, hunits]

/-- Rounding changes a quotient by at most a half of its last place. -/
theorem roundedUnits_mul_error (num : Nat) (hden : 0 < den) :
    |(roundedUnits num den : ℚ) * 2 ^ lastPlace num den - num / den| ≤
      2 ^ lastPlace num den / 2 := by
  have hpow := two_zpow_pos (lastPlace num den)
  have herror := mul_le_mul_of_nonneg_right (roundedUnits_error num hden) hpow.le
  rw [← abs_of_pos hpow, ← abs_mul, abs_of_pos hpow, sub_mul, div_mul_cancel₀ _ hpow.ne'] at herror
  linarith

/-- A finite rounded number is within a half of its last place. -/
theorem ofRatio_error {negative negative' : Bool} {significand : Nat} {exponent : Int}
    (hnum : 0 < num) (hden : 0 < den)
    (h : ofRatio negative num den = finite negative' significand exponent) :
    |(significand : ℚ) * 2 ^ exponent - num / den| ≤ 2 ^ exponent / 2 := by
  have herror := roundedUnits_mul_error num hden
  have hpow := two_zpow_pos (lastPlace num den)
  rw [ofRatio_eq negative hnum] at h
  split at h
  · next hcarry =>
    split at h
    · cases h
    · cases h
      rw [hcarry] at herror
      rw [two_zpow_succ]
      have hvalue : ((2 ^ 52 : ℕ) : ℚ) * (2 ^ lastPlace num den * 2) =
          ((2 ^ 53 : ℕ) : ℚ) * 2 ^ lastPlace num den := by
        push_cast
        ring
      rw [hvalue]
      linarith
  · split at h
    · cases h
    · cases h
      exact herror

/-- The units of the last place of a normal number are between the two powers that bound a full
significand. -/
theorem roundedUnits_of_normal (hnum : 0 < num) (hden : 0 < den)
    (hlow : (2 : ℚ) ^ (-1022 : Int) ≤ num / den) :
    lastPlace num den = floorLog2 num den - 52 ∧ 2 ^ 52 ≤ roundedUnits num den ∧
      roundedUnits num den ≤ 2 ^ 53 := by
  obtain ⟨hfloor, hceil⟩ := floorLog2_spec hnum hden
  have hlog : (-1022 : Int) < floorLog2 num den + 1 :=
    (zpow_lt_zpow_iff_right₀ one_lt_two).mp (hlow.trans_lt hceil)
  have hplace : lastPlace num den = floorLog2 num den - 52 := by
    rw [lastPlace, minExponent]
    omega
  have hpow := two_zpow_pos (lastPlace num den)
  have herror := roundedUnits_error num hden
  have hfull : ((2 : ℚ) ^ 52) ≤ num / den / 2 ^ lastPlace num den := by
    rwa [le_div_iff₀ hpow, hplace, two_pow_mul_zpow,
      show ((52 : ℕ) : Int) + (floorLog2 num den - 52) = floorLog2 num den by omega]
  have hless : (num : ℚ) / den / 2 ^ lastPlace num den < 2 ^ 53 := by
    rwa [div_lt_iff₀ hpow, hplace, two_pow_mul_zpow,
      show ((53 : ℕ) : Int) + (floorLog2 num den - 52) = floorLog2 num den + 1 by omega]
  rw [abs_le] at herror
  refine ⟨hplace, ?_, ?_⟩
  · have hlow : (2 : ℚ) ^ 52 < roundedUnits num den + 1 := by linarith
    have hlow : 2 ^ 52 < roundedUnits num den + 1 := by exact_mod_cast hlow
    omega
  · have hhigh : (roundedUnits num den : ℚ) < 2 ^ 53 + 1 := by linarith
    have hhigh : roundedUnits num den < 2 ^ 53 + 1 := by exact_mod_cast hhigh
    omega

/-- Within the range of the normal numbers, the rounded number is finite and has a full
significand. -/
theorem ofRatio_of_normal (negative : Bool) (hnum : 0 < num) (hden : 0 < den)
    (hlow : (2 : ℚ) ^ (-1022 : Int) ≤ num / den) (hhigh : (num : ℚ) / den < 2 ^ (1000 : Int)) :
    ∃ significand exponent, ofRatio negative num den = finite negative significand exponent ∧
      2 ^ 52 ≤ significand := by
  obtain ⟨hplace, hfull, hmax⟩ := roundedUnits_of_normal hnum hden hlow
  have hlog : floorLog2 num den < 1000 :=
    (zpow_lt_zpow_iff_right₀ one_lt_two).mp ((floorLog2_spec hnum hden).1.trans_lt hhigh)
  rw [ofRatio_eq negative hnum, maxExponent, hplace]
  split
  · rw [if_neg (by omega)]
    exact ⟨_, _, rfl, Nat.le_refl _⟩
  · rw [if_neg (by omega)]
    exact ⟨_, _, rfl, hfull⟩

end Binary64

end Typist
