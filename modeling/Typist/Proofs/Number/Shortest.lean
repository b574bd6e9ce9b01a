import Typist.Number.Shortest
import Typist.Proofs.Number.Binary64
import Typist.Proofs.Text.Numeral

/-!
# Shortest decimals of short decimals

`shortest_value` : a decimal of up to fourteen digits is not changed by being rounded to binary
floating point and written again. No other decimal of its grid or of a coarser one is near enough to
the rounded number to read back as it, and the search comes to the decimal itself at the latest on
its own grid.
-/

namespace Typist

namespace Binary64

variable {num den significand digits : Nat} {exponent point : Int}

/-! ## Decimal logarithms -/

theorem ten_zpow_pos (e : Int) : (0 : ℚ) < 10 ^ e :=
  zpow_pos (by norm_num) e

theorem ten_zpow_lt_iff {e e' : Int} : (10 : ℚ) ^ e < 10 ^ e' ↔ e < e' :=
  zpow_lt_zpow_iff_right₀ (by norm_num)

theorem ten_zpow_natCast (n : Nat) : (10 : ℚ) ^ (n : Int) = ((10 ^ n : ℕ) : ℚ) := by
  rw [zpow_natCast]
  norm_cast

/-- The decimal logarithm of a positive quotient, rounded down. -/
theorem floorLog10_spec (hnum : 0 < num) (hden : 0 < den) :
    (10 : ℚ) ^ floorLog10 num den ≤ num / den ∧
      (num : ℚ) / den < 10 ^ (floorLog10 num den + 1) := by
  have hden' : (0 : ℚ) < den := by exact_mod_cast hden
  have hnum' : (0 : ℚ) < num := by exact_mod_cast hnum
  rw [floorLog10, ← Text.ofNat, ← Text.ofNat]
  split
  · next hle =>
    -- A quotient of at least one has as many digits before the point as its whole part.
    obtain ⟨hlow, hhigh⟩ := Text.length_ofNat_bounds (Nat.div_pos hle hden)
    have hpos : 0 < (Text.ofNat (num / den)).length := Text.length_ofNat_pos _
    generalize (Text.ofNat (num / den)).length = len at *
    rw [Nat.le_div_iff_mul_le hden] at hlow
    rw [Nat.div_lt_iff_lt_mul hden] at hhigh
    rw [sub_add_cancel, show (len : Int) - 1 = ((len - 1 : ℕ) : Int) by omega, ten_zpow_natCast,
      ten_zpow_natCast, le_div_iff₀ hden', div_lt_iff₀ hden']
    exact ⟨by exact_mod_cast hlow, by exact_mod_cast hhigh⟩
  · next hlt =>
    -- Below one, the digits of the inverse are counted.
    have hinv : 0 < (den - 1) / num := Nat.div_pos (by omega) hnum
    obtain ⟨hlow, hhigh⟩ := Text.length_ofNat_bounds hinv
    have hpos : 0 < (Text.ofNat ((den - 1) / num)).length := Text.length_ofNat_pos _
    generalize (Text.ofNat ((den - 1) / num)).length = len at *
    rw [Nat.le_div_iff_mul_le hnum] at hlow
    rw [Nat.div_lt_iff_lt_mul hnum] at hhigh
    have hlow : 10 ^ (len - 1) * num < den := by omega
    have hhigh : den ≤ 10 ^ len * num := by omega
    rw [show -(len : Int) + 1 = -((len - 1 : ℕ) : Int) by omega, zpow_neg, zpow_neg,
      ten_zpow_natCast, ten_zpow_natCast, inv_le_comm₀ (by positivity) (by positivity), inv_div,
      lt_inv_comm₀ (by positivity) (by positivity), inv_div, div_le_iff₀ hnum', lt_div_iff₀ hnum']
    exact ⟨by exact_mod_cast hhigh, by exact_mod_cast hlow⟩

/-! ## Decimals that read back -/

/-- A decimal that reads back is within a half of the last place. -/
theorem readsBack_error (hsig : 0 < significand) (h : readsBack significand exponent digits point) :
    0 < digits ∧ |(significand : ℚ) * 2 ^ exponent - digits * 10 ^ point| ≤ 2 ^ exponent / 2 := by
  have hread : ofDecimal false digits point = finite false significand exponent :=
    of_decide_eq_true h
  simp only [ofDecimal] at hread
  split at hread
  · cases hread
    omega
  · split at hread
    · cases hread
    · next hsize _ =>
      have hdigits : 0 < digits := by
        rcases Nat.eq_zero_or_pos digits with rfl | hdigits
        · simp at hsize
        · exact hdigits
      have herror := ofRatio_error (scaled_num_pos (by omega) hdigits 1 (-point))
        (scaled_den_pos (by omega) digits Nat.one_pos (-point)) hread
      rw [scaled_ratio (by omega)] at herror
      refine ⟨hdigits, ?_⟩
      simpa using herror

/-- A decimal reads back as the number that its value is rounded to. -/
theorem readsBack_of_ratio (hdigits : 0 < digits) (hden : 0 < den)
    (hsize : -400 ≤ (Text.ofNat digits).length + point ∧ (Text.ofNat digits).length + point ≤ 400)
    (hvalue : (digits : ℚ) * 10 ^ point = num / den)
    (h : ofRatio false num den = finite false significand exponent) :
    readsBack significand exponent digits point = true := by
  have hratio : ((scaled 10 digits 1 (-point)).1 : ℚ) / (scaled 10 digits 1 (-point)).2 =
      num / den := by
    rw [scaled_ratio (by omega), ← hvalue]
    simp
  have hround := ofRatio_congr false (scaled_num_pos (by omega) hdigits 1 (-point))
    (scaled_den_pos (by omega) digits Nat.one_pos (-point)) hden hratio
  rw [readsBack, ofDecimal, ← Text.ofNat, if_neg (by simp [hdigits.ne']; omega), if_neg (by omega)]
  exact decide_eq_true (hround.trans h)

/-! ## The search -/

section

variable {first : Int} {count : Nat}

/-- What is found on a grid reads back. -/
theorem readsBack_of_onGrid
    (h : onGrid significand exponent num den first count = some (digits, point)) :
    point = first + 1 - count ∧ readsBack significand exponent digits point = true := by
  simp only [onGrid] at h
  split at h
  · next hlow =>
    cases h
    exact ⟨rfl, (Bool.and_eq_true_iff.mp hlow).1⟩
  · split at h
    · next hhigh =>
      cases h
      exact ⟨rfl, hhigh⟩
    · cases h

/-- A neighbour of the value that reads back is found, or the other one is. -/
theorem onGrid_isSome {low : Nat}
    (hlow : low = (scaled 10 num den (first + 1 - count)).1 /
      (scaled 10 num den (first + 1 - count)).2)
    (h : readsBack significand exponent low (first + 1 - count) = true ∨
      readsBack significand exponent (low + 1) (first + 1 - count) = true) :
    (onGrid significand exponent num den first count).isSome = true := by
  subst hlow
  simp only [onGrid]
  rcases h with h | h
  · rw [h]
    split
    · rfl
    · next hnot =>
      simp only [Bool.true_and, Bool.or_eq_true, Bool.not_eq_true', not_or,
        Bool.not_eq_false] at hnot
      rw [if_pos hnot.1]
      rfl
  · rw [h]
    split <;> rfl

/-- A search through the counts in order stops at the latest at a count with a result. -/
theorem findSome_counts {α : Type} {f : Nat → Option α} {n count : Nat} (hpos : 0 < count)
    (hle : count ≤ n) (h : (f count).isSome = true) :
    ∃ a count', ((List.range n).map (· + 1)).findSome? f = some a ∧ f count' = some a ∧
      0 < count' ∧ count' ≤ count := by
  induction n with
  | zero => omega
  | succ n ih =>
    rw [List.range_succ, List.map_append, List.findSome?_append]
    cases hfound : ((List.range n).map (· + 1)).findSome? f with
    | some a =>
      rcases Nat.lt_or_ge n count with hlast | hearlier
      · obtain ⟨count', hmem, hcount'⟩ := List.exists_of_findSome?_eq_some hfound
        obtain ⟨index, hindex, rfl⟩ := List.mem_map.mp hmem
        rw [List.mem_range] at hindex
        exact ⟨a, index + 1, rfl, hcount', by omega, by omega⟩
      · obtain ⟨a', count', hfound', hcount', hbounds⟩ := ih hearlier
        rw [hfound] at hfound'
        obtain rfl := Option.some.inj hfound'
        exact ⟨a, count', rfl, hcount', hbounds⟩
    | none =>
      rcases Nat.lt_or_ge n count with hlast | hearlier
      · obtain rfl : count = n + 1 := by omega
        obtain ⟨a, ha⟩ := Option.isSome_iff_exists.mp h
        exact ⟨a, n + 1, by simp [ha], ha, by omega, by omega⟩
      · obtain ⟨a', count', hfound', -⟩ := ih hearlier
        rw [hfound] at hfound'
        cases hfound'

end

/-! ## Short decimals -/

section

variable {k q : Nat}

/-- The last place of a number near a short decimal is finer than the decimal's grid. -/
theorem lastPlace_lt (hsmall : k < 10 ^ 14) (hsig : 2 ^ 52 ≤ significand)
    (hnear : |(significand : ℚ) * 2 ^ exponent - k * 10 ^ (-(q : Int))| ≤ 2 ^ exponent / 2) :
    (2 : ℚ) ^ exponent < 10 ^ (-(q : Int) - 1) / 2 := by
  have hpow := two_zpow_pos exponent
  have hfull : (2 : ℚ) ^ 52 * 2 ^ exponent ≤ significand * 2 ^ exponent :=
    mul_le_mul_of_nonneg_right (by exact_mod_cast hsig) hpow.le
  have hunit := ten_zpow_pos (-(q : Int) - 1)
  have hsplit : (10 : ℚ) ^ (-(q : Int)) = 10 ^ (-(q : Int) - 1) * 10 := by
    rw [← zpow_add_one₀ (by norm_num), sub_add_cancel]
  have hk : (k : ℚ) ≤ 10 ^ 14 := by exact_mod_cast hsmall.le
  have hscaled : (k : ℚ) * (10 ^ (-(q : Int) - 1) * 10) ≤ 10 ^ 14 * (10 ^ (-(q : Int) - 1) * 10) :=
    mul_le_mul_of_nonneg_right hk (by positivity)
  rw [hsplit, abs_le] at hnear
  norm_num at hfull hscaled
  linarith

/-- Two decimals on a grid are equal if they are less than its unit apart. -/
theorem eq_of_near {unit : Int} {a b : ℚ} (ha : ∃ n : Nat, a = n * 10 ^ unit)
    (hb : ∃ n : Nat, b = n * 10 ^ unit) (hnear : |a - b| < 10 ^ unit) : a = b := by
  obtain ⟨n, rfl⟩ := ha
  obtain ⟨n', rfl⟩ := hb
  have hunit := ten_zpow_pos unit
  rw [← sub_mul, abs_mul, abs_of_pos hunit] at hnear
  have hless : |(n : ℚ) - n'| < 1 := lt_of_mul_lt_mul_right (by simpa using hnear) hunit.le
  have hint : |(n : Int) - n'| < 1 := by exact_mod_cast hless
  have hsame : (n : Int) = n' := by
    have hbounds := abs_lt.mp hint
    omega
  rw [show n = n' by exact_mod_cast hsame]

/-- A decimal is on every grid that is not coarser than its own. -/
theorem mem_grid {unit : Int} (n : Nat) (h : unit ≤ point) :
    ∃ n' : Nat, (n : ℚ) * 10 ^ point = n' * 10 ^ unit := by
  obtain ⟨places, hplaces⟩ := Int.eq_ofNat_of_zero_le (sub_nonneg.mpr h)
  refine ⟨n * 10 ^ places, ?_⟩
  rw [show point = (places : Int) + unit by omega, zpow_add₀ (by norm_num), zpow_natCast]
  push_cast
  ring

/-- A decimal that reads back as the number nearest to a short decimal, and is not much finer, is
that short decimal. -/
theorem eq_of_readsBack (hsmall : k < 10 ^ 14) (hsig : 2 ^ 52 ≤ significand)
    (hnear : |(significand : ℚ) * 2 ^ exponent - k * 10 ^ (-(q : Int))| ≤ 2 ^ exponent / 2)
    (hpoint : -(q : Int) - 1 ≤ point) (h : readsBack significand exponent digits point = true) :
    (digits : ℚ) * 10 ^ point = k * 10 ^ (-(q : Int)) := by
  have hplace := lastPlace_lt hsmall hsig hnear
  have hunit := ten_zpow_pos (-(q : Int) - 1)
  obtain ⟨-, hread⟩ := readsBack_error (by omega) h
  refine eq_of_near (mem_grid digits hpoint) (mem_grid k (by omega)) ?_
  rw [abs_le] at hread hnear
  rw [abs_lt]
  constructor <;> linarith

/-- The exponent of the first digit of a number near a short decimal is that of the decimal, or one
less if the number is below a power of ten. -/
theorem floorLog10_bounds (hk : 0 < k) {f : ℚ} (hf : (num : ℚ) / den = f) (hnum : 0 < num)
    (hden : 0 < den) (hnear : |f - k * 10 ^ (-(q : Int))| < 10 ^ (-(q : Int) - 1)) :
    ((Text.ofNat k).length : Int) - q - 2 ≤ floorLog10 num den ∧
      floorLog10 num den ≤ (Text.ofNat k).length - q - 1 := by
  obtain ⟨hlow, hhigh⟩ := floorLog10_spec hnum hden
  obtain ⟨hklow, hkhigh⟩ := Text.length_ofNat_bounds hk
  have hpos : 0 < (Text.ofNat k).length := Text.length_ofNat_pos _
  generalize (Text.ofNat k).length = len at *
  have hplace := ten_zpow_pos (-(q : Int))
  have hunit : (10 : ℚ) ^ (-(q : Int) - 1) * 10 = 10 ^ (-(q : Int)) := by
    rw [← zpow_add_one₀ (by norm_num), sub_add_cancel]
  have hfloor : (10 : ℚ) ^ ((len : Int) - q - 1) ≤ k * 10 ^ (-(q : Int)) := by
    rw [show (len : Int) - q - 1 = ((len - 1 : ℕ) : Int) + -q by omega, zpow_add₀ (by norm_num),
      ten_zpow_natCast]
    exact mul_le_mul_of_nonneg_right (by exact_mod_cast hklow) hplace.le
  have hceil : (k + 1 : ℚ) * 10 ^ (-(q : Int)) ≤ 10 ^ ((len : Int) - q) := by
    rw [sub_eq_add_neg, zpow_add₀ (by norm_num), ten_zpow_natCast]
    exact mul_le_mul_of_nonneg_right (by exact_mod_cast hkhigh) hplace.le
  have hcoarse : (10 : ℚ) ^ (-(q : Int) - 1) ≤ 10 ^ ((len : Int) - q - 2) :=
    zpow_le_zpow_right₀ (by norm_num) (by omega)
  have hten : (10 : ℚ) ^ ((len : Int) - q - 2) * 10 = 10 ^ ((len : Int) - q - 1) := by
    rw [← zpow_add_one₀ (by norm_num)]
    congr 1
    omega
  rw [hf] at hlow hhigh
  rw [abs_lt] at hnear
  have hbelow : (10 : ℚ) ^ floorLog10 num den < 10 ^ ((len : Int) - q) := by linarith
  have habove : (10 : ℚ) ^ ((len : Int) - q - 2) < 10 ^ (floorLog10 num den + 1) := by
    have := ten_zpow_pos ((len : Int) - q - 2)
    linarith
  rw [ten_zpow_lt_iff] at hbelow habove
  omega

/-- One of the two neighbours of a number on the grid of a short decimal that it is nearest to is
the decimal. -/
theorem neighbour_eq (hden : 0 < den) {whole : Nat}
    (hnear : |(num : ℚ) / den - whole * 10 ^ point| < 10 ^ point) :
    (scaled 10 num den point).1 / (scaled 10 num den point).2 = whole ∨
      (scaled 10 num den point).1 / (scaled 10 num den point).2 + 1 = whole := by
  have hscaled := scaled_den_pos (show 0 < 10 by omega) num hden point
  have hratio := scaled_ratio (show 0 < 10 by omega) num den point
  generalize (scaled 10 num den point).1 = n at *
  generalize (scaled 10 num den point).2 = d at *
  have hpow := ten_zpow_pos point
  have hd : (0 : ℚ) < d := by exact_mod_cast hscaled
  have hfloor : ((n / d : ℕ) : ℚ) ≤ n / d := by
    rw [le_div_iff₀ hd]
    exact_mod_cast Nat.div_mul_le_self n d
  have hceil : (n : ℚ) / d < ((n / d : ℕ) : ℚ) + 1 := by
    rw [div_lt_iff₀ hd]
    exact_mod_cast Nat.lt_mul_of_div_lt (Nat.lt_succ_self _) hscaled
  have hclose : |(n : ℚ) / d - whole| < 1 := by
    refine lt_of_mul_lt_mul_right ?_ hpow.le
    rw [hratio, one_mul, ← abs_of_pos hpow, ← abs_mul, abs_of_pos hpow, sub_mul, Nat.cast_ofNat,
      div_mul_cancel₀ _ hpow.ne']
    exact hnear
  rw [abs_lt] at hclose
  have hle : ((n / d : ℕ) : ℚ) < whole + 1 := by linarith
  have hge : (whole : ℚ) < ((n / d : ℕ) : ℚ) + 1 + 1 := by linarith
  have hle : n / d < whole + 1 := by exact_mod_cast hle
  have hge : whole < n / d + 1 + 1 := by exact_mod_cast hge
  omega

/-- The search comes to a short decimal on its own grid. -/
theorem onGrid_isSome_of_near {first : Int} {count whole : Nat} (hden : 0 < den)
    (hread : readsBack significand exponent whole (first + 1 - count) = true)
    (hnear : |(num : ℚ) / den - whole * 10 ^ (first + 1 - count : Int)| <
      10 ^ (first + 1 - count : Int)) :
    (onGrid significand exponent num den first count).isSome = true := by
  refine onGrid_isSome rfl ?_
  rcases neighbour_eq hden hnear with heq | heq
  · exact .inl (by rw [heq, hread])
  · exact .inr (by rw [heq, hread])

theorem short_normal (hk : 0 < k) (hsmall : k < 10 ^ 14) (hq : q ≤ 300) :
    (2 : ℚ) ^ (-1022 : Int) ≤ k / (10 ^ q : ℕ) ∧ (k : ℚ) / (10 ^ q : ℕ) < 2 ^ (1000 : Int) := by
  have hpow : (0 : ℚ) < (10 ^ q : ℕ) := by positivity
  have hone : (1 : ℚ) ≤ (10 ^ q : ℕ) := by exact_mod_cast Nat.one_le_pow q 10 (by omega)
  have hk' : (1 : ℚ) ≤ k := by exact_mod_cast hk
  constructor
  · have hlarge : 10 ^ q ≤ 2 ^ 1022 :=
      (Nat.pow_le_pow_right (by omega) hq).trans (by decide +kernel)
    have hlarge : ((10 ^ q : ℕ) : ℚ) ≤ 2 ^ 1022 := by exact_mod_cast hlarge
    rw [le_div_iff₀ hpow, zpow_neg, inv_mul_le_iff₀ (two_zpow_pos _)]
    have hone : (2 : ℚ) ^ 1022 ≤ 2 ^ (1022 : Int) * k := by
      rw [show (1022 : Int) = ((1022 : ℕ) : Int) from rfl, zpow_natCast]
      exact le_mul_of_one_le_right (by positivity) hk'
    exact hlarge.trans hone
  · have hbound : (k : ℚ) < 2 ^ (1000 : Int) := by
      have hnat : k < 2 ^ 1000 := hsmall.trans (by decide +kernel)
      rw [show (1000 : Int) = ((1000 : ℕ) : Int) from rfl, zpow_natCast]
      exact_mod_cast hnat
    exact (div_le_self (by positivity) hone).trans_lt hbound

/-- A decimal of up to fourteen digits is the shortest one of the number that it is rounded to. -/
theorem shortest_value (hk : 0 < k) (hsmall : k < 10 ^ 14) (hq : q ≤ 300)
    (h : ofRatio false k (10 ^ q) = finite false significand exponent) :
    ∃ digits point, shortest significand exponent = (digits, point) ∧
      (digits : ℚ) * 10 ^ point = k * 10 ^ (-(q : Int)) ∧ -(q : Int) - 1 ≤ point := by
  have hpow : 0 < 10 ^ q := Nat.pow_pos (by omega)
  have hratio : (k : ℚ) / (10 ^ q : ℕ) = k * 10 ^ (-(q : Int)) := by
    rw [zpow_neg, ten_zpow_natCast, div_eq_mul_inv]
  obtain ⟨hlow, hhigh⟩ := short_normal hk hsmall hq
  obtain ⟨significand', exponent', h', hsig⟩ := ofRatio_of_normal false hk hpow hlow hhigh
  obtain ⟨-, rfl, rfl⟩ := finite.inj (h.symm.trans h')
  have hnear := ofRatio_error hk hpow h
  rw [hratio] at hnear
  have hplace := lastPlace_lt hsmall hsig hnear
  have hclose : |(significand : ℚ) * 2 ^ exponent - k * 10 ^ (-(q : Int))| <
      10 ^ (-(q : Int) - 1) := by
    have hunit := ten_zpow_pos (-(q : Int) - 1)
    linarith
  have hnum := scaled_num_pos (show 0 < 2 by omega) (show 0 < significand by omega) 1 (-exponent)
  have hden := scaled_den_pos (show 0 < 2 by omega) significand Nat.one_pos (-exponent)
  have hvalue := scaled_ratio (show 0 < 2 by omega) significand 1 (-exponent)
  rw [Nat.cast_one, div_one, zpow_neg, div_inv_eq_mul, Nat.cast_ofNat] at hvalue
  rw [shortest]
  simp only
  generalize (scaled 2 significand 1 (-exponent)).1 = num at *
  generalize (scaled 2 significand 1 (-exponent)).2 = den at *
  obtain ⟨hfirstlow, hfirsthigh⟩ := floorLog10_bounds hk hvalue hnum hden hclose
  have hlen : 0 < (Text.ofNat k).length := Text.length_ofNat_pos _
  have hlen' : (Text.ofNat k).length ≤ 14 := (Text.length_ofNat_le_iff (by omega)).mpr hsmall
  -- On the grid of as many digits as the decimal has, it is one of the neighbours.
  obtain ⟨whole, hwhole, hmost, hgrid⟩ : ∃ whole : Nat, 0 < whole ∧ whole < 10 ^ 15 ∧
      (whole : ℚ) * 10 ^ (floorLog10 num den + 1 - (Text.ofNat k).length) =
        k * 10 ^ (-(q : Int)) := by
    rcases (show floorLog10 num den = (Text.ofNat k).length - q - 1 ∨
      floorLog10 num den = (Text.ofNat k).length - q - 2 by omega) with hfirst | hfirst
    · refine ⟨k, hk, by omega, ?_⟩
      rw [hfirst]
      congr 2
      omega
    · refine ⟨k * 10, by omega, by omega, ?_⟩
      rw [hfirst, show -(q : Int) = -(q : Int) - 1 + 1 by omega, zpow_add_one₀ (by norm_num)]
      push_cast
      rw [mul_assoc, mul_comm (10 : ℚ)]
      congr 3
      omega
  have hsize : (Text.ofNat whole).length ≤ 15 := (Text.length_ofNat_le_iff (by omega)).mpr hmost
  have hread : readsBack significand exponent whole
      (floorLog10 num den + 1 - (Text.ofNat k).length) = true :=
    readsBack_of_ratio hwhole hpow (by omega) (hgrid.trans hratio.symm) h
  have hsome := onGrid_isSome_of_near hden hread <| by
    rw [hvalue, hgrid]
    exact hclose.trans_le (zpow_le_zpow_right₀ (by norm_num) (by omega))
  -- What is found first is on that grid or on a coarser one, and is the same decimal.
  obtain ⟨⟨digits, point⟩, count, hfound, hon, -, hcount⟩ :=
    findSome_counts (n := 17) hlen (by omega) hsome
  obtain ⟨hpoint, hread'⟩ := readsBack_of_onGrid hon
  exact ⟨digits, point, by rw [hfound]; rfl, eq_of_readsBack hsmall hsig hnear (by omega) hread',
    by omega⟩

end

end Binary64

end Typist
