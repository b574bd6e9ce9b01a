import Mathlib.Algebra.Group.Nat.Defs
import Typist.Number.Decimal

/-!
# Decimal digits

The digits of a number are digits (`isDigit_of_mem_ofNat`), their value is the number
(`value_ofNat`), and their count is that of the powers of ten up to the number
(`length_ofNat_bounds`). Ten times the number has one more digit, a zero (`ofNat_mul_pow`). The
other way round, digits are worth less than the power of ten of their count (`value_lt`).
-/

namespace Typist

namespace Text

variable {n : Nat}

theorem isDigit_of_mem_ofNat {c : Char} (hc : c ∈ ofNat n) : c.isDigit = true :=
  Nat.isDigit_of_mem_toDigits (by decide) (by decide) hc

theorem ofNat_ne_nil (n : Nat) : ofNat n ≠ [] :=
  Nat.toDigits_ne_nil

theorem length_ofNat_pos (n : Nat) : 0 < (ofNat n).length :=
  Nat.length_toDigits_pos

theorem length_ofNat_le_iff {k : Nat} (hk : 0 < k) : (ofNat n).length ≤ k ↔ n < 10 ^ k :=
  Nat.length_toDigits_le_iff (by decide) hk

/-- A positive number is between the powers of ten that its number of digits gives. -/
theorem length_ofNat_bounds (h : 0 < n) :
    10 ^ ((ofNat n).length - 1) ≤ n ∧ n < 10 ^ (ofNat n).length := by
  have hpos := length_ofNat_pos n
  refine ⟨?_, (length_ofNat_le_iff hpos).mp (Nat.le_refl _)⟩
  rcases Nat.eq_or_lt_of_le hpos with hone | hmore
  · rw [← hone]
    exact h
  · refine Nat.le_of_not_lt fun hless => ?_
    have hshort := (length_ofNat_le_iff (by omega)).mpr hless
    omega

/-- A number is too long to be written if it has more digits than a numeral may have. -/
theorem exceedsDigitLimit_iff (n : Nat) :
    exceedsDigitLimit n = true ↔ digitLimit < (ofNat n).length := by
  have hlimit : 0 < digitLimit := by decide
  rw [exceedsDigitLimit, decide_eq_true_eq, Int.natAbs_natCast, Nat.pow_eq, ← Nat.not_lt,
    ← length_ofNat_le_iff hlimit, Nat.not_le]

theorem value_ofNat (n : Nat) : (ofNat n).value = n :=
  Nat.ofDigitChars_ten_toDigits

/-- Digits are worth less than the power of ten of their count. -/
theorem value_lt {t : Text} (h : ∀ c ∈ t, c.isDigit = true) : value t < 10 ^ t.length := by
  induction t with
  | nil => decide
  | cons c t ih =>
    obtain ⟨hc, ht⟩ := List.forall_mem_cons.mp h
    have hdigit : c.toNat - '0'.toNat ≤ 9 := by
      have hle := (Char.isDigit_iff_toNat.mp hc).2
      have hzero : '0'.toNat = 48 := rfl
      have hnine : '9'.toNat = 57 := rfl
      omega
    have hvalue : value (c :: t) = 10 ^ t.length * (c.toNat - '0'.toNat) + value t := by
      rw [value, Nat.ofDigitChars_cons, Nat.ofDigitChars_eq_ofDigitChars_zero, Nat.mul_zero,
        Nat.zero_add]
      rfl
    have hmul := Nat.mul_le_mul_left (10 ^ t.length) hdigit
    have hrest := ih ht
    rw [hvalue, List.length_cons, Nat.pow_succ]
    omega

/-- The value of digits that are not too many can be written. -/
theorem exceedsDigitLimit_value {t : Text} (h : ∀ c ∈ t, c.isDigit = true)
    (hlen : t.length ≤ digitLimit) : exceedsDigitLimit (value t) = false := by
  have hlt := value_lt h
  rw [exceedsDigitLimit, decide_eq_false_iff_not, Int.natAbs_natCast, Nat.pow_eq]
  generalize digitLimit = limit at hlen ⊢
  exact Nat.not_le.mpr (Nat.lt_of_lt_of_le hlt (Nat.pow_le_pow_right (by decide) hlen))

/-- Zeros in front do not count. -/
theorem value_zeros_append (zeros : Nat) (t : Text) :
    value (List.replicate zeros '0' ++ t) = t.value := by
  rw [value, Nat.ofDigitChars_append, Nat.ofDigitChars_replicate_zero, Nat.mul_zero]
  rfl

theorem ofNat_mul_ten (h : 0 < n) : ofNat (n * 10) = ofNat n ++ ['0'] := by
  rw [ofNat, Nat.toDigits_of_base_le (by decide) (by omega), Nat.mul_div_cancel _ (by decide),
    Nat.mul_mod_left]
  rfl

/-- A power of ten adds zeros at the end. -/
theorem ofNat_mul_pow (h : 0 < n) (zeros : Nat) :
    ofNat (n * 10 ^ zeros) = ofNat n ++ List.replicate zeros '0' := by
  induction zeros with
  | zero => simp
  | succ zeros ih =>
    have hpos : 0 < n * 10 ^ zeros := Nat.mul_pos h (Nat.pow_pos (by decide))
    rw [Nat.pow_succ, ← Nat.mul_assoc, ofNat_mul_ten hpos, ih, List.replicate_succ',
      List.append_assoc]

/-- The last digit is a zero of multiples of ten only. -/
theorem getLast_ofNat_ne_zero (h : n % 10 ≠ 0) : (ofNat n).getLast? ≠ some '0' := by
  rw [ofNat, Nat.toDigits_eq_if (by decide)]
  split
  · rw [List.getLast?_singleton, ne_eq, Option.some.injEq, Nat.digitChar_eq_zero]
    omega
  · rw [List.getLast?_concat, ne_eq, Option.some.injEq, Nat.digitChar_eq_zero]
    exact h

/-- A positive number is a multiple of a power of ten whose factor is not a multiple of ten. -/
theorem exists_digits_zeros (h : 0 < n) :
    ∃ digits zeros, n = digits * 10 ^ zeros ∧ digits % 10 ≠ 0 := by
  induction n using Nat.strongRecOn with
  | ind n ih =>
    by_cases hmod : n % 10 = 0
    · obtain ⟨digits, zeros, hn, hdigits⟩ := ih (n / 10) (by omega) (by omega)
      refine ⟨digits, zeros + 1, ?_, hdigits⟩
      rw [Nat.pow_succ, ← Nat.mul_assoc, ← hn]
      omega
    · exact ⟨n, 0, by simp, hmod⟩

end Text

end Typist
