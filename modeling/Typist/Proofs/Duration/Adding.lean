import Typist.Duration.Reader
import Typist.Proofs.Number.Decimal

/-!
# Adding the terms of a duration

The shares of a duration's terms all have its sign, so what is added makes a sum longer, and a sum
that is in range is a sum of shares in range. `addTerm_eq` : a whole part beyond the precision is
refused, and so is a fraction of which the numerator times the unit is out of range. Otherwise
adding a term comes to the sum, if that is in range.
-/

namespace Typist

namespace DecimalNumber

/-- The fraction's share of a unit, in microseconds. -/
def share (fraction : DecimalNumber) (unit : TimeUnit) : Nat :=
  divNearest (fraction.digits * unit.micros) (10 ^ fraction.places)

/-- The share may be taken of the fraction in lowest terms. -/
theorem share_eq_lowestTerms (fraction : DecimalNumber) (unit : TimeUnit) :
    fraction.share unit =
      divNearest (fraction.lowestTerms.1 * unit.micros) fraction.lowestTerms.2 := by
  obtain ⟨hnum, hden, hpos⟩ := fraction.lowestTerms_spec
  rw [← divNearest_mul_left hpos, Nat.mul_comm _ fraction.lowestTerms.2, hden,
    Nat.mul_comm _ (_ * _), Nat.mul_right_comm, hnum, share]

/-- What a number of a unit is worth, in microseconds, its fraction to the precision. -/
def amount (number : DecimalNumber) (unit : TimeUnit) : Nat :=
  number.digits / 10 ^ number.places * unit.micros + number.fraction.share unit

end DecimalNumber

namespace Duration

theorem eq_of_micros {d e : Duration} (h : d.micros = e.micros) : d = e := by
  cases d
  cases e
  simpa using h

/-- The microseconds are those of a duration. -/
abbrev InRange (micros : Int) : Prop :=
  minMicros ≤ micros ∧ micros ≤ maxMicros

variable {sign : Int}

/-- What is nearer to zero is in range too. -/
theorem inRange_of_le (hsign : sign = 1 ∨ sign = -1) {n m : Nat} (h : InRange (sign * n))
    (hm : m ≤ n) : InRange (sign * m) := by
  unfold InRange minMicros maxMicros at *
  rcases hsign with rfl | rfl <;> omega

theorem inRange_of_small (hsign : sign = 1 ∨ sign = -1) {n : Nat} (hn : n ≤ 10 ^ 19) :
    InRange (sign * n) := by
  unfold InRange minMicros maxMicros
  rcases hsign with rfl | rfl <;> omega

theorem lt_precision_of_inRange (hsign : sign = 1 ∨ sign = -1) {micros : Nat}
    (h : InRange (sign * micros)) : micros < 10 ^ precision := by
  have hbound : micros < 10 ^ 20 := by
    unfold InRange minMicros maxMicros at h
    rcases hsign with rfl | rfl <;> omega
  exact hbound.trans (by decide)

theorem inRangeOr_ofMicros? {micros : Int} (h : InRange micros) :
    ∃ d, inRangeOr (ofMicros? micros) = .ok d ∧ d.micros = micros :=
  ⟨⟨micros, h⟩, by rw [ofMicros?, dif_pos h]; rfl, rfl⟩

theorem inRangeOr_ofMicros?_of_not {micros : Int} (h : ¬ InRange micros) :
    inRangeOr (ofMicros? micros) = .error .outOfRange := by
  rw [ofMicros?, dif_neg h]
  rfl

theorem inRangeOr_micros (d : Duration) : inRangeOr (ofMicros? d.micros) = .ok d := by
  rw [ofMicros?, dif_pos d.inRange]
  rfl

section

variable {sum : Duration} {a : Nat}

/-- A share is added exactly, if the sum is in range. -/
theorem addShare_eq (hsign : sign = 1 ∨ sign = -1) (hsum : sum.micros = sign * a) (share : Nat) :
    (inRangeOr (ofMicros? (sign * share)) >>= fun d => inRangeOr (sum.add? d)) =
      inRangeOr (ofMicros? (sign * (a + share : ℕ))) := by
  by_cases hshare : InRange (sign * share)
  · obtain ⟨d, hd, hmicros⟩ := inRangeOr_ofMicros? hshare
    have hadd : sum.micros + d.micros = sign * (a + share : ℕ) := by
      rw [hsum, hmicros, Int.natCast_add, Int.mul_add]
    rw [hd]
    show inRangeOr (sum.add? d) = _
    rw [add?, hadd]
  · have hmore : ¬ InRange (sign * (a + share : ℕ)) := fun h =>
      hshare (inRange_of_le hsign h (Nat.le_add_left ..))
    rw [inRangeOr_ofMicros?_of_not hshare, inRangeOr_ofMicros?_of_not hmore]
    rfl

theorem addWhole_eq (hsign : sign = 1 ∨ sign = -1) (hsum : sum.micros = sign * a) (whole : Nat)
    (unit : TimeUnit) :
    addWhole sum sign whole unit =
      inRangeOr (ofMicros? (sign * (a + whole * unit.micros : ℕ))) := by
  rw [addWhole]
  split
  · next hzero => rw [hzero, Nat.zero_mul, Nat.add_zero, ← hsum, inRangeOr_micros]
  · rw [Int.mul_assoc, ← Int.natCast_mul]
    exact addShare_eq hsign hsum _

/-- A quotient is rounded on either side of zero alike. -/
theorem divNearestInt_sign (hsign : sign = 1 ∨ sign = -1) (num den : Nat) :
    divNearestInt (sign * num) den = sign * divNearest num den := by
  rw [divNearestInt]
  rcases hsign with rfl | rfl
  · rw [Int.one_mul, Int.one_mul, if_neg (by omega), Int.natAbs_natCast]
  · rw [Int.neg_one_mul, Int.neg_one_mul, Int.natAbs_neg, Int.natAbs_natCast]
    split
    · rfl
    · next hzero =>
      obtain rfl : num = 0 := by omega
      rw [divNearest_zero]
      rfl

/-- A fraction is added if its numerator times the unit is in range. -/
theorem addFraction_eq (hsign : sign = 1 ∨ sign = -1) (hsum : sum.micros = sign * a)
    (fraction : DecimalNumber) (unit : TimeUnit) :
    addFraction sum sign fraction unit =
      if InRange (sign * (fraction.lowestTerms.1 * unit.micros : ℕ)) then
        inRangeOr (ofMicros? (sign * (a + fraction.share unit : ℕ)))
      else .error .outOfRange := by
  rw [addFraction]
  split
  · next hzero =>
    have hnum : fraction.lowestTerms.1 = 0 := by simp [DecimalNumber.lowestTerms, hzero]
    have hshare : fraction.share unit = 0 := by
      rw [DecimalNumber.share, hzero, Nat.zero_mul, divNearest_zero]
    rw [hnum, hshare, Nat.zero_mul, Nat.add_zero, ← hsum, inRangeOr_micros,
      if_pos (inRange_of_small hsign (Nat.zero_le _))]
  · simp only [Int.mul_assoc, ← Int.natCast_mul]
    split
    · next hproduct =>
      obtain ⟨product, hok, hmicros⟩ := inRangeOr_ofMicros? hproduct
      rw [hok]
      show (inRangeOr (ofMicros? (divNearestInt product.micros fraction.lowestTerms.2)) >>= _) = _
      rw [hmicros, divNearestInt_sign hsign, ← DecimalNumber.share_eq_lowestTerms]
      exact addShare_eq hsign hsum _
    · next hproduct =>
      rw [inRangeOr_ofMicros?_of_not hproduct]
      rfl

/-- What adding a term comes to. -/
theorem addTerm_eq (hsign : sign = 1 ∨ sign = -1) (hsum : sum.micros = sign * a)
    (number : DecimalNumber) (unit : TimeUnit) :
    addTerm sum sign number unit =
      if 10 ^ precision ≤ number.digits / 10 ^ number.places then .error .tooPrecise
      else if InRange (sign * (number.fraction.lowestTerms.1 * unit.micros : ℕ)) then
        inRangeOr (ofMicros? (sign * (a + number.amount unit : ℕ)))
      else .error .outOfRange := by
  rw [addTerm, DecimalNumber.whole?]
  simp only [Nat.pow_eq]
  by_cases hwhole : 10 ^ precision ≤ number.digits / 10 ^ number.places
  · rw [if_pos hwhole, if_neg (Nat.not_lt.mpr hwhole)]
  · rw [if_neg hwhole, if_pos (Nat.lt_of_not_le hwhole)]
    simp only [addWhole_eq hsign hsum]
    by_cases hrange : InRange (sign * (a + number.digits / 10 ^ number.places * unit.micros : ℕ))
    · obtain ⟨d, hd, hmicros⟩ := inRangeOr_ofMicros? hrange
      rw [hd]
      show addFraction d sign number.fraction unit = _
      rw [addFraction_eq hsign hmicros, DecimalNumber.amount, Nat.add_assoc]
    · have hmore : ¬ InRange (sign * (a + number.amount unit : ℕ)) := fun h =>
        hrange (inRange_of_le hsign h (Nat.add_le_add_left (Nat.le_add_right ..) a))
      rw [inRangeOr_ofMicros?_of_not hrange, inRangeOr_ofMicros?_of_not hmore, ite_self]
      rfl

end

end Duration

end Typist
