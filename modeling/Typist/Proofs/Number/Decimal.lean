import Mathlib.Data.List.Induction
import Mathlib.Data.Nat.Digits.Defs
import Mathlib.Data.Rat.Lemmas
import Typist.Number.Decimal
import Typist.Proofs.Number.Rounding
import Typist.Proofs.Text.Numeral
import Typist.Proofs.Text.Pieces

/-!
# Decimal numerals

A numeral has a digit before its point, if it has a point at all, and its digits are those of any
script (`DecimalNumeral`). `ofText?_eq_some_iff` : what starts with no point is read as a number
exactly if it is a numeral, and then the number is what the digits say. Its whole part and its
fraction are those of the numeral, up to the precision and the last place there is : a fraction with
few enough significant digits is as good as kept (`nearestEven_keptFraction`).
-/

namespace Typist

/-! ## Digits of any script -/

namespace Text

/-- Are all characters decimal digits, of whatever script? -/
def IsDecimal (t : Text) : Prop :=
  ∀ c ∈ t, (decimalValue? c).isSome

/-- The number that decimal digits denote. -/
def decimal (t : Text) : Nat :=
  Nat.ofDigits 10 (t.reverse.map fun c => (decimalValue? c).getD 0)

theorem decimalValue?_lt {c : Char} {value : Nat} (h : decimalValue? c = some value) :
    value < 10 := by
  obtain ⟨first, hfirst, rfl⟩ := Option.map_eq_some_iff.mp h
  have hrange := List.find?_some hfirst
  simp only [Bool.and_eq_true, decide_eq_true_eq] at hrange
  omega

/-- ASCII digits are worth their place among them. -/
theorem decimalValue?_of_isDigit {c : Char} (h : c.isDigit = true) :
    decimalValue? c = some (c.toNat - 48) := by
  have hrange : 48 ≤ c.toNat ∧ c.toNat ≤ 57 := by
    simpa [Char.isDigit, UInt32.le_iff_toNat_le] using h
  rw [decimalValue?, decimalZeros, List.find?_cons_of_pos (by simp; omega)]
  rfl

theorem isDecimal_append {t u : Text} : IsDecimal (t ++ u) ↔ t.IsDecimal ∧ u.IsDecimal :=
  List.forall_mem_append

theorem decimal_append (t u : Text) : decimal (t ++ u) = t.decimal * 10 ^ u.length + u.decimal := by
  rw [decimal, List.reverse_append, List.map_append, Nat.ofDigits_append, List.length_map,
    List.length_reverse, Nat.add_comm, Nat.mul_comm]
  rfl

theorem decimal_singleton (c : Char) : decimal [c] = (decimalValue? c).getD 0 := by
  simp [decimal]

/-- Digits denote less than the power of ten of their count. -/
theorem decimal_lt (t : Text) : t.decimal < 10 ^ t.length := by
  have hdigits : ∀ x ∈ t.reverse.map fun c => (decimalValue? c).getD 0, x < 10 := by
    intro x hx
    obtain ⟨c, -, rfl⟩ := List.mem_map.mp hx
    cases hvalue : decimalValue? c with
    | none => decide
    | some value => exact decimalValue?_lt hvalue
  simpa [decimal] using Nat.ofDigits_lt_base_pow_length (by decide) hdigits

theorem showsDigit_of_isDecimal {t : Text} (h : t.IsDecimal) {c : Char} (hc : c ∈ t) :
    showsDigit c = true := by
  simp [showsDigit, h c hc]

theorem point_not_mem_of_isDecimal {t : Text} (h : t.IsDecimal) : '.' ∉ t := by
  intro hmem
  have hnone : decimalValue? '.' = none := by decide +kernel
  simpa [hnone] using h '.' hmem

end Text

namespace DecimalNumber

theorem valueOf?_concat (t : Text) (c : Char) :
    valueOf? (t ++ [c]) = (valueOf? t).bind fun value =>
      (decimalValue? c).map (10 * value + ·) := by
  rw [valueOf?, List.foldl_append, ← valueOf?, List.foldl_cons, List.foldl_nil]
  cases valueOf? t <;> cases decimalValue? c <;> rfl

/-- Digits are read as the number that they denote. -/
theorem valueOf?_eq_some_iff {t : Text} {value : Nat} :
    valueOf? t = some value ↔ t.IsDecimal ∧ t.decimal = value := by
  induction t using List.reverseRecOn generalizing value with
  | nil => simp [valueOf?, Text.IsDecimal, Text.decimal]
  | append_singleton t c ih =>
    rw [valueOf?_concat, Option.bind_eq_some_iff, Text.isDecimal_append, Text.decimal_append,
      Text.decimal_singleton, List.length_singleton, Nat.pow_one]
    simp only [ih, Option.map_eq_some_iff]
    constructor
    · rintro ⟨_, ⟨ht, rfl⟩, digit, hdigit, rfl⟩
      refine ⟨⟨ht, by simp [Text.IsDecimal, hdigit]⟩, ?_⟩
      rw [hdigit, Option.getD_some, Nat.mul_comm]
    · rintro ⟨⟨ht, hc⟩, rfl⟩
      obtain ⟨digit, hdigit⟩ := Option.isSome_iff_exists.mp (hc c (List.mem_singleton_self c))
      refine ⟨_, ⟨ht, rfl⟩, digit, hdigit, ?_⟩
      rw [hdigit, Option.getD_some, Nat.mul_comm]

/-- The value of ASCII digits. -/
theorem valueOf?_of_isDigit {t : Text} (h : ∀ c ∈ t, c.isDigit = true) :
    valueOf? t = some t.value := by
  suffices hfold : ∀ n,
      t.foldl (fun value c => return 10 * (← value) + (← decimalValue? c)) (some n) =
        some (Nat.ofDigitChars 10 t n) from hfold 0
  induction t with
  | nil => simp
  | cons c t ih =>
    obtain ⟨hc, ht⟩ := List.forall_mem_cons.mp h
    intro n
    rw [List.foldl_cons, Nat.ofDigitChars_cons, ← ih ht, Text.decimalValue?_of_isDigit hc]
    rfl

end DecimalNumber

/-! ## Numerals -/

/-- A decimal number as it is written : digits, and after a point the digits of a fraction. -/
structure DecimalNumeral where
  whole : Text
  /-- What comes after the point, if there is one. -/
  fraction : Option Text
  /-- The point has a digit before it. -/
  nonempty : whole ≠ []
  isDecimal : Text.IsDecimal (whole ++ fraction.getD [])

namespace DecimalNumeral

variable (numeral : DecimalNumeral)

/-- The numeral as it is written. -/
def text : Text :=
  numeral.whole ++ numeral.fraction.elim [] ('.' :: ·)

/-- The digits after the point. -/
def fractionDigits : Text :=
  numeral.fraction.getD []

/-- The number before the point. -/
def wholeValue : Nat :=
  numeral.whole.decimal

/-- What the digits after the point are worth. -/
def fractionValue : ℚ :=
  numeral.fractionDigits.decimal / 10 ^ numeral.fractionDigits.length

/-- The number that the numeral writes. -/
def number : DecimalNumber :=
  ⟨Text.decimal (numeral.whole ++ numeral.fractionDigits), numeral.fractionDigits.length⟩

theorem number_div : numeral.number.digits / 10 ^ numeral.number.places = numeral.wholeValue := by
  rw [number, Text.decimal_append, Nat.mul_comm, Nat.mul_add_div (Nat.pow_pos (by omega)),
    Nat.div_eq_of_lt (Text.decimal_lt _), Nat.add_zero, wholeValue]

theorem number_mod :
    numeral.number.digits % 10 ^ numeral.number.places = numeral.fractionDigits.decimal := by
  rw [number, Text.decimal_append, Nat.mul_comm, Nat.mul_add_mod,
    Nat.mod_eq_of_lt (Text.decimal_lt _)]

/-- A numeral starts with a digit. -/
theorem exists_text_eq_cons : ∃ c rest, numeral.text = c :: rest ∧ (decimalValue? c).isSome := by
  obtain ⟨c, rest, hwhole⟩ := List.exists_cons_of_ne_nil numeral.nonempty
  refine ⟨c, rest ++ numeral.fraction.elim [] ('.' :: ·), by rw [text, hwhole, List.cons_append],
    ?_⟩
  exact numeral.isDecimal c (by simp [hwhole])

/-- The pieces of a numeral are what stands before its point and after it. -/
theorem pieces_text : numeral.text.pieces '.' = numeral.whole :: numeral.fraction.toList := by
  obtain ⟨hwhole, hfraction⟩ := Text.isDecimal_append.mp numeral.isDecimal
  have hpieces := Text.pieces_eq_singleton (Text.point_not_mem_of_isDecimal hwhole)
  rw [text]
  cases hpoint : numeral.fraction with
  | none => simpa using hpieces
  | some fraction =>
    rw [hpoint, Option.getD_some] at hfraction
    rw [Option.elim_some, Text.pieces_append_cons, hpieces,
      Text.pieces_eq_singleton (Text.point_not_mem_of_isDecimal hfraction)]
    rfl

/-- A text is that of one numeral at most. -/
theorem text_injective : Function.Injective text := by
  intro numeral numeral' h
  have hpieces := congrArg (Text.pieces '.') h
  rw [pieces_text, pieces_text] at hpieces
  obtain ⟨hwhole, hfraction⟩ := List.cons.inj hpieces
  obtain ⟨whole, fraction, _, _⟩ := numeral
  obtain ⟨whole', fraction', _, _⟩ := numeral'
  simp only at hwhole hfraction
  cases fraction <;> cases fraction' <;> simp_all

end DecimalNumeral

namespace DecimalNumber

/-- A numeral is read as its number. -/
theorem ofText?_text (numeral : DecimalNumeral) : ofText? numeral.text = some numeral.number := by
  have hvalue := valueOf?_eq_some_iff.mpr ⟨numeral.isDecimal, rfl⟩
  rw [ofText?, numeral.pieces_text, DecimalNumeral.number, DecimalNumeral.fractionDigits]
  cases hpoint : numeral.fraction with
  | none =>
    rw [hpoint, Option.getD_none, List.append_nil] at hvalue
    simp [numeral.nonempty, hvalue]
  | some fraction =>
    rw [hpoint, Option.getD_some] at hvalue
    simp [numeral.nonempty, hvalue]

/-- What starts with no point is read as a number exactly if it is a numeral of that number. -/
theorem ofText?_eq_some_iff {t : Text} {number : DecimalNumber} (hhead : t.head? ≠ some '.') :
    ofText? t = some number ↔
      ∃ numeral : DecimalNumeral, t = numeral.text ∧ number = numeral.number := by
  refine ⟨fun h => ?_, fun ⟨numeral, ht, hnumber⟩ => by rw [ht, hnumber, ofText?_text]⟩
  by_cases hpoint : '.' ∈ t
  · obtain ⟨whole, fraction, rfl, hwhole⟩ := List.eq_append_cons_of_mem hpoint
    have hnil : whole ≠ [] := by
      rintro rfl
      simp at hhead
    rw [ofText?, Text.pieces_append_cons, Text.pieces_eq_singleton hwhole] at h
    by_cases hmore : '.' ∈ fraction
    · -- A second point makes a third piece.
      obtain ⟨first, last, rfl, hfirst⟩ := List.eq_append_cons_of_mem hmore
      rw [Text.pieces_append_cons, Text.pieces_eq_singleton hfirst] at h
      have hlast : Text.pieces '.' last ≠ [] := Text.pieces_ne_nil last
      obtain ⟨p, ps, hpieces⟩ := List.exists_cons_of_ne_nil hlast
      simp [hpieces] at h
    · rw [Text.pieces_eq_singleton hmore] at h
      simp only [List.singleton_append, List.append_eq_nil_iff, hnil, false_and, if_false] at h
      obtain ⟨value, hvalue, rfl⟩ := Option.map_eq_some_iff.mp h
      obtain ⟨hdecimal, rfl⟩ := valueOf?_eq_some_iff.mp hvalue
      exact ⟨⟨whole, some fraction, hnil, hdecimal⟩, rfl, rfl⟩
  · rw [ofText?, Text.pieces_eq_singleton hpoint] at h
    by_cases hnil : t = []
    · simp [hnil] at h
    · simp only [if_neg hnil] at h
      obtain ⟨value, hvalue, rfl⟩ := Option.map_eq_some_iff.mp h
      obtain ⟨hdecimal, rfl⟩ := valueOf?_eq_some_iff.mp hvalue
      refine ⟨⟨t, none, hnil, by simpa using hdecimal⟩, by simp [DecimalNumeral.text], ?_⟩
      simp [DecimalNumeral.number, DecimalNumeral.fractionDigits]

/-! ## Values -/

/-- The value of a number. -/
def toRat (x : DecimalNumber) : ℚ :=
  x.digits / 10 ^ x.places

/-- The lowest terms are the numerator and the denominator without their common divisor. -/
theorem lowestTerms_spec (x : DecimalNumber) :
    x.lowestTerms.1 * x.digits.gcd (10 ^ x.places) = x.digits ∧
      x.lowestTerms.2 * x.digits.gcd (10 ^ x.places) = 10 ^ x.places ∧
        0 < x.digits.gcd (10 ^ x.places) :=
  ⟨Nat.div_mul_cancel (Nat.gcd_dvd_left ..), Nat.div_mul_cancel (Nat.gcd_dvd_right ..),
    Nat.gcd_pos_of_pos_right _ (Nat.pow_pos (by omega))⟩

/-- The lowest terms are those of the value. -/
theorem num_toRat (x : DecimalNumber) : x.toRat.num = x.lowestTerms.1 := by
  obtain ⟨hnum, hden, hpos⟩ := x.lowestTerms_spec
  have hlowest : 0 < x.lowestTerms.2 := Nat.pos_of_mul_pos_right (hden ▸ Nat.pow_pos (by omega))
  have hcoprime : x.lowestTerms.1.Coprime x.lowestTerms.2 := Nat.coprime_div_gcd_div_gcd hpos
  have hvalue : x.toRat = ((x.lowestTerms.1 : ℤ) : ℚ) / ((x.lowestTerms.2 : ℤ) : ℚ) := by
    have hgcd : ((x.digits.gcd (10 ^ x.places) : ℕ) : ℚ) ≠ 0 := by exact_mod_cast hpos.ne'
    have hdigits : (x.digits : ℚ) = x.lowestTerms.1 * (x.digits.gcd (10 ^ x.places) : ℕ) := by
      exact_mod_cast hnum.symm
    have hpow : (10 : ℚ) ^ x.places = x.lowestTerms.2 * (x.digits.gcd (10 ^ x.places) : ℕ) := by
      exact_mod_cast hden.symm
    rw [toRat, hdigits, hpow, mul_div_mul_right _ _ hgcd]
    rfl
  rw [hvalue]
  exact Rat.num_div_eq_of_coprime (by exact_mod_cast hlowest) (by simpa using hcoprime)

end DecimalNumber

/-! ## Fractions to the precision -/

namespace DecimalNumber

/-- A number within the precision has the fraction of its quotient. -/
theorem fraction_eq {x : DecimalNumber} (h : x.digits < 10 ^ precision)
    (hplaces : x.places ≤ lastPlace) : x.fraction = ⟨x.digits % 10 ^ x.places, x.places⟩ := by
  have hexcess : excess (x.digits % 10 ^ x.places) x.places = 0 := by
    have hlen := (Text.length_ofNat_le_iff (show 0 < precision by decide)).mpr
      ((Nat.mod_le x.digits (10 ^ x.places)).trans_lt h)
    rw [excess]
    omega
  simp only [fraction, Nat.pow_eq, hexcess, Nat.pow_zero, divNearest_one, Nat.sub_zero]

/-- Of digits within the precision only zeros are dropped, unless some of the digits are beyond the
last place. -/
theorem excess_cases {digits zeros : Nat} (h : digits < 10 ^ precision) (places : Nat) :
    excess (digits * 10 ^ zeros) places ≤ zeros ∨
      zeros + lastPlace < places ∧ excess (digits * 10 ^ zeros) places = places - lastPlace := by
  have hzeros : (Text.ofNat (digits * 10 ^ zeros)).length - precision ≤ zeros := by
    rcases Nat.eq_zero_or_pos digits with rfl | hpos
    · rw [Nat.zero_mul]
      exact (Nat.sub_eq_zero_of_le (by decide)).trans_le (Nat.zero_le _)
    · have hlength := (Text.length_ofNat_le_iff (show 0 < precision by decide)).mpr h
      rw [Text.ofNat_mul_pow hpos, List.length_append, List.length_replicate]
      omega
  rw [excess]
  omega

theorem excess_le_places {n places : Nat} (h : n < 10 ^ places) : excess n places ≤ places := by
  have hmore : n < 10 ^ (places + 1) :=
    h.trans (Nat.pow_lt_pow_right (by decide) (Nat.lt_succ_self _))
  have hlength := (Text.length_ofNat_le_iff (Nat.succ_pos places)).mpr hmore
  have hprecision : 0 < precision := by decide
  rw [excess]
  omega

/-- Beyond the last place a multiple is rounded to nothing, if its factor is not too large. -/
theorem divNearest_mul_eq_zero {n zeros places factor : Nat} (hn : n ≤ 10 ^ precision * 10 ^ zeros)
    (hfactor : factor ≤ 10 ^ 10) (hplaces : zeros + lastPlace ≤ places) :
    divNearest (n * factor) (10 ^ places) = 0 := by
  have hlast : precision + 11 ≤ lastPlace := by decide
  refine divNearest_eq_zero ?_
  calc
    2 * (n * factor) ≤ 2 * (10 ^ precision * 10 ^ zeros * 10 ^ 10) :=
      Nat.mul_le_mul_left 2 (Nat.mul_le_mul hn hfactor)
    _ < 10 * (10 ^ precision * 10 ^ zeros * 10 ^ 10) :=
      Nat.mul_lt_mul_of_pos_right (by decide) (by positivity)
    _ = 10 ^ (zeros + (precision + 11)) := by ring
    _ ≤ 10 ^ places :=
      Nat.pow_le_pow_right (by decide) ((Nat.add_le_add_left hlast zeros).trans hplaces)

end DecimalNumber

namespace DecimalNumeral

variable (numeral : DecimalNumeral)

/-- The fraction has no more significant digits than the precision : the zeros in front and those at
the end do not count. -/
def IsPrecise : Prop :=
  ∃ digits zeros, numeral.fractionDigits.decimal = digits * 10 ^ zeros ∧ digits < 10 ^ precision

/-- The fraction to the precision. -/
def keptFraction : ℚ :=
  numeral.number.fraction.toRat

/-- What is kept of a fraction, as a quotient. -/
theorem keptFraction_eq_div {dropped : Nat}
    (h : DecimalNumber.excess numeral.fractionDigits.decimal numeral.fractionDigits.length =
      dropped) :
    numeral.keptFraction = (divNearest numeral.fractionDigits.decimal (10 ^ dropped) : ℚ) /
      (10 ^ (numeral.fractionDigits.length - dropped) : ℕ) := by
  subst h
  have hmod := numeral.number_mod
  rw [keptFraction, DecimalNumber.fraction, DecimalNumber.toRat]
  simp only [Nat.pow_eq, hmod]
  push_cast
  rfl

variable {numeral}

/-- A fraction is kept as it is if only zeros are dropped. -/
theorem keptFraction_eq {digits zeros : Nat}
    (hvalue : numeral.fractionDigits.decimal = digits * 10 ^ zeros)
    (hzeros : DecimalNumber.excess numeral.fractionDigits.decimal numeral.fractionDigits.length ≤
      zeros) : numeral.keptFraction = numeral.fractionValue := by
  have hplaces := DecimalNumber.excess_le_places (Text.decimal_lt numeral.fractionDigits)
  rw [numeral.keptFraction_eq_div rfl, fractionValue]
  generalize DecimalNumber.excess _ _ = dropped at *
  obtain ⟨zeros, rfl⟩ := Nat.exists_eq_add_of_le' hzeros
  rw [hvalue, Nat.pow_add, ← Nat.mul_assoc, divNearest_mul _ (Nat.pow_pos (by omega))]
  obtain ⟨places, hlength⟩ := Nat.exists_eq_add_of_le' hplaces
  have hpow : (10 : ℚ) ^ dropped ≠ 0 := by positivity
  rw [hlength, Nat.add_sub_cancel, pow_add]
  push_cast
  rw [mul_div_mul_right _ _ hpow]

/-- A multiple of a fraction within the precision is rounded as if all of the fraction were kept, if
the factor is not too large. -/
theorem nearestEven_keptFraction (h : numeral.IsPrecise) {factor : Nat}
    (hfactor : factor ≤ 10 ^ 10) :
    nearestEven (numeral.keptFraction * factor) = nearestEven (numeral.fractionValue * factor) := by
  obtain ⟨digits, zeros, hvalue, hdigits⟩ := h
  rcases DecimalNumber.excess_cases hdigits numeral.fractionDigits.length with
    hzeros | ⟨hlast, hexcess⟩
  · rw [keptFraction_eq hvalue (hvalue ▸ hzeros)]
  · -- The digits end beyond the last place, so that they and what is kept of them come to less than
    -- a half.
    have hn : digits * 10 ^ zeros ≤ 10 ^ precision * 10 ^ zeros := Nat.mul_le_mul_right _ hdigits.le
    have hkept :
        divNearest (digits * 10 ^ zeros) (10 ^ (numeral.fractionDigits.length - lastPlace)) ≤
          10 ^ precision * 10 ^ 0 := by
      refine divNearest_le (Nat.pow_pos (by omega)) (hn.trans ?_)
      rw [Nat.pow_zero, Nat.mul_one]
      exact Nat.mul_le_mul_left _ (Nat.pow_le_pow_right (by decide) (by omega))
    have hfraction : numeral.fractionValue = (numeral.fractionDigits.decimal : ℚ) /
        (10 ^ numeral.fractionDigits.length : ℕ) := by
      rw [fractionValue]
      push_cast
      rfl
    rw [numeral.keptFraction_eq_div (hvalue ▸ hexcess), hfraction,
      nearestEven_div_mul _ _ (Nat.pow_pos (by omega)),
      nearestEven_div_mul _ _ (Nat.pow_pos (by omega)), hvalue,
      DecimalNumber.divNearest_mul_eq_zero hn hfactor hlast.le,
      DecimalNumber.divNearest_mul_eq_zero hkept hfactor (by omega)]

end DecimalNumeral

end Typist
