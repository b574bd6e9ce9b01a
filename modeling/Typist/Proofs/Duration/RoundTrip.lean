import Typist.Duration.Writer
import Typist.Proofs.Duration.Terms
import Typist.Proofs.Number.Layout

/-!
# Durations read back

A written duration is a row of terms, one for each count of hours or minutes and one for the number
of seconds, milliseconds or microseconds, and each is worth what it was written for. So it reads
back as the duration (`parse_text`), with one exception : seconds that are not zero but below 0.0001
are written with an exponent, which is no unit (`HasTinySeconds`).
-/

namespace Typist

namespace Duration

/-! ## The terms of a written duration -/

/-- A whole number with a unit. -/
def wholeTerm (count : Nat) (unit : TimeUnit) (h : count < 10 ^ precision) : Term where
  writing := Text.ofNat count
  number := ⟨count, 0⟩
  unit := unit
  amount := count * unit.micros
  isWriting := by
    have hwriting := isWriting_digits (Text.ofNat_ne_nil count) fun _ => Text.isDigit_of_mem_ofNat
    rwa [Text.value_ofNat] at hwriting
  withinPrecision := h
  withinPlaces := Nat.zero_le _
  worth := (Nat.mul_one _).symm
  small := .inl rfl

/-- The terms of a count : none if it is zero. -/
def countTerms (count : Nat) (unit : TimeUnit) (h : count < 10 ^ precision) : List Term :=
  if count = 0 then [] else [wholeTerm count unit h]

theorem text_countTerms (count : Nat) (unit : TimeUnit) (h : count < 10 ^ precision) :
    (countTerms count unit h).flatMap Term.text = countText count unit := by
  rw [countTerms, countText]
  split <;> simp [wholeTerm, Term.text]

theorem amount_countTerms (count : Nat) (unit : TimeUnit) (h : count < 10 ^ precision) :
    ((countTerms count unit h).map Term.amount).sum = count * unit.micros := by
  rw [countTerms]
  split
  · next hzero => simp [hzero]
  · simp [wholeTerm]

section

variable {k q : Nat}

theorem length_digits_zeros {digits : Nat} (h : 0 < digits) (zeros : Nat) :
    10 ^ ((Text.ofNat digits).length + zeros - 1) ≤ digits * 10 ^ zeros ∧
      digits * 10 ^ zeros < 10 ^ ((Text.ofNat digits).length + zeros) := by
  obtain ⟨hlow, hhigh⟩ := Text.length_ofNat_bounds h
  have hlen := Text.length_ofNat_pos digits
  rw [Nat.sub_add_comm hlen, Nat.pow_add, Nat.pow_add]
  exact ⟨Nat.mul_le_mul_right _ hlow, Nat.mul_lt_mul_of_pos_right hhigh (Nat.pow_pos (by omega))⟩

/-- A quotient of at least 0.0001 is written as a number that is worth as many microseconds as it
has of the unit's fractions. -/
theorem exists_quotientTerm (unit : TimeUnit) (hunit : unit.micros = 10 ^ q) (hq : q ≤ 6)
    (hk : 0 < k) (hsmall : k < 10 ^ 8) (hlow : 10 ^ q ≤ k * 10 ^ 4) :
    ∃ term : Term, term.text = quotientText k (10 ^ q) ++ unit.symbol ∧ term.amount = k := by
  have hpow : 0 < 10 ^ q := Nat.pow_pos (by omega)
  by_cases hwhole : k % 10 ^ q = 0
  · refine ⟨wholeTerm (k / 10 ^ q) unit ((Nat.div_le_self ..).trans_lt (hsmall.trans (by decide))),
      ?_, ?_⟩
    · simp [quotientText, hwhole, wholeTerm, Term.text]
    · show k / 10 ^ q * unit.micros = k
      rw [hunit, Nat.div_mul_cancel (Nat.dvd_of_mod_eq_zero hwhole)]
  · obtain ⟨digits, zeros, rfl, hdigits⟩ := Text.exists_digits_zeros hk
    obtain ⟨hklow, hkhigh⟩ := length_digits_zeros (show 0 < digits by omega) zeros
    have hplaces : zeros < q := by
      refine Nat.lt_of_not_le fun hle => hwhole (Nat.mod_eq_zero_of_dvd ?_)
      exact (Nat.pow_dvd_pow 10 hle).trans (Nat.dvd_mul_left ..)
    have hfirst : 10 ^ q < 10 ^ ((Text.ofNat digits).length + zeros + 4) :=
      calc 10 ^ q ≤ digits * 10 ^ zeros * 10 ^ 4 := hlow
        _ < 10 ^ ((Text.ofNat digits).length + zeros) * 10 ^ 4 :=
          Nat.mul_lt_mul_of_pos_right hkhigh (by decide)
        _ = 10 ^ ((Text.ofNat digits).length + zeros + 4) := (Nat.pow_add ..).symm
    rw [Nat.pow_lt_pow_iff_right (by decide)] at hfirst
    have hlong : 10 ^ ((Text.ofNat digits).length + zeros - 1) < 10 ^ 8 := hklow.trans_lt hsmall
    rw [Nat.pow_lt_pow_iff_right (by decide)] at hlong
    obtain ⟨whole, fraction, hlayout, hnil, hall, hvalue, hlength⟩ :=
      FloatStyle.layout_plain hplaces (show q ≤ (Text.ofNat digits).length + zeros + 3 by omega)
        (by omega)
    have hwriting := isWriting_point hnil hall
    rw [hvalue, hlength] at hwriting
    have hle : digits ≤ digits * 10 ^ zeros := Nat.le_mul_of_pos_right _ (Nat.pow_pos (by omega))
    have hworth : digits * unit.micros = digits * 10 ^ zeros * 10 ^ (q - zeros) := by
      rw [hunit, Nat.mul_assoc, ← Nat.pow_add, Nat.add_sub_cancel' hplaces.le]
    have hunitsmall : unit.micros ≤ 10 ^ 6 := hunit ▸ Nat.pow_le_pow_right (by omega) hq
    have hproduct : digits * unit.micros ≤ 10 ^ 19 :=
      (Nat.mul_le_mul (hle.trans hsmall.le) hunitsmall).trans (by decide)
    refine ⟨⟨whole ++ '.' :: fraction, ⟨digits, q - zeros⟩, unit, digits * 10 ^ zeros, hwriting,
      (hle.trans_lt hsmall).trans (by decide), ((Nat.sub_le ..).trans hq).trans (by decide), hworth,
      .inr hproduct⟩, ?_, rfl⟩
    rw [Term.text, quotientText, if_neg hwhole,
      Binary64.text_ofRatio .plain hdigits (hsmall.trans (by decide)) (by omega), hlayout]

/-- A quotient below 0.0001 is written with an exponent. -/
theorem quotientText_exponent (hk : 0 < k) (hlow : k * 10 ^ 4 < 10 ^ q) (hq : q ≤ 14) :
    ∃ writing number more, IsWriting writing number ∧
      quotientText k (10 ^ q) = writing ++ 'e' :: more := by
  have hless : k < 10 ^ q := by omega
  obtain ⟨digits, zeros, rfl, hdigits⟩ := Text.exists_digits_zeros hk
  obtain ⟨hklow, -⟩ := length_digits_zeros (show 0 < digits by omega) zeros
  have hlen := Text.length_ofNat_pos digits
  have hfirst : 10 ^ ((Text.ofNat digits).length + zeros - 1 + 4) < 10 ^ q :=
    calc 10 ^ ((Text.ofNat digits).length + zeros - 1 + 4)
        = 10 ^ ((Text.ofNat digits).length + zeros - 1) * 10 ^ 4 := Nat.pow_add ..
      _ ≤ digits * 10 ^ zeros * 10 ^ 4 := Nat.mul_le_mul_right _ hklow
      _ < 10 ^ q := hlow
  rw [Nat.pow_lt_pow_iff_right (by decide)] at hfirst
  obtain ⟨c, rest, more, hdigits', hlayout⟩ :=
    FloatStyle.layout_plain_exponent (show (Text.ofNat digits).length + zeros + 3 < q by omega)
  have htext : quotientText (digits * 10 ^ zeros) (10 ^ q) =
      c :: (if rest = [] then [] else '.' :: rest) ++ 'e' :: more := by
    rw [quotientText, if_neg (by rw [Nat.mod_eq_of_lt hless]; omega),
      Binary64.text_ofRatio .plain hdigits
      (hless.trans_le (Nat.pow_le_pow_right (by omega) hq)) (by omega), hlayout]
  have hall : ∀ d ∈ c :: rest, d.isDigit = true := fun d hd =>
    Text.isDigit_of_mem_ofNat (hdigits' ▸ hd)
  rw [htext]
  by_cases hrest : rest = []
  · rw [if_pos hrest]
    exact ⟨[c], _, more, isWriting_digits (by simp) (by simpa [hrest] using hall), rfl⟩
  · rw [if_neg hrest]
    exact ⟨[c] ++ '.' :: rest, _, more, isWriting_point (by simp) hall, rfl⟩

end

/-! ## Durations of one sign -/

/-- The duration has seconds that are not zero but below 0.0001, beside hours, minutes or whole
seconds. -/
def HasTinySeconds (micros : Nat) : Prop :=
  TimeUnit.second.micros ≤ micros ∧ 0 < micros % TimeUnit.minute.micros ∧
    micros % TimeUnit.minute.micros < 100

instance (micros : Nat) : Decidable (HasTinySeconds micros) :=
  inferInstanceAs (Decidable (_ ∧ _ ∧ _))

theorem mod_hour_mod_minute (micros : Nat) :
    micros % TimeUnit.hour.micros % TimeUnit.minute.micros = micros % TimeUnit.minute.micros :=
  Nat.mod_mod_of_dvd _ ⟨60, rfl⟩

/-- The hours and minutes of a duration as terms. -/
theorem exists_hourTerms {micros : Nat} (h : micros < 10 ^ precision) :
    ∃ terms : List Term, terms.flatMap Term.text =
        countText (micros / TimeUnit.hour.micros) .hour ++
          countText (micros % TimeUnit.hour.micros / TimeUnit.minute.micros) .minute ∧
      (terms.map Term.amount).sum + micros % TimeUnit.minute.micros = micros := by
  have hhours : micros / TimeUnit.hour.micros < 10 ^ precision := (Nat.div_le_self ..).trans_lt h
  have hminutes : micros % TimeUnit.hour.micros / TimeUnit.minute.micros < 10 ^ precision :=
    ((Nat.div_le_self ..).trans (Nat.mod_le ..)).trans_lt h
  refine ⟨countTerms _ .hour hhours ++ countTerms _ .minute hminutes, ?_, ?_⟩
  · rw [List.flatMap_append, text_countTerms, text_countTerms]
  · rw [List.map_append, List.sum_append, amount_countTerms, amount_countTerms]
    simp only [TimeUnit.micros]
    omega

/-- A positive number of microseconds is written as terms that are worth it, if its seconds are not
tiny. -/
theorem exists_terms {micros : Nat} (hpos : 0 < micros) (h : micros < 10 ^ precision)
    (htiny : ¬ HasTinySeconds micros) :
    ∃ terms : List Term, positiveText micros = terms.flatMap Term.text ∧
      (terms.map Term.amount).sum = micros := by
  rw [positiveText]
  split
  · exact ⟨[wholeTerm micros .microsecond h], by simp [wholeTerm, Term.text],
      by simp [wholeTerm, TimeUnit.micros]⟩
  · next hmilli =>
    split
    · next hsecond =>
      simp only [TimeUnit.micros] at hmilli hsecond
      obtain ⟨term, htext, hamount⟩ := exists_quotientTerm (q := 3) .millisecond rfl (by omega) hpos
        (by omega) (by omega)
      refine ⟨[term], ?_, by simpa using hamount⟩
      rw [List.flatMap_cons, List.flatMap_nil, List.append_nil, htext]
      rfl
    · next hsecond =>
      obtain ⟨terms, hterms, hsum⟩ := exists_hourTerms h
      simp only [mod_hour_mod_minute, ← hterms]
      split
      · next hzero => exact ⟨terms, by rw [List.append_nil], by omega⟩
      · next hseconds =>
        have hlow : 100 ≤ micros % TimeUnit.minute.micros := by
          refine Nat.le_of_not_lt fun hless => htiny ⟨Nat.le_of_not_lt hsecond, by omega, hless⟩
        have hhigh : micros % TimeUnit.minute.micros < TimeUnit.minute.micros :=
          Nat.mod_lt _ (by decide)
        generalize micros % TimeUnit.minute.micros = seconds at *
        simp only [TimeUnit.micros] at hhigh
        obtain ⟨term, htext, hamount⟩ := exists_quotientTerm (q := 6) .second rfl (by omega)
          (show 0 < seconds by omega) (by omega) (by omega)
        refine ⟨terms ++ [term], ?_, by simpa [hamount] using hsum⟩
        simp only [List.flatMap_append, List.flatMap_cons, List.flatMap_nil, List.append_nil, htext]
        rfl

/-- Tiny seconds are written with an exponent after the hours and minutes. -/
theorem positiveText_tiny {micros : Nat} (h : micros < 10 ^ precision)
    (htiny : HasTinySeconds micros) :
    ∃ (terms : List Term) (writing : Text) (number : DecimalNumber) (more : Text),
      IsWriting writing number ∧
      positiveText micros = terms.flatMap Term.text ++ (writing ++ 'e' :: more) ∧
      (terms.map Term.amount).sum ≤ micros := by
  obtain ⟨hsecond, hseconds, hless⟩ := htiny
  obtain ⟨terms, hterms, hsum⟩ := exists_hourTerms h
  obtain ⟨writing, number, more, hwriting, htext⟩ :=
    quotientText_exponent (q := 6) hseconds (by omega) (by omega)
  refine ⟨terms, writing, number, more ++ TimeUnit.second.symbol, hwriting, ?_, by omega⟩
  have hmilli : ¬ micros < TimeUnit.millisecond.micros := fun hm => by
    simp only [TimeUnit.micros] at hm hsecond
    omega
  rw [positiveText, if_neg hmilli, if_neg (by omega)]
  simp only [mod_hour_mod_minute, ← hterms]
  rw [if_neg (by omega), show TimeUnit.second.micros = 10 ^ 6 from rfl, htext]
  simp

variable {sign : Int}

/-- What is written for a number of microseconds reads as it. -/
theorem readUnsigned_positiveText (hsign : sign = 1 ∨ sign = -1) {micros : Nat} (hpos : 0 < micros)
    (h : InRange (sign * micros)) (htiny : ¬ HasTinySeconds micros) :
    ∃ d, readUnsigned sign (positiveText micros) = .ok d ∧ d.micros = sign * micros := by
  obtain ⟨terms, htext, hsum⟩ := exists_terms hpos (lt_precision_of_inRange hsign h) htiny
  have hlong : 2 ≤ (terms.flatMap Term.text ++ []).length := by
    have hterms := length_terms_le terms
    cases terms with
    | nil =>
      rw [List.map_nil, List.sum_nil] at hsum
      omega
    | cons term terms =>
      rw [List.length_cons] at hterms
      rw [List.append_nil]
      omega
  obtain ⟨budget, -, hread⟩ := readUnsigned_append sign terms (by simp) hlong
  obtain ⟨d, hd, hmicros⟩ :=
    addTerms_eq hsign terms (show zero.micros = sign * (0 : Nat) by simp [zero])
    (by rwa [hsum, Nat.zero_add])
  rw [hsum, Nat.zero_add] at hmicros
  refine ⟨d, ?_, hmicros⟩
  rw [htext, ← List.append_nil (terms.flatMap _), hread, hd]
  show readTerms sign budget d [] = .ok d
  cases budget <;> rfl

/-- An exponent is no unit. -/
theorem termAt_exponent {writing more : Text} {number : DecimalNumber}
    (h : IsWriting writing number) : termAt (writing ++ 'e' :: more) = .error .expectedUnit := by
  have hmark : ∀ c ∈ ('e' :: more).head?, isNumberChar c = false := by
    simp
    decide +kernel
  rw [termAt, numberAt_writing h hmark]
  simp [unitAt?, TimeUnit.all, TimeUnit.symbol, Text.after?]

/-- Tiny seconds do not read. -/
theorem readUnsigned_tiny (hsign : sign = 1 ∨ sign = -1) {micros : Nat}
    (h : InRange (sign * micros)) (htiny : HasTinySeconds micros) :
    readUnsigned sign (positiveText micros) = .error .expectedUnit := by
  obtain ⟨terms, writing, number, more, hwriting, htext, hsum⟩ :=
    positiveText_tiny (lt_precision_of_inRange hsign h) htiny
  obtain ⟨c, rest, rfl, hc⟩ := hwriting.head
  have hhead : (c :: rest ++ 'e' :: more).head? ≠ some 's' := by
    rintro hs
    obtain rfl : c = 's' := by simpa using hs
    simp at hc
  obtain ⟨budget, hbudget, hread⟩ := readUnsigned_append sign terms hhead (by simp; omega)
  obtain ⟨d, hd, -⟩ := addTerms_eq hsign terms (show zero.micros = sign * (0 : Nat) by simp [zero])
    (inRange_of_le hsign h (by omega))
  obtain ⟨budget, rfl⟩ := Nat.exists_eq_add_of_le' (show 1 ≤ budget by simp at hbudget; omega)
  rw [htext, hread, hd]
  show readTerms sign (budget + 1) d (c :: rest ++ 'e' :: more) = .error .expectedUnit
  rw [List.cons_append, readTerms, ← List.cons_append, termAt_exponent hwriting]
  · rfl
  · simp

theorem readUnsigned_eq (hsign : sign = 1 ∨ sign = -1) {d : Duration} {micros : Nat}
    (hpos : 0 < micros) (hd : d.micros = sign * micros) :
    readUnsigned sign (positiveText micros) =
      if HasTinySeconds micros then .error .expectedUnit else .ok d := by
  have hrange : InRange (sign * micros) := hd ▸ d.inRange
  split
  · next htiny => exact readUnsigned_tiny hsign hrange htiny
  · next htiny =>
    obtain ⟨e, he, hmicros⟩ := readUnsigned_positiveText hsign hpos hrange htiny
    rw [he, eq_of_micros (hmicros.trans hd.symm)]

theorem head_terms {terms : List Term} {rest : Text}
    (h : terms = [] → ∃ c more, rest = c :: more ∧ c.isDigit = true) :
    ∃ c more, terms.flatMap Term.text ++ rest = c :: more ∧ c.isDigit = true := by
  cases terms with
  | nil => exact h rfl
  | cons term terms =>
    obtain ⟨c, c', more, htext, hc⟩ := term.text_eq_cons
    exact ⟨c, c' :: more ++ terms.flatMap Term.text ++ rest, by simp [htext], hc⟩

theorem head_positiveText {micros : Nat} (hpos : 0 < micros) (h : micros < 10 ^ precision) :
    ∃ c more, positiveText micros = c :: more ∧ c.isDigit = true := by
  by_cases htiny : HasTinySeconds micros
  · obtain ⟨terms, writing, number, more, hwriting, htext, -⟩ := positiveText_tiny h htiny
    obtain ⟨c, rest, rfl, hc⟩ := hwriting.head
    rw [htext]
    exact head_terms fun _ => ⟨c, _, rfl, hc⟩
  · obtain ⟨terms, htext, hsum⟩ := exists_terms hpos h htiny
    rw [htext, ← List.append_nil (terms.flatMap _)]
    refine head_terms fun hnil => ?_
    rw [hnil, List.map_nil, List.sum_nil] at hsum
    omega

theorem parse_of_isDigit {c : Char} {rest : Text} (h : c.isDigit = true) :
    parse (c :: rest) = readUnsigned 1 (c :: rest) := by
  rw [parse]
  · rintro t heq
    rw [(List.cons.inj heq).1] at h
    simp at h
  · rintro t heq
    rw [(List.cons.inj heq).1] at h
    simp at h

/-- A written duration reads back as the duration, unless its seconds are tiny : then it does not
read. -/
theorem parse_text (d : Duration) :
    parse d.text = if HasTinySeconds d.micros.natAbs then .error .expectedUnit else .ok d := by
  rw [text]
  split
  · next hzero =>
    obtain rfl : d = zero := eq_of_micros hzero
    rfl
  · next hnonzero =>
    have hpos : 0 < d.micros.natAbs := by omega
    split
    · next hneg => exact readUnsigned_eq (.inr rfl) hpos (by omega)
    · next hnonneg =>
      have hmicros : d.micros = 1 * (d.micros.natAbs : Int) := by omega
      have hrange : InRange (1 * (d.micros.natAbs : Int)) := hmicros ▸ d.inRange
      obtain ⟨c, more, htext, hc⟩ :=
        head_positiveText hpos (lt_precision_of_inRange (.inl rfl) hrange)
      rw [htext, parse_of_isDigit hc, ← htext]
      exact readUnsigned_eq (.inl rfl) hpos hmicros

/-- An hour and 50 microseconds have tiny seconds. -/
example : (⟨3600000050, by decide⟩ : Duration).text = "1h5e-05s".toList := by decide +kernel

end Duration

end Typist
