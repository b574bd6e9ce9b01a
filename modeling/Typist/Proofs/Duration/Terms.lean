import Typist.Proofs.Duration.Grammar

/-!
# Terms that are worth whole microseconds

A text of ASCII digits with at most one point among them is the writing of a decimal number
(`IsWriting`), and a term that starts with it is read as the number and its unit (`termAt_text`).
`readTerms_append` : terms that are written one after the other are added one after the other,
whatever comes after them. Those that are worth a whole number of microseconds are added up exactly
(`addTerms_eq`).
-/

namespace Typist

namespace Duration

/-! ## Numbers -/

/-- The text is a writing of the number. -/
structure IsWriting (t : Text) (number : DecimalNumber) : Prop where
  /-- It starts with a digit. -/
  head : ∃ c rest, t = c :: rest ∧ c.isDigit = true
  /-- It has digits and points only. -/
  chars : ∀ c ∈ t, isNumberChar c = true
  value : DecimalNumber.ofText? t = some number

/-- What is a writing of a number is a numeral of it. -/
theorem IsWriting.exists_numeral {t : Text} {number : DecimalNumber} (h : IsWriting t number) :
    ∃ numeral : DecimalNumeral, t = numeral.text ∧ number = numeral.number := by
  obtain ⟨c, rest, rfl, hc⟩ := h.head
  refine (DecimalNumber.ofText?_eq_some_iff ?_).mp h.value
  rintro hs
  obtain rfl : c = '.' := Option.some.inj hs
  simp at hc

/-- A numeral of ASCII digits is a writing of its number. -/
theorem isWriting_text (numeral : DecimalNumeral) (h : ∀ c ∈ numeral.whole, c.isDigit = true) :
    IsWriting numeral.text numeral.number := by
  refine ⟨?_, isNumberChar_text numeral, DecimalNumber.ofText?_text numeral⟩
  obtain ⟨c, rest, hwhole⟩ := List.exists_cons_of_ne_nil numeral.nonempty
  exact ⟨c, _, by rw [DecimalNumeral.text, hwhole, List.cons_append], h c (by simp [hwhole])⟩

/-- Digits without a point write a whole number. -/
theorem isWriting_digits {t : Text} (hnil : t ≠ []) (h : ∀ c ∈ t, c.isDigit = true) :
    IsWriting t ⟨t.value, 0⟩ := by
  obtain ⟨hdecimal, hvalue⟩ :=
    DecimalNumber.valueOf?_eq_some_iff.mp (DecimalNumber.valueOf?_of_isDigit h)
  have hwriting := isWriting_text ⟨t, none, hnil, by simpa using hdecimal⟩ h
  simpa [DecimalNumeral.text, DecimalNumeral.number, DecimalNumeral.fractionDigits,
    hvalue] using hwriting

/-- Digits with a point write a number with as many places as come after the point. -/
theorem isWriting_point {whole fraction : Text} (hnil : whole ≠ [])
    (h : ∀ c ∈ whole ++ fraction, c.isDigit = true) :
    IsWriting (whole ++ '.' :: fraction) ⟨Text.value (whole ++ fraction), fraction.length⟩ := by
  obtain ⟨hdecimal, hvalue⟩ :=
    DecimalNumber.valueOf?_eq_some_iff.mp (DecimalNumber.valueOf?_of_isDigit h)
  have hwriting :=
    isWriting_text ⟨whole, some fraction, hnil, hdecimal⟩ (List.forall_mem_append.mp h).1
  simpa [DecimalNumeral.text, DecimalNumeral.number, DecimalNumeral.fractionDigits,
    hvalue] using hwriting

theorem numberAt_writing {t rest : Text} {number : DecimalNumber} (h : IsWriting t number)
    (hrest : ∀ c ∈ rest.head?, isNumberChar c = false) :
    numberAt (t ++ rest) = .ok (number, rest) := by
  obtain ⟨numeral, rfl, rfl⟩ := h.exists_numeral
  exact numberAt_text numeral hrest

/-! ## Terms -/

/-- A term as it is written, that is worth a whole number of microseconds. -/
structure Term where
  writing : Text
  number : DecimalNumber
  unit : TimeUnit
  /-- What the term is worth, in microseconds. -/
  amount : Nat
  isWriting : IsWriting writing number
  withinPrecision : number.digits < 10 ^ precision
  withinPlaces : number.places ≤ lastPlace
  worth : number.digits * unit.micros = amount * 10 ^ number.places
  /-- The product of a fraction with the unit stays far within the range. -/
  small : number.places = 0 ∨ number.digits * unit.micros ≤ 10 ^ 19

/-- The text of a term. -/
def Term.text (term : Term) : Text :=
  term.writing ++ term.unit.symbol

/-- A term is written as one with the numeral of its number. -/
theorem Term.exists_written (term : Term) :
    ∃ written : WrittenTerm, term.text = written.text ∧ (term.number, term.unit) =
      (written.numeral.number, written.unit) := by
  obtain ⟨numeral, hwriting, hnumber⟩ := term.isWriting.exists_numeral
  exact ⟨⟨numeral, term.unit⟩, by rw [text, WrittenTerm.text, hwriting], by rw [hnumber]⟩

/-- A term is read as its number and its unit. -/
theorem termAt_text (term : Term) {rest : Text} (hrest : rest.head? ≠ some 's') :
    termAt (term.text ++ rest) = .ok ((term.number, term.unit), rest) := by
  obtain ⟨written, htext, hitem⟩ := term.exists_written
  exact termAt_eq_ok_iff.mpr ⟨written, by rw [htext], fun _ => hrest, hitem⟩

/-- A term starts with a digit and has a unit after it. -/
theorem Term.text_eq_cons (term : Term) :
    ∃ c c' rest, term.text = c :: c' :: rest ∧ c.isDigit = true := by
  obtain ⟨c, more, hwriting, hc⟩ := term.isWriting.head
  obtain ⟨u, units, hunit⟩ : ∃ u units, term.unit.symbol = u :: units := by
    cases term.unit <;> exact ⟨_, _, rfl⟩
  rw [text, hwriting, hunit]
  cases more with
  | nil => exact ⟨c, u, units, rfl, hc⟩
  | cons c' more => exact ⟨c, c', _, rfl, hc⟩

/-- Adds terms to the sum so far. -/
def addTerms (sum : Duration) (sign : Int) (terms : List Term) : Except ReadError Duration :=
  terms.foldlM (fun sum term => addTerm sum sign term.number term.unit) sum

/-- No term starts with an `s`. -/
theorem Term.head_ne_s (term : Term) (rest : Text) : (term.text ++ rest).head? ≠ some 's' := by
  obtain ⟨written, htext, -⟩ := term.exists_written
  rw [htext]
  exact head_row_ne_s written rest

/-- Terms that are written one after the other are added one after the other. -/
theorem readTerms_append (sign : Int) (terms : List Term) (budget : Nat) (sum : Duration)
    {rest : Text} (hrest : rest.head? ≠ some 's') :
    readTerms sign (terms.length + budget) sum (terms.flatMap Term.text ++ rest) =
      addTerms sum sign terms >>= fun sum => readTerms sign budget sum rest :=
  readTerms_flatMap sign (fun term _ => termAt_text term) Term.head_ne_s terms budget sum hrest

theorem length_terms_le (terms : List Term) :
    2 * terms.length ≤ (terms.flatMap Term.text).length := by
  refine length_flatMap_ge (fun term => ?_) terms
  obtain ⟨written, htext, -⟩ := term.exists_written
  exact htext ▸ written.length_text

/-- A duration that starts with terms is read by adding them, and then what comes after them. -/
theorem readUnsigned_append (sign : Int) (terms : List Term) {rest : Text}
    (hrest : rest.head? ≠ some 's') (hlong : 2 ≤ (terms.flatMap Term.text ++ rest).length) :
    ∃ budget, rest.length ≤ budget ∧ readUnsigned sign (terms.flatMap Term.text ++ rest) =
      addTerms zero sign terms >>= fun sum => readTerms sign budget sum rest := by
  have hlength := length_terms_le terms
  obtain ⟨budget, hbudget⟩ := Nat.exists_eq_add_of_le
    (show terms.length ≤ (terms.flatMap Term.text ++ rest).length by
      rw [List.length_append]
      omega)
  refine ⟨budget, ?_, ?_⟩
  · rw [List.length_append] at hbudget
    omega
  · rw [readUnsigned, if_neg (fun h => by simp [h] at hlong),
      if_neg (fun h => by simp [h] at hlong), hbudget,
      readTerms_append sign terms budget zero hrest]

/-! ## Sums -/

variable {sign : Int}

/-- A term is added exactly if it is worth a whole number of microseconds. -/
theorem exists_addTerm (hsign : sign = 1 ∨ sign = -1) {sum : Duration} {a : Nat}
    (hsum : sum.micros = sign * a) {number : DecimalNumber} {unit : TimeUnit} {amount : Nat}
    (hdigits : number.digits < 10 ^ precision) (hplaces : number.places ≤ lastPlace)
    (hamount : number.digits * unit.micros = amount * 10 ^ number.places)
    (hsmall : number.places = 0 ∨ number.digits * unit.micros ≤ 10 ^ 19)
    (h : InRange (sign * (a + amount : ℕ))) :
    ∃ d, addTerm sum sign number unit = .ok d ∧ d.micros = sign * (a + amount : ℕ) := by
  have hden : 0 < 10 ^ number.places := Nat.pow_pos (by omega)
  have hwhole : ¬ 10 ^ precision ≤ number.digits / 10 ^ number.places :=
    Nat.not_le.mpr ((Nat.div_le_self ..).trans_lt hdigits)
  have hsplit := Nat.div_add_mod number.digits (10 ^ number.places)
  rw [addTerm_eq hsign hsum, if_neg hwhole, DecimalNumber.amount,
    DecimalNumber.fraction_eq hdigits hplaces]
  generalize number.digits / 10 ^ number.places = whole at hsplit
  generalize hrest : number.digits % 10 ^ number.places = rest at hsplit
  -- What the whole part leaves of the amount is the share of the fraction.
  have hwholele : whole * unit.micros ≤ amount := by
    refine Nat.le_of_mul_le_mul_right ?_ hden
    rw [← hamount, ← hsplit, Nat.mul_right_comm, Nat.mul_comm whole]
    exact Nat.mul_le_mul_right _ (Nat.le_add_right ..)
  obtain ⟨share, rfl⟩ := Nat.exists_eq_add_of_le hwholele
  have hshare : rest * unit.micros = share * 10 ^ number.places := by
    have hcross :
        10 ^ number.places * whole * unit.micros = whole * unit.micros * 10 ^ number.places := by
      rw [Nat.mul_comm _ whole, Nat.mul_right_comm]
    rw [← hsplit, Nat.add_mul, Nat.add_mul, hcross] at hamount
    exact Nat.add_left_cancel hamount
  have hrestsmall : rest * unit.micros ≤ 10 ^ 19 := by
    rcases hsmall with hplaces | hsmall
    · have hzero : rest = 0 := by rw [← hrest, hplaces, Nat.pow_zero, Nat.mod_one]
      rw [hzero, Nat.zero_mul]
      exact Nat.zero_le _
    · exact (Nat.mul_le_mul_right _ (hrest ▸ Nat.mod_le ..)).trans hsmall
  have hproduct : (⟨rest, number.places⟩ : DecimalNumber).lowestTerms.1 * unit.micros ≤ 10 ^ 19 :=
    (Nat.mul_le_mul_right _ (Nat.div_le_self ..)).trans hrestsmall
  rw [if_pos (inRange_of_small hsign hproduct), DecimalNumber.share, hshare,
    divNearest_mul share hden]
  exact inRangeOr_ofMicros? h

/-- Terms are added up exactly. -/
theorem addTerms_eq (hsign : sign = 1 ∨ sign = -1) (terms : List Term) {sum : Duration} {a : Nat}
    (hsum : sum.micros = sign * a) (h : InRange (sign * (a + (terms.map Term.amount).sum : ℕ))) :
    ∃ d, addTerms sum sign terms = .ok d ∧
      d.micros = sign * (a + (terms.map Term.amount).sum : ℕ) := by
  induction terms generalizing sum a with
  | nil => exact ⟨sum, rfl, by simpa using hsum⟩
  | cons term terms ih =>
    rw [List.map_cons, List.sum_cons, ← Nat.add_assoc] at h ⊢
    obtain ⟨d, hd, hmicros⟩ :=
      exists_addTerm hsign hsum term.withinPrecision term.withinPlaces term.worth term.small
      (inRange_of_le hsign h (Nat.le_add_right ..))
    obtain ⟨e, he, hmicros'⟩ := ih hmicros h
    refine ⟨e, ?_, hmicros'⟩
    rw [addTerms, List.foldlM_cons, hd]
    exact he

end Duration

end Typist
