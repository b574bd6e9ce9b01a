import Typist.Proofs.Duration.Grammar

/-!
# What durations are worth

A text that reads is `0` or a row of terms, after a sign, and it is a row of terms in one way only
(`IsWritten.unique`). `parse_isValueOf` : if the fractions of the terms are within the precision,
the duration is the sum of what the terms are worth, each rounded to a microsecond on its own.
-/

namespace Typist

namespace Duration

open WrittenTerm

variable {t start body rest : Text} {sign : Int}

/-! ## Signs -/

/-- What a duration can start with, and the sign that it has then. -/
inductive IsSign : Text → Int → Prop
  | none : IsSign [] 1
  | plus : IsSign ['+'] 1
  | minus : IsSign ['-'] (-1)

theorem IsSign.sign_eq (h : IsSign start sign) : sign = 1 ∨ sign = -1 := by
  cases h with
  | none | plus => exact .inl rfl
  | minus => exact .inr rfl

/-- What does not start with a sign comes after one sign only. -/
theorem IsSign.append_inj {start' body' : Text} {sign' : Int} (h : IsSign start sign)
    (h' : IsSign start' sign') (hbody : body.head? ≠ some '+' ∧ body.head? ≠ some '-')
    (hbody' : body'.head? ≠ some '+' ∧ body'.head? ≠ some '-')
    (heq : start ++ body = start' ++ body') : sign = sign' ∧ body = body' := by
  cases h <;> cases h'
  case none.none | plus.plus | minus.minus => exact ⟨rfl, List.append_cancel_left heq⟩
  case none.plus | none.minus =>
    rw [List.nil_append] at heq
    subst heq
    simp at hbody
  case plus.none | minus.none =>
    rw [List.nil_append] at heq
    subst heq
    simp at hbody'
  case plus.minus | minus.plus => simp at heq

/-- After its sign a duration is read without one. -/
theorem parse_signed (h : IsSign start sign) (hplus : body.head? ≠ some '+')
    (hminus : body.head? ≠ some '-') : parse (start ++ body) = readUnsigned sign body := by
  cases h with
  | plus | minus => rfl
  | none =>
    rw [List.nil_append, parse]
    · rintro t rfl
      exact hminus rfl
    · rintro t rfl
      exact hplus rfl

/-- Every text is read as one that comes after a sign. -/
theorem exists_sign (t : Text) :
    ∃ start sign body, IsSign start sign ∧ t = start ++ body ∧
      parse t = readUnsigned sign body := by
  unfold parse
  split
  · exact ⟨['-'], -1, _, .minus, rfl, rfl⟩
  · exact ⟨['+'], 1, _, .plus, rfl, rfl⟩
  · exact ⟨[], 1, t, .none, rfl, rfl⟩

/-- What starts with a term is read term by term. -/
theorem parse_of_term (h : IsSign start sign) (term : WrittenTerm) (rest : Text) :
    parse (start ++ (term.text ++ rest)) =
      readTerms sign (term.text ++ rest).length zero (term.text ++ rest) := by
  have hlength := term.length_text
  have hlong : 2 ≤ (term.text ++ rest).length := by
    rw [List.length_append]
    omega
  rw [parse_signed h (term.head_ne rest (by decide +kernel))
    (term.head_ne rest (by decide +kernel)), readUnsigned,
    if_neg (fun hnil => by simp [hnil] at hlong), if_neg (fun hzero => by simp [hzero] at hlong)]

/-! ## Rows of terms -/

/-- The text is a row of terms after a sign. -/
def IsWritten (t : Text) (sign : Int) (terms : List WrittenTerm) : Prop :=
  terms ≠ [] ∧ ∃ start, IsSign start sign ∧ t = start ++ terms.flatMap WrittenTerm.text

/-- A row of terms starts with no sign. -/
theorem head_row_ne_sign {terms : List WrittenTerm} (h : terms ≠ []) :
    (terms.flatMap WrittenTerm.text).head? ≠ some '+' ∧
      (terms.flatMap WrittenTerm.text).head? ≠ some '-' := by
  obtain ⟨term, terms, rfl⟩ := List.exists_cons_of_ne_nil h
  rw [List.flatMap_cons]
  exact ⟨term.head_ne _ (by decide +kernel), term.head_ne _ (by decide +kernel)⟩

/-- A text is a row of terms in one way at most. -/
theorem IsWritten.unique {sign' : Int} {terms terms' : List WrittenTerm}
    (h : IsWritten t sign terms) (h' : IsWritten t sign' terms') :
    sign = sign' ∧ terms = terms' := by
  obtain ⟨hnil, start, hsign, rfl⟩ := h
  obtain ⟨hnil', start', hsign', heq⟩ := h'
  obtain ⟨rfl, hrow⟩ := hsign.append_inj hsign' (head_row_ne_sign hnil) (head_row_ne_sign hnil') heq
  exact ⟨rfl, row_injective hrow⟩

theorem zero_micros (sign : Int) : zero.micros = sign * (0 : ℕ) := by
  simp [zero]

/-- What comes of a row of terms that can be added, and of what follows it. -/
theorem parse_of_ends (h : IsSign start sign) {terms : List WrittenTerm}
    (hadds : AddsUp sign 0 terms) {result : Except ReadError Duration}
    (hends : Ends sign (total terms) rest result)
    (hterm : ∃ term more, terms.flatMap WrittenTerm.text ++ rest = WrittenTerm.text term ++ more)
    (hrest : rest.head? ≠ some 's') :
    parse (start ++ (terms.flatMap WrittenTerm.text ++ rest)) = result := by
  obtain ⟨term, more, hbody⟩ := hterm
  have hparse : parse (start ++ (terms.flatMap WrittenTerm.text ++ rest)) =
      readTerms sign (terms.flatMap WrittenTerm.text ++ rest).length zero
        (terms.flatMap WrittenTerm.text ++ rest) := by
    rw [hbody, parse_of_term h]
  obtain ⟨budget, d, hbudget, hmicros, hrow⟩ :=
    readTerms_row h.sign_eq (zero_micros sign) hadds hrest (Nat.le_refl _)
  rw [Nat.zero_add] at hmicros
  rw [hparse, hrow, readTerms_of_ends h.sign_eq hmicros hends hbudget]

theorem exists_term_of_row {terms : List WrittenTerm} (h : terms ≠ []) (rest : Text) :
    ∃ term more, terms.flatMap WrittenTerm.text ++ rest = WrittenTerm.text term ++ more := by
  obtain ⟨term, terms, rfl⟩ := List.exists_cons_of_ne_nil h
  exact ⟨term, terms.flatMap WrittenTerm.text ++ rest, by rw [List.flatMap_cons, List.append_assoc]⟩

/-- A row that can be added reads as its total. -/
theorem parse_of_addsUp {terms : List WrittenTerm} (h : IsWritten t sign terms)
    (hadds : AddsUp sign 0 terms) : ∃ d, parse t = .ok d ∧ d.micros = sign * total terms := by
  obtain ⟨hnil, start, hsign, rfl⟩ := h
  have hrange := hadds.inRange
  rw [Nat.zero_add] at hrange
  refine ⟨⟨_, hrange⟩, ?_, rfl⟩
  have hparse :=
    parse_of_ends hsign hadds (.done rfl : Ends sign (total terms) [] (.ok ⟨_, hrange⟩))
    (exists_term_of_row hnil []) (by simp)
  rwa [List.append_nil] at hparse

/-- A term that is refused ends the reading, after the terms before it. -/
theorem parse_of_refuses (h : IsSign start sign) {before : List WrittenTerm}
    (hadds : AddsUp sign 0 before) {term : WrittenTerm} (hends : term.EndsBefore rest)
    {e : ReadError} (hrefuses : term.Refuses sign (total before) e) :
    parse (start ++ (before.flatMap WrittenTerm.text ++ (term.text ++ rest))) = .error e := by
  refine parse_of_ends h hadds (.refused hends hrefuses) ?_ (head_row_ne_s term rest)
  by_cases hnil : before = []
  · exact ⟨term, rest, by rw [hnil, List.flatMap_nil, List.nil_append]⟩
  · exact exists_term_of_row hnil _

/-- A row of terms is added up, or one of its terms is refused. -/
theorem parse_row_cases {terms : List WrittenTerm} (h : IsWritten t sign terms) :
    (AddsUp sign 0 terms ∧ ∃ d, parse t = .ok d ∧ d.micros = sign * total terms) ∨
      ∃ before term after e, terms = before ++ term :: after ∧ AddsUp sign 0 before ∧
        term.Refuses sign (total before) e ∧ parse t = .error e := by
  obtain ⟨hnil, start, hsign, rfl⟩ := h
  have hzero : InRange (sign * (0 : ℕ)) := zero_micros sign ▸ zero.inRange
  rcases addsUp_or_refuses hsign.sign_eq terms hzero with
    hadds | ⟨before, term, after, e, rfl, hadds, hrefuses⟩
  · exact .inl ⟨hadds, parse_of_addsUp ⟨hnil, start, hsign, rfl⟩ hadds⟩
  · rw [Nat.zero_add] at hrefuses
    refine .inr ⟨before, term, after, e, rfl, hadds, hrefuses, ?_⟩
    rw [List.flatMap_append, List.flatMap_cons]
    exact parse_of_refuses hsign hadds (endsBefore_row term after) hrefuses

/-- Whatever reads is `0` or a row of terms. -/
theorem isWritten_of_parse {d : Duration} (h : parse t = .ok d) :
    (∃ start sign, IsSign start sign ∧ t = start ++ ['0'] ∧ d = zero) ∨
      ∃ sign terms, IsWritten t sign terms := by
  obtain ⟨start, sign, body, hsign, rfl, hparse⟩ := exists_sign t
  rw [hparse, readUnsigned] at h
  split at h
  · cases h
  · next hnil =>
    split at h
    · next hzero => exact .inl ⟨start, sign, hsign, by rw [hzero], (Except.ok.inj h).symm⟩
    · obtain ⟨terms, rest, rfl, -, hends⟩ :=
        readTerms_ends hsign.sign_eq (zero_micros sign) (Nat.le_refl body.length)
      rw [h] at hends
      cases hends
      rw [List.append_nil] at hnil ⊢
      refine .inr ⟨sign, terms, ?_, start, hsign, rfl⟩
      rintro rfl
      exact hnil rfl

/-! ## Worths -/

namespace WrittenTerm

/-- What a term is worth, in microseconds : its whole part times the unit, and its fraction times
the unit, which is rounded to a microsecond. -/
def worth (term : WrittenTerm) : ℤ :=
  term.numeral.wholeValue * term.unit.micros +
    nearestEven (term.numeral.fractionValue * term.unit.micros)

/-- What a term is worth if its fraction is kept to the precision. -/
def keptWorth (term : WrittenTerm) : ℤ :=
  term.numeral.wholeValue * term.unit.micros +
    nearestEven (term.numeral.keptFraction * term.unit.micros)

variable (term : WrittenTerm)

theorem amount_eq_keptWorth : (term.amount : ℤ) = term.keptWorth := by
  have hshare := nearestEven_div_mul term.numeral.number.fraction.digits term.unit.micros
    (Nat.pow_pos (by omega) : 0 < 10 ^ term.numeral.number.fraction.places)
  push_cast at hshare
  rw [amount, DecimalNumber.amount, DecimalNumeral.number_div, DecimalNumber.share, keptWorth,
    DecimalNumeral.keptFraction, DecimalNumber.toRat, hshare]
  rfl

theorem product_eq : (term.product : ℤ) = term.numeral.keptFraction.num * term.unit.micros := by
  rw [DecimalNumeral.keptFraction, DecimalNumber.num_toRat, product, Int.natCast_mul]

variable {term}

theorem keptWorth_eq_worth (h : term.numeral.IsPrecise) : term.keptWorth = term.worth := by
  have hunit : term.unit.micros ≤ 10 ^ 10 := by
    cases term.unit <;> decide
  rw [keptWorth, DecimalNumeral.nearestEven_keptFraction h hunit, worth]

/-- The total is the sum of the worths. -/
theorem total_eq_sum (terms : List WrittenTerm) :
    (total terms : ℤ) = (terms.map keptWorth).sum := by
  induction terms with
  | nil => rfl
  | cons term terms ih =>
    rw [total_cons, Int.natCast_add, ih, amount_eq_keptWorth, List.map_cons, List.sum_cons]

end WrittenTerm

/-! ## The main result -/

/-- The text is well formed, and the duration is what it is worth. -/
structure IsValueOf (t : Text) (d : Duration) : Prop where
  /-- It is `0` or a row of terms, after a sign. -/
  wellFormed : (∃ start sign, IsSign start sign ∧ t = start ++ ['0'] ∧ d = zero) ∨
    ∃ sign terms, IsWritten t sign terms
  /-- It is so in one way only : before an `s` no `m` is taken for minutes. -/
  unique : ∀ sign terms sign' terms', IsWritten t sign terms → IsWritten t sign' terms' →
    sign = sign' ∧ terms = terms'
  /-- If the fractions of the terms are within the precision, the duration is the sum of the
  worths. -/
  value : ∀ sign terms, IsWritten t sign terms → (∀ term ∈ terms, term.numeral.IsPrecise) →
    d.micros = sign * (terms.map WrittenTerm.worth).sum

/-- Whatever reads is well formed, and reads as its value. -/
theorem parse_isValueOf {t : Text} {d : Duration} (h : parse t = .ok d) : IsValueOf t d where
  wellFormed := isWritten_of_parse h
  unique _ _ _ _ hwritten hwritten' := hwritten.unique hwritten'
  value sign terms hwritten hprecise := by
    rcases parse_row_cases hwritten with ⟨-, d', hd', hmicros⟩ | ⟨_, _, _, e, -, -, -, herror⟩
    · obtain rfl : d = d' := Except.ok.inj (h.symm.trans hd')
      rw [hmicros, total_eq_sum,
        List.map_congr_left fun term hterm => keptWorth_eq_worth (hprecise term hterm)]
    · cases h.symm.trans herror

/-- One and a half milliseconds in Arabic digits and three and a half microseconds, which is a
tie. -/
def mixedDigits : Text :=
  "-١.٥ms3.5us".toList

theorem parse_isValueOf_mixedDigits :
    parse mixedDigits = .ok ⟨-1503, by decide⟩ ∧ IsValueOf mixedDigits ⟨-1503, by decide⟩ := by
  have h : parse mixedDigits = .ok ⟨-1503, by decide⟩ := by decide +kernel
  exact ⟨h, parse_isValueOf h⟩

end Duration

end Typist
