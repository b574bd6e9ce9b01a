import Mathlib.Algebra.Order.BigOperators.Group.List
import Typist.Proofs.Duration.Value

/-!
# Why durations are refused

`parse_failsForAReason` says of every text when it reads and which error it gives otherwise. A row
of terms reads if what they come to is in range (`Summable.sum`), and if also the product of each
fraction's numerator with the unit is : the product is formed before it is divided. It is out of
range for a fraction of many digits, however little that is worth. A whole part beyond the
precision, which is out of range as well, has an error of its own.
-/

namespace Typist

namespace Duration

open WrittenTerm

variable {t start rest : Text} {sign : Int} {before : List WrittenTerm} {term : WrittenTerm}
  {e : ReadError}

/-! ## Terms that can be added -/

/-- The terms can be added up. -/
structure Summable (sign : Int) (terms : List WrittenTerm) : Prop where
  /-- What the terms come to is in range. -/
  sum : InRange (sign * (terms.map keptWorth).sum)
  /-- So is the product of each fraction's numerator with the unit. -/
  products : ∀ term ∈ terms, InRange (sign * (term.numeral.keptFraction.num * term.unit.micros))

/-- A whole part beyond the precision is out of range. -/
theorem wholeValue_lt (hsign : sign = 1 ∨ sign = -1) {a : Nat} (h : InRange (sign * a))
    (hle : term.amount ≤ a) : term.numeral.wholeValue < 10 ^ precision := by
  have hunit : 0 < term.unit.micros := by cases term.unit <;> decide
  have hwhole : term.numeral.wholeValue ≤ a :=
    calc term.numeral.wholeValue ≤ term.numeral.wholeValue * term.unit.micros :=
      Nat.le_mul_of_pos_right _ hunit
      _ ≤ term.amount := by
        rw [amount, DecimalNumber.amount, DecimalNumeral.number_div]
        exact Nat.le_add_right ..
      _ ≤ a := hle
  exact lt_precision_of_inRange hsign (inRange_of_le hsign h hwhole)

theorem amount_le_total {terms : List WrittenTerm} (h : term ∈ terms) : term.amount ≤ total terms :=
  List.le_sum_of_mem (List.mem_map_of_mem h)

theorem addsUp_iff_summable (hsign : sign = 1 ∨ sign = -1) (terms : List WrittenTerm) :
    AddsUp sign 0 terms ↔ Summable sign terms := by
  constructor
  · rintro ⟨hfits, hrange⟩
    rw [Nat.zero_add, total_eq_sum] at hrange
    exact ⟨hrange, fun term hterm => product_eq term ▸ (hfits term hterm).product⟩
  · rintro ⟨hsum, hproducts⟩
    rw [← total_eq_sum] at hsum
    refine ⟨fun term hterm => ⟨wholeValue_lt hsign hsum (amount_le_total hterm), ?_⟩,
      by rwa [Nat.zero_add]⟩
    exact product_eq term ▸ hproducts term hterm

/-- One more term can be added, or it is refused. -/
theorem summable_concat_or_refuses (hsign : sign = 1 ∨ sign = -1) (h : Summable sign before)
    (term : WrittenTerm) :
    Summable sign (before ++ [term]) ∨ ∃ e, term.Refuses sign (total before) e := by
  have hadds := (addsUp_iff_summable hsign before).mpr h
  rcases fits_or_refuses sign (total before) term with ⟨hfits, hrange⟩ | hrefuses
  · refine .inl ((addsUp_iff_summable hsign _).mp ⟨?_, by simpa using hrange⟩)
    exact List.forall_mem_append.mpr ⟨hadds.fits, by simpa using hfits⟩
  · exact .inr hrefuses

/-- A term that is refused cannot be added. -/
theorem not_summable_of_refuses (hsign : sign = 1 ∨ sign = -1)
    (h : term.Refuses sign (total before) e) : ¬ Summable sign (before ++ [term]) := by
  intro hsummable
  obtain ⟨hfits, hrange⟩ := (addsUp_iff_summable hsign _).mpr hsummable
  have hterm := hfits term (by simp)
  cases h with
  | tooPrecise hwhole => exact Nat.not_lt.mpr hwhole hterm.whole
  | outOfRange _ h' =>
    rcases h' with hout | hout
    · exact hout (by simpa using hrange)
    · exact hout hterm.product

/-! ## Where reading stops -/

/-- Reading the text comes to the term after the terms before it, which can be added up. -/
def Reaches (t : Text) (sign : Int) (before : List WrittenTerm) (term : WrittenTerm) : Prop :=
  Summable sign before ∧ ∃ start rest, IsSign start sign ∧
    t = start ++ (before.flatMap WrittenTerm.text ++ (term.text ++ rest)) ∧ term.EndsBefore rest

theorem Reaches.sign_eq (h : Reaches t sign before term) : sign = 1 ∨ sign = -1 := by
  obtain ⟨-, start, rest, hsign, -⟩ := h
  exact hsign.sign_eq

/-- A term that is reached and refused is the end. -/
theorem parse_of_reaches (h : Reaches t sign before term)
    (hrefuses : term.Refuses sign (total before) e) : parse t = .error e := by
  obtain ⟨hsummable, start, rest, hsign, rfl, hends⟩ := h
  exact parse_of_refuses hsign ((addsUp_iff_summable hsign.sign_eq _).mpr hsummable) hends hrefuses

/-- A text that does not read is malformed, or a term is reached and refused. -/
theorem reaches_of_parse (h : parse t = .error e) :
    e.isMalformed = true ∨ ∃ sign before term, Reaches t sign before term ∧
      term.Refuses sign (total before) e := by
  obtain ⟨start, sign, body, hsign, rfl, hparse⟩ := exists_sign t
  rw [hparse, readUnsigned] at h
  split at h
  · exact .inl (Except.error.inj h ▸ rfl)
  · split at h
    · cases h
    · obtain ⟨terms, rest, rfl, hadds, hends⟩ :=
        readTerms_ends hsign.sign_eq (zero_micros sign) (Nat.le_refl body.length)
      rw [h, Nat.zero_add] at hends
      cases hends with
      | malformed _ hterm => exact .inl (isMalformed_of_termAt hterm)
      | @refused term rest' _ hends hrefuses =>
        have hsummable := (addsUp_iff_summable hsign.sign_eq _).mp hadds
        exact .inr ⟨sign, terms, term, ⟨hsummable, start, rest', hsign, rfl, hends⟩, hrefuses⟩

/-! ## The main result -/

/-- When the text reads, and which error it gives for what reason. -/
structure FailsForAReason (t : Text) : Prop where
  /-- A row of terms reads exactly if they can be added up. -/
  wellFormed : ∀ sign terms, IsWritten t sign terms → ((∃ d, parse t = .ok d) ↔ Summable sign terms)
  /-- It is out of range exactly if a term is reached, its whole part is within the precision, and
  it cannot be added to those before it. -/
  outOfRange : parse t = .error .outOfRange ↔ ∃ sign before term, Reaches t sign before term ∧
    term.numeral.wholeValue < 10 ^ precision ∧ ¬ Summable sign (before ++ [term])
  /-- It is too precise exactly if a term is reached and its whole part is beyond the precision. -/
  tooPrecise : parse t = .error .tooPrecise ↔ ∃ sign before term, Reaches t sign before term ∧
    10 ^ precision ≤ term.numeral.wholeValue
  /-- The other errors are those of texts that are no row of terms. -/
  malformed : ∀ e, parse t = .error e → e ≠ .outOfRange → e ≠ .tooPrecise →
    ∀ sign terms, ¬ IsWritten t sign terms

theorem parse_failsForAReason (t : Text) : FailsForAReason t where
  wellFormed sign terms hwritten := by
    obtain ⟨-, start, hsign, -⟩ := id hwritten
    rw [← addsUp_iff_summable hsign.sign_eq]
    rcases parse_row_cases hwritten with
      ⟨hadds, d, hd, -⟩ | ⟨before, term, after, e, rfl, -, hrefuses, he⟩
    · exact ⟨fun _ => hadds, fun _ => ⟨d, hd⟩⟩
    · constructor
      · rintro ⟨d, hd⟩
        cases hd.symm.trans he
      · intro hadds
        obtain ⟨d, hd, -⟩ := parse_of_addsUp hwritten hadds
        cases hd.symm.trans he
  outOfRange := by
    constructor
    · intro h
      rcases reaches_of_parse h with hmalformed | ⟨sign, before, term, hreaches, hrefuses⟩
      · cases hmalformed
      · have hnot := not_summable_of_refuses hreaches.sign_eq hrefuses
        cases hrefuses with
        | outOfRange hwhole _ => exact ⟨sign, before, term, hreaches, hwhole, hnot⟩
    · rintro ⟨sign, before, term, hreaches, hwhole, hnot⟩
      obtain ⟨e, hrefuses⟩ :=
        (summable_concat_or_refuses hreaches.sign_eq hreaches.1 term).resolve_left hnot
      rw [parse_of_reaches hreaches hrefuses]
      cases hrefuses with
      | tooPrecise hbeyond => exact absurd hwhole (Nat.not_lt.mpr hbeyond)
      | outOfRange => rfl
  tooPrecise := by
    constructor
    · intro h
      rcases reaches_of_parse h with hmalformed | ⟨sign, before, term, hreaches, hrefuses⟩
      · cases hmalformed
      · cases hrefuses with
        | tooPrecise hwhole => exact ⟨sign, before, term, hreaches, hwhole⟩
    · rintro ⟨sign, before, term, hreaches, hwhole⟩
      exact parse_of_reaches hreaches (.tooPrecise hwhole)
  malformed e he hrange hprecise sign terms hwritten := by
    rcases parse_row_cases hwritten with ⟨-, d, hd, -⟩ | ⟨_, _, _, e', -, -, hrefuses, he'⟩
    · cases hd.symm.trans he
    · obtain rfl : e = e' := Except.error.inj (he.symm.trans he')
      cases hrefuses with
      | tooPrecise => exact hprecise rfl
      | outOfRange => exact hrange rfl

/-- Less than eight minutes are out of range as a fraction of an hour with nineteen digits. -/
example : parse "0.1234567890123456789h".toList = .error .outOfRange := by decide +kernel

end Duration

end Typist
