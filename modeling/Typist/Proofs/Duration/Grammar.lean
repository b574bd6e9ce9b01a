import Mathlib.Data.List.TakeDrop
import Typist.Proofs.Duration.Adding

/-!
# How a duration is written

A term is written as a numeral and a unit, and `termAt_eq_ok_iff` says that reading a term succeeds
exactly at one that is written so ; minutes do not go before an `s`, which would make milliseconds
of them. Reading a row of terms adds up those at the start that can be added, and ends at the end of
the text, at something that is no term or at a term that is refused (`readTerms_ends`).
-/

namespace Typist

namespace Duration

/-! ## Terms -/

/-- A term as it is written. -/
structure WrittenTerm where
  numeral : DecimalNumeral
  unit : TimeUnit

/-- The text of a term. -/
def WrittenTerm.text (term : WrittenTerm) : Text :=
  term.numeral.text ++ term.unit.symbol

/-- The term's unit ends where `rest` starts : minutes are not followed by an `s`. -/
def WrittenTerm.EndsBefore (term : WrittenTerm) (rest : Text) : Prop :=
  term.unit = .minute → rest.head? ≠ some 's'

variable {t rest : Text}

/-- A unit is read, but minutes before an `s`, which makes milliseconds of them. -/
theorem unitAt?_symbol (unit : TimeUnit) {rest : Text}
    (h : unit = .minute → rest.head? ≠ some 's') :
    unitAt? (unit.symbol ++ rest) = some (unit, rest) := by
  cases unit with
  | minute =>
    cases rest with
    | nil => rfl
    | cons c rest =>
      have hc : 's' ≠ c := fun hs => h rfl (by rw [hs, List.head?_cons])
      simp [unitAt?, TimeUnit.all, TimeUnit.symbol, Text.after?, hc]
  | hour | millisecond | microsecond | second =>
    simp [unitAt?, TimeUnit.all, TimeUnit.symbol, Text.after?]

theorem isNumberChar_symbol (unit : TimeUnit) (rest : Text) :
    ∀ c ∈ (unit.symbol ++ rest).head?, isNumberChar c = false := by
  cases unit <;> simp [TimeUnit.symbol] <;> decide +kernel

theorem unitAt?_eq_some_iff {unit : TimeUnit} :
    unitAt? t = some (unit, rest) ↔
      t = unit.symbol ++ rest ∧ (unit = .minute → rest.head? ≠ some 's') := by
  refine ⟨fun h => ?_, fun ⟨ht, hends⟩ => ht ▸ unitAt?_symbol unit hends⟩
  obtain ⟨unit', -, hunit⟩ := List.exists_of_findSome?_eq_some h
  obtain ⟨rest', hafter, hsame⟩ := Option.map_eq_some_iff.mp hunit
  obtain ⟨rfl, rfl⟩ := Prod.mk.inj hsame
  obtain rfl := Text.after?_eq_some_iff.mp hafter
  refine ⟨rfl, ?_⟩
  rintro rfl hs
  obtain ⟨more, rfl⟩ : ∃ more, rest' = 's' :: more := by
    cases rest' with
    | nil => cases hs
    | cons c more => exact ⟨more, by rw [Option.some.inj hs]⟩
  -- The unit at this place is that of milliseconds.
  have hmillis : unitAt? ('m' :: 's' :: more) = some (.millisecond, more) :=
    unitAt?_symbol .millisecond (by simp)
  cases hmillis.symm.trans h

theorem isNumberChar_text (numeral : DecimalNumeral) :
    ∀ c ∈ numeral.text, isNumberChar c = true := by
  obtain ⟨hwhole, hfraction⟩ := Text.isDecimal_append.mp numeral.isDecimal
  have hdigit {u : Text} (hu : u.IsDecimal) : ∀ c ∈ u, isNumberChar c = true := fun c hc => by
    rw [isNumberChar, Text.showsDigit_of_isDecimal hu hc, Bool.true_or]
  refine List.forall_mem_append.mpr ⟨hdigit hwhole, ?_⟩
  cases hpoint : numeral.fraction with
  | none => simp
  | some fraction =>
    rw [hpoint] at hfraction
    exact List.forall_mem_cons.mpr ⟨by simp [isNumberChar], hdigit hfraction⟩

/-- A numeral is read up to the first character that is not of a number. -/
theorem numberAt_text (numeral : DecimalNumeral)
    (hrest : ∀ c ∈ rest.head?, isNumberChar c = false) :
    numberAt (numeral.text ++ rest) = .ok (numeral.number, rest) := by
  have hchars := isNumberChar_text numeral
  have hspan : List.span isNumberChar (numeral.text ++ rest) = (numeral.text, rest) := by
    rw [List.span_eq_takeWhile_dropWhile, List.takeWhile_append_of_pos hchars,
      List.dropWhile_append_of_pos hchars]
    cases rest with
    | nil => simp
    | cons d rest =>
      have hd : isNumberChar d = false := hrest d (by simp)
      simp [hd]
  obtain ⟨c, more, htext, hdigit⟩ := numeral.exists_text_eq_cons
  have hshows : showsDigit c = true := by rw [showsDigit, hdigit, Bool.true_or]
  have hvalue := DecimalNumber.ofText?_text numeral
  rw [numberAt, hspan]
  rw [htext] at hvalue ⊢
  simp only [hshows, hvalue]
  rfl

/-- What is read as a number is a numeral. -/
theorem exists_numeral_of_numberAt {number : DecimalNumber} (h : numberAt t = .ok (number, rest)) :
    ∃ numeral : DecimalNumeral, t = numeral.text ++ rest ∧ number = numeral.number := by
  rw [numberAt, List.span_eq_takeWhile_dropWhile] at h
  have hjoin := List.takeWhile_append_dropWhile (p := isNumberChar) (l := t)
  generalize List.takeWhile isNumberChar t = written at h hjoin
  cases written with
  | nil => cases h
  | cons c written =>
    simp only at h
    split at h
    · cases h
    · next hc =>
      cases hvalue : DecimalNumber.ofText? (c :: written) with
      | none => simp [hvalue] at h
      | some value =>
        simp only [hvalue, Except.ok.injEq, Prod.mk.injEq] at h
        obtain ⟨rfl, rfl⟩ := h
        have hpoint : (c :: written).head? ≠ some '.' := by
          rintro hs
          obtain rfl : c = '.' := Option.some.inj hs
          exact hc (by decide +kernel)
        obtain ⟨numeral, htext, hnumber⟩ := (DecimalNumber.ofText?_eq_some_iff hpoint).mp hvalue
        exact ⟨numeral, by rw [← htext, hjoin], hnumber⟩

/-- A term is read exactly where one is written. -/
theorem termAt_eq_ok_iff {item : DecimalNumber × TimeUnit} :
    termAt t = .ok (item, rest) ↔
      ∃ term : WrittenTerm, t = term.text ++ rest ∧ term.EndsBefore rest ∧
        item = (term.numeral.number, term.unit) := by
  constructor
  · intro h
    rw [termAt] at h
    cases hnumber : numberAt t with
    | error e => simp [hnumber] at h
    | ok read =>
      obtain ⟨number, afterNumber⟩ := read
      obtain ⟨numeral, rfl, rfl⟩ := exists_numeral_of_numberAt hnumber
      cases hunit : unitAt? afterNumber with
      | none => simp [hnumber, hunit] at h
      | some read =>
        obtain ⟨unit, afterUnit⟩ := read
        simp only [hnumber, hunit, Except.ok.injEq, Prod.mk.injEq] at h
        obtain ⟨rfl, rfl⟩ := h
        obtain ⟨rfl, hends⟩ := unitAt?_eq_some_iff.mp hunit
        exact ⟨⟨numeral, unit⟩, by rw [WrittenTerm.text, List.append_assoc], hends, rfl⟩
  · rintro ⟨term, rfl, hends, rfl⟩
    rw [termAt, WrittenTerm.text, List.append_assoc,
      numberAt_text term.numeral (isNumberChar_symbol term.unit rest)]
    simp only [unitAt?_symbol term.unit hends]

/-- A term starts with a digit. -/
theorem WrittenTerm.exists_text_eq_cons (term : WrittenTerm) :
    ∃ c rest, term.text = c :: rest ∧ (decimalValue? c).isSome := by
  obtain ⟨c, rest, htext, hc⟩ := term.numeral.exists_text_eq_cons
  exact ⟨c, rest ++ term.unit.symbol, by rw [text, htext, List.cons_append], hc⟩

theorem WrittenTerm.head_ne (term : WrittenTerm) (rest : Text) {c : Char}
    (hc : decimalValue? c = none) : (term.text ++ rest).head? ≠ some c := by
  obtain ⟨first, more, htext, hfirst⟩ := term.exists_text_eq_cons
  rw [htext]
  rintro hs
  obtain rfl : first = c := Option.some.inj hs
  simp [hc] at hfirst

theorem WrittenTerm.length_text (term : WrittenTerm) : 2 ≤ term.text.length := by
  obtain ⟨c, rest, htext, -⟩ := term.numeral.exists_text_eq_cons
  have hsymbol : 0 < term.unit.symbol.length := by cases term.unit <;> decide
  rw [text, htext, List.length_append, List.length_cons]
  omega

/-! ## Reading term by term -/

theorem readTerms_of_termAt (sign : Int) (budget : Nat) (sum : Duration) {t rest : Text}
    {number : DecimalNumber} {unit : TimeUnit} (h : termAt t = .ok ((number, unit), rest)) :
    readTerms sign (budget + 1) sum t =
      addTerm sum sign number unit >>= fun sum => readTerms sign budget sum rest := by
  cases t with
  | nil => cases h
  | cons c t =>
    rw [readTerms, h]
    · rfl
    · simp

section

variable {α : Type} {text : α → Text} {number : α → DecimalNumber} {unit : α → TimeUnit}

/-- What is read term by term is added term by term. -/
theorem readTerms_flatMap (sign : Int)
    (hread : ∀ a rest, rest.head? ≠ some 's' →
      termAt (text a ++ rest) = .ok ((number a, unit a), rest))
    (hhead : ∀ a rest, (text a ++ rest).head? ≠ some 's') (items : List α) (budget : Nat)
    (sum : Duration)
    {rest : Text} (hrest : rest.head? ≠ some 's') :
    readTerms sign (items.length + budget) sum (items.flatMap text ++ rest) =
      items.foldlM (fun sum a => addTerm sum sign (number a) (unit a)) sum >>= fun sum =>
        readTerms sign budget sum rest := by
  induction items generalizing sum with
  | nil => simp
  | cons a items ih =>
    have hnext : (items.flatMap text ++ rest).head? ≠ some 's' := by
      cases items with
      | nil => exact hrest
      | cons next items =>
        rw [List.flatMap_cons, List.append_assoc]
        exact hhead next _
    rw [List.length_cons, Nat.add_right_comm, List.flatMap_cons, List.append_assoc,
      readTerms_of_termAt sign _ sum (hread a _ hnext), List.foldlM_cons, bind_assoc]
    exact bind_congr ih

theorem length_flatMap_ge (hlong : ∀ a, 2 ≤ (text a).length) (items : List α) :
    2 * items.length ≤ (items.flatMap text).length := by
  induction items with
  | nil => simp
  | cons a items ih =>
    have ha := hlong a
    simp only [List.flatMap_cons, List.length_append, List.length_cons]
    omega

end

/-! ## Adding terms -/

/-- The errors of what is no duration at all. -/
def ReadError.isMalformed : ReadError → Bool
  | tooPrecise | outOfRange => false
  | _ => true

/-- What is no term is malformed. -/
theorem isMalformed_of_termAt {e : ReadError} (h : termAt t = .error e) : e.isMalformed = true := by
  rw [termAt] at h
  cases hnumber : numberAt t with
  | ok read =>
    simp only [hnumber] at h
    cases hunit : unitAt? read.2 with
    | none =>
      obtain rfl : ReadError.expectedUnit = e := by simpa [hunit] using h
      rfl
    | some read => simp [hunit] at h
  | error e' =>
    obtain rfl : e' = e := by simpa [hnumber] using h
    rw [numberAt] at hnumber
    split at hnumber
    split at hnumber
    · cases hnumber
      rfl
    · split at hnumber
      · cases hnumber
        rfl
      · split at hnumber <;> cases hnumber
        rfl

namespace WrittenTerm

variable (term : WrittenTerm)

/-- What a term is worth, in microseconds, its fraction to the precision. -/
def amount : Nat :=
  term.numeral.number.amount term.unit

/-- The numerator of the fraction times the unit, in microseconds. -/
def product : Nat :=
  term.numeral.number.fraction.lowestTerms.1 * term.unit.micros

/-- What terms are worth together. -/
def total (terms : List WrittenTerm) : Nat :=
  (terms.map amount).sum

@[simp]
theorem total_nil : total [] = 0 :=
  rfl

@[simp]
theorem total_cons (terms : List WrittenTerm) : total (term :: terms) = term.amount + total terms :=
  rfl

@[simp]
theorem total_append (terms terms' : List WrittenTerm) :
    total (terms ++ terms') = total terms + total terms' := by
  rw [total, List.map_append, List.sum_append, total, total]

/-- Can the term be added, as far as it goes alone? -/
structure Fits (sign : Int) : Prop where
  whole : term.numeral.wholeValue < 10 ^ precision
  product : InRange (sign * term.product)

/-- Why a term is refused after terms that are worth `a` together. -/
inductive Refuses (sign : Int) (a : Nat) : ReadError → Prop
  | tooPrecise (h : 10 ^ precision ≤ term.numeral.wholeValue) : Refuses sign a .tooPrecise
  | outOfRange (h : term.numeral.wholeValue < 10 ^ precision)
      (h' : ¬ InRange (sign * (a + term.amount : ℕ)) ∨ ¬ InRange (sign * term.product)) :
      Refuses sign a .outOfRange

end WrittenTerm

open WrittenTerm

variable {sign : Int} {sum : Duration} {a : Nat}

theorem addTerm_eq_amount (hsign : sign = 1 ∨ sign = -1) (hsum : sum.micros = sign * a)
    (term : WrittenTerm) :
    addTerm sum sign term.numeral.number term.unit =
      if 10 ^ precision ≤ term.numeral.wholeValue then .error .tooPrecise
      else if InRange (sign * term.product) then
        inRangeOr (ofMicros? (sign * (a + term.amount : ℕ)))
      else .error .outOfRange := by
  rw [addTerm_eq hsign hsum, DecimalNumeral.number_div]
  rfl

theorem addTerm_of_fits (hsign : sign = 1 ∨ sign = -1) (hsum : sum.micros = sign * a)
    {term : WrittenTerm} (hfits : term.Fits sign)
    (hrange : InRange (sign * (a + term.amount : ℕ))) :
    ∃ d, addTerm sum sign term.numeral.number term.unit = .ok d ∧
      d.micros = sign * (a + term.amount : ℕ) := by
  rw [addTerm_eq_amount hsign hsum, if_neg (Nat.not_le.mpr hfits.whole), if_pos hfits.product]
  exact inRangeOr_ofMicros? hrange

theorem addTerm_of_refuses (hsign : sign = 1 ∨ sign = -1) (hsum : sum.micros = sign * a)
    {term : WrittenTerm} {e : ReadError} (h : term.Refuses sign a e) :
    addTerm sum sign term.numeral.number term.unit = .error e := by
  rw [addTerm_eq_amount hsign hsum]
  cases h with
  | tooPrecise hwhole => exact if_pos hwhole
  | outOfRange hwhole hrange =>
    rw [if_neg (Nat.not_le.mpr hwhole)]
    rcases hrange with hrange | hproduct
    · rw [inRangeOr_ofMicros?_of_not hrange, ite_self]
    · exact if_neg hproduct

/-- A term can be added or is refused. -/
theorem fits_or_refuses (sign : Int) (a : Nat) (term : WrittenTerm) :
    term.Fits sign ∧ InRange (sign * (a + term.amount : ℕ)) ∨ ∃ e, term.Refuses sign a e := by
  by_cases hwhole : term.numeral.wholeValue < 10 ^ precision
  · by_cases hproduct : InRange (sign * term.product)
    · by_cases hrange : InRange (sign * (a + term.amount : ℕ))
      · exact .inl ⟨⟨hwhole, hproduct⟩, hrange⟩
      · exact .inr ⟨_, .outOfRange hwhole (.inl hrange)⟩
    · exact .inr ⟨_, .outOfRange hwhole (.inr hproduct)⟩
  · exact .inr ⟨_, .tooPrecise (Nat.le_of_not_lt hwhole)⟩

/-! ## Rows of terms -/

/-- The terms can be added after what is worth `a`. -/
structure AddsUp (sign : Int) (a : Nat) (terms : List WrittenTerm) : Prop where
  fits : ∀ term ∈ terms, term.Fits sign
  inRange : InRange (sign * (a + total terms : ℕ))

theorem addsUp_nil (h : InRange (sign * a)) : AddsUp sign a [] :=
  ⟨by simp, h⟩

theorem addsUp_cons (hsign : sign = 1 ∨ sign = -1) {term : WrittenTerm} {terms : List WrittenTerm} :
    AddsUp sign a (term :: terms) ↔
      (term.Fits sign ∧ InRange (sign * (a + term.amount : ℕ))) ∧
        AddsUp sign (a + term.amount) terms := by
  constructor
  · rintro ⟨hfits, hrange⟩
    obtain ⟨hfirst, hrest⟩ := List.forall_mem_cons.mp hfits
    rw [total_cons, ← Nat.add_assoc] at hrange
    exact ⟨⟨hfirst, inRange_of_le hsign hrange (Nat.le_add_right ..)⟩, hrest, hrange⟩
  · rintro ⟨⟨hfirst, -⟩, hrest, hrange⟩
    refine ⟨List.forall_mem_cons.mpr ⟨hfirst, hrest⟩, ?_⟩
    rwa [total_cons, ← Nat.add_assoc]

/-- Terms can be added, or a first of them is refused. -/
theorem addsUp_or_refuses (hsign : sign = 1 ∨ sign = -1) (terms : List WrittenTerm)
    (ha : InRange (sign * a)) :
    AddsUp sign a terms ∨ ∃ before term after e, terms = before ++ term :: after ∧
      AddsUp sign a before ∧ term.Refuses sign (a + total before) e := by
  induction terms generalizing a with
  | nil => exact .inl (addsUp_nil ha)
  | cons term terms ih =>
    rcases fits_or_refuses sign a term with hterm | ⟨e, hrefuses⟩
    · rcases ih hterm.2 with hadds | ⟨before, term', after, e, rfl, hadds, hrefuses⟩
      · exact .inl ((addsUp_cons hsign).mpr ⟨hterm, hadds⟩)
      · refine .inr ⟨term :: before, term', after, e, rfl, (addsUp_cons hsign).mpr ⟨hterm, hadds⟩,
          ?_⟩
        rwa [total_cons, ← Nat.add_assoc]
    · exact .inr ⟨[], term, terms, e, rfl, addsUp_nil ha, hrefuses⟩

/-- A row that can be added is added up. -/
theorem exists_addTerms (hsign : sign = 1 ∨ sign = -1) (hsum : sum.micros = sign * a)
    {terms : List WrittenTerm} (h : AddsUp sign a terms) :
    ∃ d, terms.foldlM (fun sum term => addTerm sum sign term.numeral.number term.unit) sum = .ok d ∧
      d.micros = sign * (a + total terms : ℕ) := by
  induction terms generalizing sum a with
  | nil => exact ⟨sum, rfl, hsum⟩
  | cons term terms ih =>
    obtain ⟨⟨hfits, hrange⟩, hrest⟩ := (addsUp_cons hsign).mp h
    obtain ⟨d, hadd, hmicros⟩ := addTerm_of_fits hsign hsum hfits hrange
    obtain ⟨e, hadds, hmicros'⟩ := ih hmicros hrest
    refine ⟨e, ?_, by rw [hmicros', total_cons, Nat.add_assoc]⟩
    rw [List.foldlM_cons, hadd]
    exact hadds

theorem length_row (terms : List WrittenTerm) :
    2 * terms.length ≤ (terms.flatMap WrittenTerm.text).length :=
  length_flatMap_ge WrittenTerm.length_text terms

theorem head_row_ne_s (term : WrittenTerm) (rest : Text) : (term.text ++ rest).head? ≠ some 's' :=
  term.head_ne rest (by decide +kernel)

theorem endsBefore_row (term : WrittenTerm) (after : List WrittenTerm) :
    term.EndsBefore (after.flatMap WrittenTerm.text) := by
  intro _
  cases after with
  | nil => simp
  | cons next after =>
    rw [List.flatMap_cons]
    exact head_row_ne_s next _

/-- A row is made of its terms in one way only : a numeral ends at its unit, and the unit where the
next numeral starts. -/
theorem row_injective {terms terms' : List WrittenTerm}
    (h : terms.flatMap WrittenTerm.text = terms'.flatMap WrittenTerm.text) : terms = terms' := by
  induction terms generalizing terms' with
  | nil =>
    have hlength := length_row terms'
    rw [← h, List.flatMap_nil, List.length_nil] at hlength
    exact (List.length_eq_zero_iff.mp (by omega)).symm
  | cons term terms ih =>
    cases terms' with
    | nil =>
      have hlength := length_row (term :: terms)
      rw [h, List.flatMap_nil, List.length_nil, List.length_cons] at hlength
      omega
    | cons term' terms' =>
      rw [List.flatMap_cons, List.flatMap_cons] at h
      have hread := termAt_eq_ok_iff.mpr ⟨term, rfl, endsBefore_row term terms, rfl⟩
      have hread' := termAt_eq_ok_iff.mpr ⟨term', rfl, endsBefore_row term' terms', rfl⟩
      rw [h, hread', Except.ok.injEq, Prod.mk.injEq, Prod.mk.injEq] at hread
      obtain ⟨⟨-, hunit⟩, hrest⟩ := hread
      rw [hrest, List.append_left_inj, WrittenTerm.text, WrittenTerm.text, hunit,
        List.append_left_inj] at h
      obtain ⟨numeral, unit⟩ := term
      obtain ⟨numeral', unit'⟩ := term'
      obtain rfl : unit' = unit := hunit
      obtain rfl : numeral = numeral' := DecimalNumeral.text_injective h
      rw [ih hrest.symm]

/-- Reading a row that can be added goes on with what comes after it. -/
theorem readTerms_row (hsign : sign = 1 ∨ sign = -1) {budget : Nat} (hsum : sum.micros = sign * a)
    {terms : List WrittenTerm} (h : AddsUp sign a terms) (hrest : rest.head? ≠ some 's')
    (hbudget : (terms.flatMap WrittenTerm.text ++ rest).length ≤ budget) :
    ∃ budget' d, rest.length ≤ budget' ∧ d.micros = sign * (a + total terms : ℕ) ∧
      readTerms sign budget sum (terms.flatMap WrittenTerm.text ++ rest) =
        readTerms sign budget' d rest := by
  have hlength := length_row terms
  rw [List.length_append] at hbudget
  obtain ⟨budget', rfl⟩ := Nat.exists_eq_add_of_le (show terms.length ≤ budget by omega)
  obtain ⟨d, hadds, hmicros⟩ := exists_addTerms hsign hsum h
  refine ⟨budget', d, by omega, hmicros, ?_⟩
  rw [readTerms_flatMap sign (fun term rest hrest => termAt_eq_ok_iff.mpr ⟨term, rfl,
    fun _ => hrest, rfl⟩) head_row_ne_s terms budget' sum hrest, hadds]
  rfl

/-- What reading comes to at a place up to which terms are worth `a`. -/
inductive Ends (sign : Int) (a : Nat) : Text → Except ReadError Duration → Prop
  | done {d : Duration} (h : d.micros = sign * a) : Ends sign a [] (.ok d)
  | malformed {rest : Text} {e : ReadError} (hrest : rest ≠ []) (h : termAt rest = .error e) :
      Ends sign a rest (.error e)
  | refused {term : WrittenTerm} {rest : Text} {e : ReadError} (h : term.EndsBefore rest)
      (hrefuses : term.Refuses sign a e) : Ends sign a (term.text ++ rest) (.error e)

/-- Reading comes to one thing only at a place. -/
theorem readTerms_of_ends (hsign : sign = 1 ∨ sign = -1) {budget : Nat}
    (hsum : sum.micros = sign * a) {result : Except ReadError Duration}
    (h : Ends sign a rest result) (hbudget : rest.length ≤ budget) :
    readTerms sign budget sum rest = result := by
  cases h with
  | done hd =>
    rw [eq_of_micros (hd.trans hsum.symm)]
    cases budget <;> rfl
  | malformed hrest hterm =>
    obtain ⟨c, more, rfl⟩ := List.exists_cons_of_ne_nil hrest
    obtain ⟨budget, rfl⟩ := Nat.exists_eq_add_of_le' (show 1 ≤ budget by simp at hbudget; omega)
    rw [readTerms, hterm]
    · rfl
    · simp
  | @refused term more e hends hrefuses =>
    have hlength := term.length_text
    rw [List.length_append] at hbudget
    obtain ⟨budget, rfl⟩ := Nat.exists_eq_add_of_le' (show 1 ≤ budget by omega)
    rw [readTerms_of_termAt sign budget sum (termAt_eq_ok_iff.mpr ⟨term, rfl, hends, rfl⟩),
      addTerm_of_refuses hsign hsum hrefuses]
    rfl

/-- Reading adds up a row of terms, and ends after it. -/
theorem readTerms_ends (hsign : sign = 1 ∨ sign = -1) {budget : Nat} (hsum : sum.micros = sign * a)
    (hbudget : t.length ≤ budget) :
    ∃ terms rest, t = terms.flatMap WrittenTerm.text ++ rest ∧ AddsUp sign a terms ∧
      Ends sign (a + total terms) rest (readTerms sign budget sum t) := by
  induction budget generalizing t sum a with
  | zero =>
    obtain rfl : t = [] := List.length_eq_zero_iff.mp (Nat.le_zero.mp hbudget)
    exact ⟨[], [], rfl, addsUp_nil (hsum ▸ sum.inRange), .done hsum⟩
  | succ budget ih =>
    have hnone : AddsUp sign a [] := addsUp_nil (hsum ▸ sum.inRange)
    by_cases hnil : t = []
    · subst hnil
      exact ⟨[], [], rfl, hnone, .done hsum⟩
    cases hterm : termAt t with
    | error e =>
      have hends : Ends sign a t (.error e) := .malformed hnil hterm
      rw [readTerms_of_ends hsign hsum hends hbudget]
      exact ⟨[], t, rfl, hnone, hends⟩
    | ok read =>
      obtain ⟨item, rest⟩ := read
      obtain ⟨term, rfl, hends, rfl⟩ := termAt_eq_ok_iff.mp hterm
      rcases fits_or_refuses sign a term with ⟨hfits, hrange⟩ | ⟨e, hrefuses⟩
      · have hlength := term.length_text
        rw [List.length_append] at hbudget
        obtain ⟨d, hadd, hmicros⟩ := addTerm_of_fits hsign hsum hfits hrange
        obtain ⟨terms, rest', rfl, hadds, hread⟩ := ih hmicros (show rest.length ≤ budget by omega)
        refine ⟨term :: terms, rest', ?_, (addsUp_cons hsign).mpr ⟨⟨hfits, hrange⟩, hadds⟩, ?_⟩
        · rw [List.flatMap_cons, List.append_assoc]
        · rw [readTerms_of_termAt sign budget sum hterm, hadd, total_cons, ← Nat.add_assoc]
          exact hread
      · have hends : Ends sign a (term.text ++ rest) (.error e) := .refused hends hrefuses
        rw [readTerms_of_ends hsign hsum hends hbudget]
        exact ⟨[], _, rfl, hnone, hends⟩

end Duration

end Typist
