import Typist.Text.Character

/-!
# Numerals and decimal numbers

Whole numbers are written in decimal. A numeral that is read or written may have at most
`digitLimit` digits, leading zeros included, and what goes beyond is refused rather than converted.

A quotient is rounded to the nearest integer, and to the even one of two that are equally near.

An unsigned decimal number is a numerator over a power of ten. It is split into its whole part and
its fraction, and both are kept to a precision of 28 significant digits: a longer whole part cannot
be split off at all, and a longer fraction is rounded, a tie going to the even neighbour. A fraction
has a last place, too, so that one which is next to nothing is kept to fewer digits, or to none.
-/

namespace Typist

/-! ## Numerals -/

/-- The largest number of digits of a numeral that is read or written. -/
def digitLimit : Nat := 4300

namespace Text

/-- The decimal digits of a natural number. -/
def ofNat (n : Nat) : Text :=
  Nat.toDigits 10 n

/-- The decimal digits of an integer, after a minus sign if it is negative. -/
def ofInt : Int → Text
  | .ofNat n => ofNat n
  | .negSucc n => '-' :: ofNat (n + 1)

/-- The number that a text of ASCII digits denotes. -/
def value (digits : Text) : Nat :=
  Nat.ofDigitChars 10 digits 0

/-- The digits of `n`, with zeros in front up to `width`. -/
def paddedNat (width n : Nat) : Text :=
  let digits := ofNat n
  List.replicate (width - digits.length) '0' ++ digits

/-- The hexadecimal digits of `n` in lower case, with zeros in front up to `width`. -/
def paddedHex (width n : Nat) : Text :=
  let digits := Nat.toDigits 16 n
  List.replicate (width - digits.length) '0' ++ digits

end Text

/-- Has the number more digits than a numeral may have? -/
def exceedsDigitLimit (n : Int) : Bool :=
  Nat.pow 10 digitLimit ≤ n.natAbs

/-! ## Rounding -/

/-- The integer nearest to `num / den`, a tie going to the even one. -/
def divNearest (num den : Nat) : Nat :=
  let q := num / den
  let r := num % den
  if 2 * r < den then q
  else if den < 2 * r then q + 1
  else if q % 2 = 0 then q
  else q + 1

/-- The integer nearest to `num / den`, a tie going to the even one. -/
def divNearestInt (num : Int) (den : Nat) : Int :=
  if num < 0 then -(divNearest num.natAbs den : Int) else divNearest num.natAbs den

/-! ## Decimal numbers -/

/-- The number of significant digits that is kept. -/
def precision : Nat := 28

/-- The last place after the point that is kept. -/
def lastPlace : Nat := 1000026

/-- The decimal number `digits / 10 ^ places`. -/
structure DecimalNumber where
  digits : Nat
  places : Nat
  deriving DecidableEq, Repr

namespace DecimalNumber

/-- The value of decimal digits of any script. -/
def valueOf? (t : Text) : Option Nat :=
  t.foldl (fun value c => return 10 * (← value) + (← decimalValue? c)) (some 0)

/-- Reads digits with at most one point among them. There has to be a digit. -/
def ofText? (t : Text) : Option DecimalNumber :=
  match t.pieces '.' with
  | [whole] => if whole = [] then none else (valueOf? whole).map (⟨·, 0⟩)
  | [whole, fraction] =>
    if whole ++ fraction = [] then none
    else (valueOf? (whole ++ fraction)).map (⟨·, fraction.length⟩)
  | _ => none

/-- The whole part, if the precision can hold it. -/
def whole? (x : DecimalNumber) : Option Nat :=
  let whole := x.digits / Nat.pow 10 x.places
  if whole < Nat.pow 10 precision then some whole else none

/-- How many digits of the fraction `n / 10 ^ places` are beyond the precision or the last place. -/
def excess (n places : Nat) : Nat :=
  max ((Text.ofNat n).length - precision) (places - lastPlace)

/-- The fraction, to the precision. -/
def fraction (x : DecimalNumber) : DecimalNumber :=
  let digits := x.digits % Nat.pow 10 x.places
  let dropped := excess digits x.places
  ⟨divNearest digits (Nat.pow 10 dropped), x.places - dropped⟩

/-- The number as a quotient in lowest terms. -/
def lowestTerms (x : DecimalNumber) : Nat × Nat :=
  let den := Nat.pow 10 x.places
  let common := x.digits.gcd den
  (x.digits / common, den / common)

end DecimalNumber

end Typist
