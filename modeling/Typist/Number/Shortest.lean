import Typist.Number.Binary64

/-!
# Shortest decimals

A number of the 64-bit binary format is written with the fewest decimal digits that read back as it,
and among those with the digits nearest to it; of two that are equally near, the even ones. The
search goes through the decimal grids from one digit to seventeen, and on each tests the two
neighbours of the value.

How the digits are laid out is for a `FloatStyle` to say.
-/

namespace Typist

namespace Binary64

/-- The exponent of the largest power of ten that is not above `num / den`, both positive. -/
def floorLog10 (num den : Nat) : Int :=
  if den ≤ num then (Nat.toDigits 10 (num / den)).length - 1
  else -((Nat.toDigits 10 ((den - 1) / num)).length : Int)

/-- Does the decimal read back as the positive number of that significand and exponent? -/
def readsBack (significand : Nat) (exponent : Int) (digits : Nat) (point : Int) : Bool :=
  ofDecimal false digits point = finite false significand exponent

/-- Is the lower neighbour `low` of `low + rest / den` the nearer one, or as near and even? -/
def prefersLow (low rest den : Nat) : Bool :=
  2 * rest < den || 2 * rest = den && low % 2 = 0

/-- The decimal of the grid of `count` digits that reads back and is nearest to the value, if there
is one. The value is given also as a quotient, with the exponent of its first digit. -/
def onGrid (significand : Nat) (exponent : Int) (num den : Nat) (first : Int) (count : Nat) :
    Option (Nat × Int) :=
  let point := first + 1 - count
  let (n, d) := scaled 10 num den point
  let low := n / d
  let lowHits := readsBack significand exponent low point
  let highHits := readsBack significand exponent (low + 1) point
  if lowHits && (!highHits || prefersLow low (n % d) d) then some (low, point)
  else if highHits then some (low + 1, point)
  else none

/-- The shortest decimal of the positive number, as digits and the exponent of the last of them. -/
def shortest (significand : Nat) (exponent : Int) : Nat × Int :=
  let (num, den) := scaled 2 significand 1 (-exponent)
  let first := floorLog10 num den
  let grids := (List.range 17).map (· + 1)
  (grids.findSome? (onGrid significand exponent num den first)).getD (0, 0)

end Binary64

/-- How the digits of a number are laid out. -/
structure FloatStyle where
  /-- The least exponent of the first digit with which a number is written without an exponent. -/
  positionalFrom : Int
  /-- The exponent of the first digit from which on a number is written with an exponent. -/
  positionalBelow : Int
  /-- Does a positive exponent have a sign? -/
  plusSign : Bool
  /-- The fewest digits of an exponent. -/
  exponentDigits : Nat

namespace FloatStyle

/-- The exponent after its mark. -/
def exponentText (style : FloatStyle) (exponent : Int) : Text :=
  let sign : Text := if exponent < 0 then ['-'] else if style.plusSign then ['+'] else []
  'e' :: sign ++ Text.paddedNat style.exponentDigits exponent.natAbs

/-- Lays out the digits, the first of which has the given exponent. -/
def layout (style : FloatStyle) (digits : Text) (first : Int) : Text :=
  if style.positionalFrom ≤ first && first < style.positionalBelow then
    if first < 0 then '0' :: '.' :: List.replicate (-first - 1).toNat '0' ++ digits
    else
      let whole := (first + 1).toNat
      if digits.length ≤ whole then
        digits ++ List.replicate (whole - digits.length) '0' ++ ['.', '0']
      else digits.take whole ++ '.' :: digits.drop whole
  else
    match digits with
    | [] => []
    | [d] => d :: style.exponentText first
    | d :: rest => d :: '.' :: rest ++ style.exponentText first

end FloatStyle

/-- The digits without the zeros they end with. -/
def withoutTrailingZeros (digits : Text) : Text :=
  (digits.reverse.dropWhile (· = '0')).reverse

/-- Writes a number in a style. -/
def Binary64.text (style : FloatStyle) : Binary64 → Text
  | finite negative significand exponent =>
    let sign : Text := if negative then ['-'] else []
    if significand = 0 then sign ++ ['0', '.', '0']
    else
      let (digits, point) := shortest significand exponent
      let digits := Text.ofNat digits
      sign ++ style.layout (withoutTrailingZeros digits) (point + digits.length - 1)
  | infinite negative => if negative then "-inf".toList else "inf".toList
  | nan => "nan".toList

/-- Numbers shown to people: positional from 0.0001 up to sixteen digits before the point. -/
def FloatStyle.plain : FloatStyle :=
  ⟨-4, 16, true, 2⟩

end Typist
