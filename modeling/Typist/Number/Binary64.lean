import Typist.Number.Decimal

/-!
# Binary floating point

The numbers of the 64-bit binary format, as exact values: a finite one is a significand below
`2 ^ 53` times a power of two with an exponent from -1074 to 971. `ofRatio` rounds a quotient to the
nearest of them, a tie going to the even significand, and becomes infinite beyond the largest.
-/

namespace Typist

/-- A number of the 64-bit binary format. -/
inductive Binary64
  /-- The value is the significand times two to the exponent, negated if `negative`. -/
  | finite (negative : Bool) (significand : Nat) (exponent : Int)
  | infinite (negative : Bool)
  | nan
  deriving DecidableEq, Repr

namespace Binary64

/-- The quotient `num / den` divided by `base ^ exponent`, as a quotient. -/
def scaled (base num den : Nat) (exponent : Int) : Nat × Nat :=
  match exponent with
  | .ofNat e => (num, den * Nat.pow base e)
  | .negSucc e => (num * Nat.pow base (e + 1), den)

/-- The exponent of the largest power of two that is not above `num / den`, both positive. -/
def floorLog2 (num den : Nat) : Int :=
  let guess := (num.log2 : Int) - den.log2
  let (n, d) := scaled 2 num den guess
  if d ≤ n then guess else guess - 1

/-- The least exponent of a finite number. -/
def minExponent : Int := -1074

/-- The greatest exponent of a finite number. -/
def maxExponent : Int := 971

/-- Zero. -/
def zero (negative : Bool) : Binary64 :=
  finite negative 0 minExponent

/-- The number nearest to `num / den`, negated if `negative`. -/
def ofRatio (negative : Bool) (num den : Nat) : Binary64 :=
  if num = 0 then zero negative
  else
    let e := max (floorLog2 num den - 52) minExponent
    let (n, d) := scaled 2 num den e
    let m := divNearest n d
    let (m, e) := if m = Nat.pow 2 53 then (Nat.pow 2 52, e + 1) else (m, e)
    if maxExponent < e then infinite negative else finite negative m e

/-- The number nearest to `digits` times ten to the exponent, negated if `negative`. Far beyond the
range on either side no power is formed. -/
def ofDecimal (negative : Bool) (digits : Nat) (exponent : Int) : Binary64 :=
  let size := (Nat.toDigits 10 digits).length + exponent
  if digits = 0 || size < -400 then zero negative
  else if 400 < size then infinite negative
  else
    let (num, den) := scaled 10 digits 1 (-exponent)
    ofRatio negative num den

/-- Is the number a zero? -/
def isZero : Binary64 → Bool
  | finite _ significand _ => significand = 0
  | _ => false

/-- A finite value as a quotient. -/
def ratio (negative : Bool) (significand : Nat) (exponent : Int) : Int × Nat :=
  let (num, den) := scaled 2 significand 1 (-exponent)
  (if negative then -num else num, den)

/-- The number nearest to the difference of two numbers. -/
def sub : Binary64 → Binary64 → Binary64
  | finite s m e, finite s' m' e' =>
    let (num, den) := ratio s m e
    let (num', den') := ratio s' m' e'
    let n := num * den' - num' * den
    if n = 0 then zero (s && !s') else ofRatio (n < 0) n.natAbs (den * den')
  | infinite s, infinite s' => if s = s' then nan else infinite s
  | infinite s, finite .. => infinite s
  | finite .., infinite s' => infinite !s'
  | nan, _ => nan
  | _, nan => nan

end Binary64

end Typist
