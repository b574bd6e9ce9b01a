import Typist.Duration.Basic
import Typist.Number.Decimal
import Typist.Text.Quoted

/-!
# Reading durations

A duration is written as an optional sign and then either `0` or a row of terms, each a decimal
number and a unit, as in `1h30m` or `-1.5s`. The digits of a number may be those of any script.

Each term is worth its whole part and its fraction times the unit, and the fraction's share is
rounded to a microsecond on its own. The shares are added one by one, and none of the sums on the
way may leave the range. The fraction in lowest terms is multiplied by the unit before it is
divided, and that product may not leave the range either.
-/

namespace Typist

namespace Duration

/-- Why a duration does not read. -/
inductive ReadError
  /-- Nothing follows the sign. -/
  | empty
  /-- A term has no number. -/
  | expectedNumber
  /-- A number starts with its point. -/
  | expectedLeadingDigit
  /-- A number is not a decimal number. -/
  | badNumber (t : Text)
  /-- A number has no unit after it. -/
  | expectedUnit
  /-- A whole part has more digits than the precision. -/
  | tooPrecise
  /-- A result on the way is out of range. -/
  | outOfRange
  deriving DecidableEq, Repr

/-- The wording of an error. -/
def ReadError.message : ReadError → String
  | empty => "Empty duration string"
  | expectedNumber => "Invalid duration string; expected number"
  | expectedLeadingDigit => "Invalid duration string; expected leading digit"
  | badNumber t => "Invalid duration string; bad number " ++ t.quoted.str
  | expectedUnit => "Invalid duration string; expected unit"
  | tooPrecise => "The number has too many digits"
  | outOfRange => "The duration is out of range"

/-- Can the character stand in a number? -/
def isNumberChar (c : Char) : Bool :=
  showsDigit c || c = '.'

/-- The unit at the start of the text, and what follows it. -/
def unitAt? (t : Text) : Option (TimeUnit × Text) :=
  TimeUnit.all.findSome? fun unit => (Text.after? unit.symbol t).map fun rest => (unit, rest)

/-- The number at the start of the text, and what follows it. -/
def numberAt (t : Text) : Except ReadError (DecimalNumber × Text) :=
  let (written, rest) := t.span isNumberChar
  match written with
  | [] => .error .expectedNumber
  | c :: _ =>
    if !showsDigit c then .error .expectedLeadingDigit
    else
      match DecimalNumber.ofText? written with
      | none => .error (.badNumber written)
      | some number => .ok (number, rest)

/-- The term at the start of the text, and what follows it. -/
def termAt (t : Text) : Except ReadError ((DecimalNumber × TimeUnit) × Text) :=
  match numberAt t with
  | .error e => .error e
  | .ok (number, rest) =>
    match unitAt? rest with
    | none => .error .expectedUnit
    | some (unit, rest) => .ok ((number, unit), rest)

/-- The result if there is one, and a result out of range otherwise. -/
def inRangeOr (d : Option Duration) : Except ReadError Duration :=
  d.elim (.error .outOfRange) .ok

/-- Adds the share of a term's whole part to the sum so far. -/
def addWhole (sum : Duration) (sign : Int) (whole : Nat) (unit : TimeUnit) :
    Except ReadError Duration :=
  if whole = 0 then .ok sum
  else do
    let share ← inRangeOr (ofMicros? (sign * whole * unit.micros))
    inRangeOr (sum.add? share)

/-- Adds the share of a term's fraction to the sum so far. -/
def addFraction (sum : Duration) (sign : Int) (fraction : DecimalNumber) (unit : TimeUnit) :
    Except ReadError Duration :=
  if fraction.digits = 0 then .ok sum
  else do
    let (num, den) := fraction.lowestTerms
    let product ← inRangeOr (ofMicros? (sign * num * unit.micros))
    let share ← inRangeOr (ofMicros? (divNearestInt product.micros den))
    inRangeOr (sum.add? share)

/-- Adds a term to the sum so far. -/
def addTerm (sum : Duration) (sign : Int) (number : DecimalNumber) (unit : TimeUnit) :
    Except ReadError Duration :=
  match number.whole? with
  | none => .error .tooPrecise
  | some whole => do
    let sum ← addWhole sum sign whole unit
    addFraction sum sign number.fraction unit

/-- Reads terms onto the sum so far. Every term uses up characters, so the length of the text bounds
their number. -/
def readTerms (sign : Int) : (budget : Nat) → (sum : Duration) → Text → Except ReadError Duration
  | _, sum, [] => .ok sum
  | 0, _, _ => .error .expectedNumber
  | budget + 1, sum, t => do
    let ((number, unit), rest) ← termAt t
    let sum ← addTerm sum sign number unit
    readTerms sign budget sum rest

/-- Reads a duration after its sign. -/
def readUnsigned (sign : Int) (t : Text) : Except ReadError Duration :=
  if t = [] then .error .empty
  else if t = ['0'] then .ok zero
  else readTerms sign t.length zero t

/-- The duration that a text denotes. -/
def parse : Text → Except ReadError Duration
  | '-' :: t => readUnsigned (-1) t
  | '+' :: t => readUnsigned 1 t
  | t => readUnsigned 1 t

end Duration

end Typist
