import Typist.Number.Decimal

/-!
# Durations

A duration is a whole number of microseconds of either sign. Its range is that of a number of whole
days with at most nine digits and the time of a day: from -999999999 days to a microsecond less than
1000000000 days. Arithmetic that leaves the range has no result.
-/

namespace Typist

/-- The shortest duration, in microseconds: -999999999 days. -/
def minMicros : Int := -86399999913600000000

/-- The longest duration, in microseconds: a microsecond less than 1000000000 days. -/
def maxMicros : Int := 86399999999999999999

/-- A duration, in microseconds. -/
structure Duration where
  micros : Int
  inRange : minMicros ≤ micros ∧ micros ≤ maxMicros

namespace Duration

instance : DecidableEq Duration := fun d e =>
  if h : d.micros = e.micros then .isTrue (by cases d; cases e; simpa using h)
  else .isFalse fun he => h (he ▸ rfl)

/-- The duration of some microseconds, if they are in range. -/
def ofMicros? (micros : Int) : Option Duration :=
  if h : minMicros ≤ micros ∧ micros ≤ maxMicros then some ⟨micros, h⟩ else none

/-- No time at all. -/
def zero : Duration :=
  ⟨0, by decide⟩

/-- The duration of some milliseconds, if they are in range. -/
def ofMillis? (millis : Int) : Option Duration :=
  ofMicros? (millis * 1000)

/-- The sum of two durations, if it is in range. -/
def add? (d e : Duration) : Option Duration :=
  ofMicros? (d.micros + e.micros)

/-- Is the duration longer than no time at all? -/
def isPositive (d : Duration) : Bool :=
  0 < d.micros

end Duration

/-- A unit that durations are written in. -/
inductive TimeUnit
  | hour | millisecond | microsecond | minute | second
  deriving DecidableEq, Repr

namespace TimeUnit

/-- How a unit is written. -/
def symbol : TimeUnit → List Char
  | hour => ['h']
  | millisecond => ['m', 's']
  | microsecond => ['u', 's']
  | minute => ['m']
  | second => ['s']

/-- A unit in microseconds. -/
def micros : TimeUnit → Nat
  | hour => 3600000000
  | millisecond => 1000
  | microsecond => 1
  | minute => 60000000
  | second => 1000000

/-- The units in the order in which they are tried; milliseconds come before minutes, whose symbol
begins theirs. -/
def all : List TimeUnit :=
  [hour, millisecond, microsecond, minute, second]

end TimeUnit

end Typist
