import Typist.Duration.Basic
import Typist.Number.Shortest

/-!
# Writing durations

A duration under a second is written in a single unit, microseconds or milliseconds; a longer one in
hours, minutes and seconds, leaving out what is zero. Milliseconds and seconds may have a fraction.
No time at all is `0`.
-/

namespace Typist

namespace Duration

/-- The duration in seconds, as the nearest binary floating point number. -/
def seconds (d : Duration) : Binary64 :=
  .ofRatio (d.micros < 0) d.micros.natAbs 1000000

/-- Writes the quotient `num / den`: without a point if it is whole, else as the nearest binary
floating point number. -/
def quotientText (num den : Nat) : Text :=
  if num % den = 0 then Text.ofNat (num / den) else (Binary64.ofRatio false num den).text .plain

/-- Writes a count of a unit, or nothing if it is zero. -/
def countText (count : Nat) (unit : TimeUnit) : Text :=
  if count = 0 then [] else Text.ofNat count ++ unit.symbol

/-- Writes a positive number of microseconds. -/
def positiveText (micros : Nat) : Text :=
  if micros < TimeUnit.millisecond.micros then Text.ofNat micros ++ TimeUnit.microsecond.symbol
  else if micros < TimeUnit.second.micros then
    quotientText micros TimeUnit.millisecond.micros ++ TimeUnit.millisecond.symbol
  else
    let belowHour := micros % TimeUnit.hour.micros
    let belowMinute := belowHour % TimeUnit.minute.micros
    countText (micros / TimeUnit.hour.micros) .hour ++
      countText (belowHour / TimeUnit.minute.micros) .minute ++
      if belowMinute = 0 then []
      else quotientText belowMinute TimeUnit.second.micros ++ TimeUnit.second.symbol

/-- Writes a duration. -/
def text (d : Duration) : Text :=
  if d.micros = 0 then ['0']
  else if d.micros < 0 then '-' :: positiveText d.micros.natAbs
  else positiveText d.micros.natAbs

end Duration

end Typist
