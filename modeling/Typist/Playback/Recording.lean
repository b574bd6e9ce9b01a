import Typist.Json.Writer
import Typist.Key.Basic

/-!
# Recordings

A recording is the events that a recorder saw, each with the time since the first of them. It is
saved as compact JSON: a named key as its number, any other key as an object with its text, and a
press as 1, a release as 0. A time that is not finite is null.
-/

namespace Typist

/-- An event with the time since the first event, in seconds. -/
structure RecordedEvent where
  offset : Binary64
  event : KeyEvent
  deriving DecidableEq, Repr

namespace Recording

/-- The events with their times, given what the clock read at each of them. -/
def stamped (readings : List Binary64) (events : List KeyEvent) : List RecordedEvent :=
  match readings with
  | [] => []
  | first :: _ => (readings.zip events).map fun (reading, event) => ⟨reading.sub first, event⟩

/-- A key in a recording. -/
def keyJson : Key → Json
  | .code c => .int c.number
  | .char t => .record [("char", .str t)]

/-- A time in a recording. -/
def offsetJson : Binary64 → Json
  | .finite negative significand exponent => .float (.finite negative significand exponent)
  | _ => .null

/-- An event in a recording. -/
def eventJson (recorded : RecordedEvent) : Json :=
  .record [
    ("offset", offsetJson recorded.offset),
    ("event", .record [
      ("key", keyJson recorded.event.key),
      ("press", .int (if recorded.event.isPress then 1 else 0))])]

/-- The text of a saved recording. -/
def saved (events : List RecordedEvent) : Text :=
  (Json.arr (events.map eventJson)).compact false

end Recording

end Typist
