import Typist.Key.Basic

/-!
# Chords

A chord is played by toggling keys. Naming a key that is not held presses it, and naming it again
while it is held releases it, so `ctrl+c+ctrl+v` holds ctrl for the `c` only. What is still held at
the end is released, last pressed first.

`Tracker.next` says which event a key gives, and `Tracker.record` takes an event into account. They
are separate so that an event sent to a keyboard is recorded only once the keyboard has accepted it.
-/

namespace Typist

/-- The keys that are held down, in the order in which they were pressed. -/
structure Tracker where
  held : List Key := []
  deriving DecidableEq, Repr

namespace Tracker

/-- The event that naming `key` gives. -/
def next (t : Tracker) (key : Key) : KeyEvent :=
  if key ∈ t.held then .release key else .press key

/-- Takes a press into account. -/
def pressed (t : Tracker) (key : Key) : Tracker :=
  ⟨t.held ++ [key]⟩

/-- Takes a release into account; a key that was pressed more than once stays held for its later
presses. -/
def released (t : Tracker) (key : Key) : Tracker :=
  ⟨t.held.erase key⟩

/-- Takes an event into account. A key that is not held cannot be released. -/
def record? (t : Tracker) : KeyEvent → Option Tracker
  | .press key => some (t.pressed key)
  | .release key => if key ∈ t.held then some (t.released key) else none

/-- Presses the key if it is not held and releases it if it is. -/
def toggle (t : Tracker) (key : Key) : KeyEvent × Tracker :=
  if key ∈ t.held then (.release key, t.released key) else (.press key, t.pressed key)

/-- The release of the key pressed last, with what stays held. -/
def releaseLast? (t : Tracker) : Option (KeyEvent × Tracker) :=
  t.held.getLast?.map fun key => (.release key, ⟨t.held.dropLast⟩)

/-- The releases of all held keys, last pressed first. -/
def releases (t : Tracker) : List KeyEvent :=
  t.held.reverse.map .release

theorem length_held_of_releaseLast? {t rest : Tracker} {event : KeyEvent}
    (h : t.releaseLast? = some (event, rest)) : rest.held.length < t.held.length := by
  obtain ⟨key, hlast, hrest⟩ := Option.map_eq_some_iff.mp h
  obtain rfl := (Prod.mk.inj hrest).2
  have hpos : 0 < t.held.length := List.length_pos_of_mem (List.mem_of_getLast? hlast)
  rw [List.length_dropLast]
  omega

/-- Releases the key pressed last until none is held. -/
def releaseAll (t : Tracker) : List KeyEvent × Tracker :=
  match _h : t.releaseLast? with
  | none => ([], t)
  | some (event, rest) =>
    let (events, t) := rest.releaseAll
    (event :: events, t)
termination_by t.held.length
decreasing_by exact length_held_of_releaseLast? _h

/-- Toggles the keys one after the other. -/
def toggleAll (t : Tracker) : List Key → List KeyEvent × Tracker
  | [] => ([], t)
  | key :: keys =>
    let (event, t) := t.toggle key
    let (events, t) := t.toggleAll keys
    (event :: events, t)

end Tracker

/-- The events of a chord: its keys toggled in order, then the releases of what is still held. -/
def chordEvents (keys : List Key) : List KeyEvent :=
  let (events, t) := Tracker.toggleAll {} keys
  events ++ t.releases

end Typist
