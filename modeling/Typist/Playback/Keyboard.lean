import Typist.Playback.Journal

/-!
# Keyboards

A keyboard presses, releases and clicks keys, types characters and switches to the window used
before.

`Keyboard.direct` makes each of these as a call. `Keyboard.recorder` records the events, and passes
them on if it is wrapped around another keyboard; without one it is a dry run, which may print each
event as it comes. `Keyboard.guarded` makes a call before each operation, so that the operation can
meet a fault.
-/

namespace Typist

/-- The operations of a keyboard. -/
structure Keyboard where
  press : Key → Act Unit
  release : Key → Act Unit
  click : Key → Act Unit
  /-- Types a character, given as a text. -/
  type : Text → Act Unit
  /-- Switches to the window used before. -/
  focus : Act Unit

namespace Keyboard

/-- The keyboard on which each operation is a call. -/
def direct (faults : Faults) : Keyboard where
  press key := Act.call faults (.press key)
  release key := Act.call faults (.release key)
  click key := Act.call faults (.click key)
  type t := Act.call faults (.type t)
  focus := Act.call faults .focus

/-- Records an event, and prints it if `echo` is on. -/
def record (echo : Bool) (event : KeyEvent) : Act Unit := do
  Act.enter (.recorded event)
  if echo then Act.enter (.printed (event.described ++ ['\n']))

/-- The keyboard that records every event before it passes it on to the keyboard it is wrapped
around, if there is one. A click is a press and a release. -/
def recorder (wrapped : Option Keyboard) (echo : Bool) : Keyboard :=
  let press (key : Key) : Act Unit := do
    record echo (.press key)
    wrapped.forM fun inner => inner.press key
  let release (key : Key) : Act Unit := do
    record echo (.release key)
    wrapped.forM fun inner => inner.release key
  { press
    release
    click := fun key => do
      press key
      release key
    type := fun t => do
      record echo (.press (.char (.ofText t)))
      record echo (.release (.char (.ofText t)))
      wrapped.forM fun inner => inner.type t
    focus :=
      match wrapped with
      | some inner => inner.focus
      | none => Act.note .info "Dry run; not switching windows" }

/-- The keyboard that makes a call before each operation of another one. A click is a press and a
release. -/
def guarded (faults : Faults) (inner : Keyboard) : Keyboard :=
  let press (key : Key) : Act Unit := do
    Act.call faults (.press key)
    inner.press key
  let release (key : Key) : Act Unit := do
    Act.call faults (.release key)
    inner.release key
  { press
    release
    click := fun key => do
      press key
      release key
    type := fun t => do
      Act.call faults (.type t)
      inner.type t
    focus := do
      Act.call faults .focus
      inner.focus }

end Keyboard

end Typist
