import Typist.Duration.Basic
import Typist.Key.Basic

/-!
# Calls, faults and the journal

Playing a snippet is a row of calls: to a keyboard, to the system's controller below it, and to the
clock for a pause. A call is accepted or meets a fault, and a call that meets a fault has no effect.

The journal is everything that happened so far, in order: the calls with the faults they met, the
events that were recorded, the text that was printed and the notices that were given. Which calls
meet a fault is given by `Faults`, a function of the journal and the call being made. So a statement
about all `Faults` is a statement about every way in which calls can fail.
-/

namespace Typist

/-- A key as the system's controller is given it. -/
inductive Stroke
  /-- A key that the system knows by name. -/
  | named (name : String)
  /-- The key that types the text. -/
  | text (t : CodePoints)
  deriving DecidableEq, Repr

/-- The form in which a stroke is shown. -/
def Stroke.shown : Stroke → CodePoints
  | named name => .ofText ("Key.".toList ++ name.toList)
  | text t => t

/-- The form in which a notice names a stroke. -/
def Stroke.described : Stroke → Text
  | named name => "<Key.".toList ++ name.toList ++ ": ".toList ++ Text.quoted name.toList ++ ['>']
  | text t => t.quoted

/-- A call that may meet a fault. -/
inductive Call
  /-- Presses a key of the keyboard. -/
  | press (key : Key)
  /-- Releases a key of the keyboard. -/
  | release (key : Key)
  /-- Presses and releases a key of the keyboard. -/
  | click (key : Key)
  /-- Types a character, given as a text. -/
  | type (t : Text)
  /-- Switches to the window used before. -/
  | focus
  /-- Pauses. -/
  | sleep (d : Duration)
  /-- Presses a key through the system's controller. -/
  | controllerPress (stroke : Stroke)
  /-- Releases a key through the system's controller. -/
  | controllerRelease (stroke : Stroke)
  /-- Waits for a line of input. -/
  | input
  deriving DecidableEq

/-- What a call can meet. -/
inductive Fault
  /-- The user interrupts. -/
  | interrupt
  /-- The keyboard cannot send the key. -/
  | unsupported (key : Key)
  /-- The hardware fails. -/
  | hardware (message : String)
  /-- The system has no key of a name that switching windows takes for granted. -/
  | unavailable (name : String)
  deriving DecidableEq, Repr

namespace Fault

/-- Is the fault one of the hardware, so that releasing keys goes on after it? -/
def isHardware : Fault → Bool
  | unsupported _ => true
  | hardware _ => true
  | _ => false

/-- The wording of a fault. -/
def message : Fault → String
  | interrupt => "Interrupted"
  | unsupported key => "The keyboard backend cannot send " ++ key.shown.str
  | hardware message => message
  | unavailable name => "There is no key named " ++ name

end Fault

/-- How much a notice matters. -/
inductive Level
  | debug | info | warning | error
  deriving DecidableEq, Repr

/-- The name of a level. -/
def Level.name : Level → String
  | debug => "DEBUG"
  | info => "INFO"
  | warning => "WARNING"
  | error => "ERROR"

/-- Something that the user is told beside the output. -/
structure Notice where
  level : Level
  message : String
  deriving DecidableEq, Repr

/-- Something that happened. -/
inductive Entry
  /-- A call was made, and met a fault or none. -/
  | called (call : Call) (fault : Option Fault)
  /-- An event was recorded. -/
  | recorded (event : KeyEvent)
  /-- Text was printed. -/
  | printed (t : Text)
  /-- A notice was given. -/
  | noticed (notice : Notice)
  /-- A blank line was put between the notices. -/
  | spaced
  deriving DecidableEq

/-- What happened so far, in order. -/
abbrev Journal := List Entry

namespace Journal

/-- The calls that were made, with the faults they met. -/
def calls (j : Journal) : List (Call × Option Fault) :=
  j.filterMap fun
    | .called call fault => some (call, fault)
    | _ => none

/-- The calls that were accepted. -/
def accepted (j : Journal) : List Call :=
  j.filterMap fun
    | .called call none => some call
    | _ => none

/-- The events that were recorded. -/
def events (j : Journal) : List KeyEvent :=
  j.filterMap fun
    | .recorded event => some event
    | _ => none

/-- What was printed. -/
def output (j : Journal) : Text :=
  j.flatMap fun
    | .printed t => t
    | _ => []

/-- The notices that were given. -/
def notices (j : Journal) : List Notice :=
  j.filterMap fun
    | .noticed notice => some notice
    | _ => none

/-- The messages of the warnings. -/
def warnings (j : Journal) : List String :=
  (j.notices.filter fun notice => notice.level = .warning).map Notice.message

/-- A notice as a line of text. -/
def noticeLine (notice : Notice) : Text :=
  notice.level.name.toList ++ ": ".toList ++ notice.message.toList ++ ['\n']

/-- The notices as text; those for debugging are left out unless the user wants to see
everything. -/
def noticeOutput (verbose : Bool) (j : Journal) : Text :=
  j.flatMap fun
    | .noticed notice => if notice.level = .debug && !verbose then [] else noticeLine notice
    | .spaced => ['\n']
    | _ => []

end Journal

/-- Which calls meet a fault, given what happened before. -/
abbrev Faults := Journal → Call → Option Fault

/-- No call meets a fault. -/
def Faults.none : Faults := fun _ _ => Option.none

/-- An action that goes into the journal and may meet a fault. The journal is kept when it does. -/
abbrev Act := EStateM Fault Journal

namespace Act

/-- Adds an entry to the journal. -/
def enter (entry : Entry) : Act Unit :=
  modify (· ++ [entry])

/-- Makes a call. -/
def call (faults : Faults) (c : Call) : Act Unit := fun journal =>
  match faults journal c with
  | none => .ok () (journal ++ [.called c none])
  | some fault => .error fault (journal ++ [.called c (some fault)])

/-- Gives a notice. -/
def note (level : Level) (message : String) : Act Unit :=
  enter (.noticed ⟨level, message⟩)

end Act

end Typist
