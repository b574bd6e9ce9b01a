import Typist.Chord
import Typist.Playback.Keyboard
import Typist.Settings
import Typist.Snippet.Basic

/-!
# Playing snippets

A player types a snippet on a keyboard: each line after a pause, part by part, and then the key that
ends the line. Comments are skipped, and the values of arguments are typed as they are.

The keys of a combo that are down are held by the player's tracker. Whatever stops the lines of a
snippet from being played, the keys still held are released, last pressed first. A key that the
keyboard fails to release does not keep the others from being released; the first such failure
counts once every key has been tried, and takes the place of what stopped the lines.
-/

namespace Typist

/-- Why playing stops. -/
inductive PlayError
  /-- A call met a fault. -/
  | fault (fault : Fault)
  /-- An argument has no value. -/
  | unresolved (name : Text)
  /-- The commit key names no key. -/
  | unknownCommitKey (error : UnknownKey)
  /-- A delay is longer than a duration can be. -/
  | delayOutOfRange
  deriving DecidableEq, Repr

/-- The message for an argument without a value. -/
def unresolvedMessage (name : Text) : String :=
  "Argument `" ++ name.str ++ "` has no value"

/-- The keys held and what happened so far. -/
structure Stage where
  tracker : Tracker := {}
  journal : Journal := []

/-- An action of a player. -/
abbrev Play := EStateM PlayError Stage

namespace Play

/-- Takes an action on the journal as an action of a player. -/
def perform (act : Act Unit) : Play Unit := fun stage =>
  match act stage.journal with
  | .ok _ journal => .ok () { stage with journal }
  | .error fault journal => .error (.fault fault) { stage with journal }

/-- Takes an action on the journal as an action of a player that goes on when the hardware fails,
and tells the failure. -/
def attempt (act : Act Unit) : Play (Option Fault) := fun stage =>
  match act stage.journal with
  | .ok _ journal => .ok none { stage with journal }
  | .error fault journal =>
    if fault.isHardware then .ok (some fault) { stage with journal }
    else .error (.fault fault) { stage with journal }

/-- Does `last` after `body`, whether that fails or not. A failure of `last` counts before one of
`body`. -/
def ensuring (body last : Play Unit) : Play Unit := fun stage =>
  match body stage with
  | .ok _ stage => last stage
  | .error e stage =>
    match last stage with
    | .ok _ stage => .error e stage
    | .error e stage => .error e stage

end Play

/-- A keyboard to play on, with the settings and the clock to go by. -/
structure Player where
  keyboard : Keyboard
  settings : Settings
  sleep : Duration → Act Unit

namespace Player

/-- Pauses, if the delay is positive. -/
def pause (p : Player) (d : Duration) : Play Unit :=
  if d.isPositive then Play.perform (p.sleep d) else return ()

/-- Sends an event to the keyboard. -/
def sending (p : Player) : KeyEvent → Act Unit
  | .press key => p.keyboard.press key
  | .release key => p.keyboard.release key

/-- Sends an event to the keyboard. -/
def send (p : Player) (event : KeyEvent) : Play Unit :=
  Play.perform (p.sending event)

/-- Types a text character by character, with a pause after each. -/
def typeText (p : Player) : Text → Play Unit
  | [] => return ()
  | c :: rest => do
    Play.perform (p.keyboard.type [c])
    p.pause p.settings.charDelay
    p.typeText rest

/-- The notice that a key was not released. -/
def notReleased (key : Key) (fault : Fault) : Act Unit :=
  Act.note .warning ("Could not release " ++ key.shown.str ++ ": " ++ fault.message)

/-- Releases the given keys in order; they are what is held, last pressed first. `failure` is the
first failure so far. -/
def releaseKeys (p : Player) : (keys : List Key) → (failure : Option Fault) → Play Unit
  | [], none => return ()
  | [], some fault => throw (.fault fault)
  | key :: keys, failure => do
    modify fun stage => { stage with tracker := ⟨keys.reverse⟩ }
    match ← Play.attempt (p.sending (.release key)) with
    | none => p.releaseKeys keys failure
    | some fault =>
      Play.perform (notReleased key fault)
      p.releaseKeys keys (failure.or (some fault))

/-- Releases every held key, last pressed first. -/
def releaseHeld (p : Player) : Play Unit := do
  p.releaseKeys (← get).tracker.held.reverse none

/-- Toggles keys in order. A key counts as toggled once the keyboard has accepted the event. -/
def toggleKeys (p : Player) : List Key → Play Unit
  | [] => return ()
  | key :: keys => do
    let (event, tracker) := (← get).tracker.toggle key
    p.send event
    modify fun stage => { stage with tracker }
    p.toggleKeys keys

/-- Plays keys as a chord. -/
def keyCombo (p : Player) (keys : List Key) : Play Unit := do
  p.toggleKeys keys
  p.releaseHeld

/-- Ends a line. -/
def commit (p : Player) : Play Unit :=
  match p.settings.commit with
  | .error e => throw (.unknownCommitKey e)
  | .ok key => Play.perform (p.keyboard.click key)

/-- Plays a part. -/
def playPart (p : Player) (values : Mapping Text Text) : Part → Play Unit
  | .text content => p.typeText content
  | .arg name =>
    match values.get? name with
    | none => throw (.unresolved name)
    | some value => p.typeText value
  | .combo keys => p.keyCombo keys
  | .delay milliseconds =>
    if p.settings.honorDelays then
      match Duration.ofMillis? milliseconds with
      | none => throw .delayOutOfRange
      | some d => p.pause d
    else return ()

/-- Plays parts in order. -/
def playParts (p : Player) (values : Mapping Text Text) : List Part → Play Unit
  | [] => return ()
  | part :: parts => do
    p.playPart values part
    p.playParts values parts

/-- Plays a line: its parts and the key that ends it, unless it is a comment. -/
def playLine (p : Player) (values : Mapping Text Text) (number : Nat) (line : Line) :
    Play Unit := do
  p.pause p.settings.lineDelay
  if line.isComment then
    Play.perform (Act.note .debug ("Skipping comment line " ++ (Text.ofNat number).str))
  else
    p.playParts values line
    p.commit

/-- Plays lines in order; `number` is the number of the first of them. -/
def playLines (p : Player) (values : Mapping Text Text) (number : Nat) : List Line → Play Unit
  | [] => return ()
  | line :: lines => do
    p.playLine values number line
    p.playLines values (number + 1) lines

/-- Switches to the window used before, if the settings say so. -/
def focus (p : Player) : Play Unit :=
  if p.settings.focusCycle then Play.perform p.keyboard.focus else return ()

/-- Plays a snippet. -/
def play (p : Player) (snippet : Snippet) (values : Mapping Text Text) : Play Unit := do
  p.focus
  Play.ensuring (p.playLines values 1 snippet.lines) p.releaseHeld

end Player

end Typist
