import Typist.Playback.Keyboard

/-!
# The system's controller

Keys reach other applications through a controller of the system. It knows the named keys by names
of its own, some of which exist on some systems only, and a key that types a character by the
character.
-/

namespace Typist

/-- The controller's names of the named keys. -/
def controllerName : KeyCode → String
  | .esc => "esc"
  | .backspace => "backspace"
  | .tab => "tab"
  | .enter => "enter"
  | .leftCtrl => "ctrl"
  | .rightCtrl => "ctrl_r"
  | .leftShift => "shift"
  | .rightShift => "shift_r"
  | .leftAlt => "alt"
  | .rightAlt => "alt_gr"
  | .leftMeta => "cmd"
  | .rightMeta => "cmd_r"
  | .space => "space"
  | .capsLock => "caps_lock"
  | .numLock => "num_lock"
  | .scrollLock => "scroll_lock"
  | .sysRq => "print_screen"
  | .pause => "pause"
  | .compose => "menu"
  | .insert => "insert"
  | .delete => "delete"
  | .home => "home"
  | .endKey => "end"
  | .pageUp => "page_up"
  | .pageDown => "page_down"
  | .up => "up"
  | .down => "down"
  | .left => "left"
  | .right => "right"
  | .mute => "media_volume_mute"
  | .volumeDown => "media_volume_down"
  | .volumeUp => "media_volume_up"
  | .playPause => "media_play_pause"
  | .nextSong => "media_next"
  | .previousSong => "media_previous"
  | .f1 => "f1"
  | .f2 => "f2"
  | .f3 => "f3"
  | .f4 => "f4"
  | .f5 => "f5"
  | .f6 => "f6"
  | .f7 => "f7"
  | .f8 => "f8"
  | .f9 => "f9"
  | .f10 => "f10"
  | .f11 => "f11"
  | .f12 => "f12"
  | .f13 => "f13"
  | .f14 => "f14"
  | .f15 => "f15"
  | .f16 => "f16"
  | .f17 => "f17"
  | .f18 => "f18"
  | .f19 => "f19"
  | .f20 => "f20"

/-- The keys that have a name, in the order of their list. -/
def controllerKeys : List KeyCode :=
  [.esc, .backspace, .tab, .enter, .leftCtrl, .rightCtrl, .leftShift, .rightShift, .leftAlt,
    .rightAlt, .leftMeta, .rightMeta, .space, .capsLock, .numLock, .scrollLock, .sysRq, .pause,
    .compose, .insert, .delete, .home, .endKey, .pageUp, .pageDown, .up, .down, .left, .right,
    .mute, .volumeDown, .volumeUp, .playPause, .nextSong, .previousSong, .f1, .f2, .f3, .f4, .f5,
    .f6, .f7, .f8, .f9, .f10, .f11, .f12, .f13, .f14, .f15, .f16, .f17, .f18, .f19, .f20]

/-- What is known of the system below the controller. -/
structure System where
  /-- Is it a system on which windows are switched with the command key? -/
  switchesWithCommand : Bool := false
  /-- The names that the controller does not have here. -/
  missing : List String := []

namespace System

/-- How the controller is given a key, if it can send it. -/
def stroke? (system : System) : Key → Option Stroke
  | .char t => some (.text t)
  | .code c =>
    if controllerName c ∈ system.missing then none else some (.named (controllerName c))

/-- The name of the key that switches windows together with tab. -/
def switcher (system : System) : String :=
  if system.switchesWithCommand then "cmd" else "alt"

end System

namespace Keyboard

/-- Goes on with the stroke for a key, if the controller can send it. -/
def withStroke (system : System) (key : Key) (send : Stroke → Act Unit) : Act Unit :=
  match system.stroke? key with
  | some stroke => send stroke
  | none => throw (.unsupported key)

/-- Goes on with the stroke for a name that has to exist. -/
def withName (system : System) (name : String) (send : Stroke → Act Unit) : Act Unit :=
  if name ∈ system.missing then throw (.unavailable name) else send (.named name)

/-- The keyboard that sends its keys through the system's controller. -/
def controller (system : System) (faults : Faults) : Keyboard :=
  let down (stroke : Stroke) : Act Unit := Act.call faults (.controllerPress stroke)
  let up (stroke : Stroke) : Act Unit := Act.call faults (.controllerRelease stroke)
  let click (stroke : Stroke) : Act Unit := do
    down stroke
    up stroke
  { press := fun key => withStroke system key down
    release := fun key => withStroke system key up
    click := fun key => withStroke system key click
    type := fun t => click (.text (.ofText t))
    focus := withName system system.switcher fun switcher => do
      Act.note .debug ("Cycling focus with " ++ switcher.described.str ++ "+tab")
      down switcher
      withName system "tab" down
      withName system "tab" up
      up switcher }

end Keyboard

end Typist
