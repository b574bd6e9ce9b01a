import Typist.Text.CodePoint

/-!
# Keys and key events

A key is a named key or the key that types a given text, normally a single character. Named keys go
by the Linux input event codes, the most complete public list of keyboard keys; a key that just
types a character has no code here. Modifiers that exist on both sides of a keyboard are two codes
each. The text of a key is made of code points, since settings can name a key that types half of a
surrogate pair.

A key event is the press or the release of a key.
-/

namespace Typist

/-! ## Key codes -/

/-- A named key. -/
inductive KeyCode
  | esc | backspace | tab | enter | leftCtrl | leftShift | rightShift | leftAlt | space | capsLock
  | f1 | f2 | f3 | f4 | f5 | f6 | f7 | f8 | f9 | f10 | numLock | scrollLock | f11 | f12 | rightCtrl
  | sysRq | rightAlt | home | up | pageUp | left | right | endKey | down | pageDown | insert
  | delete | mute | volumeDown | volumeUp | pause | leftMeta | rightMeta | compose | nextSong
  | playPause | previousSong | f13 | f14 | f15 | f16 | f17 | f18 | f19 | f20
  deriving DecidableEq, Repr

namespace KeyCode

/-- The codes in rising order. -/
def all : List KeyCode :=
  [.esc, .backspace, .tab, .enter, .leftCtrl, .leftShift, .rightShift, .leftAlt, .space, .capsLock,
    .f1, .f2, .f3, .f4, .f5, .f6, .f7, .f8, .f9, .f10, .numLock, .scrollLock, .f11, .f12,
    .rightCtrl, .sysRq, .rightAlt, .home, .up, .pageUp, .left, .right, .endKey, .down, .pageDown,
    .insert, .delete, .mute, .volumeDown, .volumeUp, .pause, .leftMeta, .rightMeta, .compose,
    .nextSong, .playPause, .previousSong, .f13, .f14, .f15, .f16, .f17, .f18, .f19, .f20]

/-- The name of the input event code. -/
def name : KeyCode → String
  | .esc => "KEY_ESC"
  | .backspace => "KEY_BACKSPACE"
  | .tab => "KEY_TAB"
  | .enter => "KEY_ENTER"
  | .leftCtrl => "KEY_LEFTCTRL"
  | .leftShift => "KEY_LEFTSHIFT"
  | .rightShift => "KEY_RIGHTSHIFT"
  | .leftAlt => "KEY_LEFTALT"
  | .space => "KEY_SPACE"
  | .capsLock => "KEY_CAPSLOCK"
  | .f1 => "KEY_F1"
  | .f2 => "KEY_F2"
  | .f3 => "KEY_F3"
  | .f4 => "KEY_F4"
  | .f5 => "KEY_F5"
  | .f6 => "KEY_F6"
  | .f7 => "KEY_F7"
  | .f8 => "KEY_F8"
  | .f9 => "KEY_F9"
  | .f10 => "KEY_F10"
  | .numLock => "KEY_NUMLOCK"
  | .scrollLock => "KEY_SCROLLLOCK"
  | .f11 => "KEY_F11"
  | .f12 => "KEY_F12"
  | .rightCtrl => "KEY_RIGHTCTRL"
  | .sysRq => "KEY_SYSRQ"
  | .rightAlt => "KEY_RIGHTALT"
  | .home => "KEY_HOME"
  | .up => "KEY_UP"
  | .pageUp => "KEY_PAGEUP"
  | .left => "KEY_LEFT"
  | .right => "KEY_RIGHT"
  | .endKey => "KEY_END"
  | .down => "KEY_DOWN"
  | .pageDown => "KEY_PAGEDOWN"
  | .insert => "KEY_INSERT"
  | .delete => "KEY_DELETE"
  | .mute => "KEY_MUTE"
  | .volumeDown => "KEY_VOLUMEDOWN"
  | .volumeUp => "KEY_VOLUMEUP"
  | .pause => "KEY_PAUSE"
  | .leftMeta => "KEY_LEFTMETA"
  | .rightMeta => "KEY_RIGHTMETA"
  | .compose => "KEY_COMPOSE"
  | .nextSong => "KEY_NEXTSONG"
  | .playPause => "KEY_PLAYPAUSE"
  | .previousSong => "KEY_PREVIOUSSONG"
  | .f13 => "KEY_F13"
  | .f14 => "KEY_F14"
  | .f15 => "KEY_F15"
  | .f16 => "KEY_F16"
  | .f17 => "KEY_F17"
  | .f18 => "KEY_F18"
  | .f19 => "KEY_F19"
  | .f20 => "KEY_F20"

/-- The number of the input event code. -/
def number : KeyCode → Nat
  | .esc => 1
  | .backspace => 14
  | .tab => 15
  | .enter => 28
  | .leftCtrl => 29
  | .leftShift => 42
  | .rightShift => 54
  | .leftAlt => 56
  | .space => 57
  | .capsLock => 58
  | .f1 => 59
  | .f2 => 60
  | .f3 => 61
  | .f4 => 62
  | .f5 => 63
  | .f6 => 64
  | .f7 => 65
  | .f8 => 66
  | .f9 => 67
  | .f10 => 68
  | .numLock => 69
  | .scrollLock => 70
  | .f11 => 87
  | .f12 => 88
  | .rightCtrl => 97
  | .sysRq => 99
  | .rightAlt => 100
  | .home => 102
  | .up => 103
  | .pageUp => 104
  | .left => 105
  | .right => 106
  | .endKey => 107
  | .down => 108
  | .pageDown => 109
  | .insert => 110
  | .delete => 111
  | .mute => 113
  | .volumeDown => 114
  | .volumeUp => 115
  | .pause => 119
  | .leftMeta => 125
  | .rightMeta => 126
  | .compose => 127
  | .nextSong => 163
  | .playPause => 164
  | .previousSong => 165
  | .f13 => 183
  | .f14 => 184
  | .f15 => 185
  | .f16 => 186
  | .f17 => 187
  | .f18 => 188
  | .f19 => 189
  | .f20 => 190

/-- The key code with the given name. -/
def ofName? (name : String) : Option KeyCode :=
  all.find? fun code => code.name = name

end KeyCode

/-! ## Keys -/

/-- A key of the keyboard. -/
inductive Key
  /-- A named key. -/
  | code (code : KeyCode)
  /-- The key that types the text. -/
  | char (text : CodePoints)
  deriving DecidableEq, Repr

/-- The form in which messages show a key. -/
def Key.shown : Key → Text
  | .code c => "<KeyCode.".toList ++ c.name.toList ++ ": ".toList ++ Text.ofNat c.number ++ ['>']
  | .char t => "CharKey(char=".toList ++ t.quoted ++ [')']

/-- A press or a release of a key. -/
inductive KeyEvent
  | press (key : Key)
  | release (key : Key)
  deriving DecidableEq, Repr

namespace KeyEvent

/-- The key that is pressed or released. -/
def key : KeyEvent → Key
  | press key => key
  | release key => key

/-- Is the event a press? -/
def isPress : KeyEvent → Bool
  | press _ => true
  | release _ => false

/-- The line that shows the event in a dry run. -/
def described (event : KeyEvent) : Text :=
  let action := if event.isPress then "press ".toList else "release ".toList
  match event.key with
  | .code c => action ++ c.name.toList
  | .char t => action ++ t.quoted

end KeyEvent

end Typist
