import Typist.Key.Basic
import Typist.Mapping
import Typist.Text.Character

/-!
# The names of keys

The vocabulary of key names inside a key combo. A token of a single character names the key that
types it, in the case given. Any other token is looked up without regard to case. The first name
listed for a key is the one it is written with.
-/

namespace Typist

/-- The names of the named keys. -/
def namedKeys : List (String × KeyCode) :=
  [("ctrl", .leftCtrl), ("control", .leftCtrl), ("leftctrl", .leftCtrl), ("rightctrl", .rightCtrl),
    ("alt", .leftAlt), ("option", .leftAlt), ("leftalt", .leftAlt), ("rightalt", .rightAlt),
    ("altgr", .rightAlt), ("shift", .leftShift), ("leftshift", .leftShift),
    ("rightshift", .rightShift), ("meta", .leftMeta), ("super", .leftMeta), ("cmd", .leftMeta),
    ("command", .leftMeta), ("win", .leftMeta), ("windows", .leftMeta), ("leftmeta", .leftMeta),
    ("rightmeta", .rightMeta), ("enter", .enter), ("return", .enter), ("tab", .tab), ("esc", .esc),
    ("escape", .esc), ("space", .space), ("backspace", .backspace), ("delete", .delete),
    ("del", .delete), ("insert", .insert), ("ins", .insert), ("home", .home), ("end", .endKey),
    ("pageup", .pageUp), ("pgup", .pageUp), ("pagedown", .pageDown), ("pgdn", .pageDown),
    ("up", .up), ("down", .down), ("left", .left), ("right", .right), ("capslock", .capsLock),
    ("numlock", .numLock), ("scrolllock", .scrollLock), ("printscreen", .sysRq), ("prtsc", .sysRq),
    ("pause", .pause), ("menu", .compose), ("playpause", .playPause), ("nexttrack", .nextSong),
    ("prevtrack", .previousSong), ("volumeup", .volumeUp), ("volumedown", .volumeDown),
    ("mute", .mute), ("f1", .f1), ("f2", .f2), ("f3", .f3), ("f4", .f4), ("f5", .f5), ("f6", .f6),
    ("f7", .f7), ("f8", .f8), ("f9", .f9), ("f10", .f10), ("f11", .f11), ("f12", .f12),
    ("f13", .f13), ("f14", .f14), ("f15", .f15), ("f16", .f16), ("f17", .f17), ("f18", .f18),
    ("f19", .f19), ("f20", .f20)]

/-- The names of the characters that cannot stand in a combo themselves. -/
def namedCharacters : List (String × Char) :=
  [("plus", '+'), ("dollar", '$')]

/-- Other names for tokens, by the name that is used. -/
abbrev Aliases := Mapping CodePoints CodePoints

/-- A token that names no key. -/
structure UnknownKey where
  token : CodePoints
  deriving DecidableEq, Repr

/-- Tells that no key has the name. -/
def UnknownKey.message (e : UnknownKey) : String :=
  e.token.quoted.str

namespace Key

/-- The key that a token names when no alias applies. -/
def named? (token : CodePoints) : Option Key :=
  match token with
  | [c] => some (.char [c])
  | _ =>
    let name := token.text.lower.str
    match namedKeys.lookup name with
    | some c => some (.code c)
    | none => (namedCharacters.lookup name).map fun c => .char [.char c]

/-- The key that a token names, after its alias if it has one. -/
def lookup (aliases : Aliases) (token : CodePoints) : Except UnknownKey Key :=
  let token := (aliases.get? token).getD token
  match named? token with
  | some key => .ok key
  | none => .error ⟨token⟩

/-- The first name of the vocabulary for the key. -/
def canonicalName? : Key → Option String
  | .code c => (namedKeys.find? fun e => e.2 = c).map Prod.fst
  | .char t => (namedCharacters.find? fun e => [CodePoint.char e.2] = t).map Prod.fst

/-- The name that a key is written with in a combo. A key that types blanks has none. -/
def name? (key : Key) : Option CodePoints :=
  match key.canonicalName?, key with
  | some name, _ => some (.ofText name.toList)
  | none, .code _ => none
  | none, .char t => if t ≠ [] && t.text.all isBlank then none else some t

end Key

/-- The first name listed for each key, in the order of the list. -/
def canonicalNames : List (Key × String) :=
  let keys :=
    namedKeys.map (fun e => Key.code e.2) ++ namedCharacters.map (fun e => Key.char [.char e.2])
  keys.eraseDups.filterMap fun key => key.canonicalName?.map fun name => (key, name)

end Typist
