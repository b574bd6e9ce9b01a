import Typist.Duration.Reader
import Typist.Duration.Writer
import Typist.Json.Reader
import Typist.Json.Writer
import Typist.Key.Vocabulary
import Typist.Text.Character
import Typist.Text.Utf8

/-!
# Settings

How snippets are played: the pauses, whether the window is switched first, whether delays count, the
key that ends a line, and other names for keys. Settings are kept in a JSON file.

Loading is all or nothing. Each field of the file is converted to what the field holds: a delay is a
number of milliseconds or a written duration, a switch is anything, taken as true or false, and a
name is anything, taken as text. What is not in the file keeps its default. One field that does not
convert fails the whole file, and so does a commit key that names no key. A name may hold halves of
surrogate pairs.

A document is made into settings by a structuring library, and `find`, `field`, `aliasesOf` and
`ofJson` stand for what its documentation says it does with each field. It asks the document whether
it holds the name of the field, takes the default if it does not, and converts the value by the type
of the field if it does. A field that fails does not keep the others from being converted: the
failures are collected, and the error tells how many there are. Nothing else about the library is
assumed.
-/

namespace Typist

/-- How snippets are played. -/
structure Settings where
  /-- The pause after each character typed. -/
  charDelay : Duration := ⟨10000, by decide⟩
  /-- The pause before each line, which gives the application time to settle. -/
  lineDelay : Duration := ⟨100000, by decide⟩
  /-- Is the previous window switched to before anything is typed? -/
  focusCycle : Bool := true
  /-- Do the delays of a snippet pause? -/
  honorDelays : Bool := true
  /-- The name of the key that ends a line. -/
  commitKey : CodePoints := .ofText "enter".toList
  /-- Other names for keys. -/
  keyAliases : Aliases := {}
  deriving DecidableEq

/-- Why a file cannot be opened for reading. -/
inductive FileError
  | notFound | isDirectory | notADirectory | nameTooLong
  /-- The path holds the null character. -/
  | nullCharacter
  deriving DecidableEq, Repr

/-- The message for a file that cannot be opened. -/
def FileError.message (path : Text) : FileError → String
  | notFound => "[Errno 2] No such file or directory: " ++ path.quoted.str
  | isDirectory => "[Errno 21] Is a directory: " ++ path.quoted.str
  | notADirectory => "[Errno 20] Not a directory: " ++ path.quoted.str
  | nameTooLong => "[Errno 36] File name too long: " ++ path.quoted.str
  | nullCharacter => "embedded null byte"

/-- What is wrong with a settings file. -/
inductive SettingsFault
  /-- The file cannot be opened. -/
  | unreadable (error : FileError)
  /-- The file is not UTF-8. -/
  | undecodable (failure : Utf8.Failure)
  /-- The file is not JSON. -/
  | malformed (flaw : Json.Flaw) (place : Json.Place)
  /-- The file has an integer of so many digits, which are too many. -/
  | numberTooLong (digits : Nat)
  /-- The document is of a kind that cannot have fields. -/
  | noFields (kind : String)
  /-- So many fields do not convert. -/
  | badFields (count : Nat)
  /-- The commit key names no key. -/
  | unknownCommitKey (error : UnknownKey)
  deriving DecidableEq, Repr

/-- A settings file at fault. -/
structure SettingsError where
  path : Text
  fault : SettingsFault
  deriving DecidableEq, Repr

/-- Why settings do not load. -/
inductive LoadError
  /-- The settings file is at fault. -/
  | settings (error : SettingsError)
  /-- The document is nested too deeply to be read. -/
  | tooDeep
  deriving DecidableEq, Repr

/-- The wording of an error. -/
def SettingsError.message (e : SettingsError) : String :=
  let unloadable (why : String) := "Could not load settings from " ++ e.path.str ++ ": " ++ why
  match e.fault with
  | .unreadable error => unloadable (error.message e.path)
  | .undecodable failure => unloadable failure.message
  | .malformed flaw place => unloadable (flaw.message ++ ": " ++ place.message)
  | .numberTooLong digits =>
    unloadable ("Exceeds the limit (" ++ (Text.ofNat digitLimit).str ++
      " digits) for integer string conversion: value has " ++ (Text.ofNat digits).str ++
      " digits; use sys.set_int_max_str_digits() to increase the limit")
  | .noFields kind => unloadable ("argument of type '" ++ kind ++ "' is not iterable")
  | .badFields count =>
    unloadable ("While structuring Settings (" ++ (Text.ofNat count).str ++ " sub-exception" ++
      (if count = 1 then "" else "s") ++ ")")
  | .unknownCommitKey error => "Unknown commit key in " ++ e.path.str ++ ": " ++ error.message

namespace Settings

/-- The settings that hold where nothing else is said. -/
def standard : Settings := {}

/-- Settings without pauses and without switching windows. -/
def unhurried : Settings :=
  { charDelay := .zero, lineDelay := .zero, focusCycle := false }

/-- The key that ends a line. -/
def commit (s : Settings) : Except UnknownKey Key :=
  Key.lookup s.keyAliases s.commitKey

/-- The meaning of key names under the settings. -/
def keyLookup (s : Settings) : Text → Option Key := fun token =>
  (Key.lookup s.keyAliases (.ofText token)).toOption

/-! ## Writing -/

/-- The settings as a document. -/
def toJson (s : Settings) : Json :=
  .record [
    ("char_delay", .text s.charDelay.text),
    ("line_delay", .text s.lineDelay.text),
    ("focus_cycle", .bool s.focusCycle),
    ("honor_delays", .bool s.honorDelays),
    ("commit_key", .str s.commitKey),
    ("key_aliases", .obj (s.keyAliases.entries.map fun e => (e.1, .str e.2)))]

/-- The text of the file that the settings are saved in. -/
def saved (s : Settings) : Text :=
  s.toJson.indented

/-! ## Reading -/

/-- What a document has under a name. -/
inductive Found
  | absent
  /-- There is something of the name that has no value. -/
  | valueless
  | value (value : Json)

/-- What a document has under a name. A list or a text may hold the name, but gives it no value. -/
def find (name : Text) : Json → Found
  | .obj fields => (fields.lookup (.ofText name)).elim .absent .value
  | .arr items =>
    if items.any (fun item => match item with | .str p => p = .ofText name | _ => false) then
      .valueless
    else .absent
  | .str p => if Text.holds name p.text then .valueless else .absent
  | _ => .absent

/-- The kind of a document that cannot be asked for names at all. -/
def namelessKind? : Json → Option String
  | .null => some "NoneType"
  | .bool _ => some "bool"
  | .int _ => some "int"
  | .float _ => some "float"
  | _ => none

/-- A field of a document, or its default; nothing if it does not convert. -/
def field {α : Type} (document : Json) (name : String) (convert : Json → Option α)
    (default : α) : Option α :=
  match find name.toList document with
  | .absent => some default
  | .valueless => none
  | .value value => convert value

/-- A delay: a number of milliseconds, true and false counting as one and zero, or a written
duration. -/
def delayOf : Json → Option Duration
  | .int n => Duration.ofMillis? n
  | .bool b => Duration.ofMillis? (if b then 1 else 0)
  | .str p => (Duration.parse p.text).toOption
  | _ => none

/-- Other names for keys: an object whose values are taken as text. -/
def aliasesOf : Json → Option Aliases
  | .obj fields => some (.ofList (fields.map fun e => (e.1, e.2.asText)))
  | _ => none

/-- How many of the outcomes are failures. -/
def failures (outcomes : List Bool) : Nat :=
  outcomes.count false

/-- The settings that a document describes. -/
def ofJson (document : Json) : Except SettingsFault Settings :=
  match namelessKind? document with
  | some kind => .error (.noFields kind)
  | none =>
    let defaults := standard
    let charDelay := field document "char_delay" delayOf defaults.charDelay
    let lineDelay := field document "line_delay" delayOf defaults.lineDelay
    let focusCycle := field document "focus_cycle" (some ·.isTrue) defaults.focusCycle
    let honorDelays := field document "honor_delays" (some ·.isTrue) defaults.honorDelays
    let commitKey := field document "commit_key" (some ·.asText) defaults.commitKey
    let keyAliases := field document "key_aliases" aliasesOf defaults.keyAliases
    match charDelay, lineDelay, focusCycle, honorDelays, commitKey, keyAliases with
    | some charDelay, some lineDelay, some focusCycle, some honorDelays, some commitKey,
      some keyAliases =>
      .ok ⟨charDelay, lineDelay, focusCycle, honorDelays, commitKey, keyAliases⟩
    | _, _, _, _, _, _ =>
      .error (.badFields (failures [charDelay.isSome, lineDelay.isSome, focusCycle.isSome,
        honorDelays.isSome, commitKey.isSome, keyAliases.isSome]))

/-- The text of a file. Lines may end in any of the usual ways. -/
def textOf (content : Except FileError (List UInt8)) : Except SettingsFault Text :=
  match content with
  | .error e => .error (.unreadable e)
  | .ok bytes =>
    match Utf8.decode bytes with
    | .error failure => .error (.undecodable failure)
    | .ok t => .ok t.lineFeeds

/-- The settings that a document describes, provided that their commit key names a key. -/
def checked (document : Json) : Except SettingsFault Settings :=
  match ofJson document with
  | .error fault => .error fault
  | .ok s =>
    match s.commit with
    | .error e => .error (.unknownCommitKey e)
    | .ok _ => .ok s

/-- The settings in the file of the given path and content, whose document may be nested so many
levels. -/
def load (path : Text) (content : Except FileError (List UInt8))
    (levels : Nat := Json.nestingLimit) : Except LoadError Settings :=
  let refused (fault : SettingsFault) : Except LoadError Settings :=
    .error (.settings ⟨path, fault⟩)
  match textOf content with
  | .error fault => refused fault
  | .ok t =>
    match Json.parse t levels with
    | .error (.malformed flaw left) => refused (.malformed flaw (.of t left))
    | .error (.numberTooLong digits) => refused (.numberTooLong digits)
    | .error .tooDeep => .error .tooDeep
    | .ok document =>
      match checked document with
      | .error fault => refused fault
      | .ok s => .ok s

end Settings

end Typist
