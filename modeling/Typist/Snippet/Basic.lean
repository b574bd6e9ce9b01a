import Typist.Key.Basic
import Typist.Mapping
import Typist.Snippet.Diagnostic
import Typist.Text.Utf8

/-!
# Snippets

A snippet is a list of lines, and a line is a list of parts: text to type, a delay, an argument
whose value is typed, or a key combo. With its lines a snippet carries the default values that
arguments declare and the diagnostics of what was corrected while reading it.
-/

namespace Typist

/-- A part of a line. -/
inductive Part
  /-- Text to type. -/
  | text (content : Text)
  /-- A pause of some milliseconds. -/
  | delay (milliseconds : Int)
  /-- The value of an argument, to type. -/
  | arg (name : Text)
  /-- Keys to play as a chord. -/
  | combo (keys : List Key)
  deriving DecidableEq, Repr

/-- The parts of a logical line. -/
abbrev Line := List Part

namespace Part

/-- The form in which a part is shown when it cannot be written as snippet text. -/
def shown : Part → Text
  | text content => "Text(text=".toList ++ content.quoted ++ [')']
  | delay milliseconds => "Delay(milliseconds=".toList ++ Text.ofInt milliseconds ++ [')']
  | arg name => "Arg(name=".toList ++ name.quoted ++ [')']
  | combo keys =>
    let inside :=
      match keys with
      | [key] => key.shown ++ [',']
      | keys => Text.joined ", ".toList (keys.map Key.shown)
    "KeyCombo(keys=(".toList ++ inside ++ "))".toList

/-- The name of the argument, if the part is one. -/
def argName? : Part → Option Text
  | arg name => some name
  | _ => none

end Part

namespace Line

/-- The form in which a line is shown when it cannot be written as snippet text. -/
def shown (line : Line) : Text :=
  '[' :: Text.joined ", ".toList (line.map Part.shown) ++ [']']

/-- A line is a comment if it opens with literal text that starts with `##`. A line that opens with
an argument never is one. -/
def isComment : Line → Bool
  | .text ('#' :: '#' :: _) :: _ => true
  | _ => false

end Line

/-- A snippet, or as much of it as has been read. -/
structure Snippet where
  lines : List Line := []
  defaults : Mapping Text Text := {}
  diagnostics : Diagnostics := []

namespace Snippet

/-- The names of the arguments, in the order of their first use. -/
def argumentNames (s : Snippet) : List Text :=
  (s.lines.flatMap fun line => line.filterMap Part.argName?).eraseDups

/-- Records that a problem was corrected. -/
def note (s : Snippet) (kind : DiagnosticKind) (line : Int) (message : String) : Snippet :=
  { s with diagnostics := s.diagnostics ++ [⟨kind, line, message⟩] }

end Snippet

/-- Why a snippet does not read. -/
inductive SnippetFault
  /-- A delay is not a whole number of milliseconds. -/
  | malformedDelay (body : Text)
  /-- A combo names no key. -/
  | unknownKeyToken (token : Text)
  /-- A list of arguments. -/
  | argumentList
  /-- The bytes are not UTF-8. -/
  | undecodable (reason : String)
  /-- A fault of no particular kind. -/
  | other (message : String)
  deriving DecidableEq, Repr

/-- A fault of a snippet, with the line it is on where that is known. -/
structure SnippetError where
  fault : SnippetFault
  line : Option Int
  deriving DecidableEq, Repr

namespace SnippetError

/-- The wording of a fault, without its line. -/
def body : SnippetFault → String
  | .malformedDelay body => "Delay `$'" ++ body.str ++ "$` must be a whole number of milliseconds"
  | .unknownKeyToken token => "Unknown key `" ++ token.str ++ "` in key combo"
  | .argumentList => "Argument lists (`$[`) are not supported"
  | .undecodable reason => "Snippet is not valid UTF-8: " ++ reason
  | .other message => message

/-- The message of a snippet error; it starts with the line where that is known. -/
def message (e : SnippetError) : String :=
  match e.line with
  | some line => "line " ++ (Text.ofInt line).str ++ ": " ++ body e.fault
  | none => body e.fault

end SnippetError

/-- Why reading a snippet stops. -/
inductive ReadError
  /-- The snippet is at fault. -/
  | snippet (error : SnippetError)
  /-- A delay is a whole number of more digits than a numeral may have. -/
  | numberTooLong
  deriving DecidableEq, Repr

end Typist
