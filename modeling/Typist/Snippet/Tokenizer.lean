import Typist.Snippet.Basic

/-!
# Reading a logical line

A line is read from left to right. Text runs up to an opener: `$'` opens a delay, `$@` an argument
and `$!` a key combo, and each runs up to the next `$`. A `$` before anything else is literal. An
argument may give its default after `::`; a combo is made of key names with `+` or spaces between
them. An argument without a name, as in `$@$`, stands for the text `$@`, and a combo without a key
for the text `$!`. A part that the end of the line leaves open is closed as if a `$` followed.

`Scan` is what has been read of a line. Literal text is kept back in `pending` until the next part
other than text, so that text which only escapes hold apart becomes one part.

Reading works on the snippet read so far. A line that fails leaves the snippet's lines alone;
defaults and diagnostics that it gave before the fault stay.
-/

namespace Typist

/-- Names keys by tokens. -/
abbrev KeyLookup := Text → Option Key

/-- What surrounds a line that is read: the meaning of its key names, and its number. -/
structure LineContext where
  lookup : KeyLookup
  number : Int

/-- Reading that works on a snippet, and keeps what it did to it when it fails. -/
abbrev Reading := EStateM ReadError Snippet

/-- The part of a line that is being read. -/
inductive Mode
  | text
  | delay (body : Text)
  | arg (name : Text) (default : Option Text)
  /-- The tokens that are complete, and the one that may go on. -/
  | combo (tokens : List Text) (token : Text)
  deriving DecidableEq, Repr

/-- What has been read of a line: its parts, the text that no part holds yet, and the open part. -/
structure Scan where
  parts : Line := []
  pending : Text := []
  mode : Mode := .text
  deriving DecidableEq, Repr

namespace Scan

/-- Opens a part. -/
def opened (s : Scan) (mode : Mode) : Scan :=
  { s with mode }

/-- Goes on with text, adding some. -/
def literal (s : Scan) (t : Text) : Scan :=
  ⟨s.parts, s.pending ++ t, .text⟩

/-- The parts read, with the pending text as the last of them. -/
def flushed (s : Scan) : Line :=
  if s.pending = [] then s.parts else s.parts ++ [.text s.pending]

/-- Adds a part other than text and goes on with text. -/
def added (s : Scan) (part : Part) : Scan :=
  ⟨s.flushed ++ [part], [], .text⟩

end Scan

/-- The separators of key names in a combo. -/
def isComboSeparator (c : Char) : Bool :=
  c = '+' || c = ' '

/-- The token that may go on is complete; an empty one is dropped. -/
def endToken (tokens : List Text) (token : Text) : List Text :=
  if token = [] then tokens else tokens ++ [token]

namespace LineContext

/-- Fails with a fault of the line. -/
def fail {α : Type} (ctx : LineContext) (fault : SnippetFault) : Reading α :=
  throw (.snippet ⟨fault, some ctx.number⟩)

/-- Records a diagnostic of the line. -/
def note (ctx : LineContext) (kind : DiagnosticKind) (message : String) : Reading Unit :=
  modify fun s => s.note kind ctx.number message

/-- Closes a delay, which must be a number in ASCII digits. -/
def closeDelay (ctx : LineContext) (s : Scan) (body : Text) : Reading Scan :=
  if body = [] || !body.all Char.isDigit then ctx.fail (.malformedDelay body)
  else if digitLimit < body.length then throw .numberTooLong
  else return s.added (.delay body.value)

/-- Declares a default; a value it takes the place of is worth a diagnostic. -/
def declare (ctx : LineContext) (name value : Text) : Reading Unit := do
  let previous := (← get).defaults.get? name
  modify fun s => { s with defaults := s.defaults.set name value }
  match previous with
  | none => return ()
  | some previous =>
    ctx.note .duplicateDefault
      ("Duplicate default value for argument `" ++ name.str ++ "`. Previous value `" ++
        previous.str ++ "` will be ignored.")

/-- Closes an argument. Without a name it is the text `$@`, whatever its default. -/
def closeArg (ctx : LineContext) (s : Scan) (name : Text) (default : Option Text) :
    Reading Scan := do
  if name = [] then return s.literal ['$', '@']
  match default with
  | none => return s.added (.arg name)
  | some value =>
    ctx.declare name value
    return s.added (.arg name)

/-- The keys that the tokens name. -/
def keys (ctx : LineContext) : List Text → Reading (List Key)
  | [] => return []
  | token :: tokens =>
    match ctx.lookup token with
    | none => ctx.fail (.unknownKeyToken token)
    | some key => return key :: (← ctx.keys tokens)

/-- Closes a combo. Without a token it is the text `$!`. -/
def closeCombo (ctx : LineContext) (s : Scan) (tokens : List Text) : Reading Scan :=
  match tokens with
  | [] => return s.literal ['$', '!']
  | tokens => return s.added (.combo (← ctx.keys tokens))

/-- The diagnostic for an argument that the end of the line leaves open. -/
def noteOpenArg (ctx : LineContext) (name : Text) (default : Option Text) : Reading Unit :=
  let escape := " is incomplete, you might've wanted to complete it or escape it with `$@$`. "
  let message :=
    if name = [] then
      "Argument `$@`" ++ escape ++ "Autocompleting as `$@$` (text \"$@\")."
    else
      let written := (name ++ (default.map (':' :: ':' :: ·)).getD []).str
      "Argument `$@" ++ written ++ "`" ++ escape ++ "Autocompleting as `$@" ++
        written ++ "$` (arg)."
  ctx.note .incompleteArg message

/-- The diagnostic for a combo that the end of the line leaves open. -/
def noteOpenCombo (ctx : LineContext) (tokens : List Text) : Reading Unit :=
  let combo := (Text.joined ['+'] (tokens.map fun token => '`' :: token ++ ['`'])).str
  let result := if tokens = [] then "text \"$!\"" else "key combo"
  ctx.note .incompleteCombo
    ("Key combo `$!" ++ combo ++
      "` is incomplete, you might've wanted to complete it or escape it with " ++
      "`$!$`. Autocompleting as `$!" ++ combo ++ "$` (" ++ result ++ ").")

/-- Closes what the end of the line leaves open. -/
def finish (ctx : LineContext) (s : Scan) : Reading Line :=
  match s.mode with
  | .text => return s.flushed
  | .delay body => return (← ctx.closeDelay s body).flushed
  | .arg name default => do
    ctx.noteOpenArg name default
    return (← ctx.closeArg s name default).flushed
  | .combo tokens token => do
    ctx.noteOpenCombo (endToken tokens token)
    return (← ctx.closeCombo s (endToken tokens token)).flushed

/-- Reads the rest of a line. -/
def scan (ctx : LineContext) (s : Scan) : Text → Reading Line
  | [] => ctx.finish s
  | c :: rest =>
    match s.mode with
    | .text =>
      if c = '$' then
        match rest with
        | '\'' :: rest => ctx.scan (s.opened (.delay [])) rest
        | '@' :: rest => ctx.scan (s.opened (.arg [] none)) rest
        | '!' :: rest => ctx.scan (s.opened (.combo [] [])) rest
        | '[' :: _ => ctx.fail .argumentList
        | rest => ctx.scan (s.literal ['$']) rest
      else ctx.scan (s.literal [c]) rest
    | .delay body =>
      if c = '$' then do ctx.scan (← ctx.closeDelay s body) rest
      else ctx.scan (s.opened (.delay (body ++ [c]))) rest
    | .arg name (some value) =>
      if c = '$' then do ctx.scan (← ctx.closeArg s name (some value)) rest
      else ctx.scan (s.opened (.arg name (some (value ++ [c])))) rest
    | .arg name none =>
      if c = '$' then do ctx.scan (← ctx.closeArg s name none) rest
      else if c = ':' then
        match rest with
        | ':' :: rest => ctx.scan (s.opened (.arg name (some []))) rest
        | rest => ctx.scan (s.opened (.arg (name ++ [':']) none)) rest
      else ctx.scan (s.opened (.arg (name ++ [c]) none)) rest
    | .combo tokens token =>
      if isComboSeparator c then ctx.scan (s.opened (.combo (endToken tokens token) [])) rest
      else if c = '$' then do ctx.scan (← ctx.closeCombo s (endToken tokens token)) rest
      else ctx.scan (s.opened (.combo tokens (token ++ [c]))) rest

/-- Reads a logical line and adds it to the snippet. -/
def readLine (ctx : LineContext) (line : Text) : Reading Line := do
  let parts ← ctx.scan {} line
  modify fun s => { s with lines := s.lines ++ [parts] }
  return parts

end LineContext

end Typist
