import Typist.Key.Vocabulary
import Typist.Snippet.Basic

/-!
# Writing a line

A line is written back part by part. Text in which `$@` or `$!` occurs is written with their escapes
`$@$` and `$!$`; text in which `$'` or `$[` occurs cannot be written at all. An argument is written
with its default if defaults are given and it has one.
-/

namespace Typist

/-- Why a part cannot be written. -/
inductive RenderError
  /-- The text would be read as an opener. -/
  | unwritableText (content : Text)
  /-- The name would be read as something else. -/
  | unwritableName (name : Text)
  /-- The name and the default would be read as something else. -/
  | unwritableDefault (name value : Text)
  /-- The key has no name. -/
  | unnamedKey (key : Key)
  /-- The delay has more digits than a numeral may have. -/
  | numberTooLong
  /-- A value of another kind, shown as given, stands where a part is expected. -/
  | notAPart (shown : Text)
  deriving DecidableEq, Repr

/-- The message for a key without a name. -/
def unnamedKeyMessage (key : Key) : String :=
  key.shown.str ++ " has no name usable in a key combo"

/-- The wording of an error. -/
def RenderError.message : RenderError → String
  | unwritableText content => content.quoted.str ++ " cannot be written as snippet text"
  | unwritableName name => name.quoted.str ++ " cannot be written as an argument name"
  | unwritableDefault name value =>
    name.quoted.str ++ " cannot be written with default " ++ value.quoted.str
  | unnamedKey key => unnamedKeyMessage key
  | numberTooLong => "The delay has too many digits"
  | notAPart shown => "Unexpected line part " ++ shown.str

/-- The text with each `$@` and `$!` followed by a `$`. -/
def escaped : Text → Text
  | '$' :: '@' :: rest => '$' :: '@' :: '$' :: escaped rest
  | '$' :: '!' :: rest => '$' :: '!' :: '$' :: escaped rest
  | c :: rest => c :: escaped rest
  | [] => []

/-- The names of the keys of a combo. Half of a surrogate pair cannot stand in text and is
replaced. -/
def keyNames : List Key → Except RenderError (List Text)
  | [] => .ok []
  | key :: keys =>
    match key.name? with
    | none => .error (.unnamedKey key)
    | some name => (keyNames keys).map (name.text :: ·)

/-- Writes an argument, with its default if it has one. -/
def renderArg (name : Text) (default : Option Text) : Except RenderError Text :=
  if name = [] || name.contains '$' || Text.holds [':', ':'] name then .error (.unwritableName name)
  else
    match default with
    | none => .ok (['$', '@'] ++ name ++ ['$'])
    | some value =>
      if name.getLast? = some ':' || value.contains '$' then .error (.unwritableDefault name value)
      else .ok (['$', '@'] ++ name ++ [':', ':'] ++ value ++ ['$'])

/-- Writes a part. -/
def Part.render (defaults : Mapping Text Text) : Part → Except RenderError Text
  | text content =>
    if Text.holds ['$', '\''] content || Text.holds ['$', '['] content then
      .error (.unwritableText content)
    else .ok (escaped content)
  | delay milliseconds =>
    if exceedsDigitLimit milliseconds then .error .numberTooLong
    else .ok (['$', '\''] ++ Text.ofInt milliseconds ++ ['$'])
  | arg name => renderArg name (defaults.get? name)
  | combo keys =>
    (keyNames keys).map fun names => ['$', '!'] ++ Text.joined ['+'] names ++ ['$']

/-- What is written for a line whose parts are written as given; the first failure counts. -/
def renderedLine : List (Except RenderError Text) → Except RenderError Text
  | [] => .ok []
  | .error e :: _ => .error e
  | .ok t :: rest => (renderedLine rest).map (t ++ ·)

/-- Has every key a name without halves of surrogate pairs? Then what is written for the line is all
there is to it. -/
def Line.hasTextNames (line : Line) : Bool :=
  line.all fun
    | .combo keys => keys.all fun key => key.name?.all fun name => name = .ofText name.text
    | _ => true

/-- Writes a line. -/
def Line.render (defaults : Mapping Text Text) (line : Line) : Except RenderError Text :=
  renderedLine (line.map (Part.render defaults))

end Typist
