import Typist.Text.Character

/-!
# Command line arguments

A command line starts with options, and what follows the options is positional. A long option may be
shortened as long as it stays unique, and may have its value after an equals sign; short switches
may be written together, also with an equals sign after the first. A pair of dashes ends the
options. An argument that starts with a dash is still positional if it is a dash alone, looks like a
negative number, or has a space in it and starts no option.

Options take effect in their order, and nothing counts after one that asks for help. But switches
written together take effect only if all of them are known, and an argument that could be short for
several options is refused before any option takes effect, wherever it stands.
-/

namespace Typist.Command

/-- What an option says. -/
inductive OptionName
  | settings | verbose | dryRun | help
  deriving DecidableEq, Repr

/-- An option: how it may be written, and whether a value belongs to it. -/
structure OptionSpec where
  name : OptionName
  spellings : List String
  takesValue : Bool := false

/-- An option as given, with its value if it takes one. -/
structure Given where
  name : OptionName
  value : Text := []
  deriving DecidableEq, Repr

/-- Why arguments are not understood. -/
inductive UsageError
  | malformed
  deriving DecidableEq, Repr

/-- What one argument is taken for. -/
inductive Recognized
  | positional
  /-- An option, with what is attached to it; after a short spelling that may be further
  switches. -/
  | option (spec : OptionSpec) (attached : Option Text) (short : Bool)
  | unknown
  | ambiguous

/-- Is the character a decimal digit of some script? -/
def isDecimalDigit (c : Char) : Bool :=
  (decimalValue? c).isSome

/-- Is this the end of a text, where a line feed may be left? -/
def isEnd (t : Text) : Bool :=
  t = [] || t = ['\n']

/-- Does the text look like a negative number? -/
def isNegativeNumber : Text → Bool
  | '-' :: rest =>
    let (whole, rest) := rest.span isDecimalDigit
    match rest with
    | '.' :: rest =>
      let (fraction, rest) := rest.span isDecimalDigit
      fraction ≠ [] && isEnd rest
    | rest => whole ≠ [] && isEnd rest
  | _ => false

/-- The text before the first equals sign and the text after it, if it has one. -/
def splitEquals (t : Text) : Option (Text × Text) :=
  let (before, rest) := t.span (· ≠ '=')
  match rest with
  | [] => none
  | _ :: after => some (before, after)

/-- The options with their spellings, one by one. -/
def spelled (specs : List OptionSpec) : List (Text × OptionSpec) :=
  specs.flatMap fun spec => spec.spellings.map fun spelling => (spelling.toList, spec)

/-- Is the spelling a dash and a letter? -/
def isShort (spelling : Text) : Bool :=
  spelling.length = 2

/-- The options that an argument may be short for. -/
def candidates (specs : List OptionSpec) (t : Text) : List Recognized :=
  match t with
  | '-' :: '-' :: _ =>
    let (start, attached) :=
      match splitEquals t with
      | some (before, after) => (before, some after)
      | none => (t, none)
    (spelled specs).filterMap fun (spelling, spec) =>
      if start.isPrefixOf spelling then some (.option spec attached false) else none
  | _ =>
    (spelled specs).filterMap fun (spelling, spec) =>
      if spelling = t.take 2 then some (.option spec (some (t.drop 2)) true)
      else if t.isPrefixOf spelling then some (.option spec none false)
      else none

/-- The option of exactly that spelling. -/
def exactly? (specs : List OptionSpec) (t : Text) : Option OptionSpec :=
  (spelled specs).lookup t

/-- The option of exactly the spelling before an equals sign, with the value after it. -/
def attached? (specs : List OptionSpec) (t : Text) : Option Recognized := do
  let (before, after) ← splitEquals t
  return .option (← exactly? specs before) (some after) (isShort before)

/-- What an argument is taken for. -/
def recognize (specs : List OptionSpec) (t : Text) : Recognized :=
  if t.head? ≠ some '-' then .positional
  else
    match exactly? specs t with
    | some spec => .option spec none false
    | none =>
      if t = ['-'] then .positional
      else
        match attached? specs t with
        | some found => found
        | none =>
          match candidates specs t with
          | [found] => found
          | _ :: _ => .ambiguous
          | [] => if isNegativeNumber t || t.contains ' ' then .positional else .unknown

/-- The switches written together after the first. -/
def cluster (specs : List OptionSpec) : Text → Except UsageError (List Given)
  | [] => .ok []
  | c :: rest =>
    match exactly? specs ['-', c] with
    | some spec => (cluster specs rest).map (⟨spec.name, []⟩ :: ·)
    | none => .error .malformed

/-- The arguments as read: the options, whether there were options that are not known, and what
comes after the options. -/
structure Arguments where
  given : List Given := []
  unknown : Bool := false
  rest : List Text := []
  deriving DecidableEq, Repr

namespace Arguments

/-- Puts options before those read already. -/
def add (options : List Given) (arguments : Arguments) : Arguments :=
  { arguments with given := options ++ arguments.given }

/-- Was the option given? -/
def has (arguments : Arguments) (name : OptionName) : Bool :=
  arguments.given.any fun given => given.name = name

/-- The value of an option; of several the last counts. -/
def value? (arguments : Arguments) (name : OptionName) : Option Text :=
  ((arguments.given.filter fun given => given.name = name).getLast?).map Given.value

end Arguments

/-- Reads the options that the arguments start with, up to one that asks for help. -/
def leadingOptions (specs : List OptionSpec) : List Text → Except UsageError Arguments
  | [] => .ok {}
  | t :: rest =>
    if t = ['-', '-'] then .ok { rest := t :: rest }
    else
      match recognize specs t with
      | .positional => .ok { rest := t :: rest }
      | .ambiguous => .error .malformed
      | .unknown =>
        (leadingOptions specs rest).map fun arguments => { arguments with unknown := true }
      | .option spec none _ =>
        if spec.name = .help then .ok { given := [⟨.help, []⟩] }
        else if spec.takesValue then
          match rest with
          | [] => .error .malformed
          | value :: rest =>
            if value = ['-', '-'] then .error .malformed
            else
              match recognize specs value with
              | .positional => (leadingOptions specs rest).map (·.add [⟨spec.name, value⟩])
              | _ => .error .malformed
        else (leadingOptions specs rest).map (·.add [⟨spec.name, []⟩])
      | .option spec (some value) short =>
        if spec.takesValue then (leadingOptions specs rest).map (·.add [⟨spec.name, value⟩])
        else if short && value ≠ [] then
          match cluster specs value with
          | .error e => .error e
          | .ok others =>
            let given : List Given := ⟨spec.name, []⟩ :: others
            if given.any fun given => given.name = .help then .ok { given }
            else (leadingOptions specs rest).map (·.add given)
        else .error .malformed

/-- Is an argument ambiguous that stands before any pair of dashes? -/
def hasAmbiguous (specs : List OptionSpec) (arguments : List Text) : Bool :=
  (arguments.takeWhile (· ≠ ['-', '-'])).any fun t =>
    match recognize specs t with
    | .ambiguous => true
    | _ => false

/-- Reads arguments that may start with options. -/
def readOptions (specs : List OptionSpec) (arguments : List Text) : Except UsageError Arguments :=
  if hasAmbiguous specs arguments then .error .malformed else leadingOptions specs arguments

/-- The first positional argument and the arguments after it. A pair of dashes in front of it, or
else right after it, is dropped. -/
def firstPositional : List Text → Option Text × List Text
  | [] => (none, [])
  | t :: rest =>
    if t = ['-', '-'] then
      match rest with
      | [] => (none, [])
      | first :: rest => (some first, rest)
    else
      match rest with
      | dashes :: others => if dashes = ['-', '-'] then (some t, others) else (some t, rest)
      | [] => (some t, [])

end Typist.Command
