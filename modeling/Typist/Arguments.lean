import Typist.Snippet.Basic
import Typist.Text.Character

/-!
# Argument values

A snippet is played with a value for each of its arguments. Values may be supplied as names and
values in turn, and what is missing then is asked for: every missing name once, in reading order.
The question shows the declared default, which an empty answer stands for; without a default an
empty answer is an empty value.

How a question is put is up to the caller: asking is an action that may fail and that works on a
state of its own.
-/

namespace Typist

/-- Why there are no argument values. -/
inductive ArgumentError
  /-- The values supplied are not names and values in turn. -/
  | oddSupply (tokens : List Text)
  /-- The input ended where a question should have been answered. -/
  | promptFailed (question : Text)
  deriving DecidableEq, Repr

/-- The wording of an error. -/
def ArgumentError.message : ArgumentError → String
  | oddSupply tokens =>
    "Arguments must be given as name/value pairs, got " ++ (Text.ofNat tokens.length).str ++
      " values: " ++ (Text.joined [' '] tokens).str
  | promptFailed question =>
    "Input ended before " ++ question.quoted.str ++
      " was answered; end of input is not taken as an empty answer"

/-- Names and values in turn, taken in pairs. -/
def pairs? : List Text → Option (List (Text × Text))
  | [] => some []
  | [_] => none
  | name :: value :: rest => (pairs? rest).map ((name, value) :: ·)

/-- The values that names and values in turn supply; for a name that is given twice the last
counts. -/
def pairArguments (tokens : List Text) : Except ArgumentError (Mapping Text Text) :=
  match pairs? tokens with
  | some pairs => .ok (.ofList pairs)
  | none => .error (.oddSupply tokens)

/-- The first argument of a line that has no value. -/
def missingArgument (values : Mapping Text Text) (line : Line) : Option Text :=
  line.findSome? fun part => part.argName?.filter fun name => !values.contains name

section Asking

variable {ε σ : Type}

/-- The question for an argument. -/
def question (name : Text) (default : Option Text) : Text :=
  match default with
  | none => name
  | some value => name ++ " (Default: `".toList ++ value ++ ['`', ')']

/-- The value that an answer gives to an argument. -/
def answered (default : Option Text) (answer : Text) : Text :=
  if answer = [] then default.getD [] else answer

/-- Asks for the value of an argument. -/
def askArgument (ask : Text → EStateM ε σ Text) (name : Text) (default : Option Text) :
    EStateM ε σ Text := do
  return answered default (← ask (question name default))

/-- Fills in what is missing for some parts, in order. -/
def resolveParts (fill : Text → Option Text → EStateM ε σ Text) (defaults : Mapping Text Text) :
    List Part → Mapping Text Text → EStateM ε σ (Mapping Text Text)
  | [], values => return values
  | .arg name :: rest, values => do
    if values.contains name then resolveParts fill defaults rest values
    else
      let value ← fill name (defaults.get? name)
      resolveParts fill defaults rest (values.set name value)
  | _ :: rest, values => resolveParts fill defaults rest values

/-- Fills in what is missing for some lines, in order. `fill` gives the value of an argument from
its name and its default. -/
def resolveLines (fill : Text → Option Text → EStateM ε σ Text) (defaults : Mapping Text Text) :
    List Line → Mapping Text Text → EStateM ε σ (Mapping Text Text)
  | [], values => return values
  | line :: rest, values => do
    resolveLines fill defaults rest (← resolveParts fill defaults line values)

/-- The values of the arguments of some lines: those supplied, and the answers for those that are
missing. -/
def resolveArguments (ask : Text → EStateM ε σ Text) (lines : List Line)
    (defaults supplied : Mapping Text Text) : EStateM ε σ (Mapping Text Text) :=
  resolveLines (askArgument ask) defaults lines supplied

end Asking

/-! ## Interviews -/

/-- An interview with the answers laid down beforehand: the questions asked so far, and the answers
to come. A missing answer among them interrupts the interview for good. -/
structure Interview where
  asked : List Text := []
  answers : List (Option Text)

/-- Why an interview stops. -/
inductive InterviewError
  | argument (error : ArgumentError)
  | endOfInput
  | interrupted
  deriving DecidableEq, Repr

namespace Interview

/-- Puts a question and takes the next answer as it is. -/
def ask (question : Text) : EStateM InterviewError Interview Text := fun interview =>
  let interview := { interview with asked := interview.asked ++ [question] }
  match interview.answers with
  | [] => .error .endOfInput interview
  | none :: _ => .error .interrupted interview
  | some answer :: answers => .ok answer { interview with answers }

/-- Puts a question as a console does: with a colon after it, and with the blanks around the answer
taken away. -/
def askOnConsole (question : Text) : EStateM InterviewError Interview Text := fun interview =>
  match ask (question ++ [':', ' ']) interview with
  | .ok answer interview => .ok answer.trim interview
  | .error .endOfInput interview => .error (.argument (.promptFailed question)) interview
  | .error e interview => .error e interview

end Interview

end Typist
