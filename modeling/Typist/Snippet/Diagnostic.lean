import Typist.Text.Quoted

/-!
# Diagnostics

A diagnostic tells of a problem in a snippet that reading it corrected. Diagnostics are kept in the
order in which they were recorded, and each names the physical line on which its logical line
starts.
-/

namespace Typist

/-- What a diagnostic is about. -/
inductive DiagnosticKind
  | incompleteArg | incompleteCombo | duplicateDefault | trailingContinuation
  deriving DecidableEq, Repr

namespace DiagnosticKind

/-- The kinds in the order of their numbers. -/
def all : List DiagnosticKind :=
  [incompleteArg, incompleteCombo, duplicateDefault, trailingContinuation]

/-- The name of a kind. -/
def name : DiagnosticKind → String
  | incompleteArg => "INCOMPLETE_ARG"
  | incompleteCombo => "INCOMPLETE_COMBO"
  | duplicateDefault => "DUPLICATE_DEFAULT"
  | trailingContinuation => "TRAILING_CONTINUATION"

/-- The number of a kind. -/
def number : DiagnosticKind → Nat
  | incompleteArg => 1
  | incompleteCombo => 2
  | duplicateDefault => 3
  | trailingContinuation => 4

/-- The kind with the given name. -/
def ofName? (name : String) : Option DiagnosticKind :=
  all.find? fun kind => kind.name = name

end DiagnosticKind

/-- A corrected problem, with the line it was found on. -/
structure Diagnostic where
  kind : DiagnosticKind
  line : Int
  message : String
  deriving DecidableEq, Repr

namespace Diagnostic

/-- The diagnostic as a line of text. -/
def summary (d : Diagnostic) : String :=
  "line " ++ (Text.ofInt d.line).str ++ ": " ++ d.message

/-- The diagnostic with its fields named. -/
def shown (d : Diagnostic) : Text :=
  "Diagnostic(kind=<DiagnosticKind.".toList ++ d.kind.name.toList ++ ": ".toList ++
    Text.ofNat d.kind.number ++ ">, line=".toList ++ Text.ofInt d.line ++ ", message=".toList ++
    Text.quoted d.message.toList ++ [')']

end Diagnostic

/-- Diagnostics in the order in which they were recorded. -/
abbrev Diagnostics := List Diagnostic

namespace Diagnostics

/-- The diagnostics of one kind. -/
def ofKind (ds : Diagnostics) (kind : DiagnosticKind) : Diagnostics :=
  ds.filter fun d => d.kind = kind

/-- A position counted from the start, or from the end if it is negative, brought within
`0 … size`. -/
def position (size : Nat) (i : Int) : Nat :=
  if i < 0 then (i + size).toNat else min i.toNat size

/-- The diagnostic at an index; a negative index counts from the end. -/
def at? (ds : Diagnostics) (i : Int) : Option Diagnostic :=
  if i < 0 then
    if i + ds.length < 0 then none else ds[(i + ds.length).toNat]?
  else ds[i.toNat]?

/-- The diagnostics from one position up to another; no position is the end of the list on that
side. -/
def slice (ds : Diagnostics) (start stop : Option Int) : Diagnostics :=
  let first := (start.map (position ds.length)).getD 0
  let last := (stop.map (position ds.length)).getD ds.length
  (ds.take last).drop first

/-- The diagnostics with their fields named, in a list. -/
def shown (ds : Diagnostics) : Text :=
  "Diagnostics([".toList ++ Text.joined ", ".toList (ds.map Diagnostic.shown) ++ "])".toList

end Diagnostics

end Typist
