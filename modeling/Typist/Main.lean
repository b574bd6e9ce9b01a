import Typist.Command.Run

/-!
# The program

Supplies a run of the command with files and standard input and shows what happens. A run is a
function of the files and the input known so far, so it is started anew whenever it turns out to
depend on a file that has not been read or on a line that has not been typed; what was shown before
is not shown again.

There is no controller at hand to send keys through. Its calls are written to the standard output
instead, a line each, for a program that sends them.
-/

namespace Typist.Command

/-- Is this the code of the system error with the number? Some calls give the number negated. -/
def isSystemError (number code : UInt32) : Bool :=
  code = number || code = 0 - number

/-- Reads what a path leads to. -/
def nodeOnDisk (path : Path) : IO Node := do
  if path.text.contains '\x00' then return .nullCharacter
  try
    return .file (← IO.FS.readBinFile path.text.str).toList
  catch error =>
    match error with
    | .inappropriateType _ code _ =>
      return if isSystemError 20 code then .beyondFile else .directory
    | .invalidArgument _ code _ => return if isSystemError 36 code then .nameTooLong else .absent
    | _ => return .absent

/-- Shows an entry of the journal, or waits if it is a pause. -/
def showEntry (verbose : Bool) (entry : Entry) : IO Unit := do
  match entry with
  | .called (.sleep d) none => IO.sleep (d.micros / 1000).toNat.toUInt32
  | .called (.controllerPress stroke) none => IO.println ("press " ++ stroke.shown.text.str)
  | .called (.controllerRelease stroke) none => IO.println ("release " ++ stroke.shown.text.str)
  | entry =>
    IO.print (Journal.output [entry]).str
    IO.eprint (Journal.noticeOutput verbose [entry]).str
  (← IO.getStdout).flush

/-- Reads a line of bytes, with its line feed if it has one. -/
partial def readLine (stream : IO.FS.Stream) (before : List UInt8) : IO (List UInt8) := do
  match (← stream.read 1).toList with
  | [] => return before.reverse
  | b :: _ => if b = 10 then return (b :: before).reverse else readLine stream (b :: before)

/-- What is known of the files and of the input, and how much of the journal has been shown. -/
structure Known where
  nodes : List (Path × Node) := []
  /-- The lines of the input. -/
  input : List (List UInt8) := []
  closed : Bool := false
  shown : Nat := 0

/-- Runs the command with what is known, and again with more where it needs more. -/
partial def runKnown (home : Text → Option Text) (arguments : List Text) (known : Known) :
    IO UInt32 := do
  let node (path : Path) : Node := (known.nodes.lookup path).getD .absent
  let report := run { files := { node, home } } arguments { pieces := known.input }
  let unread := report.console.consulted.filter fun path => (known.nodes.lookup path).isNone
  match unread, report.console.exhausted, known.closed with
  | path :: _, _, _ =>
    runKnown home arguments { known with nodes := (path, ← nodeOnDisk path) :: known.nodes }
  | [], some reached, false =>
    for entry in (report.journal.take reached).drop known.shown do
      showEntry report.verbose entry
    let line ← readLine (← IO.getStdin) []
    runKnown home arguments
      { known with
        input := if line.isEmpty then known.input else known.input ++ [line]
        closed := line.isEmpty
        shown := max known.shown reached }
  | [], _, _ =>
    for entry in report.journal.drop known.shown do
      showEntry report.verbose entry
    return report.status.toUInt32

end Typist.Command

open Typist in
def main (arguments : List String) : IO UInt32 := do
  let home := (← IO.getEnv "HOME").map String.toList
  Command.runKnown (fun user => if user = [] then home else none) (arguments.map String.toList) {}
