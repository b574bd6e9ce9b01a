import Typist.Snippet.Tokenizer

/-!
# Reading a snippet

Text is cut into physical lines at line feeds; a carriage return before the line feed belongs to the
line ending. A physical line that ends in a backslash is continued by the next one, whose leading
blanks are dropped. Only the one backslash is removed, so a line that ends in two keeps one and is
still continued, and a literal backslash at the end of a line is written with a blank after it.

A logical line carries the number of the physical line it starts on. If the last physical line asks
to be continued, its logical line is `unfinished`, which is worth a diagnostic.

The logical lines of a snippet are read in order into one snippet, so that a default declared on a
line counts for the lines after it. Bytes are decoded first; the line of bytes that do not decode is
the physical line on which the offending sequence begins.
-/

namespace Typist

/-! ## Physical and logical lines -/

/-- The physical lines of a text. A line ending at the end of the text opens no further line. -/
def physicalLines (t : Text) : List Text :=
  let lines := t.pieces '\n'
  let lines := if lines.getLast? = some [] then lines.dropLast else lines
  lines.map Text.withoutReturn

/-- Does the physical line ask to be continued? -/
def continues (line : Text) : Bool :=
  line.getLast? = some '\\'

/-- Physical lines joined into one. -/
structure LogicalLine where
  start : Nat
  text : Text
  unfinished : Bool
  deriving DecidableEq, Repr

/-- Joins the physical lines from line `number` on. A line under construction is given by its start
and what it holds so far. -/
def assemble (number : Nat) : (begun : Option (Nat × Text)) → List Text → List LogicalLine
  | none, [] => []
  | some (start, text), [] => [⟨start, text, true⟩]
  | begun, line :: rest =>
    let (start, text, line) :=
      match begun with
      | none => (number, [], line)
      | some (start, text) => (start, text, Text.trimStart line)
    if continues line then assemble (number + 1) (some (start, text ++ line.dropLast)) rest
    else ⟨start, text ++ line, false⟩ :: assemble (number + 1) none rest

/-- The logical lines of some physical lines. -/
def logicalLines (lines : List Text) : List LogicalLine :=
  assemble 1 none lines

/-- The message for a last line that ends in a backslash. -/
def trailingContinuationMessage : String :=
  "Last line ended with an appending backslash `\\`, assuming there is an empty line after it " ++
    "to append nothing. To use a backslash, append it with a whitespace (`\\ `)."

/-- The diagnostics of joining: one for a line that is left unfinished. -/
def LogicalLine.diagnostics (line : LogicalLine) : Diagnostics :=
  if line.unfinished then [⟨.trailingContinuation, line.start, trailingContinuationMessage⟩] else []

/-! ## Snippets -/

namespace Snippet

/-- Reads logical lines onto the snippet read so far. -/
def readLines (lookup : KeyLookup) : List LogicalLine → Reading Unit
  | [] => return ()
  | line :: rest => do
    modify fun s => { s with diagnostics := s.diagnostics ++ line.diagnostics }
    let _ ← LineContext.readLine ⟨lookup, line.start⟩ line.text
    readLines lookup rest

/-- Reads a text onto the snippet read so far. -/
def readText (lookup : KeyLookup) (t : Text) : Reading Unit :=
  readLines lookup (logicalLines (physicalLines t))

/-- The line on which the byte at `offset` is. -/
def lineOfOffset (bytes : List UInt8) (offset : Nat) : Nat :=
  (bytes.take offset).count 10 + 1

/-- Reads UTF-8 bytes onto the snippet read so far. -/
def readBytes (lookup : KeyLookup) (bytes : List UInt8) : Reading Unit :=
  match Utf8.decode bytes with
  | .ok t => readText lookup t
  | .error failure =>
    throw (.snippet ⟨.undecodable failure.reason.message, some (lineOfOffset bytes failure.offset)⟩)

/-- The snippet that a text denotes. -/
def parse (lookup : KeyLookup) (t : Text) : Except ReadError Snippet :=
  match readText lookup t {} with
  | .ok _ s => .ok s
  | .error e _ => .error e

/-- The snippet that UTF-8 bytes denote. -/
def parseBytes (lookup : KeyLookup) (bytes : List UInt8) : Except ReadError Snippet :=
  match readBytes lookup bytes {} with
  | .ok _ s => .ok s
  | .error e _ => .error e

end Snippet

end Typist
