import Typist.Text.Character
import Typist.Text.Utf8

/-!
# Standard input

Standard input arrives in pieces. An answer is a line of it: pieces are decoded, each as a whole,
until there is a line, and what they hold beyond the line is kept for the answers that follow.
Reading all of the input as bytes gives the pieces that no answer has opened. So an answer uses up
its whole piece for a reader of bytes, and bytes that are not UTF-8 fail the first answer for which
their piece is opened.
-/

namespace Typist.Command

/-- Standard input in the course of a run. -/
structure Input where
  /-- The pieces that are not opened yet. -/
  pieces : List (List UInt8)
  /-- The bytes of a character that the last piece opened breaks off. -/
  held : List UInt8 := []
  /-- Text that is decoded and that no answer has used. -/
  ahead : Text := []
  /-- Was more asked for than there is? -/
  ended : Bool := false
  deriving DecidableEq, Repr

/-- Why there is no line. -/
inductive InputError
  /-- The input is used up. -/
  | ended
  /-- The input is not UTF-8. -/
  | undecodable
  deriving DecidableEq, Repr

namespace Input

/-- The largest size of a piece when the input is there at once. -/
def pieceSize : Nat := 8192

/-- The bytes in pieces of the given size, which is taken to be positive; the last may be
shorter. -/
def cut (size : Nat) : List UInt8 → List (List UInt8)
  | [] => []
  | b :: rest => (b :: rest.take (size - 1)) :: cut size (rest.drop (size - 1))
termination_by bytes => bytes.length
decreasing_by
  simp only [List.length_drop, List.length_cons]
  omega

/-- Input that is there at once. -/
def ofBytes (bytes : List UInt8) : Input :=
  { pieces := cut pieceSize bytes }

/-- How many bytes and characters are left. -/
def size (input : Input) : Nat :=
  input.pieces.flatten.length + input.held.length + input.ahead.length

/-- The first line of the text ahead and of the pieces, which are opened as far as it takes. A last
line needs no line ending. -/
def lineFrom (held : List UInt8) (ahead : Text) : List (List UInt8) → Except InputError Text × Input
  | [] =>
    match ahead.firstLine? with
    | some (line, ahead) => (.ok line, { pieces := [], held, ahead })
    | none =>
      let ended : Input := { pieces := [], ended := true }
      if held ≠ [] then (.error .undecodable, ended)
      else if ahead = [] then (.error .ended, ended)
      else (.ok ahead.withoutReturn, ended)
  | piece :: pieces =>
    match ahead.firstLine? with
    | some (line, ahead) => (.ok line, { pieces := piece :: pieces, held, ahead })
    | none =>
      match Utf8.decodeStart (held ++ piece) with
      | .error _ => (.error .undecodable, { pieces })
      | .ok (t, held) => lineFrom held (ahead ++ t) pieces

/-- Takes a line. -/
def line (input : Input) : Except InputError Text × Input :=
  let (line, rest) := lineFrom input.held input.ahead input.pieces
  (line, { rest with ended := input.ended || rest.ended })

/-- Takes all the bytes that no answer has opened. -/
def takeBytes (input : Input) : List UInt8 × Input :=
  (input.pieces.flatten, { input with pieces := [], ended := true })

end Input

end Typist.Command
