/-!
# Text

A text is a list of characters, and a character is one Unicode scalar value. Everything the library
reads, types or writes back is a `Text`; strings appear where a finished message or output leaves
the library. The definitions here are the few list operations that the modules on lines, tokens,
durations and settings share.
-/

namespace Typist

/-- A list of characters. -/
abbrev Text := List Char

namespace Text

/-- The text as a string, for messages and output. -/
def str (t : Text) : String :=
  String.ofList t

/-- How many bytes the text has in UTF-8. -/
def utf8Size : Text → Nat
  | [] => 0
  | c :: cs => c.utf8Size + utf8Size cs

/-- Does `piece` occur somewhere in the text? -/
def holds (piece : Text) : Text → Bool
  | [] => piece.isEmpty
  | c :: cs => piece.isPrefixOf (c :: cs) || holds piece cs

/-- What follows `piece` at the start of the text, if the text starts with it. -/
def after? : (piece t : Text) → Option Text
  | [], t => some t
  | _ :: _, [] => none
  | p :: ps, c :: cs => if p = c then after? ps cs else none

/-- The pieces between the occurrences of `mark`; a text without it is one piece. -/
def pieces (mark : Char) : Text → List Text
  | [] => [[]]
  | c :: cs =>
    if c = mark then [] :: pieces mark cs
    else
      match pieces mark cs with
      | [] => [[c]]
      | p :: ps => (c :: p) :: ps

/-- The texts one after the other, with `mark` between neighbours. -/
def joined (mark : Text) : List Text → Text
  | [] => []
  | [t] => t
  | t :: ts => t ++ mark ++ joined mark ts

end Text

/-- Is code point `n` in one of the closed ranges? -/
def inRanges (ranges : List (Nat × Nat)) (n : Nat) : Bool :=
  ranges.any fun r => r.1 ≤ n && n ≤ r.2

end Typist
