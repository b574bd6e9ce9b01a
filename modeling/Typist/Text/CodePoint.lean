import Typist.Text.Quoted

/-!
# Code points

An escape in a document can name half of a surrogate pair. Two halves that follow each other make
one character; half a pair on its own is no character, but documents may hold it. `CodePoints` is a
text that may hold such halves, and `CodePoints.quoted` shows them by their numbers.
-/

namespace Typist

/-- A character, or half of a surrogate pair that stands alone. -/
inductive CodePoint
  | char (c : Char)
  /-- The half with the number, from U+D800 to U+DFFF. -/
  | half (number : Nat)
  deriving DecidableEq, Repr

namespace CodePoint

/-- Is the number that of the first half of a surrogate pair? -/
def isHigh (n : Nat) : Bool :=
  0xd800 ≤ n && n < 0xdc00

/-- Is the number that of the second half of a surrogate pair? -/
def isLow (n : Nat) : Bool :=
  0xdc00 ≤ n && n < 0xe000

/-- The code point with a number. -/
def ofNat (n : Nat) : CodePoint :=
  if isHigh n || isLow n then half n else char (Char.ofNat n)

/-- The character, if the code point is one, and the replacement character if it is not. -/
def toChar : CodePoint → Char
  | char c => c
  | half _ => '\ufffd'

/-- A code point inside quotes. -/
def quotedIn (quote : Char) : CodePoint → Text
  | char c => quotedChar quote c
  | half n => '\\' :: 'u' :: Text.paddedHex 4 n

end CodePoint

/-- A text that may hold halves of surrogate pairs. -/
abbrev CodePoints := List CodePoint

namespace CodePoints

/-- A text as code points. -/
def ofText (t : Text) : CodePoints :=
  t.map .char

/-- The code points with some numbers, pairs of halves being joined. -/
def ofNats : List Nat → CodePoints
  | high :: low :: rest =>
    if CodePoint.isHigh high && CodePoint.isLow low then
      .char (Char.ofNat (0x10000 + (high - 0xd800) * 0x400 + (low - 0xdc00))) :: ofNats rest
    else .ofNat high :: ofNats (low :: rest)
  | [n] => [.ofNat n]
  | [] => []

/-- The text, with a replacement character for each half of a pair. -/
def text (p : CodePoints) : Text :=
  p.map CodePoint.toChar

/-- The code points in quotes. -/
def quoted (p : CodePoints) : Text :=
  let quote := quoteFor p.text
  quote :: p.flatMap (CodePoint.quotedIn quote) ++ [quote]

theorem text_ofText (t : Text) : (ofText t).text = t := by
  simp [ofText, text, Function.comp_def, CodePoint.toChar]

theorem quoted_ofText (t : Text) : (ofText t).quoted = t.quoted := by
  rw [quoted, Text.quoted, text_ofText]
  simp [ofText, List.flatMap_map, CodePoint.quotedIn]

end CodePoints

end Typist
