import Typist.Text.Basic

/-!
# Characters and lines

The classes of characters that texts are read by, each for the whole of Unicode, and the endings of
lines.

* Blanks count as white space: the characters of Unicode's space classes, the line and paragraph
  separators, and the ASCII control characters that move the cursor or separate information.
  Trimming removes them from one end of a text or from both.
* Names are compared without regard to case by lowering both sides, and every name in use is ASCII.
  So lowering has to be exact where the result can be ASCII: the capitals `A` to `Z`, the Kelvin
  sign, whose lower case is `k`, and the dotted capital I, whose lower case is an `i` followed by a
  combining dot. The lower case of any other character has no ASCII character in it and equals no
  part of a name, so such a character is left as it is.
* Unicode has a decimal digit 0 to 9 in each of many scripts, and further characters that show a
  digit without belonging to a positional system: superscripts, circled digits and the like. A
  number may be written with the decimal digits of any script (`decimalValue?`); the others only
  look like a digit (`showsDigit`).
* A line of a text file or of the console ends in a line feed, in a carriage return, or in both.
  `lineFeeds` writes every ending as a line feed; `firstLine?` takes one line off, if it is known
  where it ends.
-/

namespace Typist

/-! ## Blanks -/

/-- The ranges of blank code points. -/
def blankRanges : List (Nat × Nat) :=
  [(0x09, 0x0d), (0x1c, 0x20), (0x85, 0x85), (0xa0, 0xa0), (0x1680, 0x1680), (0x2000, 0x200a),
    (0x2028, 0x2029), (0x202f, 0x202f), (0x205f, 0x205f), (0x3000, 0x3000)]

/-- Is the character white space? -/
def isBlank (c : Char) : Bool :=
  inRanges blankRanges c.toNat

namespace Text

/-- The text without the blanks it starts with. -/
def trimStart (t : Text) : Text :=
  t.dropWhile isBlank

/-- The text without the blanks it ends with. -/
def trimEnd (t : Text) : Text :=
  (t.reverse.dropWhile isBlank).reverse

/-- The text without the blanks at either end. -/
def trim (t : Text) : Text :=
  t.trimStart.trimEnd

end Text

/-! ## Case -/

/-- The lower case of a character, as far as ASCII names can tell. -/
def lowered (c : Char) : Text :=
  if c = '\u212a' then ['k']
  else if c = '\u0130' then ['i', '\u0307']
  else [c.toLower]

/-- The text in lower case, as far as ASCII names can tell. -/
def Text.lower (t : Text) : Text :=
  t.flatMap lowered

/-! ## Digits -/

/-- The code points of the decimal zeros; the digits 1 to 9 of a script follow its zero. -/
def decimalZeros : List Nat :=
  [0x30, 0x660, 0x6f0, 0x7c0, 0x966, 0x9e6, 0xa66, 0xae6, 0xb66, 0xbe6, 0xc66, 0xce6, 0xd66, 0xde6,
    0xe50, 0xed0, 0xf20, 0x1040, 0x1090, 0x17e0, 0x1810, 0x1946, 0x19d0, 0x1a80, 0x1a90, 0x1b50,
    0x1bb0, 0x1c40, 0x1c50, 0xa620, 0xa8d0, 0xa900, 0xa9d0, 0xa9f0, 0xaa50, 0xabf0, 0xff10, 0x104a0,
    0x10d30, 0x11066, 0x110f0, 0x11136, 0x111d0, 0x112f0, 0x11450, 0x114d0, 0x11650, 0x116c0,
    0x11730, 0x118e0, 0x11950, 0x11c50, 0x11d50, 0x11da0, 0x16a60, 0x16ac0, 0x16b50, 0x1d7ce,
    0x1d7d8, 0x1d7e2, 0x1d7ec, 0x1d7f6, 0x1e140, 0x1e2f0, 0x1e950, 0x1fbf0]

/-- The value of a decimal digit of any script. -/
def decimalValue? (c : Char) : Option Nat :=
  (decimalZeros.find? fun z => z ≤ c.toNat && c.toNat < z + 10).map (c.toNat - ·)

/-- The ranges of the characters that show a digit without being a decimal digit. -/
def otherDigitRanges : List (Nat × Nat) :=
  [(0xb2, 0xb3), (0xb9, 0xb9), (0x1369, 0x1371), (0x19da, 0x19da), (0x2070, 0x2070),
    (0x2074, 0x2079), (0x2080, 0x2089), (0x2460, 0x2468), (0x2474, 0x247c), (0x2488, 0x2490),
    (0x24ea, 0x24ea), (0x24f5, 0x24fd), (0x24ff, 0x24ff), (0x2776, 0x277e), (0x2780, 0x2788),
    (0x278a, 0x2792), (0x10a40, 0x10a43), (0x10e60, 0x10e68), (0x11052, 0x1105a),
    (0x1f100, 0x1f10a)]

/-- Does the character show a digit, decimal or not? -/
def showsDigit (c : Char) : Bool :=
  (decimalValue? c).isSome || inRanges otherDigitRanges c.toNat

/-! ## Ends of lines -/

namespace Text

/-- The text with every line ending written as a line feed. -/
def lineFeeds : Text → Text
  | [] => []
  | '\r' :: '\n' :: rest => '\n' :: lineFeeds rest
  | c :: rest => (if c = '\r' then '\n' else c) :: lineFeeds rest

/-- The first line without its ending, and what follows it. A carriage return at the end of the text
ends no line yet, since a line feed may belong to it. -/
def firstLine? : Text → Option (Text × Text)
  | [] => none
  | '\n' :: rest => some ([], rest)
  | '\r' :: '\n' :: rest => some ([], rest)
  | c :: rest =>
    if c = '\r' then (if rest = [] then none else some ([], rest))
    else (firstLine? rest).map fun (line, rest) => (c :: line, rest)

/-- The line without the carriage return at its end. -/
def withoutReturn (line : Text) : Text :=
  if line.getLast? = some '\r' then line.dropLast else line

end Text

end Typist
