import Typist.Json.Basic

/-!
# Writing JSON

A string is written between double quotes with its quotes, backslashes and control characters
escaped; an `ascii` document escapes every character outside the printable ASCII range too, one
beyond U+FFFF as a surrogate pair. Half of a pair is always an escape. `compact` writes no white
space at all, and `indented` gives each item and field a line of its own, two columns further in at
each level.
-/

namespace Typist.Json

/-- A code unit as an escape. -/
def unitEscape (n : Nat) : Text :=
  '\\' :: 'u' :: Text.paddedHex 4 n

/-- A character inside a string. -/
def writtenChar (ascii : Bool) (c : Char) : Text :=
  if c = '"' then ['\\', '"']
  else if c = '\\' then ['\\', '\\']
  else if c = '\n' then ['\\', 'n']
  else if c = '\r' then ['\\', 'r']
  else if c = '\t' then ['\\', 't']
  else if c = '\x08' then ['\\', 'b']
  else if c = '\x0c' then ['\\', 'f']
  else if c.toNat < 0x20 then unitEscape c.toNat
  else if ascii && 0x7f ≤ c.toNat then
    if c.toNat < 0x10000 then unitEscape c.toNat
    else
      let n := c.toNat - 0x10000
      unitEscape (0xd800 + n / 0x400) ++ unitEscape (0xdc00 + n % 0x400)
  else [c]

/-- A code point inside a string. -/
def writtenPoint (ascii : Bool) : CodePoint → Text
  | .char c => writtenChar ascii c
  | .half n => unitEscape n

/-- A string in its quotes. -/
def writtenString (ascii : Bool) (p : CodePoints) : Text :=
  '"' :: p.flatMap (writtenPoint ascii) ++ ['"']

/-- Numbers in documents read by programs: positional from 0.00001 up to sixteen digits before the
point, and an exponent in as few digits as it needs. -/
def floatStyle : FloatStyle :=
  ⟨-5, 16, false, 1⟩

/-- A value that is neither an array nor an object. -/
def writtenScalar (ascii : Bool) : Json → Text
  | null => "null".toList
  | bool value => if value then "true".toList else "false".toList
  | int value => Text.ofInt value
  | float value => value.text floatStyle
  | str value => writtenString ascii value
  | arr _ => []
  | obj _ => []

mutual

/-- The value without white space. -/
def compact (ascii : Bool) : Json → Text
  | arr items => '[' :: compactItems ascii items ++ [']']
  | obj fields => '\x7b' :: compactFields ascii fields ++ ['\x7d']
  | value => writtenScalar ascii value

/-- Items with commas between them. -/
def compactItems (ascii : Bool) : List Json → Text
  | [] => []
  | [item] => compact ascii item
  | item :: items => compact ascii item ++ ',' :: compactItems ascii items

/-- Fields with commas between them. -/
def compactFields (ascii : Bool) : List (CodePoints × Json) → Text
  | [] => []
  | [(name, value)] => writtenString ascii name ++ ':' :: compact ascii value
  | (name, value) :: fields =>
    writtenString ascii name ++ ':' :: compact ascii value ++ ',' :: compactFields ascii fields

end

/-- A line break with the indentation of a level. -/
def lineBreak (level : Nat) : Text :=
  '\n' :: List.replicate (2 * level) ' '

mutual

/-- The value with a line for each item and field; its own line is at the given level. -/
def indentedAt (level : Nat) : Json → Text
  | arr [] => ['[', ']']
  | arr items => '[' :: indentedItems (level + 1) items ++ lineBreak level ++ [']']
  | obj [] => ['\x7b', '\x7d']
  | obj fields => '\x7b' :: indentedFields (level + 1) fields ++ lineBreak level ++ ['\x7d']
  | value => writtenScalar true value

/-- Items, each on a line of its own. -/
def indentedItems (level : Nat) : List Json → Text
  | [] => []
  | [item] => lineBreak level ++ indentedAt level item
  | item :: items => lineBreak level ++ indentedAt level item ++ ',' :: indentedItems level items

/-- Fields, each on a line of its own. -/
def indentedFields (level : Nat) : List (CodePoints × Json) → Text
  | [] => []
  | [(name, value)] =>
    lineBreak level ++ writtenString true name ++ ": ".toList ++ indentedAt level value
  | (name, value) :: fields =>
    lineBreak level ++ writtenString true name ++ ": ".toList ++ indentedAt level value ++
      ',' :: indentedFields level fields

end

/-- The document in ASCII with a line for each item and field. -/
def indented (document : Json) : Text :=
  indentedAt 0 document

end Typist.Json
