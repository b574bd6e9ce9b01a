import Typist.Json.Basic

/-!
# Reading JSON

A document is one value with white space around it. Beside the values of the standard, `NaN`,
`Infinity` and `-Infinity` are read as numbers. An integer of more digits than a numeral may have is
told from a document that is malformed. A byte order mark is not skipped, so a document that starts
with one is malformed.

An error tells the place it was found at by the number of characters that are left from there.
`Place` is what users are told: the line, the column and the number of characters before the place.

Arrays and objects may lie in one another up to a number of levels, and an array or object that
begins beyond them ends the reading. A level takes a place on the stack of whoever reads, so how
many there are is for the caller to say. `nestingLimit` is what a caller has who starts from a stack
that is all but empty.

The reader goes by a budget of steps. Of any two steps in a row one uses up a character, so twice
the length of the text is budget enough.
-/

namespace Typist.Json

/-- What is wrong with a text that is not JSON. -/
inductive Flaw
  /-- The text starts with a byte order mark. -/
  | byteOrderMark
  /-- There is no value where one should be. -/
  | noValue
  /-- There is no name of a field where one should be. -/
  | noName
  /-- There is no colon after the name of a field. -/
  | noColon
  /-- There is neither a comma nor the end of the array or object. -/
  | noComma
  /-- Something follows the document. -/
  | moreData
  /-- A string does not end. The place is where it starts. -/
  | openString
  /-- A string has a control character that is not escaped. -/
  | controlCharacter
  /-- No escape has the letter after a backslash. -/
  | badEscape
  /-- An escape by code unit has no four hexadecimal digits. -/
  | badUnitEscape
  deriving DecidableEq, Repr

/-- The wording of a flaw. -/
def Flaw.message : Flaw → String
  | byteOrderMark => "Unexpected UTF-8 BOM (decode using utf-8-sig)"
  | noValue => "Expecting value"
  | noName => "Expecting property name enclosed in double quotes"
  | noColon => "Expecting ':' delimiter"
  | noComma => "Expecting ',' delimiter"
  | moreData => "Extra data"
  | openString => "Unterminated string starting at"
  | controlCharacter => "Invalid control character at"
  | badEscape => "Invalid \\escape"
  | badUnitEscape => "Invalid \\uXXXX escape"

/-- Why a document does not read. -/
inductive ReadError
  /-- The text is not JSON, as is found where so many characters are left. -/
  | malformed (flaw : Flaw) (left : Nat)
  /-- An integer has so many digits, more than a numeral may have. -/
  | numberTooLong (digits : Nat)
  /-- The arrays and objects are nested too deeply. -/
  | tooDeep
  deriving DecidableEq, Repr

/-- A place in a text. Lines and columns count from one. -/
structure Place where
  line : Nat
  column : Nat
  offset : Nat
  deriving DecidableEq, Repr

/-- The place in a text at which so many characters are left. -/
def Place.of (t : Text) (left : Nat) : Place :=
  let before := t.take (t.length - left)
  ⟨before.count '\n' + 1, (before.reverse.takeWhile (· ≠ '\n')).length + 1, before.length⟩

/-- The wording of a place. -/
def Place.message (place : Place) : String :=
  "line " ++ (Text.ofNat place.line).str ++ " column " ++ (Text.ofNat place.column).str ++
    " (char " ++ (Text.ofNat place.offset).str ++ ")"

/-- Is the character white space between tokens? -/
def isSpace (c : Char) : Bool :=
  c = ' ' || c = '\t' || c = '\n' || c = '\r'

/-- The text without the white space it starts with. -/
def skipSpace (t : Text) : Text :=
  t.dropWhile isSpace

/-! ## Strings -/

/-- The value of a hexadecimal digit. -/
def hexValue? (c : Char) : Option Nat :=
  if c.isDigit then some (c.toNat - 48)
  else if 'a' ≤ c && c ≤ 'f' then some (c.toNat - 87)
  else if 'A' ≤ c && c ≤ 'F' then some (c.toNat - 55)
  else none

/-- The value of four hexadecimal digits. -/
def hexValue4? (a b c d : Char) : Option Nat := do
  return (((← hexValue? a) * 16 + (← hexValue? b)) * 16 + (← hexValue? c)) * 16 + (← hexValue? d)

/-- The character that a one-letter escape stands for. -/
def escape? (c : Char) : Option Char :=
  [('"', '"'), ('\\', '\\'), ('/', '/'), ('b', '\x08'), ('f', '\x0c'), ('n', '\n'), ('r', '\r'),
    ('t', '\t')].lookup c

/-- Reads a string after its opening quote, as the numbers of its code points; an escape may give
half of a surrogate pair. `opened` is the text after the opening quote. -/
def stringCodes (opened : Text) : Text → Except ReadError (List Nat × Text)
  | [] => .error (.malformed .openString (opened.length + 1))
  | '"' :: rest => .ok ([], rest)
  | ['\\'] => .error (.malformed .openString (opened.length + 1))
  | '\\' :: 'u' :: a :: b :: c :: d :: after :: rest =>
    match hexValue4? a b c d with
    | none => .error (.malformed .badUnitEscape (rest.length + 6))
    | some code =>
      (stringCodes opened (after :: rest)).map fun (codes, rest) => (code :: codes, rest)
  | '\\' :: 'u' :: rest => .error (.malformed .badUnitEscape (rest.length + 1))
  | '\\' :: c :: rest =>
    match escape? c with
    | none => .error (.malformed .badEscape (rest.length + 2))
    | some c => (stringCodes opened rest).map fun (codes, rest) => (c.toNat :: codes, rest)
  | c :: rest =>
    if c.toNat < 0x20 then .error (.malformed .controlCharacter (rest.length + 1))
    else (stringCodes opened rest).map fun (codes, rest) => (c.toNat :: codes, rest)

/-- Reads a string after its opening quote. -/
def stringAfterQuote (t : Text) : Except ReadError (CodePoints × Text) :=
  (stringCodes t t).map fun (codes, rest) => (.ofNats codes, rest)

/-! ## Numbers and words -/

/-- The digits at the start of the text, and what follows them. -/
def digitsOf (t : Text) : Text × Text :=
  t.span Char.isDigit

/-- The fraction at the start of the text, if there is one. -/
def fractionOf (t : Text) : Option (Text × Text) :=
  match t with
  | '.' :: rest =>
    match digitsOf rest with
    | ([], _) => none
    | found => some found
  | _ => none

/-- The exponent at the start of the text, if there is one. -/
def exponentOf (t : Text) : Option (Int × Text) :=
  match t with
  | c :: rest =>
    if c = 'e' || c = 'E' then
      let (negative, rest) :=
        match rest with
        | '-' :: rest => (true, rest)
        | '+' :: rest => (false, rest)
        | rest => (false, rest)
      match digitsOf rest with
      | ([], _) => none
      | (digits, rest) => some (if negative then -(digits.value : Int) else digits.value, rest)
    else none
  | [] => none

/-- Reads a number after its sign. `start` is the text from the sign on. -/
def unsignedNumber (negative : Bool) (start t : Text) : Except ReadError (Json × Text) :=
  let (whole, rest) :=
    match t with
    | '0' :: rest => (['0'], rest)
    | t => digitsOf t
  if whole = [] then .error (.malformed .noValue start.length)
  else
    match fractionOf rest, exponentOf ((fractionOf rest).map Prod.snd |>.getD rest) with
    | none, none =>
      if digitLimit < whole.length then .error (.numberTooLong whole.length)
      else .ok (.int (if negative then -(Text.value whole : Int) else Text.value whole), rest)
    | fraction, exponent =>
      let (fractionDigits, rest) := fraction.getD ([], rest)
      let (power, rest) := exponent.getD (0, rest)
      .ok (.float (.ofDecimal negative (Text.value (whole ++ fractionDigits))
        (power - fractionDigits.length)), rest)

/-- Reads a number. -/
def number (t : Text) : Except ReadError (Json × Text) :=
  match t with
  | '-' :: rest => unsignedNumber true t rest
  | t => unsignedNumber false t t

/-- The values that are written as words. -/
def words : List (String × Json) :=
  [("null", null), ("true", bool true), ("false", bool false), ("NaN", float .nan),
    ("Infinity", float (.infinite false)), ("-Infinity", float (.infinite true))]

/-- Reads a word, if the text starts with one. -/
def word? (t : Text) : Option (Json × Text) :=
  words.findSome? fun (word, value) => (Text.after? word.toList t).map fun rest => (value, rest)

/-! ## Values -/

/-- How many levels of arrays and objects may lie in one another, where the caller does not say. -/
def nestingLimit : Nat := 988

mutual

/-- Reads a value at the start of the text, in which arrays and objects may be nested so many
levels. -/
def value (budget levels : Nat) (t : Text) : Except ReadError (Json × Text) :=
  match budget with
  | 0 => .error (.malformed .noValue t.length)
  | budget + 1 =>
    match t with
    | '"' :: rest => (stringAfterQuote rest).map fun (s, rest) => (.str s, rest)
    | '[' :: rest =>
      match levels, skipSpace rest with
      | 0, _ => .error .tooDeep
      | _ + 1, ']' :: rest => .ok (.arr [], rest)
      | levels + 1, rest => (items budget levels rest).map fun (items, rest) => (.arr items, rest)
    | '\x7b' :: rest =>
      match levels, skipSpace rest with
      | 0, _ => .error .tooDeep
      | _ + 1, '\x7d' :: rest => .ok (.obj [], rest)
      | levels + 1, rest =>
        (fields budget levels [] rest).map fun (fields, rest) => (.obj fields, rest)
    | t =>
      match word? t with
      | some found => .ok found
      | none => number t

/-- Reads the items of an array, up to its end. -/
def items (budget levels : Nat) (t : Text) : Except ReadError (List Json × Text) :=
  match budget with
  | 0 => .error (.malformed .noValue t.length)
  | budget + 1 =>
    match value budget levels t with
    | .error e => .error e
    | .ok (item, rest) =>
      match skipSpace rest with
      | ',' :: rest =>
        (items budget levels (skipSpace rest)).map fun (items, rest) => (item :: items, rest)
      | ']' :: rest => .ok ([item], rest)
      | rest => .error (.malformed .noComma rest.length)

/-- Reads the fields of an object, up to its end, onto those read before. -/
def fields (budget levels : Nat) (before : List (CodePoints × Json)) (t : Text) :
    Except ReadError (List (CodePoints × Json) × Text) :=
  match budget with
  | 0 => .error (.malformed .noName t.length)
  | budget + 1 =>
    match t with
    | '"' :: rest =>
      match stringAfterQuote rest with
      | .error e => .error e
      | .ok (name, rest) =>
        match skipSpace rest with
        | ':' :: rest =>
          match value budget levels (skipSpace rest) with
          | .error e => .error e
          | .ok (value, rest) =>
            let found := putEntry name value before
            match skipSpace rest with
            | ',' :: rest => fields budget levels found (skipSpace rest)
            | '\x7d' :: rest => .ok (found, rest)
            | rest => .error (.malformed .noComma rest.length)
        | rest => .error (.malformed .noColon rest.length)
    | t => .error (.malformed .noName t.length)

end

/-- The value of a document, in which arrays and objects may be nested so many levels. -/
def parse (t : Text) (levels : Nat := nestingLimit) : Except ReadError Json :=
  if t.head? = some '\ufeff' then .error (.malformed .byteOrderMark t.length)
  else
    match value (2 * t.length + 1) levels (skipSpace t) with
    | .error e => .error e
    | .ok (value, rest) =>
      if skipSpace rest = [] then .ok value
      else .error (.malformed .moreData (skipSpace rest).length)

end Typist.Json
