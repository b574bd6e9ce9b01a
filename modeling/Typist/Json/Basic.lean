import Typist.Mapping
import Typist.Number.Shortest
import Typist.Text.CodePoint

/-!
# JSON values

The values of a JSON document. A number without fraction and exponent is an integer of any size, and
any other is a binary floating point number. The fields of an object have distinct names: of fields
with the same name the last gives the value and the first the place. Strings and names are code
points, since an escape can give half of a surrogate pair.
-/

namespace Typist

/-- A JSON value. -/
inductive Json
  | null
  | bool (value : Bool)
  | int (value : Int)
  | float (value : Binary64)
  | str (value : CodePoints)
  | arr (items : List Json)
  | obj (fields : List (CodePoints × Json))

namespace Json

/-- A text as a string. -/
def text (t : Text) : Json :=
  str (.ofText t)

/-- An object with the fields. -/
def record (fields : List (String × Json)) : Json :=
  obj (fields.map fun field => (.ofText field.1.toList, field.2))

/-- Empty, zero, false and null count as false, and everything else as true. -/
def isTrue : Json → Bool
  | null => false
  | bool value => value
  | int value => value ≠ 0
  | float value => !value.isZero
  | str value => value ≠ []
  | arr items => !items.isEmpty
  | obj fields => !fields.isEmpty

mutual

/-- The value as it is shown inside another one, text being quoted. -/
def shown : Json → Text
  | null => "None".toList
  | bool value => if value then "True".toList else "False".toList
  | int value => Text.ofInt value
  | float value => value.text .plain
  | str value => value.quoted
  | arr items => '[' :: shownItems items ++ [']']
  | obj fields => '\x7b' :: shownFields fields ++ ['\x7d']

/-- Items with commas between them. -/
def shownItems : List Json → Text
  | [] => []
  | [item] => item.shown
  | item :: items => item.shown ++ ", ".toList ++ shownItems items

/-- Fields with commas between them. -/
def shownFields : List (CodePoints × Json) → Text
  | [] => []
  | [(name, value)] => name.quoted ++ ": ".toList ++ value.shown
  | (name, value) :: fields =>
    name.quoted ++ ": ".toList ++ value.shown ++ ", ".toList ++ shownFields fields

end

/-- The value as text: a string is itself, and anything else is as shown. -/
def asText : Json → CodePoints
  | str value => value
  | value => .ofText value.shown

/-- The field of an object, if the value is an object that has it. -/
def field? (name : Text) : Json → Option Json
  | obj fields => fields.lookup (.ofText name)
  | _ => none

end Json

end Typist
