import Generics.Decimal.Shortest
import Generics.Json.Basic

/-!
# Writing JSON

The compact form: no blanks, fields in the order of their keys.

## Main definitions

* `Json.floatText` — a floating-point number with the digits that are needed.
* `Json.quote` — a text in quotes.
* `Json.text` — a value.
-/

namespace Generics.Json

/-- The digits of a number with the point in its place.  A number is written out
from `0.00001` up to sixteen places before the point; beyond that it has one digit
before the point and an exponent, which always has a sign. -/
def decimalText (d : Decimal) : String :=
  let digits := (toString d.digits).toList
  let length := digits.length
  -- how many places the point stands to the right of the first digit
  let point := d.exponent + length
  if 0 ≤ d.exponent ∧ point ≤ 16 then
    String.ofList (digits ++ List.replicate d.exponent.toNat '0' ++ ['.', '0'])
  else if 0 < point ∧ point ≤ 16 then
    String.ofList (digits.take point.toNat ++ ['.'] ++ digits.drop point.toNat)
  else if -5 < point ∧ point ≤ 0 then
    String.ofList (['0', '.'] ++ List.replicate (-point).toNat '0' ++ digits)
  else
    let mantissa :=
      if length = 1 then digits else digits.take 1 ++ ['.'] ++ digits.drop 1
    let sign := if 0 < point then "e+" else "e"
    String.ofList mantissa ++ sign ++ toString (point - 1)

/-- A finite floating-point number. -/
def floatText (x : Float) : String :=
  let (isNegative, d) := Decimal.ofFloat x
  let magnitude := if d.digits = 0 then "0.0" else decimalText d
  if isNegative then "-" ++ magnitude else magnitude

/-- A character inside quotes.  The quote, the backslash and the control
characters are escaped, everything else stands for itself. -/
def escape (c : Char) : List Char :=
  if c = '"' then ['\\', '"']
  else if c = '\\' then ['\\', '\\']
  else if c = '\x08' then ['\\', 'b']
  else if c = '\x0c' then ['\\', 'f']
  else if c = '\n' then ['\\', 'n']
  else if c = '\r' then ['\\', 'r']
  else if c = '\t' then ['\\', 't']
  else if c.toNat < 0x20 then
    ['\\', 'u', '0', '0', Nat.digitChar (c.toNat / 16), Nat.digitChar (c.toNat % 16)]
  else [c]

/-- A text in quotes. -/
def quote (s : String) : String :=
  String.ofList ('"' :: s.toList.flatMap escape ++ ['"'])

mutual

/-- The compact form of a value. -/
def text : Json → String
  | null => "null"
  | bool true => "true"
  | bool false => "false"
  | int n => toString n
  | float x => floatText x
  | string s => quote s
  | array items => "[" ++ ",".intercalate (itemTexts items) ++ "]"
  | object fields => "\x7b" ++ ",".intercalate (fieldTexts fields) ++ "\x7d"

/-- The compact forms of the items of an array. -/
def itemTexts : List Json → List String
  | [] => []
  | item :: items => item.text :: itemTexts items

/-- The compact forms of the fields of an object. -/
def fieldTexts : List (String × Json) → List String
  | [] => []
  | (key, value) :: fields => (quote key ++ ":" ++ value.text) :: fieldTexts fields

end

end Generics.Json
