import Generics.Json.Number
import Generics.Text.Blank

/-!
# Reading JSON

The reader takes JSON as the standard defines it.  Values may be nested up to 127
deep, and of several fields of one object with the same key the last one counts.

## Main definitions

* `Reader.value` — the reader of a value.  Like the readers of the parts it takes
  the remaining characters and returns what it read with the rest.
* `Json.read` — the reader of a whole text.
-/

namespace Generics.Json

namespace Reader

/-! ### Texts -/

/-- The value of a hexadecimal digit. -/
def hexDigit? (c : Char) : Option Nat :=
  if '0' ≤ c ∧ c ≤ '9' then some (c.toNat - '0'.toNat)
  else if 'a' ≤ c ∧ c ≤ 'f' then some (c.toNat - 'a'.toNat + 10)
  else if 'A' ≤ c ∧ c ≤ 'F' then some (c.toNat - 'A'.toNat + 10)
  else none

/-- A unit of sixteen bits, written with four hexadecimal digits. -/
def unit : List Char → Option (Nat × List Char)
  | a :: b :: c :: d :: rest => do
    let a ← hexDigit? a
    let b ← hexDigit? b
    let c ← hexDigit? c
    let d ← hexDigit? d
    some (((a * 16 + b) * 16 + c) * 16 + d, rest)
  | _ => none

/-- A character by its number, which may take two units: a high surrogate must
have a low one behind it, and a low one may not stand alone. -/
def numbered (s : List Char) : Option (Char × List Char) := do
  let (high, s) ← unit s
  if 0xD800 ≤ high ∧ high < 0xDC00 then
    match s with
    | '\\' :: 'u' :: s => do
      let (low, s) ← unit s
      if 0xDC00 ≤ low ∧ low < 0xE000 then
        some (Char.ofNat (0x10000 + (high - 0xD800) * 0x400 + (low - 0xDC00)), s)
      else none
    | _ => none
  else if 0xDC00 ≤ high ∧ high < 0xE000 then none
  else some (Char.ofNat high, s)

/-- A character behind a backslash. -/
def escaped : List Char → Option (Char × List Char)
  | '"' :: s => some ('"', s)
  | '\\' :: s => some ('\\', s)
  | '/' :: s => some ('/', s)
  | 'b' :: s => some ('\x08', s)
  | 'f' :: s => some ('\x0c', s)
  | 'n' :: s => some ('\n', s)
  | 'r' :: s => some ('\r', s)
  | 't' :: s => some ('\t', s)
  | 'u' :: s => numbered s
  | _ => none

/-- The characters of a text, at most `bound` of them, up to its closing quote. -/
def characters : (bound : Nat) → List Char → Option (List Char × List Char)
  | _, '"' :: s => some ([], s)
  | bound + 1, '\\' :: s => do
    let (c, s) ← escaped s
    let (cs, s) ← characters bound s
    some (c :: cs, s)
  | bound + 1, c :: s =>
    if c.toNat < 0x20 then none
    else do
      let (cs, s) ← characters bound s
      some (c :: cs, s)
  | _, _ => none

/-- A text behind its opening quote. -/
def quoted (s : List Char) : Option (String × List Char) := do
  let (cs, s) ← characters s.length s
  some (String.ofList cs, s)

/-! ### Numbers -/

/-- One digit or more. -/
def digits (s : List Char) : Option (List Char × List Char) :=
  match s.takeWhile Char.isDigit with
  | [] => none
  | ds => some (ds, s.dropWhile Char.isDigit)

/-- The digits before the point: a zero stands alone. -/
def whole (s : List Char) : Option (List Char × List Char) := do
  let (ds, s) ← digits s
  match ds with
  | '0' :: _ :: _ => none
  | ds => some (ds, s)

/-- A point with the digits behind it, or nothing. -/
def fraction : List Char → Option (Option (List Char) × List Char)
  | '.' :: s => do
    let (ds, s) ← digits s
    some (some ds, s)
  | s => some (none, s)

/-- The exponent behind its letter. -/
def signedExponent : List Char → Option (Int × List Char)
  | '-' :: s => do
    let (ds, s) ← digits s
    some (-(appendDigits 0 ds : Int), s)
  | '+' :: s => do
    let (ds, s) ← digits s
    some ((appendDigits 0 ds : Int), s)
  | s => do
    let (ds, s) ← digits s
    some ((appendDigits 0 ds : Int), s)

/-- An exponent, or nothing. -/
def exponent : List Char → Option (Option Int × List Char)
  | 'e' :: s | 'E' :: s => do
    let (e, s) ← signedExponent s
    some (some e, s)
  | s => some (none, s)

/-- A number behind its sign. -/
def magnitude (isNegative : Bool) (s : List Char) : Option (Json × List Char) := do
  let (whole, s) ← whole s
  let (fraction, s) ← fraction s
  let (exponent, s) ← exponent s
  let value ← Numeral.value? { isNegative, whole, fraction, exponent }
  some (value, s)

/-- A number. -/
def number : List Char → Option (Json × List Char)
  | '-' :: s => magnitude true s
  | s => magnitude false s

/-! ### Values -/

/-- A value that has no parts. -/
def scalar : List Char → Option (Json × List Char)
  | 'n' :: 'u' :: 'l' :: 'l' :: s => some (.null, s)
  | 't' :: 'r' :: 'u' :: 'e' :: s => some (.bool true, s)
  | 'f' :: 'a' :: 'l' :: 's' :: 'e' :: s => some (.bool false, s)
  | '"' :: s => (quoted s).map fun (text, s) => (.string text, s)
  | s => number s

section Containers

variable (value : List Char → Option (Json × List Char))

/-- The items of an array that is not empty, at most `bound` of them, and the
closing bracket. -/
def items : (bound : Nat) → List Char → Option (List Json × List Char)
  | 0, _ => none
  | bound + 1, s => do
    let (item, s) ← value (Text.skipSeparators s)
    match Text.skipSeparators s with
    | ',' :: s => do
      let (others, s) ← items bound s
      some (item :: others, s)
    | ']' :: s => some ([item], s)
    | _ => none

/-- The fields of an object that is not empty, at most `bound` of them, and the
closing brace. -/
def fields : (bound : Nat) → List Char → Option (List (String × Json) × List Char)
  | 0, _ => none
  | bound + 1, s => do
    match Text.skipSeparators s with
    | '"' :: s => do
      let (key, s) ← quoted s
      match Text.skipSeparators s with
      | ':' :: s => do
        let (value, s) ← value (Text.skipSeparators s)
        match Text.skipSeparators s with
        | ',' :: s => do
          let (others, s) ← fields bound s
          some ((key, value) :: others, s)
        | '\x7d' :: s => some ([(key, value)], s)
        | _ => none
      | _ => none
    | _ => none

/-- An array behind its opening bracket. -/
def arrayBody (s : List Char) : Option (Json × List Char) :=
  match Text.skipSeparators s with
  | ']' :: s => some (.array [], s)
  | s => (items value s.length s).map fun (items, s) => (.array items, s)

/-- An object behind its opening brace. -/
def objectBody (s : List Char) : Option (Json × List Char) :=
  match Text.skipSeparators s with
  | '\x7d' :: s => some (.object [], s)
  | s => (fields value s.length s).map fun (fields, s) => (.ofFields fields, s)

end Containers

/-- A value in which containers are nested up to `depth` deep. -/
def value : (depth : Nat) → List Char → Option (Json × List Char)
  | depth + 1, '[' :: s => arrayBody (value depth) s
  | depth + 1, '\x7b' :: s => objectBody (value depth) s
  | _, s => scalar s

end Reader

/-- How deep values may be nested. -/
def maxDepth : Nat := 127

/-- Reads a text that holds one value and nothing else. -/
def read (input : String) : Option Json := do
  let (value, s) ← Reader.value maxDepth (Text.skipSeparators input.toList)
  if Text.skipSeparators s = [] then some value else none

end Generics.Json
