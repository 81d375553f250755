import Generics.Json.Basic

/-!
# Numbers in JSON

A whole number that fits in sixty-four bits, signed if it is negative, is kept
exactly.  Any other number is a floating-point number, made from the digits that
fit in sixty-four bits and a power of ten.

## Main definitions

* `Numeral` — the parts of a written number.
* `Numeral.value?` — its value; a number too large for a float has none.
-/

namespace Generics.Json

/-- A number as it is written. -/
structure Numeral where
  isNegative : Bool
  /-- The digits before the point. -/
  whole : List Char
  /-- The digits behind the point, if there is one. -/
  fraction : Option (List Char)
  /-- The exponent, if there is one. -/
  exponent : Option Int
  deriving Repr

/-- The number that some digits continue: `start`, with the digits behind it. -/
def appendDigits (start : Nat) (digits : List Char) : Nat :=
  digits.foldl (fun n c => 10 * n + (c.toNat - '0'.toNat)) start

/-- How many numbers there are of sixty-four bits. -/
def wordCount : Nat := 0x10000000000000000

/-- The number and the count of the leading digits that can be put behind `start`
without leaving sixty-four bits. -/
def absorb (start : Nat) : List Char → Nat × Nat
  | [] => (start, 0)
  | c :: digits =>
    let next := appendDigits start [c]
    if next < wordCount then
      let (n, count) := absorb next digits
      (n, count + 1)
    else (start, 0)

/-- The float `x / 10 ^ k`, in steps that stay within the range of floats. -/
def scaleDown (x : Float) (k : Nat) : Float :=
  if k ≤ 308 then x / Float.ofScientific 1 false k
  else if x == 0 then x
  else scaleDown (x / Float.ofScientific 1 false 308) (k - 308)
termination_by k

/-- The float `n * 10 ^ e`, if it is finite. -/
def scaled? (n : Nat) (e : Int) : Option Float :=
  let x := Float.ofScientific n false 0
  if e < 0 then some (scaleDown x (-e).toNat)
  else if 308 < e then (if n = 0 then some x else none)
  else
    let y := x * Float.ofScientific 1 false e.toNat
    if y.isFinite then some y else none

namespace Numeral

/-- The number as a float.  Digits before the point that do not fit count for a
power of ten; behind the point they are dropped. -/
def float? (n : Numeral) : Option Float :=
  let (m, wholeCount) := absorb 0 n.whole
  let (m, fractionCount) := absorb m (n.fraction.getD [])
  let shift : Int := (n.whole.length - wholeCount : Nat) - (fractionCount : Int)
  (scaled? m (shift + n.exponent.getD 0)).map fun x => if n.isNegative then -x else x

/-- The number as a whole number, if it is written as one and fits.  A negative
zero is not whole. -/
def int? (n : Numeral) : Option Int :=
  let m := appendDigits 0 n.whole
  if n.fraction.isSome || n.exponent.isSome then none
  else if n.isNegative then
    if 0 < m ∧ m ≤ wordCount / 2 then some (-(m : Int)) else none
  else if m < wordCount then some m else none

/-- The value of a written number. -/
def value? (n : Numeral) : Option Json :=
  match n.int? with
  | some whole => some (.int whole)
  | none => n.float?.map .float

end Numeral

end Generics.Json
