/-!
# Shortest decimals

The decimal text of a floating-point number has the fewest digits that read back
as the same number, and of several such decimals it is the nearest.

A finite number is `m * 2 ^ q`.  The reals that round to it form an interval; its
ends belong to it when `m` is even.  Seen from coarse to fine decimal grids, the
first grid with a point in the interval gives the digits, and only the two
neighbours of the number on a grid need to be tried.

## Main definitions

* `Decimal` — digits and a power of ten.
* `Decimal.Interval` — the reals that round to a number, on a common scale.
* `Decimal.shortest` — the shortest decimal of `m * 2 ^ q`.
* `Decimal.ofFloat` — sign and shortest decimal of a finite number.
-/

namespace Generics

/-- The number `digits * 10 ^ exponent`. -/
structure Decimal where
  digits : Nat
  exponent : Int
  deriving DecidableEq, Repr

namespace Decimal

/-- A positive number with the bounds of the reals that round to it.  All three
are quarters of a unit of the last place, and that quarter is `2 ^ scale`. -/
structure Interval where
  low : Nat
  value : Nat
  high : Nat
  scale : Int
  /-- The bounds round to the number as well. -/
  closed : Bool
  deriving Repr

/-- The interval of `m * 2 ^ q`.  Below a power of two the next smaller number is
only half as far, save for the smallest of exponents. -/
def Interval.ofBinary (m : Nat) (q : Int) (isPowerOfTwo : Bool) : Interval where
  low := if isPowerOfTwo then 4 * m - 1 else 4 * m - 2
  value := 4 * m
  high := 4 * m + 2
  scale := q - 2
  closed := m % 2 == 0

/-- The decimal `d * 10 ^ k` lies in the interval whose members are counted in
units of `unit`, against a grid of step `step`. -/
def Interval.covers (i : Interval) (unit step d : Nat) : Bool :=
  if i.closed then i.low * unit ≤ d * step && d * step ≤ i.high * unit
  else i.low * unit < d * step && d * step < i.high * unit

/-- The point of the grid of step `10 ^ k` in the interval that is nearest to the
number.  Of two that are equally near, the even one. -/
def Interval.onGrid? (i : Interval) (k : Int) : Option Nat :=
  -- both sides are multiplied by what makes them whole
  let unit := Nat.pow 2 i.scale.toNat * Nat.pow 10 (-k).toNat
  let step := Nat.pow 10 k.toNat * Nat.pow 2 (-i.scale).toNat
  let below := i.value * unit / step
  let above := below + 1
  let fromBelow := i.value * unit - below * step
  let fromAbove := above * step - i.value * unit
  let belowFits := below != 0 && i.covers unit step below
  let aboveFits := i.covers unit step above
  if belowFits && aboveFits then
    if fromBelow < fromAbove then some below
    else if fromAbove < fromBelow then some above
    else if below % 2 = 0 then some below else some above
  else if belowFits then some below
  else if aboveFits then some above
  else none

/-- The first of `count` grids, from the step `10 ^ k` downwards, with a point in
the interval. -/
def Interval.firstGrid (i : Interval) : (count : Nat) → Int → Decimal
  | 0, k => ⟨0, k⟩
  | count + 1, k =>
    match i.onGrid? k with
    | some digits => ⟨digits, k⟩
    | none => i.firstGrid count (k - 1)

/-- The shortest decimal that reads back as `m * 2 ^ q`.  No finite number reaches
`10 ^ 309`, and the smallest one is above `10 ^ -324`, so the grids between these
powers are enough, with the seventeen digits that can be needed. -/
def shortest (m : Nat) (q : Int) (isPowerOfTwo : Bool) : Decimal :=
  (Interval.ofBinary m q isPowerOfTwo).firstGrid 660 309

/-- The leading bit of a number that is not among the smallest, the only bit of its
fifty-three that is not stored. -/
def hiddenBit : Nat := 0x10000000000000

/-- The sign of a finite number, and its shortest decimal. -/
def ofFloat (x : Float) : Bool × Decimal :=
  let bits := x.toBits.toNat
  let isNegative := bits / 0x8000000000000000 == 1
  let exponent := bits / hiddenBit % 0x800
  let fraction := bits % hiddenBit
  if exponent = 0 then
    if fraction = 0 then (isNegative, ⟨0, 0⟩)
    else (isNegative, shortest fraction (-1074) false)
  else
    (isNegative,
      shortest (hiddenBit + fraction) ((exponent : Int) - 1075) (fraction == 0 && decide (1 < exponent)))

/-- One, a tenth, the smallest number and a power of two, each with the decimal
that names it. -/
example : shortest hiddenBit (-52) true = ⟨1, 0⟩
    ∧ shortest 7205759403792794 (-56) false = ⟨1, -1⟩
    ∧ shortest 1 (-1074) false = ⟨5, -324⟩
    ∧ shortest hiddenBit 971 true = ⟨898846567431158, 293⟩ := by decide +kernel

end Decimal

end Generics
