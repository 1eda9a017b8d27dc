import Covering.Arithmetic

/-!
# The fewest digits that read back

A finite double is a number `m * 2 ^ q`. The reals that round to it form an
interval around it, whose ends belong to it when `m` is even. Its shortest
decimal is the one with the fewest digits inside the interval, and among those
the nearest to the value.

For a given number of digits only the two neighbours of the value on the
decimal grid can be the answer: if any point of the grid lies in the interval,
one of the two does. All comparisons are between exact integers, over one
common denominator.

## Main definitions

* `Binary`: A positive double as significand and exponent of two.
* `Shortest.ofBinary`: Its shortest decimal.
-/

namespace Covering

namespace Decimal

/-- The value `significand * 2 ^ exponent`. -/
structure Binary where
  significand : Nat
  exponent : Int
deriving DecidableEq, Repr

/-- The value `significand * 10 ^ exponent`. -/
structure Scientific where
  significand : Nat
  exponent : Int
deriving DecidableEq, Repr

namespace Binary

/-- The bit of the significand that the bits of a normal double leave out. -/
def hiddenBit : Nat := 4503599627370496

/-- The magnitude that the bits of a finite double stand for. -/
def ofBits (bits : UInt64) : Binary :=
  let fraction : Nat := bits.toNat % hiddenBit
  let biased : Nat := bits.toNat / hiddenBit % 2048
  if biased = 0 then ⟨fraction, -1074⟩ else ⟨fraction + hiddenBit, (biased : Int) - 1075⟩

end Binary

namespace Shortest

/-- A value and the interval that rounds to it, all over a common denominator.
    -/
structure Interval where
  low : Nat
  value : Nat
  high : Nat
  denominator : Nat
  /-- Whether the ends round to the value too. -/
  closed : Bool

/-- The interval of a positive double. Below a power of two the neighbour is
    only half as far away. -/
def Interval.ofBinary (b : Binary) : Interval :=
  let lower := if b.significand = Binary.hiddenBit ∧ b.exponent ≠ -1074 then 1 else 2
  let up := power 2 b.exponent.toNat
  { low := (4 * b.significand - lower) * up
    value := 4 * b.significand * up
    high := (4 * b.significand + 2) * up
    denominator := 4 * power 2 (-b.exponent).toNat
    closed := b.significand % 2 = 0 }

/-- Whether the decimal lies in the interval. -/
def Interval.contains (i : Interval) (d : Scientific) : Bool :=
  let scaled := d.significand * power 10 d.exponent.toNat * i.denominator
  let unit := power 10 (-d.exponent).toNat
  if i.closed then i.low * unit ≤ scaled && scaled ≤ i.high * unit
  else i.low * unit < scaled && scaled < i.high * unit

/-- The largest multiple of `10 ^ exponent` that is not above the value. -/
def Interval.floor (i : Interval) (exponent : Int) : Nat :=
  i.value * power 10 (-exponent).toNat / (i.denominator * power 10 exponent.toNat)

/-- Twice the distance from the value down to a decimal below it minus the
    distance up to the next one on its grid, over a common denominator: negative
    when the lower one is nearer. -/
def Interval.tilt (i : Interval) (d : Scientific) : Int :=
  let scaled := (2 * d.significand + 1) * power 10 d.exponent.toNat * i.denominator
  2 * (i.value * power 10 (-d.exponent).toNat : Nat) - (scaled : Nat)

/-- The neighbour of the value on the grid of `10 ^ exponent` that lies in the
    interval, the nearer of two, the even one of two at the same distance. -/
def Interval.onGrid? (i : Interval) (exponent : Int) : Option Scientific :=
  let below : Scientific := ⟨i.floor exponent, exponent⟩
  let above : Scientific := ⟨i.floor exponent + 1, exponent⟩
  match i.contains below && below.significand != 0, i.contains above with
  | true, true =>
    let tilt := i.tilt below
    if tilt < 0 ∨ (tilt = 0 ∧ below.significand % 2 = 0) then some below else some above
  | true, false => some below
  | false, true => some above
  | false, false => none

/-- The exponent of ten at which the value has one digit before the point. -/
def Interval.magnitude (i : Interval) : Int :=
  if i.denominator ≤ i.value then
    ((Nat.toDigits 10 (i.value / i.denominator)).length : Int) - 1
  else
    -- The reciprocal has as many digits as there are places to the first one.
    let reciprocal := (i.denominator + i.value - 1) / i.value
    let places := (Nat.toDigits 10 reciprocal).length
    if reciprocal = power 10 (places - 1) then -((places : Int) - 1) else -(places : Int)

/-- Tries grids from the coarsest on, each ten times as fine as the one before. -/
def Interval.search (i : Interval) : Nat → Int → Scientific
  | 0, exponent => ⟨i.floor exponent, exponent⟩
  | tries + 1, exponent =>
    match i.onGrid? exponent with
    | some d => d
    | none => i.search tries (exponent - 1)

/-- The decimal without zeros at its end; `places` bounds how many there are. -/
def dropZeros : Nat → Scientific → Scientific
  | 0, d => d
  | places + 1, d =>
    if d.significand % 10 = 0 ∧ d.significand ≠ 0 then
      dropZeros places ⟨d.significand / 10, d.exponent + 1⟩
    else d

/-- The shortest decimal of a positive double. Seventeen digits always suffice;
    the search starts one place further left, where a single digit may round
    up. -/
def ofBinary (b : Binary) : Scientific :=
  let i := Interval.ofBinary b
  dropZeros 20 (i.search 18 (i.magnitude + 1))

end Shortest

end Decimal

end Covering
