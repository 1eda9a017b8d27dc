import Covering.Arithmetic
import Covering.Decimal.Digits
import Covering.Decimal.Shortest

/-!
# JSON numbers

A number written without fraction and exponent is an integer when it fits in
sixty-four bits, with a sign or without; every other number is a double, and so
is `-0`. The digits of a double are gathered into one word as long as they fit,
the point and the digits left over move the exponent of ten, and the word is
scaled once. Doubles are written with the fewest digits that read back.

## Main definitions

* `Number`: An integer or a double.
* `NumberText`: The parts of a written number.
* `NumberText.ofChars?`: The parts, if the text follows the grammar.
* `NumberText.value?`: The number, if it is in range.
* `Number.text`: The written form of a number.
-/

namespace Covering

namespace Json

/-- A number of a JSON document. -/
inductive Number where
  | natural (n : Nat)
  /-- The number `-n`, for a positive `n`. -/
  | negative (n : Nat)
  | double (value : Float)
deriving Repr, Inhabited

/-- The parts of a written number. -/
structure NumberText where
  negative : Bool
  whole : List Char
  /-- The digits after the point, if there is one. -/
  fraction : Option (List Char)
  /-- Whether the exponent is negative, and its digits, if there is one. -/
  exponent : Option (Bool × List Char)
deriving DecidableEq, Repr

namespace NumberText

/-- The digits after a point: at least one. -/
def takeFraction? : List Char → Option (Option (List Char) × List Char)
  | '.' :: cs =>
    let (digits, rest) := cs.span Char.isDigit
    if digits.isEmpty then none else some (some digits, rest)
  | cs => some (none, cs)

/-- An exponent, which is the rest of the text: a sign if any, then at least one
    digit. -/
def takeExponent? : List Char → Option (Option (Bool × List Char))
  | [] => some none
  | mark :: cs =>
    if mark = 'e' ∨ mark = 'E' then
      let (negative, digits) := match cs with
        | '+' :: cs => (false, cs)
        | '-' :: cs => (true, cs)
        | cs => (false, cs)
      if !digits.isEmpty && digits.all Char.isDigit then some (some (negative, digits)) else none
    else none

/-- A number without its sign: digits, of which zero leads only alone, then
    fraction and exponent if there are any. -/
def ofUnsigned? (negative : Bool) (cs : List Char) : Option NumberText := do
  let (whole, rest) := cs.span Char.isDigit
  guard (!whole.isEmpty && (whole.head? != some '0' || whole.length == 1))
  let (fraction, rest) ← takeFraction? rest
  let exponent ← takeExponent? rest
  pure { negative, whole, fraction, exponent }

/-- The parts of a number, if the text follows the grammar. -/
def ofChars? : List Char → Option NumberText
  | '-' :: cs => ofUnsigned? true cs
  | cs => ofUnsigned? false cs

/-- Appends digits to a number while it stays a word, and gives back those that
    are left. -/
def gather (n : Nat) : List Char → Nat × List Char
  | [] => (n, [])
  | c :: cs =>
    let n' := n * 10 + (c.toNat - '0'.toNat)
    if n' < wordLimit then gather n' cs else (n, c :: cs)

/-- The number that digits write. -/
def valueOf (cs : List Char) : Nat :=
  cs.foldl (fun n c => n * 10 + (c.toNat - '0'.toNat)) 0

/-- A power of ten as a double. -/
def powerOfTen (exponent : Nat) : Float := Float.ofScientific 1 false exponent

/-- A double divided by a power of ten, in steps that a double can hold. -/
def divideByPower (f : Float) : Nat → Float
  | exponent =>
    if h : exponent ≤ 308 then f / powerOfTen exponent
    else if f == 0 then f
    else divideByPower (f / powerOfTen 308) (exponent - 308)
termination_by exponent => exponent

/-- The double `n * 10 ^ exponent`, unless it is too large to be one. -/
def scaled? (n : Nat) (exponent : Int) : Option Float :=
  let f := n.toUInt64.toFloat
  if exponent < 0 then some (divideByPower f (-exponent).toNat)
  else if 308 < exponent then if n = 0 then some f else none
  else
    let product := f * powerOfTen exponent.toNat
    if product.isInf then none else some product

/-- The exponents that can be applied at all; a larger one overflows or leaves
    nothing. -/
def exponentLimit : Nat := 2147483648

/-- The magnitude of a number as a double, unless it is too large to be one. -/
def magnitude? (text : NumberText) : Option Float :=
  let (n, unfit) := gather 0 text.whole
  let fraction := text.fraction.getD []
  let (n, unread) := gather n fraction
  let shift : Int := unfit.length - ((fraction.length : Int) - unread.length)
  match text.exponent with
  | none => scaled? n shift
  | some (negative, digits) =>
    let exponent := valueOf digits
    if exponentLimit ≤ exponent then
      if negative ∨ n = 0 then some 0 else none
    else scaled? n (if negative then shift - exponent else shift + exponent)

/-- The number that the parts stand for, unless it is out of range. -/
def value? (text : NumberText) : Option Number :=
  let (n, unfit) := gather 0 text.whole
  if text.fraction.isNone && text.exponent.isNone && unfit.isEmpty
      && (!text.negative || (n != 0 && n ≤ signedLimit)) then
    some (if text.negative then .negative n else .natural n)
  else
    text.magnitude?.map fun f => .double (if text.negative then -f else f)

end NumberText

/-- Digits with a point after the first `places` of them; the places may lie
    before or after the digits. -/
def placePoint (digits : List Char) (places : Int) : List Char :=
  if places ≤ 0 then '0' :: '.' :: (List.replicate (-places).toNat '0' ++ digits)
  else
    let whole := digits.take places.toNat
    let fraction := digits.drop places.toNat
    whole ++ List.replicate (places.toNat - digits.length) '0' ++ '.' ::
      (if fraction.isEmpty then ['0'] else fraction)

/-- A decimal, written out when its first digit stands between the fifth place
    after the point and the sixteenth before it, and otherwise with a signed
    exponent. -/
def scientificText (d : Decimal.Scientific) : List Char :=
  let digits := Decimal.digits d.significand
  let leading : Int := d.exponent + digits.length - 1
  if -5 ≤ leading ∧ leading ≤ 15 then placePoint digits (leading + 1)
  else
    let mantissa := match digits with
      | [] => []
      | [c] => [c]
      | c :: cs => c :: '.' :: cs
    let sign := if leading < 0 then '-' else '+'
    mantissa ++ 'e' :: sign :: Decimal.digits leading.natAbs

/-- The written form of a finite double: the fewest digits that read back, with
    a fraction even where it is zero. -/
def doubleText (f : Float) : List Char :=
  let magnitude := Decimal.Binary.ofBits f.toBits
  let sign := if signedLimit ≤ f.toBits.toNat then ['-'] else []
  if magnitude.significand = 0 then sign ++ ['0', '.', '0']
  else sign ++ scientificText (Decimal.Shortest.ofBinary magnitude)

namespace Number

/-- The written form of a number. -/
def text : Number → List Char
  | natural n => Decimal.digits n
  | negative n => '-' :: Decimal.digits n
  | double f => doubleText f

end Number

end Json

end Covering
