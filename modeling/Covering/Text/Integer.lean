import Covering.Arithmetic

/-!
# Integer text

How the tool reads whole numbers that a person typed: an optional sign, then
digits, and nothing else. Blanks, separators and empty text are refused. The
digits are read from the left, and the first one that cannot be accepted
decides the complaint: a character that is no digit, or the digit at which the
number leaves the range.

## Main definitions

* `IntegerFault`: Why a text is no integer of the wanted range.
* `digitOf?`: The value of a digit in a base up to sixteen.
* `readDigits`: The number that digits write, up to a limit.
* `readNatural`: A number without sign, up to a limit.
* `readSigned`: A number between two limits of either sign.
-/

namespace Covering

namespace Text

/-- Why a text is not an integer of the wanted range. -/
inductive IntegerFault where
  | empty
  | invalidDigit
  | tooLarge
  | tooSmall
deriving DecidableEq, Repr

/-- What the user is told about the fault. -/
def IntegerFault.message : IntegerFault → String
  | .empty => "cannot parse integer from empty string"
  | .invalidDigit => "invalid digit found in string"
  | .tooLarge => "number too large to fit in target type"
  | .tooSmall => "number too small to fit in target type"

/-- The value of `c` as a digit of the given base, in either case of letters. -/
def digitOf? (base : Nat) (c : Char) : Option Nat :=
  let value :=
    if '0' ≤ c && c ≤ '9' then some (c.toNat - '0'.toNat)
    else if 'a' ≤ c && c ≤ 'z' then some (c.toNat - 'a'.toNat + 10)
    else if 'A' ≤ c && c ≤ 'Z' then some (c.toNat - 'A'.toNat + 10)
    else none
  value.filter (· < base)

/-- Reads digits after `acc`, complaining with `excess` at the digit that takes
    the number past `limit`. -/
def readDigits (base limit : Nat) (excess : IntegerFault) (acc : Nat) :
    List Char → Except IntegerFault Nat
  | [] => .ok acc
  | c :: cs =>
    match digitOf? base c with
    | none => .error .invalidDigit
    | some d =>
      let acc := acc * base + d
      if acc ≤ limit then readDigits base limit excess acc cs else .error excess

/-- A number of at least one digit, complaining with `excess` past `limit`. -/
def readMagnitude (base limit : Nat) (excess : IntegerFault) : List Char → Except IntegerFault Nat
  | [] => .error .invalidDigit
  | cs => readDigits base limit excess 0 cs

/-- A number from zero to `limit`; a plus sign is allowed. -/
def readNatural (base limit : Nat) : List Char → Except IntegerFault Nat
  | [] => .error .empty
  | '+' :: cs => readMagnitude base limit .tooLarge cs
  | cs => readMagnitude base limit .tooLarge cs

/-- A decimal number from `-least` to `greatest`; either sign is allowed. -/
def readSigned (least greatest : Nat) : List Char → Except IntegerFault Int
  | [] => .error .empty
  | '-' :: cs => (readMagnitude 10 least .tooSmall cs).map fun n => -(n : Int)
  | '+' :: cs => (readMagnitude 10 greatest .tooLarge cs).map Int.ofNat
  | cs => (readMagnitude 10 greatest .tooLarge cs).map Int.ofNat

/-- A decimal number of sixty-four bits without sign: a count, a position, a
    value, a seed. -/
def readWord (cs : List Char) : Except IntegerFault Nat :=
  readNatural 10 (wordLimit - 1) cs

/-- A decimal number of sixty-four bits with sign. -/
def readSignedWord (cs : List Char) : Except IntegerFault Int :=
  readSigned signedLimit (signedLimit - 1) cs

end Text

end Covering
