/-!
# Decimal digits

Writing numbers in base ten, alone and padded to a width.

## Main definitions

* `digits`: The decimal digits of a number.
* `padded`: The digits with zeros in front up to a width.
* `padLeft`: A text with blanks in front up to a width.
-/

namespace Covering

namespace Decimal

/-- The decimal digits of `n`, without leading zeros. -/
def digits (n : Nat) : List Char := Nat.toDigits 10 n

/-- The decimal digits of `n` with as many zeros in front as `width` asks for. -/
def padded (width n : Nat) : List Char := (digits n).leftpad width '0'

/-- The text with as many blanks in front as `width` asks for. -/
def padLeft (width : Nat) (text : List Char) : List Char := text.leftpad width ' '

end Decimal

end Covering
