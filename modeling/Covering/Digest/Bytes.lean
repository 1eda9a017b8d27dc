/-!
# Bytes

Numbers as bytes with the low byte first, and bytes as hexadecimal text.

## Main definitions

* `littleEndian`: The bytes of a number.
* `hexText`: Two digits for each byte.
* `textBytes`: The UTF-8 form of a text.

## Theorems

* `length_littleEndian`: A number takes the bytes it is given.
-/

namespace Covering

namespace Digest

/-- The `size` low bytes of `n`, the lowest first. -/
def littleEndian : (size : Nat) → (n : Nat) → List UInt8
  | 0, _ => []
  | size + 1, n => n.toUInt8 :: littleEndian size (n / 256)

@[simp] theorem length_littleEndian (size n : Nat) : (littleEndian size n).length = size := by
  induction size generalizing n with
  | zero => rfl
  | succ size ih => simp only [littleEndian, List.length_cons, ih]

/-- The `size` low bytes of `n`, the highest first. -/
def bigEndian (size n : Nat) : List UInt8 := (littleEndian size n).reverse

/-- Two lowercase hexadecimal digits. -/
def hexByte (b : UInt8) : List Char :=
  [Nat.digitChar (b.toNat / 16), Nat.digitChar (b.toNat % 16)]

/-- Two lowercase hexadecimal digits for each byte. -/
def hexText (bytes : List UInt8) : String := String.ofList (bytes.flatMap hexByte)

/-- The UTF-8 form of a text. -/
def textBytes (s : String) : List UInt8 := s.toUTF8.toList

/-- The bytes in blocks of `size`, the last of them shorter where need be. -/
def blocks (size : Nat) : List UInt8 → List (List UInt8)
  | [] => []
  | b :: bs => (b :: bs.take (size - 1)) :: blocks size (bs.drop (size - 1))
termination_by bytes => bytes.length
decreasing_by
  simp only [List.length_drop, List.length_cons]
  omega

end Digest

end Covering
