import Covering.CoveringArray
import Covering.Digest.Blake3

/-!
# Fingerprints

A fingerprint identifies the rows of an array and the request they answer, but
not the seed. It is the digest of a byte sequence that writes every number in
eight bytes and every list after its length. Rows need no lengths, as their
width is that of the counts, and the submodels are there only if there are any,
under a mark of their own.

## Main definitions

* `CoveringArray.fingerprintBytes`: The bytes.
* `CoveringArray.fingerprint`: Their digest.
-/

namespace Covering

open Digest

/-- A number of sixty-four bits. -/
def wordBytes (n : Nat) : List UInt8 := littleEndian 8 n

/-- A list of numbers after its length. -/
def wordsBytes (ns : List Nat) : List UInt8 := wordBytes ns.length ++ ns.flatMap wordBytes

/-- A submodel: its order, then its positions. -/
def Submodel.bytes (submodel : Submodel) : List UInt8 :=
  wordBytes submodel.order ++ wordsBytes submodel.positions

/-- The submodels under their mark, if there are any. -/
def submodelsBytes (submodels : List Submodel) : List UInt8 :=
  if submodels.isEmpty then []
  else textBytes "submodels" ++ wordBytes submodels.length ++ submodels.flatMap Submodel.bytes

namespace CoveringArray

/-- Counts, order, submodels and rows, as bytes. -/
def fingerprintBytes (array : CoveringArray) : List UInt8 :=
  textBytes "frankenpict.array.v1" ++ wordsBytes array.valueCounts ++ wordBytes array.order ++
    submodelsBytes array.submodels ++ wordBytes array.rows.length ++
    array.rows.flatMap fun row => row.flatMap wordBytes

/-- The fingerprint, in hexadecimal. -/
def fingerprint (array : CoveringArray) : String := blake3 array.fingerprintBytes

end CoveringArray

end Covering
