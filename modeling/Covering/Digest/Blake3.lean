import Covering.Arithmetic
import Covering.Digest.Bytes

/-!
# BLAKE3

The hash of fingerprints. The input is cut into chunks of 1024 bytes and these
into blocks of sixty-four. A chunk chains its blocks; the chunks are the leaves
of a binary tree whose left side is always a full power of two, and the root's
last compression gives the digest.

## Main definitions

* `compress`: Sixteen words out of a chaining value and a block.
* `Node`: An input to a compression that is still to be made.
* `ofChunk`, `ofTree`: The last compression of a chunk and of a tree.
* `blake3`: The digest in hexadecimal.
-/

namespace Covering

namespace Digest

namespace Blake3

/-- The initial chaining value. -/
def initial : List UInt32 :=
  [0x6A09E667, 0xBB67AE85, 0x3C6EF372, 0xA54FF53A, 0x510E527F, 0x9B05688C, 0x1F83D9AB, 0x5BE0CD19]

/-- The order in which a round's message words are taken from those of the round
    before. -/
def permutation : List Nat := [2, 6, 3, 10, 7, 0, 4, 13, 1, 11, 12, 5, 9, 14, 15, 8]

/-- The flag of the first block of a chunk. -/
def chunkStart : UInt32 := 1

/-- The flag of the last block of a chunk. -/
def chunkEnd : UInt32 := 2

/-- The flag of a node that joins two trees. -/
def parentNode : UInt32 := 4

/-- The flag of the last compression of all. -/
def root : UInt32 := 8

/-- Rotation to the right. -/
def rotate (x : UInt32) (n : UInt32) : UInt32 := (x >>> n) ||| (x <<< (32 - n))

/-- Mixes two message words into four words of the state. -/
def quarter (v : Array UInt32) (ia ib ic id : Nat) (x y : UInt32) : Array UInt32 :=
  let a := v.getD ia 0
  let b := v.getD ib 0
  let c := v.getD ic 0
  let d := v.getD id 0
  let a := a + b + x
  let d := rotate (d ^^^ a) 16
  let c := c + d
  let b := rotate (b ^^^ c) 12
  let a := a + b + y
  let d := rotate (d ^^^ a) 8
  let c := c + d
  let b := rotate (b ^^^ c) 7
  (((v.setIfInBounds ia a).setIfInBounds ib b).setIfInBounds ic c).setIfInBounds id d

/-- The words of the state that the eight steps of a round mix: the columns,
    then the diagonals. -/
def columns : List (Nat × Nat × Nat × Nat) :=
  [(0, 4, 8, 12), (1, 5, 9, 13), (2, 6, 10, 14), (3, 7, 11, 15),
   (0, 5, 10, 15), (1, 6, 11, 12), (2, 7, 8, 13), (3, 4, 9, 14)]

/-- One round over the message words. -/
def mixRound (v : Array UInt32) (message : Array UInt32) : Array UInt32 :=
  columns.zipIdx.foldl
    (fun v step =>
      let (ia, ib, ic, id) := step.1
      quarter v ia ib ic id (message.getD (2 * step.2) 0) (message.getD (2 * step.2 + 1) 0))
    v

/-- Several rounds, with the message words permuted between them. -/
def mixRounds : Nat → Array UInt32 → Array UInt32 → Array UInt32
  | 0, v, _ => v
  | n + 1, v, message =>
    mixRounds n (mixRound v message) (permutation.map fun i => message.getD i 0).toArray

/-- A compression that is still to be made. -/
structure Node where
  chaining : List UInt32
  block : List UInt32
  counter : Nat
  length : Nat
  flags : UInt32

/-- The sixteen words of a compression, of which the first eight are the next
    chaining value. -/
def compress (node : Node) (more : UInt32) : List UInt32 :=
  let low := node.counter.toUInt32
  let high := (node.counter / halfLimit).toUInt32
  let start := node.chaining ++ initial.take 4 ++
    [low, high, node.length.toUInt32, node.flags ||| more]
  let v := (mixRounds 7 start.toArray node.block.toArray).toList
  let left := v.take 8
  let right := v.drop 8
  List.zipWith (· ^^^ ·) left right ++ List.zipWith (· ^^^ ·) right node.chaining

/-- The chaining value of a node that is not the root. -/
def Node.value (node : Node) : List UInt32 := (compress node 0).take 8

/-- A word of four bytes, the lowest first. -/
def word (bytes : List UInt8) : UInt32 :=
  bytes.foldr (fun b acc => (acc <<< 8) ||| b.toUInt32) 0

/-- The sixteen words of a block, with zeros for what it lacks. -/
def blockWords (block : List UInt8) : List UInt32 :=
  let words := (blocks 4 block).map word
  words ++ List.replicate (16 - words.length) 0

/-- Chains the blocks of a chunk; its last compression is left to be made. -/
def chain (counter : Nat) (chaining : List UInt32) (flags : UInt32) :
    List (List UInt8) → Node
  | [] => ⟨chaining, blockWords [], counter, 0, flags ||| chunkEnd⟩
  | [block] => ⟨chaining, blockWords block, counter, block.length, flags ||| chunkEnd⟩
  | block :: rest =>
    let node : Node := ⟨chaining, blockWords block, counter, block.length, flags⟩
    chain counter node.value 0 rest

/-- The last compression of a chunk. -/
def ofChunk (counter : Nat) (chunk : List UInt8) : Node :=
  chain counter initial chunkStart (blocks 64 chunk)

/-- The compression that joins two trees. -/
def join (left right : Node) : Node :=
  ⟨initial, left.value ++ right.value, 0, 64, parentNode⟩

/-- The largest power of two below `n`, for `n` of at least two, among those
    from `power` on; `tries` bounds how often it is doubled. -/
def leftSize (n : Nat) : (tries : Nat) → (power : Nat) → Nat
  | 0, power => power
  | tries + 1, power => if power * 2 < n then leftSize n tries (power * 2) else power

/-- The last compression of a tree of chunks that are numbered from `counter`
    on; `depth` bounds its height. -/
def ofTree : (depth : Nat) → (counter : Nat) → List (List UInt8) → Node
  | _, counter, [] => ofChunk counter []
  | _, counter, [chunk] => ofChunk counter chunk
  | 0, counter, chunk :: _ => ofChunk counter chunk
  | depth + 1, counter, chunks =>
    let left := leftSize chunks.length chunks.length 1
    join (ofTree depth counter (chunks.take left))
      (ofTree depth (counter + left) (chunks.drop left))

end Blake3

/-- The BLAKE3 digest of the bytes, in lowercase hexadecimal. -/
def blake3 (bytes : List UInt8) : String :=
  let chunks := blocks 1024 bytes
  let words := Blake3.compress (Blake3.ofTree chunks.length 0 chunks) Blake3.root
  hexText ((words.take 8).flatMap fun w => littleEndian 4 w.toNat)

end Digest

end Covering
