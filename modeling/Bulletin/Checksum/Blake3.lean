import Bulletin.Json.Text

/-!
# BLAKE3

The unkeyed hash with 32 bytes of output. The input is cut into chunks of 1024 bytes and each
chunk into blocks of 64. The blocks of a chunk are chained; the chunks are the leaves of a binary
tree in which the left subtree of every node holds the largest power of two of chunks that leaves
something for the right one.

`Output` is a compression that has not been done yet. Only when its place in the tree is known is
it either done to chain it, or done with the root flag to give the hash.
-/

namespace Bulletin.Blake3

/-- The initial chaining value. -/
def initial : List UInt32 :=
  [0x6A09E667, 0xBB67AE85, 0x3C6EF372, 0xA54FF53A, 0x510E527F, 0x9B05688C, 0x1F83D9AB, 0x5BE0CD19]

/-- The order in which the next round takes the message words. -/
def permutation : List Nat := [2, 6, 3, 10, 7, 0, 4, 13, 1, 11, 12, 5, 9, 14, 15, 8]

def chunkStart : UInt32 := 1
def chunkEnd : UInt32 := 2
def parent : UInt32 := 4
def root : UInt32 := 8

def rotateRight (x n : UInt32) : UInt32 := (x >>> n) ||| (x <<< (32 - n))

/-- Mixes two message words into four words of the state. -/
def mix (state : Array UInt32) (a b c d : Nat) (x y : UInt32) : Array UInt32 :=
  let word (i : Nat) := state.getD i 0
  let va := word a + word b + x
  let vd := rotateRight (word d ^^^ va) 16
  let vc := word c + vd
  let vb := rotateRight (word b ^^^ vc) 12
  let va := va + vb + y
  let vd := rotateRight (vd ^^^ va) 8
  let vc := vc + vd
  let vb := rotateRight (vb ^^^ vc) 7
  (((state.setIfInBounds a va).setIfInBounds b vb).setIfInBounds c vc).setIfInBounds d vd

/-- The columns and then the diagonals of the state, with the message words of each. -/
def quarters : List (Nat × Nat × Nat × Nat × Nat × Nat) :=
  [(0, 4, 8, 12, 0, 1), (1, 5, 9, 13, 2, 3), (2, 6, 10, 14, 4, 5), (3, 7, 11, 15, 6, 7),
   (0, 5, 10, 15, 8, 9), (1, 6, 11, 12, 10, 11), (2, 7, 8, 13, 12, 13), (3, 4, 9, 14, 14, 15)]

/-- One round. -/
def oneRound (state message : Array UInt32) : Array UInt32 :=
  quarters.foldl
    (fun state (a, b, c, d, x, y) => mix state a b c d (message.getD x 0) (message.getD y 0)) state

/-- A number of rounds, the message words permuted between them. -/
def rounds : Nat → Array UInt32 → Array UInt32 → Array UInt32
  | 0, state, _ => state
  | n + 1, state, message =>
    rounds n (oneRound state message)
      (permutation.map fun i => message.getD i 0).toArray

/-- A compression to be done: chaining value, message words, counter, block length and flags. -/
structure Output where
  chaining : List UInt32
  message : List UInt32
  counter : Nat
  length : Nat
  flags : UInt32

/-- The first eight words of a compression with further flags. -/
def Output.compress (out : Output) (flags : UInt32) : List UInt32 :=
  let state := (out.chaining ++ initial.take 4 ++
    [UInt32.ofNat out.counter, UInt32.ofNat (out.counter / UInt32.size), UInt32.ofNat out.length,
      out.flags ||| flags]).toArray
  let state := rounds 7 state out.message.toArray
  (List.range 8).map fun i => state.getD i 0 ^^^ state.getD (i + 8) 0

/-! ## Words and pieces -/

/-- Little-endian words of a list of bytes. -/
def words : List UInt8 → List UInt32
  | a :: b :: c :: d :: rest =>
    (a.toUInt32 ||| (b.toUInt32 <<< 8) ||| (c.toUInt32 <<< 16) ||| (d.toUInt32 <<< 24)) :: words rest
  | _ => []

/-- Bytes filled up with zeros to a block. -/
def padded (bytes : List UInt8) : List UInt8 :=
  bytes ++ List.replicate (64 - bytes.length) 0

/-- Cuts a list into pieces of a length, the last one possibly shorter. There is always a piece.
`fuel` bounds the number of cuts. -/
def pieces (length : Nat) : (fuel : Nat) → List UInt8 → List (List UInt8)
  | 0, bytes => [bytes]
  | fuel + 1, bytes =>
    if bytes.length ≤ length then [bytes]
    else bytes.take length :: pieces length fuel (bytes.drop length)

/-! ## Chunks and the tree -/

/-- Chains the blocks of a chunk; the last one stays to be done. -/
def chainBlocks (counter : Nat) : (first : Bool) → List UInt32 → List (List UInt8) → Output
  | _, chaining, [] => ⟨chaining, [], counter, 0, 0⟩
  | first, chaining, [block] =>
    ⟨chaining, words (padded block), counter, block.length,
      chunkEnd ||| (if first then chunkStart else 0)⟩
  | first, chaining, block :: rest =>
    let out : Output :=
      ⟨chaining, words (padded block), counter, block.length, if first then chunkStart else 0⟩
    chainBlocks counter false (out.compress 0) rest

/-- The compression of a chunk. -/
def chunkOutput (counter : Nat) (bytes : List UInt8) : Output :=
  chainBlocks counter true initial (pieces 64 16 bytes)

/-- The compression of an inner node. -/
def parentOutput (left right : Output) : Output :=
  ⟨initial, left.compress 0 ++ right.compress 0, 0, 64, parent⟩

/-- The largest power of two below a number greater than one. -/
def leftSize (n : Nat) : Nat := 2 ^ (n - 1).log2

/-- The compression of the tree over some chunks; `fuel` bounds the height. -/
def treeOutput : (fuel : Nat) → List Output → Output
  | _, [] => ⟨initial, [], 0, 0, 0⟩
  | _, [chunk] => chunk
  | 0, chunk :: _ => chunk
  | fuel + 1, chunks =>
    let left := leftSize chunks.length
    parentOutput (treeOutput fuel (chunks.take left)) (treeOutput fuel (chunks.drop left))

/-- Small hexadecimal digits of a word, its least byte first. -/
def wordHex (w : UInt32) : List Char :=
  (List.range 4).flatMap fun i =>
    let byte := w.toNat / 256 ^ i % 256
    [Json.hexDigit (byte / 16), Json.hexDigit (byte % 16)]

/-- The hash of bytes in hexadecimal. -/
def hash (bytes : ByteArray) : String :=
  let input := bytes.data.toList
  let chunks := (pieces 1024 input.length input).mapIdx chunkOutput
  String.ofList (((treeOutput chunks.length chunks).compress root).flatMap wordHex)

end Bulletin.Blake3
