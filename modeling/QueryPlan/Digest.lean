/-!
# Digests

The digest of a byte string is its 256-bit BLAKE3 hash.  The input is cut into chunks, each chunk
into blocks, and the blocks of a chunk are compressed one after the other; the chaining values of
the chunks are then joined in a binary tree.

`Forest` keeps the roots of the complete subtrees over the chunks seen so far, as the digits of a
binary counter: adding a chunk carries exactly as adding one does.  The last chunk is kept back, so
that the root of the tree, and nothing else, is compressed with the root flag.
-/

namespace QueryPlan

/-- A 256-bit digest, as its 32 bytes. -/
structure Digest where
  bytes : List UInt8
deriving DecidableEq, Repr

namespace Blake3

/-- Eight words that stand for everything hashed so far. -/
abbrev Chain := Vector UInt32 8

/-- The words of a message block, and of the state of the compression. -/
abbrev Words := Vector UInt32 16

def initial : Chain :=
  #v[0x6A09E667, 0xBB67AE85, 0x3C6EF372, 0xA54FF53A,
    0x510E527F, 0x9B05688C, 0x1F83D9AB, 0x5BE0CD19]

/-- Where each word of a block comes from in the next round. -/
def schedule : Vector (Fin 16) 16 :=
  #v[2, 6, 3, 10, 7, 0, 4, 13, 1, 11, 12, 5, 9, 14, 15, 8]

def blockBytes : Nat := 64

def chunkBytes : Nat := 1024

def chunkStart : UInt32 := 1

def chunkEnd : UInt32 := 2

def parentFlag : UInt32 := 4

def rootFlag : UInt32 := 8

/-! ## Compression -/

def rotateRight (x : UInt32) (n : UInt32) : UInt32 :=
  (x >>> n) ||| (x <<< (32 - n))

/-- Mixes two message words into four words of the state. -/
def mix (s : Words) (a b c d : Fin 16) (x y : UInt32) : Words :=
  let va := s[a] + s[b] + x
  let vd := rotateRight (s[d] ^^^ va) 16
  let vc := s[c] + vd
  let vb := rotateRight (s[b] ^^^ vc) 12
  let va := va + vb + y
  let vd := rotateRight (vd ^^^ va) 8
  let vc := vc + vd
  let vb := rotateRight (vb ^^^ vc) 7
  (((s.set a va).set b vb).set c vc).set d vd

/-- One round: the columns of the state, then its diagonals. -/
def round (s m : Words) : Words :=
  let s := mix s 0 4 8 12 m[0] m[1]
  let s := mix s 1 5 9 13 m[2] m[3]
  let s := mix s 2 6 10 14 m[4] m[5]
  let s := mix s 3 7 11 15 m[6] m[7]
  let s := mix s 0 5 10 15 m[8] m[9]
  let s := mix s 1 6 11 12 m[10] m[11]
  let s := mix s 2 7 8 13 m[12] m[13]
  mix s 3 4 9 14 m[14] m[15]

def permute (m : Words) : Words :=
  Vector.ofFn fun i => m[schedule[i]]

/-- As many rounds as the first argument says, the block being permuted between them. -/
def rounds : Nat → Words → Words → Words
  | 0, s, _ => s
  | n + 1, s, m => rounds n (round s m) (permute m)

/-- A block that waits to be compressed. -/
structure Block where
  chain : Chain
  words : Words
  counter : UInt64
  length : UInt32
  flags : UInt32

/-- The first eight words that compressing a block yields. -/
def Block.compress (b : Block) : Chain :=
  let start : Words :=
    b.chain ++ #v[initial[0], initial[1], initial[2], initial[3],
      b.counter.toUInt32, (b.counter >>> 32).toUInt32, b.length, b.flags]
  let s := rounds 7 start b.words
  Vector.ofFn fun i => s[i] ^^^ s[i.val + 8]

/-! ## Chunks -/

/-- The number of pieces of a size that cover a length; there is always one. -/
def pieceCount (size length : Nat) : Nat :=
  max 1 ((length + size - 1) / size)

/-- The bytes cut into pieces of a size, the last of which may be short. -/
def pieces (size : Nat) (bytes : Array UInt8) : List (Array UInt8) :=
  (List.range (pieceCount size bytes.size)).map fun i =>
    bytes.extract (i * size) ((i + 1) * size)

/-- The word at a position, its first byte lowest; bytes past the end count as zero. -/
def wordAt (bytes : Array UInt8) (i : Nat) : UInt32 :=
  (bytes.getD i 0).toUInt32 ||| ((bytes.getD (i + 1) 0).toUInt32 <<< 8) |||
    ((bytes.getD (i + 2) 0).toUInt32 <<< 16) ||| ((bytes.getD (i + 3) 0).toUInt32 <<< 24)

def blockWords (bytes : Array UInt8) : Words :=
  Vector.ofFn fun i => wordAt bytes (4 * i.val)

/-- Compresses all blocks of a chunk but the last, which is returned waiting. -/
def chunkBlocks (counter : UInt64) : Chain → UInt32 → List (Array UInt8) → Block
  | chain, start, [] => ⟨chain, blockWords #[], counter, 0, start ||| chunkEnd⟩
  | chain, start, [b] => ⟨chain, blockWords b, counter, b.size.toUInt32, start ||| chunkEnd⟩
  | chain, start, b :: bs =>
      let chain := (Block.mk chain (blockWords b) counter b.size.toUInt32 start).compress
      chunkBlocks counter chain 0 bs

/-- The last block of a chunk, given the chunk's place in the input. -/
def chunkBlock (counter : Nat) (bytes : Array UInt8) : Block :=
  chunkBlocks counter.toUInt64 initial chunkStart (pieces blockBytes bytes)

/-! ## The tree over the chunks -/

/-- The block that joins two subtrees. -/
def parent (left right : Chain) : Block :=
  ⟨initial, left ++ right, 0, blockBytes.toUInt32, parentFlag⟩

/-- The complete subtrees over the chunks seen so far, the smallest first: place `i` holds one over
`2 ^ i` chunks if the number of chunks has that binary digit. -/
abbrev Forest := List (Option Chain)

/-- Adds a chunk, joining subtrees of equal size. -/
def Forest.push : Chain → Forest → Forest
  | c, [] => [some c]
  | c, none :: rest => some c :: rest
  | c, some left :: rest => none :: Forest.push (parent left c).compress rest

/-- Joins the last block with all subtrees on its left. -/
def Forest.close : Block → Forest → Block
  | b, [] => b
  | b, none :: rest => Forest.close b rest
  | b, some left :: rest => Forest.close (parent left b.compress) rest

/-- The root block over a list of chunks, the first of which is chunk number `n`. -/
def rootBlock : Nat → Forest → List (Array UInt8) → Block
  | n, forest, [] => forest.close (chunkBlock n #[])
  | n, forest, [chunk] => forest.close (chunkBlock n chunk)
  | n, forest, chunk :: chunks =>
      rootBlock (n + 1) (forest.push (chunkBlock n chunk).compress) chunks

/-- The bytes of a word, the lowest first. -/
def wordBytes (w : UInt32) : List UInt8 :=
  [w.toUInt8, (w >>> 8).toUInt8, (w >>> 16).toUInt8, (w >>> 24).toUInt8]

/-- The chaining value of the root. -/
def hash (bytes : Array UInt8) : Chain :=
  let root := rootBlock 0 [] (pieces chunkBytes bytes)
  Block.compress { root with flags := root.flags ||| rootFlag }

end Blake3

namespace Digest

/-- The digest of a byte string. -/
def ofBytes (bytes : Array UInt8) : Digest :=
  ⟨(Blake3.hash bytes).toList.flatMap Blake3.wordBytes⟩

/-- The digest of a text in UTF-8. -/
def ofText (text : String) : Digest :=
  ofBytes text.toUTF8.data

/-- The two hexadecimal digits of a byte, in lower case. -/
def hexByte (b : UInt8) : List Char :=
  [Nat.digitChar (b.toNat / 16), Nat.digitChar (b.toNat % 16)]

/-- The digest in lower-case hexadecimal. -/
def toHex (d : Digest) : String :=
  String.ofList (d.bytes.flatMap hexByte)

/-- The first eight bytes in hexadecimal. -/
def abbreviation (d : Digest) : String :=
  String.ofList ((d.bytes.take 8).flatMap hexByte)

end Digest

end QueryPlan
