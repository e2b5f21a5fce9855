import EagerLoad.Bounds

/-! # The BLAKE3 hash

The message is cut into chunks of 1024 bytes, each a chain of blocks of 64 bytes. Chunks are the
leaves of a binary tree whose left subtree holds the largest power of two of chunks that leaves
something for the right. The root is compressed with a flag of its own, and its first thirty-two
bytes are the digest. -/
namespace EagerLoad.Blake3

/-- Eight words that chain one compression to the next. -/
abbrev Chain := Array UInt32

def initial : Chain :=
  #[0x6A09E667, 0xBB67AE85, 0x3C6EF372, 0xA54FF53A, 0x510E527F, 0x9B05688C, 0x1F83D9AB, 0x5BE0CD19]

def chunkStart : UInt32 := 1
def chunkEnd : UInt32 := 2
def parent : UInt32 := 4
def root : UInt32 := 8

/-- The order in which a round takes the message words of the round before. -/
def permutation : List Nat := [2, 6, 3, 10, 7, 0, 4, 13, 1, 11, 12, 5, 9, 14, 15, 8]

def rotateRight (x : UInt32) (n : UInt32) : UInt32 := (x >>> n) ||| (x <<< (32 - n))

def word (words : Array UInt32) (i : Nat) : UInt32 := words.getD i 0

def mix (v : Array UInt32) (a b c d : Nat) (x y : UInt32) : Array UInt32 :=
  let va := word v a + word v b + x
  let vd := rotateRight (word v d ^^^ va) 16
  let vc := word v c + vd
  let vb := rotateRight (word v b ^^^ vc) 12
  let va := va + vb + y
  let vd := rotateRight (vd ^^^ va) 8
  let vc := vc + vd
  let vb := rotateRight (vb ^^^ vc) 7
  (((v.setIfInBounds a va).setIfInBounds b vb).setIfInBounds c vc).setIfInBounds d vd

def round (v m : Array UInt32) : Array UInt32 :=
  let v := mix v 0 4 8 12 (word m 0) (word m 1)
  let v := mix v 1 5 9 13 (word m 2) (word m 3)
  let v := mix v 2 6 10 14 (word m 4) (word m 5)
  let v := mix v 3 7 11 15 (word m 6) (word m 7)
  let v := mix v 0 5 10 15 (word m 8) (word m 9)
  let v := mix v 1 6 11 12 (word m 10) (word m 11)
  let v := mix v 2 7 8 13 (word m 12) (word m 13)
  mix v 3 4 9 14 (word m 14) (word m 15)

/-- So many rounds, the message words being permuted after each. -/
def rounds : Nat → Array UInt32 → Array UInt32 → Array UInt32
  | 0, v, _ => v
  | n + 1, v, m => rounds n (round v m) ((permutation.map (word m)).toArray)

/-- A compression not yet carried out: the root differs from other nodes only in its flags. -/
structure Node where
  chain : Chain
  block : Array UInt32
  counter : Nat
  length : Nat
  flags : UInt32

def Node.compress (n : Node) (extra : UInt32) : Chain :=
  let v := n.chain ++ initial.extract 0 4 ++
    #[n.counter.toUInt32, (n.counter / Bounds.unsigned32).toUInt32, n.length.toUInt32,
      n.flags ||| extra]
  let v := rounds 7 v n.block
  ((List.range 8).map fun i => word v i ^^^ word v (i + 8)).toArray

/-- Sixteen words from at most 64 bytes, the lowest byte first; absent bytes are zero. -/
def blockWords (bytes : List UInt8) : Array UInt32 :=
  let bytes := bytes.toArray
  ((List.range 16).map fun i =>
    let byte (k : Nat) : UInt32 := (bytes.getD (4 * i + k) 0).toUInt32
    byte 0 ||| (byte 1 <<< 8) ||| (byte 2 <<< 16) ||| (byte 3 <<< 24)).toArray

/-- The last node of a chunk of so many blocks, the earlier blocks being compressed in turn. -/
def chunkNode : Nat → Chain → UInt32 → Nat → List UInt8 → Node
  | 0, chain, flags, counter, bytes =>
    ⟨chain, blockWords bytes, counter, bytes.length, flags ||| chunkEnd⟩
  | more + 1, chain, flags, counter, bytes =>
    let first : Node := ⟨chain, blockWords (bytes.take 64), counter, 64, flags⟩
    chunkNode more (first.compress 0) 0 counter (bytes.drop 64)

def chunk (counter : Nat) (bytes : List UInt8) : Node :=
  chunkNode ((bytes.length - 1) / 64) initial chunkStart counter bytes

/-- The largest power of two below the number of chunks. -/
def leftChunks (chunks : Nat) : Nat := Nat.pow 2 (chunks - 1).log2

/-- The node of a subtree that starts at the chunk `counter`. The fuel bounds the height. -/
def tree : Nat → Nat → List UInt8 → Node
  | 0, counter, bytes => chunk counter bytes
  | fuel + 1, counter, bytes =>
    if bytes.length ≤ 1024 then chunk counter bytes
    else
      let left := leftChunks ((bytes.length + 1023) / 1024)
      let l := tree fuel counter (bytes.take (left * 1024))
      let r := tree fuel (counter + left) (bytes.drop (left * 1024))
      ⟨initial, l.compress 0 ++ r.compress 0, 0, 64, parent⟩

def digest (bytes : List UInt8) : List UInt8 :=
  ((tree bytes.length 0 bytes).compress root).toList.flatMap fun (w : UInt32) =>
    [w.toUInt8, (w >>> 8).toUInt8, (w >>> 16).toUInt8, (w >>> 24).toUInt8]

def byteDigits (b : UInt8) : List Char :=
  [Nat.digitChar (b.toNat / 16), Nat.digitChar (b.toNat % 16)]

def hex (s : String) : String :=
  String.ofList ((digest s.toUTF8.toList).flatMap byteDigits)

end EagerLoad.Blake3
