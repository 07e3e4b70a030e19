import StakeRegistry.Data.Bytes

/-!
# BLAKE3

The hash and the key-derivation mode of BLAKE3. A message is cut into chunks of 1024 bytes
and each chunk into blocks of 64; chunks are joined in a binary tree whose left half holds
the greatest power of two of chunks that leaves one for the right half. The last compression
of the tree is marked as its root.
-/

set_option autoImplicit false

namespace StakeRegistry.Blake3

abbrev Words := Vector UInt32 16

def initialWords : Vector UInt32 8 :=
  #v[0x6A09E667, 0xBB67AE85, 0x3C6EF372, 0xA54FF53A, 0x510E527F, 0x9B05688C, 0x1F83D9AB, 0x5BE0CD19]

def chunkStart : UInt32 := 1
def chunkEnd : UInt32 := 2
def parent : UInt32 := 4
def root : UInt32 := 8
def deriveContext : UInt32 := 32
def deriveMaterial : UInt32 := 64

def rotateRight (w : UInt32) (k : UInt32) : UInt32 := (w >>> k) ||| (w <<< (32 - k))

/-- Mixes two message words into four words of the state. -/
def quarter (v : Words) (a b c d : Fin 16) (x y : UInt32) : Words :=
  let va := v[a] + v[b] + x
  let vd := rotateRight (v[d] ^^^ va) 16
  let vc := v[c] + vd
  let vb := rotateRight (v[b] ^^^ vc) 12
  let va := va + vb + y
  let vd := rotateRight (vd ^^^ va) 8
  let vc := vc + vd
  let vb := rotateRight (vb ^^^ vc) 7
  (((v.set a.val va).set b.val vb).set c.val vc).set d.val vd

/-- One round: the columns, then the diagonals. -/
def round (v m : Words) : Words :=
  let v := quarter v 0 4 8 12 m[0] m[1]
  let v := quarter v 1 5 9 13 m[2] m[3]
  let v := quarter v 2 6 10 14 m[4] m[5]
  let v := quarter v 3 7 11 15 m[6] m[7]
  let v := quarter v 0 5 10 15 m[8] m[9]
  let v := quarter v 1 6 11 12 m[10] m[11]
  let v := quarter v 2 7 8 13 m[12] m[13]
  quarter v 3 4 9 14 m[14] m[15]

/-- The order in which the next round reads the message words of this one. -/
def schedule (m : Words) : Words :=
  #v[m[2], m[6], m[3], m[10], m[7], m[0], m[4], m[13],
     m[1], m[11], m[12], m[5], m[9], m[14], m[15], m[8]]

/-- Seven rounds, the message words permuted between them. -/
def rounds : Nat → Words → Words → Words
  | 0, v, _ => v
  | n + 1, v, m => rounds n (round v m) (schedule m)

/-- A compression that is still to be done: its result is the chaining value of a subtree,
or, with the root mark, the hash. -/
structure Node where
  chaining : Vector UInt32 8
  block : Words
  counter : UInt64
  blockLength : UInt32
  flags : UInt32

/-- The eight words that a compression with extra marks gives. -/
def Node.compress (n : Node) (marks : UInt32) : Vector UInt32 8 :=
  let h := n.chaining
  let v : Words :=
    #v[h[0], h[1], h[2], h[3], h[4], h[5], h[6], h[7],
       initialWords[0], initialWords[1], initialWords[2], initialWords[3],
       n.counter.toUInt32, (n.counter >>> 32).toUInt32, n.blockLength, n.flags ||| marks]
  let w := rounds 7 v n.block
  Vector.ofFn fun i => w[i.val] ^^^ w[i.val + 8]

def Node.chainingValue (n : Node) : Vector UInt32 8 := n.compress 0

/-- The first 32 bytes of output of a tree. -/
def Node.rootHash (n : Node) : List UInt8 :=
  (n.compress root).toList.flatMap fun w => leBytes 4 w.toNat

/-- The sixteen words of a block, zeros after its end. -/
def blockWords (block : List UInt8) : Words :=
  Vector.ofFn fun i => UInt32.ofNat (leNat ((block.drop (4 * i.val)).take 4))

/-- The last compression of a chunk, the earlier blocks having been compressed into
`chaining`. `count` bounds the number of blocks. -/
def chunkFrom (flags : UInt32) (counter : UInt64) :
    Nat → Vector UInt32 8 → UInt32 → List UInt8 → Node
  | 0, chaining, mark, bytes =>
      ⟨chaining, blockWords bytes, counter, UInt32.ofNat bytes.length, flags ||| mark ||| chunkEnd⟩
  | count + 1, chaining, mark, bytes =>
      if bytes.length ≤ 64 then
        ⟨chaining, blockWords bytes, counter, UInt32.ofNat bytes.length,
          flags ||| mark ||| chunkEnd⟩
      else
        let n : Node := ⟨chaining, blockWords (bytes.take 64), counter, 64, flags ||| mark⟩
        chunkFrom flags counter count n.chainingValue 0 (bytes.drop 64)

/-- The greatest power of two below `n`, for `n ≥ 2`. -/
def leftSize (n : Nat) : Nat := Nat.pow 2 (Nat.log2 (n - 1))

/-- The tree over `count` chunks; the first of them has number `counter`. `depth` bounds the
depth of the tree. -/
def tree (key : Vector UInt32 8) (flags : UInt32) : Nat → Nat → Nat → List UInt8 → Node
  | 0, _, counter, bytes => chunkFrom flags (UInt64.ofNat counter) 16 key chunkStart bytes
  | depth + 1, count, counter, bytes =>
      if count ≤ 1 then chunkFrom flags (UInt64.ofNat counter) 16 key chunkStart bytes
      else
        let left := leftSize count
        let l := tree key flags depth left counter (bytes.take (1024 * left))
        let r := tree key flags depth (count - left) (counter + left) (bytes.drop (1024 * left))
        ⟨key, (l.chainingValue ++ r.chainingValue : Vector UInt32 16), 0, 64, flags ||| parent⟩

/-- The hash of a message under a key and a mode. -/
def hashWith (key : Vector UInt32 8) (flags : UInt32) (message : List UInt8) : List UInt8 :=
  let count := (message.length + 1023) / 1024
  (tree key flags (Nat.log2 count + 2) count 0 message).rootHash

/-- The BLAKE3 hash of a message. -/
def hash (message : List UInt8) : Bytes 32 :=
  Bytes.ofListPad 32 (hashWith initialWords 0 message)

/-- The key that BLAKE3 derives in a context from key material. -/
def deriveKey (context : String) (material : List UInt8) : Bytes 32 :=
  let contextKey := hashWith initialWords deriveContext context.toUTF8.toList
  let key : Vector UInt32 8 := Vector.ofFn fun i =>
    UInt32.ofNat (leNat ((contextKey.drop (4 * i.val)).take 4))
  Bytes.ofListPad 32 (hashWith key deriveMaterial material)

end StakeRegistry.Blake3
