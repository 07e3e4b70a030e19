import StakeRegistry.Data.Bytes

/-!
# Keccak-256

The chain's hash: the Keccak sponge at rate 136 bytes over the permutation of 25 lanes, with
the padding that starts with the byte `0x01`. Lane `x + 5 * y` holds column `x` of row `y`.
-/

set_option autoImplicit false

namespace StakeRegistry.Keccak

/-- The 25 lanes of the sponge. -/
abbrev State := Vector UInt64 25

/-- The lane in column `x` of row `y`, both taken modulo 5. -/
def State.lane (s : State) (x y : Nat) : UInt64 :=
  s.get ⟨x % 5 + 5 * (y % 5), by omega⟩

def rotateLeft (w : UInt64) (k : UInt64) : UInt64 :=
  if k = 0 then w else (w <<< k) ||| (w >>> (64 - k))

/-- The number of bits by which each lane is rotated. -/
def rotations : Vector UInt64 25 :=
  #v[0, 1, 62, 28, 27,
     36, 44, 6, 55, 20,
     3, 10, 43, 25, 39,
     41, 45, 15, 21, 8,
     18, 2, 61, 56, 14]

/-- The constants folded into the first lane, one for each round. -/
def roundConstants : List UInt64 :=
  [0x0000000000000001, 0x0000000000008082, 0x800000000000808A, 0x8000000080008000,
   0x000000000000808B, 0x0000000080000001, 0x8000000080008081, 0x8000000000008009,
   0x000000000000008A, 0x0000000000000088, 0x0000000080008009, 0x000000008000000A,
   0x000000008000808B, 0x800000000000008B, 0x8000000000008089, 0x8000000000008003,
   0x8000000000008002, 0x8000000000000080, 0x000000000000800A, 0x800000008000000A,
   0x8000000080008081, 0x8000000000008080, 0x0000000080000001, 0x8000000080008008]

/-- Folds into every lane the parities of two neighbouring columns. -/
def mixColumns (s : State) : State :=
  let parity : Vector UInt64 5 := Vector.ofFn fun x =>
    s.lane x.val 0 ^^^ s.lane x.val 1 ^^^ s.lane x.val 2 ^^^ s.lane x.val 3 ^^^ s.lane x.val 4
  let effect : Vector UInt64 5 := Vector.ofFn fun x =>
    parity.get ⟨(x.val + 4) % 5, by omega⟩ ^^^ rotateLeft (parity.get ⟨(x.val + 1) % 5, by omega⟩) 1
  Vector.ofFn fun i => s[i] ^^^ effect.get ⟨i.val % 5, by omega⟩

/-- Rotates every lane and moves it to its new place. -/
def rotateAndMove (s : State) : State :=
  Vector.ofFn fun i =>
    -- The lane that moves to column `i % 5` of row `i / 5`.
    let x := (i.val % 5 + 3 * (i.val / 5)) % 5
    let y := i.val % 5
    rotateLeft (s.lane x y) (rotations.get ⟨x + 5 * y, by omega⟩)

/-- Combines every lane with the two that follow it in its row. -/
def mixRows (s : State) : State :=
  Vector.ofFn fun i =>
    s[i] ^^^ (~~~(s.lane (i.val % 5 + 1) (i.val / 5)) &&& s.lane (i.val % 5 + 2) (i.val / 5))

def round (s : State) (c : UInt64) : State :=
  let t := mixRows (rotateAndMove (mixColumns s))
  t.set 0 (t[0] ^^^ c)

def permute (s : State) : State := roundConstants.foldl round s

/-- The number of bytes absorbed before each permutation. -/
def rate : Nat := 136

/-- Folds one block of message bytes into the first lanes. -/
def xorBlock (block : List UInt8) (s : State) : State :=
  Vector.ofFn fun i => s[i] ^^^ UInt64.ofNat (leNat ((block.drop (8 * i.val)).take 8))

/-- Absorbs `count` blocks from the front of the bytes. -/
def absorb : Nat → List UInt8 → State → State
  | 0, _, s => s
  | count + 1, bytes, s =>
      absorb count (bytes.drop rate) (permute (xorBlock (bytes.take rate) s))

/-- The message filled up to a whole number of blocks. -/
def pad (message : List UInt8) : List UInt8 :=
  let gap := rate - message.length % rate
  if gap = 1 then message ++ [0x81]
  else message ++ 0x01 :: (List.replicate (gap - 2) 0 ++ [0x80])

/-- The Keccak-256 hash of a message. -/
def hash (message : List UInt8) : Bytes 32 :=
  let s := absorb (message.length / rate + 1) (pad message) (Vector.replicate 25 0)
  Bytes.ofListPad 32 ((s.toList.take 4).flatMap fun w => leBytes 8 w.toNat)

end StakeRegistry.Keccak
