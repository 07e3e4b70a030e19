/-!
# The 64-bit Mersenne Twister

The generator MT19937-64: 312 words, rewritten in place a block at a time (`Twister.twist`)
and read out through a tempering map. It is seeded from one word, or from a list of 32-bit
words that a mixing pass spreads over the whole state (`spreadSeed`). Every choice of a
quorum or of a swarm draws from it, so all nodes that hold the same seed choose alike.
-/

set_option autoImplicit false

namespace StakeRegistry

/-- The words of the generator and the position of the next one to hand out; position 312
means that the block is used up. -/
structure Twister where
  words : Vector UInt64 312
  position : Nat
  deriving DecidableEq

namespace Twister

/-- The low half of a word that the recurrence folds in when the joined word is odd. -/
def twistMask : UInt64 := 0xB5026F5AA96619E9

def upperMask : UInt64 := 0xFFFFFFFF80000000

def lowerMask : UInt64 := 0x7FFFFFFF

/-- The upper bits of `a` joined with the lower bits of `b`, shifted right, with `twistMask`
folded in when the joined word is odd. -/
def combine (a b : UInt64) : UInt64 :=
  let x := (a &&& upperMask) ||| (b &&& lowerMask)
  if x &&& 1 = 0 then x >>> 1 else (x >>> 1) ^^^ twistMask

/-- The position `k` steps round the block. -/
def wrap (k : Nat) : Fin 312 := ⟨k % 312, Nat.mod_lt _ (by decide)⟩

/-- Rewrites the word at one position from its successor and the word half a block on. -/
def twistAt (words : Vector UInt64 312) (i : Fin 312) : Vector UInt64 312 :=
  words.set i.val (words[wrap (i.val + 156)] ^^^ combine words[i] words[wrap (i.val + 1)])

/-- Rewrites the whole block, in place and in order: later positions read words that have
been rewritten already. -/
def twist (words : Vector UInt64 312) : Vector UInt64 312 :=
  Fin.foldl 312 twistAt words

/-- The tempering map from a word of the state to the word handed out. -/
def temper (x₀ : UInt64) : UInt64 :=
  let x₁ := x₀ ^^^ ((x₀ >>> 29) &&& 0x5555555555555555)
  let x₂ := x₁ ^^^ ((x₁ <<< 17) &&& 0x71D67FFFEDA60000)
  let x₃ := x₂ ^^^ ((x₂ <<< 37) &&& 0xFFF7EEE000000000)
  x₃ ^^^ (x₃ >>> 43)

/-- The generator with an unused word at its position. -/
def refill (g : Twister) : Twister :=
  if g.position < 312 then g else ⟨twist g.words, 0⟩

/-- The word of the state that the next draw reads, before tempering. -/
def current (g : Twister) : UInt64 := g.refill.words[wrap g.refill.position]

/-- The next random word, and the generator after it. -/
def next (g : Twister) : UInt64 × Twister :=
  (temper g.current, { g.refill with position := g.refill.position + 1 })

/-! ## Seeding -/

/-- The word that follows `w` at position `i` of a block seeded from one word. -/
def seedStep (w : UInt64) (i : Nat) : UInt64 :=
  (6364136223846793005 : UInt64) * (w ^^^ (w >>> 62)) + UInt64.ofNat i

/-- The generator seeded from one word. -/
def ofSeed (seed : UInt64) : Twister :=
  let words := Fin.foldl 312 (fun (acc : Vector UInt64 312 × UInt64) i =>
    let w := if i.val = 0 then seed else seedStep acc.2 i.val
    (acc.1.set i.val w, w)) (Vector.replicate 312 0, 0)
  ⟨words.1, 312⟩

/-- The position `k` steps round the 624 half words of a seed that is being spread. -/
def wrapHalf (k : Nat) : Fin 624 := ⟨k % 624, Nat.mod_lt _ (by decide)⟩

def foldDown (x : UInt32) : UInt32 := x ^^^ (x >>> 27)

/-- One step of the first pass: adds the seed word of this step into the block. -/
def spreadUp (seed : List UInt32) (v : Vector UInt32 624) (k : Nat) : Vector UInt32 624 :=
  let r₁ := (1664525 : UInt32) * foldDown (v[wrapHalf k] ^^^ v[wrapHalf (k + 306)] ^^^ v[wrapHalf (k + 623)])
  let r₂ :=
    if k = 0 then r₁ + UInt32.ofNat seed.length
    else r₁ + UInt32.ofNat (k % 624) + (seed[k - 1]?).getD 0
  let v := v.set (wrapHalf (k + 306)).val (v[wrapHalf (k + 306)] + r₁)
  let v := v.set (wrapHalf (k + 317)).val (v[wrapHalf (k + 317)] + r₂)
  v.set (wrapHalf k).val r₂

/-- One step of the second pass, which mixes the block with itself. -/
def spreadDown (v : Vector UInt32 624) (k : Nat) : Vector UInt32 624 :=
  let r₃ := (1566083941 : UInt32) * foldDown (v[wrapHalf k] + v[wrapHalf (k + 306)] + v[wrapHalf (k + 623)])
  let r₄ := r₃ - UInt32.ofNat (k % 624)
  let v := v.set (wrapHalf (k + 306)).val (v[wrapHalf (k + 306)] ^^^ r₃)
  let v := v.set (wrapHalf (k + 317)).val (v[wrapHalf (k + 317)] ^^^ r₄)
  v.set (wrapHalf k).val r₄

/-- Spreads a list of seed words over 624 half words. -/
def spreadSeed (seed : List UInt32) : Vector UInt32 624 :=
  let m := max (seed.length + 1) 624
  let v := (List.range m).foldl (spreadUp seed) (Vector.replicate 624 0x8b8b8b8b)
  (List.range 624).foldl (fun v k => spreadDown v (m + k)) v

/-- The generator seeded from a list of 32-bit words. A block that would be stuck at zero
gets its top bit set. -/
def ofSeedWords (seed : List UInt32) : Twister :=
  let half := spreadSeed seed
  let words : Vector UInt64 312 := Vector.ofFn fun i =>
    (half[wrapHalf (2 * i.val)]).toUInt64 ||| ((half[wrapHalf (2 * i.val + 1)]).toUInt64 <<< 32)
  let stuck := words[0] &&& upperMask == 0 && words.toList.tail.all (· == 0)
  ⟨if stuck then words.set 0 ((1 : UInt64) <<< 63) else words, 312⟩

end Twister

end StakeRegistry
