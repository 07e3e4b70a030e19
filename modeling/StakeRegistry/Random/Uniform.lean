import StakeRegistry.Random.Twister
import StakeRegistry.Data.Word

/-!
# Fair draws

A uniform draw below a bound by rejection: words at or above the greatest multiple of the
bound are thrown away, and the others fall into `n` runs of equal length (`runLength`). A
shuffle is one such draw for every position, each naming the earlier position to swap with;
`swapAlong` performs the swaps, apart from the generator.
-/

set_option autoImplicit false

namespace StakeRegistry

/-- Words at or above this limit are rejected by a draw below `n`. -/
def acceptLimit (n : Nat) : Nat := maxU64 - maxU64 % n

/-- How many accepted words give each value of a draw below `n`. -/
def runLength (n : Nat) : Nat := acceptLimit n / n

/-- Draws until a word is accepted, at most `budget` more times. -/
def drawAccepted (n : Nat) : Nat → Twister → Nat × Twister
  | 0, g => (0, g)
  | budget + 1, g =>
      let (word, g') := g.next
      if word.toNat < acceptLimit n then (word.toNat / runLength n, g')
      else drawAccepted n budget g'

/-- The number of rejections after which a draw gives up; every word is accepted with a
chance of a half or more, so no draw comes near it. -/
def rejectionBudget : Nat := 0x10000000000000000

/-- A number below `n`, every one equally likely; zero, without a draw, when `n ≤ 1`. -/
def drawBelow (n : Nat) (g : Twister) : Nat × Twister :=
  if n ≤ 1 then (0, g) else drawAccepted n rejectionBudget g

/-! ## Shuffles -/

/-- The list with the items at two positions exchanged. -/
def swapItems {α : Type} (items : List α) (i j : Nat) : List α :=
  match items[i]?, items[j]? with
  | some x, some y => (items.set i y).set j x
  | _, _ => items

/-- Swaps position `i` with the first position of `js`, position `i + 1` with the second,
and so on. -/
def swapAlong {α : Type} (items : List α) : Nat → List Nat → List α
  | _, [] => items
  | i, j :: js => swapAlong (swapItems items i j) (i + 1) js

/-- One draw for each of `count` positions from `i` on: position `i` draws below `i + 1`. -/
def drawSwaps : Nat → Nat → Twister → List Nat × Twister
  | _, 0, g => ([], g)
  | i, count + 1, g =>
      let (j, g) := drawBelow (i + 1) g
      let (js, g) := drawSwaps (i + 1) count g
      (j :: js, g)

/-- The items in random order. -/
def shuffle {α : Type} (items : List α) (g : Twister) : List α × Twister :=
  let (js, g) := drawSwaps 1 (items.length - 1) g
  (swapAlong items 1 js, g)

end StakeRegistry
