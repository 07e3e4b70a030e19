/-!
# Sixty-four-bit quantities

Amounts, heights and times are natural numbers, each of which fits a 64-bit word. Where a sum or a
product could leave the range, the rules say whether it stops at the greatest value (`satAdd`) or
comes round to zero (`wrapAdd`). `mulDiv` is the exact quotient of a product, with the same
ceiling, and is where every share of a stake or of a reward comes from.
-/

set_option autoImplicit false

namespace StakeRegistry

/-- The greatest 64-bit value. It also stands for "unknown" and "without limit". -/
def maxU64 : Nat := 0xffffffffffffffff

/-- A value cut off at the greatest 64-bit value. -/
def clampU64 (n : Nat) : Nat := min n maxU64

/-- A sum cut off at the greatest 64-bit value. -/
def satAdd (a b : Nat) : Nat := clampU64 (a + b)

/-- Quantities summed, cut off at the greatest 64-bit value. -/
def satSum (l : List Nat) : Nat := l.foldl satAdd 0

/-- A sum that comes round to zero past the greatest 64-bit value. -/
def wrapAdd (a b : Nat) : Nat := (a + b) % 0x10000000000000000

/-- Quantities summed, as numbers. The zero is written out so that it is the same one whatever
else is imported. -/
def totalOf (l : List Nat) : Nat := @List.sum Nat _ ⟨0⟩ l

/-- The product of `a` and `b` divided by `c`, rounded down and cut off at the greatest
64-bit value; a division by zero gives zero. -/
def mulDiv (a b c : Nat) : Nat := clampU64 (a * b / c)

/-- The least and greatest values of a signed 64-bit quantity. -/
def minI64 : Int := -0x8000000000000000

def maxI64 : Int := 0x7fffffffffffffff

/-- The signed quantity with the same 64-bit word as a number: the number itself if it is one, and
what it has come round to if not. -/
def wrapI64 (i : Int) : Int := Int.bmod i 0x10000000000000000

/-- The 64-bit word of a natural number read as a signed quantity. -/
def toI64 (n : Nat) : Int := wrapI64 n

/-- The 64-bit word of a signed quantity read as a natural number. -/
def ofI64 (i : Int) : Nat := (i % 0x10000000000000000).toNat

theorem clampU64_of_le {n : Nat} (h : n ≤ maxU64) : clampU64 n = n := Nat.min_eq_left h

theorem clampU64_le (n : Nat) : clampU64 n ≤ maxU64 := Nat.min_le_right _ _

/-- A sum within the range is the sum. -/
theorem wrapAdd_of_le {a b : Nat} (h : a + b ≤ maxU64) : wrapAdd a b = a + b :=
  Nat.mod_eq_of_lt (Nat.lt_succ_of_le h)

theorem wrapAdd_le (a b : Nat) : wrapAdd a b ≤ a + b := Nat.mod_le _ _

/-- A signed quantity is its own word's. -/
theorem wrapI64_of_mem {i : Int} (hleast : minI64 ≤ i) (hmost : i ≤ maxI64) : wrapI64 i = i := by
  unfold minI64 at hleast
  unfold maxI64 at hmost
  unfold wrapI64
  rw [Int.bmod_eq_of_le] <;> omega

theorem wrapI64_mem (i : Int) : minI64 ≤ wrapI64 i ∧ wrapI64 i ≤ maxI64 := by
  unfold wrapI64 minI64 maxI64
  have hleast := Int.le_bmod (x := i) (m := 0x10000000000000000) (by decide)
  have hmost := Int.bmod_lt (x := i) (m := 0x10000000000000000) (by decide)
  omega

/-- A number in the lower half of the 64-bit words is read as itself. -/
theorem toI64_of_lt {n : Nat} (h : n < 0x8000000000000000) : toI64 n = n :=
  wrapI64_of_mem (by unfold minI64; omega) (by unfold maxI64; omega)

end StakeRegistry
