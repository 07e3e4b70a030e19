import Mathlib.NumberTheory.LegendreSymbol.Basic
import Mathlib.Tactic.FieldSimp
import Mathlib.Tactic.LinearCombination
import StakeRegistry.Proofs.Crypto.Primality

/-!
# The group of the Edwards curve

The points of `-x² + y² = 1 + d x² y²` over the field form a commutative group. Minus one is a
square and `d` is not, so the denominators of the addition law never vanish (`Affine.den_ne_zero`)
and the law has no exceptions. That it is associative is an identity of polynomials, which holds up
to multiples of the three points' equations (`assoc_identity`).
-/

set_option autoImplicit false

namespace StakeRegistry.Edwards

/-! ## Identities -/

section Identities

variable {R : Type} [CommRing R] {d x₁ y₁ x₂ y₂ x₃ y₃ : R}

/-- The sum of two points is on the curve, cleared of denominators. -/
theorem closed_identity (h₁ : y₁ ^ 2 - x₁ ^ 2 = 1 + d * x₁ ^ 2 * y₁ ^ 2)
    (h₂ : y₂ ^ 2 - x₂ ^ 2 = 1 + d * x₂ ^ 2 * y₂ ^ 2) :
    ((y₁ * y₂ + x₁ * x₂) * (1 + d * x₁ * x₂ * y₁ * y₂)) ^ 2
        - ((x₁ * y₂ + y₁ * x₂) * (1 - d * x₁ * x₂ * y₁ * y₂)) ^ 2 =
      ((1 + d * x₁ * x₂ * y₁ * y₂) * (1 - d * x₁ * x₂ * y₁ * y₂)) ^ 2
        + d * (x₁ * y₂ + y₁ * x₂) ^ 2 * (y₁ * y₂ + x₁ * x₂) ^ 2 := by
  linear_combination
    ((1 + d * x₂ ^ 2 * y₂ ^ 2) * (1 + (d * x₁ * x₂ * y₁ * y₂) ^ 2)
      - d * x₂ ^ 2 * y₂ ^ 2 * (y₁ ^ 2 - x₁ ^ 2 + 1 + d * x₁ ^ 2 * y₁ ^ 2)) * h₁
    + ((y₁ ^ 2 - x₁ ^ 2) * (1 + (d * x₁ * x₂ * y₁ * y₂) ^ 2)
      - d * x₁ ^ 2 * y₁ ^ 2 * (y₂ ^ 2 - x₂ ^ 2 + 1 + d * x₂ ^ 2 * y₂ ^ 2)) * h₂

theorem on_curve_div {K : Type} [Field K] {d a b p m : K} (hp : p ≠ 0) (hm : m ≠ 0)
    (h : (b * p) ^ 2 - (a * m) ^ 2 = (p * m) ^ 2 + d * a ^ 2 * b ^ 2) :
    (b / m) ^ 2 - (a / p) ^ 2 = 1 + d * (a / p) ^ 2 * (b / m) ^ 2 := by
  field_simp
  linear_combination h

/-- The first coordinates of both ways of adding three points, cleared of denominators. -/
theorem assoc_identity (h₁ : y₁ ^ 2 - x₁ ^ 2 = 1 + d * x₁ ^ 2 * y₁ ^ 2)
    (h₂ : y₂ ^ 2 - x₂ ^ 2 = 1 + d * x₂ ^ 2 * y₂ ^ 2)
    (h₃ : y₃ ^ 2 - x₃ ^ 2 = 1 + d * x₃ ^ 2 * y₃ ^ 2) :
    ((x₁ * y₂ + y₁ * x₂) * (1 - d * x₁ * x₂ * y₁ * y₂) * y₃
        + (y₁ * y₂ + x₁ * x₂) * (1 + d * x₁ * x₂ * y₁ * y₂) * x₃) *
      ((1 - d * x₂ * x₃ * y₂ * y₃) * (1 + d * x₂ * x₃ * y₂ * y₃)
        + d * x₁ * y₁ * (x₂ * y₃ + y₂ * x₃) * (y₂ * y₃ + x₂ * x₃)) =
    (x₁ * (y₂ * y₃ + x₂ * x₃) * (1 + d * x₂ * x₃ * y₂ * y₃)
        + y₁ * (x₂ * y₃ + y₂ * x₃) * (1 - d * x₂ * x₃ * y₂ * y₃)) *
      ((1 - d * x₁ * x₂ * y₁ * y₂) * (1 + d * x₁ * x₂ * y₁ * y₂)
        + d * (x₁ * y₂ + y₁ * x₂) * (y₁ * y₂ + x₁ * x₂) * x₃ * y₃) := by
  -- The terms that both sides share cancel, and `d x₂ y₂` divides what is left. The cofactors are
  -- what the division of the quotient by the three equations gives.
  linear_combination
    -d * x₂ * y₂ *
      ((x₂ * y₂ * (x₁ * x₂ * x₃ + x₁ * y₂ * y₃ + y₁ * x₂ * y₃ + y₁ * y₂ * x₃)
          + d * (x₂ * y₂) ^ 2 * x₃ * y₃ *
            (x₁ * x₂ * x₃ + x₁ * y₂ * y₃ - y₁ * x₂ * y₃ - y₁ * y₂ * x₃)
          + (x₂ * y₃ + y₂ * x₃) * (y₂ * y₃ + x₂ * x₃) *
            (x₁ * (x₂ * x₃ - y₂ * y₃) - y₁ * (x₂ * y₃ - y₂ * x₃))) * h₁
        + (d * x₁ * y₁ * (x₃ * y₃) ^ 2 *
            (x₁ * y₂ * y₃ + y₁ * x₂ * y₃ - x₁ * x₂ * x₃ - y₁ * y₂ * x₃)
          + x₃ * y₃ * (x₁ * x₂ * x₃ + x₁ * y₂ * y₃ - y₁ * x₂ * y₃ - y₁ * y₂ * x₃) *
            (y₁ ^ 2 - x₁ ^ 2 - 1)) * h₂
        + (x₂ * y₂ * (x₁ * x₂ * x₃ + x₁ * y₂ * y₃ + y₁ * x₂ * y₃ + y₁ * y₂ * x₃) *
            (y₁ ^ 2 - x₁ ^ 2 - 1)
          - x₁ * y₁ * (x₁ * y₂ * y₃ + y₁ * x₂ * y₃ - x₁ * x₂ * x₃ - y₁ * y₂ * x₃)) * h₃)

end Identities

/-! ## The field -/

instance : Fact order.Prime := ⟨prime_order⟩

/-- An element of the field. -/
abbrev Residue := ZMod order

namespace Residue

/-- A square root of minus one. -/
def imaginary : Residue := (rootOfMinusOne : Nat)

/-- The constant of the curve equation. -/
def d : Residue := (curveD : Nat)

theorem imaginary_sq : imaginary ^ 2 = -1 := by
  have hroot : (((rootOfMinusOne ^ 2 + 1 : Nat)) : Residue) = 0 :=
    (ZMod.natCast_eq_zero_iff _ _).2 (by decide +kernel)
  rw [eq_neg_iff_add_eq_zero]
  simpa [imaginary] using hroot

theorem two_ne_zero : (2 : Residue) ≠ 0 := by
  intro h
  have hdvd : order ∣ 2 := (ZMod.natCast_eq_zero_iff 2 order).1 (by exact_mod_cast h)
  exact absurd hdvd (by decide +kernel)

/-- The constant of the curve equation is not a square: Euler's criterion. -/
theorem not_isSquare_d : ¬ IsSquare d := by
  have hd : d ≠ 0 := by
    rw [d, ne_eq, ZMod.natCast_eq_zero_iff]
    decide +kernel
  rw [ZMod.euler_criterion order hd, d, natCast_pow_eq_one_iff (by decide +kernel)
    (by decide +kernel)]
  decide +kernel

end Residue

/-! ## The points -/

/-- A point of the curve, by its two coordinates. -/
@[ext] structure Affine where
  x : Residue
  y : Residue
  on_curve : y ^ 2 - x ^ 2 = 1 + Residue.d * x ^ 2 * y ^ 2

namespace Affine

open Residue

/-- The denominators of a sum do not vanish: otherwise the constant of the curve would be the
square of a quotient. -/
theorem den_ne_zero (P Q : Affine) (sign : Residue) (hsign : sign ^ 2 = 1) :
    d * P.x * Q.x * P.y * Q.y ≠ sign := by
  intro hvanish
  have hnonzero : d * P.x * Q.x * P.y * Q.y ≠ 0 := by
    rw [hvanish]
    intro h
    simp [h] at hsign
  have hproduct : P.x * P.y ≠ 0 := fun h => hnonzero (by linear_combination d * Q.x * Q.y * h)
  have hQy : Q.y ≠ 0 := fun h => hnonzero (by rw [h, mul_zero])
  have hsquares : ∀ i : Residue, i ^ 2 = -1 →
      (i * P.x + sign * P.y) ^ 2 = d * (P.x * P.y * (i * Q.x + Q.y)) ^ 2 := by
    intro i hi
    linear_combination P.on_curve - d * (P.x * P.y) ^ 2 * Q.on_curve
      + (P.x ^ 2 - d * (P.x * P.y) ^ 2 * Q.x ^ 2) * hi + (P.y ^ 2 - 1) * hsign
      - (d * P.x * Q.x * P.y * Q.y + sign + 2 * i * P.x * P.y) * hvanish
  have hzero : ∀ i : Residue, i ^ 2 = -1 → i * Q.x + Q.y = 0 := by
    intro i hi
    by_contra hne
    refine not_isSquare_d ⟨(i * P.x + sign * P.y) / (P.x * P.y * (i * Q.x + Q.y)), ?_⟩
    rw [← pow_two, div_pow, hsquares i hi,
      mul_div_cancel_right₀ _ (pow_ne_zero 2 (mul_ne_zero hproduct hne))]
  -- Both roots of minus one make the second point's term vanish, and with it the coordinate.
  have hplus := hzero imaginary imaginary_sq
  have hminus := hzero (-imaginary) (by rw [neg_sq, imaginary_sq])
  have hdouble : 2 * Q.y = 0 := by linear_combination hplus + hminus
  exact hQy ((mul_eq_zero.1 hdouble).resolve_left two_ne_zero)

variable (P Q R : Affine)

theorem one_add_ne_zero : 1 + d * P.x * Q.x * P.y * Q.y ≠ 0 := by
  intro h
  exact den_ne_zero P Q (-1) (by ring) (by linear_combination h)

theorem one_sub_ne_zero : 1 - d * P.x * Q.x * P.y * Q.y ≠ 0 := by
  intro h
  exact den_ne_zero P Q 1 (by ring) (by linear_combination -h)

instance : Add Affine where
  add P Q :=
    { x := (P.x * Q.y + P.y * Q.x) / (1 + d * P.x * Q.x * P.y * Q.y)
      y := (P.y * Q.y + P.x * Q.x) / (1 - d * P.x * Q.x * P.y * Q.y)
      on_curve := on_curve_div (one_add_ne_zero P Q) (one_sub_ne_zero P Q)
        (closed_identity P.on_curve Q.on_curve) }

instance : Zero Affine := ⟨⟨0, 1, by ring⟩⟩

instance : Neg Affine := ⟨fun P => ⟨-P.x, P.y, by rw [neg_sq]; exact P.on_curve⟩⟩

@[simp] theorem zero_x : (0 : Affine).x = 0 := rfl

@[simp] theorem zero_y : (0 : Affine).y = 1 := rfl

@[simp] theorem neg_x : (-P).x = -P.x := rfl

@[simp] theorem neg_y : (-P).y = P.y := rfl

theorem add_x_mul :
    (P + Q).x * (1 + d * P.x * Q.x * P.y * Q.y) = P.x * Q.y + P.y * Q.x :=
  div_mul_cancel₀ _ (one_add_ne_zero P Q)

theorem add_y_mul :
    (P + Q).y * (1 - d * P.x * Q.x * P.y * Q.y) = P.y * Q.y + P.x * Q.x :=
  div_mul_cancel₀ _ (one_sub_ne_zero P Q)

protected theorem add_comm : P + Q = Q + P := by
  ext
  · exact congrArg₂ (· / ·) (by ring) (by ring)
  · exact congrArg₂ (· / ·) (by ring) (by ring)

/-! ### Associativity -/

/-- The denominator of the first coordinate of a sum of three points. -/
def denOfThree : Residue :=
  (1 - d * P.x * Q.x * P.y * Q.y) * (1 + d * P.x * Q.x * P.y * Q.y)
    + d * (P.x * Q.y + P.y * Q.x) * (P.y * Q.y + P.x * Q.x) * R.x * R.y

theorem denOfThree_eq :
    denOfThree P Q R = (1 - d * P.x * Q.x * P.y * Q.y) * (1 + d * P.x * Q.x * P.y * Q.y) *
      (1 + d * (P + Q).x * R.x * (P + Q).y * R.y) := by
  rw [denOfThree, ← add_x_mul P Q, ← add_y_mul P Q]
  ring

theorem denOfThree_ne_zero : denOfThree P Q R ≠ 0 := by
  rw [denOfThree_eq]
  exact mul_ne_zero (mul_ne_zero (one_sub_ne_zero P Q) (one_add_ne_zero P Q))
    (one_add_ne_zero (P + Q) R)

/-- The first coordinate of a sum of three points, cleared of denominators. -/
theorem add_add_x_mul :
    (P + Q + R).x * denOfThree P Q R =
      (P.x * Q.y + P.y * Q.x) * (1 - d * P.x * Q.x * P.y * Q.y) * R.y
        + (P.y * Q.y + P.x * Q.x) * (1 + d * P.x * Q.x * P.y * Q.y) * R.x := by
  rw [denOfThree_eq, ← add_x_mul P Q, ← add_y_mul P Q]
  linear_combination (1 - d * P.x * Q.x * P.y * Q.y) * (1 + d * P.x * Q.x * P.y * Q.y) *
    add_x_mul (P + Q) R

theorem add_assoc_x : (P + Q + R).x = (P + (Q + R)).x := by
  have hleft := add_add_x_mul P Q R
  have hright := add_add_x_mul Q R P
  have hidentity := assoc_identity P.on_curve Q.on_curve R.on_curve
  rw [Affine.add_comm] at hright
  refine mul_right_cancel₀ (mul_ne_zero (denOfThree_ne_zero P Q R) (denOfThree_ne_zero Q R P)) ?_
  calc (P + Q + R).x * (denOfThree P Q R * denOfThree Q R P)
      = (P + Q + R).x * denOfThree P Q R * denOfThree Q R P := by ring
    _ = (P + (Q + R)).x * denOfThree Q R P * denOfThree P Q R := by
      rw [hleft, hright, denOfThree, denOfThree]
      linear_combination hidentity
    _ = (P + (Q + R)).x * (denOfThree P Q R * denOfThree Q R P) := by ring

/-- The sum of a point and the point `(i, 0)` of order four, which exchanges the coordinates. -/
def turn : Affine where
  x := imaginary * P.y
  y := imaginary * P.x
  on_curve := by
    linear_combination P.on_curve + (P.x ^ 2 - P.y ^ 2
      - d * P.x ^ 2 * P.y ^ 2 * (imaginary ^ 2 - 1)) * imaginary_sq

@[simp] theorem turn_x : P.turn.x = imaginary * P.y := rfl

@[simp] theorem turn_y : P.turn.y = imaginary * P.x := rfl

theorem add_turn : P + Q.turn = (P + Q).turn := by
  ext
  · refine mul_right_cancel₀ (one_add_ne_zero P Q.turn) ?_
    rw [add_x_mul, turn_x, turn_x, turn_y]
    linear_combination -imaginary * add_y_mul P Q
      - imaginary * (P + Q).y * d * P.x * Q.x * P.y * Q.y * imaginary_sq
  · refine mul_right_cancel₀ (one_sub_ne_zero P Q.turn) ?_
    rw [add_y_mul, turn_y, turn_x, turn_y]
    linear_combination -imaginary * add_x_mul P Q
      + imaginary * (P + Q).x * d * P.x * Q.x * P.y * Q.y * imaginary_sq

protected theorem add_assoc : P + Q + R = P + (Q + R) := by
  -- Turning the last point puts the second coordinates in the place of the first ones.
  have hy : imaginary * (P + Q + R).y = imaginary * (P + (Q + R)).y := by
    calc imaginary * (P + Q + R).y = (P + Q + R.turn).x := by rw [add_turn, turn_x]
      _ = (P + (Q + R.turn)).x := add_assoc_x P Q R.turn
      _ = imaginary * (P + (Q + R)).y := by rw [add_turn, add_turn, turn_x]
  have himaginary : imaginary ≠ 0 := by
    intro h
    have := imaginary_sq
    simp [h] at this
  exact Affine.ext (add_assoc_x P Q R) (mul_left_cancel₀ himaginary hy)

protected theorem zero_add : 0 + P = P := by
  ext
  · rw [← mul_left_inj' (one_add_ne_zero 0 P), add_x_mul]
    simp
  · rw [← mul_left_inj' (one_sub_ne_zero 0 P), add_y_mul]
    simp

protected theorem neg_add_cancel : -P + P = 0 := by
  ext
  · rw [← mul_left_inj' (one_add_ne_zero (-P) P), add_x_mul]
    simp only [neg_x, neg_y, zero_x]
    ring
  · rw [← mul_left_inj' (one_sub_ne_zero (-P) P), add_y_mul]
    simp only [neg_x, neg_y, zero_y]
    linear_combination P.on_curve

instance : AddCommGroup Affine where
  add_assoc := Affine.add_assoc
  zero_add := Affine.zero_add
  add_zero P := by rw [Affine.add_comm, Affine.zero_add]
  neg_add_cancel := Affine.neg_add_cancel
  add_comm := Affine.add_comm
  nsmul := nsmulRec
  zsmul := zsmulRec

end Affine

end StakeRegistry.Edwards
