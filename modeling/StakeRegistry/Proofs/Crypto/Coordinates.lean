import StakeRegistry.Proofs.Crypto.EdwardsGroup

/-!
# Extended coordinates and encodings

Numbers stand for residues, and the arithmetic on numbers is that of the field (`cast_mul` and its
like). Points in extended coordinates stand for points of the curve (`Point.Represents`); their sums
and multiples stand for sums and multiples in the group, their encoding depends on nothing but the
point that they stand for (`Point.Represents.encode_eq`), and reading an encoding gives the point back
(`exists_decode?_encoding`).
-/

set_option autoImplicit false

namespace StakeRegistry.Edwards

open Residue

/-! ## Arithmetic -/

theorem order_pos : 0 < order := prime_order.pos

@[simp] theorem cast_order : ((order : Nat) : Residue) = 0 := ZMod.natCast_self order

@[simp] theorem cast_mul (a b : Nat) : ((mul a b : Nat) : Residue) = a * b := by
  rw [mul, ZMod.natCast_mod, Nat.cast_mul]

@[simp] theorem cast_add (a b : Nat) : ((add a b : Nat) : Residue) = a + b := by
  rw [add, ZMod.natCast_mod, Nat.cast_add]

@[simp] theorem cast_neg (a : Nat) : ((neg a : Nat) : Residue) = -a := by
  rw [neg, ZMod.natCast_mod, Nat.cast_sub (Nat.mod_lt _ order_pos).le, cast_order, ZMod.natCast_mod,
    zero_sub]

@[simp] theorem cast_sub (a b : Nat) : ((sub a b : Nat) : Residue) = a - b := by
  rw [sub, ZMod.natCast_mod, Nat.cast_add, cast_neg, sub_eq_add_neg]

theorem cast_powFrom (bits base e acc : Nat) (h : e < 2 ^ bits) :
    ((powFrom bits base e acc : Nat) : Residue) = acc * (base : Residue) ^ e := by
  -- The accumulator takes what the lowest bit asks for, the squared base does the rest.
  induction bits generalizing base e acc with
  | zero =>
      have hzero : e = 0 := by simpa using h
      rw [hzero, powFrom, pow_zero, mul_one]
  | succ bits ih =>
      rw [powFrom, ih _ _ _ (by omega), cast_mul]
      have hparity : e = 2 * (e / 2) + e % 2 := (Nat.div_add_mod e 2).symm
      split
      · rename_i hodd
        rw [hodd] at hparity
        rw [cast_mul]
        conv_rhs => rw [hparity, pow_succ, pow_mul]
        ring
      · rename_i heven
        rw [Nat.mod_two_ne_one.1 heven, Nat.add_zero] at hparity
        conv_rhs => rw [hparity, pow_mul]
        ring

@[simp] theorem cast_pow (base e : Nat) (h : e < 2 ^ 256) :
    ((pow base e : Nat) : Residue) = (base : Residue) ^ e := by
  rw [pow, cast_powFrom _ _ _ _ h, Nat.cast_one, one_mul]

@[simp] theorem cast_inv (a : Nat) : ((inv a : Nat) : Residue) = (a : Residue)⁻¹ := by
  rw [inv, cast_pow _ _ (by decide +kernel)]
  by_cases h : (a : Residue) = 0
  · rw [h, inv_zero, zero_pow (by decide +kernel)]
  · refine eq_inv_of_mul_eq_one_left ?_
    rw [← pow_succ, show order - 2 + 1 = order - 1 by decide +kernel]
    exact ZMod.pow_card_sub_one_eq_one h

/-- A product is the number of its residue. -/
theorem mul_eq_val (a b : Nat) : mul a b = ((a : Residue) * b).val := by
  have hlt : mul a b < order := Nat.mod_lt _ order_pos
  rw [← cast_mul, ZMod.val_natCast, Nat.mod_eq_of_lt hlt]

/-! ## Square roots -/

/-- The number among `r` and its opposite that is even. -/
def evenRoot (r : Nat) : Nat := if r % 2 = 0 then r else neg r

/-- A square root of `u / v` or of `-u / v`, if there is one. -/
def rootCandidate (u v : Nat) : Nat :=
  let v3 := mul (mul v v) v
  mul (mul u v3) (pow (mul u (mul (mul v3 v3) v)) ((order - 5) / 8))

theorem sqrtRatio?_eq (u v : Nat) :
    sqrtRatio? u v =
      if mul v (mul (rootCandidate u v) (rootCandidate u v)) = u then
        some (evenRoot (rootCandidate u v))
      else if mul v (mul (rootCandidate u v) (rootCandidate u v)) = neg u then
        some (evenRoot (mul (rootCandidate u v) rootOfMinusOne))
      else none := rfl

theorem neg_eq_sub {a : Nat} (hpos : 0 < a) (hlt : a < order) : neg a = order - a := by
  rw [neg, Nat.mod_eq_of_lt hlt, Nat.mod_eq_of_lt (by omega)]

theorem order_odd : order % 2 = 1 := by decide +kernel

/-- An even number and the square of its residue. -/
structure EvenRoot (r : Nat) (square : Residue) : Prop where
  lt : r < order
  even : r % 2 = 0
  sq : (r : Residue) ^ 2 = square

theorem evenRoot_spec {r : Nat} (hlt : r < order) : EvenRoot (evenRoot r) ((r : Residue) ^ 2) := by
  unfold evenRoot
  split
  · rename_i heven
    exact ⟨hlt, heven, rfl⟩
  · rename_i hodd
    have hneg := neg_eq_sub (show 0 < r by omega) hlt
    have hodd' := order_odd
    exact ⟨by omega, by omega, by rw [cast_neg, neg_sq]⟩

theorem cast_inj {a b : Nat} (ha : a < order) (hb : b < order) (h : (a : Residue) = b) : a = b := by
  rwa [ZMod.natCast_eq_natCast_iff', Nat.mod_eq_of_lt ha, Nat.mod_eq_of_lt hb] at h

/-- The candidate is a root up to sign: its square differs from the ratio by a power that is one or
minus one. -/
theorem rootCandidate_sq {u v : Nat} {x : Residue} (hv : (v : Residue) ≠ 0)
    (h : (u : Residue) = x ^ 2 * v) :
    (v : Residue) * (rootCandidate u v : Residue) ^ 2 = u ∨
      (v : Residue) * (rootCandidate u v : Residue) ^ 2 = -u := by
  -- With `w = x v⁴` the candidate is `x w` times a power of `w²`.
  have hexponent : 4 * ((order - 5) / 8) + 2 = order / 2 := by decide +kernel
  have hcandidate : (v : Residue) * (rootCandidate u v : Residue) ^ 2 =
      u * (x * v ^ 4) ^ (order / 2) := by
    rw [← hexponent, rootCandidate]
    simp only [cast_mul, cast_pow _ _ (show (order - 5) / 8 < 2 ^ 256 by decide +kernel), h]
    ring
  rw [hcandidate]
  by_cases hx : x = 0
  · simp [h, hx]
  · rcases ZMod.pow_div_two_eq_neg_one_or_one order (mul_ne_zero hx (pow_ne_zero 4 hv)) with
      hone | hminus
    · exact .inl (by rw [hone, mul_one])
    · exact .inr (by rw [hminus, mul_neg_one])

/-- A ratio that is a square has an even root that is found. -/
theorem exists_sqrtRatio? {u v : Nat} {x : Residue} (hu : u < order) (hv : (v : Residue) ≠ 0)
    (h : (u : Residue) = x ^ 2 * v) : ∃ r, sqrtRatio? u v = some r ∧ EvenRoot r (x ^ 2) := by
  have hmul : ∀ a b, mul a b < order := fun a b => Nat.mod_lt _ order_pos
  have hneg : neg u < order := Nat.mod_lt _ order_pos
  have hcast : ((mul v (mul (rootCandidate u v) (rootCandidate u v)) : Nat) : Residue) =
      v * (rootCandidate u v : Residue) ^ 2 := by
    rw [cast_mul, cast_mul, ← pow_two]
  rw [sqrtRatio?_eq]
  by_cases hcheck : mul v (mul (rootCandidate u v) (rootCandidate u v)) = u
  · rw [if_pos hcheck]
    have hsq : (rootCandidate u v : Residue) ^ 2 = x ^ 2 := by
      refine mul_left_cancel₀ hv ?_
      rw [← hcast, hcheck, h, mul_comm]
    exact ⟨_, rfl, hsq ▸ evenRoot_spec (hmul _ _)⟩
  · have hroot := (rootCandidate_sq hv h).resolve_left fun hroot =>
      hcheck (cast_inj (hmul _ _) hu (hcast.trans hroot))
    rw [if_neg hcheck, if_pos (cast_inj (hmul _ _) hneg (by rw [hcast, hroot, cast_neg]))]
    have himaginary : ((rootOfMinusOne : Nat) : Residue) ^ 2 = -1 := imaginary_sq
    have hsq : ((mul (rootCandidate u v) rootOfMinusOne : Nat) : Residue) ^ 2 = x ^ 2 := by
      refine mul_left_cancel₀ hv ?_
      rw [cast_mul, mul_pow, himaginary]
      linear_combination -hroot + h
    exact ⟨_, rfl, hsq ▸ evenRoot_spec (hmul _ _)⟩

/-! ## Points -/

namespace Point

/-- Extended coordinates of a point of the curve. -/
structure Represents (p : Point) (P : Affine) : Prop where
  z_ne_zero : (p.Z : Residue) ≠ 0
  x : (p.X : Residue) = P.x * p.Z
  y : (p.Y : Residue) = P.y * p.Z
  t : (p.T : Residue) = P.x * P.y * p.Z

namespace Represents

variable {p q acc : Point} {P Q A : Affine}

theorem neutral : Point.neutral.Represents 0 := by
  constructor <;> simp [Point.neutral]

theorem neg (hp : p.Represents P) : p.neg.Represents (-P) where
  z_ne_zero := hp.z_ne_zero
  x := by rw [Point.neg, cast_neg, hp.x, Affine.neg_x, neg_mul]
  y := hp.y
  t := by rw [Point.neg, cast_neg, hp.t, Affine.neg_x, Affine.neg_y, neg_mul, neg_mul]

/-- Addition in extended coordinates is addition of points. Its four factors are the numerators and
the denominators of the sum's coordinates, all times `2 Z₁ Z₂`. -/
theorem add (hp : p.Represents P) (hq : q.Represents Q) : (p.add q).Represents (P + Q) := by
  have hscale : 2 * (p.Z : Residue) * q.Z ≠ 0 :=
    mul_ne_zero (mul_ne_zero two_ne_zero hp.z_ne_zero) hq.z_ne_zero
  have hdens := mul_ne_zero (Affine.one_sub_ne_zero P Q) (Affine.one_add_ne_zero P Q)
  have hx := Affine.add_x_mul P Q
  have hy := Affine.add_y_mul P Q
  have hd : ((curveD : Nat) : Residue) = d := rfl
  constructor <;>
    simp only [Point.add, cast_mul, Edwards.cast_add, cast_sub, Nat.cast_mul, Nat.cast_ofNat, hp.x,
      hp.y, hp.t, hq.x, hq.y, hq.t, hd]
  · intro h
    exact mul_ne_zero (pow_ne_zero 2 hscale) hdens (by linear_combination h)
  · linear_combination
      -(2 * (p.Z : Residue) * q.Z) ^ 2 * (1 - d * P.x * Q.x * P.y * Q.y) * hx
  · linear_combination
      -(2 * (p.Z : Residue) * q.Z) ^ 2 * (1 + d * P.x * Q.x * P.y * Q.y) * hy
  · linear_combination -(2 * (p.Z : Residue) * q.Z) ^ 2 *
      ((P.y * Q.y + P.x * Q.x) * hx + (P + Q).x * (1 + d * P.x * Q.x * P.y * Q.y) * hy)

/-- Adding up the doubled points that the bits of a number call for gives the multiple. -/
theorem smulFrom (hp : p.Represents P) (hacc : acc.Represents A) (bits k : Nat)
    (h : k < 2 ^ bits) : (Point.smulFrom bits k p acc).Represents (A + k • P) := by
  -- As for powers, with the doubled point in the place of the square.
  induction bits generalizing k p acc P A with
  | zero =>
      have hzero : k = 0 := by simpa using h
      rw [hzero, zero_nsmul, add_zero]
      exact hacc
  | succ bits ih =>
      have hhalf : k / 2 < 2 ^ bits := by omega
      have hparity : 2 * (k / 2) + k % 2 = k := Nat.div_add_mod k 2
      rw [Point.smulFrom]
      split
      · rename_i hodd
        have hsum : A + P + (k / 2) • (P + P) = A + k • P := by
          conv_rhs => rw [← hparity, hodd, add_nsmul, mul_nsmul, two_nsmul, one_nsmul]
          abel
        rw [← hsum]
        exact ih (hp.add hp) (hacc.add hp) _ hhalf
      · rename_i heven
        have hsum : A + (k / 2) • (P + P) = A + k • P := by
          conv_rhs => rw [← hparity, Nat.mod_two_ne_one.1 heven, add_zero, mul_nsmul, two_nsmul]
        rw [← hsum]
        exact ih (hp.add hp) hacc _ hhalf

theorem smul (hp : p.Represents P) {k : Nat} (h : k < 2 ^ 256) :
    (p.smul k).Represents (k • P) := by
  have hsum := smulFrom hp neutral 256 k h
  rwa [zero_add] at hsum

end Represents

end Point

/-! ## Encodings -/

/-- The encoding of a point of the curve. -/
def Affine.encoding (P : Affine) : Bytes 32 :=
  Bytes.ofNatLE 32 (P.y.val + Nat.pow 2 255 * (P.x.val % 2))

theorem Point.Represents.encode_eq {p : Point} {P : Affine} (hp : p.Represents P) :
    p.encode = P.encoding := by
  have hx : mul p.X (inv p.Z) = P.x.val := by
    rw [mul_eq_val, cast_inv, hp.x, mul_inv_cancel_right₀ hp.z_ne_zero]
  have hy : mul p.Y (inv p.Z) = P.y.val := by
    rw [mul_eq_val, cast_inv, hp.y, mul_inv_cancel_right₀ hp.z_ne_zero]
  unfold Point.encode Affine.encoding
  dsimp only
  rw [hx, hy]

theorem val_lt (a : Residue) : a.val < Nat.pow 2 255 :=
  (ZMod.val_lt a).trans (by decide +kernel)

theorem toNatLE_encoding (P : Affine) :
    P.encoding.toNatLE = P.y.val + Nat.pow 2 255 * (P.x.val % 2) := by
  have hy := val_lt P.y
  refine leNat_leBytes 32 _ ?_
  have hbound : Nat.pow 256 32 = 2 * Nat.pow 2 255 := by decide +kernel
  have hparity : P.x.val % 2 ≤ 1 := by omega
  have hbit := Nat.mul_le_mul_left (Nat.pow 2 255) hparity
  omega

/-- The parity tells which of both roots a residue is. -/
theorem EvenRoot.signed {r : Nat} {x : Residue} (h : EvenRoot r (x ^ 2)) :
    ((if x.val % 2 = 1 then neg r else r : Nat) : Residue) = x := by
  have hlt := h.lt
  have heven := h.even
  rcases sq_eq_sq_iff_eq_or_eq_neg.1 h.sq with hsame | hopposite
  · have hval : x.val = r := by rw [← hsame, ZMod.val_natCast_of_lt hlt]
    rw [if_neg (by omega), hsame]
  · have hneg : ((neg r : Nat) : Residue) = x := by rw [cast_neg, hopposite, neg_neg]
    by_cases hzero : r = 0
    · rw [hzero, Nat.cast_zero, zero_eq_neg] at hopposite
      rw [hzero, hopposite, ZMod.val_zero, if_neg (by decide), Nat.cast_zero]
    · have hsub := neg_eq_sub (Nat.pos_of_ne_zero hzero) hlt
      have hval : x.val = neg r := by rw [← hneg, ZMod.val_natCast_of_lt (by omega)]
      have hodd := order_odd
      rw [if_pos (by omega), hneg]

/-- The denominator in the square of a point's first coordinate does not vanish. -/
theorem Affine.one_add_sq_ne_zero (P : Affine) : d * P.y ^ 2 + 1 ≠ 0 := by
  intro h
  have hy : P.y ≠ 0 := by
    intro hzero
    simp [hzero] at h
  refine not_isSquare_d ⟨imaginary / P.y, ?_⟩
  rw [← pow_two, div_pow, eq_div_iff (pow_ne_zero 2 hy), imaginary_sq]
  linear_combination h

theorem Point.decode?_eq_some {bytes : Bytes 32} {x y r : Nat}
    (hy : bytes.toNatLE % Nat.pow 2 255 % order = y)
    (hr : sqrtRatio? (Edwards.sub (mul y y) 1) (Edwards.add (mul (mul y y) curveD) 1) = some r)
    (hx : (if bytes.toNatLE / Nat.pow 2 255 = 1 then Edwards.neg r else r) = x) :
    Point.decode? bytes = some ⟨x, y, 1, mul x y⟩ := by
  subst hx hy
  unfold Point.decode?
  dsimp only
  rw [hr]
  rfl

/-- Reading the encoding of a point gives coordinates of that point. -/
theorem exists_decode?_encoding (P : Affine) :
    ∃ p, Point.decode? P.encoding = some p ∧ p.Represents P := by
  have hn := toNatLE_encoding P
  have hy : P.encoding.toNatLE % Nat.pow 2 255 % order = P.y.val := by
    rw [hn, Nat.add_mul_mod_self_left, Nat.mod_eq_of_lt (val_lt _), Nat.mod_eq_of_lt (ZMod.val_lt _)]
  have hparity : P.encoding.toNatLE / Nat.pow 2 255 = P.x.val % 2 := by
    rw [hn, Nat.add_mul_div_left _ _ (by decide +kernel), Nat.div_eq_of_lt (val_lt _), zero_add]
  have hu : ((sub (mul P.y.val P.y.val) 1 : Nat) : Residue) = P.y ^ 2 - 1 := by
    rw [cast_sub, cast_mul, ZMod.natCast_zmod_val, Nat.cast_one, pow_two]
  have hv : ((add (mul (mul P.y.val P.y.val) curveD) 1 : Nat) : Residue) = d * P.y ^ 2 + 1 := by
    rw [cast_add, cast_mul, cast_mul, ZMod.natCast_zmod_val, Nat.cast_one, d, pow_two, mul_comm]
  have hlt : sub (mul P.y.val P.y.val) 1 < order := Nat.mod_lt _ order_pos
  obtain ⟨r, hr, hroot⟩ := exists_sqrtRatio? (x := P.x) hlt (hv ▸ P.one_add_sq_ne_zero)
    (by rw [hu, hv]; linear_combination P.on_curve)
  refine ⟨_, Point.decode?_eq_some hy hr (by rw [hparity]), ?_⟩
  constructor <;> simp [hroot.signed]

end StakeRegistry.Edwards
