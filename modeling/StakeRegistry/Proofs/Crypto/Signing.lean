import StakeRegistry.Crypto.Ed25519
import StakeRegistry.Proofs.Crypto.Coordinates

/-!
# Keys and signatures

The base point generates a group of odd order, so no public key is a point of order four, and none
is encoded as the byte string of zeros that stands for an unset key (`publicKey_ne_zero`). A signature
verifies under the public key of the seed that made it (`verifies_sign`): with `s = k a + r`, the
point `s B - k A` that is recomputed is the point `r B` of the signature.
-/

set_option autoImplicit false

namespace StakeRegistry

namespace Edwards

open Residue

/-! ## The base point -/

/-- The base point of the curve. -/
def basePoint : Affine where
  x := (Point.base.X : Nat)
  y := (Point.base.Y : Nat)
  on_curve := by
    have h : ((Point.base.Y ^ 2 : Nat) : Residue) =
        ((Point.base.X ^ 2 + 1 + curveD * Point.base.X ^ 2 * Point.base.Y ^ 2 : Nat) : Residue) :=
      (ZMod.natCast_eq_natCast_iff' _ _ _).2 (by decide +kernel)
    push_cast at h
    rw [d]
    linear_combination h

theorem represents_base : Point.base.Represents basePoint where
  z_ne_zero := by simp [Point.base]
  x := by simp [Point.base, basePoint]
  y := by simp [Point.base, basePoint]
  t := by simp [Point.base, basePoint]

theorem groupOrder_nsmul_basePoint : groupOrder • basePoint = 0 := by
  have hmultiple := represents_base.smul (k := groupOrder) (by decide +kernel)
  have hx : (Point.base.smul groupOrder).X = 0 := by decide +kernel
  have hy : (Point.base.smul groupOrder).Y = (Point.base.smul groupOrder).Z := by decide +kernel
  have hrx := hmultiple.x
  have hry := hmultiple.y
  rw [hx, Nat.cast_zero] at hrx
  rw [hy] at hry
  ext
  · exact (mul_eq_zero.1 hrx.symm).resolve_right hmultiple.z_ne_zero
  · exact mul_right_cancel₀ hmultiple.z_ne_zero (hry.symm.trans (one_mul _).symm)

theorem addOrderOf_basePoint : addOrderOf basePoint = groupOrder := by
  have : Fact groupOrder.Prime := ⟨prime_groupOrder⟩
  refine addOrderOf_eq_prime groupOrder_nsmul_basePoint fun h => ?_
  have hx : ((Point.base.X : Nat) : Residue) = 0 := congrArg Affine.x h
  exact absurd ((ZMod.natCast_eq_zero_iff _ _).1 hx) (by decide +kernel)

theorem nsmul_basePoint_eq_zero_iff {k : Nat} : k • basePoint = 0 ↔ groupOrder ∣ k := by
  rw [← addOrderOf_dvd_iff_nsmul_eq_zero, addOrderOf_basePoint]

/-! ## Points of order two and four -/

namespace Affine

variable {P : Affine}

theorem add_self_eq_zero (h : P.x = 0) : P + P = 0 := by
  have hcurve := P.on_curve
  have hy := add_y_mul P P
  simp only [h, mul_zero, zero_mul, sub_zero, mul_one, add_zero] at hy
  ext
  · simpa [h] using add_x_mul P P
  · rw [hy, zero_y]
    simp only [h] at hcurve
    linear_combination hcurve

theorem four_nsmul_eq_zero (h : P.x = 0 ∨ P.y = 0) : 4 • P = 0 := by
  have hdouble : 4 • P = (P + P) + (P + P) := by rw [← two_nsmul, ← two_nsmul, ← mul_nsmul]
  rw [hdouble]
  rcases h with hx | hy
  · rw [add_self_eq_zero hx, add_zero]
  · exact add_self_eq_zero (by simpa [hy] using add_x_mul P P)

/-- The second coordinate is plus or minus one only where the first one is zero. -/
theorem x_eq_zero (h : P.y ^ 2 = 1) : P.x = 0 := by
  have hcurve := P.on_curve
  have hd := P.one_add_sq_ne_zero
  rw [h, mul_one] at hd
  rw [h] at hcurve
  have hproduct : P.x ^ 2 * (d + 1) = 0 := by linear_combination -hcurve
  exact eq_zero_of_pow_eq_zero ((mul_eq_zero.1 hproduct).resolve_right hd)

end Affine

/-- The base point's order is odd, so only the neutral one among its multiples is killed by four. -/
theorem nsmul_basePoint_eq_zero {k : Nat} (h : 4 • k • basePoint = 0) : k • basePoint = 0 := by
  rw [← mul_nsmul, nsmul_basePoint_eq_zero_iff] at h
  have hcoprime : groupOrder.Coprime 4 := by decide +kernel
  exact nsmul_basePoint_eq_zero_iff.2 (hcoprime.dvd_of_dvd_mul_right h)

/-- A multiple of the base point has a second coordinate other than zero. -/
theorem nsmul_basePoint_y_ne_zero (k : Nat) : (k • basePoint).y ≠ 0 := by
  intro h
  have hneutral := nsmul_basePoint_eq_zero (Affine.four_nsmul_eq_zero (.inr h))
  rw [hneutral, Affine.zero_y] at h
  exact one_ne_zero h

/-- A multiple of the base point is the neutral point or has an image on the Montgomery form. -/
theorem nsmul_basePoint_y_sq_ne_one {k : Nat} (h : k • basePoint ≠ 0) :
    (k • basePoint).y ^ 2 ≠ 1 := fun hy =>
  h (nsmul_basePoint_eq_zero (Affine.four_nsmul_eq_zero (.inl (Affine.x_eq_zero hy))))

end Edwards

namespace Ed25519

open Edwards

/-! ## Public keys -/

/-- The secret scalar of a seed is a multiple of eight with its highest bit in a fixed place. -/
theorem exists_secretScalar_eq (seed : Bytes 32) :
    ∃ m, secretScalar seed = 8 * m ∧ 2 ^ 251 ≤ m ∧ m < 2 ^ 252 := by
  have hclamped : leNat ((Sha512.hash seed.toList).toList.take 32) % Nat.pow 2 254 < 8 * 2 ^ 251 :=
    Nat.mod_lt _ (by decide +kernel)
  have hpow : Nat.pow 2 254 = 8 * 2 ^ 251 := by decide +kernel
  refine ⟨leNat ((Sha512.hash seed.toList).toList.take 32) % Nat.pow 2 254 / 8 + 2 ^ 251, ?_⟩
  unfold secretScalar
  dsimp only
  omega

theorem secretScalar_lt (seed : Bytes 32) : secretScalar seed < 2 ^ 256 := by
  obtain ⟨m, hscalar, -, hm⟩ := exists_secretScalar_eq seed
  omega

theorem publicKey_eq (seed : Bytes 32) :
    publicKey seed = (secretScalar seed • basePoint).encoding :=
  (represents_base.smul (secretScalar_lt seed)).encode_eq

/-- No key is the byte string of zeros, which stands for an unset one. -/
theorem publicKey_ne_zero (seed : Bytes 32) : publicKey seed ≠ 0 := by
  intro h
  rw [publicKey_eq] at h
  -- The bytes would be those of a point whose second coordinate is zero.
  have hzero := toNatLE_encoding (secretScalar seed • basePoint)
  rw [h, show (0 : Bytes 32).toNatLE = 0 by decide] at hzero
  have hy : (secretScalar seed • basePoint).y.val = 0 := by omega
  exact nsmul_basePoint_y_ne_zero _ ((ZMod.val_eq_zero _).1 hy)

/-- No key is the neutral point: a scalar that is a multiple of eight and of the group's order is
too large. -/
theorem secretScalar_nsmul_ne_zero (seed : Bytes 32) : secretScalar seed • basePoint ≠ 0 := by
  intro h
  obtain ⟨m, hscalar, hlow, hhigh⟩ := exists_secretScalar_eq seed
  rw [nsmul_basePoint_eq_zero_iff, hscalar] at h
  have hcoprime : groupOrder.Coprime 8 := by decide +kernel
  have hle := Nat.le_of_dvd (by omega) (hcoprime.dvd_of_dvd_mul_left h)
  have hlarge : 2 ^ 252 < groupOrder := by decide +kernel
  omega

/-! ## Transport keys -/

theorem ofNatLE_ne_zero {u : Nat} (hlt : u < Nat.pow 256 32) (hu : u ≠ 0) :
    Bytes.ofNatLE 32 u ≠ 0 := by
  intro hzero
  have hread := leNat_leBytes 32 u hlt
  rw [show leBytes 32 u = (0 : Bytes 32).toList from congrArg Bytes.toList hzero] at hread
  exact hu (hread.symm.trans (by decide))

theorem montgomeryU_ne_zero {p : Point} {P : Affine} (hp : p.Represents P) (hy : P.y ^ 2 ≠ 1) :
    p.montgomeryU ≠ 0 := by
  have hfactors : (1 + P.y) * (1 - P.y) ≠ 0 := fun h => hy (by linear_combination -h)
  obtain ⟨hplus, hminus⟩ := mul_ne_zero_iff.1 hfactors
  have hnumerator : (p.Z : Residue) + p.Y = p.Z * (1 + P.y) := by rw [hp.y]; ring
  have hdenominator : (p.Z : Residue) - p.Y = p.Z * (1 - P.y) := by rw [hp.y]; ring
  rw [Point.montgomeryU, mul_eq_val, cast_inv, cast_add, cast_sub, hnumerator, hdenominator,
    ZMod.val_ne_zero]
  exact mul_ne_zero (mul_ne_zero hp.z_ne_zero hplus)
    (inv_ne_zero (mul_ne_zero hp.z_ne_zero hminus))

/-- Every key has a transport key. -/
theorem exists_toX25519_eq (seed : Bytes 32) :
    ∃ key ≠ 0, toX25519 (publicKey seed) = .ok key := by
  obtain ⟨a, hdecode, ha⟩ := exists_decode?_encoding (secretScalar seed • basePoint)
  rw [← publicKey_eq] at hdecode
  have hu := montgomeryU_ne_zero ha
    (nsmul_basePoint_y_sq_ne_one (secretScalar_nsmul_ne_zero seed))
  refine ⟨Bytes.ofNatLE 32 a.montgomeryU, ?_, ?_⟩
  · exact ofNatLE_ne_zero ((Nat.mod_lt _ order_pos).trans (by decide +kernel)) hu
  · unfold toX25519
    rw [hdecode, Option.elim_some]
    exact if_neg hu

/-! ## Signatures -/

theorem scalarOfHash_lt (h : Bytes 64) : scalarOfHash h < 2 ^ 256 :=
  (Nat.mod_lt _ (by decide +kernel)).trans (by decide +kernel)

theorem toList_ofListPad {n : Nat} {bytes : List UInt8} (h : bytes.length = n) :
    (Bytes.ofListPad n bytes).toList = bytes := by
  simp only [Bytes.ofListPad]
  exact List.take_left' h

/-- A signature is the encoding of its point and a reduced scalar. -/
theorem toList_sign (seed : Bytes 32) (message : List UInt8) :
    ∃ r < 2 ^ 256, (sign seed message).toList = (r • basePoint).encoding.toList ++
      leBytes 32 ((challenge (r • basePoint).encoding (publicKey seed) message * secretScalar seed
        + r) % groupOrder) := by
  have hr := scalarOfHash_lt (Sha512.hash (nonceKey seed ++ message))
  refine ⟨_, hr, ?_⟩
  have hpoint := (represents_base.smul hr).encode_eq
  unfold sign
  dsimp only
  rw [toList_ofListPad (by simp), hpoint]

/-- The point that is recomputed from a signature's scalar is the point of the signature. -/
theorem recomputed_eq (k a r : Nat) :
    ((k * a + r) % groupOrder) • basePoint + k • -(a • basePoint) = r • basePoint := by
  rw [← addOrderOf_basePoint, mod_addOrderOf_nsmul, add_nsmul, mul_nsmul', ← add_right_comm,
    ← nsmul_add, add_neg_cancel, nsmul_zero, zero_add]

/-- What is signed under a seed verifies under the seed's public key. -/
theorem verifies_sign (seed : Bytes 32) (message : List UInt8) :
    verifies (publicKey seed) message (sign seed message) = true := by
  obtain ⟨r, hr, hsign⟩ := toList_sign seed message
  obtain ⟨a, hdecode, ha⟩ := exists_decode?_encoding (secretScalar seed • basePoint)
  rw [← publicKey_eq] at hdecode
  set point := (r • basePoint).encoding
  set k := challenge point (publicKey seed) message
  set s := (k * secretScalar seed + r) % groupOrder
  have hk : k < 2 ^ 256 := scalarOfHash_lt _
  have hs : s < groupOrder := Nat.mod_lt _ (by decide +kernel)
  have hbits : s < 2 ^ 256 := hs.trans (by decide +kernel)
  have hpoint : Bytes.ofListPad 32 ((sign seed message).toList.take 32) = point := by
    rw [hsign, List.take_left' point.length_toList]
    exact Bytes.ext (toList_ofListPad point.length_toList)
  have hscalar : leNat ((sign seed message).toList.drop 32) = s := by
    rw [hsign, List.drop_left' point.length_toList]
    exact leNat_leBytes 32 s hbits
  have hencode : ((Point.base.smul s).add (a.neg.smul k)).encode = point := by
    have hsum := (represents_base.smul hbits).add (ha.neg.smul hk)
    rw [recomputed_eq] at hsum
    exact hsum.encode_eq
  unfold verifies verify
  rw [hdecode, Option.elim_some, hpoint, hscalar]
  dsimp only
  rw [if_pos ⟨hs, hencode⟩]
  rfl

end Ed25519

end StakeRegistry
