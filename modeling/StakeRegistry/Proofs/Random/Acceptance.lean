import Mathlib.Algebra.Field.ZMod
import Mathlib.LinearAlgebra.Eigenspace.Charpoly
import StakeRegistry.Proofs.Random.Recurrence
import StakeRegistry.Proofs.Random.Shuffle

/-!
# Draws come to an end

A draw takes random words until one lies below the limit, as all words in the lower half do. Modulo
two, the highest bit of the words that are handed out is a linear function of the last 312 words of
the recurrence, and these words change by a linear map, which fixes none but zeros. Such a map does
not keep a linear function at one for more steps than there are dimensions. So of any 19969 random
words in a row one is accepted, long before a draw would give up. Main statements:

* `exists_pow_apply_ne_one`: the argument, for any linear map;
* `Twister.exists_output_lt`: a random word in the lower half comes soon;
* `exists_drawBelow_eq`: a draw answers by the first word that it accepts.
-/

set_option autoImplicit false

namespace StakeRegistry

/-- When a linear map fixes nothing but zero, no linear function stays at one along an orbit for
longer than the dimension: else one would be a root of the characteristic polynomial. -/
theorem exists_pow_apply_ne_one {K V : Type} [Field K] [AddCommGroup V] [Module K V]
    [FiniteDimensional K V] {T : Module.End K V} (hfixed : ∀ v, T v = v → v = 0)
    (φ : V →ₗ[K] K) (v : V) : ∃ k ≤ Module.finrank K V, φ ((T ^ k) v) ≠ 1 := by
  by_contra hall
  have hones : ∀ k ∈ Finset.range (T.charpoly.natDegree + 1), φ ((T ^ k) v) = 1 := by
    intro k hk
    by_contra hne
    refine hall ⟨k, ?_, hne⟩
    rw [Finset.mem_range, T.charpoly_natDegree] at hk
    omega
  have hroot : T.charpoly.IsRoot 1 := by
    calc T.charpoly.eval 1
        = ∑ k ∈ Finset.range (T.charpoly.natDegree + 1), T.charpoly.coeff k * φ ((T ^ k) v) := by
          rw [Polynomial.eval_eq_sum_range]
          exact Finset.sum_congr rfl fun k hk => by rw [hones k hk, one_pow]
      _ = φ (Polynomial.aeval T T.charpoly v) := by
          rw [Polynomial.aeval_eq_sum_range]
          simp
      _ = 0 := by rw [T.aeval_self_charpoly, LinearMap.zero_apply, map_zero]
  obtain ⟨w, hw⟩ :=
    ((Module.End.hasEigenvalue_iff_isRoot_charpoly T 1).2 hroot).exists_hasEigenvector
  exact hw.2 (hfixed w (hw.apply_eq_smul.trans (one_smul K w)))

namespace Twister

/-! ## Bits modulo two -/

/-- A bit of a word, as a number modulo two. -/
def bit (w : UInt64) (i : Nat) : ZMod 2 := if w.toBitVec.getLsbD i then 1 else 0

theorem bit_of_le (w : UInt64) {i : Nat} (hi : 64 ≤ i) : bit w i = 0 := by
  rw [bit, BitVec.getLsbD_of_ge _ _ hi]
  rfl

theorem bit_xor (a b : UInt64) (i : Nat) : bit (a ^^^ b) i = bit a i + bit b i := by
  simp only [bit, UInt64.toBitVec_xor, BitVec.getLsbD_xor]
  cases a.toBitVec.getLsbD i <;> cases b.toBitVec.getLsbD i <;> decide

theorem bit_and (a b : UInt64) (i : Nat) : bit (a &&& b) i = bit a i * bit b i := by
  simp only [bit, UInt64.toBitVec_and, BitVec.getLsbD_and]
  cases a.toBitVec.getLsbD i <;> cases b.toBitVec.getLsbD i <;> decide

theorem bit_shiftRight (w n : UInt64) (i : Nat) :
    bit (w >>> n) i = bit w (n.toNat % 64 + i) := by
  simp [bit, UInt64.toBitVec_shiftRight, BitVec.ushiftRight_eq']

theorem bit_shiftLeft (w n : UInt64) {i : Nat} (hlow : n.toNat % 64 ≤ i) (hi : i < 64) :
    bit (w <<< n) i = bit w (i - n.toNat % 64) := by
  simp only [bit, UInt64.toBitVec_shiftLeft, BitVec.shiftLeft_eq', BitVec.getLsbD_shiftLeft, hi]
  simp [Nat.not_lt.2 hlow]

theorem bit_zero (w : UInt64) : bit w 0 = if w &&& 1 = 0 then 0 else 1 := by
  have heven : w &&& 1 = 0 ↔ w.toBitVec.getLsbD 0 = false := by
    rw [← UInt64.toNat_inj]
    simp [BitVec.getLsbD]
  unfold bit
  simp only [heven]
  cases w.toBitVec.getLsbD 0 <;> rfl

/-- The highest bit of a random word is the sum of four bits of the word of the state that it is
made from. -/
theorem bit_temper (w : UInt64) :
    bit (temper w) 63 = bit w 63 + bit w 26 + bit w 55 + bit w 9 := by
  have hmasks : bit 0x5555555555555555 26 = 1 ∧ bit 0x5555555555555555 9 = 0 ∧
      bit 0x71D67FFFEDA60000 63 = 0 ∧ bit 0x71D67FFFEDA60000 26 = 1 ∧
      bit 0xFFF7EEE000000000 63 = 1 := by decide
  obtain ⟨h₁, h₁', h₂, h₂', h₃⟩ := hmasks
  have hfirst (i : Nat) : bit (w ^^^ ((w >>> 29) &&& 0x5555555555555555)) i =
      bit w i + bit w (29 + i) * bit 0x5555555555555555 i := by
    rw [bit_xor, bit_and, bit_shiftRight]
    rfl
  unfold temper
  dsimp only
  generalize w ^^^ ((w >>> 29) &&& 0x5555555555555555) = x₁ at *
  have hsecond {i : Nat} (hlow : 17 ≤ i) (hi : i < 64) :
      bit (x₁ ^^^ ((x₁ <<< 17) &&& 0x71D67FFFEDA60000)) i =
        bit x₁ i + bit x₁ (i - 17) * bit 0x71D67FFFEDA60000 i := by
    rw [bit_xor, bit_and, bit_shiftLeft _ _ hlow hi]
    rfl
  generalize x₁ ^^^ ((x₁ <<< 17) &&& 0x71D67FFFEDA60000) = x₂ at *
  have hthird : bit (x₂ ^^^ ((x₂ <<< 37) &&& 0xFFF7EEE000000000)) 63 = bit x₂ 63 + bit x₂ 26 := by
    rw [bit_xor, bit_and, bit_shiftLeft _ _ (by decide) (by decide), h₃, mul_one]
    rfl
  generalize x₂ ^^^ ((x₂ <<< 37) &&& 0xFFF7EEE000000000) = x₃ at *
  have hfourth : bit (x₃ ^^^ (x₃ >>> 43)) 63 = bit x₃ 63 := by
    rw [bit_xor, bit_shiftRight,
      bit_of_le x₃ (show 64 ≤ UInt64.toNat 43 % 64 + 63 by decide), add_zero]
  calc bit (x₃ ^^^ (x₃ >>> 43)) 63
      = bit x₁ 63 + (bit x₁ 26 + bit x₁ 9) := by
        rw [hfourth, hthird, hsecond (by decide) (by decide), hsecond (by decide) (by decide), h₂,
          h₂', mul_zero, add_zero, mul_one]
    _ = bit w 63 + (bit w 26 + bit w 55 + bit w 9) := by
        rw [hfirst, hfirst, hfirst, bit_of_le w (show 64 ≤ 29 + 63 by decide), h₁, h₁', zero_mul,
          mul_zero, add_zero, add_zero, mul_one]
    _ = bit w 63 + bit w 26 + bit w 55 + bit w 9 := by ring

/-! ## The step of the recurrence -/

/-- The bits of a word moved down by one place. -/
def lowered (v : Fin 64 → ZMod 2) (i : Fin 64) : ZMod 2 :=
  if h : i.val + 1 < 64 then v ⟨i.val + 1, h⟩ else 0

/-- The bits of `combine a b`, from the bits of `a` and of `b`. -/
def combinedBits (a b : Fin 64 → ZMod 2) (i : Fin 64) : ZMod 2 :=
  (if 30 ≤ i.val then lowered a i else lowered b i) + bit twistMask i * b 0

theorem lowered_bit (w : UInt64) (i : Fin 64) : lowered (fun i => bit w i) i = bit w (i + 1) := by
  unfold lowered
  split
  · rfl
  · rw [bit_of_le w (by omega)]

theorem bit_joined (a b : UInt64) {i : Nat} (hi : i < 64) :
    bit ((a &&& upperMask) ||| (b &&& lowerMask)) i = if 31 ≤ i then bit a i else bit b i := by
  have hmasks : ∀ i : Fin 64, upperMask.toBitVec.getLsbD i = decide (31 ≤ i.val) ∧
      lowerMask.toBitVec.getLsbD i = !decide (31 ≤ i.val) := by decide
  obtain ⟨hupper, hlower⟩ := hmasks ⟨i, hi⟩
  dsimp only at hupper hlower
  simp only [bit, UInt64.toBitVec_or, UInt64.toBitVec_and, BitVec.getLsbD_or, BitVec.getLsbD_and,
    hupper, hlower]
  by_cases h : 31 ≤ i
  · simp [h]
  · simp [h]

theorem combinedBits_bit (a b : UInt64) (i : Fin 64) :
    combinedBits (fun i => bit a i) (fun i => bit b i) i = bit (combine a b) i := by
  have hshift : bit (((a &&& upperMask) ||| (b &&& lowerMask)) >>> 1) i =
      if 30 ≤ i.val then bit a (i + 1) else bit b (i + 1) := by
    rw [bit_shiftRight, show UInt64.toNat 1 % 64 + i.val = i.val + 1 from Nat.add_comm 1 i.val]
    by_cases hlast : i.val + 1 < 64
    · rw [bit_joined a b hlast]
      simp
    · rw [bit_of_le _ (by omega), bit_of_le a (by omega), if_pos (by omega)]
  have hodd := bit_zero ((a &&& upperMask) ||| (b &&& lowerMask))
  rw [bit_joined a b (by decide), if_neg (by decide)] at hodd
  unfold combinedBits combine
  dsimp only
  rw [lowered_bit, lowered_bit, ← hshift]
  split
  · rename_i heven
    rw [if_pos heven] at hodd
    rw [show bit b (0 : Fin 64).val = 0 from hodd, mul_zero, add_zero]
  · rename_i hone
    rw [if_neg hone] at hodd
    rw [show bit b (0 : Fin 64).val = 1 from hodd, mul_one, bit_xor]

/-- The bits of 312 words in a row. -/
abbrev Window : Type := Fin 312 → Fin 64 → ZMod 2

/-- The window that follows: the first word goes, and the recurrence adds one at the end. -/
def slide : Module.End (ZMod 2) Window where
  toFun v j :=
    if h : j.val + 1 < 312 then v ⟨j.val + 1, h⟩ else v 156 + combinedBits (v 0) (v 1)
  map_add' u v := by
    funext j i
    simp only [Pi.add_apply]
    split
    · rfl
    · simp only [Pi.add_apply, combinedBits, lowered]
      split <;> split <;> ring
  map_smul' c v := by
    funext j i
    simp only [Pi.smul_apply, RingHom.id_apply, smul_eq_mul]
    split
    · rfl
    · simp only [Pi.add_apply, Pi.smul_apply, smul_eq_mul, combinedBits, lowered]
      split <;> split <;> ring

theorem slide_apply_of_lt (v : Window) {j : Nat} (hj : j + 1 < 312) :
    slide v ⟨j, Nat.lt_of_succ_lt hj⟩ = v ⟨j + 1, hj⟩ := dif_pos hj

theorem slide_apply_last (v : Window) :
    slide v (Fin.last 311) = v 156 + combinedBits (v 0) (v 1) := rfl

/-- Only words of zeros go on as they are: in a window that stays, all words are the same, and such
a word combined with itself gives zero. -/
theorem eq_zero_of_slide_eq {v : Window} (h : slide v = v) : v = 0 := by
  have hsame : ∀ j (hj : j < 312), v ⟨j, hj⟩ = v 0 := by
    intro j
    induction j with
    | zero => exact fun _ => rfl
    | succ j ih =>
        intro hj
        rw [← slide_apply_of_lt v hj, h]
        exact ih _
  have hlast : ∀ i, combinedBits (v 0) (v 0) i = 0 := by
    intro i
    have hi := congrFun (congrFun h (Fin.last 311)) i
    have h156 : v 156 = v 0 := hsame 156 (by decide)
    have h1 : v 1 = v 0 := hsame 1 (by decide)
    have h311 : v (Fin.last 311) = v 0 := hsame 311 (by decide)
    rw [slide_apply_last, h156, h1, h311] at hi
    exact left_eq_add.1 hi.symm
  -- The highest bit of the mask is set, so that an odd word would leave a one there.
  have hlow : v 0 0 = 0 := by
    have htop := hlast 63
    have hmask : bit twistMask 63 = 1 := by decide
    unfold combinedBits lowered at htop
    simpa [hmask] using htop
  have hhigher : ∀ i (hi : i + 1 < 64), v 0 ⟨i + 1, hi⟩ = 0 := by
    intro i hi
    have hnext := hlast ⟨i, Nat.lt_of_succ_lt hi⟩
    unfold combinedBits lowered at hnext
    simpa [hlow, hi] using hnext
  funext j i
  rw [show v j = v 0 from hsame j.val j.isLt]
  obtain ⟨i, hi⟩ := i
  cases i with
  | zero => exact hlow
  | succ i => exact hhigher i hi

/-! ## The words that draws read -/

/-- The words of the state that the draws after some others read, 312 of them. -/
def window (g : Twister) (draws : Nat) : Window := fun j i => bit (g.advance (draws + j)).current i

variable (g : Twister)

theorem slide_window (draws : Nat) : slide (g.window draws) = g.window (draws + 1) := by
  funext j i
  obtain ⟨j, hj⟩ := j
  by_cases h : j + 1 < 312
  · rw [slide_apply_of_lt _ h]
    unfold window
    dsimp only
    rw [Nat.add_right_comm, Nat.add_assoc]
  · obtain rfl : j = 311 := by omega
    calc slide (g.window draws) (Fin.last 311) i
        = bit (g.advance (draws + 156)).current i +
            bit (combine (g.advance draws).current (g.advance (draws + 1)).current) i := by
          rw [slide_apply_last, ← combinedBits_bit]
          rfl
      _ = bit (g.advance (draws + 312)).current i := by rw [← bit_xor, current_recurrence]
      _ = g.window (draws + 1) (Fin.last 311) i := by
          unfold window
          rw [Nat.add_assoc]
          rfl

theorem slide_pow_window (draws : Nat) : (slide ^ draws) (g.window 0) = g.window draws := by
  induction draws with
  | zero => rfl
  | succ draws ih => rw [pow_succ', Module.End.mul_apply, ih, slide_window]

/-- The highest bit of the random word that is made from the first word of a window. -/
def topBit : Window →ₗ[ZMod 2] ZMod 2 where
  toFun v := v 0 63 + v 0 26 + v 0 55 + v 0 9
  map_add' u v := by
    simp only [Pi.add_apply]
    ring
  map_smul' c v := by
    simp only [Pi.smul_apply, RingHom.id_apply, smul_eq_mul]
    ring

theorem topBit_window (draws : Nat) : topBit (g.window draws) = bit (g.output draws) 63 :=
  (bit_temper _).symm

theorem finrank_window : Module.finrank (ZMod 2) Window = 19968 := by
  simp [Module.finrank_pi_fintype]

/-- Of 19969 random words in a row one lies in the lower half. -/
theorem exists_output_lt : ∃ draws ≤ 19968, (g.output draws).toNat < 0x8000000000000000 := by
  obtain ⟨draws, hdraws, hbit⟩ :=
    exists_pow_apply_ne_one (fun _ => eq_zero_of_slide_eq) topBit (g.window 0)
  rw [slide_pow_window, topBit_window] at hbit
  refine ⟨draws, finrank_window ▸ hdraws, ?_⟩
  by_contra hhigh
  have hmsb : (g.output draws).toBitVec.msb = true := by
    rw [BitVec.msb_eq_decide]
    exact decide_eq_true (Nat.le_of_not_lt hhigh)
  rw [BitVec.msb_eq_getLsbD_last] at hmsb
  exact hbit (if_pos hmsb)

end Twister

/-! ## Draws -/

variable {n : Nat}

/-- Every word in the lower half is accepted. -/
theorem le_acceptLimit (hsome : 0 < n) (hn : n ≤ maxU64) : 0x8000000000000000 ≤ acceptLimit n := by
  unfold acceptLimit
  by_cases hhalf : n ≤ 0x8000000000000000
  · have hrest := Nat.mod_lt maxU64 hsome
    unfold maxU64 at *
    omega
  · have honce : maxU64 % n = maxU64 - n := by
      rw [Nat.mod_eq_sub_mod hn, Nat.mod_eq_of_lt]
      unfold maxU64 at *
      omega
    rw [honce]
    omega

theorem drawAccepted_eq {budget rejected : Nat} {g : Twister}
    (hrejected : ∀ draws < rejected, acceptLimit n ≤ (g.output draws).toNat)
    (haccepted : (g.output rejected).toNat < acceptLimit n) (hbudget : rejected < budget) :
    drawAccepted n budget g =
      ((g.output rejected).toNat / runLength n, g.advance (rejected + 1)) := by
  induction rejected generalizing budget g with
  | zero =>
      obtain ⟨budget, rfl⟩ := Nat.exists_eq_succ_of_ne_zero (Nat.ne_of_gt hbudget)
      exact if_pos haccepted
  | succ rejected ih =>
      obtain ⟨budget, rfl⟩ :=
        Nat.exists_eq_succ_of_ne_zero (Nat.ne_of_gt (Nat.zero_lt_of_lt hbudget))
      have hfirst : ¬ g.next.1.toNat < acceptLimit n :=
        Nat.not_lt.2 (hrejected 0 (Nat.succ_pos rejected))
      unfold drawAccepted
      dsimp only
      rw [if_neg hfirst]
      exact ih (fun draws hdraws => hrejected (draws + 1) (Nat.succ_lt_succ hdraws)) haccepted
        (Nat.lt_of_succ_lt_succ hbudget)

/-- A draw below two or more answers by the first random word that it accepts, after 19968
rejections at most. -/
theorem exists_drawBelow_eq (htwo : 2 ≤ n) (hn : n ≤ maxU64) (g : Twister) :
    ∃ rejected ≤ 19968, (∀ draws < rejected, acceptLimit n ≤ (g.output draws).toNat) ∧
      (g.output rejected).toNat < acceptLimit n ∧
      drawBelow n g = ((g.output rejected).toNat / runLength n, g.advance (rejected + 1)) := by
  have hlimit := le_acceptLimit (Nat.lt_of_succ_le (Nat.le_of_succ_le htwo)) hn
  obtain ⟨draws, hdraws, hlow⟩ := g.exists_output_lt
  have hsome : ∃ draws, (g.output draws).toNat < acceptLimit n :=
    ⟨draws, Nat.lt_of_lt_of_le hlow hlimit⟩
  have hfew : Nat.find hsome ≤ 19968 :=
    Nat.le_trans (Nat.find_min' hsome (Nat.lt_of_lt_of_le hlow hlimit)) hdraws
  have hrejected : ∀ draws < Nat.find hsome, acceptLimit n ≤ (g.output draws).toNat :=
    fun draws hbefore => Nat.le_of_not_lt (Nat.find_min hsome hbefore)
  refine ⟨Nat.find hsome, hfew, hrejected, Nat.find_spec hsome, ?_⟩
  unfold drawBelow
  rw [if_neg (Nat.not_le.2 htwo)]
  exact drawAccepted_eq hrejected (Nat.find_spec hsome)
    (Nat.lt_of_le_of_lt hfew (by unfold rejectionBudget; omega))

end StakeRegistry
