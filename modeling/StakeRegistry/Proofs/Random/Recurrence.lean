import Mathlib.Logic.Function.Iterate
import StakeRegistry.Random.Twister

/-!
# The generator as a recurrence

The block of the generator is rewritten in place, so that a later position reads words that have
been rewritten before it. What comes out is one endless sequence, in which every word follows from
three words before it: the words of the block at first, then those of the block rewritten once, and
so on (`stream`). Main statements:

* `Twister.stream_recurrence`: the law of the sequence;
* `Twister.current_advance`: draw after draw reads the sequence, word after word;
* `Twister.wordAt_recurrence`: the law of the words of a block and of those that draws read next.
-/

set_option autoImplicit false

namespace StakeRegistry

namespace Twister

/-! ## Rewriting a block -/

/-- The block when its first `k` positions have been rewritten. -/
def twistedUpTo (words : Vector UInt64 312) (k : Nat) (hk : k ≤ 312) : Vector UInt64 312 :=
  Fin.foldl k (fun v i => twistAt v (i.castLE hk)) words

section Block

variable (words : Vector UInt64 312)

theorem twistedUpTo_succ {k : Nat} (hk : k < 312) :
    twistedUpTo words (k + 1) hk =
      twistAt (twistedUpTo words k (Nat.le_of_lt hk)) ⟨k, hk⟩ := by
  unfold twistedUpTo
  rw [Fin.foldl_succ_last]
  rfl

variable {words}

/-- Positions that are not reached yet are as they were. -/
theorem getElem_twistedUpTo_of_le {k i : Nat} (hk : k ≤ 312) (hi : i < 312) (h : k ≤ i) :
    (twistedUpTo words k hk)[i] = words[i] := by
  induction k with
  | zero => rfl
  | succ k ih =>
      rw [twistedUpTo_succ words hk]
      unfold twistAt
      rw [Vector.getElem_set_ne _ _ (Nat.ne_of_lt h)]
      exact ih (Nat.le_of_succ_le hk) (Nat.le_of_succ_le h)

/-- Positions that have been rewritten are final. -/
theorem getElem_twistedUpTo_of_lt {k i : Nat} (hk : k ≤ 312) (hi : i < 312) (h : i < k) :
    (twistedUpTo words k hk)[i] = (twist words)[i] := by
  induction hsteps : 312 - k generalizing k with
  | zero =>
      obtain rfl : k = 312 := by omega
      rfl
  | succ steps ih =>
      have hk' : k < 312 := by omega
      rw [← ih (k := k + 1) hk' (Nat.lt_succ_of_lt h) (by omega), twistedUpTo_succ words hk']
      unfold twistAt
      rw [Vector.getElem_set_ne _ _ (Nat.ne_of_gt h)]

/-- The word that comes to stand at a position, from words as they stand when it is rewritten. -/
theorem getElem_twist {i : Nat} (hi : i < 312) :
    (twist words)[i] =
      (twistedUpTo words i (Nat.le_of_lt hi))[wrap (i + 156)] ^^^
        combine words[i] (twistedUpTo words i (Nat.le_of_lt hi))[wrap (i + 1)] := by
  rw [← getElem_twistedUpTo_of_lt (k := i + 1) hi hi (Nat.lt_succ_self i),
    twistedUpTo_succ words hi]
  unfold twistAt
  rw [Vector.getElem_set_self]
  congr 2
  exact getElem_twistedUpTo_of_le (Nat.le_of_lt hi) hi (Nat.le_refl i)

end Block

/-! ## The sequence of the words -/

/-- The words of a block, then those of the block rewritten, and so on. -/
def stream (words : Vector UInt64 312) (k : Nat) : UInt64 := (twist^[k / 312] words)[wrap k]

variable (words : Vector UInt64 312)

theorem stream_of_lt (blocks : Nat) {i : Nat} (hi : i < 312) :
    stream words (312 * blocks + i) = (twist^[blocks] words)[i] := by
  unfold stream wrap
  have hdiv : (312 * blocks + i) / 312 = blocks := by omega
  have hmod : (312 * blocks + i) % 312 = i := by omega
  simp only [hdiv, Fin.getElem_fin, hmod]

/-- While a block is rewritten, it holds the 312 words of the sequence from the position on that is
rewritten next, going round. -/
theorem getElem_twistedUpTo_wrap (blocks : Nat) {i : Nat} (hi : i < 312) {ahead : Nat}
    (hahead : ahead < 312) :
    (twistedUpTo (twist^[blocks] words) i (Nat.le_of_lt hi))[wrap (i + ahead)] =
      stream words (312 * blocks + i + ahead) := by
  rw [Fin.getElem_fin]
  by_cases hround : i + ahead < 312
  · have hmod : (i + ahead) % 312 = i + ahead := Nat.mod_eq_of_lt hround
    simp only [wrap, hmod]
    rw [getElem_twistedUpTo_of_le _ hround (Nat.le_add_right i ahead), Nat.add_assoc,
      stream_of_lt words blocks hround]
  · have hmod : (i + ahead) % 312 = i + ahead - 312 := by omega
    have hplace : 312 * blocks + i + ahead = 312 * (blocks + 1) + (i + ahead - 312) := by omega
    simp only [wrap, hmod]
    rw [getElem_twistedUpTo_of_lt _ (by omega) (by omega), hplace,
      stream_of_lt words (blocks + 1) (by omega)]
    simp only [Function.iterate_succ_apply']

/-- Every word of the sequence follows from the words 312, 311 and 156 places before it. -/
theorem stream_recurrence (k : Nat) :
    stream words (k + 312) =
      stream words (k + 156) ^^^ combine (stream words k) (stream words (k + 1)) := by
  obtain ⟨blocks, i, hi, rfl⟩ : ∃ blocks i, i < 312 ∧ k = 312 * blocks + i :=
    ⟨k / 312, k % 312, Nat.mod_lt k (by decide), by omega⟩
  have hnext : 312 * blocks + i + 312 = 312 * (blocks + 1) + i := by omega
  rw [hnext, stream_of_lt words (blocks + 1) hi, stream_of_lt words blocks hi,
    ← getElem_twistedUpTo_wrap words blocks hi (by decide),
    ← getElem_twistedUpTo_wrap words blocks hi (by decide)]
  simp only [Function.iterate_succ_apply']
  exact getElem_twist hi

/-! ## What draws read -/

/-- The generator after some draws. -/
def advance (g : Twister) (draws : Nat) : Twister := (fun g => g.next.2)^[draws] g

/-- The random word that the draw after some others hands out. -/
def output (g : Twister) (draws : Nat) : UInt64 := (g.advance draws).next.1

variable (g : Twister)

theorem advance_succ (draws : Nat) : g.advance (draws + 1) = (g.advance draws).next.2 :=
  Function.iterate_succ_apply' _ draws g

theorem position_refill_lt : g.refill.position < 312 := by
  unfold refill
  split
  · assumption
  · exact Nat.zero_lt_succ 311

theorem refill_next :
    g.next.2.refill =
      if g.refill.position + 1 < 312 then ⟨g.refill.words, g.refill.position + 1⟩
      else ⟨twist g.refill.words, 0⟩ := rfl

/-- Ready for a draw, the generator holds the block of the sequence that the draw reads from. -/
theorem exists_refill_advance (draws : Nat) : ∃ blocks,
    (g.advance draws).refill.words = twist^[blocks] g.refill.words ∧
      312 * blocks + (g.advance draws).refill.position = g.refill.position + draws := by
  induction draws with
  | zero => exact ⟨0, rfl, Nat.zero_add _⟩
  | succ draws ih =>
      obtain ⟨blocks, hwords, hplace⟩ := ih
      have hposition := (g.advance draws).position_refill_lt
      rw [advance_succ, refill_next]
      split
      · exact ⟨blocks, hwords, by dsimp only; omega⟩
      · refine ⟨blocks + 1, ?_, by dsimp only; omega⟩
        dsimp only
        rw [hwords, Function.iterate_succ_apply']

/-- The draws read the words of the sequence one after the other. -/
theorem current_advance (draws : Nat) :
    (g.advance draws).current = stream g.refill.words (g.refill.position + draws) := by
  obtain ⟨blocks, hwords, hplace⟩ := g.exists_refill_advance draws
  have hposition := (g.advance draws).position_refill_lt
  unfold current
  rw [← hplace, stream_of_lt g.refill.words blocks hposition, Fin.getElem_fin]
  simp only [wrap, Nat.mod_eq_of_lt hposition, hwords]

/-- The words that draws read follow from those that earlier draws have read. -/
theorem current_recurrence (draws : Nat) :
    (g.advance (draws + 312)).current =
      (g.advance (draws + 156)).current ^^^
        combine (g.advance draws).current (g.advance (draws + 1)).current := by
  simp only [current_advance, ← Nat.add_assoc]
  exact stream_recurrence g.refill.words (g.refill.position + draws)

/-! ## The law in words -/

theorem stream_twist (k : Nat) : stream (twist words) k = stream words (k + 312) := by
  have hdiv : (k + 312) / 312 = k / 312 + 1 := Nat.add_div_right k (by decide)
  have hwrap : wrap (k + 312) = wrap k := Fin.ext (Nat.add_mod_right k 312)
  simp only [stream, hdiv, hwrap, Function.iterate_succ_apply]

/-- The words of a block and, behind them, the words that draws read once the block is used up. -/
def wordAt (k : Nat) : UInt64 :=
  if h : k < 312 then words[k] else ((Twister.mk words 312).advance (k - 312)).current

theorem wordAt_eq_stream (k : Nat) : wordAt words k = stream words k := by
  unfold wordAt
  by_cases h : k < 312
  · rw [dif_pos h]
    simpa using (stream_of_lt words 0 h).symm
  · rw [dif_neg h]
    have hrefill : (Twister.mk words 312).refill = ⟨twist words, 0⟩ := if_neg (Nat.lt_irrefl 312)
    have hplace : 0 + (k - 312) + 312 = k := by omega
    rw [current_advance, hrefill, stream_twist, hplace]

theorem combine_eq (a b : UInt64) :
    combine a b =
      let x := (a &&& upperMask) ||| (b &&& lowerMask)
      (x >>> 1) ^^^ (if x.toNat % 2 = 1 then twistMask else 0) := by
  unfold combine
  dsimp only
  generalize (a &&& upperMask) ||| (b &&& lowerMask) = x
  have heven : x &&& 1 = 0 ↔ x.toNat % 2 = 0 := by
    rw [← UInt64.toNat_inj, UInt64.toNat_and]
    exact Nat.and_one_is_mod x.toNat ▸ Iff.rfl
  by_cases h : x &&& 1 = 0
  · have hmod : ¬ x.toNat % 2 = 1 := by
      rw [heven.1 h]
      exact Nat.zero_ne_one
    rw [if_pos h, if_neg hmod, UInt64.xor_zero]
  · have hmod : x.toNat % 2 = 1 := Nat.mod_two_ne_zero.1 fun hzero => h (heven.2 hzero)
    rw [if_neg h, if_pos hmod]

/-- However many draws there are: each hands out its word of the sequence tempered, and every word
of the sequence is the one 156 places before it, folded with the upper bits of the word 312 places
before it and the lower bits of the next, which are shifted right and, if odd, folded with the
mask of the recurrence. -/
theorem wordAt_recurrence :
    (∀ draws, (Twister.mk words 312).output draws = temper (wordAt words (312 + draws))) ∧
      ∀ k, wordAt words (k + 312) =
        let x := (wordAt words k &&& upperMask) ||| (wordAt words (k + 1) &&& lowerMask)
        wordAt words (k + 156) ^^^ (x >>> 1) ^^^ (if x.toNat % 2 = 1 then twistMask else 0) := by
  constructor
  · intro draws
    have hbehind : ¬ 312 + draws < 312 := by omega
    rw [wordAt, dif_neg hbehind, Nat.add_sub_cancel_left]
    rfl
  · intro k
    calc wordAt words (k + 312)
        = wordAt words (k + 156) ^^^ combine (wordAt words k) (wordAt words (k + 1)) := by
          simp only [wordAt_eq_stream]
          exact stream_recurrence words k
      _ = _ := by
          rw [combine_eq]
          exact (UInt64.xor_assoc _ _ _).symm

end Twister

end StakeRegistry
