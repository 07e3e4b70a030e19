import StakeRegistry.Random.Uniform

/-!
# Fair draws stay in bounds, and shuffles lose nothing

A draw below a positive number is below it, whatever the generator does (`drawBelow_lt`). A
swap exchanges two items at most, so the items of a shuffle are those it began with, each as
often as before (`shuffle_perm`).
-/

set_option autoImplicit false

namespace StakeRegistry

/-! ## Draws -/

theorem acceptLimit_eq (n : Nat) : acceptLimit n = n * (maxU64 / n) := by
  have hsplit := Nat.div_add_mod maxU64 n
  unfold acceptLimit
  omega

theorem runLength_eq {n : Nat} (hn : 0 < n) : runLength n = maxU64 / n := by
  rw [runLength, acceptLimit_eq, Nat.mul_div_cancel_left _ hn]

/-- Accepted words give values below the bound, and a draw that gives up answers zero. -/
theorem drawAccepted_lt {n : Nat} (hn : 0 < n) (budget : Nat) (g : Twister) :
    (drawAccepted n budget g).1 < n := by
  induction budget generalizing g with
  | zero => exact hn
  | succ budget ih =>
      unfold drawAccepted
      dsimp only
      split
      · rename_i haccepted
        rw [acceptLimit_eq, Nat.mul_comm] at haccepted
        rw [runLength_eq hn]
        exact Nat.div_lt_of_lt_mul haccepted
      · exact ih _

theorem drawBelow_lt {n : Nat} (hn : 0 < n) (g : Twister) : (drawBelow n g).1 < n := by
  unfold drawBelow
  split
  · exact hn
  · exact drawAccepted_lt hn _ g

/-! ## Shuffles -/

variable {α : Type}

/-- A swap rearranges the items; positions outside the list are left alone. -/
theorem swapItems_perm (items : List α) (i j : Nat) : (swapItems items i j).Perm items := by
  unfold swapItems
  split
  · rename_i x y hx hy
    obtain ⟨hi, rfl⟩ := List.getElem?_eq_some_iff.1 hx
    obtain ⟨hj, rfl⟩ := List.getElem?_eq_some_iff.1 hy
    have hswap : (items.toArray.swap i j hi hj).Perm items.toArray := Array.swap_perm hi hj
    have hlist := hswap.toList
    rwa [Array.toList_swap] at hlist
  · exact .refl _

theorem swapAlong_perm (items : List α) (i : Nat) (js : List Nat) :
    (swapAlong items i js).Perm items := by
  induction js generalizing items i with
  | nil => exact .refl _
  | cons j js ih => exact (ih (swapItems items i j) (i + 1)).trans (swapItems_perm items i j)

theorem shuffle_perm (items : List α) (g : Twister) : (shuffle items g).1.Perm items :=
  swapAlong_perm items 1 _

end StakeRegistry
