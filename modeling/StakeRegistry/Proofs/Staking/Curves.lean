import Mathlib.Algebra.GroupWithZero.Nat
import StakeRegistry.Proofs.Transition.Step
import StakeRegistry.Staking.Limits

/-!
# Slot curves

Stakes in coin and stakes in portions are checked by one rule: the first slot brings a quarter of
the whole at least, every later one an equal part of what is missing for the slots from it on, and
nobody more than is missing (`SharesFrom`). What the rule asks of a slot depends on the sum and on
the number of the shares in front of it only, so a list can be cut and continued anywhere, and the
last slot is asked for exactly what is missing. Main statements:

* `stakesFit_iff`, `portionsFit_iff`: the two checks are this rule, for ten slots and for four;
* `sharesFrom_append_iff`: shares of two lists one after the other;
* `SharesFrom.extended_iff`: which shares the next slot may bring;
* `completable_of_fit`: shares that fit can always be completed.
-/

set_option autoImplicit false

namespace StakeRegistry

/-! ## The rule -/

/-- The least share of a whole that slot `index` may take, the slots before it having reserved
`reserved`. The slots end before the index `slots`; behind them the least share is the greatest
64-bit value. -/
def leastShare (slots whole index reserved : Nat) : Nat :=
  if index = 0 then whole / 4
  else if slots ≤ index then maxU64
  else (whole - reserved) / (slots - index)

/-- Shares for the slots from `index` on, the slots before it having reserved `reserved`. -/
def SharesFrom (slots whole : Nat) : Nat → Nat → List Nat → Prop
  | _, _, [] => True
  | index, reserved, share :: rest =>
      leastShare slots whole index reserved ≤ share ∧ reserved + share ≤ whole ∧
        SharesFrom slots whole (index + 1) (reserved + share) rest

section Rule

variable {slots whole index reserved : Nat} {l l' : List Nat}

theorem leastShare_of_pos (hindex : 0 < index) (hslot : index < slots) :
    leastShare slots whole index reserved = (whole - reserved) / (slots - index) := by
  rw [leastShare, if_neg (Nat.pos_iff_ne_zero.1 hindex), if_neg (Nat.not_le.2 hslot)]

/-- Shares of two lists one after the other: those of the second follow on what the first have
reserved. -/
theorem sharesFrom_append_iff :
    SharesFrom slots whole index reserved (l ++ l') ↔
      SharesFrom slots whole index reserved l ∧
        SharesFrom slots whole (index + l.length) (reserved + l.sum) l' := by
  induction l generalizing index reserved with
  | nil => simp [SharesFrom]
  | cons share rest ih =>
      have hindex : index + 1 + rest.length = index + (share :: rest).length := by
        rw [List.length_cons]
        omega
      have hreserved : reserved + share + rest.sum = reserved + (share :: rest).sum := by
        rw [List.sum_cons, Nat.add_assoc]
      rw [List.cons_append, SharesFrom, SharesFrom, ih, hindex, hreserved]
      simp only [and_assoc]

theorem SharesFrom.sum_le (h : SharesFrom slots whole index reserved l)
    (hreserved : reserved ≤ whole) : reserved + l.sum ≤ whole := by
  induction l generalizing index reserved with
  | nil => simpa using hreserved
  | cons share rest ih =>
      obtain ⟨-, hfits, hrest⟩ := h
      have hsum := ih hrest hfits
      rw [List.sum_cons]
      omega

/-- Shares are kept when the last of them are left out. -/
theorem SharesFrom.of_prefix (h : SharesFrom slots whole index reserved l) (hfront : l' <+: l) :
    SharesFrom slots whole index reserved l' := by
  obtain ⟨rest, rfl⟩ := hfront
  exact (sharesFrom_append_iff.1 h).1

/-- The next slot may bring an equal part of what is missing at least, and all of it at most. -/
theorem SharesFrom.extended_iff (h : SharesFrom slots whole 0 0 l) (hsome : l ≠ [])
    (hroom : l.length < slots) (next : Nat) :
    SharesFrom slots whole 0 0 (l ++ [next]) ↔
      (whole - l.sum) / (slots - l.length) ≤ next ∧ next ≤ whole - l.sum := by
  have hsum := h.sum_le (Nat.zero_le whole)
  rw [sharesFrom_append_iff, Nat.zero_add, Nat.zero_add, SharesFrom, SharesFrom,
    leastShare_of_pos (List.length_pos_iff.2 hsome) hroom]
  constructor
  · rintro ⟨-, hleast, hfits, -⟩
    exact ⟨hleast, by omega⟩
  · rintro ⟨hleast, hmissing⟩
    exact ⟨h, hleast, by omega, trivial⟩

/-- Shares for all slots make up the whole, since the last slot is asked for what is missing. -/
theorem SharesFrom.sum_eq (h : SharesFrom slots whole 0 0 l) (hslots : 1 < slots)
    (hfull : l.length = slots) : l.sum = whole := by
  have hsome : l ≠ [] := List.ne_nil_of_length_pos (by omega)
  have hothers : l.dropLast.length + 1 = slots := by
    rw [List.length_dropLast]
    omega
  have hlast : l.dropLast ++ [l.getLast hsome] = l := List.dropLast_concat_getLast hsome
  have hsum : (l.dropLast ++ [l.getLast hsome]).sum = l.dropLast.sum + l.getLast hsome := by simp
  rw [hlast] at hsum
  have hbefore := h.of_prefix (List.dropLast_prefix l)
  have hmissing := (hbefore.extended_iff (List.ne_nil_of_length_pos (by omega)) (by omega) _).1
    (hlast.symm ▸ h)
  rw [show slots - l.dropLast.length = 1 by omega, Nat.div_one] at hmissing
  have hbound := hbefore.sum_le (Nat.zero_le whole)
  omega

/-- No share fits behind the last slot: nothing is missing any more. -/
theorem SharesFrom.length_le (h : SharesFrom slots whole 0 0 l) (hslots : 1 < slots) :
    l.length ≤ slots := by
  refine Nat.le_of_not_lt fun hmore => ?_
  obtain ⟨share, rest, hrest⟩ : ∃ share rest, l.drop slots = share :: rest :=
    List.exists_cons_of_length_pos (by
      rw [List.length_drop]
      omega)
  have htaken : (l.take slots).length = slots := by
    rw [List.length_take]
    omega
  have hsum := (h.of_prefix (List.take_prefix slots l)).sum_eq hslots htaken
  rw [← List.take_append_drop slots l, sharesFrom_append_iff, hrest, htaken, hsum] at h
  obtain ⟨-, hleast, hfits, -⟩ := h
  rw [leastShare, if_neg (by omega), if_pos (by omega)] at hleast
  have hpos : 0 < maxU64 := by decide
  omega

end Rule

/-! ## The checks -/

section Checks

variable {fork : HardFork} {requirement index reserved : Nat} {stakes portions : List Nat}

/-- A check of a lower and an upper limit, and of what follows. -/
theorem limits_iff {p q : Prop} [Decidable p] [Decidable q] {rest : Bool} :
    (if p then false else if q then rest else false) = true ↔ ¬ p ∧ q ∧ rest = true := by
  by_cases hp : p
  · simp [hp]
  · by_cases hq : q
    · simp [hp, hq]
    · simp [hp, hq]

theorem stakesFitFrom_iff (hfork : HardFork.rewardBatching ≤ fork) :
    stakesFitFrom fork requirement index reserved stakes = true ↔
      SharesFrom 10 requirement index reserved stakes := by
  have hslots : contributorSlots fork = 10 := if_pos hfork
  have hinfinite : ¬ fork < HardFork.infiniteStaking :=
    HardFork.not_lt.2 (Nat.le_trans (by decide) hfork)
  induction stakes generalizing index reserved with
  | nil => simp [stakesFitFrom, SharesFrom]
  | cons stake rest ih =>
      have hleast : (if index = 0 then operatorMinimum requirement
          else minContribution fork requirement reserved index) =
            leastShare 10 requirement index reserved := by
        unfold leastShare
        split
        · rfl
        · rename_i hindex
          unfold minContribution
          rw [hslots]
          dsimp only
          rw [if_neg hinfinite]
          split
          · rfl
          · exact if_neg fun h => hindex h.2
      unfold stakesFitFrom
      dsimp only
      rw [SharesFrom, hleast, limits_iff, Nat.not_lt]
      exact and_congr_right' (and_congr_right' ih)

theorem portionsFitFrom_iff :
    portionsFitFrom index reserved portions = true ↔
      SharesFrom 4 stakingPortions index reserved portions := by
  induction portions generalizing index reserved with
  | nil => simp [portionsFitFrom, SharesFrom]
  | cons portion rest ih =>
      have hleast : minPortions index reserved = leastShare 4 stakingPortions index reserved := rfl
      rw [portionsFitFrom, SharesFrom, hleast, limits_iff, ih, Nat.not_lt]

/-- Stakes fit, since there are stakes in coin, exactly if they are shares of the requirement for
ten slots. -/
theorem stakesFit_iff :
    stakesFit fork requirement stakes = true ↔
      HardFork.rewardBatching ≤ fork ∧ stakes ≠ [] ∧ SharesFrom 10 requirement 0 0 stakes := by
  unfold stakesFit
  split
  · rename_i hrefused
    refine ⟨nofun, fun ⟨hfork, hsome, _⟩ => ?_⟩
    rcases hrefused with hearly | hnone
    · exact absurd hearly (HardFork.not_lt.2 hfork)
    · exact absurd hnone hsome
  · rename_i hrefused
    obtain ⟨hfork, hsome⟩ := not_or.1 hrefused
    rw [stakesFitFrom_iff (HardFork.not_lt.1 hfork)]
    exact ⟨fun h => ⟨HardFork.not_lt.1 hfork, hsome, h⟩, fun h => h.2.2⟩

/-- Portions fit, before there are stakes in coin, exactly if they are shares of a whole for four
slots: that there are four of them at most need not be checked apart. -/
theorem portionsFit_iff :
    portionsFit fork portions = true ↔
      fork < HardFork.rewardBatching ∧ portions ≠ [] ∧
        SharesFrom 4 stakingPortions 0 0 portions := by
  unfold portionsFit
  split
  · rename_i hrefused
    refine ⟨nofun, fun ⟨hfork, hsome, _⟩ => ?_⟩
    rcases hrefused with hlate | hnone
    · exact absurd hfork (HardFork.not_lt.2 hlate)
    · exact absurd hnone hsome
  · rename_i hrefused
    obtain ⟨hfork, hsome⟩ := not_or.1 hrefused
    split
    · rename_i hmany
      refine ⟨nofun, fun ⟨_, _, h⟩ => ?_⟩
      exact absurd (h.length_le (by decide)) (Nat.not_le.2 hmany)
    · rw [portionsFitFrom_iff]
      exact ⟨fun h => ⟨Nat.lt_of_not_le hfork, hsome, h⟩, fun h => h.2.2⟩

end Checks

/-! ## Completion -/

/-- Shares of a whole that a check accepts, and that can be completed slot by slot. -/
structure Completable (accepts : List Nat → Bool) (slots whole : Nat) (l : List Nat) : Prop where
  length_pos : 1 ≤ l.length
  length_le : l.length ≤ slots
  first : ∃ share ∈ l.head?, whole / 4 ≤ share
  sum_le : l.sum ≤ whole
  /-- The shares of the first slots are accepted by themselves. -/
  prefixes : ∀ l', l' ≠ [] → l' <+: l → accepts l' = true
  /-- Once all slots are taken, nothing is missing. -/
  full : l.length = slots → l.sum = whole
  /-- Until then the next slot may bring all that is missing, -/
  completed : l.length < slots → accepts (l ++ [whole - l.sum]) = true
  /-- and exactly the shares from an equal part of it on. -/
  extended : l.length < slots → ∀ next, accepts (l ++ [next]) = true ↔
    (whole - l.sum) / (slots - l.length) ≤ next ∧ next ≤ whole - l.sum

/-- A check that asks for shares, and for nothing else that depends on them, accepts what can be
completed. -/
theorem completable_of_iff {accepts : List Nat → Bool} {slots whole : Nat} {Permitted : Prop}
    (hslots : 1 < slots)
    (haccepts : ∀ l, accepts l = true ↔ Permitted ∧ l ≠ [] ∧ SharesFrom slots whole 0 0 l)
    {l : List Nat} (h : accepts l = true) : Completable accepts slots whole l := by
  obtain ⟨hpermitted, hsome, hshares⟩ := (haccepts l).1 h
  have hextended : l.length < slots → ∀ next, accepts (l ++ [next]) = true ↔
      (whole - l.sum) / (slots - l.length) ≤ next ∧ next ≤ whole - l.sum := by
    intro hroom next
    rw [haccepts, hshares.extended_iff hsome hroom]
    exact ⟨fun h => h.2.2, fun h => ⟨hpermitted, by simp, h⟩⟩
  refine ⟨List.length_pos_iff.2 hsome, hshares.length_le hslots, ?_, ?_, ?_,
    hshares.sum_eq hslots, ?_, hextended⟩
  · cases l with
    | nil => exact absurd rfl hsome
    | cons share rest => exact ⟨share, rfl, hshares.1⟩
  · have hsum := hshares.sum_le (Nat.zero_le whole)
    omega
  · exact fun l' hsome' hfront => (haccepts l').2 ⟨hpermitted, hsome', hshares.of_prefix hfront⟩
  · exact fun hroom => (hextended hroom _).2 ⟨Nat.div_le_self _ _, Nat.le_refl _⟩

/-- **Completion**: stakes that fit a requirement are one to ten, and portions that fit are one to
four; either way the first is a quarter at least, the sum is no more than the whole, the shares of
the first slots fit by themselves, those of all slots make up the whole, and as long as a slot is
free it may bring all that is missing. -/
theorem completable_of_fit (fork : HardFork) (requirement : Nat) (l : List Nat) :
    (stakesFit fork requirement l = true →
      Completable (stakesFit fork requirement) 10 requirement l) ∧
    (portionsFit fork l = true → Completable (portionsFit fork) 4 stakingPortions l) :=
  ⟨completable_of_iff (by decide) fun _ => stakesFit_iff,
    completable_of_iff (by decide) fun _ => portionsFit_iff⟩

/-- Nine stakes of a hundred coins, the least that the operator may bring and eight more than the
least of their slots, leave three coins to the tenth slot; and three quarters of a whole leave a
quarter to the fourth. -/
theorem completable_of_fit_nine :
    stakesFit .v19 (100 * coin) (25 * coin :: List.replicate 8 (9 * coin)) = true ∧
      stakesFit .v19 (100 * coin) (25 * coin :: List.replicate 8 (9 * coin) ++ [3 * coin]) = true ∧
      portionsFit .v18 (List.replicate 3 (stakingPortions / 4)) = true ∧
      portionsFit .v18 (List.replicate 3 (stakingPortions / 4) ++ [stakingPortions / 4]) =
        true := by
  have hstakes : stakesFit .v19 (100 * coin) (25 * coin :: List.replicate 8 (9 * coin)) = true := by
    decide +kernel
  have hportions : portionsFit .v18 (List.replicate 3 (stakingPortions / 4)) = true := by
    decide +kernel
  exact ⟨hstakes, ((completable_of_fit _ _ _).1 hstakes).completed (by decide), hportions,
    ((completable_of_fit .v18 0 _).2 hportions).completed (by decide)⟩

end StakeRegistry
