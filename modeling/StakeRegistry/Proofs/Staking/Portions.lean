import Mathlib.Algebra.Order.BigOperators.Group.List
import Mathlib.Algebra.Order.Group.Nat
import StakeRegistry.Proofs.Staking.NewNode

/-!
# Portions rounded down

Portions of a requirement are turned into amounts one by one, and each amount is rounded down.
Where the portions make up a whole, the amounts miss the requirement by what is rounded off, and
that is less than one atomic unit for each of them. Main statements:

* `lt_sum_portionsToAmount_add`: the amounts miss the requirement by fewer units than there are
  portions;
* `sum_portionsToAmount_eq_iff`: they add up to it exactly if nothing is rounded off.
-/

set_option autoImplicit false

namespace StakeRegistry

/-! ## Shares rounded down -/

/-- A fixed amount for each item that passes a test. -/
theorem sum_map_ite {α : Type} (p : α → Bool) (amount : Nat) (l : List α) :
    (l.map fun a => if p a then amount else 0).sum = l.countP p * amount := by
  induction l with
  | nil => simp
  | cons a l ih =>
      rw [List.map_cons, List.sum_cons, ih, List.countP_cons, Nat.add_mul, Nat.add_comm]
      cases p a <;> simp

section Shares

variable (requirement whole : Nat)

/-- The shares and what is rounded off from them make up all that is shared. -/
theorem mul_sum_div_add_sum_mod (portions : List Nat) :
    whole * (portions.map (· * requirement / whole)).sum +
        (portions.map (· * requirement % whole)).sum =
      portions.sum * requirement := by
  induction portions with
  | nil => simp
  | cons portion rest ih =>
      have hfirst := Nat.div_add_mod (portion * requirement) whole
      simp only [List.map_cons, List.sum_cons, Nat.mul_add, Nat.add_mul]
      omega

variable {whole} (hwhole : 0 < whole)

include hwhole

theorem sum_mod_le (portions : List Nat) :
    (portions.map (· * requirement % whole)).sum + portions.length ≤ whole * portions.length := by
  induction portions with
  | nil => simp
  | cons portion rest ih =>
      have hfirst := Nat.mod_lt (portion * requirement) hwhole
      simp only [List.map_cons, List.sum_cons, List.length_cons, Nat.mul_add]
      omega

end Shares

/-! ## Portions of a whole -/

section Whole

variable {portions : List Nat} {requirement : Nat}

/-- Portions of a whole stand for amounts below any ceiling. -/
theorem portionsToAmount_eq {portion : Nat} (hportion : portion ≤ stakingPortions)
    (hmost : requirement ≤ maxU64) :
    portionsToAmount portion requirement = portion * requirement / stakingPortions := by
  refine clampU64_of_le (Nat.le_trans ?_ hmost)
  calc portion * requirement / stakingPortions
      ≤ stakingPortions * requirement / stakingPortions :=
        Nat.div_le_div_right (Nat.mul_le_mul_right _ hportion)
    _ = requirement := Nat.mul_div_cancel_left _ (by decide)

variable (hwhole : portions.sum = stakingPortions) (hmost : requirement ≤ maxU64)

include hwhole hmost

/-- The amounts and what is rounded off from them make up the requirement. -/
theorem mul_sum_portionsToAmount_add :
    stakingPortions * (portions.map (portionsToAmount · requirement)).sum +
        (portions.map (· * requirement % stakingPortions)).sum =
      stakingPortions * requirement := by
  have hamounts : portions.map (portionsToAmount · requirement) =
      portions.map (· * requirement / stakingPortions) :=
    List.map_congr_left fun portion hportion =>
      portionsToAmount_eq (hwhole ▸ List.le_sum_of_mem hportion) hmost
  rw [hamounts, mul_sum_div_add_sum_mod, hwhole]

/-- The amounts of a whole miss the requirement by fewer units than there are portions. -/
theorem lt_sum_portionsToAmount_add :
    requirement < (portions.map (portionsToAmount · requirement)).sum + portions.length := by
  have hsome : 0 < portions.length := by
    rw [List.length_pos_iff]
    rintro rfl
    cases hwhole
  have hsum := mul_sum_portionsToAmount_add hwhole hmost
  have hoff := sum_mod_le requirement (show 0 < stakingPortions by decide) portions
  refine Nat.lt_of_mul_lt_mul_left (a := stakingPortions) ?_
  calc stakingPortions * requirement
      = stakingPortions * (portions.map (portionsToAmount · requirement)).sum +
          (portions.map (· * requirement % stakingPortions)).sum := hsum.symm
    _ < stakingPortions * (portions.map (portionsToAmount · requirement)).sum +
          stakingPortions * portions.length := by omega
    _ = stakingPortions *
          ((portions.map (portionsToAmount · requirement)).sum + portions.length) :=
        (Nat.mul_add _ _ _).symm

/-- The amounts of a whole add up to the requirement exactly if nothing is rounded off. -/
theorem sum_portionsToAmount_eq_iff :
    (portions.map (portionsToAmount · requirement)).sum = requirement ↔
      ∀ portion ∈ portions, stakingPortions ∣ portion * requirement := by
  have hsum := mul_sum_portionsToAmount_add hwhole hmost
  have hoff : (portions.map (· * requirement % stakingPortions)).sum = 0 ↔
      ∀ portion ∈ portions, stakingPortions ∣ portion * requirement := by
    simp [List.sum_eq_zero_iff, Nat.dvd_iff_mod_eq_zero]
  rw [← hoff]
  constructor
  · intro heq
    rw [heq] at hsum
    exact Nat.add_eq_left.1 hsum
  · intro hnone
    rw [hnone, Nat.add_zero] at hsum
    exact Nat.eq_of_mul_eq_mul_left (by decide) hsum

end Whole

/-! ## Registrations in portions -/

theorem length_le_of_portionsFit {fork : HardFork} {portions : List Nat}
    (h : portionsFit fork portions = true) : portions.length ≤ portionSlots :=
  (portionsFit_iff.1 h).2.2.length_le (by decide)

/-- What the entry of a registration in portions requires, and what it reserves. -/
theorem reserved_of_registeredNode {suite : CryptoSuite} {rules : NetworkRules}
    {place : BlockPlace} {tx : Transaction} {key : PublicKey} {info : NodeInfo}
    {reg : Registration} (h : registeredNode suite rules place tx = .ok (some (key, info)))
    (hreg : Registration.ofTransaction? tx = some reg) (hportions : reg.inPortions = true) :
    info.stakingRequirement = rules.stakingRequirement ∧
      info.contributors.map (·.reserved) =
        (reg.reserved.map (·.2)).map (portionsToAmount · rules.stakingRequirement) ∧
      info.contributors.length ≤ portionSlots := by
  obtain ⟨reg', operator, value, others, hreg', hvalid, -, -, rfl⟩ := registeredNode_eq_some h
  obtain rfl : reg' = reg := Option.some.inj (hreg'.symm.trans hreg)
  refine ⟨rfl, ?_, ?_⟩
  · show (reservedContributors reg' _).map (·.reserved) = _
    rw [reservedContributors, List.map_map, List.map_map]
    refine List.map_congr_left fun r _ => ?_
    exact if_pos hportions
  · obtain ⟨amounts, hstakes, hpermitted⟩ := Registration.stakesPermitted_of_validate hvalid
    obtain ⟨rfl, -⟩ := Registration.reserved_of_stakes
      (Registration.bridgeContributions_of_ofTransaction? hreg) hstakes
    have hfit : portionsFit place.fork (reg'.reserved.map (·.2)) = true := by
      simpa [Registration.stakesPermitted, hportions] using hpermitted
    show (reservedContributors reg' _).length ≤ portionSlots
    simpa [reservedContributors] using length_le_of_portionsFit hfit

end StakeRegistry
