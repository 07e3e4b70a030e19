import Mathlib.Algebra.BigOperators.Ring.Finset
import Mathlib.Algebra.BigOperators.Ring.List
import Mathlib.Algebra.Order.BigOperators.Group.List
import Mathlib.Algebra.Order.Field.Rat
import Mathlib.Tactic.Linarith
import Mathlib.Tactic.Ring
import StakeRegistry.Proofs.Staking.NewNode
import StakeRegistry.Proofs.Staking.Portions
import StakeRegistry.Rewards.Shares

/-!
# A reward split among contributors

A contributor's portions are rounded down, and so is the amount that they come to. Each of the two
roundings takes less than one unit from a payee, so less than two units for each payee are left
over, and dealt out one by one they raise nobody by more than two. Main statements:

* `sum_dealOut`: what is left over is dealt out to the last unit;
* `NodeInfo.PaidUp.exactShare_bounds`: rounding down takes less than two units from a payee;
* `NodeInfo.PaidUp.split_exact_and_fair`: the reward is paid out in full, and to everybody what
  they would get without rounding, give or take two units.
-/

set_option autoImplicit false

namespace StakeRegistry

/-! ## Dealing out what is left over -/

section Dealing

variable {amounts : List Nat} {left : Nat}

theorem length_dealOut (amounts : List Nat) (left : Nat) :
    (dealOut amounts left).length = amounts.length := by
  simp [dealOut]

theorem getElem_dealOut {i : Nat} (hi : i < (dealOut amounts left).length)
    (hplace : i < amounts.length) :
    (dealOut amounts left)[i] = amounts[i] +
      (left / amounts.length + if i < left % amounts.length then 1 else 0) := by
  simp [dealOut]

theorem dealOut_zero (amounts : List Nat) : dealOut amounts 0 = amounts := by
  refine List.ext_getElem (length_dealOut amounts 0) fun i hi hplace => ?_
  rw [getElem_dealOut hi hplace]
  simp

/-- A place has been dealt one unit more when the round of dealing has got to it. -/
theorem dealt_succ {places place : Nat} (hplace : place < places) (left : Nat) :
    ((left + 1) / places + if place < (left + 1) % places then 1 else 0) =
      (left / places + if place < left % places then 1 else 0) +
        if left % places = place then 1 else 0 := by
  have hsome : 0 < places := Nat.zero_lt_of_lt hplace
  have hnext := Nat.mod_lt left hsome
  have hleft := Nat.div_add_mod left places
  generalize left % places = next, left / places = rounds at *
  rw [← hleft, Nat.add_assoc]
  -- A round ends where the next place would be behind the last one.
  rcases Nat.lt_or_ge (next + 1) places with hwithin | hend
  · rw [Nat.mul_add_div hsome, Nat.mul_add_mod, Nat.div_eq_of_lt hwithin, Nat.mod_eq_of_lt hwithin]
    split <;> split <;> split <;> omega
  · rw [show next + 1 = places by omega, ← Nat.mul_succ, Nat.mul_div_cancel_left _ hsome,
      Nat.mul_mod_right]
    split <;> split <;> split <;> omega

/-- One unit more goes to the place where the round of dealing has got to. -/
theorem dealOut_succ (amounts : List Nat) (left : Nat) :
    dealOut amounts (left + 1) =
      (dealOut amounts left).modify (left % amounts.length) (· + 1) := by
  refine List.ext_getElem (by simp [length_dealOut]) fun i hi hi' => ?_
  have hplace : i < amounts.length := length_dealOut amounts _ ▸ hi
  rw [List.getElem_modify, getElem_dealOut hi hplace, getElem_dealOut _ hplace,
    dealt_succ hplace, ← Nat.add_assoc]
  by_cases hturn : left % amounts.length = i
  · rw [if_pos hturn, if_pos hturn]
  · rw [if_neg hturn, if_neg hturn, Nat.add_zero]

theorem sum_modify_succ {i : Nat} (hi : i < amounts.length) :
    (amounts.modify i (· + 1)).sum = amounts.sum + 1 := by
  induction amounts generalizing i with
  | nil => cases hi
  | cons amount rest ih =>
      cases i with
      | zero => simp [Nat.add_right_comm]
      | succ i =>
          rw [List.modify_succ_cons, List.sum_cons, List.sum_cons, ih (by simpa using hi),
            Nat.add_assoc]

/-- What is left over is dealt out to the last unit. -/
theorem sum_dealOut (hsome : 0 < amounts.length) (left : Nat) :
    (dealOut amounts left).sum = amounts.sum + left := by
  induction left with
  | zero => rw [dealOut_zero, Nat.add_zero]
  | succ left ih =>
      rw [dealOut_succ, sum_modify_succ (by rw [length_dealOut]; exact Nat.mod_lt _ hsome),
        ih, Nat.add_assoc]

/-- Less than two units for each place are dealt out in two rounds. -/
theorem getElem_dealOut_le (hfew : left < 2 * amounts.length) {i : Nat}
    (hi : i < (dealOut amounts left).length) (hplace : i < amounts.length) :
    (dealOut amounts left)[i] ≤ amounts[i] + 2 := by
  rw [getElem_dealOut hi hplace]
  have hrounds : left / amounts.length ≤ 1 :=
    Nat.le_of_lt_succ (Nat.div_lt_of_lt_mul (by rwa [Nat.mul_comm]))
  split <;> omega

end Dealing

/-! ## Amounts of a reward -/

theorem splitDown_eq (portions : List Nat) (reward : Nat) :
    splitDown portions reward = portions.map (portionsToAmount · reward) := by
  refine List.map_congr_left fun portion _ => ?_
  rw [portionsToAmount, mulDiv, mulDiv, Nat.mul_comm]

/-- Portions of a whole come to no more than the reward. -/
theorem sum_splitDown_le {portions : List Nat} (hportions : portions.sum ≤ stakingPortions)
    (reward : Nat) : (splitDown portions reward).sum ≤ reward := by
  rw [splitDown_eq]
  calc (portions.map (portionsToAmount · reward)).sum
      ≤ portions.sum * reward / stakingPortions := sum_portionsToAmount_le portions reward
    _ ≤ stakingPortions * reward / stakingPortions :=
        Nat.div_le_div_right (Nat.mul_le_mul_right _ hportions)
    _ = reward := Nat.mul_div_cancel_left _ (by decide)

/-- A quotient rounded down lies less than one unit below the exact one. -/
theorem cast_div_bounds (n : Nat) {d : Nat} (hd : 0 < d) :
    ((n / d : Nat) : ℚ) ≤ n / d ∧ (n : ℚ) / d < (n / d : Nat) + 1 := by
  have hpos : (0 : ℚ) < d := Nat.cast_pos.2 hd
  rw [le_div_iff₀ hpos, div_lt_iff₀ hpos]
  exact ⟨by exact_mod_cast Nat.div_mul_le_self n d,
    by exact_mod_cast (Nat.div_lt_iff_lt_mul hd).1 (Nat.lt_succ_self (n / d))⟩

/-! ## Shares without rounding -/

namespace NodeInfo

/-- The stakes of a node whose requirement is met to the unit: they make it up, one contributor is
the operator, and the fee is no more than a whole. -/
structure PaidUp (info : NodeInfo) : Prop where
  requirement_pos : 0 < info.stakingRequirement
  contributed : (info.contributors.map (·.amount)).sum = info.stakingRequirement
  operator_once : info.contributors.countP (fun c => c.address == info.operator) = 1
  fee_le : info.operatorPortions ≤ stakingPortions

/-- The books of an ordinary node put it into this state as soon as it is fully funded. -/
theorem paidUp_of_funded {info : NodeInfo} (hbalanced : info.Balanced) (hordinary : info.Ordinary)
    (hfunded : info.isFullyFunded = true) (hpos : 0 < info.stakingRequirement)
    (hfee : info.operatorPortions ≤ stakingPortions) : info.PaidUp where
  requirement_pos := hpos
  contributed := by
    have hfunded : info.stakingRequirement ≤ info.totalContributed := of_decide_eq_true hfunded
    rw [← hbalanced.contributed]
    exact Nat.le_antisymm (Nat.le_trans hbalanced.contributed_le hbalanced.reserved_le) hfunded
  operator_once := by
    have hmem : info.operator ∈ info.contributors.map (·.address) :=
      List.mem_of_mem_head? hordinary.operatorFirst
    have hcount := List.count_eq_one_of_mem hordinary.distinct hmem
    rwa [List.count, List.countP_map] at hcount
  fee_le := hfee

/-- The portions that a contributor has as a fee. -/
def feeOf (info : NodeInfo) (c : Contributor) : Nat :=
  if c.address == info.operator then info.operatorPortions else 0

/-- The portions of a contributor without rounding: the fee, and of what it leaves as large a part
as the contributor has brought of the requirement. -/
def exactPortions (info : NodeInfo) (c : Contributor) : ℚ :=
  info.feeOf c + (stakingPortions - info.operatorPortions) * (c.amount / info.stakingRequirement)

/-- What a contributor gets of a reward without rounding. -/
def exactShare (info : NodeInfo) (reward : Nat) (c : Contributor) : ℚ :=
  reward * (info.exactPortions c / stakingPortions)

theorem portions_shares (info : NodeInfo) :
    info.shares.map (·.portions) = info.contributors.map info.portionsOf := by
  rw [shares, List.map_map]
  rfl

/-- The amounts that a node's contributors get before what is left over is dealt out. -/
theorem splitDown_shares (info : NodeInfo) (reward : Nat) :
    splitDown (info.shares.map (·.portions)) reward =
      info.contributors.map fun c => portionsToAmount (info.portionsOf c) reward := by
  rw [splitDown_eq, portions_shares, List.map_map]
  rfl

namespace PaidUp

variable {info : NodeInfo} {c : Contributor}

theorem portionsOf_eq (h : info.PaidUp) (hc : c ∈ info.contributors) :
    info.portionsOf c = info.feeOf c +
      c.amount * (stakingPortions - info.operatorPortions) / info.stakingRequirement := by
  have hpart : c.amount ≤ info.stakingRequirement :=
    h.contributed ▸ List.le_sum_of_mem (List.mem_map_of_mem hc)
  have hearned : c.amount * (stakingPortions - info.operatorPortions) / info.stakingRequirement ≤
      stakingPortions - info.operatorPortions :=
    Nat.div_le_of_le_mul (Nat.mul_le_mul_right _ hpart)
  have hfee := h.fee_le
  have hwhole : stakingPortions ≤ maxU64 := by decide
  unfold portionsOf feeOf mulDiv satAdd
  rw [if_neg (Nat.ne_of_gt h.requirement_pos), clampU64_of_le (by omega)]
  by_cases hoperator : c.address = info.operator
  · rw [if_pos hoperator, if_pos (beq_iff_eq.2 hoperator), clampU64_of_le (by omega), Nat.add_comm]
  · rw [if_neg hoperator, if_neg (mt beq_iff_eq.1 hoperator), Nat.zero_add]

/-- Rounding takes less than one portion from a contributor. -/
theorem portionsOf_bounds (h : info.PaidUp) (hc : c ∈ info.contributors) :
    (info.portionsOf c : ℚ) ≤ info.exactPortions c ∧
      info.exactPortions c < info.portionsOf c + 1 := by
  obtain ⟨hle, hlt⟩ := cast_div_bounds
    (c.amount * (stakingPortions - info.operatorPortions)) h.requirement_pos
  have hexact : info.exactPortions c = info.feeOf c +
      ((c.amount * (stakingPortions - info.operatorPortions) : Nat) : ℚ) /
        info.stakingRequirement := by
    rw [exactPortions, Nat.cast_mul, Nat.cast_sub h.fee_le]
    ring
  rw [h.portionsOf_eq hc, hexact, Nat.cast_add]
  exact ⟨by linarith, by linarith⟩

theorem sum_feeOf (h : info.PaidUp) :
    (info.contributors.map info.feeOf).sum = info.operatorPortions := by
  unfold feeOf
  rw [sum_map_ite, h.operator_once, Nat.one_mul]

/-- Without rounding the contributors have the whole. -/
theorem sum_exactPortions (h : info.PaidUp) :
    (info.contributors.map info.exactPortions).sum = stakingPortions := by
  have hfees : (info.contributors.map fun c => (info.feeOf c : ℚ)).sum =
      info.operatorPortions := by
    rw [← h.sum_feeOf, Nat.cast_list_sum, List.map_map]
    rfl
  have hstakes : (info.contributors.map fun c => (c.amount : ℚ)).sum =
      info.stakingRequirement := by
    rw [← h.contributed, Nat.cast_list_sum, List.map_map]
    rfl
  have hparts : (info.contributors.map fun c => (c.amount : ℚ) / info.stakingRequirement).sum =
      1 := by
    simp only [div_eq_mul_inv]
    rw [List.sum_map_mul_right, hstakes,
      mul_inv_cancel₀ (Nat.cast_ne_zero.2 (Nat.ne_of_gt h.requirement_pos))]
  unfold exactPortions
  rw [List.sum_map_add, List.sum_map_mul_left, hfees, hparts]
  ring

theorem sum_exactShare (h : info.PaidUp) (reward : Nat) :
    (info.contributors.map (info.exactShare reward)).sum = reward := by
  have hwhole : (stakingPortions : ℚ) ≠ 0 := by decide
  unfold exactShare
  simp only [div_eq_mul_inv]
  rw [List.sum_map_mul_left, List.sum_map_mul_right, h.sum_exactPortions,
    mul_inv_cancel₀ hwhole, mul_one]

/-! ## Rounding twice -/

/-- The portions of a node that is paid up are portions of a whole. -/
theorem sum_portions_le (h : info.PaidUp) :
    (info.shares.map (·.portions)).sum ≤ stakingPortions := by
  have hsum : (((info.contributors.map info.portionsOf).sum : Nat) : ℚ) ≤
      (info.contributors.map info.exactPortions).sum := by
    rw [Nat.cast_list_sum, List.map_map]
    exact List.sum_le_sum fun c hc => (h.portionsOf_bounds hc).1
  rw [h.sum_exactPortions, Nat.cast_le] at hsum
  rwa [portions_shares]

theorem portionsOf_le (h : info.PaidUp) (hc : c ∈ info.contributors) :
    info.portionsOf c ≤ stakingPortions := by
  refine Nat.le_trans (List.le_sum_of_mem ?_) h.sum_portions_le
  rw [portions_shares]
  exact List.mem_map_of_mem hc

/-- Rounding portions and then the amount that they come to takes less than two units from a
contributor. -/
theorem exactShare_bounds (h : info.PaidUp) (hc : c ∈ info.contributors) {reward : Nat}
    (hreward : reward ≤ stakingPortions) :
    (portionsToAmount (info.portionsOf c) reward : ℚ) ≤ info.exactShare reward c ∧
      info.exactShare reward c < portionsToAmount (info.portionsOf c) reward + 2 := by
  have hwhole : 0 < stakingPortions := by decide
  have hpart : (reward : ℚ) / stakingPortions ≤ 1 :=
    div_le_one_of_le₀ (Nat.cast_le.2 hreward) (Nat.cast_nonneg _)
  have hpart0 : (0 : ℚ) ≤ reward / stakingPortions :=
    div_nonneg (Nat.cast_nonneg _) (Nat.cast_nonneg _)
  obtain ⟨hle, hlt⟩ := h.portionsOf_bounds hc
  obtain ⟨hle', hlt'⟩ := cast_div_bounds (info.portionsOf c * reward) hwhole
  rw [Nat.cast_mul, mul_div_assoc] at hle' hlt'
  have hexact : info.exactShare reward c =
      info.exactPortions c * (reward / stakingPortions) := by
    rw [exactShare]
    ring
  rw [portionsToAmount_eq (h.portionsOf_le hc) (Nat.le_trans hreward (by decide)), hexact]
  constructor
  · exact le_trans hle' (mul_le_mul_of_nonneg_right hle hpart0)
  · calc info.exactPortions c * (reward / stakingPortions)
        ≤ (info.portionsOf c + 1) * (reward / stakingPortions) :=
          mul_le_mul_of_nonneg_right hlt.le hpart0
      _ = info.portionsOf c * (reward / stakingPortions) + reward / stakingPortions := by ring
      _ < (info.portionsOf c * reward / stakingPortions : Nat) + 2 := by linarith

theorem contributors_ne_nil (h : info.PaidUp) : info.contributors ≠ [] := by
  intro hnone
  have honce := h.operator_once
  rw [hnone] at honce
  cases honce

/-- Less than two units for each contributor are left over. -/
theorem left_lt (h : info.PaidUp) {reward : Nat} (hreward : reward ≤ stakingPortions) :
    reward < (splitDown (info.shares.map (·.portions)) reward).sum +
      2 * info.contributors.length := by
  have hsum : (info.contributors.map (info.exactShare reward)).sum <
      (info.contributors.map fun c =>
        (portionsToAmount (info.portionsOf c) reward : ℚ) + 2).sum :=
    List.sum_lt_sum_of_ne_nil h.contributors_ne_nil _ _
      fun c hc => (h.exactShare_bounds hc hreward).2
  rw [h.sum_exactShare, List.sum_map_add, List.map_const', List.sum_replicate, nsmul_eq_mul] at hsum
  rw [splitDown_shares, ← Nat.cast_lt (α := ℚ), Nat.cast_add, Nat.cast_list_sum, List.map_map]
  push_cast
  rw [mul_comm]
  exact hsum

/-- **A reward is split exactly and fairly.** A node's portions are portions of a whole; its
contributors get the reward to the last unit, and no more than it while what rounding leaves over
is kept back; and none of them gets more than two units less or more than without rounding. -/
theorem split_exact_and_fair (h : info.PaidUp) {reward : Nat}
    (hreward : reward ≤ stakingPortions) :
    (info.shares.map (·.portions)).sum ≤ stakingPortions ∧
      (splitReward (info.shares.map (·.portions)) reward true).sum = reward ∧
      (splitReward (info.shares.map (·.portions)) reward false).sum ≤ reward ∧
      List.Forall₂ (fun (c : Contributor) (amount : Nat) =>
          |(amount : ℚ) - info.exactShare reward c| ≤ 2)
        info.contributors (splitReward (info.shares.map (·.portions)) reward true) := by
  have hdown := sum_splitDown_le h.sum_portions_le reward
  have hlength : (splitDown (info.shares.map (·.portions)) reward).length =
      info.contributors.length := by
    rw [splitDown_shares, List.length_map]
  refine ⟨h.sum_portions_le, ?_, hdown, ?_⟩
  · rw [splitReward, if_pos rfl,
      sum_dealOut (hlength ▸ List.length_pos_iff.2 h.contributors_ne_nil)]
    exact Nat.add_sub_cancel' hdown
  · rw [splitReward, if_pos rfl]
    refine List.forall₂_iff_get.2 ⟨by rw [length_dealOut, hlength], fun i hi hi' => ?_⟩
    have hfew := Nat.sub_lt_left_of_lt_add hdown (h.left_lt hreward)
    have hplace : i < (splitDown (info.shares.map (·.portions)) reward).length := hlength ▸ hi
    have hmost := getElem_dealOut_le (hlength ▸ hfew) hi' hplace
    have hleast := Nat.le.intro (getElem_dealOut hi' hplace).symm
    obtain ⟨hle, hlt⟩ := h.exactShare_bounds (List.getElem_mem hi) hreward
    have hamount : (splitDown (info.shares.map (·.portions)) reward)[i] =
        portionsToAmount (info.portionsOf info.contributors[i]) reward := by
      simp [splitDown_shares]
    rw [hamount, ← Nat.cast_le (α := ℚ)] at hmost hleast
    push_cast at hmost
    rw [abs_le, List.get_eq_getElem, List.get_eq_getElem]
    exact ⟨by linarith, by linarith⟩

end PaidUp

/-- Three contributors to an awkward requirement, whose operator takes a fee of a tenth. -/
def ofThree : NodeInfo where
  contributors :=
    [⟨3, 3, ⟨.writing 1, .writing 1⟩, [], 0⟩, ⟨2, 2, ⟨.writing 2, .writing 2⟩, [], 0⟩,
      ⟨2, 2, ⟨.writing 3, .writing 3⟩, [], 0⟩]
  totalContributed := 7
  totalReserved := 7
  stakingRequirement := 7
  operatorPortions := 1844674407370955161
  operator := ⟨.writing 1, .writing 1⟩

/-- One unit is left over, and goes to the operator. -/
theorem split_exact_and_fair_ofThree :
    ofThree.PaidUp ∧
      splitReward (ofThree.shares.map (·.portions)) 1000 false = [485, 257, 257] ∧
      splitReward (ofThree.shares.map (·.portions)) 1000 true = [486, 257, 257] ∧
      (splitReward (ofThree.shares.map (·.portions)) 1000 true).sum = 1000 ∧
      List.Forall₂ (fun (c : Contributor) (amount : Nat) =>
          |(amount : ℚ) - ofThree.exactShare 1000 c| ≤ 2)
        ofThree.contributors (splitReward (ofThree.shares.map (·.portions)) 1000 true) := by
  have hpaid : ofThree.PaidUp :=
    { requirement_pos := by decide
      contributed := by decide
      operator_once := by decide
      fee_le := by decide }
  obtain ⟨-, hwhole, -, hfair⟩ := hpaid.split_exact_and_fair (show 1000 ≤ stakingPortions by decide)
  exact ⟨hpaid, by decide, by decide, hwhole, hfair⟩

end NodeInfo

end StakeRegistry
