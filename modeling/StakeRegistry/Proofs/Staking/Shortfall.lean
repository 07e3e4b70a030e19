import StakeRegistry.Proofs.Staking.Room
import StakeRegistry.Proofs.Transition.Turns

/-!
# What a bridge registration may leave open

The entry of a registration through the bridge counts as active from its block on, and as
contributed counts what its contributors bring. The checks on these amounts are those on
reservations: the operator brings a quarter of the requirement, everybody else an equal share of
what the slots from theirs on have to raise, and nobody more than is missing. So the requirement
may be missed, by one share for each of the ten slots that is not taken, and the entry is fully
funded exactly if the amounts add up. Main statements:

* `needed_le_of_stakesFit`: by how much stakes that fit can miss the requirement;
* `needed_eq_of_least`: stakes that fit and miss it by as much;
* `funding_of_bridgedNode`: what a registration through the bridge says of the funds of its node.
-/

set_option autoImplicit false

namespace StakeRegistry

/-- An equal share, rounded up, of what is missing after the least stake of an operator. -/
def openShare (requirement : Nat) : Nat := (requirement - operatorMinimum requirement + 8) / 9

/-- When slots need one share each at most, and one of them brings an equal part of what is needed,
the others need one share each at most. -/
theorem sub_div_le_of_le_mul {needed slots share : Nat} (hslots : 0 < slots)
    (h : needed ≤ slots * share) : needed - needed / slots ≤ (slots - 1) * share := by
  obtain ⟨others, rfl⟩ := Nat.exists_eq_add_of_lt hslots
  have hparts := Nat.div_add_mod needed (0 + others + 1)
  have hrest := Nat.mod_lt needed hslots
  generalize needed / (0 + others + 1) = part at *
  rw [Nat.zero_add] at *
  rw [Nat.add_mul, Nat.one_mul] at h hparts
  rw [Nat.add_sub_cancel]
  by_cases hpart : share ≤ part
  · omega
  · -- A part below the share is rounded down by less than one unit for each slot.
    have hnext : others * (part + 1) ≤ others * share := Nat.mul_le_mul_left _ (by omega)
    rw [Nat.mul_add, Nat.mul_one] at hnext
    omega

section Shares

variable {slots whole index reserved share : Nat}

/-- What shares from a slot on leave missing is one part at most for each slot after them. -/
theorem SharesFrom.needed_le {shares : List Nat} (h : SharesFrom slots whole index reserved shares)
    (hindex : 0 < index) (hlength : index + shares.length ≤ slots)
    (hneeded : whole - reserved ≤ (slots - index) * share) :
    whole - (reserved + shares.sum) ≤ (slots - (index + shares.length)) * share := by
  induction shares generalizing index reserved with
  | nil => simpa using hneeded
  | cons first rest ih =>
      rw [List.length_cons] at hlength
      obtain ⟨hleast, -, hrest⟩ := h
      rw [leastShare_of_pos hindex (by omega)] at hleast
      have hpaid : whole - reserved - (whole - reserved) / (slots - index) ≤
          (slots - index - 1) * share := sub_div_le_of_le_mul (by omega) hneeded
      have hslots : slots - (index + 1) = slots - index - 1 := by omega
      have hnext : whole - (reserved + first) ≤ (slots - (index + 1)) * share := by
        rw [hslots]
        exact Nat.le_trans (by omega) hpaid
      calc whole - (reserved + (first :: rest).sum)
          = whole - (reserved + first + rest.sum) := by rw [List.sum_cons, Nat.add_assoc]
        _ ≤ (slots - (index + 1 + rest.length)) * share :=
            ih hrest (Nat.succ_pos index) (by omega) hnext
        _ = (slots - (index + (first :: rest).length)) * share := by
            rw [List.length_cons, Nat.add_assoc index, Nat.add_comm 1]

/-- Equal parts of what is needed are shares, slot after slot. -/
theorem sharesFrom_replicate {count : Nat} (hindex : 0 < index) (hcount : index + count ≤ slots)
    (hreserved : reserved ≤ whole) (hneeded : whole - reserved = (slots - index) * share) :
    SharesFrom slots whole index reserved (List.replicate count share) := by
  induction count generalizing index reserved with
  | zero => trivial
  | succ count ih =>
      have hslots : slots - index = slots - (index + 1) + 1 := by omega
      have hless : whole - reserved = (slots - (index + 1)) * share + share := by
        rw [hneeded, hslots, Nat.add_mul, Nat.one_mul]
      refine ⟨?_, by omega, ih (Nat.succ_pos index) (by omega) (by omega) (by omega)⟩
      rw [leastShare_of_pos hindex (by omega), hneeded, Nat.mul_div_cancel_left share (by omega)]

end Shares

section Stakes

variable {fork : HardFork} {requirement share : Nat}

/-- Stakes that fit miss the requirement by one open share at most for each slot that they leave
free; ten of them meet it. -/
theorem needed_le_of_stakesFit {stakes : List Nat} (hlength : stakes.length ≤ 10)
    (h : stakesFit fork requirement stakes = true) :
    requirement - stakes.sum ≤ (10 - stakes.length) * openShare requirement := by
  obtain ⟨-, hsome, hshares⟩ := stakesFit_iff.1 h
  cases stakes with
  | nil => exact absurd rfl hsome
  | cons stake rest =>
      obtain ⟨hleast, -, hrest⟩ := hshares
      have hquarter : operatorMinimum requirement ≤ stake := hleast
      rw [Nat.zero_add, Nat.zero_add] at hrest
      rw [List.length_cons] at hlength
      have hfirst : requirement - stake ≤ (10 - 1) * openShare requirement := by
        unfold openShare
        omega
      have hneeded := hrest.needed_le (by decide) (by omega) hfirst
      rwa [List.sum_cons, List.length_cons, Nat.add_comm rest.length]

/-- The bound is attained: where the rest after the operator's least stake divides into nine
shares, that stake and any number of these shares fit, and they miss the requirement by one share
for each slot that is left. -/
theorem needed_eq_of_least (hfork : HardFork.rewardBatching ≤ fork) {count : Nat}
    (hcount : count < 10) (hshare : requirement - operatorMinimum requirement = 9 * share) :
    stakesFit fork requirement (operatorMinimum requirement :: List.replicate count share) = true ∧
      requirement - (operatorMinimum requirement :: List.replicate count share).sum =
        (10 - (count + 1)) * openShare requirement := by
  have hquarter : operatorMinimum requirement ≤ requirement := Nat.div_le_self _ _
  have hopen : openShare requirement = share := by
    unfold openShare
    omega
  constructor
  · refine stakesFit_iff.2 ⟨hfork, List.cons_ne_nil _ _, Nat.le_refl _, by omega, ?_⟩
    rw [Nat.zero_add, Nat.zero_add]
    exact sharesFrom_replicate (by decide) (by omega) hquarter hshare
  · have hnine : 9 * share = count * share + (10 - (count + 1)) * share := by
      rw [← Nat.add_mul]
      congr 1
      omega
    rw [List.sum_cons, List.sum_replicate_nat, hopen]
    omega

end Stakes

/-! ## New entries -/

namespace Registration

/-- A valid registration through the bridge brings stakes that fit, for ten contributors at
most. -/
theorem stakesFit_of_bridge {reg : Registration} {fork : HardFork} {rules : NetworkRules}
    {requirement timestamp : Nat} (hbridge : reg.reserved = []) (hamounts : reg.inPortions = false)
    (h : reg.validate fork rules requirement timestamp = .ok ()) :
    reg.bridgeContributions ≠ [] ∧ reg.bridgeContributions.length ≤ contributorSlots fork ∧
      stakesFit fork requirement (reg.bridgeContributions.map (·.2)) = true := by
  obtain ⟨amounts, hstakes, hpermitted⟩ := stakesPermitted_of_validate h
  unfold stakesPermitted at hpermitted
  rw [hamounts, if_neg Bool.false_ne_true] at hpermitted
  unfold stakes at hstakes
  split at hstakes
  · split at hstakes
    · cases hstakes
    · rename_i hsome
      rw [if_neg (not_not_intro hbridge)] at hstakes
      split at hstakes
      · cases hstakes
      · rename_i hfew
        cases hstakes
        exact ⟨hsome, Nat.le_of_not_lt hfew, hpermitted⟩
  · cases hstakes

end Registration

/-- Whatever the network, the fork, the block and the transaction: the entry of a registration
through the bridge that is accepted asks for the network's requirement, and counts as contributed
and as reserved what its contributors bring, at most the requirement. There are one to ten of them,
and what is missing is one open share at most for each of the ten slots that is not taken, so that
ten of them meet the requirement. The entry counts as active from its block on either way; it is
fully funded exactly if its contributors bring the whole requirement, and it is an active node
exactly if it is fully funded and the block's height is no negative word. -/
theorem funding_of_bridgedNode {suite : CryptoSuite} {rules : NetworkRules} {place : BlockPlace}
    {tx : Transaction} {key : PublicKey} {info : NodeInfo}
    (h : bridgedNode suite rules place tx = .ok (key, info)) :
    info.stakingRequirement = rules.stakingRequirement ∧
    info.totalContributed = (info.contributors.map (·.amount)).sum ∧
    info.totalReserved = info.totalContributed ∧
    info.totalContributed ≤ info.stakingRequirement ∧
    1 ≤ info.contributors.length ∧ info.contributors.length ≤ 10 ∧
    info.stakingRequirement - info.totalContributed ≤
      (10 - info.contributors.length) * openShare info.stakingRequirement ∧
    operatorMinimum info.stakingRequirement ≤ info.totalContributed ∧
    info.activeSince = toI64 place.height ∧
    (info.isFullyFunded = true ↔ info.totalContributed = info.stakingRequirement) ∧
    (info.isActive = true ↔
      info.totalContributed = info.stakingRequirement ∧ 0 ≤ toI64 place.height) := by
  have hbalanced := balanced_of_bridgedNode h
  have hbatching : HardFork.rewardBatching ≤ place.fork :=
    Nat.le_trans (show HardFork.rewardBatching ≤ HardFork.bridge by decide)
      (bridge_le_of_bridgedNode h)
  obtain ⟨reg, operator, hreg, hvalid, hinfo⟩ := bridgedNode_eq_ok h
  obtain ⟨hnone, hamounts⟩ := Registration.ofBridge?_terms hreg
  obtain ⟨hsome, hfew, hfit⟩ := Registration.stakesFit_of_bridge hnone hamounts hvalid
  have hslots : contributorSlots place.fork = 10 := if_pos hbatching
  rw [hslots] at hfew
  have hrequirement : info.stakingRequirement = rules.stakingRequirement := by
    rw [hinfo]
    rfl
  have hlength : info.contributors.length = reg.bridgeContributions.length := by
    rw [hinfo]
    exact List.length_map _
  have htotal : info.totalContributed = (reg.bridgeContributions.map (·.2)).sum := by
    rw [hinfo, bridgeEntry]
  have hreserved : info.totalReserved = info.totalContributed := by rw [hinfo, bridgeEntry]
  have hsince : info.activeSince = toI64 place.height := by rw [hinfo, bridgeEntry]
  have hlimit : info.totalContributed ≤ info.stakingRequirement := by
    rw [← hreserved]
    exact hbalanced.reserved_le
  have hneeded := needed_le_of_stakesFit (by rw [List.length_map]; exact hfew) hfit
  have hquarter := operatorMinimum_le_sum hfit
  rw [← htotal, ← hrequirement] at hneeded hquarter
  rw [List.length_map, ← hlength] at hneeded
  have hfunded : info.isFullyFunded = true ↔ info.totalContributed = info.stakingRequirement := by
    unfold NodeInfo.isFullyFunded
    rw [decide_eq_true_iff]
    omega
  refine ⟨hrequirement, hbalanced.contributed, hreserved, hlimit, ?_, hlength ▸ hfew, hneeded,
    hquarter, hsince, hfunded, ?_⟩
  · rw [hlength]
    exact List.length_pos_of_ne_nil hsome
  · unfold NodeInfo.isActive NodeInfo.isDecommissioned
    rw [Bool.and_eq_true, hfunded, hsince]
    simp

/-- The registration through the bridge of a node whose operator brings a quarter of the
requirement. -/
def quarterRegistration : Transaction :=
  { (default : Transaction) with
    kind := .bridgeRegistration
    extra := [.bridgeRegistration ⟨.writing 9, .writing 9, .writing 9, 0, 0,
      [⟨.writing 9, 25 * coin⟩]⟩] }

/-- A quarter of the requirement is enough for an entry that counts as active since its block, and
is no active node. -/
theorem funding_of_bridgedNode_quarter : ∃ key info,
    bridgedNode .trusting (NetworkRules.of .fakechain) ⟨.v21, 0, 100, 3⟩ quarterRegistration =
      .ok (key, info) ∧
    info.totalContributed = 25 * coin ∧ info.stakingRequirement = 100 * coin ∧
    info.activeSince = 100 ∧ info.isFullyFunded = false ∧ info.isActive = false := by
  obtain ⟨⟨key, info⟩, hnode, hentry⟩ := (Option.any_eq_true _ _).1 (show
    (bridgedNode .trusting (NetworkRules.of .fakechain) ⟨.v21, 0, 100, 3⟩
      quarterRegistration).toOption.any (fun n => n.2.totalContributed = 25 * coin) = true by
        decide +kernel)
  have hquarter : info.totalContributed = 25 * coin := of_decide_eq_true hentry
  have hregisters := eq_ok_of_toOption hnode
  obtain ⟨hrequirement, -, -, -, -, -, -, -, hsince, hfunded, hactive⟩ :=
    funding_of_bridgedNode hregisters
  have hmissing : info.totalContributed ≠ info.stakingRequirement := by
    rw [hquarter, hrequirement]
    decide
  refine ⟨key, info, hregisters, hquarter, hrequirement, ?_, ?_, ?_⟩
  · rw [hsince]
    exact toI64_of_lt (by decide)
  · exact Bool.eq_false_iff.2 fun h => hmissing (hfunded.1 h)
  · exact Bool.eq_false_iff.2 fun h => hmissing (hactive.1 h).1

end StakeRegistry
