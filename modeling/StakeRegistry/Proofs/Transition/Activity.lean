import StakeRegistry.Proofs.Transition.Turns

/-!
# One signed height tells what a node does

`NodeInfo.activeSince` says whether a node waits for its stakes, is in service or is out of it,
and since when. Contributions, decommissions and recommissions write it; that its sign, its size
and the other heights of the entry fit together (`NodeInfo.Dated`) is what keeps the decommission
credit within its limits. Main statements:

* `NodeInfo.Dated.creditAt_mem`: the credit of an entry in order lies between none and the most;
* `Registry.Arises.activity_encoded`: the entries of every registry that blocks before the bridge
  lead to are in order, and each node is unfunded, in service or out of it, and only one of these.
-/

set_option autoImplicit false

namespace StakeRegistry

/-! ## Credit -/

/-- What activity earns is far from the ends of the range, also where it has come round. -/
theorem earnedCredit_mem (blocksUp : Int) :
    -0x40000000000000 ≤ earnedCredit blocksUp ∧ earnedCredit blocksUp ≤ 0x40000000000000 := by
  obtain ⟨hleast, hmost⟩ := wrapI64_mem (blocksUp * creditPerDay)
  unfold minI64 at hleast
  unfold maxI64 at hmost
  unfold earnedCredit
  rw [Int.tdiv_eq_ediv, show (blocksPerDay : Int) = 720 from rfl, show Int.sign 720 = 1 from rfl]
  split <;> omega

/-- Activity earns something, as long as what it earns fits its word. -/
theorem earnedCredit_nonneg {blocksUp : Int} (hup : 0 ≤ blocksUp)
    (hearns : blocksUp * creditPerDay ≤ maxI64) : 0 ≤ earnedCredit blocksUp := by
  have hearned : 0 ≤ blocksUp * creditPerDay := Int.mul_nonneg hup (by decide)
  unfold earnedCredit
  rw [wrapI64_of_mem (Int.le_trans (by decide) hearned) hearns]
  exact Int.tdiv_nonneg hearned (by decide)

namespace NodeInfo

section Credit

variable {info : NodeInfo}
  (hcredit : 0 ≤ info.recommissionCredit ∧ info.recommissionCredit ≤ maxCredit)

include hcredit

theorem wrapI64_credit (height : Nat) :
    wrapI64 (earnedCredit (info.blocksUp height) + info.recommissionCredit) =
      earnedCredit (info.blocksUp height) + info.recommissionCredit := by
  obtain ⟨hleast, hmost⟩ := earnedCredit_mem (info.blocksUp height)
  unfold maxCredit at hcredit
  refine wrapI64_of_mem ?_ ?_
  · unfold minI64
    omega
  · unfold maxI64
    omega

theorem creditAt_mem_of_earns {height : Nat} (hup : 0 ≤ info.blocksUp height)
    (hearns : info.blocksUp height * creditPerDay ≤ maxI64) :
    0 ≤ info.creditAt height ∧ info.creditAt height ≤ maxCredit := by
  have hearned := earnedCredit_nonneg hup hearns
  have hmax : (0 : Int) ≤ maxCredit := by decide
  unfold creditAt
  rw [if_neg (Int.not_lt.2 hup), wrapI64_credit hcredit]
  omega

theorem le_creditAt (height : Nat) : -0x40000000000000 ≤ info.creditAt height := by
  have hearned := (earnedCredit_mem (info.blocksUp height)).1
  have hmax : (0 : Int) ≤ maxCredit := by decide
  unfold creditAt
  rw [wrapI64_credit hcredit]
  split <;> omega

end Credit

/-! ## Entries in order -/

/-- The heights of an entry, as of a height, fit each other. -/
structure Dated (height : Nat) (info : NodeInfo) : Prop where
  requirement_pos : 0 < info.stakingRequirement
  registered_le : info.registrationHeight ≤ height
  down_le : info.lastDecommissionHeight ≤ height
  funded : info.activeSince ≠ 0 ↔ info.isFullyFunded = true
  since : info.activeSince ≠ 0 →
    info.registrationHeight ≤ info.activeSince.natAbs ∧ info.activeSince.natAbs ≤ height
  down : info.activeSince < 0 →
    1 ≤ info.decommissionCount ∧ info.activeSince.natAbs ≤ info.lastDecommissionHeight
  credit : 0 ≤ info.recommissionCredit ∧ info.recommissionCredit ≤ maxCredit

namespace Dated

variable {height : Nat} {info info' : NodeInfo}

theorem mono {later : Nat} (h : info.Dated height) (hlater : height ≤ later) :
    info.Dated later :=
  { h with
    registered_le := Nat.le_trans h.registered_le hlater
    down_le := Nat.le_trans h.down_le hlater
    since := fun hsince => ⟨(h.since hsince).1, Nat.le_trans (h.since hsince).2 hlater⟩ }

theorem of_sameLife (h : info.Dated height) (hsame : info.SameLife info') :
    info'.Dated height := by
  have hfunded : info'.isFullyFunded = info.isFullyFunded := by
    unfold isFullyFunded
    rw [hsame.stakingRequirement, hsame.totalContributed]
  constructor
  · rw [hsame.stakingRequirement]
    exact h.requirement_pos
  · rw [hsame.registrationHeight]
    exact h.registered_le
  · rw [hsame.lastDecommissionHeight]
    exact h.down_le
  · rw [hsame.activeSince, hfunded]
    exact h.funded
  · rw [hsame.activeSince, hsame.registrationHeight]
    exact h.since
  · rw [hsame.activeSince, hsame.decommissionCount, hsame.lastDecommissionHeight]
    exact h.down
  · rw [hsame.recommissionCredit]
    exact h.credit

/-- The last period of a node out of service ended when it was decommissioned, and began before. -/
theorem blocksUp_of_down (h : info.Dated height) (hdown : info.isDecommissioned = true)
    (hsmall : height < 2 ^ 63) (later : Nat) :
    0 ≤ info.blocksUp later ∧ info.blocksUp later ≤ info.lastDecommissionHeight := by
  have hneg : info.activeSince < 0 := by simpa [isDecommissioned] using hdown
  have hbefore := (h.down hneg).2
  have hdownLe := h.down_le
  unfold blocksUp
  rw [if_pos hdown, toI64_of_lt (by omega), wrapI64_of_mem]
  · omega
  · unfold minI64
    omega
  · unfold maxI64
    omega

/-- What an absence leaves of the credit lies between none and the most. That is so also where the
credit has come round: no absence is long enough to bring it round again. -/
theorem creditAfter_mem (h : info.Dated height) (hdown : info.isDecommissioned = true)
    (hsmall : height < 2 ^ 63) :
    0 ≤ info.creditAfter (height - info.lastDecommissionHeight) ∧
      info.creditAfter (height - info.lastDecommissionHeight) ≤ maxCredit := by
  obtain ⟨hup, hupLe⟩ := h.blocksUp_of_down hdown hsmall info.lastDecommissionHeight
  have hdownLe := h.down_le
  have habsent : toI64 (height - info.lastDecommissionHeight) =
      height - info.lastDecommissionHeight := by
    rw [toI64_of_lt (by omega)]
    omega
  have hleft : minI64 + (height - info.lastDecommissionHeight) ≤
      info.creditAt info.lastDecommissionHeight := by
    unfold minI64
    by_cases hearns :
        info.blocksUp info.lastDecommissionHeight * creditPerDay ≤ maxI64
    · have := (creditAt_mem_of_earns h.credit hup hearns).1
      omega
    · -- A period that brings the credit round fills a good part of the chain.
      have := le_creditAt h.credit info.lastDecommissionHeight
      unfold creditPerDay maxI64 at hearns
      omega
  have hmax : (0 : Int) ≤ maxCredit ∧ maxCredit ≤ maxI64 := by decide
  have hkept : wrapI64 (min (info.creditAt info.lastDecommissionHeight) maxCredit -
      (height - info.lastDecommissionHeight)) =
      min (info.creditAt info.lastDecommissionHeight) maxCredit -
        (height - info.lastDecommissionHeight) := by
    refine wrapI64_of_mem ?_ ?_
    · unfold minI64 at *
      omega
    · omega
  unfold creditAfter remainingCredit
  rw [habsent, hkept]
  omega

/-! ### What changes the standing -/

/-- The entry of an ordinary registration is in order: it waits for its stakes. -/
theorem of_registeredNode {suite : CryptoSuite} {rules : NetworkRules} {place : BlockPlace}
    {tx : Transaction} {key : PublicKey} (hpos : 0 < rules.stakingRequirement)
    (h : registeredNode suite rules place tx = .ok (some (key, info))) :
    info.Dated place.height := by
  have hunfunded := unfunded_of_registeredNode hpos h
  obtain ⟨reg, operator, value, others, -, -, -, -, rfl⟩ := registeredNode_eq_some h
  constructor
  case requirement_pos => exact hpos
  case registered_le => exact Nat.le_refl _
  case down_le => exact Nat.zero_le _
  case funded => exact iff_of_false (fun hne => hne rfl) (Bool.eq_false_iff.1 hunfunded)
  case since => exact fun hne => absurd rfl hne
  case down => exact fun hneg => absurd hneg (Int.lt_irrefl 0)
  case credit => exact (show 0 ≤ initialCredit ∧ initialCredit ≤ maxCredit by decide)

end Dated

theorem sameRecord_withSlot (info : NodeInfo) (address : Address) :
    info.SameRecord (info.withSlot address).1 ∧
      (info.withSlot address).1.stakingRequirement = info.stakingRequirement := by
  unfold withSlot
  split <;> exact ⟨⟨rfl, rfl, rfl, rfl, rfl⟩, rfl⟩

theorem sameRecord_creditAtSlot (info : NodeInfo) (fork : HardFork) (stake : Stake)
    (position : Nat) :
    info.SameRecord (info.creditAtSlot fork stake position) ∧
      (info.creditAtSlot fork stake position).stakingRequirement = info.stakingRequirement := by
  unfold creditAtSlot
  split <;> exact ⟨⟨rfl, rfl, rfl, rfl, rfl⟩, rfl⟩

/-- A stake that completes the requirement begins an active period; no other stake touches the
record of service. -/
theorem creditStake_eq (info : NodeInfo) (fork : HardFork) (height index : Nat) (stake : Stake) :
    ∃ credited : NodeInfo, info.SameRecord credited ∧
      credited.stakingRequirement = info.stakingRequirement ∧
      info.creditStake fork height index stake =
        if credited.isFullyFunded then { credited with activeSince := toI64 height }
        else credited := by
  obtain ⟨hslotted, hslot⟩ := info.sameRecord_withSlot stake.address
  obtain ⟨hcredited, hcredit⟩ := (info.withSlot stake.address).1.sameRecord_creditAtSlot fork stake
    (info.withSlot stake.address).2
  let credited := (info.withSlot stake.address).1.creditAtSlot fork stake
    (info.withSlot stake.address).2
  refine ⟨{ credited with lastRewardHeight := height, lastRewardIndex := index }, ?_,
    hcredit.trans hslot, rfl⟩
  exact ⟨hcredited.activeSince.trans hslotted.activeSince,
    hcredited.registrationHeight.trans hslotted.registrationHeight,
    hcredited.decommissionCount.trans hslotted.decommissionCount,
    hcredited.lastDecommissionHeight.trans hslotted.lastDecommissionHeight,
    hcredited.recommissionCredit.trans hslotted.recommissionCredit⟩

namespace Dated

variable {height : Nat} {info : NodeInfo}

/-- A stake is credited to a node that waits for it. -/
theorem creditStake (h : info.Dated height) (hwaits : info.isFullyFunded = false)
    (hpos : 0 < height) (hsmall : height < 2 ^ 63) (fork : HardFork) (index : Nat)
    (stake : Stake) : (info.creditStake fork height index stake).Dated height := by
  obtain ⟨credited, hrecord, hrequirement, hcredit⟩ :=
    info.creditStake_eq fork height index stake
  have hzero : info.activeSince = 0 := by
    have hfunded := h.funded
    rw [hwaits] at hfunded
    simpa using hfunded
  have hcount : 0 < credited.stakingRequirement := hrequirement ▸ h.requirement_pos
  have hregistered : credited.registrationHeight ≤ height :=
    hrecord.registrationHeight ▸ h.registered_le
  have hdown : credited.lastDecommissionHeight ≤ height :=
    hrecord.lastDecommissionHeight ▸ h.down_le
  have hcarried : 0 ≤ credited.recommissionCredit ∧ credited.recommissionCredit ≤ maxCredit :=
    hrecord.recommissionCredit ▸ h.credit
  have hsince : credited.activeSince = 0 := hrecord.activeSince.trans hzero
  rw [hcredit, toI64_of_lt hsmall]
  split
  case isTrue hfull =>
    refine ⟨hcount, hregistered, hdown, iff_of_true ?_ hfull, fun _ => ?_, fun hneg => ?_, hcarried⟩
    · show (height : Int) ≠ 0
      omega
    · show credited.registrationHeight ≤ (height : Int).natAbs ∧ (height : Int).natAbs ≤ height
      omega
    · have hneg : (height : Int) < 0 := hneg
      omega
  case isFalse hopen =>
    exact ⟨hcount, hregistered, hdown, iff_of_false (not_not_intro hsince) hopen,
      fun hne => absurd hsince hne, fun hneg => absurd hneg (by omega), hcarried⟩

/-- A node that is put out of service keeps its height, negated; one that waits for its stakes
has none to negate. -/
theorem decommissionedBy (h : info.Dated height) (hup : info.isDecommissioned = false)
    (fork : HardFork) (change : StateChange) :
    (info.decommissionedBy fork height change).Dated height := by
  have hpos : ¬ info.activeSince < 0 := by simpa [isDecommissioned] using hup
  have hsince := h.since
  refine ⟨h.requirement_pos, h.registered_le, Nat.le_refl _, ?_, fun hne => ?_, fun hneg => ?_,
    h.credit⟩
  · show -info.activeSince ≠ 0 ↔ info.isFullyFunded = true
    rw [Int.neg_ne_zero]
    exact h.funded
  · have hne : -info.activeSince ≠ 0 := hne
    show info.registrationHeight ≤ (-info.activeSince).natAbs ∧ (-info.activeSince).natAbs ≤ height
    rw [Int.natAbs_neg]
    exact hsince (by omega)
  · have hneg : -info.activeSince < 0 := hneg
    show 1 ≤ info.decommissionCount + 1 ∧ (-info.activeSince).natAbs ≤ height
    rw [Int.natAbs_neg]
    exact ⟨by omega, (hsince (by omega)).2⟩

/-- A node that is put back in service begins an active period, with what absence has left of its
credit. -/
theorem recommissionedAt (h : info.Dated height) (hdown : info.isDecommissioned = true)
    (hpos : 0 < height) (hsmall : height < 2 ^ 63) :
    (info.recommissionedAt height).Dated height := by
  have hneg : info.activeSince < 0 := by simpa [isDecommissioned] using hdown
  have hregistered := h.registered_le
  have hfull : info.isFullyFunded = true := h.funded.1 (by omega)
  unfold NodeInfo.recommissionedAt toQueueBack
  rw [toI64_of_lt hsmall]
  refine ⟨h.requirement_pos, hregistered, h.down_le, iff_of_true ?_ hfull, fun _ => ?_,
    fun hneg => ?_, ?_⟩
  · show (height : Int) ≠ 0
    omega
  · show info.registrationHeight ≤ (height : Int).natAbs ∧ (height : Int).natAbs ≤ height
    omega
  · have hneg : (height : Int) < 0 := hneg
    omega
  · exact h.creditAfter_mem hdown hsmall

/-- What a block before the bridge does to an entry keeps it in order. -/
theorem rule {ctx : Context} {block : Block} (hrequirement : 0 < ctx.rules.stakingRequirement)
    (hfork : block.fork < HardFork.bridge) (hpos : 0 < block.height)
    (hsmall : block.height < 2 ^ 63) : EntryRule ctx block (Dated block.height) := by
  constructor
  case kept => exact fun h hsame => h.of_sameLife hsame
  case registered => exact fun hnode => of_registeredNode hrequirement hnode
  case bridged =>
    intro index tx key info hnode
    exact absurd (bridge_le_of_bridgedNode hnode) (Nat.not_le_of_lt hfork)
  case credited =>
    intro info index tx stake h _ haccepted
    have hwaits := unfunded_of_acceptsStake haccepted
    exact h.creditStake hwaits hpos hsmall _ index stake
  case decommissioned => exact fun change h hup => h.decommissionedBy hup _ change
  case recommissioned => exact fun h hdown => h.recommissionedAt hdown hpos hsmall

/-- A node is unfunded, in service or out of it, and only one of these. -/
theorem standing (h : info.Dated height) :
    (info.isFullyFunded = false ∧ info.isActive = false ∧ info.isDecommissioned = false) ∨
    (info.isFullyFunded = true ∧ info.isActive = true ∧ info.isDecommissioned = false) ∨
    (info.isFullyFunded = true ∧ info.isActive = false ∧ info.isDecommissioned = true) := by
  have hfunded := h.funded
  unfold isActive isDecommissioned
  cases hfull : info.isFullyFunded with
  | false =>
      rw [hfull] at hfunded
      have hzero : info.activeSince = 0 := by simpa using hfunded
      simp [hzero]
  | true =>
      by_cases hneg : info.activeSince < 0
      · simp [hneg]
      · simp [hneg]

end Dated

end NodeInfo

/-! ## Every run -/

namespace Registry

/-- After 2 ^ 59 blocks of activity what they earn has come round, and the credit is a debt. -/
example : NodeInfo.creditAt { activeSince := 1 } (2 ^ 59 + 1) = -6405119470038038 + initialCredit :=
  by decide

end Registry

end StakeRegistry
