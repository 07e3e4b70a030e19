import Mathlib.Algebra.Order.BigOperators.Group.List
import Mathlib.Algebra.Order.Group.Nat
import Mathlib.Data.List.Nodup
import StakeRegistry.Proofs.Staking.Slots

/-!
# Room for every reservation

A node whose amounts were given as such has ten slots. Its locked contributions take one each,
and so does each reservation that is still open, so that it can be filled by one more output. The
last slot goes to whoever brings all that is missing: ten slots taken mean that the whole
requirement is reserved (`NodeInfo.Roomy`). Main statements:

* `NodeInfo.Roomy.of_registeredNode` and `NodeInfo.Roomy.creditStake`: registrations leave room,
  and so do the stakes that are accepted;
* `NodeInfo.Roomy.fill`: a stake that fills a reservation is accepted, and credited in full;
* `NodeInfo.Roomy.complete`: where no reservation is open, a stake of all that is missing is
  accepted, and completes the requirement.
-/

set_option autoImplicit false

namespace StakeRegistry

/-- Replacing an item changes a count by what the two count. -/
theorem countP_set_add {α : Type} (p : α → Bool) {l : List α} {i : Nat} {old : α} (new : α)
    (h : l[i]? = some old) :
    (l.set i new).countP p + (if p old then 1 else 0) = l.countP p + if p new then 1 else 0 := by
  obtain ⟨hlt, rfl⟩ := List.getElem?_eq_some_iff.1 h
  have hcounted : p l[i] = true → 0 < l.countP p := fun hp =>
    List.countP_pos_iff.2 ⟨l[i], List.getElem_mem hlt, hp⟩
  rw [List.countP_set hlt]
  split
  · rename_i hp
    have := hcounted hp
    omega
  · omega

namespace Contributor

/-- A contributor's reservation is open until it is filled. -/
def isOpen (c : Contributor) : Bool := decide (c.amount < c.reserved)

theorem isOpen_iff {c : Contributor} : c.isOpen = true ↔ 0 < c.unfilled := by
  unfold isOpen unfilled
  rw [decide_eq_true_iff]
  omega

/-- A transfer of what is left of a reservation closes it. -/
theorem isOpen_credit {c : Contributor} (hcovered : c.amount ≤ c.reserved) {transferred : Nat}
    (h : c.unfilled ≤ transferred) (room : Nat) (locked : List LockedContribution) :
    (c.credit transferred room locked).isOpen = false := by
  unfold unfilled at h
  refine decide_eq_false ?_
  show ¬ c.amount + min transferred (c.reserved + room - c.amount)
    < max c.reserved (c.amount + min transferred (c.reserved + room - c.amount))
  omega

/-- A transfer of exactly what is left of a reservation fills it, and takes nothing else. -/
theorem credit_unfilled {c : Contributor} (hcovered : c.amount ≤ c.reserved) {transferred : Nat}
    (h : transferred = c.unfilled) (room : Nat) (locked : List LockedContribution) :
    (c.credit transferred room locked).amount = c.reserved ∧
      (c.credit transferred room locked).reserved = c.reserved := by
  unfold unfilled at h
  show c.amount + min transferred (c.reserved + room - c.amount) = c.reserved ∧
    max c.reserved (c.amount + min transferred (c.reserved + room - c.amount)) = c.reserved
  omega

end Contributor

namespace NodeInfo

/-- The contributors whose reservations are open. -/
def openCount (info : NodeInfo) : Nat := info.contributors.countP (·.isOpen)

/-- The slots that are taken, by what is locked or by what is reserved. -/
def usedSlots (info : NodeInfo) : Nat := info.lockedCount + info.openCount

/-- An entry has slots for its reservations, and only a fully reserved one has no slot left. -/
structure Roomy (info : NodeInfo) : Prop where
  balanced : info.Balanced
  ordinary : info.Ordinary
  infinite : HardFork.infiniteStaking ≤ info.registrationFork
  slots : info.usedSlots ≤ 10
  full : info.usedSlots = 10 → info.totalReserved = info.stakingRequirement
  reserved_pos : 0 < info.totalReserved
  requirement_le : info.stakingRequirement ≤ maxU64

/-! ## Whom a stake is credited to -/

/-- Contributors with different addresses, counted by whether their reservations are open: all,
and all but one. -/
theorem countP_isOpen {contributors : List Contributor}
    (hdistinct : (contributors.map (·.address)).Nodup) {c : Contributor}
    (hc : c ∈ contributors) : contributors.countP (·.isOpen) =
      contributors.countP (fun c' => c'.address != c.address && decide (c'.amount < c'.reserved))
        + if c.isOpen then 1 else 0 := by
  induction contributors with
  | nil => cases hc
  | cons first rest ih =>
      rw [List.map_cons, List.nodup_cons] at hdistinct
      rw [List.countP_cons, List.countP_cons]
      rcases List.mem_cons.1 hc with rfl | hc
      · -- The others have other addresses.
        have hrest : rest.countP (·.isOpen) = rest.countP (fun c' =>
            c'.address != c.address && decide (c'.amount < c'.reserved)) := by
          refine List.countP_congr fun c' hc' => ?_
          have hne : c'.address ≠ c.address := fun heq =>
            hdistinct.1 (heq ▸ List.mem_map_of_mem hc')
          simp [Contributor.isOpen, hne]
        rw [hrest]
        simp
      · have hne : first.address ≠ c.address := fun heq =>
          hdistinct.1 (heq ▸ List.mem_map_of_mem hc)
        have hfirst : (first.address != c.address && decide (first.amount < first.reserved))
            = first.isOpen := by simp [hne, Contributor.isOpen]
        rw [ih hdistinct.2 hc, hfirst]
        exact Nat.add_right_comm _ _ _

/-- A stake of an address is credited to a contributor: that of its slot, and what the entry says
of its address. -/
structure Credits (info : NodeInfo) (address : Address) (c : Contributor) : Prop where
  found : (info.withSlot address).1.contributors[(info.withSlot address).2]? = some c
  covered : c.amount ≤ c.reserved
  unfilled : info.unfilled address = c.unfilled
  openCount : info.openCount = info.openSlots address + if c.isOpen then 1 else 0
  opened : (info.withSlot address).1.openCount = info.openCount

/-- A stake of a contributor is credited to them, if no other has their address. -/
theorem credits_of_distinct {info : NodeInfo}
    (hdistinct : (info.contributors.map (·.address)).Nodup) {c : Contributor}
    (hc : c ∈ info.contributors) (hcovered : c.amount ≤ c.reserved) :
    info.Credits c.address c := by
  obtain ⟨position, hslot, hposition, heq⟩ := exists_position_of_mem hdistinct hc
  refine ⟨?_, hcovered, ?_, countP_isOpen hdistinct hc, ?_⟩
  · rw [heq]
    exact hposition
  · unfold NodeInfo.unfilled
    rw [hslot]
  · rw [heq]

namespace Roomy

variable {info : NodeInfo}

theorem of_sameStakes {info' : NodeInfo} (h : info.Roomy) (hsame : info.SameStakes info') :
    info'.Roomy := by
  have hused : info'.usedSlots = info.usedSlots := by
    unfold usedSlots lockedCount lockedContributions openCount
    rw [hsame.contributors]
  constructor
  case balanced => exact h.balanced.of_sameStakes hsame
  case ordinary => exact h.ordinary.of_sameStakes hsame
  case infinite => exact hsame.registrationFork ▸ h.infinite
  case slots => exact hused ▸ h.slots
  case full =>
    rw [hused, hsame.totalReserved, hsame.stakingRequirement]
    exact h.full
  case reserved_pos => exact hsame.totalReserved ▸ h.reserved_pos
  case requirement_le => exact hsame.stakingRequirement ▸ h.requirement_le

/-- A stake of a contributor is credited to them. -/
theorem credits_of_mem (h : info.Roomy) {c : Contributor} (hc : c ∈ info.contributors) :
    info.Credits c.address c :=
  credits_of_distinct h.ordinary.distinct hc (h.balanced.covered c hc)

/-- A stake of a new address is credited to a new contributor. -/
theorem credits_of_new (info : NodeInfo) {address : Address}
    (hnew : ∀ c ∈ info.contributors, c.address ≠ address) :
    info.Credits address (.reserving 0 address) := by
  rcases info.withSlot_cases address with ⟨c, position, hslot, -⟩ | ⟨hslot, heq⟩
  · obtain ⟨hposition, haddress⟩ := getElem?_of_slot? hslot
    exact absurd haddress (hnew c (List.mem_of_getElem? hposition))
  · refine ⟨?_, Nat.le_refl _, ?_, ?_, ?_⟩
    · rw [heq]
      simp
    · unfold NodeInfo.unfilled
      rw [hslot]
      rfl
    · show info.contributors.countP _ = info.contributors.countP _ + 0
      refine List.countP_congr fun c hc => ?_
      simp [Contributor.isOpen, hnew c hc]
    · rw [heq]
      simp [NodeInfo.openCount, Contributor.isOpen, Contributor.reserving]

theorem exists_credits (h : info.Roomy) (address : Address) : ∃ c, info.Credits address c := by
  cases hslot : info.slot? address with
  | none => exact ⟨_, credits_of_new info (forall_ne_of_slot? hslot)⟩
  | some slot =>
      obtain ⟨hposition, rfl⟩ := getElem?_of_slot? hslot
      exact ⟨slot.1, h.credits_of_mem (List.mem_of_getElem? hposition)⟩

end Roomy

/-! ## The limits since Pulse -/

section Pulse

variable {fork : HardFork} (hfork : HardFork.pulse ≤ fork)

include hfork

theorem infiniteStaking_le_of_pulse : HardFork.infiniteStaking ≤ fork :=
  Nat.le_trans (show HardFork.infiniteStaking ≤ HardFork.pulse by decide) hfork

theorem leastStake_of_pulse (info : NodeInfo) (address : Address) :
    info.leastStake fork address =
      if 0 < info.unfilled address then info.unfilled address
      else minContribution fork info.stakingRequirement info.totalReserved
        (info.lockedCount + info.openSlots address) := by
  have hinfinite := HardFork.not_lt.2 (infiniteStaking_le_of_pulse hfork)
  unfold leastStake
  rw [if_neg fun h => hinfinite h.2, if_neg (HardFork.not_lt.2 hfork)]

theorem acceptsStake_iff_of_pulse {info : NodeInfo} {stake : Stake} :
    info.acceptsStake fork stake = true ↔
      info.isFullyFunded = false ∧ stake.locked.length = 1 ∧
        info.lockedCount + info.openSlots stake.address + 1 ≤ contributorSlots fork ∧
        info.leastStake fork stake.address ≤ stake.transferred ∧
        stake.transferred ≤ info.greatestStake fork stake.address := by
  have hslot : info.hasSlotFor fork stake =
      decide (info.lockedCount + info.openSlots stake.address + 1 ≤ contributorSlots fork) := by
    unfold hasSlotFor
    rw [if_pos hfork]
  unfold acceptsStake
  rw [hslot]
  simp [HardFork.not_lt.2 hfork, and_assoc]

end Pulse

/-! ## The limits where amounts are given as such -/

section Limits

variable {fork : HardFork} (hfork : HardFork.rewardBatching ≤ fork)

include hfork

theorem pulse_le_of_batching : HardFork.pulse ≤ fork :=
  Nat.le_trans (show HardFork.pulse ≤ HardFork.rewardBatching by decide) hfork

theorem infiniteStaking_le_of_batching : HardFork.infiniteStaking ≤ fork :=
  infiniteStaking_le_of_pulse (pulse_le_of_batching hfork)

/-- The least stake for a slot that is not the first: an equal share of what is missing. -/
theorem minContribution_of_batching {requirement reserved contributions : Nat}
    (hpos : 0 < contributions) (hlt : contributions < 10) :
    minContribution fork requirement reserved contributions =
      (requirement - reserved) / (10 - contributions) := by
  have hslots : contributorSlots fork = 10 := if_pos hfork
  unfold minContribution
  rw [hslots]
  dsimp only
  rw [if_neg (HardFork.not_lt.2 (infiniteStaking_le_of_batching hfork)), if_neg (by omega),
    if_neg (by omega)]

theorem acceptsStake_iff {info : NodeInfo} {stake : Stake} :
    info.acceptsStake fork stake = true ↔
      info.isFullyFunded = false ∧ stake.locked.length = 1 ∧
        info.lockedCount + info.openSlots stake.address + 1 ≤ 10 ∧
        info.leastStake fork stake.address ≤ stake.transferred ∧
        stake.transferred ≤ info.greatestStake fork stake.address := by
  have hslots : contributorSlots fork = 10 := if_pos hfork
  rw [acceptsStake_iff_of_pulse (pulse_le_of_batching hfork), hslots]

end Limits

/-! ## Stakes leave room -/

section Crediting

variable {info : NodeInfo} {fork : HardFork} {stake : Stake} {c : Contributor}

/-- A credited output takes a slot, and frees the one that was kept for it. -/
theorem usedSlots_creditStake (hcredits : info.Credits stake.address c)
    (hfork : HardFork.infiniteStaking ≤ fork) (hone : stake.locked.length = 1)
    (hfilled : c.unfilled ≤ stake.transferred) (height index : Nat) :
    (info.creditStake fork height index stake).usedSlots + (if c.isOpen then 1 else 0)
      = info.usedSlots + 1 := by
  have hlocked : (info.creditStake fork height index stake).lockedCount = info.lockedCount + 1 := by
    have hadded := (info.lockedContributions_creditStake fork height index stake).length_eq
    unfold Stake.lockedAt at hadded
    rwa [if_pos hfork, List.length_append, hone] at hadded
  obtain ⟨hcontributors, -⟩ := info.creditStake_slot fork height index stake hcredits.found
  have hcount := countP_set_add (·.isOpen) (c.credit stake.transferred
    (info.stakingRequirement - info.totalReserved) (stake.lockedAt fork)) hcredits.found
  rw [← hcontributors, Contributor.isOpen_credit hcredits.covered hfilled] at hcount
  have hopened := hcredits.opened
  have hopen : (info.creditStake fork height index stake).openCount + (if c.isOpen then 1 else 0)
      = info.openCount := by
    rw [← hopened]
    exact hcount
  unfold usedSlots
  omega

/-- A stake that is accepted leaves room for the reservations that stay open. -/
theorem Roomy.creditStake (h : info.Roomy) (hfork : HardFork.rewardBatching ≤ fork)
    (haccepted : info.acceptsStake fork stake = true)
    (hbacked : stake.transferred ≤ (stake.locked.map (·.amount)).sum) (height index : Nat) :
    (info.creditStake fork height index stake).Roomy := by
  have hinfinite := infiniteStaking_le_of_batching hfork
  obtain ⟨-, hone, hslot, hleast, -⟩ := (acceptsStake_iff hfork).1 haccepted
  rw [leastStake_of_pulse (pulse_le_of_batching hfork)] at hleast
  obtain ⟨c, hcredits⟩ := h.exists_credits stake.address
  have hunfilled := hcredits.unfilled
  have hfilled : c.unfilled ≤ stake.transferred := by
    split at hleast <;> omega
  have hused := usedSlots_creditStake hcredits hinfinite hone hfilled height index
  have hcount := hcredits.openCount
  have hslots := h.slots
  have hbalanced := balanced_creditStake h.balanced fork height index stake
  obtain ⟨-, -, hreserved, hrequirement⟩ :=
    info.creditStake_slot fork height index stake hcredits.found
  have hlimit := hbalanced.reserved_le
  have hcovered := hcredits.covered
  refine ⟨hbalanced, ?_, ?_, ?_, fun hten => ?_, ?_, ?_⟩
  · exact ordinary_creditStake h.ordinary (fun _ => hinfinite) (fun _ => hbacked) height index
  · rw [(info.layout_creditStake fork height index stake).2]
    exact h.infinite
  · unfold usedSlots at hslots hused ⊢
    by_cases hopen : c.isOpen = true
    · rw [if_pos hopen] at hused
      omega
    · rw [if_neg hopen] at hused hcount
      omega
  · by_cases hopen : c.isOpen = true
    · -- The slot was kept for this stake, and everything was reserved before.
      rw [if_pos hopen] at hused
      have hfull := h.full (by omega)
      omega
    · -- The last free slot goes to whoever brings all that is missing.
      rw [if_neg hopen] at hused hcount
      have hclosed : ¬ 0 < c.unfilled := fun hpos => hopen (Contributor.isOpen_iff.2 hpos)
      have hnine : info.lockedCount + info.openSlots stake.address = 9 := by
        unfold usedSlots at hused hten
        omega
      rw [if_neg (by omega), hnine, minContribution_of_batching hfork (by decide) (by decide),
        Nat.div_one] at hleast
      have hnew : (c.credit stake.transferred (info.stakingRequirement - info.totalReserved)
          (stake.lockedAt fork)).reserved
            = c.reserved + (info.stakingRequirement - info.totalReserved) := by
        unfold Contributor.unfilled at hclosed
        show max c.reserved (c.amount + min stake.transferred
          (c.reserved + (info.stakingRequirement - info.totalReserved) - c.amount)) = _
        omega
      have hroom := h.balanced.reserved_le
      omega
  · have hpos := h.reserved_pos
    omega
  · rw [hrequirement]
    exact h.requirement_le

end Crediting

end NodeInfo

/-! ## Registrations leave room -/

section Registering

variable {fork : HardFork} {requirement : Nat}

/-- Ten stakes that fit bring the whole requirement: the last of them is all that is missing. -/
theorem sum_eq_of_stakesFit {stakes : List Nat} (hlength : stakes.length = 10)
    (h : stakesFit fork requirement stakes = true) : stakes.sum = requirement :=
  (stakesFit_iff.1 h).2.2.sum_eq (by decide) hlength

/-- The first of the stakes that fit is the operator's, and not too small. -/
theorem operatorMinimum_le_sum {stakes : List Nat}
    (h : stakesFit fork requirement stakes = true) : operatorMinimum requirement ≤ stakes.sum := by
  obtain ⟨-, hsome, hshares⟩ := stakesFit_iff.1 h
  cases stakes with
  | nil => exact absurd rfl hsome
  | cons stake rest =>
      obtain ⟨hquarter, -, -⟩ := hshares
      rw [List.sum_cons]
      exact Nat.le_trans hquarter (Nat.le_add_right _ _)

/-- Since amounts are given as such, a valid ordinary registration reserves stakes that fit, for
ten contributors at most. -/
theorem Registration.stakesFit_of_validate {reg : Registration} {rules : NetworkRules}
    {timestamp : Nat} (hfork : HardFork.rewardBatching ≤ fork)
    (hordinary : reg.bridgeContributions = [])
    (h : reg.validate fork rules requirement timestamp = .ok ()) :
    reg.inPortions = false ∧ reg.reserved.length ≤ 10 ∧
      stakesFit fork requirement (reg.reserved.map (·.2)) = true := by
  have hamounts : reg.inPortions = false := by
    unfold validate checkFork at h
    cases hportions : reg.inPortions with
    | false => rfl
    | true =>
        obtain ⟨_, hchecked, -⟩ := bind_eq_ok_iff.1 h
        rw [hportions, if_pos rfl, if_pos hfork] at hchecked
        cases hchecked
  obtain ⟨amounts, hstakes, hpermitted⟩ := stakesPermitted_of_validate h
  unfold stakesPermitted at hpermitted
  rw [hamounts] at hpermitted
  have hslots : contributorSlots fork = 10 := if_pos hfork
  obtain ⟨rfl, hfew⟩ := reserved_of_stakes hordinary hstakes
  exact ⟨hamounts, hslots ▸ hfew, hpermitted⟩

/-- Where nothing is locked yet, the slots that are taken are reservations. -/
theorem NodeInfo.usedSlots_le_of_reserving {info : NodeInfo} {reserved : List (Address × Nat)}
    (h : info.contributors = reserved.map fun r => Contributor.reserving r.2 r.1) :
    info.usedSlots ≤ reserved.length := by
  have hlocked : info.lockedContributions = [] := by
    refine List.flatMap_eq_nil_iff.2 fun c hc => ?_
    rw [h] at hc
    obtain ⟨r, -, rfl⟩ := List.mem_map.1 hc
    rfl
  unfold usedSlots lockedCount openCount
  rw [hlocked, h, List.length_nil, Nat.zero_add, List.countP_map]
  exact List.countP_le_length

/-- An ordinary registration with amounts leaves room for everyone that it reserves for. -/
theorem NodeInfo.Roomy.of_registeredNode {suite : CryptoSuite} {rules : NetworkRules}
    {place : BlockPlace} {tx : Transaction} {key : PublicKey} {info : NodeInfo}
    (hfork : HardFork.rewardBatching ≤ place.fork) (hleast : 4 ≤ rules.stakingRequirement)
    (hmost : rules.stakingRequirement ≤ maxU64)
    (h : registeredNode suite rules place tx = .ok (some (key, info))) : info.Roomy := by
  have hbalanced := balanced_of_registeredNode h
  have hordinary := ordinary_of_registeredNode h
  have hplace := (layout_of_registeredNode h).2
  obtain ⟨reg, operator, value, others, hreg, hvalid, -, -, hinfo⟩ := registeredNode_eq_some h
  obtain ⟨hamounts, hlength, hfit⟩ := Registration.stakesFit_of_validate hfork
    (Registration.bridgeContributions_of_ofTransaction? hreg) hvalid
  have hrequirement : info.stakingRequirement = rules.stakingRequirement := by
    rw [hinfo]
    rfl
  have hcontributors : info.contributors =
      reg.reserved.map fun r => Contributor.reserving r.2 r.1 := by
    rw [hinfo]
    simp [reservedContributors, reservedAmount, hamounts]
  have hreserved : info.totalReserved = (reg.reserved.map (·.2)).sum := by
    rw [hbalanced.reserved, hcontributors, List.map_map]
    rfl
  have hused := usedSlots_le_of_reserving hcontributors
  constructor
  case balanced => exact hbalanced
  case ordinary => exact hordinary
  case infinite => exact hplace ▸ infiniteStaking_le_of_batching hfork
  case slots => exact Nat.le_trans hused hlength
  case full =>
    intro hten
    rw [hreserved, hrequirement]
    exact sum_eq_of_stakesFit (by rw [List.length_map]; omega) hfit
  case reserved_pos =>
    have hpos : 0 < operatorMinimum rules.stakingRequirement := by
      unfold operatorMinimum
      omega
    rw [hreserved]
    exact Nat.lt_of_lt_of_le hpos (operatorMinimum_le_sum hfit)
  case requirement_le => exact hrequirement ▸ hmost

end Registering

/-! ## Stakes that are accepted -/

namespace NodeInfo

/-- What the limits ask for at most is never less than what is missing. -/
theorem le_maxContribution {fork : HardFork} (hfork : HardFork.rewardBatching ≤ fork)
    {requirement reserved amount : Nat} (hmissing : amount ≤ requirement - reserved)
    (hmost : amount ≤ maxU64) : amount ≤ maxContribution fork requirement reserved := by
  unfold maxContribution mulDiv clampU64
  rw [if_pos (pulse_le_of_batching hfork)]
  generalize maxU64 = most at hmost ⊢
  omega

/-- A node whose requirement is met has been active since then. -/
theorem activeSince_creditStake {info : NodeInfo} {fork : HardFork} {height index : Nat}
    {stake : Stake} (h : (info.creditStake fork height index stake).isFullyFunded = true) :
    (info.creditStake fork height index stake).activeSince = toI64 height := by
  unfold creditStake at h ⊢
  dsimp only at h ⊢
  split at h
  · rename_i hfull
    rw [if_pos hfull]
  · rename_i hopen
    exact absurd h hopen

namespace Roomy

variable {info : NodeInfo} {fork : HardFork} {stake : Stake} {l : LockedContribution}

/-- A single output that fills a reservation is accepted, and all of it is credited. -/
theorem fill (h : info.Roomy) (hfork : HardFork.rewardBatching ≤ fork)
    (hwaits : info.isFullyFunded = false) {c : Contributor} (hc : c ∈ info.contributors)
    (hopen : c.amount < c.reserved) (haddress : stake.address = c.address)
    (hlocked : stake.locked = [l]) (htransferred : stake.transferred = c.reserved - c.amount) :
    info.acceptsStake fork stake = true ∧ ∀ height index,
      (info.creditStake fork height index stake).totalContributed =
          info.totalContributed + stake.transferred ∧
        ∃ c' ∈ (info.creditStake fork height index stake).contributors,
          c'.address = c.address ∧ c'.amount = c.reserved ∧ c'.reserved = c.reserved ∧
            c'.locked = c.locked ++ [l] := by
  have hinfinite := infiniteStaking_le_of_batching hfork
  have hcredits := h.credits_of_mem hc
  rw [← haddress] at hcredits
  have hunfilled : info.unfilled stake.address = stake.transferred :=
    hcredits.unfilled.trans htransferred.symm
  have hpos : 0 < stake.transferred := by omega
  have hcount := hcredits.openCount
  rw [if_pos (show c.isOpen = true from decide_eq_true hopen)] at hcount
  have hslots := h.slots
  have hlimit := h.balanced.reserved_le
  have hmost := h.requirement_le
  have hpart : c.reserved ≤ info.totalReserved := by
    rw [h.balanced.reserved]
    exact List.le_sum_of_mem (List.mem_map_of_mem hc)
  refine ⟨?_, fun height index => ?_⟩
  · unfold usedSlots at hslots
    have hone : stake.locked.length = 1 := by rw [hlocked, List.length_singleton]
    refine (acceptsStake_iff hfork).2 ⟨hwaits, hone, by omega, ?_, ?_⟩
    · rw [leastStake_of_pulse (pulse_le_of_batching hfork), hunfilled, if_pos hpos]
    · unfold greatestStake
      rw [hunfilled]
      exact le_maxContribution hfork (by omega) (by omega)
  · obtain ⟨hcontributors, hcontributed, -⟩ :=
      info.creditStake_slot fork height index stake hcredits.found
    obtain ⟨hamount, hfilled⟩ := Contributor.credit_unfilled hcredits.covered htransferred
      (info.stakingRequirement - info.totalReserved) (stake.lockedAt fork)
    refine ⟨by omega, c.credit stake.transferred (info.stakingRequirement - info.totalReserved)
      (stake.lockedAt fork), ?_, rfl, hamount, hfilled, ?_⟩
    · rw [hcontributors]
      obtain ⟨hlt, -⟩ := List.getElem?_eq_some_iff.1 hcredits.found
      exact List.mem_set hlt _
    · show c.locked ++ stake.lockedAt fork = c.locked ++ [l]
      rw [← hlocked]
      unfold Stake.lockedAt
      rw [if_pos hinfinite]

/-- Where no reservation is open, a single output of a new address that brings all that is
missing is accepted, and the node is active from then on. -/
theorem complete (h : info.Roomy) (hfork : HardFork.rewardBatching ≤ fork)
    (hwaits : info.isFullyFunded = false) (hclosed : ∀ c ∈ info.contributors, c.reserved ≤ c.amount)
    (hnew : ∀ c ∈ info.contributors, c.address ≠ stake.address) (hlocked : stake.locked = [l])
    (htransferred : stake.transferred = info.stakingRequirement - info.totalReserved) :
    info.acceptsStake fork stake = true ∧ ∀ height index,
      (info.creditStake fork height index stake).totalContributed = info.stakingRequirement ∧
        (info.creditStake fork height index stake).isFullyFunded = true ∧
        (info.creditStake fork height index stake).activeSince = toI64 height := by
  have hinfinite := infiniteStaking_le_of_batching hfork
  have hcredits := credits_of_new info hnew
  have hunfilled : info.unfilled stake.address = 0 := hcredits.unfilled
  have hlimit := h.balanced.reserved_le
  have hmost := h.requirement_le
  -- Everything that is reserved has been contributed, and it is not all that is required.
  have hequal : info.totalContributed = info.totalReserved := by
    rw [h.balanced.contributed, h.balanced.reserved]
    refine congrArg List.sum (List.map_congr_left fun c hc => ?_)
    exact Nat.le_antisymm (h.balanced.covered c hc) (hclosed c hc)
  have hmissing : info.totalContributed < info.stakingRequirement := by
    simpa [isFullyFunded] using hwaits
  have hnone : info.openCount = 0 := by
    refine List.countP_eq_zero.2 fun c hc => ?_
    simpa [Contributor.isOpen] using hclosed c hc
  have hopen : info.openSlots stake.address = 0 := by
    have hcount := hcredits.openCount
    omega
  have hslots : info.lockedCount < 10 := by
    have hslots := h.slots
    have hfull := h.full
    unfold usedSlots at hslots hfull
    by_contra hten
    have := hfull (by omega)
    omega
  -- Somebody has contributed, so something is locked.
  have hsome : 0 < info.lockedCount := by
    have hpos := h.reserved_pos
    by_contra hzero
    have hempty : info.lockedContributions = [] := List.eq_nil_of_length_eq_zero (by
      unfold lockedCount at hzero
      omega)
    have hnothing : ∀ n ∈ info.contributors.map (·.amount), n = 0 := by
      intro n hn
      obtain ⟨c, hc, rfl⟩ := List.mem_map.1 hn
      have hbacked := h.ordinary.locked h.infinite c hc
      rw [List.flatMap_eq_nil_iff.1 hempty c hc] at hbacked
      simpa using hbacked
    have hsum := List.sum_eq_zero hnothing
    have hcontributed := h.balanced.contributed
    omega
  refine ⟨?_, fun height index => ?_⟩
  · have hone : stake.locked.length = 1 := by rw [hlocked, List.length_singleton]
    refine (acceptsStake_iff hfork).2 ⟨hwaits, hone, by omega, ?_, ?_⟩
    · rw [leastStake_of_pulse (pulse_le_of_batching hfork), hunfilled, if_neg (Nat.lt_irrefl 0),
        hopen, Nat.add_zero, minContribution_of_batching hfork hsome hslots, htransferred]
      exact Nat.div_le_self _ _
    · unfold greatestStake
      rw [hunfilled]
      exact le_maxContribution hfork (by omega) (by omega)
  · obtain ⟨-, hcontributed, -, hrequirement⟩ :=
      info.creditStake_slot fork height index stake hcredits.found
    have hamount : (Contributor.credit (.reserving 0 stake.address) stake.transferred
        (info.stakingRequirement - info.totalReserved) (stake.lockedAt fork)).amount
          = info.stakingRequirement - info.totalReserved := by
      show 0 + min stake.transferred (0 + (info.stakingRequirement - info.totalReserved) - 0) = _
      omega
    have htotal : (info.creditStake fork height index stake).totalContributed
        = info.stakingRequirement := by
      rw [hcontributed, hamount]
      show info.totalContributed + (info.stakingRequirement - info.totalReserved - 0) = _
      omega
    have hfull : (info.creditStake fork height index stake).isFullyFunded = true := by
      unfold isFullyFunded
      rw [htotal, hrequirement]
      exact decide_eq_true (Nat.le_refl _)
    exact ⟨htotal, hfull, activeSince_creditStake hfull⟩

end Roomy

end NodeInfo

end StakeRegistry
