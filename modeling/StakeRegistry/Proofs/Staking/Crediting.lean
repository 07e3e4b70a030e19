import StakeRegistry.Proofs.Staking.NewNode
import StakeRegistry.Transition.Contributing

/-!
# Crediting a stake keeps the books

A credited stake raises one contributor's amount, and their reservation where the amount
outgrows it, by as much as it raises the totals. What is credited beyond the reservation comes
from what nobody has reserved, so the requirement is never exceeded. Main statements:

* `NodeInfo.balanced_creditStake`: crediting keeps an entry balanced;
* `NodeInfo.ordinary_creditStake`: and ordinary.
-/

set_option autoImplicit false

namespace StakeRegistry

/-! ## Sums -/

theorem foldl_satAdd {start : Nat} (hstart : start ≤ maxU64) (l : List Nat) :
    l.foldl satAdd start = clampU64 (start + l.sum) := by
  induction l generalizing start with
  | nil => simpa using (clampU64_of_le hstart).symm
  | cons n rest ih =>
      have hstep : satAdd start n = clampU64 (start + n) := rfl
      rw [List.foldl_cons, hstep, ih (clampU64_le _), List.sum_cons]
      unfold clampU64
      omega

/-- A sum with a ceiling is the sum, cut off once. -/
theorem satSum_eq (l : List Nat) : satSum l = clampU64 l.sum := by
  rw [satSum, foldl_satAdd (Nat.zero_le _), Nat.zero_add]

theorem satSum_le_sum (l : List Nat) : satSum l ≤ l.sum := by
  rw [satSum_eq]
  exact Nat.min_le_left _ _

/-- Replacing an item changes a sum by the difference of the two. -/
theorem sum_map_set {α : Type} (f : α → Nat) {l : List α} {i : Nat} {old : α} (new : α)
    (h : l[i]? = some old) : ((l.set i new).map f).sum + f old = (l.map f).sum + f new := by
  induction l generalizing i with
  | nil => simp at h
  | cons a rest ih =>
      cases i with
      | zero =>
          have hold : a = old := by simpa using h
          rw [hold]
          simp only [List.set_cons_zero, List.map_cons, List.sum_cons]
          omega
      | succ i =>
          have hrest := ih (i := i) (by simpa using h)
          simp only [List.set_cons_succ, List.map_cons, List.sum_cons]
          omega

theorem set_eq_self {α : Type} {l : List α} {i : Nat} {a : α} (h : l[i]? = some a) :
    l.set i a = l := by
  obtain ⟨hlt, rfl⟩ := List.getElem?_eq_some_iff.1 h
  exact List.set_getElem_self hlt

/-! ## Stakes -/

/-- Only a node that is not fully funded takes stakes. -/
theorem NodeInfo.unfunded_of_acceptsStake {info : NodeInfo} {fork : HardFork} {stake : Stake}
    (h : info.acceptsStake fork stake = true) : info.isFullyFunded = false := by
  simp only [acceptsStake, Bool.and_eq_true, Bool.not_eq_true'] at h
  exact h.1.1.1.1

/-- Since infinite staking a stake transfers what its outputs hold. -/
theorem Stake.transferred_eq {suite : CryptoSuite} {rules : NetworkRules} {fork : HardFork}
    {tx : Transaction} {height : Nat} {stake : Stake} (hfork : HardFork.infiniteStaking ≤ fork)
    (h : Stake.ofTransaction? suite rules fork tx height = some stake) :
    stake.transferred = satSum (stake.locked.map (·.amount)) := by
  unfold Stake.ofTransaction? at h
  obtain ⟨header, -, h⟩ := Option.bind_eq_some_iff.1 h
  obtain ⟨secret, -, h⟩ := Option.bind_eq_some_iff.1 h
  rw [if_pos hfork] at h
  obtain ⟨proofs, -, h⟩ := Option.bind_eq_some_iff.1 h
  cases h
  rfl

/-- So it transfers no more than the outputs that it locks. -/
theorem Stake.transferred_le {suite : CryptoSuite} {rules : NetworkRules} {fork : HardFork}
    {tx : Transaction} {height : Nat} {stake : Stake}
    (hfork : HardFork.infiniteStaking ≤ fork)
    (h : Stake.ofTransaction? suite rules fork tx height = some stake) :
    stake.transferred ≤ (stake.locked.map (·.amount)).sum := by
  rw [Stake.transferred_eq hfork h]
  exact satSum_le_sum _

namespace Contributor

variable (c : Contributor) (transferred room : Nat) (locked : List LockedContribution)

theorem amount_le_credit : c.amount ≤ (c.credit transferred room locked).amount :=
  Nat.le_add_right _ _

theorem reserved_le_credit : c.reserved ≤ (c.credit transferred room locked).reserved :=
  Nat.le_max_left _ _

theorem credit_covered :
    (c.credit transferred room locked).amount ≤ (c.credit transferred room locked).reserved :=
  Nat.le_max_right _ _

/-- A credit takes no more than the room beyond the reservation. -/
theorem credit_reserved_le (h : c.amount ≤ c.reserved) :
    (c.credit transferred room locked).reserved ≤ c.reserved + room := by
  show max c.reserved (c.amount + min transferred (c.reserved + room - c.amount))
    ≤ c.reserved + room
  omega

/-- A credit is at most the transfer. -/
theorem credit_amount_le : (c.credit transferred room locked).amount ≤ c.amount + transferred := by
  show c.amount + min transferred (c.reserved + room - c.amount) ≤ c.amount + transferred
  omega

end Contributor

namespace NodeInfo

/-! ## The slot of an address -/

/-- An address without a slot is no contributor's. -/
theorem forall_ne_of_slot? {info : NodeInfo} {address : Address}
    (h : info.slot? address = none) : ∀ c ∈ info.contributors, c.address ≠ address := by
  intro c hc heq
  obtain ⟨i, hi, rfl⟩ := List.mem_iff_getElem.1 hc
  have hempty : (info.contributors.zipIdx.filter fun s => s.1.address == address) = [] :=
    List.getLast?_eq_none_iff.1 h
  have hslot : (info.contributors[i], i) ∈
      info.contributors.zipIdx.filter fun s => s.1.address == address := by
    refine List.mem_filter.2 ⟨List.mk_mem_zipIdx_iff_getElem?.2 ?_, by simpa using heq⟩
    exact List.getElem?_eq_getElem hi
  rw [hempty] at hslot
  cases hslot

theorem balanced_withSlot {info : NodeInfo} (h : info.Balanced) (address : Address) :
    (info.withSlot address).1.Balanced := by
  unfold withSlot
  split
  · exact h
  · refine ⟨?_, ?_, fun c hc => ?_, h.contributed_le, h.reserved_le⟩
    · simpa [Contributor.reserving] using h.contributed
    · simpa [Contributor.reserving] using h.reserved
    · rcases List.mem_append.1 hc with hc | hc
      · exact h.covered c hc
      · rw [List.mem_singleton.1 hc]
        exact Nat.le_refl _

theorem ordinary_withSlot {info : NodeInfo} (h : info.Ordinary) (address : Address) :
    (info.withSlot address).1.Ordinary := by
  unfold withSlot
  split
  · exact h
  · rename_i hslot
    have hfresh := forall_ne_of_slot? hslot
    refine ⟨?_, ?_, fun hfork c hc => ?_⟩
    · show ((info.contributors ++ [Contributor.reserving 0 address]).map (·.address)).Nodup
      rw [List.map_append, List.nodup_append]
      refine ⟨h.distinct, by simp, fun a ha b hb => ?_⟩
      obtain ⟨c, hc, rfl⟩ := List.mem_map.1 ha
      have hb : b = address := by simpa [Contributor.reserving] using hb
      rw [hb]
      exact hfresh c hc
    · show ((info.contributors ++ [Contributor.reserving 0 address]).map (·.address)).head? = _
      rw [List.map_append, List.head?_append, h.operatorFirst]
      rfl
    · rcases List.mem_append.1 hc with hc | hc
      · exact h.locked hfork c hc
      · rw [List.mem_singleton.1 hc]
        exact Nat.zero_le _

/-! ## Crediting -/

/-- Crediting a slot raises totals and contributor alike. -/
theorem balanced_creditAtSlot {info : NodeInfo} (h : info.Balanced) (fork : HardFork)
    (stake : Stake) (position : Nat) : (info.creditAtSlot fork stake position).Balanced := by
  unfold creditAtSlot
  split
  · exact h
  · rename_i old hold
    dsimp only
    generalize (if HardFork.infiniteStaking ≤ fork then stake.locked else []) = locked
    generalize hroom : info.stakingRequirement - info.totalReserved = room
    have hmem : old ∈ info.contributors := List.mem_of_getElem? hold
    -- What a credit does to one contributor, and from it what it does to the sums.
    have hcovered := h.covered old hmem
    have hamount := old.amount_le_credit stake.transferred room locked
    have hreserved := old.reserved_le_credit stake.transferred room locked
    have hroomy := old.credit_reserved_le stake.transferred room locked hcovered
    have hnew := old.credit_covered stake.transferred room locked
    generalize old.credit stake.transferred room locked = new at *
    have hsumAmount := sum_map_set (·.amount) new hold
    have hsumReserved := sum_map_set (·.reserved) new hold
    have hcontributed := h.contributed
    have hbooked := h.reserved
    have hlimit := h.reserved_le
    have hall : ∀ c ∈ info.contributors.set position new, c.amount ≤ c.reserved := by
      intro c hc
      rcases List.mem_or_eq_of_mem_set hc with hc | rfl
      · exact h.covered c hc
      · exact hnew
    have hle := sum_amount_le_sum_reserved hall
    refine ⟨?_, ?_, hall, ?_, ?_⟩
    · show info.totalContributed + (new.amount - old.amount)
        = ((info.contributors.set position new).map (·.amount)).sum
      omega
    · show info.totalReserved + (new.reserved - old.reserved)
        = ((info.contributors.set position new).map (·.reserved)).sum
      omega
    · show info.totalContributed + (new.amount - old.amount)
        ≤ info.totalReserved + (new.reserved - old.reserved)
      omega
    · show info.totalReserved + (new.reserved - old.reserved) ≤ info.stakingRequirement
      omega

/-- Crediting keeps the addresses; an amount grows by no more than what is locked with it. -/
theorem ordinary_creditAtSlot {info : NodeInfo} (h : info.Ordinary) {fork : HardFork}
    {stake : Stake}
    (hfork : HardFork.infiniteStaking ≤ info.registrationFork → HardFork.infiniteStaking ≤ fork)
    (hstake : HardFork.infiniteStaking ≤ fork →
      stake.transferred ≤ (stake.locked.map (·.amount)).sum)
    (position : Nat) : (info.creditAtSlot fork stake position).Ordinary := by
  unfold creditAtSlot
  split
  · exact h
  · rename_i old hold
    dsimp only
    generalize info.stakingRequirement - info.totalReserved = room
    generalize hlocked : (if HardFork.infiniteStaking ≤ fork then stake.locked else []) = locked
    -- A credit keeps the address, so the list of addresses is the same.
    have haddresses : ((info.contributors.set position
        (old.credit stake.transferred room locked)).map (·.address))
        = info.contributors.map (·.address) := by
      rw [List.map_set]
      show (info.contributors.map (·.address)).set position old.address = _
      refine set_eq_self ?_
      rw [List.getElem?_map, hold]
      rfl
    refine ⟨?_, ?_, fun hregistered c hc => ?_⟩
    · show ((info.contributors.set position _).map (·.address)).Nodup
      rw [haddresses]
      exact h.distinct
    · show ((info.contributors.set position _).map (·.address)).head? = some info.operator
      rw [haddresses]
      exact h.operatorFirst
    -- What locks at registration locks now.
    · have hinfinite : HardFork.infiniteStaking ≤ fork := hfork hregistered
      rw [if_pos hinfinite] at hlocked
      subst hlocked
      rcases List.mem_or_eq_of_mem_set hc with hc | rfl
      · exact h.locked hregistered c hc
      · have hbefore := h.locked hregistered old (List.mem_of_getElem? hold)
        have hamount := old.credit_amount_le stake.transferred room stake.locked
        have htransfer := hstake hinfinite
        show _ ≤ ((old.locked ++ stake.locked).map (·.amount)).sum
        rw [List.map_append, List.sum_append_nat]
        omega

/-- A stake is credited to its slot; the rest of the entry's stakes stays. -/
theorem sameStakes_creditStake (info : NodeInfo) (fork : HardFork) (height index : Nat)
    (stake : Stake) :
    ((info.withSlot stake.address).1.creditAtSlot fork stake
      (info.withSlot stake.address).2).SameStakes (info.creditStake fork height index stake) := by
  unfold creditStake
  dsimp only
  split
  · exact ⟨rfl, rfl, rfl, rfl, rfl, rfl, rfl⟩
  · exact ⟨rfl, rfl, rfl, rfl, rfl, rfl, rfl⟩

theorem withSlot_eq (info : NodeInfo) (address : Address) : ∃ contributors,
    (info.withSlot address).1 = { info with contributors := contributors } := by
  unfold withSlot
  split <;> exact ⟨_, rfl⟩

theorem creditAtSlot_eq (info : NodeInfo) (fork : HardFork) (stake : Stake) (position : Nat) :
    ∃ contributors contributed reserved, info.creditAtSlot fork stake position =
      { info with
        contributors := contributors
        totalContributed := contributed
        totalReserved := reserved } := by
  unfold creditAtSlot
  split <;> exact ⟨_, _, _, rfl⟩

/-- Crediting a stake changes nothing in an entry but its stakes, its place in the reward queue
and the beginning of its active period. -/
theorem exists_creditStake_eq (info : NodeInfo) (fork : HardFork) (height index : Nat)
    (stake : Stake) :
    ∃ contributors contributed reserved since, info.creditStake fork height index stake =
      { info with
        contributors := contributors
        totalContributed := contributed
        totalReserved := reserved
        lastRewardHeight := height
        lastRewardIndex := index
        activeSince := since } := by
  obtain ⟨slots, hslot⟩ := info.withSlot_eq stake.address
  obtain ⟨contributors, contributed, reserved, hcredited⟩ :=
    (info.withSlot stake.address).1.creditAtSlot_eq fork stake (info.withSlot stake.address).2
  rw [hslot] at hcredited
  unfold creditStake
  dsimp only
  rw [hslot, hcredited]
  split <;> exact ⟨_, _, _, _, rfl⟩

/-- Crediting a stake changes neither the layout of an entry nor its fork. -/
theorem layout_creditStake (info : NodeInfo) (fork : HardFork) (height index : Nat)
    (stake : Stake) :
    (info.creditStake fork height index stake).version = info.version ∧
      (info.creditStake fork height index stake).registrationFork = info.registrationFork := by
  obtain ⟨_, _, _, _, heq⟩ := info.exists_creditStake_eq fork height index stake
  rw [heq]
  exact ⟨rfl, rfl⟩

/-- Crediting a stake keeps an entry balanced. -/
theorem balanced_creditStake {info : NodeInfo} (h : info.Balanced) (fork : HardFork)
    (height index : Nat) (stake : Stake) :
    (info.creditStake fork height index stake).Balanced := by
  have hslot := balanced_withSlot h stake.address
  have hcredited := balanced_creditAtSlot hslot fork stake (info.withSlot stake.address).2
  exact hcredited.of_sameStakes (info.sameStakes_creditStake fork height index stake)

/-- Crediting a stake keeps an entry ordinary, when the stake is backed by what it locks. -/
theorem ordinary_creditStake {info : NodeInfo} (h : info.Ordinary) {fork : HardFork}
    {stake : Stake}
    (hfork : HardFork.infiniteStaking ≤ info.registrationFork → HardFork.infiniteStaking ≤ fork)
    (hstake : HardFork.infiniteStaking ≤ fork →
      stake.transferred ≤ (stake.locked.map (·.amount)).sum)
    (height index : Nat) : (info.creditStake fork height index stake).Ordinary := by
  have hslot := ordinary_withSlot h stake.address
  have hslotFork : HardFork.infiniteStaking ≤ (info.withSlot stake.address).1.registrationFork →
      HardFork.infiniteStaking ≤ fork := by
    obtain ⟨_, hslotted⟩ := info.withSlot_eq stake.address
    rw [hslotted]
    exact hfork
  have hcredited := ordinary_creditAtSlot hslot hslotFork hstake (info.withSlot stake.address).2
  exact hcredited.of_sameStakes (info.sameStakes_creditStake fork height index stake)

end NodeInfo

end StakeRegistry
