import StakeRegistry.Proofs.Staking.Portions
import StakeRegistry.Proofs.Staking.Room
import StakeRegistry.Proofs.Transition.Turns

/-!
# What has been credited to a node

Since infinite staking an entry changes its stakes only by the stakes that it accepts, one after
the other (`NodeInfo.Funding`). Where every contributor brings what is reserved for them, and
nobody brings anything else, an entry holds what it had reserved from the start. Reserved portions
are rounded down, so that may be less than the requirement. Main statements:

* `NodeInfo.Funding.contributed_eq`: contributors who bring what is reserved for them bring all
  that is reserved;
* `Registry.Arises.funded`: every entry has been funded since it was registered;
* `Registry.portions_completed`: portions that make up a whole complete a node exactly if they
  are not rounded.
-/

set_option autoImplicit false

namespace StakeRegistry

namespace NodeInfo

/-- The stakes that an entry has accepted, in blocks since infinite staking, on its way from one
state to another. Nothing else has changed its stakes. -/
inductive Funding (start : NodeInfo) : List Stake → NodeInfo → Prop where
  | start : Funding start [] start
  | kept {stakes : List Stake} {info info' : NodeInfo} (funding : Funding start stakes info)
      (same : info.SameStakes info') : Funding start stakes info'
  | credited {stakes : List Stake} {info : NodeInfo} {ctx : Context} {block : Block}
      (funding : Funding start stakes info) (index : Nat) (tx : Transaction) (stake : Stake)
      (infinite : HardFork.infiniteStaking ≤ block.fork)
      (decoded : Stake.ofTransaction? ctx.suite ctx.rules block.fork tx block.height = some stake)
      (accepted : info.acceptsStake block.fork stake = true) :
      Funding start (stakes ++ [stake]) (info.creditStake block.fork block.height index stake)

/-- Each contributor that an entry names brings one stake, a single output of the amount that is
reserved for them; nobody else brings any. -/
def FilledBy (info : NodeInfo) (stakes : List Stake) : Prop :=
  (stakes.map fun s => (s.address, s.locked.map (·.amount))).Perm
    (info.contributors.map fun c => (c.address, [c.reserved]))

/-- An entry to which nothing has been credited. -/
structure Unfunded (info : NodeInfo) : Prop where
  balanced : info.Balanced
  ordinary : info.Ordinary
  empty : info.totalContributed = 0
  requirement_le : info.stakingRequirement ≤ maxU64

theorem Unfunded.amount_eq_zero {info : NodeInfo} (h : info.Unfunded) {c : Contributor}
    (hc : c ∈ info.contributors) : c.amount = 0 := by
  have hpart : c.amount ≤ info.totalContributed := by
    rw [h.balanced.contributed]
    exact List.le_sum_of_mem (List.mem_map_of_mem hc)
  exact Nat.le_zero.1 (h.empty ▸ hpart)

theorem Unfunded.reserved_le {info : NodeInfo} (h : info.Unfunded) {c : Contributor}
    (hc : c ∈ info.contributors) : c.reserved ≤ maxU64 := by
  have hpart : c.reserved ≤ info.totalReserved := by
    rw [h.balanced.reserved]
    exact List.le_sum_of_mem (List.mem_map_of_mem hc)
  exact Nat.le_trans (Nat.le_trans hpart h.balanced.reserved_le) h.requirement_le

theorem Unfunded.of_registeredNode {suite : CryptoSuite} {rules : NetworkRules}
    {place : BlockPlace} {tx : Transaction} {key : PublicKey} {info : NodeInfo}
    (h : registeredNode suite rules place tx = .ok (some (key, info)))
    (hmost : rules.stakingRequirement ≤ maxU64) : info.Unfunded := by
  have hbalanced := balanced_of_registeredNode h
  have hordinary := ordinary_of_registeredNode h
  obtain ⟨reg, operator, value, others, -, -, -, -, rfl⟩ := registeredNode_eq_some h
  exact ⟨hbalanced, hordinary, rfl, hmost⟩

/-! ## Contributors who bring what is reserved -/

/-- What an entry is like after contributors have each brought what is reserved for them: the
stakes make up its total, and whoever has not brought any is as they were. -/
structure Raised (start : NodeInfo) (stakes : List Stake) (info : NodeInfo) : Prop where
  ordinary : info.Ordinary
  untouched : ∀ c ∈ start.contributors, c.address ∉ stakes.map (·.address) →
    c ∈ info.contributors
  total : info.totalContributed = (stakes.map fun s => (s.locked.map (·.amount)).sum).sum
  requirement : info.stakingRequirement = start.stakingRequirement

/-- A stake is the next contributor's, and brings what is reserved for them. -/
structure Fills (start : NodeInfo) (stakes : List Stake) (stake : Stake) (c : Contributor) :
    Prop where
  mem : c ∈ start.contributors
  address : stake.address = c.address
  fresh : stake.address ∉ stakes.map (·.address)
  amount : stake.locked.map (·.amount) = [c.reserved]

namespace Raised

variable {start info : NodeInfo} {stakes : List Stake}

theorem of_sameStakes {info' : NodeInfo} (h : start.Raised stakes info)
    (hsame : info.SameStakes info') : start.Raised stakes info' := by
  refine ⟨h.ordinary.of_sameStakes hsame, fun c hc hnew => ?_, ?_, ?_⟩
  · rw [hsame.contributors]
    exact h.untouched c hc hnew
  · rw [hsame.totalContributed]
    exact h.total
  · rw [hsame.stakingRequirement]
    exact h.requirement

theorem creditStake (h : start.Raised stakes info) (hstart : start.Unfunded) {stake : Stake}
    {c : Contributor} (hfills : start.Fills stakes stake c) {fork : HardFork}
    (hfork : HardFork.infiniteStaking ≤ fork)
    (htransferred : stake.transferred = satSum (stake.locked.map (·.amount)))
    (height index : Nat) :
    start.Raised (stakes ++ [stake]) (info.creditStake fork height index stake) := by
  have hzero := hstart.amount_eq_zero hfills.mem
  have hbrought : stake.transferred = c.reserved := by
    rw [htransferred, hfills.amount]
    show clampU64 (0 + c.reserved) = c.reserved
    rw [Nat.zero_add, clampU64_of_le (hstart.reserved_le hfills.mem)]
  -- Nothing has happened to the contributor's slot so far.
  have hmem := h.untouched c hfills.mem (hfills.address ▸ hfills.fresh)
  obtain ⟨position, -, hposition, hslot⟩ := exists_position_of_mem h.ordinary.distinct hmem
  rw [← hfills.address] at hslot
  have hfound : (info.withSlot stake.address).1.contributors[(info.withSlot stake.address).2]?
      = some c := by
    rw [hslot]
    exact hposition
  obtain ⟨hcontributors, htotal, -, hrequirement⟩ :=
    info.creditStake_slot fork height index stake hfound
  obtain ⟨hfilled, -⟩ := Contributor.credit_unfilled (c := c) (by omega)
    (show stake.transferred = c.unfilled by unfold Contributor.unfilled; omega)
    (info.stakingRequirement - info.totalReserved) (stake.lockedAt fork)
  refine ⟨?_, fun c' hc' hnew => ?_, ?_, hrequirement.trans h.requirement⟩
  · refine ordinary_creditStake h.ordinary (fun _ => hfork) (fun _ => ?_) height index
    rw [htransferred]
    exact satSum_le_sum _
  · rw [List.map_append, List.mem_append, not_or] at hnew
    have hbefore := h.untouched c' hc' hnew.1
    obtain ⟨position', hposition'⟩ := List.mem_iff_getElem?.1 hbefore
    have hne : position ≠ position' := by
      rintro rfl
      cases hposition.symm.trans hposition'
      exact hnew.2 (by simp [hfills.address])
    rw [hcontributors, hslot]
    exact List.mem_iff_getElem?.2 ⟨position', by rw [List.getElem?_set_ne hne, hposition']⟩
  · rw [htotal, hfilled, hzero, h.total, List.map_append, List.sum_append_nat]
    simp [hfills.amount]

end Raised

namespace Funding

variable {start info : NodeInfo} {stakes : List Stake}

theorem raised (h : start.Funding stakes info) (hstart : start.Unfunded)
    (hdistinct : (stakes.map (·.address)).Nodup)
    (hfills : ∀ s ∈ stakes, ∃ c ∈ start.contributors, s.address = c.address ∧
      s.locked.map (·.amount) = [c.reserved]) : start.Raised stakes info := by
  induction h with
  | start => exact ⟨hstart.ordinary, fun c hc _ => hc, hstart.empty, rfl⟩
  | kept _ same ih => exact (ih hdistinct hfills).of_sameStakes same
  | credited _ index tx stake infinite decoded accepted ih =>
      rw [List.map_append, List.nodup_append] at hdistinct
      obtain ⟨hbefore, -, hapart⟩ := hdistinct
      obtain ⟨c, hc, haddress, hamount⟩ := hfills stake (by simp)
      have hraised := ih hbefore fun s hs => hfills s (by simp [hs])
      have hfresh : stake.address ∉ _ := fun hmem => hapart _ hmem _ (by simp) rfl
      exact hraised.creditStake hstart ⟨hc, haddress, hfresh, hamount⟩ infinite
        (Stake.transferred_eq infinite decoded) _ index

/-- Contributors who bring what is reserved for them bring all that is reserved. -/
theorem contributed_eq (h : start.Funding stakes info) (hstart : start.Unfunded)
    (hfilled : start.FilledBy stakes) :
    info.totalContributed = start.totalReserved ∧
      info.stakingRequirement = start.stakingRequirement := by
  have haddresses : (stakes.map (·.address)).Perm (start.contributors.map (·.address)) := by
    simpa [List.map_map, Function.comp_def] using hfilled.map (·.1)
  have hraised := h.raised hstart (haddresses.nodup_iff.2 hstart.ordinary.distinct)
    fun s hs => by
      obtain ⟨c, hc, hsame⟩ := List.mem_map.1 (hfilled.mem_iff.1 (List.mem_map_of_mem hs))
      obtain ⟨haddress, hamount⟩ := Prod.mk.inj hsame
      exact ⟨c, hc, haddress.symm, hamount.symm⟩
  refine ⟨?_, hraised.requirement⟩
  have hsum := (hfilled.map fun s => s.2.sum).sum_eq
  simpa [hraised.total, hstart.balanced.reserved, List.map_map, Function.comp_def] using hsum

end Funding

end NodeInfo

/-! ## Every run -/

/-- An entry of a node has been funded since the node was registered, by an ordinary registration
in a block since infinite staking. -/
def NodeInfo.FundedSince (key : PublicKey) (info : NodeInfo) : Prop :=
  ∃ (suite : CryptoSuite) (rules : NetworkRules) (place : BlockPlace) (tx : Transaction)
    (start : NodeInfo) (stakes : List Stake), HardFork.infiniteStaking ≤ place.fork ∧
      registeredNode suite rules place tx = .ok (some (key, start)) ∧ start.Funding stakes info

/-- Blocks since infinite staking, and before the bridge. -/
def Staking (_ : Context) (block : Block) (_ : List Transaction) : Prop :=
  HardFork.infiniteStaking ≤ block.fork ∧ block.fork < HardFork.bridge

/-- What a block does to an entry leaves it funded since its registration. -/
theorem NodeInfo.FundedSince.rule {ctx : Context} {block : Block} {txs : List Transaction}
    (hallowed : Staking ctx block txs) :
    NodeRule ctx block fun key info => info.FundedSince key := by
  obtain ⟨hinfinite, hbridge⟩ := hallowed
  constructor
  case changed =>
    rintro key info info' ⟨suite, rules, place, tx, start, stakes, hplace, hnode, hfunding⟩ hchange
    refine ⟨suite, rules, place, tx, start, ?_⟩
    cases hchange with
    | kept same => exact ⟨stakes, hplace, hnode, hfunding.kept same.toSameStakes⟩
    | credited index tx stake decoded accepted =>
        exact ⟨_, hplace, hnode, hfunding.credited index tx stake hinfinite decoded accepted⟩
    | decommissioned change =>
        exact ⟨stakes, hplace, hnode, hfunding.kept ⟨rfl, rfl, rfl, rfl, rfl, rfl, rfl⟩⟩
    | recommissioned =>
        exact ⟨stakes, hplace, hnode, hfunding.kept ⟨rfl, rfl, rfl, rfl, rfl, rfl, rfl⟩⟩
  case entered =>
    intro index tx key info entry hnode hsame
    exact ⟨_, _, _, _, info, [], hinfinite, hnode, .kept .start hsame.toSameStakes⟩
  case bridged =>
    intro index tx key info hnode
    exact absurd (bridge_le_of_bridgedNode hnode) (Nat.not_le_of_lt hbridge)

namespace Registry

/-- Every entry has been funded since its registration. -/
theorem Arises.funded {r : Registry} (h : Arises Staking r) :
    r.Each fun key info => info.FundedSince key :=
  h.induction (I := fun r => r.Each _) (fun _ => .new _)
    fun hallowed ih happly => ih.apply (NodeInfo.FundedSince.rule hallowed) happly

/-- Portions that make up a whole complete a node exactly if they are not rounded. Take an
accepted registration in such portions, and an entry to which nothing has been credited since but
one stake from each contributor that the registration names, of the amount reserved for them. The
entry is fully funded exactly if each portion of the requirement is a whole number of units;
otherwise it misses fewer units than there are contributors, of whom there are four at most. Every
entry of every registry that blocks since infinite staking lead to, before the bridge, has been
funded by such a row of stakes since it was registered. -/
theorem portions_completed :
    (∀ {suite : CryptoSuite} {rules : NetworkRules} {place : BlockPlace} {tx : Transaction}
      {key : PublicKey} {start : NodeInfo} {reg : Registration},
      rules.stakingRequirement ≤ maxU64 →
      registeredNode suite rules place tx = .ok (some (key, start)) →
      Registration.ofTransaction? tx = some reg → reg.inPortions = true →
      (reg.reserved.map (·.2)).sum = stakingPortions →
      ∀ {stakes : List Stake} {info : NodeInfo}, start.Funding stakes info →
        start.FilledBy stakes →
        (info.isFullyFunded = true ↔
          ∀ r ∈ reg.reserved, stakingPortions ∣ r.2 * rules.stakingRequirement) ∧
        info.stakingRequirement = rules.stakingRequirement ∧
        info.totalContributed ≤ info.stakingRequirement ∧
        info.stakingRequirement < info.totalContributed + reg.reserved.length ∧
        reg.reserved.length ≤ 4) ∧
    ∀ {r : Registry}, Arises Staking r → r.Each fun key info => info.FundedSince key := by
  refine ⟨?_, fun h => h.funded⟩
  intro suite rules place tx key start reg hmost hnode hreg hportions hwhole stakes info hfunding
    hfilled
  have hstart := NodeInfo.Unfunded.of_registeredNode hnode hmost
  obtain ⟨hrequirement, hreserved, hfew⟩ := reserved_of_registeredNode hnode hreg hportions
  obtain ⟨hcontributed, hsame⟩ := hfunding.contributed_eq hstart hfilled
  have hlength : start.contributors.length = reg.reserved.length := by
    simpa using congrArg List.length hreserved
  have htotal : info.totalContributed =
      ((reg.reserved.map (·.2)).map (portionsToAmount · rules.stakingRequirement)).sum := by
    rw [hcontributed, hstart.balanced.reserved, hreserved]
  have hlimit := hstart.balanced.reserved_le
  have hmissed := lt_sum_portionsToAmount_add hwhole hmost
  have hexact := sum_portionsToAmount_eq_iff hwhole hmost
  rw [← htotal, List.length_map] at hmissed
  rw [← htotal, List.forall_mem_map] at hexact
  rw [← hcontributed] at hlimit
  refine ⟨?_, hsame.trans hrequirement, hsame ▸ hlimit, ?_, hlength ▸ hfew⟩
  · rw [← hexact, NodeInfo.isFullyFunded, decide_eq_true_iff]
    omega
  · omega

end Registry

/-! ## Equal shares -/

/-- The amount of one of some equal portions of the requirement. -/
def equalShare (n : Nat) : Nat := portionsToAmount (stakingPortions / n) (100 * coin)

/-- The transactions with which contributors bring equal shares of a node; the operator's comes
first, and registers it. -/
def Transaction.sharing (n : Nat) : Nat → Transaction
  | 0 =>
      let keys := (List.range n).map fun i => .writing (i + 1)
      { contribution 7 1 11 (equalShare n) with
        extra := (contribution 7 1 11 (equalShare n)).extra ++
          [.registration ⟨keys, keys, 0, List.replicate n (stakingPortions / n), 256, 0⟩] }
  | i + 1 => contribution 7 (i + 2) (i + 12) (equalShare n)

/-- What they bring. -/
def Stake.sharing (n i : Nat) : Stake :=
  ⟨.writing 7, ⟨.writing (i + 1), .writing (i + 1)⟩, equalShare n, 0,
    [⟨.writing (i + 1), .writing (i + 11), equalShare n⟩]⟩

/-- The entry of the node after some of them. -/
def NodeInfo.sharing (n : Nat) : Nat → NodeInfo
  | 0 =>
      { NodeInfo.registeredAt ((Block.plain 2 .v16).place 0) (100 * coin) with
        operator := ⟨.writing 1, .writing 1⟩
        contributors := (List.range n).map fun i =>
          .reserving (equalShare n) ⟨.writing (i + 1), .writing (i + 1)⟩
        totalReserved := n * equalShare n }
  | i + 1 => (NodeInfo.sharing n i).creditStake .v16 (i + 2) 0 (.sharing n i)

/-- Each of the contributors is credited in turn. -/
theorem NodeInfo.funding_sharing {n : Nat} (h : ∀ i < n,
    Stake.ofTransaction? .trusting (.of .fakechain) .v16 (.sharing n i) (i + 2) =
        some (.sharing n i) ∧
      (NodeInfo.sharing n i).acceptsStake .v16 (.sharing n i) = true) :
    (NodeInfo.sharing n 0).Funding ((List.range n).map (.sharing n)) (.sharing n n) := by
  suffices hsome : ∀ i ≤ n, (NodeInfo.sharing n 0).Funding ((List.range i).map (.sharing n))
      (.sharing n i) from hsome n (Nat.le_refl n)
  intro i hi
  induction i with
  | zero => exact .start
  | succ i ih =>
      obtain ⟨hdecoded, haccepted⟩ := h i hi
      rw [List.range_succ, List.map_append]
      exact @Funding.credited _ _ _ (.bare (.new 1)) (.plain (i + 2) .v16) (ih (Nat.le_of_lt hi)) 0
        (.sharing n i) (.sharing n i) (show HardFork.infiniteStaking ≤ .v16 by decide) hdecoded
        haccepted

/-- They bring what is reserved for them, and nobody else brings anything. -/
theorem NodeInfo.filledBy_sharing (n : Nat) :
    (NodeInfo.sharing n 0).FilledBy ((List.range n).map (.sharing n)) := by
  unfold FilledBy
  rw [List.map_map]
  show List.Perm _ (((List.range n).map _).map _)
  rw [List.map_map]
  exact .refl _

/-- The terms of the registration by `n` contributors with equal portions. -/
def Registration.sharing (n : Nat) : Registration where
  nodeKey := .writing 7
  reserved := (List.range n).map fun i =>
    (⟨.writing (i + 1), .writing (i + 1)⟩, stakingPortions / n)
  bridgeContributions := []
  blsKey := 0
  fee := 0
  forkOrExpiry := 256
  inPortions := true
  signature := 0

theorem registeredNode_sharing {n : Nat} (hn : n ∈ [2, 3]) :
    registeredNode .trusting (.of .fakechain) ((Block.plain 2 .v16).place 0) (.sharing n 0) =
      .ok (some (.writing 7, .sharing n 0)) := by
  have hentered : ∀ n ∈ [2, 3], (registeredNode .trusting (.of .fakechain)
      ((Block.plain 2 .v16).place 0) (.sharing n 0)).toOption =
        some (some (.writing 7, .sharing n 0)) := by decide +kernel
  exact eq_ok_of_toOption (hentered n hn)

namespace Registry

/-- Two halves complete a node. -/
theorem portions_completed_halves :
    (NodeInfo.sharing 2 0).Funding [.sharing 2 0, .sharing 2 1] (.sharing 2 2) ∧
      (NodeInfo.sharing 2 2).isFullyFunded = true := by
  have hfunding := NodeInfo.funding_sharing (n := 2) (by decide +kernel)
  have hnode := registeredNode_sharing (n := 2) (by decide)
  have hcompleted := portions_completed.1 (by decide) hnode
    (show Registration.ofTransaction? _ = some (.sharing 2) by decide +kernel) rfl
    (by decide +kernel) hfunding (NodeInfo.filledBy_sharing 2)
  exact ⟨hfunding, hcompleted.1.2 (by decide +kernel)⟩

/-- Three thirds do not: each is rounded down. -/
theorem portions_incomplete_thirds :
    ¬ ∀ {suite : CryptoSuite} {rules : NetworkRules} {place : BlockPlace} {tx : Transaction}
      {key : PublicKey} {start : NodeInfo} {reg : Registration},
      HardFork.infiniteStaking ≤ place.fork → place.fork < HardFork.rewardBatching →
      rules.stakingRequirement ≤ maxU64 →
      registeredNode suite rules place tx = .ok (some (key, start)) →
      Registration.ofTransaction? tx = some reg → reg.inPortions = true →
      (reg.reserved.map (·.2)).sum = stakingPortions →
      ∀ {stakes : List Stake} {info : NodeInfo}, start.Funding stakes info →
        start.FilledBy stakes → info.isFullyFunded = true := by
  intro hclaim
  have hfunding := NodeInfo.funding_sharing (n := 3) (by decide +kernel)
  have hnode := registeredNode_sharing (n := 3) (by decide)
  have hfull := hclaim (by decide) (by decide) (by decide) hnode
    (show Registration.ofTransaction? _ = some (.sharing 3) by decide +kernel) rfl
    (by decide +kernel) hfunding (NodeInfo.filledBy_sharing 3)
  have hmissed : (NodeInfo.sharing 3 3).isFullyFunded = false := by decide +kernel
  exact absurd (hfull.symm.trans hmissed) (by decide)

end Registry

end StakeRegistry
