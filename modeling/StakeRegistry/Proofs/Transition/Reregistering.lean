import StakeRegistry.Proofs.Staking.Slots
import StakeRegistry.Proofs.Transition.Sequence

/-!
# Registering a node that is registered

Since infinite staking an ordinary registration of a node that is registered already does nothing,
and so what is locked in the node stays locked. A registration through the bridge does not look for
an entry: it puts a newcomer in place of the one that is there, and what was locked in that is free
at once. Main statements:

* `AppliedTx.kept_unless_bridged`: when the registration in a transaction leaves the entry of a
  registered node alone, and what it leaves instead when it does not;
* `Registry.Passes.continues_or_bridged`: what becomes of an entry over a whole run.
-/

set_option autoImplicit false

namespace StakeRegistry

namespace NodeInfo

/-- An entry that has just been registered through the bridge by a transaction of a block: nothing
is locked in it, no end is set, and it counts as active since the block. -/
structure Newcomer (height index : Nat) (info : NodeInfo) : Prop where
  locked : info.lockedContributions = []
  unlock : info.requestedUnlockHeight = 0
  since : info.activeSince = toI64 height
  registered : info.registrationHeight = height
  rewardHeight : info.lastRewardHeight = height
  rewardIndex : info.lastRewardIndex = index

end NodeInfo

theorem newcomer_of_bridgedNode {suite : CryptoSuite} {rules : NetworkRules} {place : BlockPlace}
    {tx : Transaction} {key : PublicKey} {info : NodeInfo}
    (h : bridgedNode suite rules place tx = .ok (key, info)) :
    info.Newcomer place.height place.index := by
  obtain ⟨reg, operator, -, -, rfl⟩ := bridgedNode_eq_ok h
  constructor
  case locked => simp [bridgeEntry, NodeInfo.lockedContributions, List.flatMap_map]
  case since => rw [bridgeEntry]
  all_goals rfl

/-! ## One transaction -/

/-- What the registration in a transaction does, before a stake that comes with it is credited. -/
def Draft.enrol (ctx : Context) (block : Block) (index : Nat) (tx : Transaction) (d : Draft) :
    Draft :=
  if tx.kind = TxKind.ofStakes block.fork then d.register ctx block index tx
  else if tx.kind = .bridgeRegistration then d.registerBridged ctx block index tx
  else d

/-- A transaction registers, and then brings its stake. -/
theorem Draft.applyTransaction_eq_contribute {ctx : Context} {block : Block} {index : Nat}
    {tx : Transaction} {d : Draft} (hkind : tx.kind = TxKind.ofStakes block.fork) :
    d.applyTransaction ctx block tx index =
      (d.enrol ctx block index tx).contribute ctx block index tx := by
  unfold applyTransaction enrol
  rw [if_pos hkind, if_pos hkind]

namespace AppliedTx

/-- The draft after the registration in the transaction. -/
def enrolled (s : AppliedTx) : Draft := s.before.enrol s.ctx s.block s.index s.tx

/-- The transaction carries an ordinary registration that passes all checks. -/
structure Registers (s : AppliedTx) (key : PublicKey) (info : NodeInfo) : Prop where
  kind : s.tx.kind = TxKind.ofStakes s.block.fork
  registers : registeredNode s.ctx.suite s.ctx.rules (s.block.place s.index) s.tx =
    .ok (some (key, info))

variable {s : AppliedTx} {key : PublicKey} {info entry : NodeInfo}

/-- A registration through the bridge is all that its transaction does. -/
theorem Bridges.enrolled_eq (h : s.Bridges key entry) : s.enrolled = s.after := by
  have hstakes : s.tx.kind ≠ TxKind.ofStakes s.block.fork :=
    TxKind.ne_ofStakes (by rw [h.kind]; decide) _
  unfold enrolled Draft.enrol after Draft.applyTransaction
  rw [if_neg hstakes, if_pos h.kind, if_neg hstakes, h.kind]

/-- The entry of a registration through the bridge is that of a newcomer. -/
theorem Bridges.newcomer (h : s.Bridges key entry) : entry.Newcomer s.block.height s.index :=
  newcomer_of_bridgedNode h.registers

/-- Since infinite staking, an ordinary registration of a registered node does nothing. -/
theorem Registers.enrolled_eq (hfork : HardFork.infiniteStaking ≤ s.block.fork)
    (h : s.Registers key entry) (hinfo : s.before.registry.info? key = some info) :
    s.enrolled = s.before := by
  have hrefused : reregistered? s.ctx.rules s.block.fork s.block.height info entry = none := by
    unfold reregistered?
    rw [if_pos (.inl hfork)]
  unfold enrolled Draft.enrol Draft.register
  rw [if_pos h.kind, h.registers]
  dsimp only
  rw [hinfo]
  dsimp only
  rw [hrefused]

/-- Since infinite staking, whatever else the registration in a transaction does, it leaves the
entries of the nodes that it does not bring through the bridge. -/
theorem info?_enrolled (hfork : HardFork.infiniteStaking ≤ s.block.fork)
    (hinfo : s.before.registry.info? key = some info) (hbridge : ∀ entry, ¬ s.Bridges key entry) :
    s.enrolled.registry.info? key = some info := by
  unfold enrolled Draft.enrol
  split
  · rename_i hkind
    have hentering : Draft.Entering s.ctx s.block s.index s.tx s.before
        (s.before.register s.ctx s.block s.index s.tx) := Draft.entering_register s.index s.tx _
    generalize s.before.register s.ctx s.block s.index s.tx = after at hentering ⊢
    cases hentering with
    | nobody => exact hinfo
    | @newcomer node new registers vacant =>
        have hother : key ≠ node := by
          rintro rfl
          cases vacant.symm.trans hinfo
        rw [Draft.enter, Registry.info?_put, if_neg hother]
        exact hinfo
    | @again node new old renewed registers found renews =>
        unfold reregistered? at renews
        rw [if_pos (.inl hfork)] at renews
        cases renews
  · split
    · rename_i hkind
      unfold Draft.registerBridged
      split
      · exact hinfo
      · rename_i node new registers
        have hother : key ≠ node := by
          rintro rfl
          exact hbridge new ⟨hkind, registers⟩
        rw [Registry.info?_put, if_neg hother]
        exact hinfo
    · exact hinfo

/-- Since infinite staking, in every registry and at every position of a block: the registration in
a transaction leaves the entry of a registered node exactly if it is no registration of that node
through the bridge, up to one that brings the very same entry. An ordinary registration of the node
does nothing at all, so that its transaction is left with its stake. One through the bridge that
passes all checks replaces the entry, and no other, by that of a newcomer in which nothing is
locked, while no key image goes to the blacklist. -/
theorem kept_unless_bridged (hfork : HardFork.infiniteStaking ≤ s.block.fork)
    (hinfo : s.before.registry.info? key = some info) :
    (s.enrolled.registry.info? key = some info ↔ ∀ entry, s.Bridges key entry → entry = info) ∧
    (∀ entry, s.Registers key entry → s.enrolled = s.before ∧
      s.after = s.before.contribute s.ctx s.block s.index s.tx) ∧
    ∀ entry, s.Bridges key entry →
      s.enrolled = s.after ∧
      (∀ other, s.after.registry.info? other =
        if other = key then some entry else s.before.registry.info? other) ∧
      s.after.registry.blacklist = s.before.registry.blacklist ∧
      entry.Newcomer s.block.height s.index := by
  refine ⟨⟨fun hkept entry hbridges => ?_, fun hall => ?_⟩, fun entry hregisters => ?_,
    fun entry hbridges => ⟨hbridges.enrolled_eq, hbridges.info?_after, ?_, hbridges.newcomer⟩⟩
  · rw [hbridges.enrolled_eq, hbridges.info?_after, if_pos rfl] at hkept
    exact Option.some.inj hkept
  · by_cases hbridge : ∃ entry, s.Bridges key entry
    · obtain ⟨entry, hbridges⟩ := hbridge
      rw [hbridges.enrolled_eq, hbridges.info?_after, if_pos rfl, hall entry hbridges]
    · exact info?_enrolled hfork hinfo (not_exists.1 hbridge)
  · have hsame := hregisters.enrolled_eq hfork hinfo
    refine ⟨hsame, ?_⟩
    have hafter : s.after = s.enrolled.contribute s.ctx s.block s.index s.tx :=
      Draft.applyTransaction_eq_contribute hregisters.kind
    rw [hafter, hsame]
  · rw [hbridges.after_eq]
    rfl

/-- A registration through the bridge of the node of `sharedRegistration`, which waits for the rest
of its stake. -/
def takeover : AppliedTx :=
  ⟨.bare (.new 1), .plain 3 .v21, 0, .registering 7,
    Registry.sharedOpen.opened (.bare (.new 1)) (.plain 3 .v21)⟩

/-- The ordinary registration of that node again. -/
def repetition : AppliedTx :=
  ⟨.bare (.new 1), .plain 3 .v19, 0, sharedRegistration,
    Registry.sharedOpen.opened (.bare (.new 1)) (.plain 3 .v19)⟩

/-- The operator's output is locked in the node before it is taken over, and not after; when the
node registers again as it did, nothing happens. -/
theorem kept_unless_bridged_takeover :
    (∃ info entry, takeover.before.registry.info? (.writing 7) = some info ∧
      takeover.Bridges (.writing 7) entry ∧ info.lockedContributions.length = 1 ∧
      takeover.after.registry.info? (.writing 7) = some entry ∧
      entry.lockedContributions.length = 0 ∧ takeover.after.registry.blacklist = []) ∧
    ∃ info entry, repetition.before.registry.info? (.writing 7) = some info ∧
      repetition.Registers (.writing 7) entry ∧
      repetition.enrolled.registry.info? (.writing 7) = some info ∧
      repetition.enrolled = repetition.before := by
  constructor
  · obtain ⟨info, hinfo, hlocked⟩ := (Option.any_eq_true _ _).1 (show
      (takeover.before.registry.info? (.writing 7)).any
        (fun info => info.lockedContributions.length = 1) = true by decide +kernel)
    obtain ⟨⟨key, entry⟩, hnode, hkey⟩ := (Option.any_eq_true _ _).1 (show
      (bridgedNode takeover.ctx.suite takeover.ctx.rules (takeover.block.place takeover.index)
        takeover.tx).toOption.any (fun n => n.1 = .writing 7) = true by decide +kernel)
    obtain rfl : key = .writing 7 := of_decide_eq_true hkey
    have hbridges : takeover.Bridges (.writing 7) entry := ⟨rfl, eq_ok_of_toOption hnode⟩
    obtain ⟨-, -, hreplaced⟩ := kept_unless_bridged (by decide) hinfo
    obtain ⟨-, hafter, hblacklist, hnewcomer⟩ := hreplaced entry hbridges
    refine ⟨info, entry, hinfo, hbridges, of_decide_eq_true hlocked, ?_, ?_, ?_⟩
    · rw [hafter, if_pos rfl]
    · rw [hnewcomer.locked]
      rfl
    · rw [hblacklist]
      decide +kernel
  · obtain ⟨info, hinfo⟩ := Option.isSome_iff_exists.1 (show
      (repetition.before.registry.info? (.writing 7)).isSome = true by decide +kernel)
    obtain ⟨⟨key, entry⟩, hnode, hkey⟩ := (Option.any_eq_true _ _).1 (show
      ((registeredNode repetition.ctx.suite repetition.ctx.rules
        (repetition.block.place repetition.index) repetition.tx).toOption.getD none).any
          (fun n => n.1 = .writing 7) = true by decide +kernel)
    obtain rfl : key = .writing 7 := of_decide_eq_true hkey
    have hregisters : repetition.Registers (.writing 7) entry := by
      refine ⟨rfl, ?_⟩
      cases hresult : registeredNode repetition.ctx.suite repetition.ctx.rules
          (repetition.block.place repetition.index) repetition.tx with
      | error e =>
          rw [hresult] at hnode
          cases hnode
      | ok node =>
          rw [hresult] at hnode
          exact congrArg Except.ok hnode
    obtain ⟨hkept, hnothing, -⟩ := kept_unless_bridged (by decide) hinfo
    refine ⟨info, entry, hinfo, hregisters, hkept.2 fun entry hbridges => ?_,
      (hnothing entry hregisters).1⟩
    cases hbridges.kind

end AppliedTx

/-! ## Every run -/

namespace NodeInfo

/-- The second entry is what has become of the first: one registration on one set of terms, from
which nothing that was locked or contributed has been taken back, whose end stays once it is set,
and whose books stay balanced. -/
structure Continues (info info' : NodeInfo) : Prop where
  fork : info'.registrationFork = info.registrationFork
  height : info'.registrationHeight = info.registrationHeight
  blsKey : info'.blsKey = info.blsKey
  operator : info'.operator = info.operator
  requirement : info'.stakingRequirement = info.stakingRequirement
  locked : info.lockedContributions.Subperm info'.lockedContributions
  contributed : info.totalContributed ≤ info'.totalContributed
  unlock : info.requestedUnlockHeight = 0 ∨
    info'.requestedUnlockHeight = info.requestedUnlockHeight
  balanced : info.Balanced → info'.Balanced

instance : Frame Continues where
  refl info := ⟨rfl, rfl, rfl, rfl, rfl, .refl _, Nat.le_refl _, .inr rfl, id⟩
  trans h h' := by
    refine ⟨h'.fork.trans h.fork, h'.height.trans h.height, h'.blsKey.trans h.blsKey,
      h'.operator.trans h.operator, h'.requirement.trans h.requirement, h.locked.trans h'.locked,
      Nat.le_trans h.contributed h'.contributed, ?_, fun hinfo => h'.balanced (h.balanced hinfo)⟩
    rcases h.unlock with hopen | hset
    · exact .inl hopen
    · rcases h'.unlock with hopen' | hset'
      · exact .inl (hset.symm.trans hopen')
      · exact .inr (hset'.trans hset)

variable {info info' : NodeInfo}

theorem SameFooting.continues (h : info.SameFooting info') : info.Continues info' := by
  refine ⟨h.fork, h.height, h.blsKey, h.operator, h.stakingRequirement, ?_,
    Nat.le_of_eq h.totalContributed.symm, .inr h.unlock, fun hinfo => hinfo.of_sameStakes h.1⟩
  unfold lockedContributions
  rw [h.contributors]

theorem continues_creditStake (info : NodeInfo) (fork : HardFork) (height index : Nat)
    (stake : Stake) : info.Continues (info.creditStake fork height index stake) := by
  obtain ⟨_, _, _, _, heq⟩ := info.exists_creditStake_eq fork height index stake
  obtain ⟨old, hold, -⟩ := info.exists_slot stake.address
  obtain ⟨-, hcontributed, -, -⟩ := info.creditStake_slot fork height index stake hold
  have hlocked := info.lockedContributions_creditStake fork height index stake
  constructor
  case locked => exact (List.sublist_append_left _ _).subperm.trans hlocked.symm.subperm
  case contributed =>
    rw [hcontributed]
    exact Nat.le_add_right _ _
  case unlock =>
    rw [heq]
    exact .inr rfl
  case balanced => exact fun hinfo => balanced_creditStake hinfo fork height index stake
  all_goals rw [heq]

theorem continues_unlockingAt (hopen : info.requestedUnlockHeight = 0) (rules : NetworkRules)
    (height : Nat) : info.Continues (info.unlockingAt rules height) :=
  ⟨rfl, rfl, rfl, rfl, rfl, .refl _, Nat.le_refl _, .inl hopen,
    fun hinfo => hinfo.of_sameStakes ⟨rfl, rfl, rfl, rfl, rfl, rfl, rfl⟩⟩

theorem continues_leavingAt (info : NodeInfo) (rules : NetworkRules) (height : Nat) :
    info.Continues (info.leavingAt rules height) := by
  unfold leavingAt
  split
  · rename_i hopen
    exact continues_unlockingAt hopen rules height
  · exact Frame.refl info

end NodeInfo

section Transactions

variable {ctx : Context} {block : Block} {index : Nat} {tx : Transaction} {d : Draft}
  {key : PublicKey} {info info' : NodeInfo}

/-- A transaction continues every entry that it does not create. -/
theorem Draft.continues_applyTransaction
    (hold : ∀ origin, d.created? ctx block index tx ≠ some (key, origin))
    (hinfo' : (d.applyTransaction ctx block tx index).registry.info? key = some info') :
    ∃ info, d.registry.info? key = some info ∧ info.Continues info' := by
  obtain ⟨info, hinfo, hstakes⟩ := stakes_of_applyTransaction hold hinfo'
  refine ⟨info, hinfo, ?_⟩
  rcases hstakes with hstakes | ⟨stake, -, rfl⟩
  · obtain ⟨info₂, hinfo₂, hterms⟩ := terms_of_applyTransaction hold hinfo'
    obtain rfl : info₂ = info := Option.some.inj (hinfo₂.symm.trans hinfo)
    rcases hterms with hterms | ⟨request, hgrants, rfl⟩ | ⟨-, rfl⟩
    · exact NodeInfo.SameFooting.continues ⟨hstakes, hterms⟩
    · have hopen : info₂.requestedUnlockHeight = 0 :=
        eq_of_beq (Bool.and_eq_true_iff.1 hgrants.granted).1
      exact NodeInfo.continues_unlockingAt hopen _ _
    · exact info₂.continues_leavingAt _ _
  · exact info.continues_creditStake _ _ _ _

/-- Since infinite staking, only a registration through the bridge creates an entry that is there
already. -/
theorem AppliedTx.bridges_of_created? {s : AppliedTx}
    (hfork : HardFork.infiniteStaking ≤ s.block.fork)
    (hinfo : s.before.registry.info? key ≠ none) {origin : Origin}
    (hcreated : s.created? = some (key, origin)) : ∃ entry, s.Bridges key entry := by
  cases origin with
  | bridge =>
      obtain ⟨hkind, entry, hnode, -⟩ := Draft.bridged_of_created? hcreated
      exact ⟨entry, hkind, hnode⟩
  | ordinary =>
      unfold created? Draft.created? at hcreated
      split at hcreated
      · obtain ⟨-, hvacant, -⟩ := Draft.register_of_registered? hcreated
        exact absurd (hvacant hfork) hinfo
      · split at hcreated
        · unfold Draft.bridged? at hcreated
          split at hcreated <;> cases hcreated
        · cases hcreated

end Transactions

namespace Registry

variable {r r' : Registry} {steps : List AppliedTx} {key : PublicKey} {info info' : NodeInfo}

/-- Since infinite staking, over any blocks in a row: the entry of a node that stays registered
continues the one that it began with, with all that was locked in that, unless a registration of the
node comes through the bridge. -/
theorem Passes.continues_or_bridged (h : Passes r steps r')
    (hfork : ∀ s ∈ steps, HardFork.infiniteStaking ≤ s.block.fork)
    (hstays : ∀ s ∈ steps, s.before.registry.info? key ≠ none)
    (hinfo : r.info? key = some info) (hinfo' : r'.info? key = some info') :
    info.Continues info' ∨ ∃ s ∈ steps, ∃ entry, s.Bridges key entry := by
  by_cases hbridge : ∃ s ∈ steps, ∃ entry, s.Bridges key entry
  · exact .inr hbridge
  · have hstep : ∀ s ∈ steps,
        s.before.registry.KeepsEntry NodeInfo.Continues key s.after.registry := by
      intro s hs info₂ hinfo₂
      refine Draft.continues_applyTransaction (fun origin hcreated => hbridge ?_) hinfo₂
      exact ⟨s, hs, AppliedTx.bridges_of_created? (hfork s hs) (hstays s hs) hcreated⟩
    obtain ⟨first, hfirst, hcontinues⟩ :=
      (h.keepsEntry (fun hsame => hsame.continues) hstep).1 info' hinfo'
    obtain rfl : first = info := Option.some.inj (hfirst.symm.trans hinfo)
    exact .inl hcontinues

end Registry

end StakeRegistry
