import StakeRegistry.Proofs.Staking.Room
import StakeRegistry.Proofs.Transition.Moves
import StakeRegistry.Proofs.Transition.Turns

/-!
# Whether the stake of a registration is credited

Since Pulse a registration brings its operator's stake in the same transaction. The registration
asks that the stake is no less than what the operator reserves, while the contribution that is
applied next also asks that it is no more than a hundredth above what is not reserved for others.
A stake between the two bounds leaves the node registered with nothing contributed. Main
statements:

* `operatorStake_of_registeredNode`: what the registration asks of the operator's stake;
* `NodeInfo.Fresh.acceptsStake_operator_iff`: and what the contribution asks of it beyond that;
* `Draft.registration_credited_iff`: the operator's reservation is filled exactly within both
  bounds.
-/

set_option autoImplicit false

namespace StakeRegistry

/-! ## What a registration asks of a stake -/

/-- An entry to which nothing has been contributed yet. -/
structure NodeInfo.Fresh (fork : HardFork) (info : NodeInfo) : Prop where
  balanced : info.Balanced
  ordinary : info.Ordinary
  nothing : ∀ c ∈ info.contributors, c.amount = 0 ∧ c.locked = []
  slots : info.contributors.length ≤ contributorSlots fork
  registered : info.registrationFork = fork
  unasked : info.requestedUnlockHeight = 0

/-- A stake is for the node that the transaction names. -/
theorem Stake.nodeKey_of_ofTransaction? {suite : CryptoSuite} {rules : NetworkRules}
    {fork : HardFork} {tx : Transaction} {height : Nat} {stake : Stake}
    (h : Stake.ofTransaction? suite rules fork tx height = some stake) :
    tx.nodeKey? = some stake.nodeKey := by
  unfold Stake.ofTransaction? at h
  obtain ⟨header, hheader, h⟩ := Option.bind_eq_some_iff.1 h
  obtain ⟨secret, -, h⟩ := Option.bind_eq_some_iff.1 h
  unfold Stake.header? at hheader
  obtain ⟨nodeKey, hnodeKey, hheader⟩ := Option.bind_eq_some_iff.1 hheader
  obtain ⟨_, -, hheader⟩ := Option.bind_eq_some_iff.1 hheader
  obtain ⟨_, -, hheader⟩ := Option.bind_eq_some_iff.1 hheader
  cases hheader
  split at h
  · obtain ⟨_, -, h⟩ := Option.bind_eq_some_iff.1 h
    cases h
    exact hnodeKey
  · cases h
    exact hnodeKey

theorem Registration.nodeKey_of_ofTransaction? {tx : Transaction} {reg : Registration}
    (h : Registration.ofTransaction? tx = some reg) : tx.nodeKey? = some reg.nodeKey := by
  unfold Registration.ofTransaction? at h
  obtain ⟨terms, -, h⟩ := Option.bind_eq_some_iff.1 h
  split at h
  · cases h
  · obtain ⟨nodeKey, hnodeKey, h⟩ := Option.bind_eq_some_iff.1 h
    cases h
    exact hnodeKey

section Registered

variable {suite : CryptoSuite} {rules : NetworkRules} {place : BlockPlace} {tx : Transaction}
  {key : PublicKey} {info : NodeInfo}

/-- Since Pulse, the stake that comes with a registration is one output of the operator for the
node, of no less than what the operator reserves. -/
theorem operatorStake_of_registeredNode (hfork : HardFork.pulse ≤ place.fork)
    (h : registeredNode suite rules place tx = .ok (some (key, info))) :
    ∃ stake, Stake.ofTransaction? suite rules place.fork tx place.height = some stake ∧
      stake.nodeKey = key ∧ stake.locked.length = 1 ∧ stake.address = info.operator ∧
      ∀ c ∈ info.contributors.head?, c.reserved ≤ stake.transferred := by
  unfold registeredNode at h
  split at h
  case h_1 => cases h
  case h_2 reg hreg =>
    dsimp only at h
    obtain ⟨⟨⟩, -, h⟩ := bind_eq_ok_iff.1 h
    obtain ⟨_, -, h⟩ := bind_eq_ok_iff.1 h
    split at h
    case h_1 => cases h
    case h_2 => cases h
    case h_3 stake operator value hstake hhead =>
      obtain ⟨_, hchecked, h⟩ := bind_eq_ok_iff.1 h
      split at h
      · cases h
      · split at h
        · cases h
        · rename_i henough
          cases h
          have hkey : stake.nodeKey = reg.nodeKey := Option.some.inj
            ((Stake.nodeKey_of_ofTransaction? hstake).symm.trans
              (Registration.nodeKey_of_ofTransaction? hreg))
          unfold checkOperatorStake at hchecked
          rw [if_pos hfork] at hchecked
          split at hchecked
          · cases hchecked
          · rename_i hone
            split at hchecked
            · cases hchecked
            · rename_i haddress
              refine ⟨stake, hstake, hkey, not_not.1 hone, not_not.1 haddress, fun c hc => ?_⟩
              by_contra hless
              refine henough ⟨hfork, (Option.any_eq_true _ _).2 ?_⟩
              exact ⟨c, hc, decide_eq_true (Nat.lt_of_not_le hless)⟩

/-- Every ordinary registration leaves a node to which nothing has been contributed yet. -/
theorem fresh_of_registeredNode
    (h : registeredNode suite rules place tx = .ok (some (key, info))) :
    info.Fresh place.fork := by
  have hbalanced := balanced_of_registeredNode h
  have hordinary := ordinary_of_registeredNode h
  obtain ⟨reg, operator, value, others, hreg, hvalid, -, -, rfl⟩ := registeredNode_eq_some h
  refine ⟨hbalanced, hordinary, ?_, ?_, rfl, rfl⟩
  · intro c hc
    obtain ⟨r, -, rfl⟩ := List.mem_map.1 hc
    exact ⟨rfl, rfl⟩
  · obtain ⟨amounts, hstakes, -⟩ := Registration.stakesPermitted_of_validate hvalid
    have hfew := (Registration.reserved_of_stakes
      (Registration.bridgeContributions_of_ofTransaction? hreg) hstakes).2
    exact Nat.le_trans (Nat.le_of_eq (List.length_map _)) hfew

end Registered

/-! ## What a contribution asks of it -/

/-- A first transfer of no less than what is reserved fills the reservation. -/
theorem Contributor.reserved_credit_le_amount {c : Contributor} {transferred : Nat}
    (hnothing : c.amount = 0) (henough : c.reserved ≤ transferred) (room : Nat)
    (locked : List LockedContribution) :
    (c.credit transferred room locked).reserved ≤ (c.credit transferred room locked).amount := by
  show max c.reserved (c.amount + min transferred (c.reserved + room - c.amount)) ≤
    c.amount + min transferred (c.reserved + room - c.amount)
  omega

namespace NodeInfo

namespace Fresh

variable {fork : HardFork} {info : NodeInfo} {operator : Contributor} {others : List Contributor}
  {stake : Stake}

theorem lockedContributions_eq (h : info.Fresh fork) : info.lockedContributions = [] :=
  List.flatMap_eq_nil_iff.2 fun c hc => (h.nothing c hc).2

theorem totalContributed_eq (h : info.Fresh fork) : info.totalContributed = 0 := by
  rw [h.balanced.contributed]
  refine List.sum_eq_zero fun n hn => ?_
  obtain ⟨c, hc, rfl⟩ := List.mem_map.1 hn
  exact (h.nothing c hc).1

/-- There is no stake that anybody could ask back. -/
theorem grantsUnlock_eq_false (h : info.Fresh fork) (ctx : Context) (fork' : HardFork)
    (height : Nat) (request : KeyImageUnlock) :
    info.grantsUnlock ctx fork' height request = false := by
  unfold grantsUnlock lockedBy?
  rw [h.lockedContributions_eq, List.find?_nil]
  exact Bool.and_false _

/-- Since infinite staking a node expires when it has been asked to. -/
theorem hasExpired_eq_false (h : info.Fresh fork) (hfork : HardFork.infiniteStaking ≤ fork)
    (rules : NetworkRules) (height : Nat) : info.hasExpired rules height = false := by
  unfold hasExpired
  rw [if_pos (h.registered ▸ hfork), h.unasked]
  rfl

theorem exists_operator (h : info.Fresh fork) :
    ∃ operator others, info.contributors = operator :: others ∧
      operator.address = info.operator := by
  have hfirst := h.ordinary.operatorFirst
  cases hcontributors : info.contributors with
  | nil =>
      rw [hcontributors] at hfirst
      cases hfirst
  | cons operator others =>
      rw [hcontributors] at hfirst
      exact ⟨operator, others, rfl, Option.some.inj hfirst⟩

theorem unfilled_operator (h : info.Fresh fork)
    (hcontributors : info.contributors = operator :: others) :
    info.unfilled operator.address = operator.reserved := by
  have hmem : operator ∈ info.contributors := hcontributors ▸ List.mem_cons_self
  rw [(credits_of_distinct h.ordinary.distinct hmem (h.balanced.covered _ hmem)).unfilled,
    Contributor.unfilled, (h.nothing _ hmem).1, Nat.sub_zero]

/-- The most that is credited of an operator's transfer: a hundredth above what is not reserved
for the others. -/
theorem greatestStake_eq (h : info.Fresh fork) (hfork : HardFork.pulse ≤ fork)
    (hcontributors : info.contributors = operator :: others) :
    info.greatestStake fork operator.address =
      mulDiv (info.stakingRequirement - (others.map (·.reserved)).sum) 101 100 := by
  have hreserved := h.balanced.reserved
  rw [hcontributors, List.map_cons, List.sum_cons] at hreserved
  unfold greatestStake maxContribution
  rw [if_pos hfork, h.unfilled_operator hcontributors, hreserved, Nat.add_sub_cancel_left]

/-- Of what the contribution asks, the registration has seen to all but the upper bound. -/
theorem acceptsStake_operator_iff (h : info.Fresh fork) (hfork : HardFork.pulse ≤ fork)
    (hcontributors : info.contributors = operator :: others) (hpos : 0 < operator.reserved)
    (haddress : stake.address = operator.address) (hone : stake.locked.length = 1)
    (henough : operator.reserved ≤ stake.transferred) :
    info.acceptsStake fork stake = true ↔
      stake.transferred ≤
        mulDiv (info.stakingRequirement - (others.map (·.reserved)).sum) 101 100 := by
  have hmem : operator ∈ info.contributors := hcontributors ▸ List.mem_cons_self
  have hcredits := credits_of_distinct h.ordinary.distinct hmem (h.balanced.covered _ hmem)
  have hwaits : info.isFullyFunded = false := by
    have hpart : operator.reserved ≤ info.totalReserved := by
      rw [h.balanced.reserved]
      exact List.le_sum_of_mem (List.mem_map_of_mem hmem)
    have hlimit := h.balanced.reserved_le
    unfold isFullyFunded
    rw [h.totalContributed_eq]
    exact decide_eq_false (by omega)
  have hslots : info.lockedCount + info.openSlots operator.address + 1 ≤ contributorSlots fork := by
    have hcount := hcredits.openCount
    have hopen : operator.isOpen = true := by
      rw [Contributor.isOpen_iff, Contributor.unfilled, (h.nothing _ hmem).1, Nat.sub_zero]
      exact hpos
    have hall : info.openCount ≤ info.contributors.length := List.countP_le_length
    have hfew := h.slots
    rw [if_pos hopen] at hcount
    rw [lockedCount, h.lockedContributions_eq, List.length_nil, Nat.zero_add]
    omega
  rw [acceptsStake_iff_of_pulse hfork, haddress, leastStake_of_pulse hfork,
    h.unfilled_operator hcontributors, if_pos hpos, h.greatestStake_eq hfork hcontributors]
  exact ⟨fun haccepted => haccepted.2.2.2.2, fun hmost => ⟨hwaits, hone, hslots, henough, hmost⟩⟩

/-- An operator's stake is credited to the first contributor. -/
theorem contributors_creditStake (h : info.Fresh fork)
    (hcontributors : info.contributors = operator :: others)
    (haddress : stake.address = operator.address) (height index : Nat) :
    (info.creditStake fork height index stake).contributors =
      operator.credit stake.transferred (info.stakingRequirement - info.totalReserved)
        (stake.lockedAt fork) :: others := by
  have hmem : operator ∈ info.contributors := hcontributors ▸ List.mem_cons_self
  obtain ⟨position, -, hposition, heq⟩ := exists_position_of_mem h.ordinary.distinct hmem
  have hzero : position = 0 := by
    have hlt := (List.getElem?_eq_some_iff.1 hposition).1
    refine (List.getElem?_inj hlt h.ordinary.distinct.of_map).1 ?_
    rw [hposition, hcontributors]
    rfl
  subst hzero
  rw [← haddress] at heq
  have hslot := (info.creditStake_slot fork height index stake (by rw [heq]; exact hposition)).1
  rw [heq, hcontributors] at hslot
  exact hslot

end Fresh

end NodeInfo

/-! ## Registering and contributing at once -/

namespace Draft

variable {ctx : Context} {block : Block} {index : Nat} {tx : Transaction} {d : Draft}
  {key : PublicKey} {info : NodeInfo} {stake : Stake}

/-- An entry where there was none is that of the registration. -/
theorem registeredNode_of_register (hvacant : d.registry.info? key = none)
    (hentered : (d.register ctx block index tx).registry.info? key = some info) :
    registeredNode ctx.suite ctx.rules (block.place index) tx = .ok (some (key, info)) := by
  have hput : ∀ {key' : PublicKey} {info' : NodeInfo},
      (d.registry.put key' info').info? key = some info → key = key' ∧ info' = info := by
    intro key' info' h
    rw [Registry.info?_put] at h
    split at h
    · rename_i hkey
      exact ⟨hkey, Option.some.inj h⟩
    · rw [hvacant] at h
      cases h
  have hentering : Entering ctx block index tx d (d.register ctx block index tx) :=
    entering_register index tx d
  generalize d.register ctx block index tx = entered at hentered hentering
  cases hentering with
  | nobody =>
      rw [hvacant] at hentered
      cases hentered
  | newcomer registers vacant =>
      obtain ⟨rfl, rfl⟩ := hput hentered
      exact registers
  | again registers found renews =>
      obtain ⟨rfl, -⟩ := hput hentered
      rw [hvacant] at found
      cases found

variable (index) in
/-- A stake is credited to its node, or leaves it as it is. -/
theorem info?_contribute
    (hstake : Stake.ofTransaction? ctx.suite ctx.rules block.fork tx block.height = some stake)
    (hfound : d.registry.info? stake.nodeKey = some info) :
    (d.contribute ctx block index tx).registry.info? stake.nodeKey =
      some (if info.acceptsStake block.fork stake
        then info.creditStake block.fork block.height index stake else info) := by
  unfold contribute
  rw [hstake]
  dsimp only
  rw [hfound]
  dsimp only
  split
  · exact (Registry.info?_put _ _ _ _).trans (if_pos rfl)
  · exact hfound

/-- **When the stake of a registration is credited.** A registration that enters a new node since
Pulse comes with no less than its operator reserves. Once its stake has been applied too, the
operator's reservation is filled exactly if there is none, or if no more than a hundredth above
what is not reserved for others has been transferred. Otherwise the node is left as it was
entered, with nothing contributed and nothing locked. As it is, it grants no request to unlock and
expires at no height. -/
theorem registration_credited_iff (hfork : HardFork.pulse ≤ block.fork)
    (hvacant : d.registry.info? key = none)
    (hentered : (d.register ctx block index tx).registry.info? key = some info) :
    ∃ stake operator others info' operator',
      Stake.ofTransaction? ctx.suite ctx.rules block.fork tx block.height = some stake ∧
      info.contributors = operator :: others ∧ operator.address = info.operator ∧
      operator.reserved ≤ stake.transferred ∧
      ((d.register ctx block index tx).contribute ctx block index tx).registry.info? key =
        some info' ∧
      info'.contributors = operator' :: others ∧ operator'.address = info.operator ∧
      (operator'.reserved ≤ operator'.amount ↔ operator.reserved = 0 ∨ stake.transferred ≤
        mulDiv (info.stakingRequirement - (others.map (·.reserved)).sum) 101 100) ∧
      (operator'.amount < operator'.reserved →
        info' = info ∧ info.totalContributed = 0 ∧ info.lockedContributions = [] ∧
          (∀ ctx' fork height request, info.grantsUnlock ctx' fork height request = false) ∧
          ∀ rules height, info.hasExpired rules height = false) := by
  have hnode := registeredNode_of_register hvacant hentered
  have hfresh : info.Fresh block.fork := fresh_of_registeredNode hnode
  obtain ⟨stake, hstake, rfl, hone, haddress, henough⟩ :=
    operatorStake_of_registeredNode hfork hnode
  obtain ⟨operator, others, hcontributors, hoperator⟩ := hfresh.exists_operator
  have hmem : operator ∈ info.contributors := hcontributors ▸ List.mem_cons_self
  have hreserved : operator.reserved ≤ stake.transferred :=
    henough operator (by rw [hcontributors]; rfl)
  have hnothing := (hfresh.nothing operator hmem).1
  rw [← hoperator] at haddress
  have hafter := info?_contribute index hstake hentered
  have haccepts : 0 < operator.reserved → (info.acceptsStake block.fork stake = true ↔
      stake.transferred ≤
        mulDiv (info.stakingRequirement - (others.map (·.reserved)).sum) 101 100) := fun hpos =>
    hfresh.acceptsStake_operator_iff hfork hcontributors hpos haddress hone hreserved
  have hzero := Nat.eq_zero_or_pos operator.reserved
  by_cases haccepted : info.acceptsStake block.fork stake = true
  · rw [if_pos haccepted] at hafter
    have hfilled := Contributor.reserved_credit_le_amount hnothing hreserved
      (info.stakingRequirement - info.totalReserved) (stake.lockedAt block.fork)
    refine ⟨stake, operator, others, _, _, hstake, hcontributors, hoperator, hreserved, hafter,
      hfresh.contributors_creditStake hcontributors haddress _ _, hoperator, ?_, fun hless => ?_⟩
    · exact ⟨fun _ => hzero.imp_right fun hpos => (haccepts hpos).1 haccepted, fun _ => hfilled⟩
    · exact absurd hfilled (Nat.not_le_of_lt hless)
  · rw [if_neg haccepted] at hafter
    refine ⟨stake, operator, others, info, operator, hstake, hcontributors, hoperator, hreserved,
      hafter, hcontributors, hoperator, ?_, fun _ =>
        ⟨rfl, hfresh.totalContributed_eq, hfresh.lockedContributions_eq,
          hfresh.grantsUnlock_eq_false, hfresh.hasExpired_eq_false (NodeInfo.infiniteStaking_le_of_pulse hfork)⟩⟩
    rw [hnothing, Nat.le_zero]
    exact ⟨.inl, fun h => hzero.resolve_right fun hpos =>
      h.elim (Nat.ne_of_gt hpos) fun hmost => haccepted ((haccepts hpos).2 hmost)⟩

/-- The registration of a node for which its operator reserves three fifths of the requirement,
and transfers an amount. -/
def sharedRegistrationWith (amount : Nat) : Transaction :=
  { sharedRegistration with outputs := [⟨.writing 1, amount, 0⟩] }

/-- The node of that registration once its stake has been applied. -/
def enrolledWith (amount : Nat) : Option NodeInfo :=
  let ctx : Context := .bare (.new 1)
  let tx := sharedRegistrationWith amount
  let d : Draft := { registry := .new 1 }
  ((d.register ctx (.plain 2 .v19) 0 tx).contribute ctx (.plain 2 .v19) 0 tx).registry.info?
    (.writing 7)

/-- Three fifths of the requirement are credited to the operator who transfers them, and nothing
to one who transfers a coin more, though the node is there to stay. -/
theorem registration_credited_iff_shared :
    (∃ info operator others, enrolledWith (60 * coin) = some info ∧
      info.contributors = operator :: others ∧ operator.reserved ≤ operator.amount) ∧
    ∃ info operator others, enrolledWith (61 * coin) = some info ∧
      info.contributors = operator :: others ∧ operator.amount < operator.reserved ∧
      info.lockedContributions = [] ∧ ∀ rules height, info.hasExpired rules height = false := by
  have hregistered : ∀ amount ∈ [60 * coin, 61 * coin],
      ((Draft.register (.bare (.new 1)) (.plain 2 .v19) 0 (sharedRegistrationWith amount)
        { registry := .new 1 }).registry.info? (.writing 7)).any (fun info =>
          info.contributors.map (·.reserved) = [60 * coin, 40 * coin] ∧
            info.stakingRequirement = 100 * coin) = true := by
    decide +kernel
  have htransferred : ∀ amount ∈ [60 * coin, 61 * coin],
      (Stake.ofTransaction? (Context.bare (.new 1)).suite (Context.bare (.new 1)).rules
        (Block.plain 2 .v19).fork (sharedRegistrationWith amount)
        (Block.plain 2 .v19).height).map (·.transferred) = some amount := by
    decide +kernel
  have hcredited : ∀ amount ∈ [60 * coin, 61 * coin], ∃ info operator others,
      enrolledWith amount = some info ∧ info.contributors = operator :: others ∧
        (operator.reserved ≤ operator.amount ↔ amount ≤ 606 * coin / 10) ∧
        (operator.amount < operator.reserved → info.lockedContributions = [] ∧
          ∀ rules height, info.hasExpired rules height = false) := by
    intro amount hamount
    obtain ⟨info, hinfo, hentry⟩ := (Option.any_eq_true _ _).1 (hregistered amount hamount)
    obtain ⟨hreserved, hrequirement⟩ := of_decide_eq_true hentry
    obtain ⟨stake, operator, others, info', operator', hstake, hcontributors, -, -, hafter,
      hcontributors', -, hiff, hless⟩ := registration_credited_iff (by decide) rfl hinfo
    have hamount := htransferred amount hamount
    rw [hstake, Option.map_some] at hamount
    rw [hcontributors, List.map_cons] at hreserved
    obtain ⟨hoperator, hothers⟩ := List.cons.inj hreserved
    rw [Option.some.inj hamount, hothers, hrequirement, hoperator] at hiff
    refine ⟨info', operator', others, hafter, hcontributors', hiff.trans ?_, fun h => ?_⟩
    · exact ⟨fun h => h.resolve_left (by decide), .inr⟩
    · obtain ⟨rfl, -, hnothing, -, hstays⟩ := hless h
      exact ⟨hnothing, hstays⟩
  obtain ⟨info, operator, others, hinfo, hcontributors, hiff, -⟩ :=
    hcredited (60 * coin) (by decide)
  obtain ⟨info', operator', others', hinfo', hcontributors', hiff', hnothing⟩ :=
    hcredited (61 * coin) (by decide)
  have hless := Nat.lt_of_not_le (mt hiff'.1 (by decide))
  exact ⟨⟨info, operator, others, hinfo, hcontributors, hiff.2 (by decide)⟩,
    info', operator', others', hinfo', hcontributors', hless, hnothing hless⟩

end Draft

end StakeRegistry
