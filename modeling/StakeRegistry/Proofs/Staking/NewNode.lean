import StakeRegistry.Proofs.Staking.Curves
import StakeRegistry.Proofs.Transition.Step
import StakeRegistry.Staking.NewNode

/-!
# The books of a new node

What the checks on a registration promise about the entry that it creates. Amounts that fit
add up to the requirement at most; portions add up to a whole at most, and rounding each of
them down loses nothing more (`sum_portionsToAmount_le`). So an entry starts with its books
balanced (`NodeInfo.Balanced`), and one from an ordinary registration with the operator in
front of other, different contributors (`NodeInfo.Ordinary`).
-/

set_option autoImplicit false

namespace StakeRegistry

/-! ## Stakes that fit -/

/-- Amounts that fit add up to the requirement at most. -/
theorem sum_le_of_stakesFit {fork : HardFork} {requirement : Nat} {stakes : List Nat}
    (h : stakesFit fork requirement stakes = true) : stakes.sum ≤ requirement := by
  have hsum := (stakesFit_iff.1 h).2.2.sum_le (Nat.zero_le _)
  rwa [Nat.zero_add] at hsum

/-- Portions that fit add up to a whole at most. -/
theorem sum_le_of_portionsFit {fork : HardFork} {portions : List Nat}
    (h : portionsFit fork portions = true) : portions.sum ≤ stakingPortions := by
  have hsum := (portionsFit_iff.1 h).2.2.sum_le (Nat.zero_le _)
  rwa [Nat.zero_add] at hsum

theorem portionsToAmount_le (portions requirement : Nat) :
    portionsToAmount portions requirement ≤ portions * requirement / stakingPortions :=
  Nat.min_le_left _ _

/-- The amounts of portions add up to no more than the amount of their sum: each is rounded
down. -/
theorem sum_portionsToAmount_le (portions : List Nat) (requirement : Nat) :
    (portions.map (portionsToAmount · requirement)).sum ≤
      portions.sum * requirement / stakingPortions := by
  induction portions with
  | nil => simp
  | cons portion rest ih =>
      have hfirst := portionsToAmount_le portion requirement
      have hadd : portion * requirement / stakingPortions
            + rest.sum * requirement / stakingPortions
          ≤ (portion * requirement + rest.sum * requirement) / stakingPortions :=
        Nat.div_add_div_le_add_div
      -- Rounding each down loses no less than rounding the sum down.
      calc ((portion :: rest).map (portionsToAmount · requirement)).sum
          = portionsToAmount portion requirement
              + (rest.map (portionsToAmount · requirement)).sum := by simp
        _ ≤ portion * requirement / stakingPortions
              + rest.sum * requirement / stakingPortions := Nat.add_le_add hfirst ih
        _ ≤ (portion * requirement + rest.sum * requirement) / stakingPortions := hadd
        _ = (portion :: rest).sum * requirement / stakingPortions := by
            rw [List.sum_cons, Nat.add_mul]

/-! ## Balanced entries -/

namespace NodeInfo

/-- The books of an entry: its totals are the sums over its contributors, nobody has
contributed more than is reserved for them, and no more is reserved than required. -/
structure Balanced (info : NodeInfo) : Prop where
  contributed : info.totalContributed = (info.contributors.map (·.amount)).sum
  reserved : info.totalReserved = (info.contributors.map (·.reserved)).sum
  covered : ∀ c ∈ info.contributors, c.amount ≤ c.reserved
  contributed_le : info.totalContributed ≤ info.totalReserved
  reserved_le : info.totalReserved ≤ info.stakingRequirement

/-- An entry from an ordinary registration: no two contributors share an address, the first
one is the operator, and since infinite staking nobody's amount exceeds their locked
contributions. -/
structure Ordinary (info : NodeInfo) : Prop where
  distinct : (info.contributors.map (·.address)).Nodup
  operatorFirst : (info.contributors.map (·.address)).head? = some info.operator
  locked : HardFork.infiniteStaking ≤ info.registrationFork →
    ∀ c ∈ info.contributors, c.amount ≤ (c.locked.map (·.amount)).sum

/-- What is contributed is at most what is reserved, contributor by contributor. -/
theorem sum_amount_le_sum_reserved {contributors : List Contributor}
    (h : ∀ c ∈ contributors, c.amount ≤ c.reserved) :
    (contributors.map (·.amount)).sum ≤ (contributors.map (·.reserved)).sum := by
  induction contributors with
  | nil => simp
  | cons c rest ih =>
      have hfirst := h c (by simp)
      have hrest := ih fun c' hc' => h c' (by simp [hc'])
      simp only [List.map_cons, List.sum_cons]
      omega

/-- The operator of an ordinary entry is its first contributor and no other. -/
theorem Ordinary.operator_only_first {info : NodeInfo} (h : info.Ordinary) :
    ∃ first rest, info.contributors = first :: rest ∧ first.address = info.operator ∧
      ∀ c ∈ rest, c.address ≠ info.operator := by
  have hfirst := h.operatorFirst
  have hdistinct := h.distinct
  cases hcontributors : info.contributors with
  | nil =>
      rw [hcontributors] at hfirst
      cases hfirst
  | cons first rest =>
      rw [hcontributors] at hfirst hdistinct
      have hoperator : first.address = info.operator := by simpa using hfirst
      refine ⟨first, rest, rfl, hoperator, fun c hc heq => ?_⟩
      rw [List.map_cons, List.nodup_cons] at hdistinct
      exact hdistinct.1 (List.mem_map.2 ⟨c, hc, heq.trans hoperator.symm⟩)

/-- Both entries have the same stakes, on the same terms and in the same layout. -/
structure SameStakes (info info' : NodeInfo) : Prop where
  version : info'.version = info.version
  registrationFork : info'.registrationFork = info.registrationFork
  contributors : info'.contributors = info.contributors
  totalContributed : info'.totalContributed = info.totalContributed
  totalReserved : info'.totalReserved = info.totalReserved
  stakingRequirement : info'.stakingRequirement = info.stakingRequirement
  operator : info'.operator = info.operator

theorem SameStakes.refl (info : NodeInfo) : info.SameStakes info :=
  ⟨rfl, rfl, rfl, rfl, rfl, rfl, rfl⟩

theorem SameStakes.trans {info info' info'' : NodeInfo} (h : info.SameStakes info')
    (h' : info'.SameStakes info'') : info.SameStakes info'' :=
  ⟨h'.version.trans h.version, h'.registrationFork.trans h.registrationFork,
    h'.contributors.trans h.contributors, h'.totalContributed.trans h.totalContributed,
    h'.totalReserved.trans h.totalReserved, h'.stakingRequirement.trans h.stakingRequirement,
    h'.operator.trans h.operator⟩

theorem Balanced.of_sameStakes {info info' : NodeInfo} (h : info.Balanced)
    (hsame : info.SameStakes info') : info'.Balanced := by
  obtain ⟨-, -, hcontributors, hcontributed, hreserved, hrequirement, -⟩ := hsame
  refine ⟨?_, ?_, ?_, ?_, ?_⟩
  · rw [hcontributed, hcontributors]
    exact h.contributed
  · rw [hreserved, hcontributors]
    exact h.reserved
  · rw [hcontributors]
    exact h.covered
  · rw [hcontributed, hreserved]
    exact h.contributed_le
  · rw [hreserved, hrequirement]
    exact h.reserved_le

theorem Ordinary.of_sameStakes {info info' : NodeInfo} (h : info.Ordinary)
    (hsame : info.SameStakes info') : info'.Ordinary := by
  obtain ⟨-, hfork, hcontributors, -, -, -, hoperator⟩ := hsame
  refine ⟨?_, ?_, ?_⟩
  · rw [hcontributors]
    exact h.distinct
  · rw [hcontributors, hoperator]
    exact h.operatorFirst
  · rw [hfork, hcontributors]
    exact h.locked

end NodeInfo

/-! ## Registrations -/

theorem hasRepeats_eq_false_iff {α : Type} [DecidableEq α] {l : List α} :
    hasRepeats l = false ↔ l.Nodup := by
  induction l with
  | nil => exact iff_of_true rfl List.nodup_nil
  | cons a rest ih =>
      rw [hasRepeats, Bool.or_eq_false_iff, decide_eq_false_iff_not, ih, List.nodup_cons]

namespace Registration

/-- What a valid registration has passed: its values are a permitted division. -/
theorem stakesPermitted_of_validate {reg : Registration} {fork : HardFork}
    {rules : NetworkRules} {requirement timestamp : Nat}
    (h : reg.validate fork rules requirement timestamp = .ok ()) :
    ∃ amounts, reg.stakes fork rules = .ok amounts ∧
      reg.stakesPermitted fork requirement amounts = true := by
  unfold validate at h
  obtain ⟨_, -, h⟩ := bind_eq_ok_iff.1 h
  obtain ⟨amounts, hstakes, h⟩ := bind_eq_ok_iff.1 h
  refine ⟨amounts, hstakes, ?_⟩
  split at h
  · cases h
  · split at h
    · cases h
    · rename_i hpermitted
      simpa using hpermitted

/-- Without contributions through the bridge the stakes are the reserved values, and no more than
the fork has slots for. -/
theorem reserved_of_stakes {reg : Registration} {fork : HardFork} {rules : NetworkRules}
    {amounts : List Nat} (hordinary : reg.bridgeContributions = [])
    (h : reg.stakes fork rules = .ok amounts) :
    amounts = reg.reserved.map (·.2) ∧ reg.reserved.length ≤ contributorSlots fork := by
  unfold stakes at h
  simp only [hordinary, if_true] at h
  split at h
  · cases h
  · split at h
    · cases h
    · split at h
      · cases h
      · rename_i hfew
        cases h
        exact ⟨rfl, Nat.le_of_not_lt hfew⟩

/-- The reserved values of a valid ordinary registration stand for the requirement at most. -/
theorem sum_reservedAmount_le {reg : Registration} {fork : HardFork} {rules : NetworkRules}
    {requirement timestamp : Nat} (hordinary : reg.bridgeContributions = [])
    (h : reg.validate fork rules requirement timestamp = .ok ()) :
    (reg.reserved.map fun r => reservedAmount reg requirement r.2).sum ≤ requirement := by
  obtain ⟨amounts, hstakes, hpermitted⟩ := stakesPermitted_of_validate h
  have hamounts := (reserved_of_stakes hordinary hstakes).1
  unfold stakesPermitted at hpermitted
  have hmap : (reg.reserved.map fun r => reservedAmount reg requirement r.2) =
      amounts.map (reservedAmount reg requirement) := by
    rw [hamounts, List.map_map]
    rfl
  rw [hmap]
  -- Values are portions of the requirement or amounts, and each kind has its own bound.
  by_cases hportions : reg.inPortions = true
  · rw [if_pos hportions] at hpermitted
    have hsum := sum_le_of_portionsFit hpermitted
    have hvalue : reservedAmount reg requirement = (portionsToAmount · requirement) := by
      funext value
      simp [reservedAmount, hportions]
    calc (amounts.map (reservedAmount reg requirement)).sum
        = (amounts.map (portionsToAmount · requirement)).sum := by rw [hvalue]
      _ ≤ amounts.sum * requirement / stakingPortions := sum_portionsToAmount_le amounts requirement
      _ ≤ stakingPortions * requirement / stakingPortions :=
          Nat.div_le_div_right (Nat.mul_le_mul_right _ hsum)
      _ = requirement := Nat.mul_div_cancel_left _ (by decide)
  · rw [if_neg hportions] at hpermitted
    have hvalue : reservedAmount reg requirement = id := by
      funext value
      simp [reservedAmount, hportions]
    rw [hvalue, List.map_id]
    exact sum_le_of_stakesFit hpermitted

/-- The contributions of a valid registration through the bridge add up to the requirement at
most. -/
theorem sum_bridgeContributions_le {reg : Registration} {fork : HardFork}
    {rules : NetworkRules} {requirement timestamp : Nat} (hbridge : reg.reserved = [])
    (hamounts : reg.inPortions = false)
    (h : reg.validate fork rules requirement timestamp = .ok ()) :
    (reg.bridgeContributions.map (·.2)).sum ≤ requirement := by
  obtain ⟨amounts, hstakes, hpermitted⟩ := stakesPermitted_of_validate h
  unfold stakes at hstakes
  split at hstakes
  · split at hstakes
    · cases hstakes
    · rw [if_neg (not_not_intro hbridge)] at hstakes
      split at hstakes
      · cases hstakes
      · cases hstakes
        simp only [stakesPermitted, hamounts] at hpermitted
        exact sum_le_of_stakesFit hpermitted
  · cases hstakes

theorem bridgeContributions_of_ofTransaction? {tx : Transaction} {reg : Registration}
    (h : ofTransaction? tx = some reg) : reg.bridgeContributions = [] := by
  unfold ofTransaction? at h
  obtain ⟨terms, -, h⟩ := Option.bind_eq_some_iff.1 h
  split at h
  · cases h
  · obtain ⟨nodeKey, -, h⟩ := Option.bind_eq_some_iff.1 h
    cases h
    rfl

theorem ofBridge?_terms {fork : HardFork} {tx : Transaction} {reg : Registration}
    (h : ofBridge? fork tx = some reg) : reg.reserved = [] ∧ reg.inPortions = false := by
  unfold ofBridge? at h
  obtain ⟨terms, -, h⟩ := Option.bind_eq_some_iff.1 h
  cases h
  exact ⟨rfl, rfl⟩

end Registration

/-! ## New entries -/

section NewEntries

variable {suite : CryptoSuite} {rules : NetworkRules} {place : BlockPlace} {tx : Transaction}
  {key : PublicKey} {info : NodeInfo}

/-- What the entry of an ordinary registration is made of. -/
theorem registeredNode_eq_some
    (h : registeredNode suite rules place tx = .ok (some (key, info))) :
    ∃ reg operator value others,
      Registration.ofTransaction? tx = some reg ∧
      reg.validate place.fork rules rules.stakingRequirement place.timestamp = .ok () ∧
      reg.reserved = (operator, value) :: others ∧
      (reg.reserved.map (·.1)).Nodup ∧
      info = { NodeInfo.registeredAt place rules.stakingRequirement with
        operator := operator
        operatorPortions := feePortions reg
        contributors := reservedContributors reg rules.stakingRequirement
        totalReserved :=
          ((reservedContributors reg rules.stakingRequirement).map (·.reserved)).sum } := by
  unfold registeredNode at h
  split at h
  case h_1 => cases h
  case h_2 reg hreg =>
    dsimp only at h
    obtain ⟨⟨⟩, hvalid, h⟩ := bind_eq_ok_iff.1 h
    obtain ⟨_, -, h⟩ := bind_eq_ok_iff.1 h
    split at h
    case h_1 => cases h
    case h_2 => cases h
    case h_3 stake operator value _ hhead =>
      obtain ⟨_, -, h⟩ := bind_eq_ok_iff.1 h
      split at h
      · cases h
      · rename_i hrepeats
        split at h
        · cases h
        · cases h
          obtain ⟨others, hothers⟩ := List.head?_eq_some_iff.1 hhead
          have hnodup := hasRepeats_eq_false_iff.1 (Bool.eq_false_iff.2 hrepeats)
          exact ⟨reg, operator, value, others, hreg, hvalid, hothers, hnodup, rfl⟩

/-- Nothing has been contributed to a node that is only registered. -/
theorem unfunded_of_registeredNode (hpos : 0 < rules.stakingRequirement)
    (h : registeredNode suite rules place tx = .ok (some (key, info))) :
    info.isFullyFunded = false := by
  obtain ⟨reg, operator, value, others, -, -, -, -, rfl⟩ := registeredNode_eq_some h
  show decide (rules.stakingRequirement ≤ 0) = false
  simpa using Nat.ne_of_gt hpos

/-- The entry of an ordinary registration starts balanced. -/
theorem balanced_of_registeredNode
    (h : registeredNode suite rules place tx = .ok (some (key, info))) : info.Balanced := by
  obtain ⟨reg, operator, value, others, hreg, hvalid, hreserved, hnodup, rfl⟩ :=
    registeredNode_eq_some h
  have hlimit := Registration.sum_reservedAmount_le
    (Registration.bridgeContributions_of_ofTransaction? hreg) hvalid
  -- Nothing is contributed yet: the stakes of the transaction are credited afterwards.
  have hamount : ∀ c ∈ reservedContributors reg rules.stakingRequirement, c.amount = 0 := by
    intro c hc
    obtain ⟨r, -, rfl⟩ := List.mem_map.1 hc
    rfl
  have hzero : ((reservedContributors reg rules.stakingRequirement).map (·.amount)).sum = 0 := by
    rw [reservedContributors, List.map_map]
    show (reg.reserved.map (Function.const _ 0)).sum = 0
    rw [List.map_const, List.sum_replicate_nat, Nat.mul_zero]
  refine ⟨hzero.symm, rfl, fun c hc => ?_, Nat.zero_le _, ?_⟩
  · rw [hamount c hc]
    exact Nat.zero_le _
  · show ((reservedContributors reg rules.stakingRequirement).map (·.reserved)).sum
      ≤ rules.stakingRequirement
    rw [reservedContributors, List.map_map]
    exact hlimit

/-- The entry of an ordinary registration is ordinary. -/
theorem ordinary_of_registeredNode
    (h : registeredNode suite rules place tx = .ok (some (key, info))) : info.Ordinary := by
  obtain ⟨reg, operator, value, others, hreg, hvalid, hreserved, hnodup, rfl⟩ :=
    registeredNode_eq_some h
  have haddresses : (reservedContributors reg rules.stakingRequirement).map (·.address)
      = reg.reserved.map (·.1) := by
    rw [reservedContributors, List.map_map]
    rfl
  refine ⟨haddresses ▸ hnodup, ?_, fun _ c hc => ?_⟩
  · show ((reservedContributors reg rules.stakingRequirement).map (·.address)).head? = some operator
    rw [haddresses, hreserved]
    rfl
  · obtain ⟨r, -, rfl⟩ := List.mem_map.1 hc
    exact Nat.zero_le _

/-- The entry of an ordinary registration is in the current layout, and at the block's fork. -/
theorem layout_of_registeredNode
    (h : registeredNode suite rules place tx = .ok (some (key, info))) :
    info.version = InfoVersion.current ∧ info.registrationFork = place.fork := by
  obtain ⟨reg, operator, value, others, hreg, hvalid, hreserved, hnodup, rfl⟩ :=
    registeredNode_eq_some h
  exact ⟨rfl, rfl⟩

/-- The entry of a registration through the bridge. -/
def bridgeEntry (place : BlockPlace) (requirement : Nat) (operator : EthAddress)
    (reg : Registration) : NodeInfo :=
  { NodeInfo.registeredAt place requirement with
    ethOperator := operator
    blsKey := reg.blsKey
    operatorPortions := requirement
    activeSince := toI64 place.height
    contributors := reg.bridgeContributions.map fun (address, amount) =>
      ⟨amount, amount, Address.null, [], address⟩
    totalReserved := (reg.bridgeContributions.map (·.2)).sum
    totalContributed := (reg.bridgeContributions.map (·.2)).sum }

/-- A registration through the bridge is accepted exactly if it passes the checks, the node has
signed it, and its contributors are different; the first of them is the operator. -/
theorem bridgedNode_eq_ok_iff :
    bridgedNode suite rules place tx = .ok (key, info) ↔
      ∃ reg operator amount others,
        Registration.ofBridge? place.fork tx = some reg ∧
        reg.validate place.fork rules rules.stakingRequirement place.timestamp = .ok () ∧
        reg.validateSignature suite = .ok () ∧
        reg.bridgeContributions = (operator, amount) :: others ∧
        (reg.bridgeContributions.map (·.1)).Nodup ∧ key = reg.nodeKey ∧
        info = bridgeEntry place rules.stakingRequirement operator reg := by
  unfold bridgedNode
  constructor
  · intro h
    split at h
    case h_1 => cases h
    case h_2 reg hreg =>
      dsimp only at h
      obtain ⟨⟨⟩, hvalid, h⟩ := bind_eq_ok_iff.1 h
      obtain ⟨⟨⟩, hsigned, h⟩ := bind_eq_ok_iff.1 h
      split at h
      case h_1 => cases h
      case h_2 operator amount hhead =>
        obtain ⟨others, hothers⟩ := List.head?_eq_some_iff.1 hhead
        split at h
        · cases h
        · rename_i hrepeats
          cases h
          exact ⟨reg, operator, amount, others, hreg, hvalid, hsigned, hothers,
            hasRepeats_eq_false_iff.1 (Bool.eq_false_iff.2 hrepeats), rfl, rfl⟩
  · rintro ⟨reg, operator, amount, others, hreg, hvalid, hsigned, hothers, hdistinct, rfl, rfl⟩
    have hhead : reg.bridgeContributions.head? = some (operator, amount) := by
      rw [hothers, List.head?_cons]
    have hrepeats : ¬ hasRepeats (reg.bridgeContributions.map (·.1)) = true :=
      Bool.eq_false_iff.1 (hasRepeats_eq_false_iff.2 hdistinct)
    rw [hreg]
    dsimp only
    rw [hvalid, hsigned, hhead]
    exact if_neg hrepeats

/-- What the entry of a registration through the bridge is made of. -/
theorem bridgedNode_eq_ok (h : bridgedNode suite rules place tx = .ok (key, info)) :
    ∃ reg operator,
      Registration.ofBridge? place.fork tx = some reg ∧
      reg.validate place.fork rules rules.stakingRequirement place.timestamp = .ok () ∧
      info = bridgeEntry place rules.stakingRequirement operator reg := by
  obtain ⟨reg, operator, -, -, hreg, hvalid, -, -, -, -, hinfo⟩ := bridgedNode_eq_ok_iff.1 h
  exact ⟨reg, operator, hreg, hvalid, hinfo⟩

/-- The entry of a registration through the bridge starts balanced: what is contributed is
what is reserved. -/
theorem balanced_of_bridgedNode (h : bridgedNode suite rules place tx = .ok (key, info)) :
    info.Balanced := by
  obtain ⟨reg, operator, hreg, hvalid, rfl⟩ := bridgedNode_eq_ok h
  obtain ⟨hnone, hamounts⟩ := Registration.ofBridge?_terms hreg
  have hlimit := Registration.sum_bridgeContributions_le hnone hamounts hvalid
  refine ⟨?_, ?_, fun c hc => ?_, Nat.le_refl _, hlimit⟩
  · simp [bridgeEntry, List.map_map, Function.comp_def]
  · simp [bridgeEntry, List.map_map, Function.comp_def]
  · obtain ⟨r, -, rfl⟩ := List.mem_map.1 hc
    exact Nat.le_refl _

/-- The entry of a registration through the bridge is in the current layout, and at the block's
fork. -/
theorem layout_of_bridgedNode (h : bridgedNode suite rules place tx = .ok (key, info)) :
    info.version = InfoVersion.current ∧ info.registrationFork = place.fork := by
  obtain ⟨reg, operator, hreg, hvalid, rfl⟩ := bridgedNode_eq_ok h
  exact ⟨rfl, rfl⟩

/-- Before the bridge no registration comes through it: there are no amounts of other terms that
it could bring. -/
theorem bridge_le_of_bridgedNode (h : bridgedNode suite rules place tx = .ok (key, info)) :
    HardFork.bridge ≤ place.fork := by
  obtain ⟨reg, operator, hreg, hvalid, -⟩ := bridgedNode_eq_ok h
  obtain ⟨hnone, -⟩ := Registration.ofBridge?_terms hreg
  obtain ⟨amounts, hstakes, -⟩ := Registration.stakesPermitted_of_validate hvalid
  unfold Registration.stakes at hstakes
  simp only [hnone, if_true] at hstakes
  split at hstakes
  · rename_i hneeds
    unfold Registration.needsBridge at hneeds
    exact of_decide_eq_true (Bool.and_eq_true_iff.1 hneeds).1
  · cases hstakes

end NewEntries

end StakeRegistry
