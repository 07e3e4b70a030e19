import StakeRegistry.Proofs.Rewards.Producer

/-!
# Whom the outputs of a miner transaction pay

Before rewards are paid in batches, a miner transaction is counted on to have one output for each
contributor that shares in the reward. The outputs are then checked in order, and a share that
comes to nothing is passed over without taking an output, so that as many outputs as there are
such shares stand behind the last checked one and are read by no rule. Main statements:

* `checkDue_eq_ok_iff`: the walk over the outputs accepts exactly if each payment that is due is
  made by the output at its place;
* `Registry.validateMinerTx_eq_ok_iff`: what an accepted miner transaction is;
* `Registry.payees_paid`: every output pays a share of its own if no share comes to nothing, and
  otherwise those behind the last payment may be anything.
-/

set_option autoImplicit false

namespace StakeRegistry

/-! ## One output for each payment -/

/-- Output `index` of a transaction pays an address an amount, give or take one atomic unit, and
to the key that belongs to this place. -/
def Transaction.Pays (suite : CryptoSuite) (tx : Transaction) (height index : Nat)
    (payment : Address × Nat) : Prop :=
  ∃ output, tx.outputs[index]? = some output ∧
    output.amount ≤ payment.2 + 1 ∧ payment.2 ≤ output.amount + 1 ∧
    payoutKey? suite payment.1 height index = some output.key

section Payments

variable {suite : CryptoSuite} {tx : Transaction} {height : Nat}

theorem checkOutput_eq_ok_iff {index amount : Nat} {address : Address} :
    checkOutput suite tx height index address amount = .ok () ↔
      tx.Pays suite height index (address, amount) := by
  unfold checkOutput Transaction.Pays
  cases tx.outputs[index]? with
  | none => simp
  | some output =>
      dsimp only
      rw [ite_error_eq_ok_iff, ite_error_eq_ok_iff]
      simp [withinOne, and_assoc]

/-- Payments are checked at consecutive outputs. -/
theorem checkDue_eq_ok_iff {due : List (Address × Nat)} {index : Nat} :
    checkDue suite tx height index due = .ok () ↔
      ∀ i payment, due[i]? = some payment → tx.Pays suite height (index + i) payment := by
  induction due generalizing index with
  | nil => simp [checkDue]
  | cons first rest ih =>
      unfold checkDue
      rw [bind_eq_ok_iff]
      constructor
      · rintro ⟨⟨⟩, hfirst, hrest⟩ i payment hi
        cases i with
        | zero =>
            cases hi
            exact checkOutput_eq_ok_iff.1 hfirst
        | succ i =>
            have hpays := ih.1 hrest i payment hi
            rwa [show index + (i + 1) = index + 1 + i by omega]
      · intro h
        refine ⟨(), checkOutput_eq_ok_iff.2 (h 0 first rfl), ih.2 fun i payment hi => ?_⟩
        have hpays := h (i + 1) payment hi
        rwa [show index + (i + 1) = index + 1 + i by omega] at hpays

end Payments

/-! ## The shares of a block -/

/-- What every shareholder of a reward is due, also where that is nothing. -/
def Division.payees (d : Division) : List (Address × Nat) :=
  (d.shares.map (·.address)).zip (splitReward (d.shares.map (·.portions)) d.reward d.whole)

namespace Division

theorem due_eq (d : Division) : d.due = d.payees.filter fun p => p.2 ≠ 0 := rfl

theorem length_payees (d : Division) : d.payees.length = d.shares.length := by
  simp only [payees, splitReward, dealOut, splitDown]
  split <;> simp

/-- Of no reward nobody gets anything, whatever rounding is told to leave over. -/
theorem due_of_reward_zero {shares : List Share} {whole : Bool} :
    (⟨shares, 0, whole⟩ : Division).due = [] := by
  rw [due_eq, List.filter_eq_nil_iff]
  intro payment hpayment
  have hamount := (List.of_mem_zip (hpayment : (payment.1, payment.2) ∈ _)).2
  cases whole with
  | false => simp_all [splitReward, splitDown, mulDiv, clampU64]
  | true =>
      obtain ⟨entry, hentry, heq⟩ := List.mem_map.1 hamount
      have hdown := List.fst_mem_of_mem_zipIdx hentry
      simp_all [splitDown, mulDiv, clampU64]

end Division

/-- The contributors among whom a block's reward is shared out, before there are batches, with
what each of them comes to. Another producer than the leader shares out the fees, if there are
any. -/
def Registry.payees (r : Registry) (block : Block) (reward : BlockReward) :
    Option PublicKey → List (Address × Nat)
  | none => Division.payees ⟨r.leaderShares, reward.parts.nodes, HardFork.pulse ≤ block.fork⟩
  | some producer =>
      if producer = r.leader.key then
        Division.payees ⟨r.leaderShares, reward.parts.leader, true⟩
      else
        (if 0 < reward.parts.minerFee then
            Division.payees ⟨((r.info? producer).map (·.shares)).getD [], reward.parts.minerFee,
              true⟩
          else []) ++
        Division.payees ⟨r.leaderShares, reward.parts.nodes, true⟩

/-- The payees that are due something. -/
def Registry.paid (r : Registry) (block : Block) (reward : BlockReward)
    (producer : Option PublicKey) : List (Address × Nat) :=
  (r.payees block reward producer).filter fun p => p.2 ≠ 0

/-- The outputs before those of the payees: in a miner's block the miner's own, if there is
anything for the miner. -/
def BlockReward.minerOutputs (reward : BlockReward) (producer : Option PublicKey) : Nat :=
  if producer = none ∧ 0 < reward.parts.miner then 1 else 0

/-- The outputs behind those of the payees: that of the governance fund, if it is paid. -/
def governanceOutputs (rules : NetworkRules) (block : Block) : Nat :=
  if paysGovernance rules block.fork block.height then 1 else 0

/-- A block with other outputs in its miner transaction. -/
def Block.paying (block : Block) (outputs : List TxOutput) : Block :=
  { block with minerTx := { block.minerTx with outputs } }

namespace Registry

variable {r : Registry} {rules : NetworkRules} {suite : CryptoSuite} {chain : ChainReader}
  {block : Block} {reward : BlockReward}

/-- The plan of a block counts an output for every payee, and pays those that are due
something. -/
theorem payPlan_eq (rules : NetworkRules) (reward : BlockReward) {producer : Option PublicKey}
    (hbatching : block.fork < HardFork.rewardBatching)
    (hactive : ∀ key ∈ producer, key ∈ r.active.keys) :
    ∃ divisions, r.payPlan rules block reward (payoutMode block.fork r.leader.key producer)
          (producer.getD 0) =
        .ok (.divided (reward.minerOutputs producer) divisions
          (reward.minerOutputs producer + (r.payees block reward producer).length +
            governanceOutputs rules block)) ∧
      divisions.flatMap (·.due) = r.paid block reward producer := by
  have hbridge : ¬ HardFork.bridge ≤ block.fork := fun h =>
    Nat.not_le.2 hbatching (Nat.le_trans (by decide) h)
  have hbatch : ¬ HardFork.rewardBatching ≤ block.fork := Nat.not_le.2 hbatching
  unfold payoutMode
  rw [if_neg hbridge, if_neg hbatch]
  cases producer with
  | none =>
      refine ⟨[⟨r.leaderShares, reward.parts.nodes, HardFork.pulse ≤ block.fork⟩], ?_, ?_⟩
      · simp [payPlan, payees, BlockReward.minerOutputs, governanceOutputs,
          Division.length_payees, Nat.add_assoc]
      · simp [paid, payees, Division.due_eq]
  | some key =>
      obtain ⟨info, hinfo⟩ := exists_info_of_mem_select (hactive key rfl)
      by_cases hleader : key = r.leader.key
      · subst hleader
        refine ⟨[⟨r.leaderShares, reward.parts.leader, true⟩], ?_, ?_⟩
        · simp [hinfo, payPlan, payees, BlockReward.minerOutputs, governanceOutputs,
            Division.length_payees]
        · simp [paid, payees, Division.due_eq]
      · refine ⟨[⟨info.shares, reward.parts.minerFee, true⟩,
          ⟨r.leaderShares, reward.parts.nodes, true⟩], ?_, ?_⟩
        · simp [hleader, hinfo, payPlan, payees, BlockReward.minerOutputs, governanceOutputs,
            Division.length_payees, Nat.add_assoc]
          split <;> simp [Division.length_payees]
        · rcases Nat.eq_zero_or_pos reward.parts.minerFee with hfee | hfee
          · rw [hfee, List.flatMap_cons, Division.due_of_reward_zero]
            simp [paid, payees, hleader, hfee, Division.due_eq]
          · simp [paid, payees, hleader, hinfo, hfee, Division.due_eq]

/-- A miner transaction is accepted exactly if it declares the leader, nothing is for the miner
alone once there is Pulse, there is a producer where one is needed, every payee has an output,
and those that are due something are paid at consecutive outputs. -/
theorem validateMinerTx_eq_ok_iff (hnodes : HardFork.serviceNodes ≤ block.fork)
    (hbatching : block.fork < HardFork.rewardBatching) :
    r.validateMinerTx rules suite chain block reward = .ok () ↔
      block.minerTx.winner?.getD 0 = r.leader.key ∧
        (HardFork.pulse ≤ block.fork → reward.parts.baseMiner = 0) ∧
        ∃ producer, r.producer rules suite chain block = .ok producer ∧
          block.minerTx.outputs.length = reward.minerOutputs producer +
            (r.payees block reward producer).length + governanceOutputs rules block ∧
          ∀ i payment, (r.paid block reward producer)[i]? = some payment →
            block.minerTx.Pays suite block.height (reward.minerOutputs producer + i) payment := by
  unfold validateMinerTx
  rw [if_neg (HardFork.not_lt.2 hnodes)]
  dsimp only
  rw [ite_error_eq_ok_iff, Decidable.not_not, bind_eq_ok_iff]
  refine and_congr_right fun _ => ?_
  rw [← exists_and_left]
  refine exists_congr fun producer => ?_
  rw [← and_left_comm]
  refine and_congr_right fun hproducer => ?_
  obtain ⟨divisions, hplan, hdue⟩ := payPlan_eq rules reward hbatching
    (mem_active_of_producer hproducer)
  rw [hplan]
  simp only [bind, Except.bind, PayPlan.outputs, PayPlan.check, ite_error_eq_ok_iff,
    checkDue_eq_ok_iff, hdue]
  rw [not_and, ← and_assoc, and_comm (a := ¬ _ ≠ _), and_assoc]
  simp only [ne_eq, Decidable.not_not]

/-! ## Every output has a payee -/

/-- **Payees**: an accepted miner transaction has an output for each payee, and pays those that
are due something, in order, from the first output on that is not the miner's own. So each output
up to that of governance pays the share of one payee if every share comes to something. If one
does not, then no rule reads the outputs behind the last payment: with others there the
transaction is accepted as well. -/
theorem payees_paid (hnodes : HardFork.serviceNodes ≤ block.fork)
    (hbatching : block.fork < HardFork.rewardBatching)
    (h : r.validateMinerTx rules suite chain block reward = .ok ()) :
    ∃ producer first, r.producer rules suite chain block = .ok producer ∧
      first = reward.minerOutputs producer ∧
      block.minerTx.outputs.length =
        first + (r.payees block reward producer).length + governanceOutputs rules block ∧
      (∀ i payment, (r.paid block reward producer)[i]? = some payment →
        block.minerTx.Pays suite block.height (first + i) payment) ∧
      ((∀ payment ∈ r.payees block reward producer, payment.2 ≠ 0) →
        ∀ index, first ≤ index →
          index + governanceOutputs rules block < block.minerTx.outputs.length →
          ∃ payment, (r.payees block reward producer)[index - first]? = some payment ∧
            block.minerTx.Pays suite block.height index payment) ∧
      ∀ outputs : List TxOutput, outputs.length = block.minerTx.outputs.length →
        (∀ index, first ≤ index → index < first + (r.paid block reward producer).length →
          outputs[index]? = block.minerTx.outputs[index]?) →
        r.validateMinerTx rules suite chain (block.paying outputs) reward = .ok () := by
  obtain ⟨hwinner, hbase, producer, hproducer, hlength, hpays⟩ :=
    (validateMinerTx_eq_ok_iff hnodes hbatching).1 h
  refine ⟨producer, _, hproducer, rfl, hlength, hpays, fun hsome index hfirst hindex => ?_,
    fun outputs hcount hagree => ?_⟩
  · have hall : r.paid block reward producer = r.payees block reward producer :=
      List.filter_eq_self.2 fun payment hpayment => by simpa using hsome payment hpayment
    have hlt : index - reward.minerOutputs producer < (r.payees block reward producer).length := by
      omega
    have hat := List.getElem?_eq_getElem hlt
    rw [hall] at hpays
    have hpaid := hpays _ _ hat
    rw [Nat.add_sub_cancel' hfirst] at hpaid
    exact ⟨_, hat, hpaid⟩
  · refine (validateMinerTx_eq_ok_iff (show _ ≤ (block.paying outputs).fork from hnodes)
      hbatching).2 ⟨hwinner, hbase, producer, hproducer, hcount.trans hlength,
        fun i payment hi => ?_⟩
    obtain ⟨output, hat, hamount⟩ := hpays i payment hi
    have hlt : i < (r.paid block reward producer).length := (List.getElem?_eq_some_iff.1 hi).1
    exact ⟨output, (hagree _ (Nat.le_add_right _ _) (Nat.add_lt_add_left hlt _)).trans hat,
      hamount⟩

/-- A node whose operator keeps the whole reward, although another contributor has brought a
quarter of the stake. -/
def keptWhole : Registry :=
  let address (n : Nat) : Address := ⟨.writing n, .writing n⟩
  (new 30).put (.writing 1)
    { contributors := [⟨75, 75, address 1, [], 0⟩, ⟨25, 25, address 2, [], 0⟩]
      totalContributed := 100, totalReserved := 100, stakingRequirement := 100
      operator := address 1, operatorPortions := stakingPortions }

/-- A miner's block after it that pays the operator ten units, and has one more output. -/
def payingOperator (second : TxOutput) : Block :=
  { Block.plain 31 .v18 with
    minerTx := { (default : Transaction) with
      extra := [.winner (.writing 1)]
      outputs := [⟨.writing 1, 10, 0⟩, second] } }

/-- Of ten units the other contributor is due nothing, and whatever stands in the output that is
counted for it is accepted. -/
theorem payees_paid_keptWhole :
    keptWhole.validateMinerTx (.of .fakechain) .trusting (.plain .v18)
        (payingOperator default) ⟨⟨0, 0, 10⟩, []⟩ = .ok () ∧
      keptWhole.payees (payingOperator default) ⟨⟨0, 0, 10⟩, []⟩ none =
        [(⟨.writing 1, .writing 1⟩, 10), (⟨.writing 2, .writing 2⟩, 0)] ∧
      ∀ second, keptWhole.validateMinerTx (.of .fakechain) .trusting (.plain .v18)
        (payingOperator second) ⟨⟨0, 0, 10⟩, []⟩ = .ok () := by
  have hpayees : keptWhole.payees (payingOperator default) ⟨⟨0, 0, 10⟩, []⟩ none =
      [(⟨.writing 1, .writing 1⟩, 10), (⟨.writing 2, .writing 2⟩, 0)] := by decide +kernel
  have hvalid : keptWhole.validateMinerTx (.of .fakechain) .trusting (.plain .v18)
      (payingOperator default) ⟨⟨0, 0, 10⟩, []⟩ = .ok () :=
    eq_ok_of_toOption (by decide +kernel)
  refine ⟨hvalid, hpayees, fun second => ?_⟩
  obtain ⟨producer, first, hproducer, hfirst, -, -, -, hfree⟩ :=
    payees_paid (by decide) (by decide) hvalid
  cases hproducer
  have hpaid : (keptWhole.paid (payingOperator default) ⟨⟨0, 0, 10⟩, []⟩ none).length = 1 := by
    rw [paid, hpayees]
    decide
  refine hfree [⟨.writing 1, 10, 0⟩, second] rfl fun index hle hlt => ?_
  have hzero : index = 0 := by
    rw [hpaid, hfirst] at hlt
    exact Nat.lt_one_iff.1 hlt
  rw [hzero]
  rfl

end Registry

end StakeRegistry
