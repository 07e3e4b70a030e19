import StakeRegistry.Proofs.Rewards.Payees

/-!
# Batched payouts

While rewards are paid in batches, a miner transaction pays each payment of the batch by the output
at its place. Outputs and payments are counted before they are compared pair by pair, so that no
pair is cut off, and pairs that agree one by one leave no difference for the totals to show. Main
statements:

* `checkBatch_eq`: the comparison of the totals refuses nothing more;
* `Registry.batched_exactly`: which miner transactions are accepted.
-/

set_option autoImplicit false

namespace StakeRegistry

/-- An output settles a batched payment: it pays the whole amount, which is given in thousandths,
to the key that belongs to the recipient at this place. -/
def TxOutput.Settles (suite : CryptoSuite) (height index : Nat) (output : TxOutput)
    (payment : BatchPayment) : Prop :=
  output.amount * batchFactor = payment.amount ∧
    payoutKey? suite payment.address height index = some output.key

section Pairs

variable {suite : CryptoSuite} {height index : Nat} {pairs : List (TxOutput × BatchPayment)}

/-- An amount that settles a payment is never too large, as thousandfold it is still a word. -/
theorem checkPayment_eq_ok_iff {output : TxOutput} {payment : BatchPayment}
    (hword : payment.amount ≤ maxU64) :
    checkPayment suite height index output payment = .ok () ↔
      output.Settles suite height index payment := by
  unfold checkPayment TxOutput.Settles
  rw [ite_error_eq_ok_iff, ite_error_eq_ok_iff, ite_error_eq_ok_iff]
  simp only [ne_eq, Decidable.not_not, and_true]
  refine and_iff_right_of_imp fun ⟨hamount, _⟩ => Nat.not_lt.2 ?_
  rw [Nat.le_div_iff_mul_le (by decide), hamount]
  exact hword

/-- Pairs are compared at consecutive places. -/
theorem checkPayments_eq_ok_iff (hwords : ∀ pair ∈ pairs, pair.2.amount ≤ maxU64) :
    checkPayments suite height index pairs = .ok () ↔
      ∀ i (output : TxOutput) payment, pairs[i]? = some (output, payment) →
        output.Settles suite height (index + i) payment := by
  induction pairs generalizing index with
  | nil => simp [checkPayments]
  | cons first rest ih =>
      have hfirst : checkPayment suite height index first.1 first.2 = .ok () ↔
          first.1.Settles suite height index first.2 :=
        checkPayment_eq_ok_iff (hwords first List.mem_cons_self)
      have hrest := @ih (index + 1) fun pair hpair =>
        hwords pair (List.mem_cons_of_mem first hpair)
      unfold checkPayments
      rw [bind_eq_ok_iff]
      constructor
      · rintro ⟨⟨⟩, hpaid, hothers⟩ i output payment hi
        cases i with
        | zero =>
            cases hi
            exact hfirst.1 hpaid
        | succ i =>
            rw [show index + (i + 1) = index + 1 + i by omega]
            exact hrest.1 hothers i output payment hi
      · intro h
        refine ⟨(), hfirst.2 (h 0 first.1 first.2 rfl), hrest.2 fun i output payment hi => ?_⟩
        rw [show index + 1 + i = index + (i + 1) by omega]
        exact h (i + 1) output payment hi

/-- In pairs that pass, what is paid is what is due, pair by pair. -/
theorem map_paid_eq_map_due (h : checkPayments suite height index pairs = .ok ()) :
    pairs.map (fun p => p.1.amount * batchFactor) = pairs.map fun p => p.2.amount := by
  induction pairs generalizing index with
  | nil => rfl
  | cons first rest ih =>
      unfold checkPayments at h
      obtain ⟨⟨⟩, hfirst, hrest⟩ := bind_eq_ok_iff.1 h
      unfold checkPayment at hfirst
      rw [ite_error_eq_ok_iff, ite_error_eq_ok_iff] at hfirst
      rw [List.map_cons, List.map_cons, ih hrest, Decidable.not_not.1 hfirst.2.1]

end Pairs

/-! ## The totals -/

section Totals

variable {suite : CryptoSuite} {height : Nat} {outputs : List TxOutput}
  {payments : List BatchPayment}

/-- With an output for each payment, the totals agree once the pairs do. -/
theorem checkBatch_eq (hcount : outputs.length = payments.length) :
    checkBatch suite height outputs payments =
      checkPayments suite height 0 (outputs.zip payments) := by
  unfold checkBatch
  cases hpairs : checkPayments suite height 0 (outputs.zip payments) with
  | error e => rfl
  | ok checked =>
      have hdue : (outputs.zip payments).map (fun p => p.2.amount) = payments.map (·.amount) := by
        calc (outputs.zip payments).map (fun p => p.2.amount)
            = ((outputs.zip payments).map Prod.snd).map (·.amount) := List.map_map.symm
          _ = payments.map (·.amount) := by rw [List.map_snd_zip (Nat.le_of_eq hcount.symm)]
      have htotals : satSum ((outputs.zip payments).map fun p => p.1.amount * batchFactor) =
          satSum (payments.map (·.amount)) := by
        rw [map_paid_eq_map_due hpairs, hdue]
      exact if_neg (not_not_intro htotals)

variable {due paid : Nat}

/-- Whatever a plan asks for, outputs of the right number are not refused over a total. -/
theorem check_ne_batchedTotal {plan : PayPlan} {tx : Transaction}
    (hcount : tx.outputs.length = plan.outputs) :
    plan.check suite height tx ≠ .error (.batchedTotal due paid) := by
  cases plan with
  | divided first divisions count => exact fun h => ofOutput_of_checkDue h
  | batched payments =>
      have hpairs : PayPlan.check suite height tx (.batched payments) =
          checkPayments suite height 0 (tx.outputs.zip payments) := checkBatch_eq hcount
      rw [hpairs]
      exact fun h => ofOutput_of_checkPayments h
  | nothing => nofun

end Totals

/-! ## Miner transactions -/

namespace Registry

variable {r : Registry} {rules : NetworkRules} {suite : CryptoSuite} {chain : ChainReader}
  {block : Block} {reward : BlockReward}

/-- While rewards are batched, a miner transaction is accepted exactly if it declares the leader,
nothing is for the miner alone, there is a producer where one is needed, and every payment has an
output and passes against it. -/
theorem validateMinerTx_eq_ok_iff_of_batching (hbatching : HardFork.rewardBatching ≤ block.fork)
    (hbridge : block.fork < HardFork.bridge) :
    r.validateMinerTx rules suite chain block reward = .ok () ↔
      block.minerTx.winner?.getD 0 = r.leader.key ∧ reward.parts.baseMiner = 0 ∧
        (∃ producer, r.producer rules suite chain block = .ok producer) ∧
        block.minerTx.outputs.length = reward.batched.length ∧
        checkPayments suite block.height 0 (block.minerTx.outputs.zip reward.batched) = .ok () := by
  have hnodes : ¬ block.fork < HardFork.serviceNodes :=
    HardFork.not_lt.2 (Nat.le_trans (by decide) hbatching)
  have hpulse : HardFork.pulse ≤ block.fork := Nat.le_trans (by decide) hbatching
  have hpaying : ¬ HardFork.bridge ≤ block.fork := Nat.not_le.2 hbridge
  have hmode (producer : Option PublicKey) :
      payoutMode block.fork r.leader.key producer = .batched := by
    unfold payoutMode
    rw [if_neg hpaying, if_pos hbatching]
  unfold validateMinerTx
  rw [if_neg hnodes]
  dsimp only
  rw [ite_error_eq_ok_iff, Decidable.not_not, bind_eq_ok_iff]
  refine and_congr_right fun _ => ?_
  simp only [hmode, payPlan, bind, Except.bind, PayPlan.outputs, PayPlan.check,
    ite_error_eq_ok_iff, hpulse, true_and, ne_eq, Decidable.not_not, exists_and_right]
  constructor
  · rintro ⟨hproducer, hcount, hbase, hbatch⟩
    rw [checkBatch_eq hcount] at hbatch
    exact ⟨hbase, hproducer, hcount, hbatch⟩
  · rintro ⟨hbase, hproducer, hcount, hpairs⟩
    rw [checkBatch_eq hcount]
    exact ⟨hproducer, hcount, hbase, hpairs⟩

theorem validateMinerTx_ne_batchedTotal (r : Registry) (rules : NetworkRules) (suite : CryptoSuite)
    (chain : ChainReader) (block : Block) (reward : BlockReward) (due paid : Nat) :
    r.validateMinerTx rules suite chain block reward ≠ .error (.batchedTotal due paid) := by
  intro h
  rcases refused_cases h with hbefore | ⟨plan, hcount, hcheck⟩
  · exact hbefore
  · exact check_ne_batchedTotal hcount hcheck

/-- **Batches**: of a miner's block that declares the leader, and that comes while rewards are
batched, with nothing for the miner alone, the miner transaction is accepted exactly if it has one
output for each payment and every output settles the payment at its place. And no miner transaction
at all is refused because the payments of a batch differ in total only. -/
theorem batched_exactly :
    (∀ {r : Registry} {rules : NetworkRules} {suite : CryptoSuite} {chain : ChainReader}
        {block : Block} {reward : BlockReward},
      HardFork.rewardBatching ≤ block.fork → block.fork < HardFork.bridge →
      block.hasPulseComponents = false → block.minerTx.winner?.getD 0 = r.leader.key →
      reward.parts.baseMiner = 0 → (∀ payment ∈ reward.batched, payment.amount ≤ maxU64) →
      (r.validateMinerTx rules suite chain block reward = .ok () ↔
        block.minerTx.outputs.length = reward.batched.length ∧
          ∀ i (output : TxOutput) payment, block.minerTx.outputs[i]? = some output →
            reward.batched[i]? = some payment →
            output.Settles suite block.height i payment)) ∧
    ∀ (r : Registry) (rules : NetworkRules) (suite : CryptoSuite) (chain : ChainReader)
      (block : Block) (reward : BlockReward) (due paid : Nat),
      r.validateMinerTx rules suite chain block reward ≠ .error (.batchedTotal due paid) := by
  refine ⟨fun {r rules suite chain block reward} hbatching hbridge hbare hwinner hbase hwords => ?_,
    validateMinerTx_ne_batchedTotal⟩
  have hproducer : r.producer rules suite chain block = .ok none := by
    unfold producer
    rw [hbare]
    rfl
  have hpairs : ∀ pair ∈ block.minerTx.outputs.zip reward.batched, pair.2.amount ≤ maxU64 :=
    fun pair hpair => hwords pair.2 (List.of_mem_zip hpair).2
  rw [validateMinerTx_eq_ok_iff_of_batching hbatching hbridge, checkPayments_eq_ok_iff hpairs]
  simp only [hwinner, hbase, hproducer, List.getElem?_zip_eq_some, Nat.zero_add, and_imp, true_and,
    Except.ok.injEq, exists_eq']

/-- A block that pays two batched payments, the second one by some amount. -/
def payingBatch (second : Nat) : Block :=
  { Block.plain 31 .v19 with
    minerTx := { (default : Transaction) with
      extra := [.winner (.writing 1)]
      outputs := [⟨.writing 1, 2000, 0⟩, ⟨.writing 2, second, 0⟩] } }

/-- Of two payments the second one is paid by three thousand units, no more and no less. -/
theorem batched_exactly_two : ∀ second,
    keptWhole.validateMinerTx (.of .fakechain) .trusting (.plain .v19) (payingBatch second)
        ⟨⟨0, 0, 0⟩, [⟨⟨.writing 1, .writing 1⟩, 2000000⟩, ⟨⟨.writing 2, .writing 2⟩, 3000000⟩]⟩ =
      .ok () ↔ second = 3000 := by
  intro second
  have hleader : keptWhole.leader.key = .writing 1 := by decide +kernel
  have hfrom : HardFork.rewardBatching ≤ (payingBatch second).fork :=
    show HardFork.rewardBatching ≤ HardFork.v19 by decide
  have huntil : (payingBatch second).fork < HardFork.bridge :=
    show HardFork.v19 < HardFork.bridge by decide
  have hwinner : (payingBatch second).minerTx.winner?.getD 0 = keptWhole.leader.key := hleader.symm
  refine (batched_exactly.1 hfrom huntil rfl hwinner rfl (by decide)).trans ?_
  constructor
  · rintro ⟨-, hsettles⟩
    have hamount := (hsettles 1 _ _ rfl rfl).1
    unfold batchFactor at hamount
    dsimp only at hamount
    omega
  · rintro rfl
    refine ⟨rfl, fun i output payment houtput hpayment => ?_⟩
    match i with
    | 0 =>
        cases houtput
        cases hpayment
        exact ⟨rfl, by decide +kernel⟩
    | 1 =>
        cases houtput
        cases hpayment
        exact ⟨rfl, by decide +kernel⟩

end Registry

end StakeRegistry
