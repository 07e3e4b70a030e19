import StakeRegistry.Proofs.Quorum.Forming
import StakeRegistry.Rewards.MinerTx

/-!
# The payee and the committee agree

The miner transaction of a Pulse block is checked before the block is applied, and the quorum is
formed when it is: both draw it anew, the first for the leader of the reward queue, the second
for the winner that the block declares. The check refuses any other winner, so the draws agree.
Main statements:

* `Registry.producer_cases`: the producer of a block is the worker of a complete quorum, or there
  is none because no node produced the block or no quorum can;
* `Registry.payee_produces`: the producer that an accepted miner transaction was checked for is
  the worker of the quorum that the block leaves behind.
-/

set_option autoImplicit false

namespace StakeRegistry

/-- A sequence of two computations fails exactly if the first does, or the second after it. -/
theorem bind_eq_error_iff {ε α β : Type} {x : Except ε α} {f : α → Except ε β} {e : ε} :
    (x >>= f) = .error e ↔ x = .error e ∨ ∃ a, x = .ok a ∧ f a = .error e := by
  cases x with
  | error e => simp [bind, Except.bind]
  | ok a => simp [bind, Except.bind]

namespace Registry

variable {r : Registry} {rules : NetworkRules} {suite : CryptoSuite} {chain : ChainReader}
  {block : Block}

/-! ## The producer -/

/-- The producer of a block after a registry, as far as there is one. -/
inductive Produces (r : Registry) (rules : NetworkRules) (suite : CryptoSuite)
    (chain : ChainReader) (block : Block) : Except BlockError (Option PublicKey) → Prop where
  | miner (bare : block.hasPulseComponents = false) : Produces r rules suite chain block (.ok none)
  | nobody (pulse : block.hasPulseComponents = true)
      (incomplete :
        (r.quorumProducing rules suite chain block r.leader.key).isCompletePulse = false) :
      Produces r rules suite chain block
        (.error (.insufficientPulseNodes block.hash block.height))
  | worker (producer : PublicKey) (pulse : block.hasPulseComponents = true)
      (complete :
        (r.quorumProducing rules suite chain block r.leader.key).isCompletePulse = true)
      (workers : (r.quorumProducing rules suite chain block r.leader.key).workers = [producer])
      (active : producer ∈ r.active.keys)
      (first : block.pulse.round = 0 → producer = r.leader.key) :
      Produces r rules suite chain block (.ok (some producer))

/-- In round zero the leader produces the block, so no other producer has to be refused. -/
theorem producer_cases (r : Registry) (rules : NetworkRules) (suite : CryptoSuite)
    (chain : ChainReader) (block : Block) :
    Produces r rules suite chain block (r.producer rules suite chain block) := by
  unfold producer
  split
  · rename_i hbare
    exact .miner (by simpa using hbare)
  · rename_i hpulse
    have hpulse : block.hasPulseComponents = true := by simpa using hpulse
    dsimp only
    by_cases hcomplete :
        (r.quorumProducing rules suite chain block r.leader.key).isCompletePulse = true
    · obtain ⟨producer, hworkers, hactive, hfirst⟩ :=
        producer_of_complete hcomplete leader_mem_active
      have hworkers' :
          (r.quorumProducing rules suite chain block r.leader.key).workers = [producer] := hworkers
      rw [hworkers']
      dsimp only [List.head?_cons]
      rw [if_neg (by simp [hcomplete]), if_neg fun h => h.2 (hfirst h.1)]
      exact .worker producer hpulse hcomplete hworkers hactive hfirst
    · rw [Bool.not_eq_true] at hcomplete
      split
      · exact .nobody hpulse hcomplete
      · rw [if_pos (by simp [hcomplete])]
        exact .nobody hpulse hcomplete

/-- A Pulse block whose quorum can be formed has a producer. -/
theorem exists_producer (hpulse : block.hasPulseComponents = true)
    (hcomplete : (r.quorumProducing rules suite chain block r.leader.key).isCompletePulse = true) :
    ∃ producer, r.producer rules suite chain block = .ok (some producer) := by
  have hcases := producer_cases r rules suite chain block
  generalize r.producer rules suite chain block = answer at hcases ⊢
  cases hcases with
  | miner bare =>
      rw [hpulse] at bare
      cases bare
  | nobody pulse incomplete =>
      rw [hcomplete] at incomplete
      cases incomplete
  | worker producer => exact ⟨producer, rfl⟩

end Registry

/-! ## What is refused -/

/-- The errors of a miner transaction that can occur: not those that say that a producer is
unknown or leads no queue, and not those of other checks of a block. -/
def BlockError.OfMinerTx : BlockError → Prop
  | .wrongWinner .. | .insufficientPulseNodes .. | .outputCount .. | .nonZeroMinerReward _
  | .outputIndexOutOfBounds .. | .rewardAmount .. | .rewardKey _ | .batchedPayment ..
  | .batchedTotal .. => True
  | .leaderNotProducer .. | .unknownProducer .. | .missingCheckpointQuorum ..
  | .checkpointRefused .. | .components .. => False

/-- The errors of a miner transaction that do not come from its payments. -/
def BlockError.BeforePayments : BlockError → Prop
  | .wrongWinner .. | .insufficientPulseNodes .. | .outputCount .. | .nonZeroMinerReward _ => True
  | _ => False

/-- The errors over a single output. -/
def BlockError.OfOutput : BlockError → Prop
  | .outputIndexOutOfBounds .. | .rewardAmount .. | .rewardKey _ | .batchedPayment .. => True
  | _ => False

theorem BlockError.BeforePayments.ofMinerTx {e : BlockError} (h : e.BeforePayments) :
    e.OfMinerTx := by
  cases e <;> trivial

theorem BlockError.OfOutput.ofMinerTx {e : BlockError} (h : e.OfOutput) : e.OfMinerTx := by
  cases e <;> trivial

section Payments

variable {suite : CryptoSuite} {tx : Transaction} {height : Nat} {e : BlockError}

/-- A guard that refuses over an output leaves no other error than what follows it. -/
theorem ofOutput_of_guard {p : Prop} [Decidable p] {refusal : BlockError}
    {next : Except BlockError Unit} (h : (if p then .error refusal else next) = .error e)
    (hrefusal : refusal.OfOutput) (hnext : next = .error e → e.OfOutput) : e.OfOutput := by
  split at h
  · cases h
    exact hrefusal
  · exact hnext h

theorem ofOutput_of_checkOutput {index amount : Nat} {address : Address}
    (h : checkOutput suite tx height index address amount = .error e) : e.OfOutput := by
  unfold checkOutput at h
  split at h
  · cases h
    trivial
  · exact ofOutput_of_guard h trivial fun h => ofOutput_of_guard h trivial nofun

theorem ofOutput_of_checkDue {index : Nat} {due : List (Address × Nat)}
    (h : checkDue suite tx height index due = .error e) : e.OfOutput := by
  induction due generalizing index with
  | nil => cases h
  | cons payment due ih =>
      unfold checkDue at h
      rcases bind_eq_error_iff.1 h with hfirst | ⟨_, -, hrest⟩
      · exact ofOutput_of_checkOutput hfirst
      · exact ih hrest

theorem ofOutput_of_checkPayments {index : Nat} {payments : List (TxOutput × BatchPayment)}
    (h : checkPayments suite height index payments = .error e) : e.OfOutput := by
  induction payments generalizing index with
  | nil => cases h
  | cons payment payments ih =>
      unfold checkPayments at h
      rcases bind_eq_error_iff.1 h with hfirst | ⟨_, -, hrest⟩
      · unfold checkPayment at hfirst
        exact ofOutput_of_guard hfirst trivial fun h =>
          ofOutput_of_guard h trivial fun h => ofOutput_of_guard h trivial nofun
      · exact ih hrest

/-- Whatever a plan asks for, it is not paid for a reason of the payments. -/
theorem ofMinerTx_of_check {plan : PayPlan} (h : plan.check suite height tx = .error e) :
    e.OfMinerTx := by
  cases plan with
  | divided first divisions outputs => exact (ofOutput_of_checkDue h).ofMinerTx
  | batched payments =>
      rcases bind_eq_error_iff.1 h with hpayments | ⟨_, -, htotal⟩
      · exact (ofOutput_of_checkPayments hpayments).ofMinerTx
      · dsimp only at htotal
        split at htotal
        · cases htotal
          trivial
        · cases htotal
  | nothing => cases h

end Payments

namespace Registry

/-- What is due can be told for every block without a producer, or with an active one. -/
theorem exists_payPlan {r : Registry} (rules : NetworkRules) (block : Block)
    (reward : BlockReward) (leader : PublicKey) {producer : Option PublicKey}
    (hactive : ∀ key ∈ producer, key ∈ r.active.keys) :
    ∃ plan, r.payPlan rules block reward (payoutMode block.fork leader producer)
      (producer.getD 0) = .ok plan := by
  unfold payoutMode
  split
  · exact ⟨_, rfl⟩
  · split
    · exact ⟨_, rfl⟩
    · cases producer with
      | none => exact ⟨_, rfl⟩
      | some key =>
          obtain ⟨info, hinfo⟩ := exists_info_of_mem_select (hactive key rfl)
          dsimp only
          split
          · unfold payPlan
            dsimp only [Option.getD_some]
            rw [hinfo]
            exact ⟨_, rfl⟩
          · unfold payPlan
            dsimp only [Option.getD_some]
            rw [hinfo]
            exact ⟨_, rfl⟩

/-- A producer that is found is active. -/
theorem mem_active_of_producer {r : Registry} {rules : NetworkRules} {suite : CryptoSuite}
    {chain : ChainReader} {block : Block} {producer : Option PublicKey}
    (h : r.producer rules suite chain block = .ok producer) :
    ∀ key ∈ producer, key ∈ r.active.keys := by
  have hcases := producer_cases r rules suite chain block
  rw [h] at hcases
  cases hcases with
  | miner bare => nofun
  | worker producer pulse complete workers active first =>
      intro key hkey
      cases hkey
      exact active

/-- A miner transaction is refused before its payments are looked at, or over what its plan asks
for, when it has as many outputs as the plan. -/
theorem refused_cases {r : Registry} {rules : NetworkRules} {suite : CryptoSuite}
    {chain : ChainReader} {block : Block} {reward : BlockReward} {e : BlockError}
    (h : r.validateMinerTx rules suite chain block reward = .error e) :
    e.BeforePayments ∨ ∃ plan : PayPlan, block.minerTx.outputs.length = plan.outputs ∧
      plan.check suite block.height block.minerTx = .error e := by
  unfold validateMinerTx at h
  split at h
  · cases h
  · dsimp only at h
    split at h
    · cases h
      exact .inl trivial
    · rcases bind_eq_error_iff.1 h with hproducer | ⟨producer, hproducer, h⟩
      · have hcases := producer_cases r rules suite chain block
        rw [hproducer] at hcases
        cases hcases
        exact .inl trivial
      · obtain ⟨plan, hplan⟩ := exists_payPlan rules block reward r.leader.key
          (mem_active_of_producer hproducer)
        rw [hplan] at h
        dsimp only [bind, Except.bind] at h
        split at h
        · cases h
          exact .inl trivial
        · rename_i hcount
          split at h
          · cases h
            exact .inl trivial
          · exact .inr ⟨plan, Decidable.not_not.1 hcount, h⟩

/-- No miner transaction is refused because its producer is unknown, or is not the leader. -/
theorem ofMinerTx_of_validateMinerTx {r : Registry} {rules : NetworkRules} {suite : CryptoSuite}
    {chain : ChainReader} {block : Block} {reward : BlockReward} {e : BlockError}
    (h : r.validateMinerTx rules suite chain block reward = .error e) : e.OfMinerTx := by
  rcases refused_cases h with hbefore | ⟨plan, -, hcheck⟩
  · exact hbefore.ofMinerTx
  · exact ofMinerTx_of_check hcheck

/-- An accepted miner transaction was checked for the leader of the reward queue, and a producer
if the block is one of Pulse. -/
theorem winner_of_validateMinerTx {r : Registry} {rules : NetworkRules} {suite : CryptoSuite}
    {chain : ChainReader} {block : Block} {reward : BlockReward}
    (hfork : HardFork.serviceNodes ≤ block.fork)
    (h : r.validateMinerTx rules suite chain block reward = .ok ()) :
    block.minerTx.winner?.getD 0 = r.leader.key ∧
      ∃ producer, r.producer rules suite chain block = .ok producer := by
  unfold validateMinerTx at h
  rw [if_neg (HardFork.not_lt.2 hfork)] at h
  dsimp only at h
  split at h
  · cases h
  · rename_i hwinner
    obtain ⟨producer, hproducer, -⟩ := bind_eq_ok_iff.1 h
    exact ⟨Decidable.not_not.1 hwinner, producer, hproducer⟩

/-! ## Before and after the block -/

/-- **Agreement**: no miner transaction is refused over its producer alone. And when that of a
Pulse block which comes next is accepted, from the fork of service nodes on, there is an active
producer, the leader in round zero, and with whatever transactions the block applies it leaves
behind a complete quorum that this producer works for. -/
theorem payee_produces (r : Registry) (rules : NetworkRules) (suite : CryptoSuite)
    (chain : ChainReader) (block : Block) (reward : BlockReward) :
    (∀ round producer, r.validateMinerTx rules suite chain block reward ≠
        .error (.unknownProducer round producer)) ∧
      (∀ leader producer, r.validateMinerTx rules suite chain block reward ≠
        .error (.leaderNotProducer leader producer)) ∧
      (HardFork.serviceNodes ≤ block.fork → block.height = r.height + 1 →
        block.hasPulseComponents = true →
        r.validateMinerTx rules suite chain block reward = .ok () →
        ∃ producer, r.producer rules suite chain block = .ok (some producer) ∧
          producer ∈ r.active.keys ∧ (block.pulse.round = 0 → producer = r.leader.key) ∧
          ∀ (view : HistoryView) (txs : List Transaction), ∃ next outcome q,
            r.apply ⟨rules, suite, chain, view⟩ block txs = .ok (next, outcome) ∧
              next.quorums.pulse = some q ∧ q.isCompletePulse = true ∧ q.workers = [producer]) := by
  refine ⟨fun _ _ h => ofMinerTx_of_validateMinerTx h, fun _ _ h => ofMinerTx_of_validateMinerTx h,
    fun hfork hheight hpulse hvalid => ?_⟩
  obtain ⟨hwinner, computed, hcomputed⟩ := winner_of_validateMinerTx hfork hvalid
  have hcases := producer_cases r rules suite chain block
  rw [hcomputed] at hcases
  cases hcases with
  | miner bare =>
      rw [hpulse] at bare
      cases bare
  | worker producer pulse complete workers active first =>
      refine ⟨producer, hcomputed, active, first, fun view txs => ?_⟩
      obtain ⟨next, outcome, happly, -⟩ :=
        exists_apply_eq_ok ⟨rules, suite, chain, view⟩ txs hheight.symm
      refine ⟨next, outcome, _, happly, (pulse_of_apply_iff happly).2 ⟨?_, complete, ?_⟩, complete,
        workers⟩
      · obtain ⟨-, hpulseFork, -⟩ := exists_draw_of_complete complete
        exact hpulseFork
      · rw [hwinner]

/-- Since the bridge a miner transaction pays nothing: one without outputs is accepted if it
declares the leader, and the block has a producer where it needs one. -/
theorem validateMinerTx_of_bridge {r : Registry} {rules : NetworkRules} {suite : CryptoSuite}
    {chain : ChainReader} {block : Block} {reward : BlockReward} {producer : Option PublicKey}
    (hfork : HardFork.bridge ≤ block.fork) (hwinner : block.minerTx.winner?.getD 0 = r.leader.key)
    (hproducer : r.producer rules suite chain block = .ok producer)
    (houtputs : block.minerTx.outputs = []) (hbase : reward.parts.baseMiner = 0) :
    r.validateMinerTx rules suite chain block reward = .ok () := by
  have hnodes : ¬ block.fork < HardFork.serviceNodes :=
    HardFork.not_lt.2 (Nat.le_trans (by decide) hfork)
  have hmode : payoutMode block.fork r.leader.key producer = .external := if_pos hfork
  unfold validateMinerTx
  dsimp only
  rw [if_neg hnodes, if_neg (not_not_intro hwinner), hproducer]
  simp [bind, Except.bind, hmode, payPlan, houtputs, PayPlan.outputs, hbase, PayPlan.check]

/-- The miner transaction of the next block after the twelve nodes is accepted, and the block
leaves behind a quorum of them. -/
theorem payee_produces_twelve : ∃ producer ∈ twelve.active.keys,
    ∀ (view : HistoryView) (txs : List Transaction), ∃ next outcome q,
      twelve.apply ⟨.of .fakechain, .trusting, .plain .v21, view⟩
          (.declaring 31 .v21 twelve.leader.key) txs = .ok (next, outcome) ∧
        next.quorums.pulse = some q ∧ q.isCompletePulse = true ∧ q.workers = [producer] := by
  have hfork : HardFork.pulse ≤ (Block.declaring 31 .v21 twelve.leader.key).fork := by decide
  obtain ⟨computed, hcomputed⟩ := exists_producer rfl
    (isCompletePulse_twelve hfork (length_pulseEntropy_plain 30 (by simp)))
  obtain ⟨-, -, hagree⟩ := payee_produces twelve (.of .fakechain) .trusting (.plain .v21)
    (.declaring 31 .v21 twelve.leader.key) ⟨⟨0, 0, 0⟩, []⟩
  obtain ⟨producer, -, hactive, -, happly⟩ := hagree (by decide) rfl rfl
    (validateMinerTx_of_bridge (by decide) rfl hcomputed rfl rfl)
  exact ⟨producer, hactive, happly⟩

/-- Before there are service nodes no miner transaction is checked, not even that of a block
with Pulse data, and no Pulse quorum is formed. -/
theorem unchecked_before_serviceNodes :
    (Block.declaring 31 .v8 0).height = twelve.height + 1 ∧
      (Block.declaring 31 .v8 0).hasPulseComponents = true ∧
      twelve.validateMinerTx (.of .fakechain) .trusting (.plain .v8) (.declaring 31 .v8 0)
        ⟨⟨0, 0, 0⟩, []⟩ = .ok () ∧
      ∃ next outcome,
        twelve.apply ⟨.of .fakechain, .trusting, .plain .v8, .of twelve (.new 0)⟩
          (.declaring 31 .v8 0) [] = .ok (next, outcome) ∧ next.quorums.pulse = none := by
  obtain ⟨next, outcome, happly, -⟩ := exists_apply_eq_ok
    ⟨.of .fakechain, .trusting, .plain .v8, .of twelve (.new 0)⟩ []
    (show twelve.height + 1 = (Block.declaring 31 .v8 0).height from rfl)
  refine ⟨rfl, rfl, rfl, next, outcome, happly, ?_⟩
  cases hpulse : next.quorums.pulse with
  | none => rfl
  | some q => exact absurd ((pulse_of_apply_iff happly).1 hpulse).1 (by decide)

end Registry

end StakeRegistry
