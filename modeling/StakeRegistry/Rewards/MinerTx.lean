import StakeRegistry.Error
import StakeRegistry.Quorum.Pulse
import StakeRegistry.Rewards.Shares

/-!
# Miner transactions

What the miner transaction of a block has to pay, and whether it does. Before rewards were
paid in batches the leader's contributors are paid, and by a Pulse block also those of its
producer, if it is not the leader; a miner's block pays the miner first, and what the miner
takes is not checked, as it absorbs rounding. Batched payments are paid one output each. Later
nothing is paid.
-/

set_option autoImplicit false

namespace StakeRegistry

/-- The parts of a block's reward, as the chain has computed them. -/
structure RewardParts where
  baseMiner : Nat
  minerFee : Nat
  /-- The part of the service nodes. -/
  nodes : Nat
  deriving DecidableEq, Inhabited

namespace RewardParts

/-- What a miner gets who produces the block. -/
def miner (parts : RewardParts) : Nat := wrapAdd parts.baseMiner parts.minerFee

/-- What the contributors of the leader share if the leader produces the block. -/
def leader (parts : RewardParts) : Nat := wrapAdd parts.nodes parts.minerFee

end RewardParts

/-- A reward due to an address, in thousandths of an atomic unit. -/
structure BatchPayment where
  address : Address
  amount : Nat
  deriving DecidableEq, Inhabited

/-- Thousandths in an atomic unit. -/
def batchFactor : Nat := 1000

/-- The reward that a block claims. -/
structure BlockReward where
  parts : RewardParts
  batched : List BatchPayment
  deriving DecidableEq, Inhabited

/-! ## What is due -/

/-- A reward divided by shares. -/
structure Division where
  shares : List Share
  reward : Nat
  /-- Whether what rounding leaves over is paid as well. -/
  whole : Bool
  deriving DecidableEq

/-- Who is due how much, where that is anything. -/
def Division.due (d : Division) : List (Address × Nat) :=
  ((d.shares.map (·.address)).zip
    (splitReward (d.shares.map (·.portions)) d.reward d.whole)).filter fun p => p.2 ≠ 0

/-- What a miner transaction has to pay. -/
inductive PayPlan where
  /-- Divided rewards, paid from output `first` on, in a transaction with `outputs` outputs. -/
  | divided (first : Nat) (divisions : List Division) (outputs : Nat)
  | batched (payments : List BatchPayment)
  | nothing
  deriving DecidableEq

/-- The outputs that a plan asks for. -/
def PayPlan.outputs : PayPlan → Nat
  | .divided _ _ outputs => outputs
  | .batched payments => payments.length
  | .nothing => 0

/-- The shares in the reward of a block's leader; none without a leader. -/
def Registry.leaderShares (r : Registry) : List Share :=
  match r.info? r.leader.key with
  | some info => info.shares
  | none => []

/-- The producer of a Pulse block after a registry; none for a miner's block. In the first
round that is the leader. -/
def Registry.producer (r : Registry) (rules : NetworkRules) (suite : CryptoSuite)
    (chain : ChainReader) (block : Block) : Except BlockError (Option PublicKey) :=
  if !block.hasPulseComponents then .ok none
  else
    let leader := r.leader.key
    let quorum := r.quorumProducing rules suite chain block leader
    match quorum.workers.head? with
    | none => .error (.insufficientPulseNodes block.hash block.height)
    | some producer =>
        if !quorum.isCompletePulse then
          .error (.insufficientPulseNodes block.hash block.height)
        else if block.pulse.round = 0 ∧ producer ≠ leader then
          .error (.leaderNotProducer leader producer)
        else .ok (some producer)

/-- How a block pays, given its producer if it is a Pulse block. -/
def payoutMode (fork : HardFork) (leader : PublicKey) (producer : Option PublicKey) :
    PayoutMode :=
  if HardFork.bridge ≤ fork then .external
  else if HardFork.rewardBatching ≤ fork then .batched
  else match producer with
    | none => .miner
    | some key => if key = leader then .pulseLeader else .pulseOther

/-- What the miner transaction of a block after a registry has to pay. -/
def Registry.payPlan (r : Registry) (rules : NetworkRules) (block : Block)
    (reward : BlockReward) (mode : PayoutMode) (producer : PublicKey) :
    Except BlockError PayPlan :=
  let parts := reward.parts
  let leader := r.leaderShares
  let fixed := leader.length + if paysGovernance rules block.fork block.height then 1 else 0
  match mode with
  | .external => .ok .nothing
  | .batched => .ok (.batched reward.batched)
  | .miner =>
      -- The miner's own output comes first, if there is anything for the miner.
      let first := if 0 < parts.miner then 1 else 0
      .ok (.divided first [⟨leader, parts.nodes, decide (HardFork.pulse ≤ block.fork)⟩]
        (first + fixed))
  | .pulseLeader =>
      match r.info? producer with
      | none => .error (.unknownProducer block.pulse.round producer)
      | some _ => .ok (.divided 0 [⟨leader, parts.leader, true⟩] fixed)
  | .pulseOther =>
      match r.info? producer with
      | none => .error (.unknownProducer block.pulse.round producer)
      | some info =>
          -- Without fees the producer gets nothing, and its contributors have no outputs.
          let paid := if 0 < parts.minerFee then info.shares.length else 0
          .ok (.divided 0 [⟨info.shares, parts.minerFee, true⟩, ⟨leader, parts.nodes, true⟩]
            (paid + fixed))

/-! ## What is paid -/

/-- Checks that output `index` pays an address an amount, give or take one atomic unit. -/
def checkOutput (suite : CryptoSuite) (tx : Transaction) (height index : Nat)
    (address : Address) (amount : Nat) : Except BlockError Unit :=
  match tx.outputs[index]? with
  | none => .error (.outputIndexOutOfBounds index tx.outputs.length)
  | some output =>
      if !withinOne output.amount amount then .error (.rewardAmount amount output.amount)
      else if payoutKey? suite address height index ≠ some output.key then
        .error (.rewardKey index)
      else .ok ()

/-- Checks that the outputs from `index` on pay what is due, in order. -/
def checkDue (suite : CryptoSuite) (tx : Transaction) (height : Nat) :
    Nat → List (Address × Nat) → Except BlockError Unit
  | _, [] => .ok ()
  | index, (address, amount) :: rest => do
      checkOutput suite tx height index address amount
      checkDue suite tx height (index + 1) rest

/-- Checks that output `index` pays a batched payment exactly. -/
def checkPayment (suite : CryptoSuite) (height index : Nat) (output : TxOutput)
    (payment : BatchPayment) : Except BlockError Unit :=
  if maxU64 / batchFactor < output.amount then .error (.batchedPayment index .tooLarge)
  else if output.amount * batchFactor ≠ payment.amount then
    .error (.batchedPayment index (.wrongAmount payment.amount (output.amount * batchFactor)))
  else if payoutKey? suite payment.address height index ≠ some output.key then
    .error (.batchedPayment index .wrongRecipient)
  else .ok ()

/-- Checks outputs from `index` on against the payments that they are for. -/
def checkPayments (suite : CryptoSuite) (height : Nat) :
    Nat → List (TxOutput × BatchPayment) → Except BlockError Unit
  | _, [] => .ok ()
  | index, (output, payment) :: rest => do
      checkPayment suite height index output payment
      checkPayments suite height (index + 1) rest

/-- Checks that outputs pay batched payments, one each, and in all what is due. -/
def checkBatch (suite : CryptoSuite) (height : Nat) (outputs : List TxOutput)
    (payments : List BatchPayment) : Except BlockError Unit := do
  checkPayments suite height 0 (outputs.zip payments)
  let paid := satSum ((outputs.zip payments).map fun p => p.1.amount * batchFactor)
  let due := satSum (payments.map (·.amount))
  if paid ≠ due then .error (.batchedTotal due paid) else .ok ()

/-- Checks that a miner transaction pays what a plan asks for. -/
def PayPlan.check (suite : CryptoSuite) (height : Nat) (tx : Transaction) :
    PayPlan → Except BlockError Unit
  | .divided first divisions _ =>
      checkDue suite tx height first (divisions.flatMap (·.due))
  | .batched payments => checkBatch suite height tx.outputs payments
  | .nothing => .ok ()

/-- Checks the winner that a block declares and the payments of its miner transaction against
the registry before the block. -/
def Registry.validateMinerTx (r : Registry) (rules : NetworkRules) (suite : CryptoSuite)
    (chain : ChainReader) (block : Block) (reward : BlockReward) : Except BlockError Unit :=
  if block.fork < HardFork.serviceNodes then .ok ()
  else
    let tx := block.minerTx
    let leader := r.leader.key
    let winner := tx.winner?.getD 0
    if winner ≠ leader then .error (.wrongWinner leader block.height block.fork winner)
    else do
      let producer ← r.producer rules suite chain block
      let mode := payoutMode block.fork leader producer
      let plan ← r.payPlan rules block reward mode (producer.getD 0)
      if tx.outputs.length ≠ plan.outputs then
        .error (.outputCount mode plan.outputs tx.outputs.length)
      else if HardFork.pulse ≤ block.fork ∧ reward.parts.baseMiner ≠ 0 then
        .error (.nonZeroMinerReward reward.parts.baseMiner)
      else plan.check suite block.height tx

end StakeRegistry
