import StakeRegistry.Crypto.Suite
import StakeRegistry.Node.Info
import StakeRegistry.Staking.Limits

/-!
# Reward shares

How a node's reward is divided: the operator's fee comes off the top, and the rest follows the
contributed amounts. Shares are portions of the whole reward; an amount is rounded down, and
where the reward has to be paid in full the atomic units left over go one each to the payees
in order. Every payee is paid to a key of its own, which follows from the height of the block
and the position of the output.
-/

set_option autoImplicit false

namespace StakeRegistry

/-- The share of a contributor in the reward of a node. -/
structure Share where
  address : Address
  portions : Nat
  deriving DecidableEq, Inhabited

/-- The portions of a contributor: by its amount in what the fee leaves, and for the operator
also the fee. -/
def NodeInfo.portionsOf (info : NodeInfo) (c : Contributor) : Nat :=
  let earned :=
    if info.stakingRequirement = 0 then 0
    else mulDiv c.amount (stakingPortions - info.operatorPortions) info.stakingRequirement
  if c.address = info.operator then satAdd earned info.operatorPortions else earned

/-- The shares in the reward of a node, in the order of its contributors. -/
def NodeInfo.shares (info : NodeInfo) : List Share :=
  info.contributors.map fun c => ⟨c.address, info.portionsOf c⟩

/-- The amounts that portions of a reward come to, rounded down. -/
def splitDown (portions : List Nat) (reward : Nat) : List Nat :=
  portions.map fun p => mulDiv reward p stakingPortions

/-- Amounts raised by what is left over, dealt out one unit each in order, over and over. -/
def dealOut (amounts : List Nat) (left : Nat) : List Nat :=
  let n := amounts.length
  amounts.zipIdx.map fun (a, i) => a + (left / n + if i < left % n then 1 else 0)

/-- The amounts that portions of a reward come to, what rounding leaves over dealt out if
`whole`. -/
def splitReward (portions : List Nat) (reward : Nat) (whole : Bool) : List Nat :=
  let amounts := splitDown portions reward
  if whole then dealOut amounts (reward - totalOf amounts) else amounts

/-- Whether the block at a height pays the governance fund: every block at first, then one
block in an interval, until rewards are paid in batches. -/
def paysGovernance (rules : NetworkRules) (fork : HardFork) (height : Nat) : Bool :=
  if height = 0 ∨ HardFork.rewardBatching ≤ fork then false
  else if fork ≤ HardFork.serviceNodes then true
  else decide (rules.governanceInterval ≠ 0 ∧ height % rules.governanceInterval = 0)

/-- The one-time key of output `index` that pays an address in the block at a height. -/
def payoutKey? (suite : CryptoSuite) (address : Address) (height index : Nat) :
    Option PublicKey := do
  let secret ← suite.sharedSecret? address.view (suite.payoutKeys height).2
  suite.outputKey? secret index address.spend

end StakeRegistry
