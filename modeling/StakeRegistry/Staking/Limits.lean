import StakeRegistry.Chain.HardFork
import StakeRegistry.Data.Word
import StakeRegistry.Network.Rules

/-!
# Stake limits

How a node's requirement is divided among its contributors: portions of the requirement, the
least and greatest contribution that the next slot may take, and the checks on the reserved
amounts of a registration. A slot's least contribution is an equal share of what the
remaining slots have to raise, so a list of stakes that passes can always be completed.
-/

set_option autoImplicit false

namespace StakeRegistry

/-- The portions that make up a whole requirement. -/
def stakingPortions : Nat := 0xfffffffffffffffc

/-- The parts that make up an operator's whole fee, where it is not given in portions. -/
def feeBasis : Nat := 10000

/-- The contributor slots of a node whose registration is in portions. -/
def portionSlots : Nat := 4

/-- The contributor slots of a node at a fork. -/
def contributorSlots (fork : HardFork) : Nat :=
  if HardFork.rewardBatching ≤ fork then 10 else portionSlots

/-- The amount that portions of a requirement stand for. -/
def portionsToAmount (portions requirement : Nat) : Nat :=
  mulDiv portions requirement stakingPortions

/-- Two amounts differ by one atomic unit at most. -/
def withinOne (a b : Nat) : Bool := a ≤ b + 1 && b ≤ a + 1

/-- The least stake of an operator. -/
def operatorMinimum (requirement : Nat) : Nat := requirement / 4

/-- The least contribution that the next slot may take. -/
def minContribution (fork : HardFork) (requirement reserved contributions : Nat) : Nat :=
  let needed := requirement - reserved
  if fork < HardFork.infiniteStaking then min needed (requirement / portionSlots)
  else if contributorSlots fork ≤ contributions then maxU64
  else if HardFork.rewardBatching ≤ fork ∧ contributions = 0 then operatorMinimum requirement
  else needed / (contributorSlots fork - contributions)

/-- The greatest contribution that the next slot may take. -/
def maxContribution (fork : HardFork) (requirement reserved : Nat) : Nat :=
  if HardFork.pulse ≤ fork then mulDiv (requirement - reserved) 101 100 else maxU64

/-- Whether stakes from slot `index` on fit, the earlier slots having reserved `reserved`. -/
def stakesFitFrom (fork : HardFork) (requirement : Nat) : Nat → Nat → List Nat → Bool
  | _, _, [] => true
  | index, reserved, stake :: rest =>
      let least :=
        if index = 0 then operatorMinimum requirement
        else minContribution fork requirement reserved index
      if stake < least then false
      else if reserved + stake ≤ requirement then
        stakesFitFrom fork requirement (index + 1) (reserved + stake) rest
      else false

/-- Whether a registration may reserve these amounts; amounts came with batched rewards. -/
def stakesFit (fork : HardFork) (requirement : Nat) (stakes : List Nat) : Bool :=
  if fork < HardFork.rewardBatching ∨ stakes = [] then false
  else stakesFitFrom fork requirement 0 0 stakes

/-- The least portions that slot `index` may take. -/
def minPortions (index reserved : Nat) : Nat :=
  if index = 0 then stakingPortions / 4
  else if portionSlots ≤ index then maxU64
  else (stakingPortions - reserved) / (portionSlots - index)

/-- Whether portions from slot `index` on fit, the earlier slots having reserved
`reserved`. -/
def portionsFitFrom : Nat → Nat → List Nat → Bool
  | _, _, [] => true
  | index, reserved, portion :: rest =>
      if portion < minPortions index reserved then false
      else if reserved + portion ≤ stakingPortions then
        portionsFitFrom (index + 1) (reserved + portion) rest
      else false

/-- Whether a registration may reserve these portions, before batched rewards. -/
def portionsFit (fork : HardFork) (portions : List Nat) : Bool :=
  if HardFork.rewardBatching ≤ fork ∨ portions = [] then false
  else if portionSlots < portions.length then false
  else portionsFitFrom 0 0 portions

/-! ## Locks -/

/-- Blocks for which a stake stays locked past its requirement, before stakes had no end. -/
def lockExcess : Nat := 20

/-- The height at which a stake unlocks that is asked back at height `current`: the end of the
lock period, counted from the node's registration, that is then running. -/
def unlockHeight (rules : NetworkRules) (registered current : Nat) : Nat :=
  let lock := max rules.stakingLockBlocks 1
  wrapAdd current (lock - (current - registered) % lock)

end StakeRegistry
