import StakeRegistry.Context
import StakeRegistry.Staking.Limits
import StakeRegistry.Staking.Stake
import StakeRegistry.Transition.Outcome

/-!
# Contributing

Credits a stake to a node that is not fully funded yet. A stake is accepted when a slot is
free for it (the reservations of others stay open) and its amount lies within the limits;
what exceeds the requirement is not credited. The contribution that completes the requirement
activates the node.
-/

set_option autoImplicit false

namespace StakeRegistry

namespace Contributor

/-- What is reserved for a contributor and not yet contributed. -/
def unfilled (c : Contributor) : Nat := c.reserved - c.amount

/-- The contributor after a transfer of which at most the reserved amount and `room` more are
credited. -/
def credit (c : Contributor) (transferred room : Nat) (locked : List LockedContribution) :
    Contributor :=
  let amount := c.amount + min transferred (c.reserved + room - c.amount)
  { c with amount := amount, reserved := max c.reserved amount, locked := c.locked ++ locked }

end Contributor

namespace NodeInfo

/-- The slot of an address, the last if it has several, and its position. -/
def slot? (info : NodeInfo) (address : Address) : Option (Contributor × Nat) :=
  (info.contributors.zipIdx.filter fun s => s.1.address == address).getLast?

/-- What is left of the reservation of an address. -/
def unfilled (info : NodeInfo) (address : Address) : Nat :=
  match info.slot? address with
  | some (c, _) => c.unfilled
  | none => 0

/-- The reservations of other addresses that are still open. -/
def openSlots (info : NodeInfo) (address : Address) : Nat :=
  info.contributors.countP fun c => c.address != address && decide (c.amount < c.reserved)

/-- Whether a slot is free for a stake. -/
def hasSlotFor (info : NodeInfo) (fork : HardFork) (stake : Stake) : Bool :=
  if HardFork.pulse ≤ fork then
    decide (info.lockedCount + info.openSlots stake.address + 1 ≤ contributorSlots fork)
  else if HardFork.infiniteStaking ≤ fork then
    decide (info.lockedCount + stake.locked.length ≤ portionSlots)
  else (info.slot? stake.address).isSome || decide (info.contributors.length < portionSlots)

/-- The least stake that an address may bring. Since Pulse a reservation is filled at once. -/
def leastStake (info : NodeInfo) (fork : HardFork) (address : Address) : Nat :=
  if (info.slot? address).isSome ∧ fork < HardFork.infiniteStaking then 1
  else if fork < HardFork.pulse then
    minContribution fork info.stakingRequirement info.totalReserved info.lockedCount
  else if 0 < info.unfilled address then info.unfilled address
  else
    minContribution fork info.stakingRequirement info.totalReserved
      (info.lockedCount + info.openSlots address)

/-- The greatest stake that an address may bring. -/
def greatestStake (info : NodeInfo) (fork : HardFork) (address : Address) : Nat :=
  maxContribution fork info.stakingRequirement (info.totalReserved - info.unfilled address)

/-- Whether a node takes a stake. Since Pulse a stake is a single output. -/
def acceptsStake (info : NodeInfo) (fork : HardFork) (stake : Stake) : Bool :=
  !info.isFullyFunded &&
    (decide (fork < HardFork.pulse) || stake.locked.length == 1) &&
    info.hasSlotFor fork stake &&
    decide (info.leastStake fork stake.address ≤ stake.transferred) &&
    decide (stake.transferred ≤ info.greatestStake fork stake.address)

/-- The node with a slot for an address. -/
def withSlot (info : NodeInfo) (address : Address) : NodeInfo × Nat :=
  match info.slot? address with
  | some (_, position) => (info, position)
  | none =>
      ({ info with contributors := info.contributors ++ [Contributor.reserving 0 address] },
        info.contributors.length)

/-- The node after a stake was credited to the slot at a position. -/
def creditAtSlot (info : NodeInfo) (fork : HardFork) (stake : Stake) (position : Nat) :
    NodeInfo :=
  match info.contributors[position]? with
  | none => info
  | some old =>
      let locked := if HardFork.infiniteStaking ≤ fork then stake.locked else []
      -- What nobody has reserved yet is open to everyone.
      let new := old.credit stake.transferred (info.stakingRequirement - info.totalReserved) locked
      { info with
        contributors := info.contributors.set position new
        totalContributed := info.totalContributed + (new.amount - old.amount)
        totalReserved := info.totalReserved + (new.reserved - old.reserved) }

/-- The node after it took a stake in a block. It moves to the place of the transaction in the
reward queue, and becomes active when the requirement is met. -/
def creditStake (info : NodeInfo) (fork : HardFork) (height index : Nat) (stake : Stake) :
    NodeInfo :=
  let (info, position) := info.withSlot stake.address
  let info := info.creditAtSlot fork stake position
  let info := { info with lastRewardHeight := height, lastRewardIndex := index }
  if info.isFullyFunded then { info with activeSince := toI64 height } else info

end NodeInfo

namespace Draft

/-- Applies the stake that a transaction carries, if any. -/
def contribute (ctx : Context) (block : Block) (index : Nat) (tx : Transaction) (d : Draft) :
    Draft :=
  match Stake.ofTransaction? ctx.suite ctx.rules block.fork tx block.height with
  | none => d
  | some stake =>
      match d.registry.info? stake.nodeKey with
      | none => d
      | some info =>
          if info.acceptsStake block.fork stake then
            let info := info.creditStake block.fork block.height index stake
            { d with
              registry := d.registry.put stake.nodeKey info
              rebalance := d.rebalance || info.isFullyFunded }
          else d

end Draft

end StakeRegistry
