import StakeRegistry.Context
import StakeRegistry.Staking.Limits
import StakeRegistry.Staking.NewNode
import StakeRegistry.Transition.Outcome

/-!
# Expiry

When a node's stake runs out. Since infinite staking that is when the unlock asked for is
reached; before, a fixed time after registration. At the first fork with nodes, the
registrations in the block one lock period back are found again and expire.
-/

set_option autoImplicit false

namespace StakeRegistry

/-- Whether the stake of a node has run out at a height. -/
def NodeInfo.hasExpired (info : NodeInfo) (rules : NetworkRules) (height : Nat) : Bool :=
  if HardFork.infiniteStaking ≤ info.registrationFork then
    info.requestedUnlockHeight != 0 && decide (info.requestedUnlockHeight < height)
  else
    let locked := wrapAdd info.registrationHeight rules.stakingLockBlocks
    decide (wrapAdd locked lockExcess < height)

/-- The nodes that the block one lock period back registered, in the order of its
transactions. -/
def registeredOnePeriodBack (ctx : Context) (height : Nat) : List PublicKey :=
  if height ≤ ctx.rules.stakingLockBlocks then []
  else
    let back := height - ctx.rules.stakingLockBlocks
    match ctx.chain.blockAt? back with
    | none => []
    | some block =>
        if block.fork < HardFork.serviceNodes then []
        else (ctx.chain.transactionsOf block).filterMap fun tx =>
          match registeredNode ctx.suite ctx.rules
              ⟨HardFork.serviceNodes, block.timestamp, back, 0⟩ tx with
          | .ok (some (key, _)) => some key
          | _ => none

/-- The nodes that expire at a height. -/
def Registry.expiring (r : Registry) (ctx : Context) (fork : HardFork) (height : Nat) :
    List PublicKey :=
  if fork = HardFork.serviceNodes then registeredOnePeriodBack ctx height
  else (r.select fun info => info.hasExpired ctx.rules height).map (·.1)

namespace Draft

/-- Removes a node whose stake has run out. -/
def expire (d : Draft) (key : PublicKey) : Draft :=
  match d.registry.info? key with
  | none => d
  | some info =>
      { d with
        registry := d.registry.remove key
        outcome := { d.outcome with expired := d.outcome.expired ++ [(key, info.blsKey)] }
        rebalance := d.rebalance || info.isActive }

/-- Removes every node whose stake has run out. -/
def expireNodes (ctx : Context) (block : Block) (d : Draft) : Draft :=
  (d.registry.expiring ctx block.fork block.height).foldl expire d

end Draft

end StakeRegistry
