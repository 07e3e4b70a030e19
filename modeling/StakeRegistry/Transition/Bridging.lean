import StakeRegistry.Context
import StakeRegistry.Staking.NewNode
import StakeRegistry.Transition.Registering
import StakeRegistry.Transition.Unlocking

/-!
# The bridge

Transactions that relay what happened in the staking contract: registrations, requests to
leave, exits and forced removals. They name a node by its BLS key. An exit hands the stakes
back; when the contract releases less than the requirement, the operator's stake bears the
difference and the payment is delayed by a lock period.
-/

set_option autoImplicit false

namespace StakeRegistry

/-- The stakes of a node when the contract releases an amount. -/
def exitStakes (rules : NetworkRules) (info : NodeInfo) (released : Nat) : List ReturnedStake :=
  let stakes := info.contributors.map fun c => ReturnedStake.mk c.ethAddress c.amount
  match stakes with
  | [] => []
  | operator :: others =>
      { operator with amount := operator.amount - (rules.stakingRequirement - released) } :: others

/-- Blocks by which the payment of an exit is delayed. -/
def exitDelay (rules : NetworkRules) (released : Nat) : Nat :=
  if released < rules.stakingRequirement then rules.stakingLockBlocks else 0

namespace Draft

/-- Enters the node that a bridge transaction registers. It joins a swarm when the swarms are
next rebalanced. -/
def registerBridged (ctx : Context) (block : Block) (index : Nat) (tx : Transaction)
    (d : Draft) : Draft :=
  match bridgedNode ctx.suite ctx.rules (block.place index) tx with
  | .error _ => d
  | .ok (key, info) =>
      { d with
        registry := d.registry.put key info
        outcome := { d.outcome with registered := d.outcome.registered ++ [key] } }

/-- Applies a request to leave; the first one of a node counts. -/
def leave (ctx : Context) (block : Block) (tx : Transaction) (d : Draft) : Draft :=
  match tx.bridgeLeave?.bind d.registry.findByBlsKey? with
  | none => d
  | some key =>
      d.mapRegistry fun r => r.modify key fun info =>
        if info.requestedUnlockHeight = 0 then info.unlockingAt ctx.rules block.height else info

/-- Pays back the stakes of a node that exits. Its entry stays. -/
def exit (ctx : Context) (block : Block) (tx : Transaction) (d : Draft) : Draft :=
  match tx.bridgeExit? with
  | none => d
  | some exit =>
      match d.registry.findByBlsKey? exit.blsKey with
      | none => d
      | some key =>
          match d.registry.info? key with
          | none => d
          | some info =>
              let returned : ReturnedStakes :=
                ⟨key, block.height, exitDelay ctx.rules exit.amount,
                  exitStakes ctx.rules info exit.amount⟩
              { d with outcome := { d.outcome with returned := d.outcome.returned ++ [returned] } }

/-- Removes a node by force. -/
def expel (tx : Transaction) (d : Draft) : Draft :=
  match tx.bridgeDeregister?.bind d.registry.findByBlsKey? with
  | none => d
  | some key => d.mapRegistry (·.remove key)

end Draft

end StakeRegistry
