import StakeRegistry.Context
import StakeRegistry.Staking.NewNode
import StakeRegistry.Transition.Outcome

/-!
# Registering

Enters the node that a transaction registers. Since infinite staking a registered node cannot
register again; before, it could once its lock period was over, and kept its place in the
reward queue.
-/

set_option autoImplicit false

namespace StakeRegistry

/-- Where a transaction of a block stands. -/
def Block.place (block : Block) (index : Nat) : BlockPlace :=
  ⟨block.fork, block.timestamp, block.height, index⟩

/-- The entry under which a node that is already registered is registered again, if it may
be. -/
def reregistered? (rules : NetworkRules) (fork : HardFork) (height : Nat) (old new : NodeInfo) :
    Option NodeInfo :=
  if HardFork.infiniteStaking ≤ fork ∨ fork < HardFork.graceRegistration ∨
      height < wrapAdd old.registrationHeight rules.stakingLockBlocks then none
  else
    some { new with
      lastRewardHeight := old.lastRewardHeight
      lastRewardIndex := old.lastRewardIndex }

namespace Draft

/-- Enters a new node. Proofs of its former life are forgotten since infinite staking. -/
def enter (fork : HardFork) (key : PublicKey) (info : NodeInfo) (d : Draft) : Draft :=
  { d with
    registry := d.registry.put key info
    outcome :=
      if HardFork.infiniteStaking ≤ fork then
        { d.outcome with registered := d.outcome.registered ++ [key] }
      else d.outcome }

/-- Applies the registration that a staking transaction carries, if any. -/
def register (ctx : Context) (block : Block) (index : Nat) (tx : Transaction) (d : Draft) :
    Draft :=
  match registeredNode ctx.suite ctx.rules (block.place index) tx with
  | .error _ => d
  | .ok none => d
  | .ok (some (key, info)) =>
      match d.registry.info? key with
      | none => d.enter block.fork key info
      | some old =>
          match reregistered? ctx.rules block.fork block.height old info with
          | none => d
          | some renewed => d.enter block.fork key renewed

end Draft

end StakeRegistry
