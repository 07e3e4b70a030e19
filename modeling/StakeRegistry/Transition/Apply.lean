import StakeRegistry.Quorum.Pulse
import StakeRegistry.Transition.Bridging
import StakeRegistry.Transition.Contributing
import StakeRegistry.Transition.Expiry
import StakeRegistry.Transition.Penalties

/-!
# Applying a block

The registry after a block, in the order that all nodes follow: the Pulse quorum of the nodes
before the block, the blacklist, expiry, the reward winner, the transactions, the swarms if
the active nodes have changed, and the other quorums of the nodes after the block.
-/

set_option autoImplicit false

namespace StakeRegistry

namespace Registry

/-- The registry at the height of a block, before anything in the block has happened. -/
def atBlock (r : Registry) (block : Block) : Registry :=
  { r with height := block.height, blockHash := block.hash, quorums := Quorums.none }

/-- Notes the turn that the validators of a Pulse quorum take at a height. -/
def noteTurns (r : Registry) (height : Nat) (validators : List PublicKey) : Registry :=
  validators.zipIdx.foldl
    (fun r v => r.modify v.1 fun info => { info with pulseSorter := ⟨height, v.2⟩ }) r

/-- Keeps the Pulse quorum of a block, if it is complete. -/
def formPulseQuorum (r : Registry) (ctx : Context) (block : Block) (winner : PublicKey) :
    Registry :=
  if block.fork < HardFork.pulse then r
  else
    let quorum := r.quorumProducing ctx.rules ctx.suite ctx.chain block winner
    if quorum.isCompletePulse then
      let r := r.noteTurns block.height quorum.validators
      { r with quorums := r.quorums.set .pulse (some quorum) }
    else r

/-- Drops the blacklist entries that end at a block. -/
def trimBlacklist (r : Registry) (block : Block) : Registry :=
  if HardFork.infiniteStaking ≤ block.fork then
    { r with blacklist := r.blacklist.filter fun e => decide (block.height < e.unlockHeight) }
  else r

/-- Sends the winner of a block to the back of the reward queue. -/
def payWinner (r : Registry) (block : Block) (winner : PublicKey) : Registry :=
  r.modify winner (·.toQueueBack block.height)

/-- The swarms of the active nodes. -/
def swarms (active : NodeList) : SwarmMap :=
  active.foldl (fun swarms (key, info) =>
    swarms.insert info.swarm ((swarms.get? info.swarm).getD [] ++ [key])) ∅

/-- Puts nodes into swarms. -/
def assignSwarms (r : Registry) (swarms : SwarmMap) : Registry :=
  swarms.toList.foldl (fun r (id, members) =>
    members.foldl (fun r key => r.modify key fun info => { info with swarm := id }) r) r

/-- Rebalances the swarms of the active nodes, with a block's hash as the seed. -/
def rebalanceSwarms (r : Registry) (block : Block) : Registry :=
  r.assignSwarms ((swarms r.active).rebalance (leNat (block.hash.toList.take 8)))

end Registry

namespace Draft

/-- Applies one transaction of a block. -/
def applyTransaction (ctx : Context) (block : Block) (d : Draft) (tx : Transaction)
    (index : Nat) : Draft :=
  if tx.kind = TxKind.ofStakes block.fork then
    (d.register ctx block index tx).contribute ctx block index tx
  else match tx.kind with
    | .stateChange => d.applyStateChange ctx block tx
    | .keyImageUnlock => d.unlock ctx block tx
    | .bridgeRegistration => d.registerBridged ctx block index tx
    | .bridgeLeave => d.leave ctx block tx
    | .bridgeExit => d.exit ctx block tx
    | .bridgeDeregister => d.expel tx
    | .standard => d
    | .stake => d

/-- Applies the transactions of a block in order. -/
def applyTransactions (ctx : Context) (block : Block) (txs : List Transaction) (d : Draft) :
    Draft :=
  txs.zipIdx.foldl (fun d (tx, index) => d.applyTransaction ctx block tx index) d

end Draft

namespace Registry

/-- The registry and the effects of a block whose transactions are `txs`, up to the swarms and
the quorums drawn after it. -/
def draft (r : Registry) (ctx : Context) (block : Block) (txs : List Transaction) : Draft :=
  let winner := block.minerTx.winner?.getD 0
  let r := ((r.atBlock block).formPulseQuorum ctx block winner).trimBlacklist block
  let d : Draft := { registry := r }
  -- A winner that has just expired is gone; one that is paid may still leave by a transaction.
  ((d.expireNodes ctx block).mapRegistry (·.payWinner block winner)).applyTransactions ctx block txs

/-- The registry after a block, and the effects of the block elsewhere. -/
def apply (r : Registry) (ctx : Context) (block : Block) (txs : List Transaction) :
    Except RegistryError (Registry × Outcome) :=
  -- Every registry has a next height: chains end long before the 64-bit words do.
  if r.height + 1 ≠ block.height then
    .error (.nonSequentialBlock (r.height + 1) block.height)
  else do
    let d := r.draft ctx block txs
    -- New swarms change no node's standing, so the active nodes are taken once for both.
    let active := d.registry.active
    let settled := if d.rebalance then d.registry.rebalanceSwarms block else d.registry
    let quorums ← drawQuorums settled active ctx.rules.network block.fork
    return ({ settled with quorums := quorums }, d.outcome)

end Registry

end StakeRegistry
