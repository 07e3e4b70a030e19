import StakeRegistry.Context
import StakeRegistry.Node.Credit
import StakeRegistry.Transition.Outcome
import StakeRegistry.Verification.Votes

/-!
# State changes

Applies a change of a node's state that its obligations quorum has voted for. The quorum is
that of the height which the change names, on the canonical chain or on another branch that
counts; the node is given by its position among the quorum's workers.
-/

set_option autoImplicit false

namespace StakeRegistry

/-- The first quorum that has cast the votes of a state change in a block at height
`latest`. -/
def votingQuorum? (ctx : Context) (change : StateChange) (latest : Nat) : Option Quorum :=
  match ctx.view.state? change.height with
  | none => none
  | some stored =>
      (stored :: ctx.view.alternativesAt change.height).findSome? fun r =>
        r.quorums.obligations.filter fun q =>
          (verifyStateChange ctx.suite change latest q).isOk

/-- The form in which blacklist entries are made. -/
def blacklistVersion : Nat := 1

/-- The blacklist entries for the locked stakes of a node removed at a height. -/
def forfeits (rules : NetworkRules) (height : Nat) (info : NodeInfo) : List BlacklistEntry :=
  info.lockedContributions.map fun l =>
    ⟨blacklistVersion, l.keyImage, wrapAdd height rules.stakingLockBlocks, l.amount⟩

namespace NodeInfo

/-- The node put out of service. -/
def decommissionedBy (info : NodeInfo) (fork : HardFork) (height : Nat) (change : StateChange) :
    NodeInfo :=
  { info with
    activeSince := -info.activeSince
    lastDecommissionHeight := height
    decommissionReasonAll := change.reasonAll
    decommissionReasonAny := change.reasonAny
    decommissionCount := info.decommissionCount + 1
    swarm := if HardFork.enforceCheckpoints ≤ fork then unassignedSwarm else info.swarm }

/-- The node back in service, with what is left of its credit. -/
def recommissionedAt (info : NodeInfo) (height : Nat) : NodeInfo :=
  { info with
    recommissionCredit := info.creditAfter (height - info.lastDecommissionHeight)
    activeSince := toI64 height }.toQueueBack height

/-- The node sent to the back of the reward queue for changing its address. -/
def penalisedAt (info : NodeInfo) (height : Nat) : NodeInfo :=
  { info.toQueueBack height with lastIpChangeHeight := height }

end NodeInfo

namespace Draft

/-- Removes a node. Since infinite staking its stakes stay locked for a lock period. -/
def deregister (ctx : Context) (block : Block) (key : PublicKey) (info : NodeInfo)
    (d : Draft) : Draft :=
  let d := d.mapRegistry (·.remove key)
  let forfeited :=
    if HardFork.infiniteStaking ≤ block.fork then forfeits ctx.rules block.height info else []
  { d with
    registry := { d.registry with blacklist := d.registry.blacklist ++ forfeited }
    rebalance := true }

/-- Puts a node out of service. -/
def decommission (block : Block) (change : StateChange) (key : PublicKey) (info : NodeInfo)
    (d : Draft) : Draft :=
  { d with
    registry := d.registry.put key (info.decommissionedBy block.fork block.height change)
    outcome := { d.outcome with decommissioned := d.outcome.decommissioned ++ [key] }
    rebalance := true }

/-- Puts a node back in service. -/
def recommission (block : Block) (key : PublicKey) (info : NodeInfo) (d : Draft) : Draft :=
  { d with
    registry := d.registry.put key (info.recommissionedAt block.height)
    outcome :=
      { d.outcome with recommissioned := d.outcome.recommissioned ++ [(key, block.timestamp)] }
    rebalance := true }

/-- Sends a node to the back of the reward queue. -/
def penalise (block : Block) (key : PublicKey) (info : NodeInfo) (d : Draft) : Draft :=
  { d with
    registry := d.registry.put key (info.penalisedAt block.height)
    rebalance := true }

/-- Changes the state of a node as voted. All changes but removal came with checkpointing, and
each asks that the node is in service, or for recommission that it is not. -/
def changeState (ctx : Context) (block : Block) (change : StateChange) (key : PublicKey)
    (info : NodeInfo) (d : Draft) : Draft :=
  match change.kind with
  | .deregister => d.deregister ctx block key info
  | .decommission =>
      if block.fork < HardFork.checkpointing || info.isDecommissioned then d
      else d.decommission block change key info
  | .recommission =>
      if block.fork < HardFork.checkpointing || !info.isDecommissioned then d
      else d.recommission block key info
  | .ipChangePenalty =>
      if block.fork < HardFork.checkpointing || info.isDecommissioned then d
      else d.penalise block key info

/-- Applies a state change, if a quorum has voted for it and the node is registered. -/
def applyStateChange (ctx : Context) (block : Block) (tx : Transaction) (d : Draft) : Draft :=
  match tx.stateChange? with
  | none => d
  | some change =>
      match (votingQuorum? ctx change block.height).bind (·.workers[change.index]?) with
      | none => d
      | some key =>
          match d.registry.info? key with
          | none => d
          | some info => d.changeState ctx block change key info

end Draft

end StakeRegistry
