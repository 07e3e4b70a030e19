import StakeRegistry.Registry.Basic

/-!
# What a block does

A registry while a block is applied to it (`Draft`), with what the block does outside the
registry (`Outcome`): proofs to forget, stakes to pay back, nodes that have left. Every
transaction is a function from drafts to drafts; one that the rules refuse leaves the draft
as it is.
-/

set_option autoImplicit false

namespace StakeRegistry

/-- A stake that is paid back to its contributor. -/
structure ReturnedStake where
  address : EthAddress
  amount : Nat
  deriving DecidableEq, Inhabited

/-- The stakes of a node that exits through the bridge, to be paid back after some blocks. -/
structure ReturnedStakes where
  nodeKey : PublicKey
  height : Nat
  delay : Nat
  stakes : List ReturnedStake
  deriving DecidableEq, Inhabited

/-- The effects of a block outside the registry, each in the order of their transactions. -/
structure Outcome where
  registered : List PublicKey := []
  decommissioned : List PublicKey := []
  /-- Recommissioned nodes and the block's time. -/
  recommissioned : List (PublicKey × Nat) := []
  /-- Nodes whose stake ran out, with their BLS keys. -/
  expired : List (PublicKey × BlsKey) := []
  returned : List ReturnedStakes := []
  deriving DecidableEq, Inhabited

/-- A registry while a block is applied to it. -/
structure Draft where
  registry : Registry
  outcome : Outcome := {}
  /-- Whether the swarms have to be rebalanced. -/
  rebalance : Bool := false
  deriving DecidableEq, Inhabited

/-- The place in the reward queue of a node that is paid, or sent to the back, by a block. It
lies behind that of every node which a transaction of the block puts there. -/
def queueBack : Nat := 0xffffffff

/-- Sends a node to the back of the reward queue. -/
def NodeInfo.toQueueBack (info : NodeInfo) (height : Nat) : NodeInfo :=
  { info with lastRewardHeight := height, lastRewardIndex := queueBack }

namespace Draft

/-- Changes the registry of a draft. -/
def mapRegistry (d : Draft) (f : Registry → Registry) : Draft :=
  { d with registry := f d.registry }

end Draft

end StakeRegistry
