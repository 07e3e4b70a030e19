import StakeRegistry.Chain.Transaction
import StakeRegistry.Network.Rules
import StakeRegistry.Swarm

/-!
# Service nodes

The registry's entry for one node: its contributors and their locked stakes, its place in the
reward queue, and whether it is active. `activeSince` is zero until the node is fully funded,
then the height at which its active period began, negated while it is decommissioned.
-/

set_option autoImplicit false

namespace StakeRegistry

/-- The version of an entry's stored form. -/
abbrev InfoVersion := Fin 8

instance InfoVersion.neZero : @NeZero Nat Zero.ofOfNat0 8 := ⟨by decide⟩

/-- The version that entries are kept in. -/
def InfoVersion.current : InfoVersion := 7

/-- A staked output that stays locked until its owner asks for it back. -/
structure LockedContribution where
  /-- The output's one-time key, which signs the request to unlock it. -/
  key : PublicKey
  keyImage : KeyImage
  amount : Nat
  deriving DecidableEq, Inhabited

/-- A funder of a node: what was contributed so far, what is reserved, and for whom. -/
structure Contributor where
  amount : Nat
  reserved : Nat
  address : Address
  locked : List LockedContribution
  ethAddress : EthAddress
  deriving DecidableEq, Inhabited

/-- A contributor for whom an amount is reserved. -/
def Contributor.reserving (reserved : Nat) (address : Address) : Contributor :=
  ⟨0, reserved, address, [], 0⟩

/-- The order in which nodes take turns as Pulse validators: those that validated least
recently first, and those of one quorum by their position in it. -/
structure PulseSorter where
  lastHeight : Nat
  position : Nat
  deriving DecidableEq, Inhabited

instance : Ord PulseSorter :=
  ⟨fun a b => (compare a.lastHeight b.lastHeight).then (compare a.position b.position)⟩

/-- The credit that a new node starts with. -/
def initialCredit : Int := 60

/-- The registry's entry for a node. -/
structure NodeInfo where
  version : InfoVersion := InfoVersion.current
  registrationFork : HardFork := default
  /-- The height at which the stake unlocks; zero until that is asked for. -/
  requestedUnlockHeight : Nat := 0
  lastRewardHeight : Nat := 0
  lastRewardIndex : Nat := 0
  decommissionCount : Nat := 0
  activeSince : Int := 0
  lastDecommissionHeight : Nat := 0
  decommissionReasonAll : Nat := 0
  decommissionReasonAny : Nat := 0
  contributors : List Contributor := []
  totalContributed : Nat := 0
  totalReserved : Nat := 0
  stakingRequirement : Nat := 0
  /-- The operator's fee, in portions. -/
  operatorPortions : Nat := 0
  swarm : Nat := unassignedSwarm
  operator : Address := default
  ethOperator : EthAddress := 0
  blsKey : BlsKey := 0
  lastIpChangeHeight : Nat := 0
  registrationHeight : Nat := 0
  recommissionCredit : Int := initialCredit
  pulseSorter : PulseSorter := default
  deriving DecidableEq

namespace NodeInfo

instance : Inhabited NodeInfo := ⟨{}⟩

def isFullyFunded (info : NodeInfo) : Bool := info.stakingRequirement ≤ info.totalContributed

def isDecommissioned (info : NodeInfo) : Bool := info.activeSince < 0

def isActive (info : NodeInfo) : Bool := info.isFullyFunded && !info.isDecommissioned

/-- Whether a node has been active long enough to be paid. -/
def isPayable (info : NodeInfo) (height : Nat) (rules : NetworkRules) : Bool :=
  info.isActive && decide (info.activeSince + rules.payableAfterBlocks ≤ height)

/-- Every locked contribution, in the order of the contributors. -/
def lockedContributions (info : NodeInfo) : List LockedContribution :=
  info.contributors.flatMap (·.locked)

def lockedCount (info : NodeInfo) : Nat := info.lockedContributions.length

def hasBlsKey (info : NodeInfo) : Bool := info.blsKey != 0

/-- Whether votes on the node of a quorum at `height` can mean this life of it: the height
lies after its registration and after its last change between active and decommissioned. -/
def canBeVotedOn (info : NodeInfo) (height : Nat) : Bool :=
  info.isFullyFunded && decide (info.registrationHeight < height) &&
    if info.isDecommissioned then decide (toI64 info.lastDecommissionHeight < toI64 height)
    else decide (info.activeSince < toI64 height)

/-- Whether a change voted on at `height` is allowed for the node. -/
def canTransition (info : NodeInfo) (fork : HardFork) (height : Nat) (kind : StateChangeKind) :
    Bool :=
  let timely :=
    if HardFork.enforceCheckpoints ≤ fork then
      info.canBeVotedOn height &&
        match kind with
        | .deregister => decide (info.registrationHeight < height)
        | .ipChangePenalty => decide (info.lastIpChangeHeight < height)
        | _ => true
    else
      !(kind == .deregister && decide (height < info.registrationHeight))
  timely &&
    if info.isDecommissioned then !(kind == .decommission || kind == .ipChangePenalty)
    else kind != .recommission

/-- The position of the first contributor with an address. -/
def contributorIndex? (info : NodeInfo) (address : Address) : Option Nat :=
  info.contributors.findIdx? fun c => c.address == address

end NodeInfo

end StakeRegistry
