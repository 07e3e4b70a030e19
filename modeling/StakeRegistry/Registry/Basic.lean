import StakeRegistry.Node.Info
import StakeRegistry.Quorum.Basic

/-!
# The registry

The registry as of one height: every registered node, the key images of stakes that were
forfeited for a time, and the quorums drawn at that height. All lists of nodes are in the order
of their keys, except the reward queue, in which those that were paid longest ago come first.
-/

set_option autoImplicit false

namespace StakeRegistry

/-- The key image of a stake that stays locked after its node was removed. -/
structure BlacklistEntry where
  version : Nat
  keyImage : KeyImage
  unlockHeight : Nat
  amount : Nat
  deriving DecidableEq, Inhabited

/-- The node that is next in the reward queue, or the zero key when there is none. -/
structure BlockLeader where
  key : PublicKey
  lastRewardHeight : Nat
  lastRewardIndex : Nat
  deriving DecidableEq, Inhabited

namespace BlockLeader

def null : BlockLeader := ⟨0, 0, 0⟩

def isNull (leader : BlockLeader) : Bool := leader.key == 0

end BlockLeader

/-- Nodes with their keys. -/
abbrev NodeList := List (PublicKey × NodeInfo)

/-- The registry as of one height. -/
structure Registry where
  height : Nat
  blockHash : Hash := 0
  nodes : SortedMap PublicKey NodeInfo := ∅
  blacklist : List BlacklistEntry := []
  quorums : Quorums := Quorums.none
  /-- Whether nodes and blacklist were stripped and only the quorums are left. -/
  quorumsOnly : Bool := false
  deriving DecidableEq

namespace Registry

/-- The empty registry at a height. -/
def new (height : Nat) : Registry := { height := height }

instance : Inhabited Registry := ⟨new 0⟩

/-- What is needed to look up quorums, and no more. -/
def toQuorumsOnly (r : Registry) : Registry :=
  { height := r.height, blockHash := r.blockHash, quorums := r.quorums, quorumsOnly := true }

def info? (r : Registry) (key : PublicKey) : Option NodeInfo := r.nodes.get? key

/-- Changes the entry of a node, if it is registered. -/
def modify (r : Registry) (key : PublicKey) (f : NodeInfo → NodeInfo) : Registry :=
  match r.nodes.get? key with
  | some info => { r with nodes := r.nodes.insert key (f info) }
  | none => r

/-- Adds or replaces the entry of a node. -/
def put (r : Registry) (key : PublicKey) (info : NodeInfo) : Registry :=
  { r with nodes := r.nodes.insert key info }

/-- Removes a node. -/
def remove (r : Registry) (key : PublicKey) : Registry :=
  { r with nodes := r.nodes.erase key }

def isServiceNode (r : Registry) (key : PublicKey) (requireActive : Bool) : Bool :=
  match r.nodes.get? key with
  | some info => !requireActive || info.isActive
  | none => false

/-- The nodes that satisfy a test, in the order of their keys. -/
def select (r : Registry) (p : NodeInfo → Bool) : NodeList := r.nodes.toList.filter fun n => p n.2

def active (r : Registry) : NodeList := r.select (·.isActive)

def decommissioned (r : Registry) : NodeList :=
  r.select fun info => info.isDecommissioned && info.isFullyFunded

def payable (r : Registry) (height : Nat) (rules : NetworkRules) : NodeList :=
  r.select fun info => info.isPayable height rules

/-- The order of the reward queue: by the height of the last payment, then by the index of the
transaction that set the place, then by key. -/
def queueOrder (a b : PublicKey × NodeInfo) : Ordering :=
  ((compare a.2.lastRewardHeight b.2.lastRewardHeight).then
    (compare a.2.lastRewardIndex b.2.lastRewardIndex)).then (compare a.1 b.1)

/-- The active nodes in the order in which they will be paid. -/
def rewardQueue (r : Registry) : NodeList := r.active.mergeSort fun a b => (queueOrder a b).isLE

/-- The node that is paid next. -/
def leader (r : Registry) : BlockLeader :=
  match r.rewardQueue.head? with
  | some (key, info) => ⟨key, info.lastRewardHeight, info.lastRewardIndex⟩
  | none => BlockLeader.null

/-- The first blacklist entry of a key image. -/
def blacklisted? (r : Registry) (image : KeyImage) : Option BlacklistEntry :=
  r.blacklist.find? fun e => e.keyImage == image

/-- The first node that locks a key image, the height at which it unlocks, and the locked
contribution. -/
def lockedKeyImage? (r : Registry) (image : KeyImage) :
    Option (PublicKey × Nat × LockedContribution) :=
  r.nodes.toList.findSome? fun (key, info) =>
    (info.lockedContributions.find? fun l => l.keyImage == image).map fun l =>
      (key, info.requestedUnlockHeight, l)

/-- The first node with a BLS key. -/
def findByBlsKey? (r : Registry) (blsKey : BlsKey) : Option PublicKey :=
  (r.nodes.toList.find? fun n => n.2.blsKey == blsKey).map (·.1)

end Registry

end StakeRegistry
