import StakeRegistry.Live.Basic
import StakeRegistry.Transition.Unlocking

/-!
# Questions to a running node
-/

set_option autoImplicit false

namespace StakeRegistry

namespace LiveRegistry

/-- The entries of some nodes, of all when none are named. Unknown nodes are left out. -/
def nodes (l : LiveRegistry) (keys : List PublicKey) : NodeList :=
  if keys.isEmpty then l.head.nodes.toList
  else keys.filterMap fun key => (l.head.info? key).map fun info => (key, info)

/-- The quorum of a kind for a height. -/
def quorum? (l : LiveRegistry) (kind : QuorumKind) (height : Nat) (includeOld : Bool) :
    Option Quorum :=
  l.view.quorum? kind height includeOld

/-- A member of a quorum, by the side and the position. -/
def quorumMember? (l : LiveRegistry) (kind : QuorumKind) (group : QuorumGroup)
    (height index : Nat) : Option PublicKey :=
  (l.quorum? kind height false).bind fun quorum => (quorum.group group)[index]?

/-- When the stake that locks a key image unlocks, and the stake. -/
def lockedKeyImage? (l : LiveRegistry) (image : KeyImage) : Option (Nat × LockedContribution) :=
  (l.head.lockedKeyImage? image).map (·.2)

/-- The node with a BLS key. -/
def nodeOfBlsKey (l : LiveRegistry) (key : BlsKey) : Except RegistryError PublicKey :=
  match l.head.findByBlsKey? key with
  | some node => .ok node
  | none => .error (.unknownBlsKey key)

/-- Whether a node with a BLS key expired of late. -/
def isRecentlyExpired (l : LiveRegistry) (key : BlsKey) : Bool := l.recentlyExpired.contains key

/-- Sets how many old quorums are kept. -/
def setQuorumHistory (l : LiveRegistry) (setting : Nat) : LiveRegistry :=
  { l with history := l.history.setQuorumHistory setting }

/-- A new live registry on the same store and ledger. -/
def restart (l : LiveRegistry) (settings : Settings) : LiveRegistry :=
  start settings l.store l.ledger

end LiveRegistry

end StakeRegistry
