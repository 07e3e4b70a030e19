import StakeRegistry.Context
import StakeRegistry.Network.Settings
import StakeRegistry.Stored.Snapshot
import StakeRegistry.Stored.Store
import StakeRegistry.Transition.Outcome
import StakeRegistry.Uptime.Transport

/-!
# The live registry

The registry of a running node: the head with its history, what is known of every node, the
nodes that expired of late, and the store and the ledger that outlive a restart. It reads the
chain, the clock and cryptography from its surroundings.

An operation that can fail answers an error or a value, together with the live registry after
it, since what was done before a failure stays done.
-/

set_option autoImplicit false

namespace StakeRegistry

/-- What surrounds a live registry during one operation. -/
structure Surroundings where
  suite : CryptoSuite
  chain : ChainReader
  now : Nat
  /-- Why the store cannot be read, if so. -/
  readFault : Option String := none
  /-- Why the store cannot be written, if so. -/
  writeFault : Option String := none
  /-- How many reads of a store that cannot be read succeed first. -/
  readsSpared : Nat := 0

/-- Why one of the first reads of the store fails, if one does. -/
def Surroundings.faultWithin (s : Surroundings) (reads : Nat) : Option String :=
  if s.readsSpared < reads then s.readFault else none

/-- The registry of a running node. -/
structure LiveRegistry where
  settings : Settings
  head : Registry
  history : History
  records : NodeRecords := ∅
  /-- The BLS keys of nodes that expired of late, with the last height at which they count. -/
  recentlyExpired : SortedMap BlsKey Nat := ∅
  transport : TransportMap := {}
  /-- The seed of the local node's key, which signs its uptime proofs. -/
  seed : Option (Bytes 32) := none
  localKey : Option PublicKey
  /-- The version of the data that this registry last stored. -/
  savedVersion : Option Nat := none
  store : Store
  /-- Every stake handed over to be paid back, in order. -/
  ledger : List ReturnedStakes

/-- The answer of an operation, and the live registry after it. -/
abbrev LiveResult (ε α : Type) := Except ε α × LiveRegistry

/-- The height just before service nodes begin. -/
def Settings.startHeight (settings : Settings) : Nat :=
  (settings.schedule.activationHeight? HardFork.serviceNodes).getD 1 - 1

namespace LiveRegistry

/-- A live registry without nodes, on top of what earlier ones left behind. -/
def start (settings : Settings) (store : Store) (ledger : List ReturnedStakes) : LiveRegistry where
  settings := settings
  head := Registry.new settings.startHeight
  history := History.new settings.quorumHistory
  localKey := settings.nodeKey
  store := store
  ledger := ledger

def rules (l : LiveRegistry) : NetworkRules := l.settings.rules

/-- The fork of the chain's last block. -/
def chainFork (l : LiveRegistry) (s : Surroundings) : HardFork :=
  l.settings.schedule.forkAt (s.chain.currentHeight - 1)

/-- The context of a block, with a view of the past. -/
def context (l : LiveRegistry) (s : Surroundings) (view : HistoryView) : Context :=
  ⟨l.rules, s.suite, s.chain, view⟩

/-- The canonical past. -/
def view (l : LiveRegistry) : HistoryView := HistoryView.of l.head l.history

/-- The record of a node; a node without one has the empty record. -/
def recordOf (l : LiveRegistry) (node : PublicKey) : NodeRecord :=
  (l.records.get? node).getD {}

/-- Changes the record of a node, which gets one if it has none. -/
def changeRecord (l : LiveRegistry) (node : PublicKey) (f : NodeRecord → NodeRecord) :
    LiveRegistry :=
  { l with records := l.records.insert node (f (l.recordOf node)) }

/-- Changes the record of a node if the node is registered. -/
def noteRegistered (l : LiveRegistry) (node : PublicKey) (f : NodeRecord → NodeRecord) :
    LiveRegistry :=
  if l.head.nodes.contains node then l.changeRecord node f else l

end LiveRegistry

end StakeRegistry
