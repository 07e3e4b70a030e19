import StakeRegistry.Registry.Basic
import StakeRegistry.Uptime.Record

/-!
# Records of all nodes

The records by key, those that are old enough to drop, and the map from transport keys to
nodes' keys, in which entries that were not refreshed for a day are dropped from time to time.
-/

set_option autoImplicit false

namespace StakeRegistry

/-- What is known of all nodes. -/
abbrev NodeRecords := SortedMap PublicKey NodeRecord

/-- Seconds for which the proof of a node is kept that is no longer registered. -/
def proofRetention : Nat := 6 * 60 * 60

/-- The nodes that are not registered and whose last proof is too old to keep. -/
def NodeRecords.expired (records : NodeRecords) (registry : Registry) (now : Nat) :
    List PublicKey :=
  (records.filter fun key record =>
    !registry.nodes.contains key && decide (wrapAdd record.timestamp proofRetention < now)).keys

/-- The transport keys of active nodes, ascending and each once. -/
def NodeRecords.activeTransportKeys (records : NodeRecords) (registry : Registry) :
    List X25519Key :=
  let known := registry.active.filterMap fun node =>
    ((records.get? node.1).map (·.transportKey)).filter fun key => key != 0
  (SortedMap.ofList (known.map fun key => (key, ()))).keys

/-- Seconds between two prunings of the map. -/
def pruningInterval : Nat := 5 * 60

/-- Seconds after which an entry that was not refreshed is dropped. -/
def pruningLag : Nat := 24 * 60 * 60

/-- The node that holds a transport key, and when it was last seen with it. -/
structure TransportEntry where
  nodeKey : PublicKey
  seen : Nat
  deriving DecidableEq, Inhabited

/-- Nodes by transport key. -/
structure TransportMap where
  entries : SortedMap X25519Key TransportEntry := ∅
  lastPruned : Nat := 0
  deriving DecidableEq, Inhabited

namespace TransportMap

def nodeOf? (m : TransportMap) (key : X25519Key) : Option PublicKey :=
  (m.entries.get? key).map (·.nodeKey)

def clear (m : TransportMap) : TransportMap := { m with entries := ∅ }

/-- Adds an entry unless the key has one. -/
def addNew (m : TransportMap) (key : X25519Key) (entry : TransportEntry) : TransportMap :=
  if key = 0 ∨ m.entries.contains key then m
  else { m with entries := m.entries.insert key entry }

/-- Adds the registered nodes whose transport keys are known. -/
def fillFrom (m : TransportMap) (registry : Registry) (records : NodeRecords) (now : Nat) :
    TransportMap :=
  registry.nodes.keys.foldl
    (fun m node => match records.get? node with
      | some record => m.addNew record.transportKey ⟨node, now⟩
      | none => m) m

/-- Drops entries that were not refreshed for long, if the last pruning is long ago. -/
def prune (m : TransportMap) (now : Nat) : TransportMap :=
  if pruningInterval ≤ now - m.lastPruned then
    ⟨m.entries.filter fun _ e => decide (now - pruningLag ≤ e.seen), now⟩
  else m

/-- Notes the transport key of a node, in place of the one that it had. -/
def record (m : TransportMap) (node : PublicKey) (old new : X25519Key) (now : Nat) :
    TransportMap :=
  let m := m.prune now
  let kept := if old ≠ 0 ∧ old ≠ new then m.entries.erase old else m.entries
  { m with entries := if new = 0 then kept else kept.insert new ⟨node, now⟩ }

end TransportMap

end StakeRegistry
