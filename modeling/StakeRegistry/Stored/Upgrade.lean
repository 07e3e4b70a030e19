import StakeRegistry.Stored.Registry

/-!
# Reading stored registries

The stored form of a registry, and the registry of a stored form. Entries in an older layout
are brought up to the current one as they are read, and a block hash that was not stored is
taken from the chain.
-/

set_option autoImplicit false

namespace StakeRegistry

/-- The version in which registries are stored. -/
def stateVersion : Nat := 1

/-- The version of stored registries that came without block hashes. -/
def hashlessStateVersion : Nat := 0

/-- What old data is completed from: the fork of a height and the hash of the block there. -/
structure LoadContext where
  forkAt : Nat → HardFork
  blockHashAt? : Nat → Option Hash

/-! ## Entries -/

/-- The credit of an entry from before credits were stored: the initial one, unless the node
was recommissioned. -/
def NodeInfo.impliedCredit (i : NodeInfo) : Int :=
  if i.decommissionCount ≤ (if i.isDecommissioned then 1 else 0) then initialCredit else 0

/-- Brings an entry up to the current layout. -/
def NodeInfo.upgrade (i : NodeInfo) (forkAt : Nat → HardFork) : NodeInfo :=
  { i with
    version := InfoVersion.current
    registrationFork := if i.version < 1 then forkAt i.registrationHeight else i.registrationFork
    recommissionCredit := if i.version < 5 then i.impliedCredit else i.recommissionCredit
    pulseSorter := if i.version < 6 then default else i.pulseSorter }

/-! ## Registries -/

/-- The stored form of a registry, if wanted without all but its quorums. -/
def Registry.stored (r : Registry) (onlyQuorums : Bool) : StoredState :=
  { version := stateVersion
    height := r.height
    nodes := if onlyQuorums then [] else r.nodes.toList
    blacklist := if onlyQuorums then [] else r.blacklist
    quorums := StoredQuorums.of r.height r.quorums
    quorumsOnly := r.quorumsOnly || onlyQuorums
    blockHash := if onlyQuorums then 0 else r.blockHash }

/-- The block hash of a stored registry, from the chain if it was not stored. -/
def StoredState.hashIn (s : StoredState) (ctx : LoadContext) : Hash :=
  if s.version = hashlessStateVersion ∨ s.blockHash = 0 then (ctx.blockHashAt? s.height).getD 0
  else s.blockHash

/-- The registry of a stored form; of two entries of one node the later counts. -/
def StoredState.registry (s : StoredState) (ctx : LoadContext) : Registry :=
  { height := s.height
    blockHash := s.hashIn ctx
    nodes := SortedMap.ofList (s.nodes.map fun n => (n.1, n.2.upgrade ctx.forkAt))
    blacklist := s.blacklist
    quorums := s.quorums.quorums
    quorumsOnly := s.quorumsOnly }

end StakeRegistry
