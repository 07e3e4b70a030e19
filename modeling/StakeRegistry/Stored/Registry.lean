import StakeRegistry.Registry.Basic
import StakeRegistry.Stored.Chain

/-!
# The layout of registries

Registries in the form in which they are stored: entries and registries carry the version of
their layout, a registry of which only the quorums are needed has no entries, and the quorums
of one height are a list with a slot for each kind.
-/

set_option autoImplicit false

namespace StakeRegistry

open Codec (bytes sizedBytes flag u8 u16 u32 u64 i64)

/-! ## Entries -/

def InfoVersion.codec : Codec InfoVersion := .oneOf [0, 1, 2, 3, 4, 5, 6, 7]

def LockedContribution.codec : Codec LockedContribution :=
  ((bytes 32).pair <| (bytes 32).pair u64).map (fun (key, image, amount) => ⟨key, image, amount⟩)
    fun l => (l.key, l.keyImage, l.amount)

def Contributor.codec : Codec Contributor :=
  (u64.pair <| u64.pair <| Address.codec.pair <| LockedContribution.codec.list.pair <|
    bytes 20).map
    (fun (amount, reserved, address, locked, eth) => ⟨amount, reserved, address, locked, eth⟩)
    fun c => (c.amount, c.reserved, c.address, c.locked, c.ethAddress)

def PulseSorter.codec : Codec PulseSorter :=
  (u64.pair u8).map (fun (height, position) => ⟨height, position⟩)
    fun s => (s.lastHeight, s.position)

def NodeInfo.codec : Codec NodeInfo :=
  (InfoVersion.codec.pair <| HardFork.codec.pair <| u64.pair <| u64.pair <| u32.pair <|
    u32.pair <| i64.pair <| u64.pair <| u16.pair <| u16.pair <| Contributor.codec.list.pair <|
    u64.pair <| u64.pair <| u64.pair <| u64.pair <| u64.pair <| Address.codec.pair <|
    (bytes 20).pair <| (sizedBytes 64).pair <| u64.pair <| u64.pair <| i64.pair <|
    PulseSorter.codec).map
    (fun (version, fork, unlock, rewardHeight, rewardIndex, count, active, decommissioned, all, any,
        contributors, contributed, reserved, requirement, portions, swarm, operator, eth, bls,
        ipChange, registered, credit, sorter) =>
      ⟨version, fork, unlock, rewardHeight, rewardIndex, count, active, decommissioned, all, any,
        contributors, contributed, reserved, requirement, portions, swarm, operator, eth, bls,
        ipChange, registered, credit, sorter⟩)
    fun i => (i.version, i.registrationFork, i.requestedUnlockHeight, i.lastRewardHeight,
      i.lastRewardIndex, i.decommissionCount, i.activeSince, i.lastDecommissionHeight,
      i.decommissionReasonAll, i.decommissionReasonAny, i.contributors, i.totalContributed,
      i.totalReserved, i.stakingRequirement, i.operatorPortions, i.swarm, i.operator,
      i.ethOperator, i.blsKey, i.lastIpChangeHeight, i.registrationHeight, i.recommissionCredit,
      i.pulseSorter)

def BlacklistEntry.codec : Codec BlacklistEntry :=
  (u8.pair <| (bytes 32).pair <| u64.pair u64).map
    (fun (version, image, height, amount) => ⟨version, image, height, amount⟩)
    fun e => (e.version, e.keyImage, e.unlockHeight, e.amount)

/-! ## Quorums -/

def Quorum.codec : Codec Quorum :=
  ((bytes 32).list.pair (bytes 32).list).map (fun (validators, workers) => ⟨validators, workers⟩)
    fun q => (q.validators, q.workers)

/-- The stored quorums of one height, in slots in the order of their kinds. -/
structure StoredQuorums where
  version : Nat
  height : Nat
  slots : List (Option Quorum)
  deriving DecidableEq, Inhabited

def StoredQuorums.codec : Codec StoredQuorums :=
  (u8.pair <| u64.pair Quorum.codec.option.list).map
    (fun (version, height, slots) => ⟨version, height, slots⟩)
    fun q => (q.version, q.height, q.slots)

/-- The stored form of the quorums of a height. -/
def StoredQuorums.of (height : Nat) (quorums : Quorums) : StoredQuorums :=
  ⟨0, height, QuorumKind.all.map quorums.get⟩

/-- The quorums of stored slots: kinds without a slot have none, slots beyond the kinds do not
count. -/
def StoredQuorums.quorums (stored : StoredQuorums) : Quorums :=
  (QuorumKind.all.zip stored.slots).foldl (fun qs slot => qs.set slot.1 slot.2) Quorums.none

/-! ## Registries -/

/-- A stored registry. -/
structure StoredState where
  version : Nat
  height : Nat
  nodes : NodeList
  blacklist : List BlacklistEntry
  quorums : StoredQuorums
  quorumsOnly : Bool
  blockHash : Hash
  deriving DecidableEq, Inhabited

def StoredState.codec : Codec StoredState :=
  (u8.pair <| u64.pair <| ((bytes 32).pair NodeInfo.codec).list.pair <|
    BlacklistEntry.codec.list.pair <| StoredQuorums.codec.pair <| flag.pair <| bytes 32).map
    (fun (version, height, nodes, blacklist, quorums, quorumsOnly, hash) =>
      ⟨version, height, nodes, blacklist, quorums, quorumsOnly, hash⟩)
    fun s => (s.version, s.height, s.nodes, s.blacklist, s.quorums, s.quorumsOnly, s.blockHash)

/-- Stored registries, with stored quorums of heights whose registries are gone. -/
structure StoredData where
  version : Nat
  quorums : List StoredQuorums
  states : List StoredState
  deriving DecidableEq, Inhabited

def StoredData.codec : Codec StoredData :=
  (u8.pair <| StoredQuorums.codec.list.pair StoredState.codec.list).map
    (fun (version, quorums, states) => ⟨version, quorums, states⟩)
    fun d => (d.version, d.quorums, d.states)

end StakeRegistry
