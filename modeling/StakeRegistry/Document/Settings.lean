import StakeRegistry.Document.Chain
import StakeRegistry.Network.Settings

/-!
# Networks and settings as documents

The constants of a network are read over those in force on it. Settings that an operator
writes are read strictly: one that is left out has its default, an unknown one is ignored, and
one of the wrong form is refused. A group of settings may be written as a record or, in the
order of its fields, as a list.
-/

set_option autoImplicit false

namespace StakeRegistry

/-! ## Networks -/

def networkNames : List (Network × String) :=
  [(.mainnet, "mainnet"), (.testnet, "testnet"), (.devnet, "devnet"), (.fakechain, "fakechain")]

instance : OfDocument Network where
  ofDocument
    | .null => .ok .fakechain
    | d => ofNames networkNames d

instance : ToDocument Network := ⟨fun n => .text (nameIn networkNames n)⟩

instance : OfDocument NetworkRules where
  ofDocument d := do
    if d.isRecord then
      let base := NetworkRules.of (← d.get "network")
      return {
        network := base.network
        stakingRequirement := ← d.getOr "staking_requirement" base.stakingRequirement
        stakingLockBlocks := ← d.getOr "staking_lock_blocks" base.stakingLockBlocks
        payableAfterBlocks := ← d.getOr "payable_after_blocks" base.payableAfterBlocks
        pulseMinNodes := ← d.getOr "pulse_min_service_nodes" base.pulseMinNodes
        proofTolerance := ← d.getOr "uptime_proof_tolerance" base.proofTolerance
        proofFrequency := ← d.getOr "uptime_proof_frequency" base.proofFrequency
        governanceInterval := ← d.getOr "governance_reward_interval" base.governanceInterval
        exitBuffer := ← d.getOr "eth_exit_buffer" base.exitBuffer }
    else return NetworkRules.of (← ofDocument d)

instance : ToDocument NetworkRules where
  toDocument r :=
    .record [entry "network" r.network, entry "is_fakechain" r.isFakechain,
      entry "staking_requirement" r.stakingRequirement,
      entry "staking_lock_blocks" r.stakingLockBlocks,
      entry "payable_after_blocks" r.payableAfterBlocks,
      entry "pulse_min_service_nodes" r.pulseMinNodes,
      entry "uptime_proof_tolerance" r.proofTolerance,
      entry "uptime_proof_frequency" r.proofFrequency,
      entry "governance_reward_interval" r.governanceInterval,
      entry "eth_exit_buffer" r.exitBuffer]

instance : OfDocument Activation := ⟨fun d => return ⟨← d.nth 0, ← d.nth 1⟩⟩

instance : ToDocument Activation := ⟨fun a => toDocument (a.fork, a.height)⟩

/-! ## Settings -/

namespace Document

/-- The last field of a record with a name. -/
def lastField? (fields : List (String × Document)) (name : String) : Option Document :=
  (fields.reverse.find? fun p => p.1 == name).map (·.2)

def toWord? : Document → Option Nat
  | .int i => if 0 ≤ i ∧ i < 0x10000000000000000 then some i.toNat else none
  | _ => none

def toBool? : Document → Option Bool
  | .bool b => some b
  | _ => none

/-- One of several names: plain text, or a record whose only field has that name and is
null. -/
def toName? : Document → Option String
  | .text s => some s
  | .record [(s, .null)] => some s
  | _ => none

def toNetwork? (d : Document) : Option Network := do
  let name ← d.toName?
  (networkNames.find? fun n => n.2 == name).map (·.1)

/-- A hard fork, written `Hf` and its number. -/
def toFork? (d : Document) : Option HardFork := do
  let name ← d.toName?
  HardFork.all.find? fun fork => "Hf" ++ toString fork.number == name

def toByte? (d : Document) : Option UInt8 := do
  let n ← d.toWord?
  if n < 256 then some (UInt8.ofNat n) else none

/-- A key, as a list of its 32 bytes. -/
def toKey? : Document → Option PublicKey
  | .list items => do Bytes.ofList? 32 (← items.mapM toByte?)
  | _ => none

def toActivation? : Document → Option Activation
  | .record fields => do
      some ⟨← (← lastField? fields "version").toFork?, ← (← lastField? fields "height").toWord?⟩
  | .list [version, height] => do some ⟨← version.toFork?, ← height.toWord?⟩
  | _ => none

def toSchedule? : Document → Option Schedule
  | .list items => items.mapM toActivation?
  | _ => none

def toNodeKey? : Document → Option (Option PublicKey)
  | .null => some none
  | d => do some (some (← d.toKey?))

/-- The reading of a setting that may be left out. -/
def orDefault {α : Type} (read : Document → Option α) (preset : α) : Option Document → Option α
  | none => some preset
  | some d => read d

end Document

/-- The settings whose values, where given, are the five arguments. -/
def Settings.ofFields? (network history localIps schedule nodeKey : Option Document) :
    Option Settings := do
  let preset : Settings := default
  return {
    network := ← Document.orDefault Document.toNetwork? preset.network network
    quorumHistory := ← Document.orDefault Document.toWord? preset.quorumHistory history
    allowLocalIps := ← Document.orDefault Document.toBool? preset.allowLocalIps localIps
    schedule := ← Document.orDefault Document.toSchedule? preset.schedule schedule
    nodeKey := ← Document.orDefault Document.toNodeKey? preset.nodeKey nodeKey }

/-- The settings that an operator has written, if they are well formed. -/
def Settings.ofWritten? : Document → Option Settings
  | .record fields =>
      Settings.ofFields? (Document.lastField? fields "network")
        (Document.lastField? fields "store_quorum_history")
        (Document.lastField? fields "debug_allow_local_ips")
        (Document.lastField? fields "hard_forks")
        (Document.lastField? fields "service_node_key")
  | .list items =>
      if items.length ≤ 5 then
        Settings.ofFields? items[0]? items[1]? items[2]? items[3]? items[4]?
      else none
  | _ => none

/-- Settings with the constants that they imply. -/
instance : ToDocument Settings where
  toDocument s :=
    .record [entry "network" s.network, entry "store_quorum_history" s.quorumHistory,
      entry "debug_allow_local_ips" s.allowLocalIps, entry "service_node_key" s.nodeKey,
      entry "hard_forks" s.schedule, entry "network_config" s.rules]

/-- Settings given for a run; the network is the fake chain unless another is named. -/
instance : OfDocument Settings where
  ofDocument d := return {
    network := ← d.get "network"
    quorumHistory := ← d.get "store_quorum_history"
    allowLocalIps := ← d.get "debug_allow_local_ips"
    schedule := ← d.get "hard_forks"
    nodeKey := ← d.get "service_node_key" }

end StakeRegistry
