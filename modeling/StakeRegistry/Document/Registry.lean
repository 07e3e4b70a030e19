import StakeRegistry.Document.Chain
import StakeRegistry.History.View
import StakeRegistry.Staking.Registration
import StakeRegistry.Staking.Stake
import StakeRegistry.Transition.Outcome

/-!
# Registries as documents

A node's entry is written without the fields that have their preset. Where nodes are listed
they may share a template, over which each gives the fields that differ.
-/

set_option autoImplicit false

namespace StakeRegistry

/-! ## Nodes -/

instance : OfDocument LockedContribution :=
  ⟨fun d => return ⟨← d.nth 0, ← d.nth 1, ← d.nth 2⟩⟩

instance : ToDocument LockedContribution :=
  ⟨fun l => .list [toDocument l.key, toDocument l.keyImage, toDocument l.amount]⟩

instance : OfDocument Contributor where
  ofDocument d := return {
    amount := ← d.get "amount"
    reserved := ← d.get "reserved"
    address := ← d.get "addr"
    locked := ← d.get "locked"
    ethAddress := ← d.get "eth" }

instance : ToDocument Contributor where
  toDocument c :=
    .record [entry "amount" c.amount, entry "reserved" c.reserved, entry "addr" c.address,
      entry "locked" c.locked, entry "eth" c.ethAddress]

instance : OfDocument InfoVersion where
  ofDocument d := do
    let n : Nat ← ofDocument d
    if h : n < 8 then return ⟨n, h⟩ else throw "entry version expected"

instance : ToDocument InfoVersion := ⟨fun v => toDocument v.val⟩

instance : OfDocument PulseSorter := ⟨fun d => return ⟨← d.nth 0, ← d.nth 1⟩⟩

instance : ToDocument PulseSorter := ⟨fun s => toDocument (s.lastHeight, s.position)⟩

/-- A node's entry with the fields that a document gives replaced. -/
def NodeInfo.override (base : NodeInfo) (d : Document) : Reading NodeInfo := return {
  version := ← d.getOr "version" base.version
  registrationFork := ← d.getOr "registration_hf_version" base.registrationFork
  requestedUnlockHeight := ← d.getOr "requested_unlock_height" base.requestedUnlockHeight
  lastRewardHeight := ← d.getOr "last_reward_block_height" base.lastRewardHeight
  lastRewardIndex := ← d.getOr "last_reward_transaction_index" base.lastRewardIndex
  decommissionCount := ← d.getOr "decommission_count" base.decommissionCount
  activeSince := ← d.getOr "active_since_height" base.activeSince
  lastDecommissionHeight := ← d.getOr "last_decommission_height" base.lastDecommissionHeight
  decommissionReasonAll :=
    ← d.getOr "last_decommission_reason_consensus_all" base.decommissionReasonAll
  decommissionReasonAny :=
    ← d.getOr "last_decommission_reason_consensus_any" base.decommissionReasonAny
  contributors := ← d.getOr "contributors" base.contributors
  totalContributed := ← d.getOr "total_contributed" base.totalContributed
  totalReserved := ← d.getOr "total_reserved" base.totalReserved
  stakingRequirement := ← d.getOr "staking_requirement" base.stakingRequirement
  operatorPortions := ← d.getOr "portions_for_operator" base.operatorPortions
  swarm := ← d.getOr "swarm_id" base.swarm
  operator := ← d.getOr "operator_address" base.operator
  ethOperator := ← d.getOr "operator_ethereum_address" base.ethOperator
  blsKey := ← d.getOr "bls_public_key" base.blsKey
  lastIpChangeHeight := ← d.getOr "last_ip_change_height" base.lastIpChangeHeight
  registrationHeight := ← d.getOr "registration_height" base.registrationHeight
  recommissionCredit := ← d.getOr "recommission_credit" base.recommissionCredit
  pulseSorter := ← d.getOr "pulse_sorter" base.pulseSorter }

instance : OfDocument NodeInfo := ⟨NodeInfo.override {}⟩

instance : ToDocument NodeInfo where
  toDocument i :=
    let base : NodeInfo := {}
    let given {α : Type} [DecidableEq α] [ToDocument α] (name : String) (get : NodeInfo → α) :
        List (String × Document) :=
      if get i = get base then [] else [entry name (get i)]
    .record <|
      given "version" (·.version) ++
      given "registration_hf_version" (·.registrationFork) ++
      given "requested_unlock_height" (·.requestedUnlockHeight) ++
      given "last_reward_block_height" (·.lastRewardHeight) ++
      given "last_reward_transaction_index" (·.lastRewardIndex) ++
      given "decommission_count" (·.decommissionCount) ++
      given "active_since_height" (·.activeSince) ++
      given "last_decommission_height" (·.lastDecommissionHeight) ++
      given "last_decommission_reason_consensus_all" (·.decommissionReasonAll) ++
      given "last_decommission_reason_consensus_any" (·.decommissionReasonAny) ++
      given "contributors" (·.contributors) ++
      given "total_contributed" (·.totalContributed) ++
      given "total_reserved" (·.totalReserved) ++
      given "staking_requirement" (·.stakingRequirement) ++
      given "portions_for_operator" (·.operatorPortions) ++
      given "swarm_id" (·.swarm) ++
      given "operator_address" (·.operator) ++
      given "operator_ethereum_address" (·.ethOperator) ++
      given "bls_public_key" (·.blsKey) ++
      given "last_ip_change_height" (·.lastIpChangeHeight) ++
      given "registration_height" (·.registrationHeight) ++
      given "recommission_credit" (·.recommissionCredit) ++
      given "pulse_sorter" (·.pulseSorter)

/-- The nodes of a record that has a template and a list of nodes. -/
def nodesOf (d : Document) : Reading NodeList := do
  let template : NodeInfo ← d.get "template"
  (← (d.field "nodes").items).mapM fun n => return (← n.nth 0, ← template.override (n.item 1))

/-! ## Quorums -/

def quorumKindNames : List (QuorumKind × String) :=
  [(.obligations, "obligations"), (.checkpointing, "checkpointing"), (.blink, "blink"),
   (.pulse, "pulse")]

instance : OfDocument QuorumKind := ⟨ofNames quorumKindNames⟩

instance : OfDocument QuorumGroup := ⟨ofNames [(.validator, "validator"), (.worker, "worker")]⟩

instance : OfDocument Quorum where
  ofDocument d := return ⟨← d.get "validators", ← d.get "workers"⟩

instance : ToDocument Quorum where
  toDocument q := .record [entry "validators" q.validators, entry "workers" q.workers]

instance : OfDocument Quorums where
  ofDocument d :=
    return ⟨← d.get "obligations", ← d.get "checkpointing", ← d.get "blink", ← d.get "pulse"⟩

instance : ToDocument Quorums where
  toDocument qs := .record (quorumKindNames.map fun (k, name) => entry name (qs.get k))

/-! ## Registries and histories -/

instance : OfDocument BlacklistEntry where
  ofDocument d := return ⟨← d.nth 0, ← d.nth 1, ← d.nth 2, ← d.nth 3⟩

instance : ToDocument BlacklistEntry where
  toDocument e :=
    .list [toDocument e.version, toDocument e.keyImage, toDocument e.unlockHeight,
      toDocument e.amount]

instance : ToDocument BlockLeader where
  toDocument l :=
    .list [toDocument l.key, toDocument l.lastRewardHeight, toDocument l.lastRewardIndex,
      toDocument l.isNull]

instance : OfDocument Registry where
  ofDocument d := return {
    height := ← d.get "height"
    blockHash := ← d.get "block_hash"
    nodes := SortedMap.ofList (← nodesOf d)
    blacklist := ← d.get "blacklist"
    quorums := ← d.get "quorums"
    quorumsOnly := ← d.get "only_stored_quorums" }

instance : ToDocument Registry where
  toDocument r :=
    .record [entry "height" r.height, entry "block_hash" r.blockHash, entry "nodes" r.nodes,
      entry "blacklist" r.blacklist, entry "quorums" r.quorums,
      entry "only_stored_quorums" r.quorumsOnly]

/-- The nodes that are gone from one registry to another, and those that are new or changed. -/
def Registry.changes (before after : Registry) : List PublicKey × NodeList :=
  (before.nodes.keys.filter fun k => !after.nodes.contains k,
    after.nodes.toList.filter fun (k, info) => before.nodes.get? k != some info)

instance : OfDocument QuorumsAt := ⟨fun d => return ⟨← d.nth 0, ← d.nth 1⟩⟩

instance : OfDocument History where
  ofDocument d := do
    let byHeight (l : List Registry) := SortedMap.ofList (l.map fun r => (r.height, r))
    let branches : List Registry ← d.get "alt"
    return { History.new (← d.get "store_quorum_history") with
      recent := byHeight (← d.get "states")
      archive := byHeight (← d.get "archive")
      alternatives := SortedMap.ofList (branches.map fun r => (r.blockHash, r))
      old := Ring.ofList (← d.get "old") }

/-- The number of heights, the first and the last. -/
def heightSpan (heights : List Nat) : Document :=
  .list [toDocument heights.length, toDocument heights.head?, toDocument heights.getLast?]

/-- A history is written as a summary of its tiers. -/
instance : ToDocument History where
  toDocument h :=
    let branches := h.alternatives.toList.map fun (hash, r) => (r.height, hash)
    .record [entry "history" (heightSpan h.recent.keys),
      entry "archive" (h.archive.toList.map fun (k, r) => (k, r.quorumsOnly)),
      entry "alt" (branches.mergeSort fun a b => decide (a.1 ≤ b.1)),
      entry "old" (heightSpan (h.old.toList.map (·.height))),
      entry "store_quorum_history" h.oldLimit,
      entry "state_added_to_archive" h.archiveChanged]

/-- A view of a head and a history, with the parent and the branches that the document adds. -/
def HistoryView.over (history : History) (d : Document) : Reading HistoryView := do
  let view := HistoryView.of (← d.get "head") history
  let parent : Option Registry ← d.get "parent"
  let view := match parent with
    | some r => view.withPrevious r
    | none => view
  let includeAlternatives : Bool ← d.get "include_alt"
  return if includeAlternatives then view.withAlternatives else view

instance : ToDocument History.Rewind where
  toDocument
    | .restored r => .record [entry "Restored" r]
    | .fromArchive r => .record [entry "FromArchive" r]
    | .reinitialise => .text "Reinitialise"

/-! ## Registrations and outcomes -/

instance : OfDocument Registration where
  ofDocument d := return {
    nodeKey := ← d.get "pubkey"
    reserved := ← d.get "reserved"
    bridgeContributions := ← d.get "eth"
    blsKey := ← d.get "bls"
    fee := ← d.get "fee"
    forkOrExpiry := ← d.get "hf"
    inPortions := ← d.get "uses_portions"
    signature := ← d.get "sig" }

instance : ToDocument Registration where
  toDocument r :=
    .record [entry "pubkey" r.nodeKey, entry "reserved" r.reserved,
      entry "eth" r.bridgeContributions, entry "bls" r.blsKey, entry "fee" r.fee,
      entry "hf" r.forkOrExpiry, entry "uses_portions" r.inPortions, entry "sig" r.signature]

instance : ToDocument Stake where
  toDocument s :=
    .record [entry "pubkey" s.nodeKey, entry "addr" s.address, entry "transferred" s.transferred,
      entry "tx_key" s.txKey, entry "locked" s.locked]

instance : ToDocument ReturnedStake := ⟨fun s => toDocument (s.address, s.amount)⟩

instance : ToDocument ReturnedStakes where
  toDocument r :=
    .record [entry "pubkey" r.nodeKey, entry "height" r.height, entry "delay_blocks" r.delay,
      entry "stakes" r.stakes]

instance : ToDocument Outcome where
  toDocument o :=
    .record [entry "registered" o.registered, entry "decommissioned" o.decommissioned,
      entry "recommissioned" o.recommissioned, entry "expired" o.expired,
      entry "returned_stakes" o.returned]

end StakeRegistry
