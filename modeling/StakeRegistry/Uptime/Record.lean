import StakeRegistry.Data.Word
import StakeRegistry.Network.Rules
import StakeRegistry.Uptime.Proof

/-!
# What is known of a node

The last uptime proof of a node, when it came and from which addresses, and what others have
seen of the node since: how it took part in checkpoints, Pulse blocks and time checks, and
whether its services answered. Only the proof, its times, the addresses and the transport key
are stored.
-/

set_option autoImplicit false

namespace StakeRegistry

/-! ## Participation -/

/-- Whether a node signed the checkpoint of a height. -/
structure CheckpointEntry where
  height : Nat
  participated : Bool
  deriving DecidableEq, Inhabited

/-- Whether a node signed the Pulse block of a height and round. -/
structure PulseEntry where
  height : Nat
  round : Nat
  participated : Bool
  deriving DecidableEq, Inhabited

/-- A list with an entry added; beyond `limit` entries the oldest ones are dropped. -/
def keepLast {α : Type} (limit : Nat) (entries : List α) (entry : α) : List α :=
  let entries := entries ++ [entry]
  entries.drop (entries.length - limit)

/-- Checkpoints that are remembered. -/
def checkpointEntries : Nat := 8

/-- Pulse blocks that are remembered. -/
def pulseEntries : Nat := 8

/-- Time checks that are remembered. -/
def timeEntries : Nat := 16

/-- How a node took part in its duties of late, each list oldest first. -/
structure Participation where
  checkpoints : List CheckpointEntry := []
  pulse : List PulseEntry := []
  timestamps : List Bool := []
  timesync : List Bool := []
  deriving DecidableEq, Inhabited

namespace Participation

def addCheckpoint (p : Participation) (e : CheckpointEntry) : Participation :=
  { p with checkpoints := keepLast checkpointEntries p.checkpoints e }

def addPulse (p : Participation) (e : PulseEntry) : Participation :=
  { p with pulse := keepLast pulseEntries p.pulse e }

def addTimestamp (p : Participation) (participated : Bool) : Participation :=
  { p with timestamps := keepLast timeEntries p.timestamps participated }

def addTimesync (p : Participation) (inSync : Bool) : Participation :=
  { p with timesync := keepLast timeEntries p.timesync inSync }

end Participation

/-! ## Reachability -/

/-- Reports of whether a service of a node answered. -/
structure Reachability where
  lastReachable : Option Nat := none
  /-- The first of the failures that no success has followed. -/
  firstUnreachable : Option Nat := none
  lastUnreachable : Option Nat := none
  deriving DecidableEq, Inhabited

/-- Seconds for which a failure counts. -/
def failureValidity : Nat := 300

namespace Reachability

/-- Takes a report. -/
def report (r : Reachability) (reachable : Bool) (now : Nat) : Reachability :=
  if reachable then { r with lastReachable := some now, firstUnreachable := none }
  else
    { r with
      lastUnreachable := some now
      firstUnreachable := some (r.firstUnreachable.getD now) }

/-- Whether no failure is later than the last success. -/
def latestIsGood (r : Reachability) : Bool :=
  match r.lastUnreachable, r.lastReachable with
  | none, _ => true
  | some _, none => false
  | some failure, some success => decide (failure ≤ success)

/-- Whether the service answers, as far as that is known: a failure counts for a time. -/
def answers? (r : Reachability) (now : Nat) : Option Bool :=
  if r.latestIsGood then some true
  else if r.lastUnreachable.any fun failure => decide (now < wrapAdd failure failureValidity) then
    some false
  else none

/-- Whether the service is known to have failed for `threshold` seconds without a success. -/
def unreachableFor (r : Reachability) (threshold now : Nat) : Bool :=
  r.answers? now == some false &&
    r.firstUnreachable.all fun first => decide (wrapAdd first threshold ≤ now)

end Reachability

/-! ## Records -/

/-- An address and the time at which it was last seen. -/
structure SeenIp where
  ip : Nat := 0
  time : Nat := 0
  deriving DecidableEq, Inhabited

/-- The part of a record that is stored. -/
structure ProofRecord where
  proof : UptimeProof := {}
  /-- When the proof arrived. -/
  timestamp : Nat := 0
  /-- When the proof arrived, or the node was recommissioned if that is later. -/
  effectiveTimestamp : Nat := 0
  /-- The two addresses that were seen last. -/
  firstIp : SeenIp := {}
  secondIp : SeenIp := {}
  transportKey : X25519Key := 0
  deriving DecidableEq, Inhabited

/-- Everything known of a node. -/
structure NodeRecord extends ProofRecord where
  participation : Participation := {}
  storage : Reachability := {}
  router : Reachability := {}
  deriving DecidableEq, Inhabited

namespace ProofRecord

/-- Notes an address: at its entry if it has one, else in place of the one seen longer ago, of
two seen at once the first. -/
def seeIp (r : ProofRecord) (ip now : Nat) : ProofRecord :=
  if r.firstIp.ip ≠ 0 ∧ r.firstIp.ip = ip then { r with firstIp := ⟨ip, now⟩ }
  else if r.secondIp.ip ≠ 0 ∧ r.secondIp.ip = ip then { r with secondIp := ⟨ip, now⟩ }
  else if r.secondIp.time < r.firstIp.time then { r with secondIp := ⟨ip, now⟩ }
  else { r with firstIp := ⟨ip, now⟩ }

/-- Takes an accepted proof. -/
def update (r : ProofRecord) (now : Nat) (proof : UptimeProof) (key : X25519Key) : ProofRecord :=
  { r with
    proof := proof
    timestamp := now
    effectiveTimestamp := now
    transportKey := key }.seeIp proof.publicIp now

/-- Whether a proof or its time of arrival is new. -/
def changedBy (r : ProofRecord) (now : Nat) (proof : UptimeProof) : Bool :=
  r.proof != proof || r.timestamp != now

/-- Whether a proof comes too soon after the last one. -/
def tooFrequent (r : ProofRecord) (rules : NetworkRules) (now : Nat) : Bool :=
  decide (now ≤ wrapAdd r.timestamp (rules.proofFrequency / 2))

/-- Forgets the times, so that only a fresh proof counts. -/
def clearTimes (r : ProofRecord) : ProofRecord :=
  { r with timestamp := 0, effectiveTimestamp := 0 }

end ProofRecord

namespace NodeRecord

/-- The record of a node of which nothing but the stored part is known. -/
def ofStored (r : ProofRecord) : NodeRecord := { toProofRecord := r }

/-- Changes the stored part. -/
def mapStored (r : NodeRecord) (f : ProofRecord → ProofRecord) : NodeRecord :=
  { r with toProofRecord := f r.toProofRecord }

/-- Changes what is known of the node's participation. -/
def mapParticipation (r : NodeRecord) (f : Participation → Participation) : NodeRecord :=
  { r with participation := f r.participation }

/-- A node that was recommissioned counts as seen then, and its participation starts anew. -/
def recommissioned (r : NodeRecord) (blockTime : Nat) : NodeRecord :=
  { r with effectiveTimestamp := blockTime, participation := {} }

end NodeRecord

end StakeRegistry
