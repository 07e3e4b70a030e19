import StakeRegistry.Live.Storage
import StakeRegistry.Uptime.Check

/-!
# Uptime proofs of a running node

Proofs that arrive, are made or grow old, and reports on nodes: what others saw of their
services and of their part in checkpoints, Pulse blocks and time checks. Reports on nodes that
are not registered are dropped.
-/

set_option autoImplicit false

namespace StakeRegistry

/-- What became of an accepted proof: whether it is the local node's own, come back from the
network, and the transport key if it is a new one. -/
structure ProofAcceptance where
  isOwn : Bool
  newTransportKey : Option X25519Key
  deriving DecidableEq

/-- A service of a node whose reachability others report. -/
inductive PeerService where
  | storage
  | router
  deriving DecidableEq

/-- The reports on a service in a record. -/
def NodeRecord.reports (r : NodeRecord) : PeerService → Reachability
  | .storage => r.storage
  | .router => r.router

/-- Changes the reports on a service. -/
def NodeRecord.mapReports (r : NodeRecord) (service : PeerService)
    (f : Reachability → Reachability) : NodeRecord :=
  match service with
  | .storage => { r with storage := f r.storage }
  | .router => { r with router := f r.router }

namespace LiveRegistry

/-! ## The local node -/

/-- Sets the local node's key pair by its seed; without one the configured key stays. -/
def setSeed (l : LiveRegistry) (seed : Option (Bytes 32)) : LiveRegistry :=
  { l with
    seed := seed
    localKey := (seed.map Ed25519.publicKey).or l.settings.nodeKey }

/-- The local node's proof, if its key pair is known. -/
def ownProof? (l : LiveRegistry) (s : Surroundings) (endpoints : Endpoints) : Option UptimeProof :=
  l.seed.map fun seed => UptimeProof.generate seed (l.chainFork s) s.now endpoints

/-! ## Proofs -/

def proofContext (l : LiveRegistry) (s : Surroundings) : ProofContext :=
  ⟨s.suite, l.rules, l.chainFork s, s.now, l.settings.allowLocalIps⟩

/-- Takes over an accepted proof and the transport key that it yields. It is stored if it says
anything new. -/
def takeProof (l : LiveRegistry) (s : Surroundings) (proof : UptimeProof) (key : X25519Key) :
    LiveRegistry :=
  let record := l.recordOf proof.nodeKey
  let transport := l.transport.record proof.nodeKey record.transportKey key s.now
  let next := { l.changeRecord proof.nodeKey (·.mapStored (·.update s.now proof key)) with
    transport := transport }
  if record.changedBy s.now proof then next.saveRecords s [proof.nodeKey] else next

/-- Takes a proof from the network. The node has a record from then on, even if its proof is
turned away because it comes too soon. -/
def handleProof (l : LiveRegistry) (s : Surroundings) (proof : UptimeProof) :
    LiveResult ProofRejection ProofAcceptance :=
  match proof.check (l.proofContext s) with
  | .error e => (.error e, l)
  | .ok key =>
      if !l.head.nodes.contains proof.nodeKey then (.error .notRegistered, l)
      else
        let record := l.recordOf proof.nodeKey
        if record.tooFrequent l.rules s.now then
          (.error .tooFrequent, l.changeRecord proof.nodeKey id)
        else
          (.ok {
              isOwn := l.localKey == some proof.nodeKey
              newTransportKey :=
                if key ≠ 0 ∧ key ≠ record.transportKey then some key else none },
            l.takeProof s proof key)

/-- Drops the records of nodes that left long ago. -/
def dropExpiredRecords (l : LiveRegistry) (s : Surroundings) : LiveResult RegistryError Unit :=
  match l.records.expired l.head s.now, s.writeFault with
  | [], _ => (.ok (), l)
  | _ :: _, some reason => (.error (.store (.backend reason)), l)
  | expired@(_ :: _), none =>
      (.ok (),
        { l with
          store := expired.foldl (fun store node => store.erase (Store.recordKey node)) l.store
          records := expired.foldl (fun records node => records.erase node) l.records })

/-! ## Reports -/

/-- Takes a report on a service of a node; answers whether the node is registered. -/
def reportReachable (l : LiveRegistry) (s : Surroundings) (service : PeerService)
    (node : PublicKey) (reachable : Bool) : Bool × LiveRegistry :=
  (l.head.nodes.contains node,
    l.noteRegistered node (·.mapReports service (·.report reachable s.now)))

/-- Whether a service of a node answers, as far as that is known. -/
def answers? (l : LiveRegistry) (s : Surroundings) (service : PeerService) (node : PublicKey) :
    Option Bool :=
  (l.records.get? node).bind fun r => (r.reports service).answers? s.now

/-- Whether a service of a node is known to have failed for `threshold` seconds. -/
def unreachableFor (l : LiveRegistry) (s : Surroundings) (service : PeerService)
    (node : PublicKey) (threshold : Nat) : Bool :=
  (l.records.get? node).any fun r => (r.reports service).unreachableFor threshold s.now

/-! ## Transport -/

/-- The address of the registered node that holds a transport key, if its proof has one. -/
def addressOf? (l : LiveRegistry) (key : X25519Key) : Option String := do
  let node ← l.transport.nodeOf? key
  if l.head.nodes.contains node then (← l.records.get? node).proof.quorumAddress? else none

end LiveRegistry

end StakeRegistry
