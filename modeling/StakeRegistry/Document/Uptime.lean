import StakeRegistry.Document.Errors
import StakeRegistry.Document.Chain
import StakeRegistry.Uptime.Check
import StakeRegistry.Uptime.Record

/-!
# Uptime proofs as documents
-/

set_option autoImplicit false

namespace StakeRegistry

instance : OfDocument SoftwareVersion :=
  ⟨fun d => return ⟨← d.nth 0, ← d.nth 1, ← d.nth 2⟩⟩

instance : ToDocument SoftwareVersion := ⟨fun v => toDocument v.parts⟩

instance : OfDocument UptimeProof where
  ofDocument d := return {
    version := ← d.get "version"
    storageVersion := ← d.get "storage_server_version"
    routerVersion := ← d.get "lokinet_version"
    timestamp := ← d.get "timestamp"
    nodeKey := ← d.get "pubkey"
    signature := ← d.get "sig"
    edKey := ← d.get "pubkey_ed25519"
    edSignature := ← d.get "sig_ed25519"
    publicIp := ← d.get "public_ip"
    storageHttpsPort := ← d.get "storage_https_port"
    storageMessagePort := ← d.get "storage_omq_port"
    quorumPort := ← d.get "qnet_port" }

instance : ToDocument UptimeProof where
  toDocument p :=
    .record [entry "version" p.version, entry "storage_server_version" p.storageVersion,
      entry "lokinet_version" p.routerVersion, entry "timestamp" p.timestamp,
      entry "pubkey" p.nodeKey, entry "sig" p.signature, entry "pubkey_ed25519" p.edKey,
      entry "sig_ed25519" p.edSignature, entry "public_ip" p.publicIp,
      entry "storage_https_port" p.storageHttpsPort,
      entry "storage_omq_port" p.storageMessagePort, entry "qnet_port" p.quorumPort]

instance : OfDocument Endpoints where
  ofDocument d := return {
    publicIp := ← d.get "public_ip"
    storageHttpsPort := ← d.get "storage_https_port"
    storageMessagePort := ← d.get "storage_omq_port"
    quorumPort := ← d.get "qnet_port"
    storageVersion := ← d.get "storage_server_version"
    routerVersion := ← d.get "lokinet_version" }

/-- The name of a rejection, and a short label for it. -/
def ProofRejection.names : ProofRejection → String × String
  | .timestamp => ("Timestamp", "timestamp")
  | .version .. => ("Version", "version")
  | .privateIp => ("PrivateIp", "private_ip")
  | .mismatchedKeys => ("MismatchedKeys", "mismatched_keys")
  | .missingEdKey => ("MissingEd25519Key", "missing_ed25519")
  | .transportKey => ("X25519Derivation", "x25519")
  | .signature => ("Signature", "signature")
  | .edSignature => ("Ed25519Signature", "ed25519_signature")
  | .quorumPort => ("QuorumnetPort", "qnet_port")
  | .notRegistered => ("NotRegistered", "not_registered")
  | .tooFrequent => ("TooFrequent", "too_frequent")

instance : ToDocument ProofRejection where
  toDocument e :=
    .record [entry "error" ("ProofRejection." ++ e.names.1), entry "message" e.message,
      entry "label" e.names.2]

instance : OfDocument SeenIp := ⟨fun d => return ⟨← d.nth 0, ← d.nth 1⟩⟩

instance : ToDocument SeenIp := ⟨fun s => toDocument (s.ip, s.time)⟩

instance : OfDocument NodeRecord where
  ofDocument d := return .ofStored {
    proof := ← d.get "proof"
    timestamp := ← d.get "timestamp"
    effectiveTimestamp := ← d.get "effective_timestamp"
    firstIp := ← (d.field "public_ips").nth 0
    secondIp := ← (d.field "public_ips").nth 1
    transportKey := ← d.get "pubkey_x25519" }

instance : ToDocument CheckpointEntry := ⟨fun e => toDocument (e.height, e.participated)⟩

instance : ToDocument PulseEntry :=
  ⟨fun e => .list [toDocument e.height, toDocument e.round, toDocument e.participated]⟩

instance : ToDocument Reachability :=
  ⟨fun r => toDocument [r.lastReachable, r.firstUnreachable, r.lastUnreachable]⟩

/-- The failures in each of the lists of a participation. -/
def Participation.failures (p : Participation) : List Nat :=
  [(p.checkpoints.map (·.participated)).count false, (p.pulse.map (·.participated)).count false,
    p.timestamps.count false, p.timesync.count false]

instance : ToDocument NodeRecord where
  toDocument r :=
    .record [entry "proof" r.proof, entry "timestamp" r.timestamp,
      entry "effective_timestamp" r.effectiveTimestamp,
      entry "public_ips" [r.firstIp, r.secondIp], entry "pubkey_x25519" r.transportKey,
      entry "checkpoint" r.participation.checkpoints, entry "pulse" r.participation.pulse,
      entry "timestamps" r.participation.timestamps, entry "timesync" r.participation.timesync,
      entry "failures" r.participation.failures, entry "ss_reachable" r.storage,
      entry "lokinet_reachable" r.router]

end StakeRegistry
