import StakeRegistry.Chain.HardFork
import StakeRegistry.Chain.Keys
import StakeRegistry.Crypto.Ed25519
import StakeRegistry.Crypto.Keccak
import StakeRegistry.Uptime.Ip

/-!
# Uptime proofs

The message by which a node shows that it is running: its software versions and endpoints, the
time, its keys and their signatures. The signatures cover all other fields.
-/

set_option autoImplicit false

namespace StakeRegistry

/-- A version of some software. -/
structure SoftwareVersion where
  major : Nat
  minor : Nat
  patch : Nat
  deriving DecidableEq, Inhabited

namespace SoftwareVersion

def parts (v : SoftwareVersion) : List Nat := [v.major, v.minor, v.patch]

/-- Versions are ordered by their first part that differs. -/
instance : Ord SoftwareVersion :=
  ⟨fun a b => ((compare a.major b.major).then (compare a.minor b.minor)).then
    (compare a.patch b.patch)⟩

end SoftwareVersion

/-- The version that a node of this library reports. -/
def nodeVersion : SoftwareVersion := ⟨11, 0, 0⟩

/-- An uptime proof. -/
structure UptimeProof where
  version : SoftwareVersion := ⟨0, 0, 0⟩
  storageVersion : SoftwareVersion := ⟨0, 0, 0⟩
  routerVersion : SoftwareVersion := ⟨0, 0, 0⟩
  timestamp : Nat := 0
  nodeKey : PublicKey := 0
  /-- The signature of the node's key, checked until registrations come through the bridge. -/
  signature : Signature := 0
  edKey : PublicKey := 0
  edSignature : Signature := 0
  publicIp : Nat := 0
  storageHttpsPort : Nat := 0
  storageMessagePort : Nat := 0
  quorumPort : Nat := 0
  deriving DecidableEq, Inhabited

/-- What a node advertises in its proofs. -/
structure Endpoints where
  publicIp : Nat
  storageHttpsPort : Nat
  storageMessagePort : Nat
  quorumPort : Nat
  storageVersion : SoftwareVersion
  routerVersion : SoftwareVersion
  deriving DecidableEq, Inhabited

namespace UptimeProof

/-- The bytes that are signed: every field but the signatures. -/
def signedBytes (p : UptimeProof) : List UInt8 :=
  ([p.version, p.storageVersion, p.routerVersion].flatMap fun v =>
      v.parts.flatMap (leBytes 2)) ++
    leBytes 8 p.timestamp ++ p.nodeKey.toList ++ p.edKey.toList ++ leBytes 4 p.publicIp ++
    leBytes 2 p.storageHttpsPort ++ leBytes 2 p.storageMessagePort ++ leBytes 2 p.quorumPort

def hash (p : UptimeProof) : Hash := Keccak.hash p.signedBytes

/-- The address at which other members of a quorum reach the node, if it has one. -/
def quorumAddress? (p : UptimeProof) : Option String :=
  if p.publicIp = 0 ∨ p.quorumPort = 0 then none
  else some ("tcp://" ++ dottedIp p.publicIp ++ ":" ++ toString p.quorumPort)

/-- The unsigned proof of a node at a time. -/
def unsigned (key : PublicKey) (timestamp : Nat) (endpoints : Endpoints) : UptimeProof :=
  { version := nodeVersion
    storageVersion := endpoints.storageVersion
    routerVersion := endpoints.routerVersion
    timestamp := timestamp
    nodeKey := key
    edKey := key
    publicIp := endpoints.publicIp
    storageHttpsPort := endpoints.storageHttpsPort
    storageMessagePort := endpoints.storageMessagePort
    quorumPort := endpoints.quorumPort }

/-- The proof of the node whose key has a seed. Both keys in it are the node's, and the first
signature is left out once it is no longer checked. -/
def generate (seed : Bytes 32) (fork : HardFork) (timestamp : Nat) (endpoints : Endpoints) :
    UptimeProof :=
  let proof := unsigned (Ed25519.publicKey seed) timestamp endpoints
  let signature := Ed25519.sign seed proof.hash.toList
  { proof with
    signature := if fork < HardFork.bridge then signature else 0
    edSignature := signature }

end UptimeProof

end StakeRegistry
