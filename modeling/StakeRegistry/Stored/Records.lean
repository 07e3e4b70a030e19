import StakeRegistry.Stored.Codec
import StakeRegistry.Uptime.Record

/-!
# The layout of uptime proofs

The part of a node's record that is stored, field by field.
-/

set_option autoImplicit false

namespace StakeRegistry

open Codec (bytes sizedBytes u16 u32 u64)

def SoftwareVersion.codec : Codec SoftwareVersion :=
  (u16.pair <| u16.pair u16).map (fun (major, minor, patch) => ⟨major, minor, patch⟩)
    fun v => (v.major, v.minor, v.patch)

def UptimeProof.codec : Codec UptimeProof :=
  (SoftwareVersion.codec.pair <| SoftwareVersion.codec.pair <| SoftwareVersion.codec.pair <|
    u64.pair <| (bytes 32).pair <| (sizedBytes 64).pair <| (bytes 32).pair <|
    (sizedBytes 64).pair <| u32.pair <| u16.pair <| u16.pair u16).map
    (fun (version, storage, router, time, key, signature, edKey, edSignature, ip, https, message,
        quorum) =>
      ⟨version, storage, router, time, key, signature, edKey, edSignature, ip, https, message,
        quorum⟩)
    fun p => (p.version, p.storageVersion, p.routerVersion, p.timestamp, p.nodeKey, p.signature,
      p.edKey, p.edSignature, p.publicIp, p.storageHttpsPort, p.storageMessagePort, p.quorumPort)

def SeenIp.codec : Codec SeenIp :=
  (u32.pair u64).map (fun (ip, time) => ⟨ip, time⟩) fun s => (s.ip, s.time)

def ProofRecord.codec : Codec ProofRecord :=
  (UptimeProof.codec.pair <| u64.pair <| u64.pair <| SeenIp.codec.pair <| SeenIp.codec.pair <|
    bytes 32).map
    (fun (proof, time, effective, first, second, key) =>
      ⟨proof, time, effective, first, second, key⟩)
    fun r => (r.proof, r.timestamp, r.effectiveTimestamp, r.firstIp, r.secondIp, r.transportKey)

end StakeRegistry
