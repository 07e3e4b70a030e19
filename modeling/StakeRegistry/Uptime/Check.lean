import StakeRegistry.Crypto.Suite
import StakeRegistry.Data.Hex
import StakeRegistry.Network.Rules
import StakeRegistry.Uptime.Proof

/-!
# Checking uptime proofs

The checks on a proof that need no registry, in order: its time, the versions that it reports,
its address, its keys, its signatures and its port. A proof that passes yields the node's
transport key.
-/

set_option autoImplicit false

namespace StakeRegistry

/-- Software whose version a proof reports. -/
inductive Component where
  | node
  | router
  | storage
  deriving DecidableEq

def Component.name : Component → String
  | .node => "oxend"
  | .router => "lokinet"
  | .storage => "storage server"

/-- Why a proof is turned away. -/
inductive ProofRejection where
  | timestamp
  | version (component : Component) (required : SoftwareVersion) (fork : HardFork)
  | privateIp
  | mismatchedKeys
  | missingEdKey
  | transportKey
  | signature
  | edSignature
  | quorumPort
  | notRegistered
  | tooFrequent
  deriving DecidableEq

def ProofRejection.message : ProofRejection → String
  | .timestamp => "timestamp is too far from now"
  | .version component required fork =>
      component.name ++ " v" ++ bracketed (required.parts.map toString) ++
        "+ is required for HF" ++ toString fork.number ++ " proofs"
  | .privateIp => "public_ip is not actually public"
  | .mismatchedKeys => "pubkey != pubkey_ed25519 is not allowed since HF21"
  | .missingEdKey => "required ed25519 auxiliary pubkey not included in proof"
  | .transportKey => "invalid ed25519 pubkey included in proof (x25519 derivation failed)"
  | .signature => "signature validation failed"
  | .edSignature => "ed25519 signature validation failed"
  | .quorumPort => "invalid quorumnet port in uptime proof"
  | .notRegistered => "no such service node is currently registered"
  | .tooFrequent => "already received one uptime proof for this node recently"

/-! ## Versions -/

/-- The least versions from a fork on. -/
structure MinimumVersions where
  fork : HardFork
  node : SoftwareVersion
  router : SoftwareVersion
  storage : SoftwareVersion

def minimumVersions : List MinimumVersions :=
  [⟨.v19, ⟨10, 1, 0⟩, ⟨0, 9, 9⟩, ⟨2, 4, 0⟩⟩, ⟨.v21, ⟨11, 0, 0⟩, ⟨0, 9, 11⟩, ⟨2, 6, 0⟩⟩]

/-- The versions that a proof reports, each with the least one that is asked for. -/
def UptimeProof.versionsAgainst (p : UptimeProof) (least : MinimumVersions) :
    List (Component × SoftwareVersion × SoftwareVersion) :=
  [(.node, p.version, least.node), (.router, p.routerVersion, least.router),
   (.storage, p.storageVersion, least.storage)]

/-- The first version that is too low at a fork, with the least one that is asked for. -/
def UptimeProof.outdated? (p : UptimeProof) (fork : HardFork) :
    Option (Component × SoftwareVersion) :=
  let due := minimumVersions.filter fun least => decide (least.fork ≤ fork)
  ((due.flatMap p.versionsAgainst).find? fun v => (compare v.2.1 v.2.2).isLT).map
    fun v => (v.1, v.2.2)

/-! ## The check -/

/-- What a proof is checked with. -/
structure ProofContext where
  suite : CryptoSuite
  rules : NetworkRules
  /-- The fork in force. -/
  fork : HardFork
  now : Nat
  allowLocalIps : Bool

/-- Seconds between two times. -/
def timeBetween (a b : Nat) : Nat := (a - b) + (b - a)

/-- The transport key of a key, unless it is zero. -/
def transportKey? (suite : CryptoSuite) (key : PublicKey) : Option X25519Key :=
  (suite.toX25519? key).filter fun x => x != 0

/-- Whether the signatures asked for at a fork verify. -/
def UptimeProof.checkSignatures (p : UptimeProof) (ctx : ProofContext) :
    Except ProofRejection Unit :=
  if ctx.fork < HardFork.bridge ∧ !ctx.suite.verify p.hash p.nodeKey p.signature then
    .error .signature
  else if !ctx.suite.verify p.hash p.edKey p.edSignature then .error .edSignature
  else .ok ()

/-- Checks a proof; answers the node's transport key. -/
def UptimeProof.check (p : UptimeProof) (ctx : ProofContext) :
    Except ProofRejection X25519Key :=
  if ctx.rules.proofTolerance < timeBetween p.timestamp ctx.now then .error .timestamp
  else match if ctx.rules.network.enforcesProofVersions then p.outdated? ctx.fork else none with
  | some (component, required) => .error (.version component required ctx.fork)
  | none =>
      if !ctx.allowLocalIps ∧ !isPublicIp p.publicIp then .error .privateIp
      else if HardFork.bridge ≤ ctx.fork ∧ p.nodeKey ≠ p.edKey then .error .mismatchedKeys
      else if p.edKey = 0 then .error .missingEdKey
      else match transportKey? ctx.suite p.edKey with
        | none => .error .transportKey
        | some key => do
            p.checkSignatures ctx
            if p.quorumPort = 0 then .error .quorumPort else .ok key

end StakeRegistry
