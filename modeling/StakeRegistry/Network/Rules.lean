/-!
# Networks

The four networks and the constants that differ between them.
-/

set_option autoImplicit false

namespace StakeRegistry

/-- A network that nodes run on. On the fake chain the rules of timing are relaxed. -/
inductive Network where
  | mainnet
  | testnet
  | devnet
  | fakechain
  deriving DecidableEq, Inhabited

/-- The atomic units of one coin. -/
def coin : Nat := 1000000000

/-- The constants of a network. -/
structure NetworkRules where
  network : Network
  /-- The stake that a node needs. -/
  stakingRequirement : Nat
  /-- The length of a lock period, in blocks. -/
  stakingLockBlocks : Nat
  /-- Blocks that a node must be active before it is paid. -/
  payableAfterBlocks : Nat
  /-- Active nodes below which no Pulse quorum is formed. -/
  pulseMinNodes : Nat
  /-- Seconds by which the time in an uptime proof may differ from the clock. -/
  proofTolerance : Nat
  /-- Seconds between a node's uptime proofs. -/
  proofFrequency : Nat
  /-- Blocks between governance payments. -/
  governanceInterval : Nat
  /-- Blocks for which an expired bridge node is remembered. -/
  exitBuffer : Nat
  deriving DecidableEq

namespace NetworkRules

/-- The constants in force on a network. -/
def of : Network → NetworkRules
  | .mainnet => ⟨.mainnet, 15000 * coin, 21600, 720, 50, 300, 3600, 5040, 720⟩
  | .testnet => ⟨.testnet, 100 * coin, 1440, 4, 12, 300, 600, 1000, 720⟩
  | .devnet => ⟨.devnet, 100 * coin, 1440, 4, 12, 300, 600, 1000, 720⟩
  | .fakechain => ⟨.fakechain, 100 * coin, 30, 1, 12, 300, 600, 100, 720⟩

def isFakechain (rules : NetworkRules) : Bool := rules.network == .fakechain

end NetworkRules

/-- Whether a network asks uptime proofs for minimum software versions. -/
def Network.enforcesProofVersions (network : Network) : Bool := network != .devnet

end StakeRegistry
