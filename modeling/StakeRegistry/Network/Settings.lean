import StakeRegistry.Network.Rules
import StakeRegistry.Network.Schedule
import StakeRegistry.Chain.Keys

/-!
# Settings

What an operator configures.
-/

set_option autoImplicit false

namespace StakeRegistry

/-- The configuration of a registry. -/
structure Settings where
  network : Network
  /-- How many blocks the quorums of past heights are kept: 0 keeps none, 1 all of them. -/
  quorumHistory : Nat
  /-- Whether uptime proofs may name private addresses. -/
  allowLocalIps : Bool
  schedule : Schedule
  /-- The key of the local node, if this is one. -/
  nodeKey : Option PublicKey

namespace Settings

instance : Inhabited Settings := ⟨⟨.mainnet, 0, false, Schedule.mainnet, none⟩⟩

/-- The constants of the configured network. -/
def rules (settings : Settings) : NetworkRules := NetworkRules.of settings.network

end Settings

end StakeRegistry
