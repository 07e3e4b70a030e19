import StakeRegistry.Chain.Block
import StakeRegistry.Crypto.Suite
import StakeRegistry.History.View

/-!
# Context

What a block is checked and applied with: the rules of the network, cryptography, the chain
and the registry's past.
-/

set_option autoImplicit false

namespace StakeRegistry

/-- The surroundings of a block. -/
structure Context where
  rules : NetworkRules
  suite : CryptoSuite
  chain : ChainReader
  view : HistoryView

end StakeRegistry
