import StakeRegistry.Data.Bytes

/-!
# Keys, hashes and addresses

The byte strings that name things on the chain, and wallet addresses with their bytewise
order.
-/

set_option autoImplicit false

namespace StakeRegistry

abbrev Hash := Bytes 32

abbrev PublicKey := Bytes 32

abbrev SecretKey := Bytes 32

/-- The fingerprint of a spent output. -/
abbrev KeyImage := Bytes 32

/-- An Ed25519 signature. -/
abbrev Signature := Bytes 64

/-- A key for transport encryption. -/
abbrev X25519Key := Bytes 32

/-- An account of the staking contract. -/
abbrev EthAddress := Bytes 20

/-- The key under which the staking contract knows a node. -/
abbrev BlsKey := Bytes 64

/-- A wallet address: the key that spends and the key that views. -/
structure Address where
  spend : PublicKey
  view : PublicKey
  deriving DecidableEq, Inhabited

namespace Address

/-- The address of zeros, which stands for an unset one. -/
def null : Address := ⟨0, 0⟩

def isNull (a : Address) : Bool := a == null

/-- The spend key, then the view key. -/
def bytes (a : Address) : List UInt8 := a.spend.toList ++ a.view.toList

/-- Addresses are ordered as their bytes. -/
instance : Ord Address := ⟨fun a b => (compare a.spend b.spend).then (compare a.view b.view)⟩

end Address

end StakeRegistry
