import StakeRegistry.Chain.Transaction
import StakeRegistry.Crypto.Keccak
import StakeRegistry.Crypto.Blake3
import StakeRegistry.Crypto.Ed25519

/-!
# The cryptographic suite

The operations that the registry's rules call upon (`CryptoSuite`), as a value: the rules
hold for any suite. `CryptoSuite.standard` is the one in use, over Keccak-256, BLAKE3 and
Ed25519. Its one-time output keys are Ed25519 keys seeded from a shared secret, so whoever
knows the secret can also prove the output's key image.
-/

set_option autoImplicit false

namespace StakeRegistry

/-- A secret shared between a transaction's sender and its receiver. -/
abbrev SharedSecret := Bytes 32

/-- What the rules need of cryptography: the hash of signed messages, checks of keys and of
signatures, one-time output keys and hidden amounts, the key pair that pays service nodes at a
height, and transport keys. -/
structure CryptoSuite where
  hash : List UInt8 → Hash
  isValidKey : PublicKey → Bool
  verify : Hash → PublicKey → Signature → Bool
  verifyKeyImage : KeyImage → PublicKey → Signature → Bool
  sharedSecret? : PublicKey → SecretKey → Option SharedSecret
  outputKey? : SharedSecret → Nat → PublicKey → Option PublicKey
  outputAmount? : SharedSecret → Nat → TxOutput → Option Nat
  payoutKeys : Nat → PublicKey × SecretKey
  toX25519? : PublicKey → Option X25519Key

namespace CryptoSuite

/-- The context in which shared secrets are derived. -/
def secretContext : String := "qc-18 service-node stake derivation v1"

/-- The context in which the payout key of a height is derived. -/
def payoutContext : String := "qc-18 service-node deterministic miner key v1"

/-- The secret shared between the holders of two keys; none for an invalid public key. -/
def standardSecret? (key : PublicKey) (secret : SecretKey) : Option SharedSecret :=
  if Ed25519.isValidKey key then
    some (Blake3.deriveKey secretContext (key.toList ++ secret.toList))
  else none

/-- The seed of the one-time key of output `index` paid to `base`. -/
def outputSeed (secret : SharedSecret) (index : Nat) (base : PublicKey) : Bytes 32 :=
  Blake3.hash (secret.toList ++ leBytes 8 index ++ base.toList)

/-- The word that hides the amount of output `index`. -/
def amountMask (secret : SharedSecret) (index : Nat) : Nat :=
  let digest := Blake3.hash (secret.toList ++ leBytes 8 index ++ "amount".toUTF8.toList)
  leNat (digest.toList.take 8)

/-- The hidden form of the amount of output `index`. -/
def hideAmount (secret : SharedSecret) (index amount : Nat) : Nat :=
  amount ^^^ amountMask secret index

/-- The amount of output `index`: the clear one unless that is zero, else the hidden one. -/
def standardAmount (secret : SharedSecret) (index : Nat) (output : TxOutput) : Nat :=
  if output.amount ≠ 0 then output.amount
  else output.maskedAmount ^^^ amountMask secret index

/-- The key pair that pays service nodes at a height. -/
def standardPayoutKeys (height : Nat) : PublicKey × SecretKey :=
  let seed := Blake3.deriveKey payoutContext (leBytes 8 height)
  (Ed25519.publicKey seed, seed)

/-- The suite in use. -/
def standard : CryptoSuite where
  hash := Keccak.hash
  isValidKey := Ed25519.isValidKey
  verify hash key signature := Ed25519.verifies key hash.toList signature
  verifyKeyImage image key signature := Ed25519.verifies key image.toList signature
  sharedSecret? := standardSecret?
  outputKey? secret index base := some (Ed25519.publicKey (outputSeed secret index base))
  outputAmount? secret index output := some (standardAmount secret index output)
  payoutKeys := standardPayoutKeys
  toX25519? key := (Ed25519.toX25519 key).toOption

end CryptoSuite

end StakeRegistry
