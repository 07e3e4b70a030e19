import StakeRegistry.Crypto.Edwards
import StakeRegistry.Crypto.Sha512

/-!
# Ed25519

Signatures over the Edwards curve: deterministic signing from a 32-byte seed, verification
by recomputing the signature's point, and the Montgomery form of a public key for transport
encryption. Verification refuses a scalar that is not reduced, and compares the recomputed
point with the signature byte for byte.
-/

set_option autoImplicit false

namespace StakeRegistry

/-- Why a key or a signature is refused. -/
inductive CryptoError where
  | signatureVerificationFailed
  | invalidPublicKey
  | x25519DerivationFailed
  | invalidInput (what : String)
  deriving DecidableEq

def CryptoError.message : CryptoError → String
  | .signatureVerificationFailed => "Signature verification failed"
  | .invalidPublicKey => "Invalid public key"
  | .x25519DerivationFailed => "x25519 derivation failed"
  | .invalidInput what => "Invalid input: " ++ what

namespace Ed25519

/-- A number below the group order from the 64 bytes of a hash. -/
def scalarOfHash (h : Bytes 64) : Nat := h.toNatLE % Edwards.groupOrder

/-- The secret scalar of a seed: the low half of its hash, with the three lowest bits and
the top bit cleared and the bit below the top set. -/
def secretScalar (seed : Bytes 32) : Nat :=
  let n := leNat ((Sha512.hash seed.toList).toList.take 32)
  n % Nat.pow 2 254 / 8 * 8 + Nat.pow 2 254

/-- The half of the seed's hash that makes signatures deterministic. -/
def nonceKey (seed : Bytes 32) : List UInt8 := (Sha512.hash seed.toList).toList.drop 32

/-- The public key of a seed. -/
def publicKey (seed : Bytes 32) : Bytes 32 :=
  (Edwards.Point.base.smul (secretScalar seed)).encode

/-- The scalar that ties a signature's point to the key and the message. -/
def challenge (point key : Bytes 32) (message : List UInt8) : Nat :=
  scalarOfHash (Sha512.hash (point.toList ++ key.toList ++ message))

/-- The signature of a message under a seed. -/
def sign (seed : Bytes 32) (message : List UInt8) : Bytes 64 :=
  let r := scalarOfHash (Sha512.hash (nonceKey seed ++ message))
  let point := (Edwards.Point.base.smul r).encode
  let k := challenge point (publicKey seed) message
  let s := (k * secretScalar seed + r) % Edwards.groupOrder
  Bytes.ofListPad 64 (point.toList ++ leBytes 32 s)

/-- Whether 32 bytes encode a point of the curve. -/
def isValidKey (key : Bytes 32) : Bool := (Edwards.Point.decode? key).isSome

/-- Verifies a signature. -/
def verify (key : Bytes 32) (message : List UInt8) (signature : Bytes 64) :
    Except CryptoError Unit :=
  (Edwards.Point.decode? key).elim (.error .invalidPublicKey) fun a =>
    let point := Bytes.ofListPad 32 (signature.toList.take 32)
    let s := leNat (signature.toList.drop 32)
    if s < Edwards.groupOrder ∧
        ((Edwards.Point.base.smul s).add (a.neg.smul (challenge point key message))).encode
          = point then
      .ok ()
    else .error .signatureVerificationFailed

/-- Whether a signature verifies; false for a key that is no point. -/
def verifies (key : Bytes 32) (message : List UInt8) (signature : Bytes 64) : Bool :=
  (verify key message signature).isOk

/-- The transport key of a public key: its Montgomery form, unless that is zero. -/
def toX25519 (key : Bytes 32) : Except CryptoError (Bytes 32) :=
  (Edwards.Point.decode? key).elim (.error .invalidPublicKey) fun a =>
    let u := a.montgomeryU
    if u = 0 then .error .x25519DerivationFailed else .ok (Bytes.ofNatLE 32 u)

end Ed25519

end StakeRegistry
