import StakeRegistry.Crypto.Ed25519
import StakeRegistry.Document.Basic
import StakeRegistry.Error

/-!
# Errors as documents

An error is written as the name of its kind and its message.
-/

set_option autoImplicit false

namespace StakeRegistry

/-- A failure of a kind, with a message. -/
def failure (kind message : String) : Document :=
  .record [entry "error" kind, entry "message" message]

def CryptoError.kind : CryptoError → String
  | .signatureVerificationFailed => "SignatureVerificationFailed"
  | .invalidPublicKey => "InvalidPublicKey"
  | .x25519DerivationFailed => "X25519DerivationFailed"
  | .invalidInput _ => "InvalidInput"

def BlockError.kind : BlockError → String
  | .wrongWinner .. => "WrongWinner"
  | .insufficientPulseNodes .. => "InsufficientPulseNodes"
  | .leaderNotProducer .. => "Round0ProducerMismatch"
  | .unknownProducer .. => "UnknownProducer"
  | .outputCount .. => "OutputCount"
  | .nonZeroMinerReward .. => "NonZeroMinerReward"
  | .outputIndexOutOfBounds .. => "OutputIndexOutOfBounds"
  | .rewardAmount .. => "RewardAmount"
  | .rewardKey .. => "RewardKey"
  | .batchedPayment .. => "BatchedPayment"
  | .batchedTotal .. => "BatchedTotal"
  | .missingCheckpointQuorum .. => "MissingCheckpointQuorum"
  | .checkpointRefused .. => "CheckpointVerification"
  | .components .. => "BlockComponents"

def StoreError.kind : StoreError → String
  | .unreadable _ => "Deserialization"
  | .unsortedQuorums => "Corrupt"
  | .noHead => "Corrupt"
  | .strippedHead => "Corrupt"
  | .backend _ => "Storage"

def RegistryError.kind : RegistryError → String
  | .block e => "BlockVerification." ++ e.kind
  | .store e => "Persistence." ++ e.kind
  | .nonSequentialBlock .. => "NonSequentialBlock"
  | .missingBlock _ => "MissingBlock"
  | .missingAltParent _ => "MissingAltParent"
  | .unknownBlsKey _ => "UnknownBlsKey"
  | .fault _ => "InvariantViolation"

instance : ToDocument CryptoError := ⟨fun e => failure e.kind e.message⟩

instance : ToDocument RegistrationError := ⟨fun e => failure "Registration" e.message⟩

instance : ToDocument VerifyError := ⟨fun e => failure "Verify" e.message⟩

instance : ToDocument RegistryError := ⟨fun e => failure e.kind e.message⟩

instance : ToDocument BlockError := ⟨fun e => toDocument (RegistryError.block e)⟩

instance : ToDocument StoreError := ⟨fun e => toDocument (RegistryError.store e)⟩

/-- Success without a value. -/
instance : ToDocument Unit := ⟨fun _ => .text "ok"⟩

instance {ε α : Type} [ToDocument ε] [ToDocument α] : ToDocument (Except ε α) where
  toDocument
    | .ok a => toDocument a
    | .error e => toDocument e

end StakeRegistry
