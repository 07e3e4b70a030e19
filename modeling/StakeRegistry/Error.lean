import StakeRegistry.Chain.Keys
import StakeRegistry.Chain.HardFork
import StakeRegistry.Chain.Timing
import StakeRegistry.Data.Hex
import StakeRegistry.Quorum.Basic

/-!
# Errors

Why a registration, a vote, a block or a stored registry is refused. Each error is a cause
with the data that its message shows; `message` gives the wording.
-/

set_option autoImplicit false

namespace StakeRegistry

/-! ## Registrations -/

/-- Why a registration is refused. -/
inductive RegistrationError where
  | portionsNotPermitted
  | wrongFork (given : Nat) (fork : HardFork)
  | noOperator
  | ordinaryContributions
  | tooManyContributors
  | feeTooHigh (fee limit : Nat)
  | invalidStakes (inPortions : Bool) (amounts : List Nat)
  | expired (expiry now : Nat)
  | invalidNodeKey (key : PublicKey)
  | invalidSignature (key : PublicKey) (hash : Hash)
  | undecodableStake (height : Nat) (tx : Hash)
  | severalOutputs
  | notFromOperator
  | belowMinimum (transferred minimum height : Nat)
  | tooManyParticipants (participants limit height : Nat)
  | duplicateAddress (tx : Hash)
  | insufficientOperatorStake
  | noBridgeRegistration
  deriving DecidableEq

namespace RegistrationError

def reason : RegistrationError → String
  | portionsNotPermitted => "Portion-based registrations are not permitted in HF19+"
  | wrongFork given fork =>
      "Wrong registration hardfork " ++ toString given ++
        "; you likely need to regenerate the registration for compatibility with hardfork " ++
        toString fork.number
  | noOperator => "No operator contribution given"
  | ordinaryContributions => "Operator contributions through oxen no longer an option"
  | tooManyContributors => "Too many contributors"
  | feeTooHigh fee limit =>
      "Operator fee is too high (" ++ toString fee ++ " > " ++ toString limit ++ ")"
  | invalidStakes inPortions amounts =>
      "Invalid " ++ (if inPortions then "portions" else "amounts") ++ ": \x7b" ++
        ", ".intercalate (amounts.map toString) ++ "\x7d"
  | expired expiry now =>
      "Registration expired (" ++ toString expiry ++ " < " ++ toString now ++ ")"
  | invalidNodeKey key => "Service Node Key is not a valid public key (" ++ key.hex ++ ")"
  | invalidSignature key hash =>
      "Registration signature verification failed for pubkey/hash: " ++ key.hex ++ "/" ++ hash.hex
  | undecodableStake height tx =>
      "Register TX: Had service node registration fields, but could not decode contribution on height: " ++
        toString height ++ " for tx: " ++ tx.hex
  | severalOutputs =>
      "Register TX invalid: multi-output registration transactions are not permitted as of HF16"
  | notFromOperator => "Register TX invalid: registration stake is not from the operator"
  | belowMinimum transferred minimum height =>
      "Register TX: Contribution transferred: " ++ toString transferred ++
        " didn't meet the minimum transfer requirement: " ++ toString minimum ++
        " on height: " ++ toString height
  | tooManyParticipants participants limit height =>
      "Register TX: Number of participants: " ++ toString participants ++
        " exceeded the max number of contributions: " ++ toString limit ++
        " on height: " ++ toString height
  | duplicateAddress tx => "duplicate reserved address in registration (tx " ++ tx.hex ++ ")"
  | insufficientOperatorStake =>
      "Register TX rejected: TX does not have sufficient operator stake"
  | noBridgeRegistration => "Could not extract registration details from transaction"

def message (e : RegistrationError) : String := "Invalid registration: " ++ e.reason

end RegistrationError

/-! ## Votes, signatures and block components -/

/-- How messages name a block of the canonical chain and one of another branch. -/
def blockWord (isAlt : Bool) : String := if isAlt then "alt block" else "block"

/-- Why votes, signatures or the components of a block are refused. -/
inductive VerifyError where
  | tooFewVotes (votes required : Nat)
  | voteHeightNotPast (height latest : Nat)
  | voteTooOld (height latest : Nat)
  | nodeIndexOutOfBounds (index workers : Nat)
  | validatorIndexOutOfBounds (index validators : Nat)
  | duplicateVote (index : Nat)
  | invalidVote (index : Nat)
  | votersNotAscending (index : Nat)
  | voterIndexOutOfBounds (index validators : Nat)
  | invalidVoterSignature (index : Nat)
  | checkpointOffInterval (height interval : Nat)
  | tooFewCheckpointSignatures (signatures required : Nat)
  | bitsetTooWide (bitset : Nat)
  | wrongPulseSignatures (required signatures bitset : Nat)
  | voterNotInBitset (index : Nat)
  | pulseNotPermitted (isAlt : Bool) (block : String)
  | minerRoundSet (isAlt : Bool) (round height : Nat)
  | minerNotPermitted (isAlt : Bool) (block : String)
  | outsideRound (isAlt : Bool) (round timestamp first last : Nat)
  | nonceSet (isAlt : Bool) (nonce : Nat)
  | noQuorumVerifies (isAlt : Bool) (block : String)
  | noPulseQuorum (isAlt : Bool) (block : String)
  | quorumRefuses (isAlt : Bool) (reason : VerifyError) (block : String)
  | unknownParent (isAlt : Bool) (hash parent : Hash)
  deriving DecidableEq

def VerifyError.message : VerifyError → String
  | tooFewVotes votes required =>
      "Not enough votes in state change: " ++ toString votes ++ " < " ++ toString required
  | voteHeightNotPast height latest =>
      "State change references quorum height " ++ toString height ++
        " at or above the latest height " ++ toString latest
  | voteTooOld height latest =>
      "State change for height " ++ toString height ++ " is too old at height " ++ toString latest
  | nodeIndexOutOfBounds index workers =>
      "Service node index " ++ toString index ++ " out of bounds for " ++ toString workers ++
        " workers"
  | validatorIndexOutOfBounds index validators =>
      "Validator index " ++ toString index ++ " out of bounds for " ++ toString validators ++
        " validators"
  | duplicateVote index => "Duplicate vote from validator index " ++ toString index
  | invalidVote index => "Invalid signature from validator index " ++ toString index
  | votersNotAscending index =>
      "Voter indexes are not strictly ascending at index " ++ toString index
  | voterIndexOutOfBounds index validators =>
      "Voter index " ++ toString index ++ " out of bounds for " ++ toString validators ++
        " validators"
  | invalidVoterSignature index => "Invalid signature from voter index " ++ toString index
  | checkpointOffInterval height interval =>
      "Checkpoint height " ++ toString height ++ " is not a multiple of " ++ toString interval
  | tooFewCheckpointSignatures signatures required =>
      "Checkpoint has " ++ toString signatures ++ " signatures, " ++ toString required ++
        " required"
  | bitsetTooWide bitset =>
      "Validator bitset " ++ hexNumber bitset ++ " has bits beyond the quorum"
  | wrongPulseSignatures required signatures bitset =>
      "Pulse block needs exactly " ++ toString required ++ " signatures, has " ++
        toString signatures ++ " (bitset " ++ hexNumber bitset ++ ")"
  | voterNotInBitset index =>
      "Voter index " ++ toString index ++ " is not set in the validator bitset"
  | pulseNotPermitted isAlt block =>
      "Pulse " ++ blockWord isAlt ++ " received but only miner blocks are permitted: " ++ block
  | minerRoundSet isAlt round height =>
      "Miner " ++ blockWord isAlt ++ " given but unexpectedly set round " ++ toString round ++
        " on height " ++ toString height
  | minerNotPermitted isAlt block =>
      "Miner " ++ blockWord isAlt ++ " received but only pulse blocks are permitted: " ++ block
  | outsideRound isAlt round timestamp first last =>
      "Pulse " ++ blockWord isAlt ++ " with round " ++ toString round ++
        " specifies timestamp " ++ toString timestamp ++
        " is not within an acceptable range of time " ++
        bracketed [toString first, toString last]
  | nonceSet isAlt nonce =>
      "Pulse " ++ blockWord isAlt ++
        " specified a nonce when quorum block generation is available, nonce: " ++ toString nonce
  | noQuorumVerifies isAlt block =>
      "Pulse " ++ blockWord isAlt ++ " failed quorum verification: " ++ block
  | noPulseQuorum isAlt block =>
      "Pulse " ++ blockWord isAlt ++ " specified but no quorum available: " ++ block
  | quorumRefuses isAlt reason block =>
      "Pulse " ++ blockWord isAlt ++ " failed quorum verification (" ++ reason.message ++ "): " ++
        block
  | unknownParent isAlt hash parent =>
      blockWord isAlt ++ " " ++ hash.hex ++ " references previous block " ++ parent.hex ++
        " not available in DB"

/-! ## Blocks -/

/-- Who is paid by a block, and how: the leader by a miner's block; the leader as producer of a
Pulse block, or apart from its producer; the payments due in batches; or nobody, where rewards
are paid by the staking contract. -/
inductive PayoutMode where
  | miner
  | pulseLeader
  | pulseOther
  | batched
  | external
  deriving DecidableEq

def PayoutMode.word : PayoutMode → String
  | miner => "miner"
  | pulseLeader => "pulse"
  | pulseOther => "pulse alt round"
  | batched => "batch reward"
  | external => "external rewards"

/-- What is wrong with the output that pays a batched payment. -/
inductive BatchFault where
  | tooLarge
  | wrongAmount (expected paid : Nat)
  | wrongRecipient
  deriving DecidableEq

def BatchFault.reason : BatchFault → String
  | tooLarge => "exceeds maximum possible payout size"
  | wrongAmount expected paid => "expected " ++ toString expected ++ ", not " ++ toString paid
  | wrongRecipient =>
      "Output Ephemeral Public Key does not match (payment to wrong recipient)"

/-- Why a block does not agree with the registry. -/
inductive BlockError where
  | wrongWinner (expected : PublicKey) (height : Nat) (fork : HardFork) (actual : PublicKey)
  | insufficientPulseNodes (block : Hash) (height : Nat)
  | leaderNotProducer (leader producer : PublicKey)
  | unknownProducer (round : Nat) (producer : PublicKey)
  | outputCount (mode : PayoutMode) (expected actual : Nat)
  | nonZeroMinerReward (amount : Nat)
  | outputIndexOutOfBounds (index size : Nat)
  | rewardAmount (expected actual : Nat)
  | rewardKey (index : Nat)
  | batchedPayment (index : Nat) (fault : BatchFault)
  | batchedTotal (expected actual : Nat)
  | missingCheckpointQuorum (isAlt : Bool) (block : Hash)
  | checkpointRefused (isAlt : Bool) (block : Hash)
  | components (isAlt : Bool) (height : Nat) (reason : VerifyError)
  deriving DecidableEq

def BlockError.message : BlockError → String
  | wrongWinner expected height fork actual =>
      "Service node reward winner is incorrect! Expected " ++ expected.hex ++ ", block " ++
        toString height ++ " hf" ++ toString fork.number ++ " has " ++ actual.hex
  | insufficientPulseNodes block height =>
      "Pulse block received but Pulse has insufficient nodes for quorum, block hash " ++
        block.hex ++ ", height " ++ toString height
  | leaderNotProducer leader producer =>
      "The block producer in pulse round 0 should be the same node as the block leader: " ++
        leader.hex ++ ", actual producer: " ++ producer.hex
  | unknownProducer round producer =>
      "The pulse block producer for round " ++ toString round ++
        " is not currently a Service Node: " ++ producer.hex
  | outputCount mode expected actual =>
      "Expected " ++ mode.word ++
        " block, the miner TX specifies a different amount of outputs vs the expected: " ++
        toString expected ++ ", miner tx outputs: " ++ toString actual
  | nonZeroMinerReward amount =>
      "Miner reward is incorrect expected 0 reward, block specified " ++ toString amount
  | outputIndexOutOfBounds index size =>
      "Output Index: " ++ toString index ++ ", indexes out of bounds in vout array with size: " ++
        toString size
  | rewardAmount expected actual =>
      "Service node reward amount incorrect. Should be " ++ toString expected ++ ", is: " ++
        toString actual
  | rewardKey index =>
      "Invalid service node reward at output: " ++ toString index ++
        ", output key, specifies wrong key"
  | batchedPayment index fault =>
      "Batched reward payout invalid at output " ++ toString index ++ ": " ++ fault.reason
  | batchedTotal expected actual =>
      "Total service node reward amount incorrect. Should be " ++ toString expected ++
        ", is: " ++ toString actual
  | missingCheckpointQuorum isAlt block =>
      "Failed to get testing quorum checkpoint for " ++ blockWord isAlt ++ " " ++ block.hex
  | checkpointRefused isAlt block =>
      "Service node checkpoint failed verification for " ++ blockWord isAlt ++ " " ++ block.hex
  | components isAlt height reason =>
      "Failed to verify block components for incoming " ++ blockWord isAlt ++ " at height " ++
        toString height ++ ": " ++ reason.message

/-! ## Stored data -/

/-- Why stored data cannot be read or written. -/
inductive StoreError where
  /-- The bytes of some piece of data do not decode. -/
  | unreadable (what : String)
  | unsortedQuorums
  | noHead
  | strippedHead
  /-- The store itself failed. -/
  | backend (reason : String)
  deriving DecidableEq

def StoreError.message : StoreError → String
  | unreadable what => what
  | unsortedQuorums =>
      "Stored service node data is corrupt: old quorum states are not in ascending height order"
  | noHead => "Stored service node data is corrupt: short-term data holds no states"
  | strippedHead => "Stored service node data is corrupt: head state only has quorums stored"
  | backend reason => "Storage error: " ++ reason

/-! ## The registry -/

/-- What cannot happen while the registry's invariants hold. -/
inductive Fault where
  | quorumIndexOutOfBounds (kind : QuorumKind) (index candidates : Nat)
  | noPulseQuorum
  | emptyPulseQuorum
  | pulseIndexOutOfBounds (index validators : Nat)
  | unexpectedStateHash (state parent : Hash)
  deriving DecidableEq

def Fault.reason : Fault → String
  | quorumIndexOutOfBounds kind index candidates =>
      kind.name ++ " quorum index " ++ toString index ++ " out of bounds for " ++
        toString candidates ++ " candidates"
  | noPulseQuorum => "Unexpected Pulse error: quorum was not generated"
  | emptyPulseQuorum => "Unexpected Pulse error: quorum was empty"
  | pulseIndexOutOfBounds index validators =>
      "Pulse validator index " ++ toString index ++ " out of bounds for quorum of " ++
        toString validators
  | unexpectedStateHash state parent =>
      "Unexpected state hash: " ++ state.hex ++ ", does not match the block prev hash: " ++
        parent.hex

/-- Why an operation on the registry fails. -/
inductive RegistryError where
  | block (e : BlockError)
  | store (e : StoreError)
  | nonSequentialBlock (expected actual : Nat)
  | missingBlock (height : Nat)
  | missingAltParent (block : Hash)
  | unknownBlsKey (key : BlsKey)
  | fault (f : Fault)
  deriving DecidableEq

def RegistryError.message : RegistryError → String
  | block e => e.message
  | store e => e.message
  | nonSequentialBlock expected actual =>
      "Non-sequential block: registry at height " ++ toString expected ++
        ", block at height " ++ toString actual
  | missingBlock height =>
      "Block at height " ++ toString height ++ " is not available from the chain"
  | missingAltParent hash =>
      "Received alt block " ++ bracketed (hash.toList.map fun b => toString b.toNat) ++
        " but couldn't find parent state in historical state"
  | unknownBlsKey key => "No service node is registered with BLS public key " ++ key.hex
  | fault f => "Invariant violation: " ++ f.reason

end StakeRegistry
