import StakeRegistry.Chain.Block
import StakeRegistry.Crypto.Suite
import StakeRegistry.Error
import StakeRegistry.Quorum.Pulse

/-!
# Votes and signatures of quorums

What a quorum has said: the votes on a state change, the signatures of a checkpoint, and those
of a Pulse block. Every member counts once. Votes may come in any order; signatures ascend by
the position of their signers.
-/

set_option autoImplicit false

namespace StakeRegistry

/-- Votes that a state change needs. -/
def stateChangeVotes : Nat := 7

/-- Signatures that a checkpoint needs. -/
def checkpointVotes : Nat := 13

/-- Signatures that a Pulse block has. -/
def pulseSignatures : Nat := 7

/-! ## State changes -/

/-- The hash that voters on a state change sign. -/
def voteHash (suite : CryptoSuite) (height index : Nat) (kind : StateChangeKind) : Hash :=
  suite.hash (leBytes 8 height ++ leBytes 4 index ++ leBytes 2 kind.number)

/-- Checks votes one after the other; `seen` are the positions that have voted. -/
def verifyVotes (suite : CryptoSuite) (hash : Hash) (validators : List PublicKey) :
    List Nat → List StateChangeVote → Except VerifyError Unit
  | _, [] => .ok ()
  | seen, vote :: rest =>
      let index := vote.validatorIndex
      match validators[index]? with
      | none => .error (.validatorIndexOutOfBounds index validators.length)
      | some validator =>
          if index ∈ seen then .error (.duplicateVote index)
          else if !suite.verify hash validator vote.signature then .error (.invalidVote index)
          else verifyVotes suite hash validators (index :: seen) rest

/-- Checks the votes on a state change, in a block at height `latest`, against the quorum that
cast them. -/
def verifyStateChange (suite : CryptoSuite) (change : StateChange) (latest : Nat)
    (quorum : Quorum) : Except VerifyError Unit :=
  if change.votes.length < stateChangeVotes then
    .error (.tooFewVotes change.votes.length stateChangeVotes)
  else if latest ≤ change.height then .error (.voteHeightNotPast change.height latest)
  else if wrapAdd change.height voteLifetime < latest then .error (.voteTooOld change.height latest)
  else if quorum.workers.length ≤ change.index then
    .error (.nodeIndexOutOfBounds change.index quorum.workers.length)
  else
    verifyVotes suite (voteHash suite change.height change.index change.kind)
      quorum.validators [] change.votes

/-! ## Signatures -/

/-- Checks signatures one after the other; `last` is the position of the one before. -/
def verifySignatures (suite : CryptoSuite) (hash : Hash) (validators : List PublicKey) :
    Option Nat → List QuorumSignature → Except VerifyError Unit
  | _, [] => .ok ()
  | last, s :: rest =>
      let index := s.voterIndex
      if last.any fun l => decide (index ≤ l) then .error (.votersNotAscending index)
      else match validators[index]? with
        | none => .error (.voterIndexOutOfBounds index validators.length)
        | some validator =>
            if !suite.verify hash validator s.signature then .error (.invalidVoterSignature index)
            else verifySignatures suite hash validators (some index) rest

/-- Checks a checkpoint against the quorum that signs it. -/
def verifyCheckpoint (suite : CryptoSuite) (fork : HardFork) (checkpoint : Checkpoint)
    (quorum : Quorum) : Except VerifyError Unit :=
  if HardFork.enforceCheckpoints ≤ fork ∧ checkpoint.height % checkpointInterval ≠ 0 then
    .error (.checkpointOffInterval checkpoint.height checkpointInterval)
  else if checkpoint.signatures.length < checkpointVotes then
    .error (.tooFewCheckpointSignatures checkpoint.signatures.length checkpointVotes)
  else verifySignatures suite checkpoint.blockHash quorum.validators none checkpoint.signatures

/-- The number of bits set among the lowest sixteen. -/
def bitCount (bitset : Nat) : Nat := (List.range 16).countP fun i => bitset.testBit i

/-- Checks the signatures of a Pulse block: as many as are needed, each by a validator whose
bit is set. -/
def verifyPulseSignatures (suite : CryptoSuite) (quorum : Quorum) (block : Block) :
    Except VerifyError Unit :=
  let bitset := block.pulse.bitset
  if Nat.pow 2 pulseValidators ≤ bitset then .error (.bitsetTooWide bitset)
  else if block.signatures.length ≠ pulseSignatures ∨ bitCount bitset ≠ pulseSignatures then
    .error (.wrongPulseSignatures pulseSignatures block.signatures.length bitset)
  else match block.signatures.find? fun s => !bitset.testBit s.voterIndex with
    | some s => .error (.voterNotInBitset s.voterIndex)
    | none => verifySignatures suite block.hash quorum.validators none block.signatures

end StakeRegistry
