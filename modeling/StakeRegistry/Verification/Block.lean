import StakeRegistry.Context
import StakeRegistry.Verification.Votes

/-!
# Verifying blocks

A block is produced by a Pulse quorum, within the time of its round, or, where there is no such
quorum or all rounds have passed, by a miner. The first round begins one block time after the
parent; round `r` lasts from `roundZero + r * roundTime` for `roundTime` seconds.
-/

set_option autoImplicit false

namespace StakeRegistry

/-- Seconds of a Pulse round. -/
def roundTime : Nat := 60

/-- Rounds after which miners may produce the block. -/
def maxRounds : Nat := 255

/-- The times that follow from a parent block's. -/
structure RoundTimings where
  parent : Nat
  roundZero : Nat
  minerFallback : Nat
  deriving DecidableEq

/-- The times of a block whose parent has a timestamp. -/
def RoundTimings.after (timestamp : Nat) : RoundTimings :=
  let roundZero := wrapAdd timestamp blockTime
  ⟨timestamp, roundZero, wrapAdd roundZero (maxRounds * roundTime)⟩

/-- The first and the last time of a round. -/
def RoundTimings.first (timings : RoundTimings) (round : Nat) : Nat :=
  wrapAdd timings.roundZero (round * roundTime)

def RoundTimings.last (timings : RoundTimings) (round : Nat) : Nat :=
  wrapAdd (timings.first round) roundTime

/-- How messages describe a block and the leader of its quorum. -/
def describeBlock (block : Block) (quorum : Option Quorum) : String :=
  let leader := match quorum with
    | none => "(invalid quorum)"
    | some q => match q.workers.head? with
      | some key => key.hex
      | none => "(invalid leader)"
  "Block(" ++ toString block.height ++ "): " ++ block.hash.hex ++ ", Leader: " ++ leader ++
    ", Round: " ++ toString block.pulse.round ++ ", Validator Bitset: " ++
    binaryNumber 11 block.pulse.bitset ++ ", Signatures: " ++ toString block.signatures.length

/-- Checks that a miner's block has no Pulse data. -/
def verifyMinerBlock (block : Block) (isAlt : Bool) (quorum : Option Quorum) :
    Except VerifyError Unit :=
  if block.hasPulseComponents then .error (.pulseNotPermitted isAlt (describeBlock block quorum))
  else if block.pulse.round ≠ 0 then
    .error (.minerRoundSet isAlt block.pulse.round block.height)
  else .ok ()

/-- Checks the signatures of a Pulse block against the quorum of its height or, on another
branch, any quorum of a branch at that height. -/
def verifyPulseQuorum (suite : CryptoSuite) (block : Block) (isAlt : Bool)
    (quorum : Option Quorum) (branches : List Quorum) : Except VerifyError Unit :=
  if isAlt then
    if (quorum.toList ++ branches).any fun q => (verifyPulseSignatures suite q block).isOk then
      .ok ()
    else .error (.noQuorumVerifies isAlt (describeBlock block quorum))
  else match quorum with
    | none => .error (.noPulseQuorum isAlt (describeBlock block none))
    | some q => match verifyPulseSignatures suite q block with
      | .ok () => .ok ()
      | .error e => .error (.quorumRefuses isAlt e (describeBlock block (some q)))

/-- Checks a Pulse block: its time, off the fake chain, its nonce and its signatures. -/
def verifyPulseBlock (suite : CryptoSuite) (rules : NetworkRules) (block : Block) (isAlt : Bool)
    (timings : RoundTimings) (quorum : Option Quorum) (branches : List Quorum) :
    Except VerifyError Unit :=
  let first := timings.first block.pulse.round
  let last := timings.last block.pulse.round
  if !block.hasPulseComponents then
    .error (.minerNotPermitted isAlt (describeBlock block quorum))
  else if !rules.isFakechain ∧ ¬ (first ≤ block.timestamp ∧ block.timestamp ≤ last) then
    .error (.outsideRound isAlt block.pulse.round block.timestamp first last)
  else if block.nonce ≠ 0 then .error (.nonceSet isAlt block.nonce)
  else verifyPulseQuorum suite block isAlt quorum branches

/-- Checks a block as a miner's or as one of a Pulse quorum. -/
def verifyComponents (suite : CryptoSuite) (rules : NetworkRules) (block : Block)
    (minerBlock isAlt : Bool) (timings : RoundTimings) (quorum : Option Quorum)
    (branches : List Quorum) : Except VerifyError Unit :=
  if minerBlock then verifyMinerBlock block isAlt quorum
  else verifyPulseBlock suite rules block isAlt timings quorum branches

/-- Checks the checkpoint that comes with a block, where checkpoints are enforced. -/
def verifyBlockCheckpoint (ctx : Context) (block : Block) (isAlt : Bool)
    (checkpoint : Checkpoint) : Except BlockError Unit :=
  match ctx.view.quorum? .checkpointing checkpoint.height false with
  | none => .error (.missingCheckpointQuorum isAlt block.hash)
  | some quorum =>
      let branches :=
        if isAlt then ctx.view.branchQuorums .checkpointing checkpoint.height else []
      if (quorum :: branches).any fun q =>
          (verifyCheckpoint ctx.suite block.fork checkpoint q).isOk then .ok ()
      else .error (.checkpointRefused isAlt block.hash)

/-- Checks a block from the Pulse fork on, whose parent has a timestamp. A block of another
branch may take either form. -/
def verifyWithPulse (ctx : Context) (block : Block) (isAlt : Bool)
    (parentTimestamp : Nat) : Except VerifyError Unit :=
  let timings := RoundTimings.after parentTimestamp
  let branches := if isAlt then ctx.view.branchQuorums .pulse block.height else []
  let quorum :=
    if !ctx.rules.isFakechain ∧ timings.minerFallback ≤ block.timestamp then none
    else ctx.view.quorum? .pulse block.height false
  let verify (minerBlock : Bool) :=
    verifyComponents ctx.suite ctx.rules block minerBlock isAlt timings quorum branches
  if isAlt then if (verify false).isOk then .ok () else verify true
  else verify quorum.isNone

/-- Checks how a block was produced. -/
def verifyProduction (ctx : Context) (block : Block) (isAlt : Bool) :
    Except VerifyError Unit :=
  if HardFork.pulse ≤ block.fork then
    match ctx.chain.blockByHash? block.prevHash with
    | none => .error (.unknownParent isAlt block.hash block.prevHash)
    | some parent => verifyWithPulse ctx block isAlt parent.timestamp
  else verifyMinerBlock block isAlt none

/-- Verifies a block, and the checkpoint that comes with it, against the registry's past. -/
def verifyBlock (ctx : Context) (block : Block) (isAlt : Bool)
    (checkpoint : Option Checkpoint) : Except BlockError Unit :=
  if block.fork < HardFork.serviceNodes then .ok ()
  else do
    match checkpoint with
    | some c =>
        if HardFork.enforceCheckpoints ≤ block.fork then
          verifyBlockCheckpoint ctx block isAlt c
    | none => pure ()
    match verifyProduction ctx block isAlt with
    | .ok () => .ok ()
    | .error e => .error (.components isAlt block.height e)

end StakeRegistry
