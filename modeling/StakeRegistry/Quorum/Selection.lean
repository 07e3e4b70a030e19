import StakeRegistry.Error
import StakeRegistry.Random.Uniform
import StakeRegistry.Registry.Basic

/-!
# Drawing quorums

Quorums are functions of the hard fork, a block's hash and the registry. Candidates are put
in random order under a seed that the hash and the kind of quorum give; the first of them
become validators and those that follow become workers. Validators of an obligations quorum
are active; its workers may be decommissioned.
-/

set_option autoImplicit false

namespace StakeRegistry

/-- Members of an obligations quorum that vote. -/
def obligationsValidators : Nat := 10

/-- One in so many nodes is tested at every height, -/
def testedFraction : Nat := 100

/-- but this many at least. -/
def testedMinimum : Nat := 50

/-- Heights between checkpoints. -/
def checkpointInterval : Nat := 4

def checkpointQuorumSize : Nat := 20

/-- On the test network, checkpointing quorums below this height drew from decommissioned
nodes as well. -/
def testnetCheckpointCutoff : Nat := 85357

/-- Heights between blink quorums. -/
def blinkInterval : Nat := 5

def blinkQuorumSize : Nat := 10

/-- Candidates below which a blink quorum stays empty. -/
def blinkMinimum : Nat := 7

/-- Blocks before its stake unlocks during which a node takes no part in blink quorums. -/
def blinkExpiryBuffer : Nat := 45

/-! ## Random order -/

/-- The 32-bit words of a hash. -/
def hashWords (hash : Hash) : List UInt32 :=
  (List.range 8).map fun i => UInt32.ofNat (leNat ((hash.toList.drop (4 * i)).take 4))

/-- The generator for a kind of quorum under a hash. -/
def quorumGenerator (fork : HardFork) (hash : Hash) (kind : QuorumKind) : Twister :=
  if HardFork.pulse ≤ fork then
    Twister.ofSeedWords (UInt32.ofNat kind.number :: hashWords hash)
  else
    Twister.ofSeed (UInt64.ofNat (leNat (hash.toList.take 8)) + UInt64.ofNat kind.number)

/-- The positions below `size` in random order. When `0 < first < size` and
`0 < limit < size`, two shuffles from one seed follow each other, of the positions below
`limit` and of the places from `first` on, so that the first `first` places hold positions
below `limit`. -/
def shuffledIndexes (fork : HardFork) (size : Nat) (hash : Hash) (kind : QuorumKind)
    (first limit : Nat) : List Nat :=
  let g := quorumGenerator fork hash kind
  let indexes := List.range size
  if 0 < first ∧ first < size ∧ 0 < limit ∧ limit < size then
    let indexes := (shuffle (indexes.take limit) g).1 ++ indexes.drop limit
    indexes.take first ++ (shuffle (indexes.drop first) g).1
  else (shuffle indexes g).1

/-! ## Quorums other than Pulse -/

/-- The key of the candidate at a position. -/
def pick (candidates : NodeList) (kind : QuorumKind) (index : Nat) : Except RegistryError PublicKey :=
  match candidates[index]? with
  | some (key, _) => .ok key
  | none => .error (.fault (.quorumIndexOutOfBounds kind index candidates.length))

/-- The key of the candidate at a position of two lists, one after the other. -/
def pickSpanning (active others : NodeList) (kind : QuorumKind) (index : Nat) :
    Except RegistryError PublicKey :=
  if index < active.length then pick active kind index
  else pick others kind (index - active.length)

/-- The quorum that tests nodes and votes on their state. -/
def drawObligations (fork : HardFork) (hash : Hash) (active decommissioned : NodeList) :
    Except RegistryError Quorum := do
  let total := active.length + decommissioned.length
  let validators := min active.length obligationsValidators
  let remaining := total - validators
  let workers := min remaining (max testedMinimum (remaining / testedFraction))
  let indexes := shuffledIndexes fork total hash .obligations validators active.length
  return {
    validators := ← (indexes.take validators).mapM (pick active .obligations)
    workers := ← ((indexes.drop validators).take workers).mapM
      (pickSpanning active decommissioned .obligations) }

/-- The quorum that signs checkpoints; empty when there are too few nodes. -/
def drawCheckpointing (fork : HardFork) (network : Network) (height : Nat) (hash : Hash)
    (active decommissioned : NodeList) : Except RegistryError Quorum := do
  let total :=
    if network = .testnet ∧ height < testnetCheckpointCutoff then
      active.length + decommissioned.length
    else active.length
  if checkpointQuorumSize ≤ total then
    let indexes := shuffledIndexes fork total hash .checkpointing 0 0
    return {
      validators := ← (indexes.take checkpointQuorumSize).mapM
        (pickSpanning active decommissioned .checkpointing)
      workers := [] }
  else return ⟨[], []⟩

/-- Whether a node stays long enough to take part in a blink quorum. -/
def blinkEligible (height : Nat) (info : NodeInfo) : Bool :=
  info.requestedUnlockHeight == 0 ||
    decide (wrapAdd height blinkExpiryBuffer < info.requestedUnlockHeight)

/-- The quorum that approves blink transactions; empty when there are too few nodes. -/
def drawBlink (fork : HardFork) (height : Nat) (hash : Hash) (active : NodeList) :
    Except RegistryError Quorum := do
  let eligible := active.filter fun n => blinkEligible height n.2
  if blinkMinimum ≤ eligible.length then
    let indexes := shuffledIndexes fork eligible.length hash .blink 0 0
    return {
      validators := ← (indexes.take blinkQuorumSize).mapM (pick eligible .blink)
      workers := [] }
  else return ⟨[], []⟩

/-- Whether a checkpointing quorum is drawn at a height: some checkpoint lies so far above it
that its quorum is looked up there. -/
def drawsCheckpointing (height : Nat) : Bool := (height + reorgSafetyBuffer) % checkpointInterval == 0

def drawsBlink (height : Nat) : Bool := height % blinkInterval == 0

/-- The quorums of a registry with the obligations, checkpointing and blink quorums that are
due at its height drawn anew. The active nodes are given apart: a new swarm does not count
here. -/
def drawQuorums (r : Registry) (active : NodeList) (network : Network) (fork : HardFork) :
    Except RegistryError Quorums := do
  let decommissioned := if HardFork.checkpointing ≤ fork then r.decommissioned else []
  let obligations ← drawObligations fork r.blockHash active decommissioned
  let checkpointing ←
    if HardFork.checkpointing ≤ fork && drawsCheckpointing r.height then
      some <$> drawCheckpointing fork network r.height r.blockHash active decommissioned
    else .ok r.quorums.checkpointing
  let blink ←
    if HardFork.blink ≤ fork && drawsBlink r.height then
      some <$> drawBlink fork r.height r.blockHash active
    else .ok r.quorums.blink
  return { r.quorums with
    obligations := some obligations
    checkpointing := checkpointing
    blink := blink }

end StakeRegistry
