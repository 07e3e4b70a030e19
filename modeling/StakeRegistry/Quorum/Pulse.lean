import StakeRegistry.Chain.Block
import StakeRegistry.Crypto.Suite
import StakeRegistry.Quorum.Selection

/-!
# Pulse quorums

The quorum that produces the next block: one producer and eleven validators. Its randomness
comes from blocks well below the tip, so that whoever adds the last blocks cannot steer it.
Candidates that validated least recently come first, and every validator is drawn from the
half of the candidates that starts at its slot.
-/

set_option autoImplicit false

namespace StakeRegistry

/-- The validators of a Pulse quorum. -/
def pulseValidators : Nat := 11

/-- Producer and validators. -/
def pulseQuorumSize : Nat := pulseValidators + 1

/-- Blocks by which the entropy of a Pulse quorum trails the tip. -/
def entropyLag : Nat := 21

/-- What a block adds to the entropy of a round: the producer's random contribution, or the
hash of a block without one. -/
def entropyOf (suite : CryptoSuite) (round : Nat) (b : Block) : Hash :=
  let source :=
    if HardFork.pulse ≤ b.fork && b.hasPulseComponents then b.pulse.random.toList
    else b.hash.toList
  suite.hash (UInt8.ofNat round :: source)

/-- What a walk down the ancestors of a block comes to. -/
inductive Ancestry where
  /-- An ancestor that is low enough, by way of these blocks, the lowest first. -/
  | reached (blocks : List Block)
  /-- An ancestor that is not there. -/
  | missing
  /-- No end: the ancestors go on, as they do where blocks are their own ancestors. -/
  | endless

/-- The walk from a block to the first of its ancestors at or below a height. `steps` bounds the
number of ancestors. -/
def ancestryDownTo (chain : ChainReader) (floor : Nat) : Nat → Block → List Block → Ancestry
  | 0, _, _ => .endless
  | steps + 1, b, above =>
      if b.height ≤ floor then .reached (b :: above)
      else match chain.blockByHash? b.prevHash with
        | some parent => ancestryDownTo chain floor steps parent (b :: above)
        | none => .missing

/-- The ancestors after which a walk counts as endless. Heights are 64-bit numbers, so no chain
on which blocks stand above their parents has as many. -/
def ancestryLimit : Nat := 0x10000000000000000

/-- The entropy for the quorum of the block after `top`, one hash for each member; empty when
the chain is too short or an ancestor is missing. There is no answer when the ancestors have no
end. -/
def pulseEntropy? (chain : ChainReader) (suite : CryptoSuite) (top : Hash) (round : Nat) :
    Option (List Hash) :=
  match chain.blockByHash? top with
  | none => some []
  | some b =>
      if b.height < entropyLag then some []
      else
        let floor := b.height - entropyLag
        match ancestryDownTo chain floor ancestryLimit b [] with
        | .endless => none
        | .missing => some []
        | .reached blocks =>
            let sources := blocks.filter fun a => decide (a.height < floor + pulseQuorumSize)
            some (if sources.length = pulseQuorumSize then sources.map (entropyOf suite round)
              else [])

/-- The entropy for the quorum of the block after `top`, where there is an answer. -/
def pulseEntropy (chain : ChainReader) (suite : CryptoSuite) (top : Hash) (round : Nat) :
    List Hash :=
  (pulseEntropy? chain suite top round).getD []

/-- The order of candidates: by the turn that they last took, then by key. -/
def pulseOrder (a b : PublicKey × NodeInfo) : Ordering :=
  (compare a.2.pulseSorter b.2.pulseSorter).then (compare a.1 b.1)

/-- Swaps into the slots from `slot` on one candidate each, drawn under its own entropy from
the `half` candidates that start at the slot. -/
def drawValidators (fork : HardFork) (half : Nat) : Nat → List Hash → NodeList → NodeList
  | _, [], candidates => candidates
  | slot, e :: rest, candidates =>
      -- Slots near the end of the candidates have fewer than `half` of them after them.
      let available := min half (candidates.length - slot)
      let offset := (drawBelow available (quorumGenerator fork e .pulse)).1
      drawValidators fork half (slot + 1) rest (swapItems candidates slot (slot + offset))

/-- The producer of a round and the candidates left to validate: the leader in round zero, and
in later rounds any candidate, the leader included. -/
def drawProducer (fork : HardFork) (leader : PublicKey) (entropy : Hash) (round : Nat)
    (candidates : NodeList) : Option (PublicKey × NodeList) :=
  if round = 0 then some (leader, candidates)
  else
    let index := (drawBelow candidates.length (quorumGenerator fork entropy .pulse)).1
    candidates[index]?.map fun n => (n.1, candidates.eraseIdx index)

/-- The Pulse quorum of a block that `leader` leads; empty when there are too few nodes, or no
leader, or no entropy. -/
def pulseQuorum (minNodes : Nat) (leader : PublicKey) (fork : HardFork) (active : NodeList)
    (entropy : List Hash) (round : Nat) : Quorum :=
  match entropy with
  | [] => ⟨[], []⟩
  | first :: rest =>
      if active.length < minNodes ∨ leader = 0 ∨ fork < HardFork.pulse ∨
          rest.length ≠ pulseValidators then ⟨[], []⟩
      else
        -- A leader that produces the block does not validate it.
        let candidates := active.filter fun n => round > 0 || n.1 != leader
        let candidates := candidates.mergeSort fun a b => (pulseOrder a b).isLE
        match drawProducer fork leader first round candidates with
        | none => ⟨[], []⟩
        | some (producer, candidates) =>
            if candidates.length < pulseValidators then ⟨[], []⟩
            else
              let half := (candidates.length - 1) / 2
              let drawn := drawValidators fork half 0 rest candidates
              ⟨(drawn.take pulseValidators).map (·.1), [producer]⟩

/-- The quorum that produces a block after a registry, when `leader` leads it. -/
def Registry.quorumProducing (r : Registry) (rules : NetworkRules) (suite : CryptoSuite)
    (chain : ChainReader) (block : Block) (leader : PublicKey) : Quorum :=
  let round := block.pulse.round
  pulseQuorum rules.pulseMinNodes leader block.fork r.active
    (pulseEntropy chain suite block.prevHash round) round

/-- Whether a quorum has a producer and all its validators. -/
def Quorum.isCompletePulse (q : Quorum) : Bool :=
  q.workers.length == 1 && q.validators.length == pulseValidators

end StakeRegistry
