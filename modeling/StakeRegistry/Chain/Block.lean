import StakeRegistry.Chain.Transaction
import StakeRegistry.Data.SortedMap

/-!
# Blocks and the chain

Blocks with their Pulse data, checkpoints, what the registry asks of a chain (`ChainReader`),
and a chain held in memory (`Chain`).
-/

set_option autoImplicit false

namespace StakeRegistry

/-- The Pulse data of a block header, all zero on a miner's block: the round, a bit for each
validator that signed, and the producer's random contribution. -/
structure PulseHeader where
  round : Nat
  bitset : Nat
  random : Bytes 16
  deriving DecidableEq, Inhabited

/-- A quorum member's signature, with the member's position in the quorum. -/
structure QuorumSignature where
  voterIndex : Nat
  signature : Signature
  deriving DecidableEq, Inhabited

/-- A block. -/
structure Block where
  height : Nat
  hash : Hash
  prevHash : Hash
  fork : HardFork
  timestamp : Nat
  nonce : Nat
  pulse : PulseHeader
  signatures : List QuorumSignature
  minerTx : Transaction
  txHashes : List Hash
  deriving DecidableEq, Inhabited

/-- Whether a block carries any Pulse data that a miner's block does not. -/
def Block.hasPulseComponents (b : Block) : Bool := b.pulse.bitset != 0 || !b.signatures.isEmpty

/-- A checkpoint: a past block, signed by members of a checkpointing quorum. -/
structure Checkpoint where
  height : Nat
  blockHash : Hash
  signatures : List QuorumSignature
  deriving DecidableEq, Inhabited

/-- What the registry reads of the chain: the number of canonical blocks, canonical blocks by
height, blocks of any branch by hash, and transactions by hash. -/
structure ChainReader where
  currentHeight : Nat
  blockAt? : Nat → Option Block
  blockByHash? : Hash → Option Block
  transaction? : Hash → Option Transaction

/-- The transactions of a block, apart from the miner's, in block order. Those that the chain
does not know are left out. -/
def ChainReader.transactionsOf (chain : ChainReader) (block : Block) : List Transaction :=
  block.txHashes.filterMap chain.transaction?

/-- A chain in memory: canonical blocks by height, every block seen by hash, transactions by
hash. -/
structure Chain where
  canonical : SortedMap Nat Block
  byHash : SortedMap Hash Block
  transactions : SortedMap Hash Transaction
  deriving Inhabited

namespace Chain

def empty : Chain := ⟨∅, ∅, ∅⟩

/-- Makes transactions known. -/
def addTransactions (chain : Chain) (txs : List Transaction) : Chain :=
  { chain with
    transactions := txs.foldl (fun known tx => known.insert tx.hash tx) chain.transactions }

/-- Makes a block known by hash, without a place on the canonical chain. -/
def addAltBlock (chain : Chain) (block : Block) (txs : List Transaction) : Chain :=
  let chain := chain.addTransactions txs
  { chain with byHash := chain.byHash.insert block.hash block }

/-- Puts a block on the canonical chain at its height, in place of any other there. -/
def addBlock (chain : Chain) (block : Block) (txs : List Transaction) : Chain :=
  let chain := chain.addAltBlock block txs
  { chain with canonical := chain.canonical.insert block.height block }

/-- Drops the canonical blocks from a height on; answers them in ascending order. -/
def popFrom (chain : Chain) (height : Nat) : List Block × Chain :=
  let popped := (chain.canonical.filter fun h _ => decide (height ≤ h)).values
  (popped,
    { chain with
      canonical := chain.canonical.filter fun h _ => decide (h < height)
      byHash := popped.foldl (fun known block => known.erase block.hash) chain.byHash })

/-- The number of canonical blocks: one more than the greatest height. -/
def currentHeight (chain : Chain) : Nat :=
  match chain.canonical.last? with
  | some (height, _) => height + 1
  | none => 0

/-- The chain as the registry reads it. -/
def reader (chain : Chain) : ChainReader where
  currentHeight := chain.currentHeight
  blockAt? := chain.canonical.get?
  blockByHash? := chain.byHash.get?
  transaction? := chain.transactions.get?

end Chain

end StakeRegistry
