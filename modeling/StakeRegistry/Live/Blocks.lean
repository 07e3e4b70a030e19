import StakeRegistry.Live.Effects
import StakeRegistry.Live.Storage
import StakeRegistry.Transition.Apply
import StakeRegistry.Verification.Block

/-!
# Following the chain

A block of the canonical chain moves the head on; a block of another branch adds a registry to
the alternatives. When the chain drops blocks, the head goes back to the registry below them:
from the recent ones, from the archive by applying the blocks in between again, or from the
beginning.
-/

set_option autoImplicit false

namespace StakeRegistry

namespace LiveRegistry

/-! ## The next block -/

/-- Applies a block to the head, verifies it if asked to, and moves the head on. Answers the
effects of the block elsewhere. -/
def advance (l : LiveRegistry) (s : Surroundings) (block : Block) (txs : List Transaction)
    (checkpoint : Option Checkpoint) (verify : Bool) :
    Except RegistryError (Outcome × LiveRegistry) := do
  let (next, outcome) ← l.head.apply (l.context s l.view) block txs
  -- The block is verified with the quorums that it forms; the old head is not in history yet.
  let view := (HistoryView.of next l.history).withPrevious l.head
  if verify then
    (verifyBlock (l.context s view) block false checkpoint).mapError RegistryError.block
  return (outcome, { l with head := next, history := l.history.push block.height l.head })

/-- Applies the canonical blocks of some heights that are already part of the chain. -/
def replay (s : Surroundings) : List Nat → LiveRegistry → LiveResult RegistryError Unit
  | [], l => (.ok (), l)
  | height :: heights, l =>
      match s.chain.blockAt? height with
      | none => (.error (.missingBlock height), l)
      | some block =>
          if block.fork < HardFork.serviceNodes then replay s heights l
          else match l.advance s block (s.chain.transactionsOf block) none false with
          | .error e => (.error e, l)
          | .ok (_, next) => replay s heights next

/-- Applies the canonical blocks above the head and below a height. -/
def replayBelow (l : LiveRegistry) (s : Surroundings) (height : Nat) :
    LiveResult RegistryError Unit :=
  replay s (List.range' (l.head.height + 1) (height - (l.head.height + 1))) l

/-- Whether a snapshot that was loaded can be built upon: it does not lie above the chain, and
old quorums are there if they are asked for. -/
def isUsable (l : LiveRegistry) (s : Surroundings) : Bool :=
  decide (min l.history.oldLimit 10 ≤ l.history.old.length) &&
    decide (l.head.height ≤ s.chain.currentHeight)

/-- Brings the registry to the end of the chain, from a snapshot if there is a usable one, else
from the beginning. -/
def init (l : LiveRegistry) (s : Surroundings) : LiveResult RegistryError Unit :=
  if l.chainFork s < HardFork.serviceNodes then l.reset s
  else
    let (loaded, l) := l.load s s.chain.currentHeight
    if loaded matches .ok true ∧ l.isUsable s then l.replayBelow s s.chain.currentHeight
    else
      match l.reset s with
      | (.error e, l) => (.error e, l)
      | (.ok (), l) => l.replayBelow s s.chain.currentHeight

/-- Takes a block that was added to the canonical chain. -/
def addBlock (l : LiveRegistry) (s : Surroundings) (block : Block) (txs : List Transaction)
    (checkpoint : Option Checkpoint) : LiveResult RegistryError Unit :=
  if block.fork < HardFork.serviceNodes then (.ok (), l)
  else match l.advance s block txs checkpoint true with
  | .error e => (.error e, l)
  | .ok (outcome, next) =>
      match (next.takeEffects s outcome).notePulse s block with
      | (.error e, l) => (.error e, l)
      | (.ok (), l) => (.ok (), l.forgetExpired)

/-! ## Other branches -/

/-- The registry that a block of another branch builds upon: a recent one of the canonical
chain, or one of another branch. -/
def parentOf? (l : LiveRegistry) (block : Block) : Option Registry :=
  ((l.history.recent.get? (block.height - 1)).filter fun r => r.blockHash == block.prevHash).or
    (l.history.alternatives.get? block.prevHash)

/-- The registry after a block of another branch. -/
def branch (l : LiveRegistry) (s : Surroundings) (block : Block) (txs : List Transaction)
    (checkpoint : Option Checkpoint) : Except RegistryError Registry :=
  match l.parentOf? block with
  | none => .error (.missingAltParent block.hash)
  | some parent =>
      if parent.blockHash ≠ block.prevHash then
        .error (.fault (.unexpectedStateHash parent.blockHash block.prevHash))
      else do
        let view := (HistoryView.of parent l.history).withAlternatives
        let (next, _) ← parent.apply (l.context s view) block txs
        let view := ((HistoryView.of next l.history).withPrevious parent).withAlternatives
        (verifyBlock (l.context s view) block true checkpoint).mapError RegistryError.block
        return next

/-- Takes a block of another branch. -/
def addAltBlock (l : LiveRegistry) (s : Surroundings) (block : Block) (txs : List Transaction)
    (checkpoint : Option Checkpoint) : LiveResult RegistryError Unit :=
  if block.fork < HardFork.serviceNodes ∨ l.history.alternatives.contains block.hash then
    (.ok (), l)
  else match l.branch s block txs checkpoint with
  | .error e => (.error e, l)
  | .ok next =>
      (.ok (),
        { l with
          history := { l.history with
            alternatives := l.history.alternatives.insert block.hash next } })

/-! ## Going back -/

/-- Takes note that the chain dropped its blocks from a height on. -/
def detach (l : LiveRegistry) (s : Surroundings) (height : Nat) : LiveResult RegistryError Unit :=
  match l.history.rewind (height - 1) with
  | (.restored r, history) => (.ok (), { l with head := r, history := history })
  | (.fromArchive r, history) =>
      -- The chain may be shorter by now than the height at which it was cut.
      replayBelow { l with head := r, history := history } s (min height s.chain.currentHeight)
  | (.reinitialise, history) => init { l with history := history } s

end LiveRegistry

end StakeRegistry
