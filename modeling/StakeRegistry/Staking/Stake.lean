import StakeRegistry.Chain.Timing
import StakeRegistry.Crypto.Suite
import StakeRegistry.Node.Info

/-!
# Stakes

What a staking transaction contributes to a node. The transaction discloses its secret key, so
that everyone can see which outputs are the contributor's and what they hold. Since infinite
staking an output counts when it is addressed to the contributor and one of the transaction's
key-image proofs, used once, proves it; before, when it is locked for long enough.
-/

set_option autoImplicit false

namespace StakeRegistry

/-- A contribution to a node. -/
structure Stake where
  nodeKey : PublicKey
  address : Address
  transferred : Nat
  txKey : SecretKey
  locked : List LockedContribution
  deriving DecidableEq, Inhabited

namespace Stake

/-- The node, the contributor and the disclosed key of a transaction, if it has all three; no
output counted yet. -/
def header? (tx : Transaction) : Option Stake := do
  return ⟨← tx.nodeKey?, ← tx.contributor?, 0, ← tx.txSecretKey?, []⟩

/-- The first proof that a test accepts, and the other proofs in order. -/
def takeProof (accepts : KeyImageProof → Bool) :
    List KeyImageProof → Option (KeyImageProof × List KeyImageProof)
  | [] => none
  | p :: rest =>
      if accepts p then some (p, rest)
      else (takeProof accepts rest).map fun (q, others) => (q, p :: others)

/-- The amount of an output; zero when it cannot be read. -/
def amountOf (suite : CryptoSuite) (secret : SharedSecret) (index : Nat) (output : TxOutput) :
    Nat :=
  (suite.outputAmount? secret index output).getD 0

/-- The locked contribution that an output makes, and the proofs that are left. -/
def lockOutput? (suite : CryptoSuite) (secret : SharedSecret) (address : Address) (index : Nat)
    (output : TxOutput) (proofs : List KeyImageProof) :
    Option (LockedContribution × List KeyImageProof) :=
  let amount := amountOf suite secret index output
  if amount = 0 then none
  else match suite.outputKey? secret index address.spend with
    | none => none
    | some key =>
        if output.key ≠ key then none
        else
          (takeProof (fun p => suite.verifyKeyImage p.keyImage key p.signature) proofs).map
            fun (p, rest) => (⟨key, p.keyImage, amount⟩, rest)

/-- The locked contributions of outputs from number `index` on. -/
def lockOutputs (suite : CryptoSuite) (secret : SharedSecret) (address : Address) :
    Nat → List TxOutput → List KeyImageProof → List LockedContribution
  | _, [], _ => []
  | index, output :: rest, proofs =>
      match lockOutput? suite secret address index output proofs with
      | some (l, proofs) => l :: lockOutputs suite secret address (index + 1) rest proofs
      | none => lockOutputs suite secret address (index + 1) rest proofs

/-- The amounts of the outputs that stay locked up to a height. -/
def timeLocked (suite : CryptoSuite) (secret : SharedSecret) (tx : Transaction)
    (untilHeight : Nat) : List Nat :=
  tx.outputs.zipIdx.filterMap fun (output, index) =>
    let unlock := tx.outputUnlockTime index
    if unlock < maxBlockNumber ∧ untilHeight ≤ unlock then
      some (amountOf suite secret index output)
    else none

/-- The contribution that a transaction makes in a block at a height. -/
def ofTransaction? (suite : CryptoSuite) (rules : NetworkRules) (fork : HardFork)
    (tx : Transaction) (height : Nat) : Option Stake := do
  let stake ← header? tx
  let secret ← suite.sharedSecret? stake.address.view stake.txKey
  if HardFork.infiniteStaking ≤ fork then
    let proofs ← tx.keyImageProofs?
    let locked := lockOutputs suite secret stake.address 0 tx.outputs proofs
    return { stake with transferred := satSum (locked.map (·.amount)), locked := locked }
  else
    return { stake with
      transferred := satSum (timeLocked suite secret tx (wrapAdd height rules.stakingLockBlocks)) }

end Stake

end StakeRegistry
