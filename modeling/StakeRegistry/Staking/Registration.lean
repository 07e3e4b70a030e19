import StakeRegistry.Chain.Transaction
import StakeRegistry.Crypto.Suite
import StakeRegistry.Error
import StakeRegistry.Staking.Limits

/-!
# Registrations

The terms under which a node registers, as its transaction gives them, and the checks on them.
Before batched rewards the reserved values are portions and the registration expires at a
time; afterwards they are amounts and the registration names its fork; through the bridge
they are the amounts of contributors known by their Ethereum addresses. The node's key signs
the fee, the reserved values and the fork or time.
-/

set_option autoImplicit false

namespace StakeRegistry

/-- Values up to this one are fork numbers, greater ones are times. -/
def maxForkNumber : Nat := 255

/-- The terms of a registration. -/
structure Registration where
  nodeKey : PublicKey
  /-- Reserved portions or amounts, the operator's first. -/
  reserved : List (Address × Nat)
  /-- Amounts contributed through the bridge, the operator's first. -/
  bridgeContributions : List (EthAddress × Nat)
  blsKey : BlsKey
  fee : Nat
  forkOrExpiry : Nat
  inPortions : Bool
  signature : Signature
  deriving DecidableEq

namespace Registration

/-- The ordinary registration that a transaction carries: none unless the lists of its terms
are equally long and the node's key is given. -/
def ofTransaction? (tx : Transaction) : Option Registration := do
  let terms ← tx.registration?
  if terms.viewKeys.length ≠ terms.spendKeys.length ∨
      terms.amounts.length ≠ terms.spendKeys.length then none
  else
    let nodeKey ← tx.nodeKey?
    return {
      nodeKey := nodeKey
      reserved := (List.zipWith Address.mk terms.spendKeys terms.viewKeys).zip terms.amounts
      bridgeContributions := []
      blsKey := 0
      fee := terms.fee
      forkOrExpiry := terms.forkOrExpiry
      inPortions := decide (maxForkNumber < terms.forkOrExpiry)
      signature := terms.signature }

/-- The registration through the bridge that a transaction carries. -/
def ofBridge? (fork : HardFork) (tx : Transaction) : Option Registration := do
  let r ← tx.bridgeRegistration?
  return {
    nodeKey := r.nodeKey
    reserved := []
    bridgeContributions := r.contributors.map fun c => (c.address, c.amount)
    blsKey := r.blsKey
    fee := r.fee
    forkOrExpiry := fork.number
    inPortions := false
    signature := r.signature }

/-- The fork that the terms are for must be the current one, and portions end with batched
rewards. -/
def checkFork (reg : Registration) (fork : HardFork) : Except RegistrationError Unit :=
  if reg.inPortions then
    if HardFork.rewardBatching ≤ fork then .error .portionsNotPermitted else .ok ()
  else if fork < HardFork.rewardBatching ∨ reg.forkOrExpiry ≠ fork.number then
    .error (.wrongFork reg.forkOrExpiry fork)
  else .ok ()

/-- Whether the terms have to come through the bridge. -/
def needsBridge (reg : Registration) (fork : HardFork) (rules : NetworkRules) : Bool :=
  decide (HardFork.bridge ≤ fork) &&
    (!rules.isFakechain || !reg.bridgeContributions.isEmpty)

/-- The values to check: those of the contributors that the fork allows. -/
def stakes (reg : Registration) (fork : HardFork) (rules : NetworkRules) :
    Except RegistrationError (List Nat) :=
  if reg.needsBridge fork rules then
    if reg.bridgeContributions = [] then .error .noOperator
    else if reg.reserved ≠ [] then .error .ordinaryContributions
    else if contributorSlots fork < reg.bridgeContributions.length then
      .error .tooManyContributors
    else .ok (reg.bridgeContributions.map (·.2))
  else
    if reg.reserved = [] then .error .noOperator
    else if contributorSlots fork < reg.reserved.length then .error .tooManyContributors
    else .ok (reg.reserved.map (·.2))

/-- The greatest fee. -/
def maxFee (reg : Registration) : Nat := if reg.inPortions then stakingPortions else feeBasis

/-- Whether the values are a permitted division of the requirement. -/
def stakesPermitted (reg : Registration) (fork : HardFork) (requirement : Nat)
    (amounts : List Nat) : Bool :=
  if reg.inPortions then portionsFit fork amounts else stakesFit fork requirement amounts

/-- Checks the terms, apart from the signature. -/
def validate (reg : Registration) (fork : HardFork) (rules : NetworkRules)
    (requirement timestamp : Nat) : Except RegistrationError Unit := do
  reg.checkFork fork
  let amounts ← reg.stakes fork rules
  if reg.maxFee < reg.fee then .error (.feeTooHigh reg.fee reg.maxFee)
  else if !reg.stakesPermitted fork requirement amounts then
    .error (.invalidStakes reg.inPortions amounts)
  else if reg.inPortions ∧ reg.forkOrExpiry < timestamp then
    .error (.expired reg.forkOrExpiry timestamp)
  else .ok ()

/-! ## The signature -/

/-- The bytes that the node's key signs. -/
def signedMessage (reg : Registration) : List UInt8 :=
  leBytes 8 reg.fee ++
    (reg.reserved.flatMap fun (address, amount) => address.bytes ++ leBytes 8 amount) ++
    leBytes 8 reg.forkOrExpiry

def hash (suite : CryptoSuite) (reg : Registration) : Hash := suite.hash reg.signedMessage

/-- Checks the node's signature. -/
def validateSignature (suite : CryptoSuite) (reg : Registration) :
    Except RegistrationError Unit :=
  let hash := reg.hash suite
  if !suite.isValidKey reg.nodeKey then .error (.invalidNodeKey reg.nodeKey)
  else if !suite.verify hash reg.nodeKey reg.signature then
    .error (.invalidSignature reg.nodeKey hash)
  else .ok ()

end Registration

end StakeRegistry
