import StakeRegistry.Staking.Registration
import StakeRegistry.Staking.Stake

/-!
# New nodes

The entry that an accepted registration creates. An ordinary registration reserves amounts and
comes with the operator's contribution, which is credited afterwards; a registration through
the bridge arrives with every contribution made, and its node is active at once.
-/

set_option autoImplicit false

namespace StakeRegistry

/-- Where a registration stands: the block's fork, time and height, and the transaction's
position in the block. -/
structure BlockPlace where
  fork : HardFork
  timestamp : Nat
  height : Nat
  index : Nat

/-- The entry of a node registered at a place, before its contributors are entered. -/
def NodeInfo.registeredAt (place : BlockPlace) (requirement : Nat) : NodeInfo :=
  { registrationFork := place.fork
    stakingRequirement := requirement
    registrationHeight := place.height
    lastRewardHeight := place.height
    lastRewardIndex := place.index
    lastIpChangeHeight := place.height }

/-- Whether some item of a list occurs again later in it. -/
def hasRepeats {α : Type} [DecidableEq α] : List α → Bool
  | [] => false
  | a :: rest => decide (a ∈ rest) || hasRepeats rest

/-- Checks the operator's contribution of a registration: since Pulse, one output from the
operator; before, an amount that is large enough and no more participants than slots. -/
def checkOperatorStake (place : BlockPlace) (requirement : Nat) (reg : Registration)
    (operator : Address) (stake : Stake) : Except RegistrationError Unit :=
  if HardFork.pulse ≤ place.fork then
    if stake.locked.length ≠ 1 then .error .severalOutputs
    else if stake.address ≠ operator then .error .notFromOperator
    else .ok ()
  else
    let minimum := minContribution place.fork requirement 0 0
    let participants :=
      if reg.reserved.any fun r => r.1 == stake.address then reg.reserved.length
      else reg.reserved.length + 1
    if stake.transferred < minimum then
      .error (.belowMinimum stake.transferred minimum place.height)
    else if portionSlots < participants then
      .error (.tooManyParticipants participants portionSlots place.height)
    else .ok ()

/-- The amount that a reserved value stands for. -/
def reservedAmount (reg : Registration) (requirement value : Nat) : Nat :=
  if reg.inPortions then portionsToAmount value requirement else value

/-- The contributors that a registration reserves amounts for. -/
def reservedContributors (reg : Registration) (requirement : Nat) : List Contributor :=
  reg.reserved.map fun (address, value) =>
    Contributor.reserving (reservedAmount reg requirement value) address

/-- The operator's fee in portions. -/
def feePortions (reg : Registration) : Nat :=
  if reg.inPortions then reg.fee else mulDiv reg.fee stakingPortions feeBasis

/-- The node that a transaction registers, or none if it carries no registration. -/
def registeredNode (suite : CryptoSuite) (rules : NetworkRules) (place : BlockPlace)
    (tx : Transaction) : Except RegistrationError (Option (PublicKey × NodeInfo)) :=
  match Registration.ofTransaction? tx with
  | none => .ok none
  | some reg => do
      let requirement := rules.stakingRequirement
      reg.validate place.fork rules requirement place.timestamp
      reg.validateSignature suite
      match Stake.ofTransaction? suite rules place.fork tx place.height, reg.reserved.head? with
      | none, _ => .error (.undecodableStake place.height tx.hash)
      | some _, none => .error .noOperator
      | some stake, some (operator, _) => do
          checkOperatorStake place requirement reg operator stake
          let contributors := reservedContributors reg requirement
          if hasRepeats (reg.reserved.map (·.1)) then .error (.duplicateAddress tx.hash)
          else if HardFork.pulse ≤ place.fork ∧
              contributors.head?.any fun c => decide (stake.transferred < c.reserved) then
            .error .insufficientOperatorStake
          else
            return some (reg.nodeKey,
              { NodeInfo.registeredAt place requirement with
                operator := operator
                operatorPortions := feePortions reg
                contributors := contributors
                totalReserved := totalOf (contributors.map (·.reserved)) })

/-- The node that a transaction registers through the bridge. -/
def bridgedNode (suite : CryptoSuite) (rules : NetworkRules) (place : BlockPlace)
    (tx : Transaction) : Except RegistrationError (PublicKey × NodeInfo) :=
  match Registration.ofBridge? place.fork tx with
  | none => .error .noBridgeRegistration
  | some reg => do
      let requirement := rules.stakingRequirement
      reg.validate place.fork rules requirement place.timestamp
      reg.validateSignature suite
      match reg.bridgeContributions.head? with
      | none => .error .noOperator
      | some (operator, _) =>
          if hasRepeats (reg.bridgeContributions.map (·.1)) then
            .error (.duplicateAddress tx.hash)
          else
            let total := totalOf (reg.bridgeContributions.map (·.2))
            return (reg.nodeKey,
              { NodeInfo.registeredAt place requirement with
                ethOperator := operator
                blsKey := reg.blsKey
                operatorPortions := requirement
                activeSince := toI64 place.height
                contributors := reg.bridgeContributions.map fun (address, amount) =>
                  ⟨amount, amount, Address.null, [], address⟩
                totalReserved := total
                totalContributed := total })

end StakeRegistry
